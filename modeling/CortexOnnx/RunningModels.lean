import CortexOnnx.Tracking
import CortexOnnx.Utf8Vendor

/-!
# What `GetModels` lists

The answer of `GetModels` is determined by the calls and steps so far: a load that succeeded puts
its model on the list, an unload or a teardown takes it off, a restart puts it back, and whatever
fails leaves the list alone.
-/

namespace CortexOnnx

variable {σ : Type} {vendor : Vendor σ} {grain : Grain}

namespace Act

/-- A `LoadModel` call that succeeds. -/
def loadSucceeds (env : Env) (jsonBody : Json) : Bool :=
  (readConfig jsonBody).isOk && !loadThrows env jsonBody

/-- Whether there is a model on the list after the step, for a step that decides it. -/
def shows? : Act → Option Bool
  | .loadModel env jsonBody => if loadSucceeds env jsonBody then some true else none
  -- refused where there is none
  | .unloadModel _ => some false
  | .throughput env => if env.slow then some false else none
  | .reload env => if env.throwsIn createCalls then none else some true
  | _ => none

/-- The id under which a model is put on the list. -/
def names? : Act → Option String
  | .loadModel env jsonBody =>
      if loadSucceeds env jsonBody then (getModelId jsonBody).toOption else none
  | _ => none

/-- The time at which a model started. -/
def startsAt? : Act → Option Nat
  | .loadModel env jsonBody => if loadSucceeds env jsonBody then some env.startTime else none
  | .reload env => if env.throwsIn createCalls then none else some env.startTime
  | _ => none

theorem loadSucceeds_of_reads {env : Env} {jsonBody : Json} {config : Config}
    (reads : readConfig jsonBody = .ok config) (succeeds : loadThrows env jsonBody = false) :
    loadSucceeds env jsonBody = true := by
  rw [loadSucceeds, reads, succeeds]
  rfl

end Act

/-- The one entry of a list that is not empty. -/
def modelEntry (modelId : String) (startTime : Nat) : Json :=
  .obj [("engine", .str "cortex.onnx"), ("id", .str modelId), ("object", .str "model"),
    ("ram", .str "-"), ("start_time", .int startTime), ("vram", .str "-")]

/-- What the steps of a run put on the list. -/
def listing (acts : List Act) : List Json :=
  match latest Act.shows? acts, latest Act.names? acts, latest Act.startsAt? acts with
  | some true, some modelId, some startTime => [modelEntry modelId startTime]
  | _, _, _ => []

namespace System

/-- What a step does to the three fields that `GetModels` reads. -/
theorem Transition.lists {s t : System σ} {act : Act} (ht : Transition vendor s act t) :
    t.engine.modelLoaded = act.shows?.getD s.engine.modelLoaded ∧
      t.engine.modelId = act.names?.getD s.engine.modelId ∧
      t.engine.startTime = act.startsAt?.getD s.engine.startTime := by
  cases ht with
  | @loadThrew env jsonBody what reads =>
    have hfails : Act.loadSucceeds env jsonBody = false := by rw [Act.loadSucceeds, reads]; rfl
    simp [Act.shows?, Act.names?, Act.startsAt?, hfails, OnnxEngine.withConfig]
  | @loadFailed env jsonBody config early reads throws =>
    have hfails : Act.loadSucceeds env jsonBody = false := by rw [Act.loadSucceeds, throws]; simp
    simp [Act.shows?, Act.names?, Act.startsAt?, hfails, OnnxEngine.withConfig,
      OnnxEngine.dropHandles]
  | @loaded env jsonBody config modelId reads succeeds names =>
    have hloads := Act.loadSucceeds_of_reads reads succeeds
    simp [Act.shows?, Act.names?, Act.startsAt?, hloads, names, Except.toOption,
      OnnxEngine.markLoaded]
  | unloadRefused unset => exact ⟨unset, rfl, rfl⟩
  | tornDown _ slow | fastEnough _ slow =>
    simp [Act.shows?, Act.names?, Act.startsAt?, slow, OnnxEngine.tornDown,
      OnnxEngine.dropHandles]
  | reloaded _ calls | reloadFailed _ calls =>
    simp [Act.shows?, Act.names?, Act.startsAt?, calls, OnnxEngine.markLoaded,
      OnnxEngine.dropHandles]
  | _ => exact ⟨rfl, rfl, rfl⟩

/-- There is a queue, or the worker is at a task of it. -/
def HasQueue (s : System σ) : Prop :=
  s.engine.q.isSome = true ∨ s.worker.task?.isSome = true

/-- Only a load creates the queue, and it names its model. -/
theorem Transition.hasQueue {s t : System σ} {act : Act} (ht : Transition vendor s act t)
    (h : t.HasQueue) :
    s.HasQueue ∨ (act.names?.isSome = true ∧ act.startsAt?.isSome = true) := by
  cases ht with
  | @loaded env jsonBody config modelId reads succeeds names =>
    have hloads := Act.loadSucceeds_of_reads reads succeeds
    apply Or.inr
    simp [Act.names?, Act.startsAt?, hloads, names, Except.toOption]
  | chatQueued _ _ queues | streamStarted _ queues | generated _ queues | startFailed _ queues
  | startFaulted _ queues | generateFaulted _ queues =>
    exact Or.inl (Or.inl (by rw [queues]; rfl))
  | turned at_ | loopLeft at_ | turnFailed at_ | turnFaulted at_ | leftUnloaded at_ | leftLoaded at_
  | tornDown at_ | fastEnough at_ | reloaded at_ | reloadFailed at_ | finished at_ =>
    exact Or.inl (Or.inr (by rw [at_]; rfl))
  | _ => exact Or.inl h

/-- The three fields after a run, and what has been named when there is a queue. -/
structure Lists (startTime : Nat) (acts : List Act) (s : System σ) : Prop where
  tracked : s.Tracked
  modelLoaded : s.engine.modelLoaded = (latest Act.shows? acts).getD false
  modelId : s.engine.modelId = (latest Act.names? acts).getD ""
  startTime : s.engine.startTime = (latest Act.startsAt? acts).getD startTime
  named : s.HasQueue → (latest Act.names? acts).isSome = true ∧
    (latest Act.startsAt? acts).isSome = true

theorem run_lists {startTime : Nat} {maxHistoryChat : Int} {es : List (System σ × Act)}
    {t : System σ} (hrun : Run (step vendor grain) (fresh startTime maxHistoryChat) es t) :
    t.Lists startTime (es.map Prod.snd) := by
  induction hrun with
  | nil =>
    refine ⟨fresh_tracked startTime maxHistoryChat, rfl, rfl, rfl, ?_⟩
    rintro (hqueue | hworker)
    · cases hqueue
    · cases hworker
  | @snoc es s t act before taken ih =>
    have ht := ih.tracked.transition taken
    obtain ⟨hflag, hid, htime⟩ := ht.lists
    have hlatest : ∀ {β : Type} (f : Act → Option β),
        latest f ((es ++ [(s, act)]).map Prod.snd) = (f act).or (latest f (es.map Prod.snd)) := by
      intro β f
      rw [List.map_append, latest_append, List.map_cons, List.map_nil, latest_cons, latest_nil,
        Option.none_or]
    constructor
    · exact ht.tracked ih.tracked
    · rw [hflag, ih.modelLoaded, hlatest, Option.getD_or]
    · rw [hid, ih.modelId, hlatest, Option.getD_or]
    · rw [htime, ih.startTime, hlatest, Option.getD_or]
    · intro hqueue
      rw [hlatest, hlatest, Option.isSome_or, Option.isSome_or]
      rcases ht.hasQueue hqueue with hold | ⟨hnamed, hstarted⟩
      · obtain ⟨hnamed, hstarted⟩ := ih.named hold
        rw [hnamed, hstarted, Bool.or_true, Bool.or_true]
        exact ⟨rfl, rfl⟩
      · rw [hnamed, hstarted]
        exact ⟨rfl, rfl⟩

theorem Lists.runningModels {startTime : Nat} {acts : List Act} {s : System σ}
    (h : s.Lists startTime acts) : runningModels s.engine = listing acts := by
  have hflag := h.modelLoaded
  cases hshown : latest Act.shows? acts with
  | none =>
    rw [hshown] at hflag
    simp [CortexOnnx.runningModels, listing, hflag, hshown]
  | some shown =>
    rw [hshown, Option.getD_some] at hflag
    cases shown with
    | false => simp [CortexOnnx.runningModels, listing, hflag, hshown]
    | true =>
      -- a set flag comes with a queue, and so with a name and a time
      obtain ⟨hnamed, hstarted⟩ := h.named (Or.inl (h.tracked.queue hflag))
      obtain ⟨modelId, hname⟩ := Option.isSome_iff_exists.mp hnamed
      obtain ⟨time, htime⟩ := Option.isSome_iff_exists.mp hstarted
      have hid := h.modelId
      have hstart := h.startTime
      rw [hname, Option.getD_some] at hid
      rw [htime, Option.getD_some] at hstart
      simp [CortexOnnx.runningModels, listing, modelEntry, hflag, hshown, hname, htime, hid,
        hstart]

/-- **`GetModels` lists what the steps so far left running**, whenever it is called. -/
theorem getModels_lists {startTime : Nat} {maxHistoryChat : Int} {es : List (System σ × Act)}
    {s t : System σ} {jsonBody : Json}
    (hrun : Run (step vendor grain) (fresh startTime maxHistoryChat) es s)
    (taken : step vendor grain s (.getModels jsonBody) = some t) :
    t = s.answer s.engine [.callback s.next .ok
      (.obj [("data", .arr (listing (es.map Prod.snd))), ("object", .str "list")])] := by
  have hlists := run_lists hrun
  have ht := hlists.tracked.transition taken
  cases ht
  rw [modelsReply, hlists.runningModels]

/-- A load that succeeds, one that fails, and a stream that restarts the first. -/
def loadedTwice : List Act :=
  [.loadModel { startTime := 7 } (loadRequest "m"), .handleChatCompletion (chatRequest true "x"),
    .start {}, .loadModel (Env.failing .tokenizerCreate) (loadRequest "n"),
    .iterate { isDone := true }, .postLoop, .throughput { slow := true },
    .reload { startTime := 9 }]

theorem getModels_lists_loadedTwice : ∃ s t,
    execute (step utf8Vendor .fine) (fresh 0 0) loadedTwice = some s ∧
    t = s.answer s.engine [.callback s.next .ok (.obj
      [("data", .arr (listing ((trace (step utf8Vendor .fine) (fresh 0 0) loadedTwice).map
        Prod.snd))), ("object", .str "list")])] := by
  have hruns : (execute (step utf8Vendor .fine) (fresh 0 0) loadedTwice).any
      (fun s => (step utf8Vendor .fine s (.getModels .null)).isSome) = true := by decide
  obtain ⟨s, hexecute, hrun, htaken⟩ := exists_run_of_execute hruns
  obtain ⟨t, htaken⟩ := Option.isSome_iff_exists.mp htaken
  exact ⟨s, t, hexecute, getModels_lists hrun htaken⟩

end System

end CortexOnnx

import CortexOnnx.Tracking
import CortexOnnx.Utf8Vendor

/-!
# What a set `model_loaded_` promises

Handler calls and whole tasks are atomic here, so the engine is looked at while the worker is idle.
The two `catch` blocks reset the handles and leave the flag, so a set flag means a model exactly as
long as nothing has thrown inside a `try` block while the flag was set.
-/

namespace CortexOnnx

variable {σ : Type} {vendor : Vendor σ}

/-- A set flag means a model, a tokenizer, a tokenizer stream and a queue. -/
def OnnxEngine.ModelHeld (engine : OnnxEngine σ) : Prop :=
  engine.modelLoaded = true →
    engine.ogaModel.isSome = true ∧ engine.tokenizer.isSome = true ∧
      engine.tokenizerStream.isSome = true ∧ engine.q.isSome = true

namespace System

/-- A library call throws inside the `try` block of `LoadModel` or of the running task. -/
def throws (s : System σ) : Act → Bool
  | .loadModel env jsonBody => (readConfig jsonBody).isOk && loadThrows env jsonBody
  | .start env => s.engine.nextTask?.any fun task => env.throwsIn (taskCalls task)
  | .iterate env => s.engine.turnThrows env
  | .reload env => env.throwsIn createCalls
  | _ => false

/-- Something throws while the flag is set. -/
def losesModel (s : System σ) (act : Act) : Bool := s.engine.modelLoaded && s.throws act

/-- In the middle of a task no handler call intervenes, so the handles are set but for the restart.
-/
def MidTask (s : System σ) : Prop :=
  match s.worker with
  | .idle | .reload _ => True
  | _ => s.engine.ogaModel.isSome = true

/-- `ModelHeld`, looked at between tasks. -/
def SettledHeld (s : System σ) : Prop := s.worker = .idle → s.engine.ModelHeld

/-- The handles are aligned and a set flag comes with a queue, so only the model matters. -/
theorem Tracked.modelHeld_iff {s : System σ} (h : s.Tracked) :
    s.engine.ModelHeld ↔ (s.engine.modelLoaded = true → s.engine.ogaModel.isSome = true) := by
  constructor
  · intro hheld hset
    exact (hheld hset).1
  · intro hmodel hset
    -- the other two handles come with the model, the queue with the flag
    obtain ⟨model, state, holds⟩ := h.aligned.holds_of (hmodel hset)
    have hqueue := h.queue hset
    simp [holds.ogaModel, holds.tokenizer, holds.tokenizerStream, hqueue]

theorem Transition.midTask {s t : System σ} {act : Act} (ht : Transition vendor s act t)
    (hmid : s.MidTask) (hatomic : (handler vendor s.next act).isSome → s.worker = .idle) :
    t.MidTask := by
  unfold MidTask at hmid ⊢
  cases ht with
  | loadThrew | loadFailed | loaded | unloadRefused | unloaded | chatRefused | chatThrew
  | chatQueued | chatFaulted | embedding | modelStatus | models =>
    -- a handler call leaves the worker idle
    have hidle := hatomic rfl
    simp [hidle]
  | streamStarted idle queues stream holds =>
    simp only [moves_worker, moves_engine, OnnxEngine.dequeue, holds.ogaModel]
    rfl
  | startFaulted idle => simp [idle]
  | generateFaulted idle => simp [idle]
  | generated | startFailed | turnFailed | leftUnloaded | reloadFailed | finished => trivial
  | turned | reloaded => rfl
  | loopLeft at_ => simpa [at_] using hmid
  | leftLoaded at_ => simpa [at_] using hmid
  | fastEnough at_ => simpa [at_] using hmid
  | turnFaulted at_ => simpa [at_] using hmid
  | tornDown => trivial

theorem settledHeld_iff_of_quiet {s t : System σ} {act : Act} (hquiet : s.throws act = false)
    (hheld : t.SettledHeld) : t.SettledHeld ↔ s.losesModel act = false := by
  have hloses : s.losesModel act = false := by
    rw [losesModel, hquiet, Bool.and_false]
  exact iff_of_true hheld hloses

/-- After a `catch` block the handles are null and the flag is as it was. -/
theorem settledHeld_iff_of_caught {s t : System σ} {act : Act} (hthrows : s.throws act = true)
    (hidle : t.worker = .idle) (hflag : t.engine.modelLoaded = s.engine.modelLoaded)
    (hmodel : t.engine.ogaModel = none) : t.SettledHeld ↔ s.losesModel act = false := by
  rw [losesModel, hthrows, Bool.and_true, ← hflag, SettledHeld, OnnxEngine.ModelHeld]
  constructor
  · intro hheld
    -- a set flag would promise the model that the block has just dropped
    by_cases hset : t.engine.modelLoaded = true
    · have hsome := (hheld hidle hset).1
      rw [hmodel] at hsome
      cases hsome
    · simpa using hset
  · intro hunset _ hset
    rw [hunset] at hset
    cases hset

/-- One step, from a state where the promise holds: it holds afterwards unless something threw while
the flag was set. -/
theorem Transition.settledHeld_iff {s t : System σ} {act : Act} (ht : Transition vendor s act t)
    (h : s.Tracked) (hmid : s.MidTask)
    (hatomic : (handler vendor s.next act).isSome → s.worker = .idle) (hheld : s.SettledHeld) :
    t.SettledHeld ↔ s.losesModel act = false := by
  have htracked := ht.tracked h
  unfold MidTask at hmid
  cases ht with
  -- the exception is raised before the `try` block
  | loadThrew reads =>
    apply settledHeld_iff_of_quiet
    · simp [throws, reads, Except.isOk, Except.toBool]
    · exact hheld
  | loadFailed reads hthrows =>
    apply settledHeld_iff_of_caught
    · simp [throws, reads, hthrows, Except.isOk, Except.toBool]
    · exact hatomic rfl
    · rfl
    · rfl
  | loaded reads succeeds =>
    apply settledHeld_iff_of_quiet
    · simp [throws, succeeds]
    · intro _
      exact htracked.modelHeld_iff.mpr fun _ => rfl
  | unloadRefused | chatRefused | chatThrew | chatFaulted | embedding | modelStatus | models =>
    apply settledHeld_iff_of_quiet
    · rfl
    · exact hheld
  | unloaded =>
    apply settledHeld_iff_of_quiet
    · rfl
    · intro _ hset
      cases hset
  -- only the queue has changed
  | chatQueued set =>
    apply settledHeld_iff_of_quiet
    · rfl
    · intro hidle
      exact htracked.modelHeld_iff.mpr (h.modelHeld_iff.mp (hheld hidle))
  | streamStarted idle queues stream holds succeeds =>
    apply settledHeld_iff_of_quiet
    · simp [throws, OnnxEngine.nextTask?, queues, taskCalls, stream, succeeds]
    · intro hidle
      cases hidle
  | generated idle queues whole holds succeeds =>
    apply settledHeld_iff_of_quiet
    · simp [throws, OnnxEngine.nextTask?, queues, taskCalls, whole, succeeds]
    · intro _
      exact htracked.modelHeld_iff.mpr fun _ => by simp [OnnxEngine.dequeue, holds.ogaModel]
  | startFailed idle queues hthrows =>
    apply settledHeld_iff_of_caught
    · simp [throws, OnnxEngine.nextTask?, queues, hthrows]
    · rfl
    · rfl
    · rfl
  | startFaulted idle queues empty reached =>
    -- the handles are null, so the flag is clear and no `catch` block can lose anything
    have hunset : s.engine.modelLoaded = false := by
      by_cases hset : s.engine.modelLoaded = true
      · have hsome := (hheld idle hset).1
        rw [empty.ogaModel] at hsome
        cases hsome
      · simpa using hset
    apply iff_of_true
    · intro _ hset
      exact absurd (hunset.symm.trans hset) Bool.false_ne_true
    · rw [losesModel, hunset, Bool.false_and]
  | generateFaulted idle queues holds whole succeeds =>
    apply settledHeld_iff_of_quiet
    · simp [throws, OnnxEngine.nextTask?, queues, taskCalls, whole, succeeds]
    · intro _
      exact htracked.modelHeld_iff.mpr fun _ => by simp [OnnxEngine.dequeue, holds.ogaModel]
  | turned at_ holds turns succeeds =>
    apply settledHeld_iff_of_quiet
    · exact succeeds
    · intro hidle
      cases hidle
  | loopLeft at_ tests stops =>
    apply settledHeld_iff_of_quiet
    · simp [throws, OnnxEngine.turnThrows, tests, stops]
    · intro hidle
      cases hidle
  | turnFailed at_ hthrows =>
    apply settledHeld_iff_of_caught
    · exact hthrows
    · rfl
    · rfl
    · rfl
  | turnFaulted at_ empty =>
    -- between two turns the handles are set
    simp [at_, empty.ogaModel] at hmid
  | leftUnloaded at_ unset =>
    apply settledHeld_iff_of_quiet
    · rfl
    · intro _ hset
      exact absurd (unset.symm.trans hset) Bool.false_ne_true
  -- the task goes on, so there is nothing to look at yet
  | leftLoaded | tornDown | fastEnough =>
    apply settledHeld_iff_of_quiet
    · rfl
    · intro hidle
      cases hidle
  | reloaded at_ succeeds =>
    apply settledHeld_iff_of_quiet
    · exact succeeds
    · intro hidle
      cases hidle
  | reloadFailed at_ hthrows =>
    apply settledHeld_iff_of_caught
    · exact hthrows
    · rfl
    · rfl
    · rfl
  -- the task ends, and what held inside it is looked at again
  | finished at_ =>
    apply settledHeld_iff_of_quiet
    · rfl
    · intro _
      apply h.modelHeld_iff.mpr
      intro _
      simpa [at_] using hmid

/-- **The flag's promise.**  A run of atomic handler calls and tasks keeps it in every state exactly
when nothing throws inside a `try` block while the flag is set. -/
theorem settledHeld_throughout_iff {startTime : Nat} {maxHistoryChat : Int}
    {es : List (System σ × Act)} {t : System σ}
    (hrun : Run (step vendor .task) (fresh startTime maxHistoryChat) es t) :
    Throughout SettledHeld es t ↔ EveryStep (fun s act => s.losesModel act = false) es := by
  apply hrun.throughout_iff (I := fun s => s.Tracked ∧ s.MidTask)
  · exact ⟨fresh_tracked startTime maxHistoryChat, trivial⟩
  · intro s act t hs _ htaken _
    have ht := hs.1.transition htaken
    exact ⟨ht.tracked hs.1, ht.midTask hs.2 (idle_of_taskGrain hs.1 htaken)⟩
  · intro _ hset
    cases hset
  · intro s act t hs hheld htaken
    have ht := hs.1.transition htaken
    exact ht.settledHeld_iff hs.1 hs.2 (idle_of_taskGrain hs.1 htaken) hheld

/-- A load, a chat and its task, an unload. -/
def served : List Act :=
  [.loadModel {} (loadRequest "m"), .handleChatCompletion (chatRequest false "x"),
    .start { output := utf8Bytes "USER: xASSISTANT: ok" }, .unloadModel (.obj [])]

theorem settledHeld_of_served : ∃ t,
    execute (step utf8Vendor .task) (fresh 0 0) served = some t ∧
      Throughout SettledHeld (trace (step utf8Vendor .task) (fresh 0 0) served) t := by
  have hruns : (execute (step utf8Vendor .task) (fresh 0 0) served).any
      (fun t => t.fault.isNone) = true := by decide
  obtain ⟨t, hexecute, hrun, _⟩ := exists_run_of_execute hruns
  have hquiet : ∀ e ∈ trace (step utf8Vendor .task) (fresh 0 0) served,
      e.1.losesModel e.2 = false := by decide
  exact ⟨t, hexecute, (settledHeld_throughout_iff hrun).mpr hquiet⟩

/-- A load that fails over a loaded model: the flag survives the handles. -/
theorem failedLoad_breaks_settledHeld :
    ¬∀ es t, Run (step utf8Vendor .task) (fresh 0 0) es t → Throughout SettledHeld es t := by
  have hruns : (execute (step utf8Vendor .task) (fresh 0 0)
      [.loadModel {} (loadRequest "m"),
        .loadModel (.failing .modelCreate) (loadRequest "n")]).any
        (fun t => t.worker.isIdle && t.engine.modelLoaded && t.engine.ogaModel.isNone) = true := by
    decide
  obtain ⟨t, _, hrun, hbroken⟩ := exists_run_of_execute hruns
  intro hclaim
  rw [Bool.and_eq_true, Bool.and_eq_true, Worker.isIdle_iff] at hbroken
  have hsome := ((hclaim _ t hrun).2 hbroken.1.1 hbroken.1.2).1
  rw [Option.isNone_iff_eq_none.mp hbroken.2] at hsome
  cases hsome

end System

end CortexOnnx

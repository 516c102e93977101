import CortexOnnx.Lib.Transducer
import CortexOnnx.ReplyProtocol

/-!
# Whether requests leak into later ones

The one tokenizer stream is created at load time and its decoder keeps its state from one request to
the next.  A request starts where the ones before it stopped, so its texts are its own exactly when
no continuation tells that state from the initial one.
-/

namespace CortexOnnx

variable {σ : Type} {vendor : Vendor σ}

/-- The token of a turn and the text it was decoded to. -/
def Event.decoding? : Event → Option (Int × String)
  | .decoded _ token text => some (token, text)
  | _ => none

def decodings (events : List Event) : List (Int × String) := events.filterMap Event.decoding?

@[simp] theorem decodings_append (before after : List Event) :
    decodings (before ++ after) = decodings before ++ decodings after := List.filterMap_append

/-- The path of the current load and the tokens decoded since, as long as nothing has unloaded,
restarted or dropped its handles. -/
def decodeEvent : Option (String × List Int) → Event → Option (String × List Int)
  -- a load starts afresh, with an initial decoder
  | _, .modelLoaded request => (readConfig request).toOption.map fun config => (config.path, [])
  | served, .decoded _ token _ => served.map fun (path, tokens) => (path, tokens ++ [token])
  | served, event => if event.live?.isSome then none else served

def servedSince (log : List Event) : Option (String × List Int) := log.foldl decodeEvent none

theorem servedSince_append (log events : List Event) :
    servedSince (log ++ events) = events.foldl decodeEvent (servedSince log) := by
  rw [servedSince, List.foldl_append]
  rfl

/-- Events that neither decode nor touch the handles. -/
theorem foldl_decodeEvent {served : Option (String × List Int)} {events : List Event}
    (h : ∀ e ∈ events, e.decoding? = none ∧ e.live? = none) :
    events.foldl decodeEvent served = served := by
  induction events generalizing served with
  | nil => rfl
  | cons event rest ih =>
      have hevent := h event List.mem_cons_self
      have hkept : decodeEvent served event = served := by
        cases event <;> simp_all [decodeEvent, Event.decoding?, Event.live?]
      rw [List.foldl_cons, hkept]
      exact ih fun e he => h e (List.mem_cons_of_mem _ he)

/-- What drops the handles ends what was served since. -/
theorem foldl_decodeEvent_drop {served : Option (String × List Int)} {events : List Event}
    {event : Event} (hmem : event ∈ events) (hdrops : event.live? = some false)
    (hloads : ∀ e ∈ events, e.load? = none) : events.foldl decodeEvent served = none := by
  have hnone : ∀ (rest : List Event), (∀ e ∈ rest, e.load? = none) →
      rest.foldl decodeEvent none = none := by
    intro rest hrest
    induction rest with
    | nil => rfl
    | cons e rest ih =>
        have he := hrest e List.mem_cons_self
        have hkept : decodeEvent none e = none := by
          cases e <;> simp_all [decodeEvent, Event.load?]
        rw [List.foldl_cons, hkept]
        exact ih fun e' he' => hrest e' (List.mem_cons_of_mem _ he')
  -- at the event nothing is served, and without a load that stays so
  obtain ⟨before, after, hsplit⟩ := List.append_of_mem hmem
  subst hsplit
  have hdropped : ∀ served, decodeEvent served event = none := by
    intro served
    cases event <;> simp_all [decodeEvent, Event.live?]
  rw [List.foldl_append, List.foldl_cons, hdropped]
  apply hnone
  intro e he
  exact hloads e (List.mem_append_right _ (List.mem_cons_of_mem _ he))

namespace System

variable (vendor) in
/-- The decoder has seen exactly the tokens generated since the load. -/
def Decoded (s : System σ) : Prop :=
  ∀ path tokens, servedSince s.log = some (path, tokens) → ∃ model, model.path = path ∧
    s.engine.Holds model (advance (vendor.streamDecode path) (vendor.streamInit path) tokens)

/-- A step without a turn, a load or the end of the handles. -/
theorem Decoded.kept {s t : System σ} {events : List Event} (h : s.Decoded vendor)
    (log : t.log = s.log ++ events) (quiet : ∀ e ∈ events, e.decoding? = none ∧ e.live? = none)
    (handles : ∀ model state, s.engine.Holds model state → t.engine.Holds model state) :
    t.Decoded vendor := by
  intro path tokens hserved
  rw [log, servedSince_append, foldl_decodeEvent quiet] at hserved
  obtain ⟨model, hpath, hholds⟩ := h path tokens hserved
  exact ⟨model, hpath, handles model _ hholds⟩

theorem decoded_of_dropped {s t : System σ} {events : List Event} {event : Event}
    (log : t.log = s.log ++ events) (hmem : event ∈ events) (hdrops : event.live? = some false)
    (hloads : ∀ e ∈ events, e.load? = none) : t.Decoded vendor := by
  intro path tokens hserved
  rw [log, servedSince_append, foldl_decodeEvent_drop hmem hdrops hloads] at hserved
  cases hserved

theorem uses_quietly {id : Nat} {epoch : Option Nat} {uses : List Event} (h : Uses id epoch uses) :
    ∀ e ∈ uses, e.decoding? = none ∧ e.live? = none ∧ e.load? = none := by
  intro e he
  rcases h e he with rfl | rfl <;> exact ⟨rfl, rfl, rfl⟩

theorem inferenceError_mem (uses : List Event) (id : Nat) :
    .inferenceError id ∈ uses ++ failedEvents id :=
  List.mem_append_right _ List.mem_cons_self

theorem failed_decoding {engine : OnnxEngine σ} {id : Nat} {uses : List Event}
    (used : engine.MayUse id uses) : ∀ e ∈ uses ++ failedEvents id, e.decoding? = none := by
  obtain ⟨epoch, huses⟩ := used.uses
  intro e he
  rcases List.mem_append.mp he with he | he
  · exact (uses_quietly huses e he).1
  · simp only [failedEvents, inferenceFailedReply, List.mem_cons, List.not_mem_nil, or_false] at he
    rcases he with rfl | rfl <;> rfl

theorem decoded_of_caught {s : System σ} {engine : OnnxEngine σ} {id : Nat} {uses : List Event}
    (used : s.engine.MayUse id uses) :
    (s.moves engine (uses ++ failedEvents id) .idle).Decoded vendor := by
  obtain ⟨epoch, huses⟩ := used.uses
  apply decoded_of_dropped rfl (inferenceError_mem uses id)
  · rfl
  · intro e he
    rcases List.mem_append.mp he with he | he
    · exact (uses_quietly huses e he).2.2
    · simp only [failedEvents, inferenceFailedReply, List.mem_cons, List.not_mem_nil,
        or_false] at he
      rcases he with rfl | rfl <;> rfl

theorem Transition.decoded {s t : System σ} {act : Act} (ht : Transition vendor s act t)
    (h : s.Decoded vendor) : t.Decoded vendor := by
  cases ht with
  | loadThrew | unloadRefused | chatRefused | chatThrew | chatQueued | chatFaulted | embedding
  | modelStatus | models | generated | startFaulted | loopLeft | turnFaulted | leftUnloaded
  | leftLoaded | fastEnough | finished =>
    apply h.kept rfl
    · simp [Event.decoding?, Event.live?, refusal, modelStatusReply, modelsReply,
        streamUnloadedReply, stopReply]
    · intro model state holds
      exact ⟨holds.1, holds.2, holds.3⟩
  | streamStarted =>
    apply h.kept rfl
    · intro e he
      rw [List.eq_of_mem_replicate he]
      exact ⟨rfl, rfl⟩
    · intro model state holds
      exact ⟨holds.1, holds.2, holds.3⟩
  | generateFaulted idle queues holds whole succeeds used =>
    obtain ⟨epoch, huses⟩ := used.uses
    apply h.kept rfl
    · intro e he
      exact ⟨(uses_quietly huses e he).1, (uses_quietly huses e he).2.1⟩
    · intro model state holds
      exact ⟨holds.1, holds.2, holds.3⟩
  | @loadFailed env jsonBody config early reads throws told =>
    have hmem : .loadFailed ∈ early ++ [.loadFailed, loadFailedReply s.next] :=
      List.mem_append_right _ List.mem_cons_self
    apply decoded_of_dropped rfl hmem rfl
    rcases told with rfl | rfl <;> simp [Event.load?, loadedReply, loadFailedReply]
  | unloaded =>
    have hmem : .modelUnloaded ∈ [unloadedReply s.next, .modelUnloaded] :=
      List.mem_cons_of_mem _ List.mem_cons_self
    exact decoded_of_dropped rfl hmem rfl (by simp [Event.load?, unloadedReply])
  | tornDown => exact decoded_of_dropped rfl List.mem_cons_self rfl (by simp [Event.load?])
  | startFailed idle queues throws used => exact decoded_of_caught used
  | turnFailed at_ throws used => exact decoded_of_caught used
  | @reloadFailed env task at_ throws =>
    have hcaught :
        (s.moves s.engine.dropHandles ([] ++ failedEvents task.id) .idle).Decoded vendor :=
      decoded_of_caught (Or.inl rfl)
    exact hcaught
  | @loaded env jsonBody config modelId reads succeeds names =>
    intro path tokens hserved
    rw [answer_log, servedSince_append] at hserved
    simp [decodeEvent, loadedReply, reads, Except.toOption, Event.live?] at hserved
    obtain ⟨rfl, rfl⟩ := hserved
    exact ⟨{ path := config.path, epoch := some (epoch s.log + 1) }, rfl, rfl, rfl, rfl⟩
  | @turned env task sequence model state at_ holds =>
    intro path tokens hserved
    rw [moves_log, servedSince_append] at hserved
    cases hbefore : servedSince s.log with
    | none => simp [hbefore, decodeEvent, Event.live?, chunkReply] at hserved
    | some served =>
      obtain ⟨path', tokens'⟩ := served
      simp [hbefore, decodeEvent, Event.live?, chunkReply] at hserved
      obtain ⟨rfl, rfl⟩ := hserved
      obtain ⟨model', hpath, hholds⟩ := h path' tokens' hbefore
      -- the turn decoded with the very stream that the invariant speaks of
      obtain ⟨rfl, rfl⟩ := holds.unique hholds
      refine ⟨model, hpath, ?_⟩
      rw [advance_snoc, ← hpath]
      exact ⟨rfl, rfl, rfl⟩
  | reloaded =>
    intro path tokens hserved
    rw [moves_log, servedSince_append] at hserved
    simp [decodeEvent, Event.live?] at hserved

theorem run_decoded {startTime : Nat} {maxHistoryChat : Int} {grain : Grain}
    {es : List (System σ × Act)} {t : System σ}
    (hrun : Run (step vendor grain) (fresh startTime maxHistoryChat) es t) : t.Decoded vendor := by
  have hboth : t.Tracked ∧ t.Decoded vendor := by
    apply run_invariant hrun (fresh_tracked startTime maxHistoryChat)
    · intro path tokens hserved
      cases hserved
    · intro s act t _ _ ht hs
      exact ht.decoded hs
  exact hboth.2

/-! ## One request after a history -/

/-- The tokens and texts of a request. -/
def decodingsOf (id : Nat) (log : List Event) : List (Int × String) :=
  decodings (about Event.subject? id log)

theorem decodingsOf_append {id : Nat} {log events : List Event}
    (h : ∀ e ∈ events, e.decoding? = none) :
    decodingsOf id (log ++ events) = decodingsOf id log := by
  have hnone : decodings (about Event.subject? id events) = [] := by
    apply List.filterMap_eq_nil_iff.mpr
    intro e he
    exact h e (mem_about.mp he).1
  rw [decodingsOf, about_append, decodings_append, hnone, List.append_nil]
  rfl

/-- What a turn logs. -/
def turnEvents (vendor : Vendor σ) (env : Env) (id : Nat) (model : OgaModel) (state : σ) :
    List Event :=
  [.used id model.epoch, .decoded id env.token (turnText vendor env model state),
    chunkReply vendor env id (turnText vendor env model state)]

theorem turnEvents_concerns (env : Env) (id : Nat) (model : OgaModel) (state : σ) :
    Concerns id (turnEvents vendor env id model state) := by
  simp [turnEvents, Concerns, Event.subject?, chunkReply]

theorem turnEvents_decodingsOf (env : Env) (id : Nat) (model : OgaModel) (state : σ) :
    decodingsOf id (turnEvents vendor env id model state) =
      [(env.token, turnText vendor env model state)] := by
  simp [decodingsOf, turnEvents, about, Event.subject?, chunkReply, decodings]
  rfl

theorem decodingsOf_turnEvents {id : Nat} {log : List Event} (env : Env) (model : OgaModel)
    (state : σ) : decodingsOf id (log ++ turnEvents vendor env id model state) =
      decodingsOf id log ++ [(env.token, turnText vendor env model state)] := by
  rw [decodingsOf, about_append, decodings_append, ← decodingsOf, ← decodingsOf,
    turnEvents_decodingsOf]

/-- The handles after a step were there before it, but for a load, a restart, and the end of a task
that has left its loop. -/
def NoNewHandles (s t : System σ) (events : List Event) : Prop :=
  (∃ e ∈ events, e.load?.isSome = true) ∨ t.worker.pastTest = true ∨
    (s.worker.pastTest = true ∧ t.alive = s.engine.waiting) ∨
    (s.worker.pastTest = false ∧
      ∀ model state, t.engine.Holds model state → s.engine.Holds model state)

theorem noNewHandles_of_answer {s : System σ} {engine : OnnxEngine σ} {events : List Event}
    (hback : ∀ model state, engine.Holds model state → s.engine.Holds model state) :
    NoNewHandles s (s.answer engine events) events := by
  cases hpast : s.worker.pastTest with
  | true => exact Or.inr (Or.inl hpast)
  | false => exact Or.inr (Or.inr (Or.inr ⟨hpast, hback⟩))

theorem holds_of_empty {engine engine' : OnnxEngine σ} (h : engine.Empty) :
    ∀ model state, engine.Holds model state → engine'.Holds model state :=
  fun _ _ holds => absurd h holds.not_empty

/-- A step is a turn, or it decodes nothing and makes no handles. -/
theorem Transition.turned_or {s t : System σ} {act : Act} (ht : Transition vendor s act t) :
    (∃ env task sequence model state, s.worker = .guard task sequence ∧
      s.engine.Holds model state ∧
      t = s.moves
        (s.engine.withHandles model (vendor.streamDecode model.path state env.token).1)
        (turnEvents vendor env task.id model state) (.guard task (sequence ++ [env.token]))) ∨
    ∃ events, t.log = s.log ++ events ∧ (∀ e ∈ events, e.decoding? = none) ∧
      NoNewHandles s t events := by
  cases ht with
  | @turned env task sequence model state at_ holds =>
    exact Or.inl ⟨env, task, sequence, model, state, at_, holds, rfl⟩
  | loadThrew | unloadRefused | chatRefused | chatThrew | chatQueued | embedding | modelStatus
  | models =>
    refine Or.inr ⟨_, rfl, ?_, noNewHandles_of_answer fun _ _ holds => ⟨holds.1, holds.2, holds.3⟩⟩
    simp [Event.decoding?, refusal, modelStatusReply, modelsReply]
  | loadFailed reads throws told =>
    refine Or.inr ⟨_, rfl, ?_, noNewHandles_of_answer (holds_of_empty ⟨rfl, rfl, rfl⟩)⟩
    rcases told with rfl | rfl <;> simp [Event.decoding?, loadedReply, loadFailedReply]
  | unloaded =>
    refine Or.inr ⟨_, rfl, ?_, noNewHandles_of_answer (holds_of_empty ⟨rfl, rfl, rfl⟩)⟩
    simp [Event.decoding?, unloadedReply]
  | loaded =>
    refine Or.inr ⟨_, rfl, by simp [Event.decoding?, loadedReply], Or.inl ?_⟩
    exact ⟨_, List.mem_cons_of_mem _ List.mem_cons_self, rfl⟩
  | chatFaulted =>
    refine Or.inr ⟨[], rfl, fun _ he => absurd he List.not_mem_nil, ?_⟩
    cases hpast : s.worker.pastTest with
    | true => exact Or.inr (Or.inl hpast)
    | false => exact Or.inr (Or.inr (Or.inr ⟨hpast, fun _ _ holds => holds⟩))
  | streamStarted idle =>
    refine Or.inr ⟨_, rfl, ?_, Or.inr (Or.inr (Or.inr ⟨by rw [idle]; rfl, ?_⟩))⟩
    · intro e he
      rw [List.eq_of_mem_replicate he]
      rfl
    · intro _ _ holds
      exact ⟨holds.1, holds.2, holds.3⟩
  | generated idle | startFaulted idle =>
    refine Or.inr ⟨_, rfl, by simp [Event.decoding?],
      Or.inr (Or.inr (Or.inr ⟨by rw [idle]; rfl, ?_⟩))⟩
    intro _ _ holds
    exact ⟨holds.1, holds.2, holds.3⟩
  | generateFaulted idle queues holds whole succeeds used =>
    obtain ⟨epoch, huses⟩ := used.uses
    refine Or.inr ⟨_, rfl, fun e he => (uses_quietly huses e he).1,
      Or.inr (Or.inr (Or.inr ⟨by rw [idle]; rfl, ?_⟩))⟩
    intro _ _ holds
    exact ⟨holds.1, holds.2, holds.3⟩
  | startFailed idle queues throws used =>
    exact Or.inr ⟨_, rfl, failed_decoding used, Or.inr (Or.inr (Or.inr
      ⟨by rw [idle]; rfl, holds_of_empty (OnnxEngine.dropHandles_empty _)⟩))⟩
  | turnFailed at_ throws used =>
    exact Or.inr ⟨_, rfl, failed_decoding used, Or.inr (Or.inr (Or.inr
      ⟨by rw [at_]; rfl, holds_of_empty (OnnxEngine.dropHandles_empty _)⟩))⟩
  | loopLeft at_ | turnFaulted at_ | leftUnloaded at_ =>
    refine Or.inr ⟨_, rfl, by simp [Event.decoding?, streamUnloadedReply],
      Or.inr (Or.inr (Or.inr ⟨by rw [at_]; rfl, fun _ _ holds => holds⟩))⟩
  -- the task is past its loop afterwards
  | leftLoaded | tornDown | fastEnough | reloaded =>
    exact Or.inr ⟨_, rfl, by simp [Event.decoding?], Or.inr (Or.inl rfl)⟩
  | reloadFailed at_ | finished at_ =>
    -- the last step of a task past its loop
    refine Or.inr ⟨_, rfl, ?_, Or.inr (Or.inr (Or.inl ⟨by rw [at_]; rfl, rfl⟩))⟩
    simp [Event.decoding?, failedEvents, inferenceFailedReply, stopReply]

/-- A request that was admitted with nothing else alive is served from decoder state `start`, and so
is what it has been told so far. -/
structure Follows (vendor : Vendor σ) (path : String) (start : σ) (id : Nat) (t : System σ) :
    Prop where
  texts : (decodingsOf id t.log).map Prod.snd =
    outputs (vendor.streamDecode path) start ((decodingsOf id t.log).map Prod.fst)
  front : t.IsAlive id → ∃ task others, t.alive = task :: others ∧ task.id = id
  state : t.IsAlive id → t.worker.pastTest = false → ∀ model state, t.engine.Holds model state →
    model.path = path ∧
      state = advance (vendor.streamDecode path) start ((decodingsOf id t.log).map Prod.fst)

/-- The request at the front stays there until it is gone. -/
theorem View.front {s t : System σ} (view : View vendor s t) (h : s.Ledger vendor) {id : Nat}
    (hlt : id < s.next)
    (front : s.IsAlive id → ∃ task others, s.alive = task :: others ∧ task.id = id)
    (halive : t.IsAlive id) : ∃ task others, t.alive = task :: others ∧ task.id = id := by
  obtain ⟨task, others, hfront, htask⟩ := front (view.alive_before hlt halive)
  obtain ⟨other, hother, hid⟩ := halive
  cases view with
  | answers log concerns next alive => exact ⟨task, others, alive.trans hfront, htask⟩
  | admits log hnew next alive =>
    rw [hfront] at alive
    exact ⟨task, _, alive, htask⟩
  | works front' log concerns next alive =>
    exact ⟨task, others, by rw [alive, ← front', hfront], htask⟩
  | ends front' log concerns next alive =>
    rw [hfront] at front'
    cases front'
    rw [alive] at hother
    exact absurd (hid.trans htask.symm) (h.front_fresh hfront other hother)
  | faults log concerns owner quiet next alive =>
    rcases alive with alive | alive
    · exact ⟨task, others, alive.trans hfront, htask⟩
    · rw [alive, hfront] at hother
      exact absurd (hid.trans htask.symm) (h.front_fresh hfront other hother)

/-- The request's own turn, from the state that its turns have led to. -/
theorem Follows.turned {s : System σ} {path : String} {start : σ} {env : Env} {task : Task}
    {sequence : List Int} {model : OgaModel} {state : σ}
    (h : Follows vendor path start task.id s) (halive : s.IsAlive task.id)
    (hguard : s.worker = .guard task sequence) (holds : s.engine.Holds model state) :
    Follows vendor path start task.id (s.moves
      (s.engine.withHandles model (vendor.streamDecode model.path state env.token).1)
      (turnEvents vendor env task.id model state) (.guard task (sequence ++ [env.token]))) := by
  obtain ⟨hpath, hstate⟩ := h.state halive (by rw [hguard]; rfl) model state holds
  constructor
  · rw [moves_log, decodingsOf_turnEvents, List.map_append, List.map_append, h.texts]
    rw [List.map_cons, List.map_cons, List.map_nil, List.map_nil, outputs_snoc, ← hstate, turnText,
      hpath]
  · intro _
    exact ⟨task, _, alive_of_running rfl, rfl⟩
  · intro _ _ model' state' holds'
    obtain ⟨rfl, rfl⟩ := (OnnxEngine.withHandles_holds _ _ _).unique holds'
    refine ⟨hpath, ?_⟩
    rw [moves_log, decodingsOf_turnEvents, List.map_append, List.map_cons, List.map_nil,
      advance_snoc, ← hstate, hpath]

theorem Follows.step {s t : System σ} {act : Act} {path : String} {start : σ} {id : Nat}
    (h : Follows vendor path start id s) (ledger : s.Ledger vendor) (hlt : id < s.next)
    (ht : Transition vendor s act t)
    (hloads : ∀ events, t.log = s.log ++ events → ∀ e ∈ events, e.load? = none) :
    Follows vendor path start id t := by
  have hfront := ht.view.front ledger hlt h.front
  by_cases halive : s.IsAlive id
  case neg =>
    -- the request is over, and its record closed
    have hkept : decodingsOf id t.log = decodingsOf id s.log := by
      rw [decodingsOf, ht.view.record_kept hlt halive]
      rfl
    refine ⟨by rw [hkept]; exact h.texts, hfront, ?_⟩
    intro halive'
    exact absurd (ht.view.alive_before hlt halive') halive
  case pos =>
    obtain ⟨front, others, hfront', hid⟩ := h.front halive
    -- the request is at the front, so a turn is its own
    rcases ht.turned_or with ⟨env, task, sequence, model, state, hguard, holds, rfl⟩ |
      ⟨events, log, hquiet, hhandles⟩
    · have hrunning : s.alive = task :: s.engine.waiting :=
        alive_of_running (by rw [hguard]; rfl)
      rw [hrunning] at hfront'
      cases hfront'
      subst hid
      exact h.turned halive hguard holds
    · have hkept : decodingsOf id t.log = decodingsOf id s.log := by
        rw [log, decodingsOf_append hquiet]
      refine ⟨by rw [hkept]; exact h.texts, hfront, ?_⟩
      intro hstill hpast model state holds
      rw [hkept]
      -- no token came; new handles mean a load, which is excluded, or a task past its loop
      rcases hhandles with ⟨e, he, hload⟩ | hpast' | ⟨hpast', hgone⟩ | ⟨hbefore, hback⟩
      · rw [hloads events log e he] at hload
        cases hload
      · rw [hpast] at hpast'
        cases hpast'
      · obtain ⟨task, htask⟩ := Worker.task_of_pastTest hpast'
        rw [alive_of_running htask] at hfront'
        cases hfront'
        obtain ⟨other, hother, hid'⟩ := hstill
        rw [hgone] at hother
        exact absurd (hid'.trans hid.symm)
          (ledger.front_fresh (alive_of_running htask) other hother)
      · exact h.state halive hbefore model state (hback model state holds)

/-- A waiting request has no tokens yet. -/
def Unstarted (s : System σ) : Prop := ∀ task ∈ s.engine.waiting, decodingsOf task.id s.log = []

theorem Transition.waiting {s t : System σ} {act : Act} (ht : Transition vendor s act t)
    {task : Task} (htask : task ∈ t.engine.waiting) :
    task ∈ s.engine.waiting ∨ task.id = s.next := by
  cases ht with
  | @chatQueued jsonBody queued queue set forms queues =>
    rw [answer_engine, OnnxEngine.waiting_enqueue queued queues, List.mem_append,
      List.mem_singleton] at htask
    apply htask.imp_right
    intro hsame
    rw [hsame, formTask_id forms]
  | loaded =>
    rw [answer_engine, OnnxEngine.waiting_markLoaded] at htask
    exact Or.inl htask
  | reloaded =>
    rw [moves_engine, OnnxEngine.waiting_markLoaded] at htask
    exact Or.inl htask
  | streamStarted idle queues | generated idle queues | startFailed idle queues
  | startFaulted idle queues | generateFaulted idle queues =>
    apply Or.inl
    rw [OnnxEngine.waiting_eq queues]
    exact List.mem_cons_of_mem _ htask
  | _ => exact Or.inl htask

theorem Transition.unstarted {s t : System σ} {act : Act} (ht : Transition vendor s act t)
    (ledger : s.Ledger vendor) (h : s.Unstarted) : t.Unstarted := by
  intro task htask
  -- a turn is one of the running task, which is not among those that wait
  have hkept : decodingsOf task.id t.log = decodingsOf task.id s.log := by
    rcases ht.turned_or with ⟨env, front, sequence, model, state, hguard, _, rfl⟩ |
      ⟨events, log, hquiet, _⟩
    · have hother : task.id ≠ front.id :=
        ledger.front_fresh (alive_of_running (by rw [hguard]; rfl)) task htask
      rw [decodingsOf, about_of_concerns (moves_log ..) (turnEvents_concerns _ _ _ _) hother]
      rfl
    · rw [log, decodingsOf_append hquiet]
  rw [hkept]
  rcases ht.waiting htask with hwaits | hnew
  · exact h task hwaits
  · rw [decodingsOf, ledger.unborn task.id (by omega)]
    rfl

variable (vendor) in
/-- A request about to be started follows the decoder from whatever state it is in. -/
theorem Follows.of_next {s : System σ} {task : Task} {model : OgaModel} {start : σ}
    (h : s.Unstarted) (idle : s.worker = .idle) (next : s.engine.nextTask? = some task)
    (holds : s.engine.Holds model start) : Follows vendor model.path start task.id s := by
  obtain ⟨others, hwaiting⟩ : ∃ others, s.engine.waiting = task :: others := by
    rw [OnnxEngine.nextTask?, Option.bind_eq_some_iff] at next
    obtain ⟨queue, hqueue, hhead⟩ := next
    rw [OnnxEngine.waiting_eq hqueue]
    exact List.head?_eq_some_iff.mp hhead
  have hnone : decodingsOf task.id s.log = [] := by
    apply h task
    rw [hwaiting]
    exact List.mem_cons_self
  constructor
  · rw [hnone]
    rfl
  · intro _
    refine ⟨task, others, ?_, rfl⟩
    rw [alive, idle, hwaiting]
    rfl
  · intro _ _ model' state holds'
    obtain ⟨rfl, rfl⟩ := holds.unique holds'
    exact ⟨rfl, by rw [hnone]; rfl⟩

theorem run_unstarted {grain : Grain} {startTime : Nat} {maxHistoryChat : Int}
    {es : List (System σ × Act)} {t : System σ}
    (hrun : Run (step vendor grain) (fresh startTime maxHistoryChat) es t) : t.Unstarted := by
  have hboth : t.Tracked ∧ t.Ledger vendor ∧ t.Unstarted := by
    apply run_invariant hrun (fresh_tracked startTime maxHistoryChat)
    · exact ⟨fresh_ledger startTime maxHistoryChat, fun _ h => absurd h List.not_mem_nil⟩
    · intro s act t _ hrunning ht hs
      exact ⟨ht.view.ledger hs.1 hrunning, ht.unstarted hs.1 hs.2⟩
  exact hboth.2.2

/-- The request is followed for as long as no load replaces the decoder. -/
theorem run_follows {grain : Grain} {s t : System σ} {es : List (System σ × Act)} {path : String}
    {start : σ} {id : Nat} (hrun : Run (step vendor grain) s es t) (tracked : s.Tracked)
    (ledger : s.Ledger vendor) (hlt : id < s.next) (h : Follows vendor path start id s)
    (hloads : ∀ e ∈ s.since t.log, e.load? = none) : Follows vendor path start id t := by
  have hall : t.Tracked ∧ t.Ledger vendor ∧ id < t.next ∧ s.log <+: t.log ∧
      ((∀ e ∈ s.since t.log, e.load? = none) → Follows vendor path start id t) := by
    apply run_invariant hrun tracked (I := fun t => t.Ledger vendor ∧ id < t.next ∧
      s.log <+: t.log ∧ ((∀ e ∈ s.since t.log, e.load? = none) → Follows vendor path start id t))
    · exact ⟨ledger, hlt, List.prefix_rfl, fun _ => h⟩
    · intro t act u _ hrunning ht hs
      obtain ⟨hledger, hearlier, ⟨before, hbefore⟩, hfollows⟩ := hs
      have hview := ht.view
      obtain ⟨events, hlog⟩ := hview.log_grows
      have hnext : id < u.next := by
        cases hview <;> omega
      -- what is new in the step is new since `s`
      have hsince : s.since u.log = s.since t.log ++ events := by
        rw [← hlog, ← hbefore, List.append_assoc, since_append, since_append]
      refine ⟨hview.ledger hledger hrunning, hnext, ?_, ?_⟩
      · exact ⟨before ++ events, by rw [← hlog, ← hbefore, List.append_assoc]⟩
      · intro hnone
        rw [hsince] at hnone
        apply (hfollows fun e he => hnone e (List.mem_append_left _ he)).step hledger hearlier ht
        intro new hnew e he
        have hsame : new = events := List.append_cancel_left (hnew.symm.trans hlog.symm)
        rw [hsame] at he
        exact hnone e (List.mem_append_right _ he)
  exact hall.2.2.2.2 hloads

/-- However the system goes on from `s`, as long as no other model is loaded, request `id` gets the
texts that its tokens decode to from the initial state. -/
def Isolated (vendor : Vendor σ) (path : String) (id : Nat) (s : System σ) : Prop :=
  ∀ es t, Run (step vendor .fine) s es t → (∀ e ∈ s.since t.log, e.load? = none) →
    (decodingsOf id t.log).map Prod.snd =
      outputs (vendor.streamDecode path) (vendor.streamInit path)
        ((decodingsOf id t.log).map Prod.fst)

/-! ## Every continuation can happen -/

variable (vendor) in
theorem start_taken {s : System σ} {name : String} {task : Task} {tasks : List Task}
    {model : OgaModel} {state : σ} (h : s.Tracked) (running : s.fault = none)
    (idle : s.worker = .idle) (queues : s.engine.q = some ⟨name, task :: tasks⟩)
    (stream : task.req.stream = true) (holds : s.engine.Holds model state) :
    step vendor .fine s (.start {}) = some (s.moves (s.engine.dequeue name tasks)
      (List.replicate 3 (.used task.id model.epoch))
      (.guard task (vendor.encode model.path task.formattedOutput))) := by
  refine h.taken (by simp [step, running, handler, workerStep, idle, queues]) fun t ht => ?_
  -- in the default environment no call throws, and the handles are set
  cases ht with
  | streamStarted _ queues' _ holds' =>
    cases queues.symm.trans queues'
    obtain ⟨rfl, rfl⟩ := holds.unique holds'
    rfl
  | generated _ queues' whole =>
    cases queues.symm.trans queues'
    cases stream.symm.trans whole
  | generateFaulted _ queues' _ whole =>
    cases queues.symm.trans queues'
    cases stream.symm.trans whole
  | startFailed _ _ throws => simp [Env.throwsIn] at throws
  | startFaulted _ _ empty => exact absurd empty holds.not_empty

variable (vendor) in
theorem turn_taken {s : System σ} {task : Task} {sequence : List Int} {model : OgaModel} {state : σ}
    (h : s.Tracked) (running : s.fault = none) (hguard : s.worker = .guard task sequence)
    (holds : s.engine.Holds model state) (token : Int) :
    step vendor .fine s (.iterate { token }) = some (s.moves
      (s.engine.withHandles model (vendor.streamDecode model.path state token).1)
      (turnEvents vendor { token } task.id model state) (.guard task (sequence ++ [token]))) := by
  have hset := h.flag_of_holds holds
  refine h.taken (by simp [step, running, handler, workerStep, hguard]) fun t ht => ?_
  cases ht with
  | turned at_ holds' =>
    cases hguard.symm.trans at_
    obtain ⟨rfl, rfl⟩ := holds.unique holds'
    rfl
  | loopLeft _ _ stops => simp [OnnxEngine.turns, hset] at stops
  | turnFailed _ throws => simp [OnnxEngine.turnThrows, Env.throwsIn] at throws
  | turnFaulted _ empty => exact absurd empty holds.not_empty

variable (vendor) in
/-- The generator may come up with any tokens. -/
theorem tokens_taken {s : System σ} {task : Task} {sequence : List Int} {model : OgaModel}
    {state : σ} (h : s.Tracked) (running : s.fault = none)
    (hguard : s.worker = .guard task sequence) (holds : s.engine.Holds model state)
    (tokens : List Int) :
    ∃ es t events, Run (step vendor .fine) s es t ∧ t.log = s.log ++ events ∧
      (∀ e ∈ events, e.load? = none) ∧ (decodingsOf task.id events).map Prod.fst = tokens := by
  -- one turn a token, each from the state that the turns before it have reached
  induction tokens generalizing s sequence state with
  | nil => exact ⟨[], s, [], Run.nil, by simp, by simp, rfl⟩
  | cons token tokens ih =>
    have hturn := turn_taken vendor h running hguard holds token
    have htracked := h.after hturn
    obtain ⟨es, t, events, hrun, hlog, hloads, htokens⟩ :=
      ih htracked running rfl (OnnxEngine.withHandles_holds _ _ _)
    refine ⟨_, t, turnEvents vendor { token } task.id model state ++ events, hrun.cons hturn,
      ?_, ?_, ?_⟩
    · rw [hlog, moves_log, List.append_assoc]
    · intro e he
      rcases List.mem_append.mp he with he | he
      · simp only [turnEvents, List.mem_cons, List.not_mem_nil, or_false, chunkReply] at he
        rcases he with rfl | rfl | rfl <;> rfl
      · exact hloads e he
    · rw [decodingsOf, about_append, decodings_append, List.map_append, ← decodingsOf,
        ← decodingsOf, htokens, turnEvents_decodingsOf]
      rfl

/-- **Isolation.**  A streaming request that is about to start will get the texts of its own tokens,
whatever they are, exactly when the tokens decoded since the load have left the decoder in a state
that cannot be told from its initial one. -/
theorem isolated_iff {startTime : Nat} {maxHistoryChat : Int} {es : List (System σ × Act)}
    {s : System σ} {path : String} {tokens : List Int} {task : Task}
    (hrun : Run (step vendor .fine) (fresh startTime maxHistoryChat) es s)
    (running : s.fault = none) (served : servedSince s.log = some (path, tokens))
    (idle : s.worker = .idle) (next : s.engine.nextTask? = some task)
    (stream : task.req.stream = true) :
    s.Isolated vendor path task.id ↔
      Bisimilar (vendor.streamDecode path)
        (advance (vendor.streamDecode path) (vendor.streamInit path) tokens)
        (vendor.streamInit path) := by
  obtain ⟨htracked, hledger⟩ := run_ledger hrun
  have hunstarted := run_unstarted hrun
  obtain ⟨model, hpath, holds⟩ := run_decoded hrun path tokens served
  subst hpath
  have hfollows := Follows.of_next vendor hunstarted idle next holds
  have hwaits : task ∈ s.alive := by
    obtain ⟨⟨name, tasks⟩, hqueue, hhead⟩ := Option.bind_eq_some_iff.mp next
    obtain ⟨others, rfl⟩ := List.head?_eq_some_iff.mp hhead
    rw [alive_of_idle idle hqueue]
    exact List.mem_cons_self
  have hearlier := hledger.numbered task hwaits
  constructor
  · intro hisolated
    apply (bisimilar_iff_outputs _).mpr
    intro inputs
    -- let the request generate exactly these tokens
    obtain ⟨⟨name, tasks⟩, hqueue, hhead⟩ := Option.bind_eq_some_iff.mp next
    obtain ⟨others, rfl⟩ := List.head?_eq_some_iff.mp hhead
    have hstart := start_taken vendor htracked running idle hqueue stream holds
    have hu := htracked.after hstart
    obtain ⟨fs, t, events, hgoes, hlog', hloads, hinputs⟩ :=
      tokens_taken vendor hu running rfl ⟨holds.1, holds.2, holds.3⟩ inputs
    have hwhole := hgoes.cons hstart
    rw [moves_log] at hlog'
    have hsince : s.since t.log = List.replicate 3 (.used task.id model.epoch) ++ events := by
      rw [hlog', List.append_assoc, since_append]
    have hquiet : ∀ e ∈ s.since t.log, e.load? = none := by
      intro e he
      rw [hsince] at he
      rcases List.mem_append.mp he with he | he
      · rw [List.eq_of_mem_replicate he]
        rfl
      · exact hloads e he
    have hgenerated : (decodingsOf task.id t.log).map Prod.fst = inputs := by
      have hbefore : decodingsOf task.id
          (s.log ++ List.replicate 3 (.used task.id model.epoch)) = [] := by
        rw [decodingsOf_append]
        · exact hunstarted task (by simpa [alive, idle, Worker.task?] using hwaits)
        · intro e he
          rw [List.eq_of_mem_replicate he]
          rfl
      rw [hlog', decodingsOf, about_append, decodings_append, ← decodingsOf, ← decodingsOf, hbefore,
        List.nil_append, hinputs]
    -- its texts come from the state left behind, and isolation says they are those of a fresh one
    have hfrom := (run_follows hwhole htracked hledger hearlier hfollows hquiet).texts
    have hinit := hisolated _ t hwhole hquiet
    rw [hgenerated] at hfrom hinit
    exact hfrom.symm.trans hinit
  -- whatever state the request starts from, its texts are that state's outputs
  · intro hsame fs t hgoes hquiet
    have hfrom := (run_follows hgoes htracked hledger hearlier hfollows hquiet).texts
    rw [hfrom, (bisimilar_iff_outputs _).mp hsame]

/-- A stream that stops after one token, and a second one that waits to be started. -/
def streamThenStream (token : Int) : List Act :=
  [.loadModel {} (loadRequest "m"), .handleChatCompletion (chatRequest true "x"), .start {},
    .iterate { token }, .iterate { isDone := true }, .postLoop, .throughput {}, .finish {},
    .handleChatCompletion (chatRequest true "x")]

/-- The first stream stopped at the end of a character. -/
theorem isolated_of_wholeCharacter : ∃ s task,
    execute (step utf8Vendor .fine) (fresh 0 0) (streamThenStream 104) = some s ∧
      s.engine.nextTask? = some task ∧ s.Isolated utf8Vendor "m" task.id := by
  have hruns : (execute (step utf8Vendor .fine) (fresh 0 0) (streamThenStream 104)).any
      (fun s => s.fault.isNone && s.worker.isIdle && servedSince s.log = some ("m", [104]) &&
        s.engine.nextTask?.any (·.req.stream)) = true := by decide
  obtain ⟨s, hexecute, hrun, hserves⟩ := exists_run_of_execute hruns
  simp only [Bool.and_eq_true, Option.isNone_iff_eq_none, Worker.isIdle_iff, decide_eq_true_eq,
    Option.any_eq_true] at hserves
  obtain ⟨⟨⟨hrunning, hidle⟩, hserved⟩, task, hnext, hstream⟩ := hserves
  refine ⟨s, task, hexecute, hnext, (isolated_iff hrun hrunning hserved hidle hnext hstream).mpr ?_⟩
  exact (bisimilar_iff_outputs _).mpr fun inputs => rfl

/-- The first stream stopped within one, and the second stream's `A` comes out as another
character. -/
theorem openCharacter_breaks_isolation :
    ¬∀ es (s : System (List Nat)) path tokens task, Run (step utf8Vendor .fine) (fresh 0 0) es s →
      s.fault = none → servedSince s.log = some (path, tokens) → s.worker = .idle →
      s.engine.nextTask? = some task → task.req.stream = true →
      s.Isolated utf8Vendor path task.id := by
  have hruns : (execute (step utf8Vendor .fine) (fresh 0 0) (streamThenStream 0xC3)).any
      (fun s => s.fault.isNone && s.worker.isIdle && servedSince s.log = some ("m", [0xC3]) &&
        s.engine.nextTask?.any (fun task => task.req.stream && task.id = 2) &&
        (execute (step utf8Vendor .fine) s [.start {}, .iterate { token := 65 }]).any (fun t =>
          (s.since t.log).all (·.load?.isNone) && decodingsOf 2 t.log = [(65, "Á")])) = true := by
    decide
  obtain ⟨s, _, hrun, hserves⟩ := exists_run_of_execute hruns
  simp only [Bool.and_eq_true, Option.isNone_iff_eq_none, Worker.isIdle_iff, decide_eq_true_eq,
    Option.any_eq_true] at hserves
  obtain ⟨⟨⟨⟨hrunning, hidle⟩, hserved⟩, task, hnext, hstream, hid⟩, t, hgoes, hloads, htexts⟩ :=
    hserves
  simp only [List.all_eq_true, Option.isNone_iff_eq_none] at hloads
  intro hclaim
  have hinit := hclaim _ s _ _ task hrun hrunning hserved hidle hnext hstream _ t
    (run_of_execute hgoes) hloads
  rw [hid, htexts] at hinit
  exact absurd hinit (by decide)

end System

end CortexOnnx

import Mathlib.Data.List.DropRight
import CortexOnnx.ReplyProtocol
import CortexOnnx.StickyUnload

/-!
# Requests and loads

A request is admitted under one load and its task reads the handles later, through fields that a
`LoadModel` replaces at any time.  Handler calls fall here between the start, the loop turns and the
post-loop part of a task.  A request is served by one load as long as none succeeds between its
admission and its task's last use of a handle, and what a rejected one has overwritten is neither a
prompt when a request is admitted nor the path when a restart reads it.
-/

namespace CortexOnnx

variable {σ : Type} {vendor : Vendor σ}

/-- The request an event generated a token for. -/
def Event.token? : Event → Option Nat
  | .decoded id _ _ | .generated id => some id
  | _ => none

/-- A successful final status. -/
def Status.success (status : Status) : Bool := status.isDone && !status.hasError

/-- The request's callback received a successful final status. -/
def Succeeded (id : Nat) (log : List Event) : Prop :=
  ∃ status body, .callback id status body ∈ log ∧ status.success = true

/-- What a prompt is formatted with. -/
def Config.prompts (config : Config) : String × String × String × String :=
  (config.prePrompt, config.systemPrompt, config.userPrompt, config.aiPrompt)

/-- The event is a successful final callback to request `id`. -/
def Event.succeeds (id : Nat) : Event → Bool
  | .callback id' status _ => id' = id && status.success
  | _ => false

/-- The event is a use of a handle of epoch `n` by request `id`. -/
def Event.usesEpoch (id n : Nat) : Event → Bool
  | .used id' epoch => id' = id && epoch = some n
  | _ => false

theorem succeeded_of_event {id : Nat} {event : Event} {log : List Event} (he : event ∈ log)
    (h : event.succeeds id = true) : Succeeded id log := by
  cases event with
  | callback id' status body =>
    simp only [Event.succeeds, Bool.and_eq_true, decide_eq_true_eq] at h
    exact ⟨status, body, h.1 ▸ he, h.2⟩
  | _ => cases h

theorem used_of_event {id n : Nat} {event : Event} {log : List Event} (he : event ∈ log)
    (h : event.usesEpoch id n = true) : .used id (some n) ∈ log := by
  cases event with
  | used id' epoch =>
    simp only [Event.usesEpoch, Bool.and_eq_true, decide_eq_true_eq] at h
    exact h.1 ▸ h.2 ▸ he
  | _ => cases h

namespace System

/-- The request that arrived in state `s` has been served by the load that was current then: its
prompt was formatted with that load's configuration, every handle its task used belongs to it, and
no unload was acknowledged before one of its tokens. -/
structure ServedByOne (s t : System σ) : Prop where
  prompts : (loadedConfig s.log).map Config.prompts = some s.engine.config.prompts
  uses : ∀ epoch, .used s.next epoch ∈ t.log → epoch = some (CortexOnnx.epoch s.log)
  undisturbed : (s.since t.log).Pairwise fun earlier later =>
    earlier = .modelUnloaded → later.token? ≠ some s.next

end System

/-- The event that queued request `id`. -/
def Event.queues (id : Nat) : Event → Bool
  | .queued id' => id' = id
  | _ => false

/-- A load has succeeded since request `id` was queued. -/
def loadedSince (id : Nat) (log : List Event) : Bool :=
  (log.dropWhile fun event => !event.queues id).any fun event => event.load?.isSome

/-- The configuration of a `LoadModel` call that succeeds. -/
def Act.loaded? : Act → Option Config
  | .loadModel env jsonBody =>
      if loadThrows env jsonBody then none else (readConfig jsonBody).toOption
  | _ => none

def Act.loadRequest? : Act → Option Json
  | .loadModel _ jsonBody => some jsonBody
  | _ => none

/-- The requests of the `LoadModel` calls since the last that succeeded. -/
def rejectedLoads (history : List Act) : List Json :=
  (history.rtakeWhile fun act => act.loaded?.isNone).filterMap Act.loadRequest?

/-- A model has been loaded, and the calls rejected since have not changed the field. -/
def keepsLoaded {β : Type} [DecidableEq β] (field : Config → β) (history : List Act) : Bool :=
  (latest Act.loaded? history).any fun config =>
    field ((rejectedLoads history).foldl overwrite config) = field config

namespace System

/-- A request is admitted after rejected loads have changed a prompt, or a task goes on with handles
after a load has succeeded since its admission, or a restart reads a path that rejected loads have
changed. -/
def mixesLoads (history : List Act) (s : System σ) : Act → Bool
  | .handleChatCompletion jsonBody =>
      s.engine.modelLoaded && ((formTask s.engine.config s.next jsonBody).isOk &&
        !keepsLoaded Config.prompts history)
  | .start env => s.engine.nextTask?.any fun task =>
      loadedSince task.id s.log && !env.throwsIn (taskCalls task)
  | .iterate env => s.worker.task?.any fun task =>
      loadedSince task.id s.log && (s.engine.turns env && !s.engine.turnThrows env)
  | .reload env => s.worker.task?.any fun task => !env.throwsIn createCalls &&
      (loadedSince task.id s.log || !keepsLoaded Config.path history)
  | _ => false

/-! ## What the calls have left in the fields -/

end System

/-- The fields that nothing but `LoadModel` writes. -/
def Config.strings (config : Config) : String × String × String × String × String :=
  (config.path, config.prompts)

theorem overwrite_of_reads (config : Config) {read : Config} {jsonBody : Json}
    (h : readConfig jsonBody = .ok read) : overwrite config jsonBody = read := by
  simp only [readConfig, bind_eq_ok, pure_ok, Except.ok.injEq] at h
  obtain ⟨path, hpath, user, huser, ai, hai, rule, hsystem, pre, hpre, max, hmax, rfl⟩ := h
  simp only [overwrite, hpath, huser, hai, hsystem, hpre, hmax]

/-- What is written does not depend on what was there. -/
theorem overwrite_strings {config config' : Config} (h : config.strings = config'.strings)
    (jsonBody : Json) :
    (overwrite config jsonBody).strings = (overwrite config' jsonBody).strings := by
  simp only [Config.strings, Config.prompts, Prod.mk.injEq] at h ⊢
  simp only [overwrite]
  -- the fields before the first ill-typed one are the request's, and the others are as they were
  cases readString jsonBody "model_path" "" with
  | error => exact h
  | ok path =>
    cases readString jsonBody "user_prompt" "USER: " with
    | error => exact ⟨rfl, h.2⟩
    | ok userPrompt =>
      cases readString jsonBody "ai_prompt" "ASSISTANT: " with
      | error => exact ⟨rfl, h.2.1, h.2.2.1, rfl, h.2.2.2.2⟩
      | ok aiPrompt =>
        cases readString jsonBody "system_prompt" "ASSISTANT's RULE: " with
        | error => exact ⟨rfl, h.2.1, h.2.2.1, rfl, rfl⟩
        | ok systemPrompt =>
          cases readString jsonBody "pre_prompt" "" with
          | error => exact ⟨rfl, h.2.1, rfl, rfl, rfl⟩
          | ok prePrompt =>
            cases readInt jsonBody "max_history_chat" 2 with
            | error => exact ⟨rfl, rfl, rfl, rfl, rfl⟩
            | ok maxHistoryChat => exact ⟨rfl, rfl, rfl, rfl, rfl⟩

theorem foldl_overwrite_strings {config config' : Config} (h : config.strings = config'.strings)
    (requests : List Json) :
    (requests.foldl overwrite config).strings = (requests.foldl overwrite config').strings := by
  induction requests generalizing config config' with
  | nil => exact h
  | cons request requests ih => exact ih (overwrite_strings h request)

theorem rejectedLoads_snoc {history : List Act} {act : Act} (h : act.loaded? = none) :
    rejectedLoads (history ++ [act]) = rejectedLoads history ++ act.loadRequest?.toList := by
  rw [rejectedLoads, List.rtakeWhile_concat_pos _ _ _ (by rw [h]; rfl), List.filterMap_append]
  cases act <;> rfl

theorem rejectedLoads_loaded {history : List Act} {act : Act} {config : Config}
    (h : act.loaded? = some config) : rejectedLoads (history ++ [act]) = [] := by
  rw [rejectedLoads, List.rtakeWhile_concat_neg _ _ _ (by simp [h]), List.filterMap_nil]

theorem loadedConfig_append (log events : List Event) : loadedConfig (log ++ events) =
    ((latest Event.load? events).or (currentLoad log)).bind fun request =>
      (readConfig request).toOption := by
  rw [loadedConfig, currentLoad, latest_append]
  rfl

namespace System

/-- The record and the fields are those that the calls of `history` leave. -/
structure Recalls (history : List Act) (s : System σ) : Prop where
  loaded : loadedConfig s.log = latest Act.loaded? history
  strings : ∀ config, latest Act.loaded? history = some config →
    s.engine.config.strings = ((rejectedLoads history).foldl overwrite config).strings

/-- What the calls have kept of the last load is what the fields still say. -/
theorem Recalls.keepsLoaded_iff {β : Type} [DecidableEq β] {field : Config → β}
    {history : List Act} {s : System σ} (h : s.Recalls history)
    (hfield : ∀ config config' : Config, config.strings = config'.strings →
      field config = field config') :
    keepsLoaded field history = true ↔
      (loadedConfig s.log).map field = some (field s.engine.config) := by
  rw [keepsLoaded, h.loaded]
  cases hlatest : latest Act.loaded? history with
  | none => simp
  | some config =>
    have hsame := hfield _ _ (h.strings config hlatest)
    simp [hsame, eq_comm]

theorem Recalls.prompts {history : List Act} {s : System σ} (h : s.Recalls history) :
    keepsLoaded Config.prompts history = true ↔
      (loadedConfig s.log).map Config.prompts = some s.engine.config.prompts :=
  h.keepsLoaded_iff fun _ _ hsame => (Prod.mk.inj hsame).2

theorem Recalls.path {history : List Act} {s : System σ} (h : s.Recalls history) :
    keepsLoaded Config.path history = true ↔
      (loadedConfig s.log).map Config.path = some s.engine.path :=
  h.keepsLoaded_iff fun _ _ hsame => (Prod.mk.inj hsame).1

/-- A step in which no load succeeds. -/
theorem Recalls.kept {history : List Act} {s t : System σ} {act : Act} {events : List Event}
    (h : s.Recalls history) (fails : act.loaded? = none) (log : t.log = s.log ++ events)
    (quiet : latest Event.load? events = none)
    (strings : t.engine.config.strings =
      (act.loadRequest?.toList.foldl overwrite s.engine.config).strings) :
    t.Recalls (history ++ [act]) := by
  have hlatest : latest Act.loaded? (history ++ [act]) = latest Act.loaded? history := by
    simp [fails]
  constructor
  · rw [hlatest, log, loadedConfig_append, quiet]
    exact h.loaded
  · intro config hconfig
    rw [hlatest] at hconfig
    rw [strings, rejectedLoads_snoc fails, List.foldl_append]
    exact foldl_overwrite_strings (h.strings config hconfig) _

theorem fresh_recalls (startTime : Nat) (maxHistoryChat : Int) :
    (fresh startTime maxHistoryChat : System σ).Recalls [] where
  loaded := rfl
  strings := fun _ h => by cases h

theorem Transition.recalls {s t : System σ} {act : Act} {history : List Act}
    (ht : Transition vendor s act t) (h : s.Recalls history) : t.Recalls (history ++ [act]) := by
  cases ht with
  | @loadThrew env jsonBody what reads =>
    have hfails : (Act.loadModel env jsonBody).loaded? = none := by
      simp [Act.loaded?, reads, Except.toOption]
    exact h.kept hfails rfl rfl rfl
  | @loadFailed env jsonBody config early reads throws told =>
    have hfails : (Act.loadModel env jsonBody).loaded? = none := by simp [Act.loaded?, throws]
    have hquiet : latest Event.load? (early ++ [.loadFailed, loadFailedReply s.next]) = none := by
      rcases told with rfl | rfl <;> rfl
    apply h.kept hfails rfl hquiet
    -- the whole configuration has been read
    simp only [Act.loadRequest?, Option.toList_some, List.foldl_cons, List.foldl_nil,
      overwrite_of_reads _ reads]
    rfl
  | @loaded env jsonBody config modelId reads succeeds names =>
    have hloaded : (Act.loadModel env jsonBody).loaded? = some config := by
      simp [Act.loaded?, succeeds, reads, Except.toOption]
    have hlatest : latest Act.loaded? (history ++ [.loadModel env jsonBody]) = some config := by
      simp [hloaded]
    constructor
    · rw [hlatest, answer_log, loadedConfig_append]
      simp [Event.load?, loadedReply, reads, Except.toOption]
    · intro config' hconfig
      cases hlatest.symm.trans hconfig
      rw [rejectedLoads_loaded hloaded]
      rfl
  | unloadRefused | unloaded | chatRefused | chatThrew | chatQueued | chatFaulted | embedding
  | modelStatus | models | streamStarted | generated | startFaulted | turned | loopLeft
  | turnFaulted | leftUnloaded | leftLoaded | tornDown | fastEnough | reloaded | reloadFailed
  | finished => exact h.kept rfl rfl rfl rfl
  | startFailed idle queues throws used =>
    obtain ⟨epoch, huses⟩ := used.uses
    exact h.kept rfl rfl (by rw [failed_latest huses rfl rfl]; rfl) rfl
  | generateFaulted idle queues holds whole succeeds used =>
    obtain ⟨epoch, huses⟩ := used.uses
    exact h.kept rfl rfl (uses_latest huses rfl rfl) rfl
  | turnFailed at_ throws used =>
    obtain ⟨epoch, huses⟩ := used.uses
    exact h.kept rfl rfl (by rw [failed_latest huses rfl rfl]; rfl) rfl

/-! ## What the handles belong to -/

/-- The handles belong to the current load. -/
def HandleEpoch (s : System σ) : Prop :=
  ∀ model, s.engine.ogaModel = some model → model.epoch = some (epoch s.log)

theorem epoch_append (log events : List Event) : epoch (log ++ events) = epoch log + epoch events :=
  List.countP_append

/-- Nothing but a load starts an epoch, and it replaces the handles. -/
theorem HandleEpoch.kept {s t : System σ} {events : List Event} (h : s.HandleEpoch)
    (log : t.log = s.log ++ events) (quiet : epoch events = 0)
    (handles : ∀ model, t.engine.ogaModel = some model → s.engine.ogaModel = some model) :
    t.HandleEpoch := by
  intro model hmodel
  rw [log, epoch_append, quiet]
  exact h model (handles model hmodel)

theorem uses_epoch {id : Nat} {epoch : Option Nat} {uses : List Event} (h : Uses id epoch uses) :
    CortexOnnx.epoch uses = 0 := by
  apply List.countP_eq_zero.mpr
  intro e he
  rcases h e he with rfl | rfl <;> simp [Event.load?]

theorem Transition.handleEpoch {s t : System σ} {act : Act} {history : List Act}
    (ht : Transition vendor s act t) (h : s.HandleEpoch) (recalls : s.Recalls history)
    (hclean : s.mixesLoads history act = false) : t.HandleEpoch := by
  cases ht with
  | loadThrew | unloadRefused | chatRefused | chatThrew | chatQueued | chatFaulted | embedding
  | modelStatus | models | streamStarted | generated | startFaulted | loopLeft | turnFaulted
  | leftUnloaded | leftLoaded | fastEnough | finished =>
    exact h.kept rfl rfl fun _ hmodel => hmodel
  | loadFailed reads throws told =>
    intro model hmodel
    cases hmodel
  | loaded =>
    intro model hmodel
    cases hmodel
    simp [epoch, Event.load?, loadedReply]
  -- null handles belong to no load
  | unloaded | tornDown | startFailed | turnFailed | reloadFailed =>
    intro model hmodel
    cases hmodel
  | generateFaulted idle queues holds whole succeeds used =>
    obtain ⟨epoch, huses⟩ := used.uses
    exact h.kept rfl (uses_epoch huses) fun _ hmodel => hmodel
  | turned at_ holds =>
    apply h.kept rfl rfl
    intro model hmodel
    rw [holds.ogaModel]
    exact hmodel
  | reloaded at_ succeeds =>
    intro model hmodel
    cases hmodel
    -- the path is the current load's, so the new handles continue its epoch
    simp [mixesLoads, at_, Worker.task?, succeeds] at hclean
    have hpath := recalls.path.mp hclean.2
    simp [restartEpoch, hpath, epoch, Event.load?]

/-- No model, and no task past its last test. -/
def Down (s : System σ) : Prop :=
  s.engine.modelLoaded = false ∧ s.engine.ogaModel = none ∧ s.worker.pastTest = false

/-- After an unload, until a load succeeds, the engine is down. -/
def StaysDown (s : System σ) : Prop := unloadedLast s.log = true → s.Down

theorem StaysDown.kept {s t : System σ} {events : List Event} (h : s.StaysDown)
    (log : t.log = s.log ++ events) (quiet : latest Event.unload? events = none)
    (down : s.Down → t.Down) : t.StaysDown := by
  intro hlast
  rw [log, unloadedLast_append, quiet] at hlast
  exact down (h hlast)

theorem Transition.staysDown {s t : System σ} {act : Act} (ht : Transition vendor s act t)
    (h : s.StaysDown) (hatomic : (handler vendor s.next act).isSome → s.worker.pastTest = false) :
    t.StaysDown := by
  cases ht with
  | loadThrew | unloadRefused | chatRefused | chatThrew | chatQueued | chatFaulted | embedding
  | modelStatus | models | startFaulted | turnFaulted => exact h.kept rfl rfl id
  | loadFailed reads throws told =>
    have hworker := hatomic rfl
    rcases told with rfl | rfl
    · exact h.kept rfl rfl fun down => ⟨down.1, rfl, hworker⟩
    · exact h.kept rfl rfl fun down => ⟨down.1, rfl, hworker⟩
  | loaded =>
    intro hlast
    rw [answer_log, unloadedLast_append] at hlast
    cases hlast
  | unloaded => exact fun _ => ⟨rfl, rfl, hatomic rfl⟩
  | streamStarted | generated | loopLeft | leftUnloaded =>
    exact h.kept rfl rfl fun down => ⟨down.1, down.2.1, rfl⟩
  | generateFaulted idle queues holds whole succeeds used =>
    obtain ⟨epoch, huses⟩ := used.uses
    exact h.kept rfl (uses_latest huses rfl rfl) id
  | startFailed idle queues throws used =>
    obtain ⟨epoch, huses⟩ := used.uses
    exact h.kept rfl (by rw [failed_latest huses rfl rfl]; rfl) fun down => ⟨down.1, rfl, rfl⟩
  | turnFailed at_ throws used =>
    obtain ⟨epoch, huses⟩ := used.uses
    exact h.kept rfl (by rw [failed_latest huses rfl rfl]; rfl) fun down => ⟨down.1, rfl, rfl⟩
  -- a turn needs handles, and there are none
  | turned at_ holds =>
    apply h.kept rfl rfl
    intro down
    rw [Down, holds.ogaModel] at down
    cases down.2.1
  | leftLoaded at_ set =>
    apply h.kept rfl rfl
    intro down
    rw [Down, set] at down
    cases down.1
  | tornDown at_ | fastEnough at_ | reloaded at_ | reloadFailed at_ | finished at_ =>
    -- past its last test the task sees no handler call, so no unload has come in between
    apply h.kept rfl rfl
    intro down
    rw [Down, at_] at down
    cases down.2.2

/-! ## What a clean step says about a request -/

/-- Each use of a handle and each token is of a request that no load has overtaken, with the handles
of the current load, and a token comes with no unload. -/
structure Clean (s : System σ) (events : List Event) : Prop where
  uses : ∀ id epoch, .used id epoch ∈ events →
    loadedSince id s.log = false ∧ epoch = some (CortexOnnx.epoch s.log)
  tokens : ∀ e ∈ events, ∀ id, e.token? = some id →
    loadedSince id s.log = false ∧ unloadedLast s.log = false
  apart : ∀ e ∈ events, e.token?.isSome = true → .modelUnloaded ∉ events

/-- The task at the front is gone, and it was not told of a success. -/
def Drops (s t : System σ) : Prop :=
  ∃ task others events, s.alive = task :: others ∧ t.alive = others ∧ t.log = s.log ++ events ∧
    Concerns task.id events ∧ ∀ reply ∈ replies events, reply.1.success = false

/-- Events of which none is a use or a token. -/
theorem clean_of_idle {s : System σ} {events : List Event}
    (hidle : ∀ e ∈ events, (∀ id epoch, e ≠ .used id epoch) ∧ e.token? = none) :
    s.Clean events where
  uses := fun id epoch hused => absurd rfl ((hidle _ hused).1 id epoch)
  tokens := by
    intro e he id htoken
    rw [(hidle e he).2] at htoken
    cases htoken
  apart := by
    intro e he htoken
    rw [(hidle e he).2] at htoken
    cases htoken

theorem drops_of_caught {s : System σ} {task : Task} {others : List Task} {uses : List Event}
    {engine : OnnxEngine σ} (front : s.alive = task :: others)
    (used : s.engine.MayUse task.id uses) (waiting : engine.waiting = others) :
    s.Drops (s.moves engine (uses ++ failedEvents task.id) .idle) := by
  obtain ⟨epoch, huses⟩ := used.uses
  refine ⟨task, others, uses ++ failedEvents task.id, front, waiting, rfl, ?_, ?_⟩
  · apply concerns_append.mpr
    refine ⟨uses_concerns huses, ?_⟩
    simp [failedEvents, inferenceFailedReply, Concerns, Event.subject?]
  · rw [replies_append, (uses_quiet huses).1]
    simp [replies, failedEvents, inferenceFailedReply, Event.reply?, Status.success, Status.failure]

theorem Transition.clean {s t : System σ} {act : Act} {history : List Act}
    (ht : Transition vendor s act t) (hepoch : s.HandleEpoch) (hdown : s.StaysDown)
    (recalls : s.Recalls history) (hclean : s.mixesLoads history act = false) :
    (∃ events, t.log = s.log ++ events ∧ s.Clean events) ∨ s.Drops t := by
  -- where handles are in use no unload is the last thing a client did
  have hup {model : OgaModel} {state : σ} (holds : s.engine.Holds model state) :
      unloadedLast s.log = false := by
    by_cases hlast : unloadedLast s.log = true
    · have hnone := (hdown hlast).2.1
      rw [holds.ogaModel] at hnone
      cases hnone
    · simpa using hlast
  cases ht with
  | loadThrew | unloadRefused | unloaded | chatRefused | chatThrew | chatQueued | chatFaulted
  | embedding | modelStatus | models | startFaulted | loopLeft | turnFaulted | leftUnloaded
  | leftLoaded | tornDown | fastEnough | reloadFailed | finished | loaded =>
    refine Or.inl ⟨_, rfl, clean_of_idle ?_⟩
    simp [Event.token?, refusal, unloadedReply, modelStatusReply, modelsReply, streamUnloadedReply,
      failedEvents, inferenceFailedReply, stopReply, loadedReply]
  | loadFailed reads throws told =>
    refine Or.inl ⟨_, rfl, clean_of_idle ?_⟩
    rcases told with rfl | rfl <;> simp [Event.token?, loadedReply, loadFailedReply]
  | @streamStarted env name task tasks model state idle queues stream holds succeeds =>
    have hcurrent := hepoch model holds.ogaModel
    -- that the step is clean says that no load has come since the admission
    simp [mixesLoads, OnnxEngine.nextTask?, queues, taskCalls, stream, succeeds] at hclean
    refine Or.inl ⟨_, rfl, ?_, ?_, ?_⟩
    · intro id epoch hused
      cases List.eq_of_mem_replicate hused
      exact ⟨hclean, hcurrent⟩
    · intro e he id htoken
      rw [List.eq_of_mem_replicate he] at htoken
      cases htoken
    · intro e he htoken
      rw [List.eq_of_mem_replicate he] at htoken
      cases htoken
  | @generated env name task tasks model state body idle queues whole holds succeeds =>
    have hcurrent := hepoch model holds.ogaModel
    have hlast := hup holds
    simp [mixesLoads, OnnxEngine.nextTask?, queues, taskCalls, whole, succeeds] at hclean
    refine Or.inl ⟨_, rfl, ?_, ?_, ?_⟩
    · intro id epoch hused
      simp at hused
      rw [hused.1, hused.2]
      exact ⟨hclean, hcurrent⟩
    · intro e he id htoken
      simp at he
      rcases he with rfl | rfl | rfl | rfl <;> simp [Event.token?] at htoken
      subst htoken
      exact ⟨hclean, hlast⟩
    · intro _ _ _
      simp
  | @turned env task sequence model state at_ holds turns succeeds =>
    have hcurrent := hepoch model holds.ogaModel
    have hlast := hup holds
    simp [mixesLoads, at_, Worker.task?, turns, succeeds] at hclean
    refine Or.inl ⟨_, rfl, ?_, ?_, ?_⟩
    · intro id epoch hused
      simp [chunkReply] at hused
      rw [hused.1, hused.2]
      exact ⟨hclean, hcurrent⟩
    · intro e he id htoken
      simp [chunkReply] at he
      rcases he with rfl | rfl | rfl <;> simp [Event.token?] at htoken
      subst htoken
      exact ⟨hclean, hlast⟩
    · intro _ _ _
      simp [chunkReply]
  | @reloaded env task at_ succeeds =>
    simp [mixesLoads, at_, Worker.task?, succeeds] at hclean
    have hpath := recalls.path.mp hclean.2
    refine Or.inl ⟨_, rfl, ?_, ?_, ?_⟩
    · intro id epoch hused
      simp at hused
      rw [hused.1, hused.2]
      exact ⟨hclean.1, by simp [restartEpoch, hpath]⟩
    · intro e he id htoken
      simp at he
      rcases he with rfl | rfl <;> cases htoken
    · intro _ _ _
      simp
  | startFailed idle queues throws used =>
    exact Or.inr (drops_of_caught (alive_of_idle idle queues) used rfl)
  | turnFailed at_ throws used =>
    exact Or.inr (drops_of_caught (alive_of_running (by rw [at_]; rfl)) used rfl)
  | generateFaulted idle queues holds whole succeeds used =>
    obtain ⟨epoch, huses⟩ := used.uses
    refine Or.inr ⟨_, _, _, alive_of_idle idle queues, ?_, rfl, uses_concerns huses, ?_⟩
    · simp [alive, idle, Worker.task?, OnnxEngine.waiting, OnnxEngine.dequeue]
    · rw [(uses_quiet huses).1]
      simp

/-! ## Along a run -/

/-- A live request has been told chunks only. -/
theorem Ledger.not_succeeded {s : System σ} (h : s.Ledger vendor) {id : Nat}
    (halive : s.IsAlive id) : ¬Succeeded id s.log := by
  intro ⟨status, body, hmem, hsuccess⟩
  have hqueued : .queued id ∈ s.log := by
    obtain ⟨task, htask, hid⟩ := halive
    exact hid ▸ h.admitted task htask
  obtain ⟨rest, habout, _, last, htranscript, _, hopen, _⟩ := h.replied id hqueued
  rw [hopen halive] at htranscript
  obtain ⟨chunks, hreplies, hchunks⟩ := htranscript
  have hcallback : .callback id status body ∈ .queued id :: rest :=
    habout ▸ mem_about.mpr ⟨hmem, rfl⟩
  -- a live request's transcript is still open, so its replies are the chunks
  have hreply : (status, body) ∈ chunks := by
    rw [List.append_nil] at hreplies
    rw [← hreplies]
    rcases List.mem_cons.mp hcallback with hfirst | hrest
    · cases hfirst
    · exact List.mem_filterMap.mpr ⟨_, hrest, rfl⟩
  have hchunk : status = .chunk := chunks_status hchunks _ hreply
  rw [hchunk] at hsuccess
  cases hsuccess

theorem succeeded_of_about {id : Nat} {log log' : List Event}
    (h : about Event.subject? id log' = about Event.subject? id log) (hs : Succeeded id log') :
    Succeeded id log := by
  obtain ⟨status, body, hmem, hsuccess⟩ := hs
  have habout : .callback id status body ∈ about Event.subject? id log' := mem_about.mpr ⟨hmem, rfl⟩
  rw [h] at habout
  exact ⟨status, body, (mem_about.mp habout).1, hsuccess⟩

theorem loadedSince_append {id : Nat} {log after : List Event}
    (h : about Event.subject? id log = []) :
    loadedSince id (log ++ .queued id :: after) = after.any fun event => event.load?.isSome := by
  have hpast : ∀ e ∈ log, (!e.queues id) = true := by
    intro e he
    by_cases hqueues : e.queues id = true
    · have hsubject : e.subject? = some id := by
        cases e <;> simp_all [Event.queues, Event.subject?]
      have hmem := mem_about.mpr ⟨he, hsubject⟩
      rw [h] at hmem
      exact absurd hmem List.not_mem_nil
    · simpa using hqueues
  -- nothing before the admission is about the request
  rw [loadedSince, List.dropWhile_append_of_pos hpast]
  simp [Event.queues, Event.load?]

/-- With no load since its admission a request is still in its epoch. -/
theorem epoch_of_not_loadedSince {id : Nat} {log after : List Event}
    (h : (after.any fun event => event.load?.isSome) = false) :
    epoch (log ++ .queued id :: after) = epoch log := by
  have hnone : epoch (.queued id :: after) = 0 := by
    apply List.countP_eq_zero.mpr
    intro e he
    rcases List.mem_cons.mp he with rfl | he
    · simp [Event.load?]
    · exact List.any_eq_false.mp h e he
  rw [epoch_append, hnone]
  rfl

/-- With no load since, an unload would be the last thing a client did. -/
theorem not_unloaded_of_not_loadedSince {id : Nat} {log after : List Event}
    (h : (after.any fun event => event.load?.isSome) = false)
    (hlast : unloadedLast (log ++ .queued id :: after) = false) :
    .modelUnloaded ∉ .queued id :: after := by
  intro hmem
  have hlatest : latest Event.unload? (.queued id :: after) = some true := by
    apply latest_eq_some
    · intro e he
      rcases List.mem_cons.mp he with rfl | he
      · exact Or.inl rfl
      · have hload := List.any_eq_false.mp h e he
        cases e <;> simp_all [Event.unload?, Event.load?]
    · exact ⟨_, hmem, rfl⟩
  rw [unloadedLast_append, hlatest] at hlast
  cases hlast

theorem ServedByOne.step {s t u : System σ} {events : List Event} (h : s.ServedByOne t)
    (hgrown : s.log <+: t.log) (log : u.log = t.log ++ events)
    (uses : ∀ epoch, .used s.next epoch ∈ events → epoch = some (CortexOnnx.epoch s.log))
    (tokens : ∀ e ∈ events, e.token? = some s.next →
      .modelUnloaded ∉ s.since t.log ∧ .modelUnloaded ∉ events) : s.ServedByOne u where
  prompts := h.prompts
  uses := by
    intro epoch hused
    rw [log, List.mem_append] at hused
    rcases hused with hold | hnew
    · exact h.uses epoch hold
    · exact uses epoch hnew
  undisturbed := by
    have hsince : s.since u.log = s.since t.log ++ events := by
      rw [since, log, List.drop_append_of_le_length hgrown.length_le]
      rfl
    rw [hsince, List.pairwise_append]
    -- a new token is the later of a pair, with an old event or a new one
    refine ⟨h.undisturbed, ?_, ?_⟩
    · apply List.pairwise_of_forall_mem_list
      intro earlier hearlier later hlater hunloads htoken
      rw [hunloads] at hearlier
      exact (tokens later hlater htoken).2 hearlier
    · intro earlier hearlier later hlater hunloads htoken
      rw [hunloads] at hearlier
      exact (tokens later hlater htoken).1 hearlier

/-- A step that says nothing about the request. -/
theorem ServedByOne.step_other {s t u : System σ} {events : List Event} (h : s.ServedByOne t)
    (hgrown : s.log <+: t.log) (log : u.log = t.log ++ events)
    (hother : ∀ e ∈ events, e.subject? ≠ some s.next) : s.ServedByOne u := by
  apply h.step hgrown log
  · intro epoch hused
    exact absurd rfl (hother _ hused)
  · intro e he htoken
    have hsubject : e.subject? = some s.next := by
      cases e <;> simp_all [Event.token?, Event.subject?]
    exact absurd hsubject (hother e he)

/-- What is kept of every call: while its task lives, and if it succeeded, one load serves it. -/
def Unmixed (s t : System σ) : Prop :=
  t.IsAlive s.next ∨ Succeeded s.next t.log → s.ServedByOne t

theorem Unmixed.step {s t u : System σ} {jsonBody : Json} {event : Event}
    (h : s.Unmixed t) (call : Called vendor s t jsonBody event)
    (hunborn : about Event.subject? s.next s.log = []) (ledger : t.Ledger vendor)
    (view : View vendor t u)
    (outcome : (∃ events, u.log = t.log ++ events ∧ t.Clean events) ∨ t.Drops u) :
    s.Unmixed u := by
  intro hserved
  have hearlier := call.earlier
  have hgrown : s.log <+: t.log := (List.prefix_append s.log [event]).trans call.logged
  by_cases halive : t.IsAlive s.next
  case neg =>
    -- the record of the request is closed, so nothing in the step is about it
    have hkept := view.record_kept hearlier halive
    have hbefore : Succeeded s.next t.log := by
      rcases hserved with halive' | hsucceeded
      · exact absurd (view.alive_before hearlier halive') halive
      · exact succeeded_of_about hkept hsucceeded
    obtain ⟨events, log⟩ := view.log_grows
    have hnone : about Event.subject? s.next events = [] := by
      rw [← log, about_append] at hkept
      exact List.append_right_eq_self.mp hkept
    have hother : ∀ e ∈ events, e.subject? ≠ some s.next := by
      intro e he hsubject
      have hmem := mem_about.mpr ⟨he, hsubject⟩
      rw [hnone] at hmem
      exact absurd hmem List.not_mem_nil
    exact (h (Or.inr hbefore)).step_other hgrown log.symm hother
  case pos =>
    have hevent := call.queued_of_alive ledger halive
    subst hevent
    obtain ⟨after, hafter⟩ := call.logged
    have hlog : t.log = s.log ++ .queued s.next :: after := by rw [← hafter]; simp
    -- the request is alive: a clean step serves it, a failed one takes a task away
    rcases outcome with ⟨events, log, clean⟩ | ⟨task, others, events, front, hgone, log, hdrop⟩
    · apply (h (Or.inl halive)).step hgrown log
      · intro epoch hused
        obtain ⟨hloaded, hepoch⟩ := clean.uses _ _ hused
        rw [hlog, loadedSince_append hunborn] at hloaded
        rw [hepoch, hlog, epoch_of_not_loadedSince hloaded]
      · intro e he htoken
        obtain ⟨hloaded, hlast⟩ := clean.tokens e he _ htoken
        rw [hlog, loadedSince_append hunborn] at hloaded
        rw [hlog] at hlast
        refine ⟨?_, clean.apart e he (by rw [htoken]; rfl)⟩
        rw [hlog, since_append]
        exact not_unloaded_of_not_loadedSince hloaded hlast
    · obtain ⟨hconcerns, hfailed⟩ := hdrop
      by_cases hid : task.id = s.next
      · -- the request's own task is gone without a success
        rcases hserved with ⟨other, hother, hother'⟩ | ⟨status, body, hmem, hsuccess⟩
        · rw [hgone] at hother
          exact absurd (hother'.trans hid.symm) (ledger.front_fresh front other hother)
        · rw [log, List.mem_append] at hmem
          rcases hmem with hold | hnew
          · exact absurd ⟨status, body, hold, hsuccess⟩ (ledger.not_succeeded halive)
          · have hreply : (status, body) ∈ replies events :=
              List.mem_filterMap.mpr ⟨_, hnew, rfl⟩
            rw [hfailed _ hreply] at hsuccess
            cases hsuccess
      -- another request's task is gone
      · have hother : ∀ e ∈ events, e.subject? ≠ some s.next := by
          intro e he hsubject
          rcases hconcerns.subject e he with hown | hnone
          · rw [hsubject] at hown
            exact hid (Option.some.inj hown).symm
          · rw [hsubject] at hnone
            cases hnone
        exact (h (Or.inl halive)).step_other hgrown log hother

/-- A call that is turned away leaves neither a task nor a success. -/
theorem unmixed_of_turnedAway {s : System σ} {event : Event} (ledger : s.Ledger vendor)
    (hfailed : ∀ status body, event = .callback s.next status body → status.success = false) :
    s.Unmixed (s.answer s.engine [event]) := by
  intro hserved
  rcases hserved with ⟨task, htask, hid⟩ | ⟨status, body, hmem, hsuccess⟩
  · have hlt := ledger.numbered task htask
    omega
  · rw [answer_log, List.mem_append, List.mem_singleton] at hmem
    rcases hmem with hold | hnew
    · have hlt := ledger.lt_next hold rfl
      omega
    · rw [hfailed status body hnew.symm] at hsuccess
      cases hsuccess

/-- A request is admitted with the current load's configuration. -/
theorem Transition.unmixed {s t : System σ} {jsonBody : Json} {history : List Act} (h : s.Tracked)
    (ledger : s.Ledger vendor) (ht : Transition vendor s (.handleChatCompletion jsonBody) t)
    (recalls : s.Recalls history)
    (hclean : s.mixesLoads history (.handleChatCompletion jsonBody) = false) : s.Unmixed t := by
  cases ht with
  | chatRefused =>
    apply unmixed_of_turnedAway ledger
    intro status body hevent
    cases hevent
    rfl
  | chatThrew =>
    apply unmixed_of_turnedAway ledger
    intro status body hevent
    cases hevent
  | chatFaulted set null =>
    have hqueue := h.queue set
    rw [null] at hqueue
    cases hqueue
  | chatQueued set forms =>
    intro _
    constructor
    · apply recalls.prompts.mp
      simpa [mixesLoads, set, forms, Except.isOk, Except.toBool] using hclean
    · intro epoch hused
      rw [answer_log, List.mem_append, List.mem_singleton] at hused
      rcases hused with hold | hnew
      · have hlt := ledger.lt_next hold rfl
        omega
      · cases hnew
    · rw [answer_log, since_append]
      exact List.pairwise_singleton _ _

theorem run_unmixed {startTime : Nat} {maxHistoryChat : Int} {es : List (System σ × Act)}
    {t : System σ} (hrun : Run (step vendor .loop) (fresh startTime maxHistoryChat) es t)
    (hclean : EveryStepAfter (fun history s act => s.mixesLoads history act = false) es) :
    t.Recalls (es.map Prod.snd) ∧ t.HandleEpoch ∧ t.StaysDown ∧
      ∀ s jsonBody, (s, Act.handleChatCompletion jsonBody) ∈ es → s.Unmixed t := by
  -- the handles' epoch and the requests of the run so far are kept together, step by step
  induction hrun with
  | nil =>
    refine ⟨fresh_recalls startTime maxHistoryChat, ?_, ?_,
      fun _ _ hcall => absurd hcall List.not_mem_nil⟩
    · intro model hmodel
      cases hmodel
    · intro hlast
      cases hlast
  | @snoc es t u act before taken ih =>
    obtain ⟨hes, hact⟩ := everyStepAfter_snoc.mp hclean
    obtain ⟨hrecalls, hepoch, hdown, hunmixed⟩ := ih hes
    obtain ⟨htracked, ledger⟩ := run_ledger before
    obtain ⟨_, hallows, ht⟩ := step_transition htracked.aligned taken
    have hatomic : (handler vendor t.next act).isSome → t.worker.pastTest = false := by
      intro hhandler
      have hgrain := hallows hhandler
      revert hgrain
      cases t.worker <;> simp [Grain.allows, Worker.pastTest]
    rw [List.map_append]
    refine ⟨ht.recalls hrecalls, ht.handleEpoch hepoch hrecalls hact, ht.staysDown hdown hatomic,
      ?_⟩
    intro s jsonBody hcall
    -- the call was made earlier, or it is this step
    rcases List.mem_append.mp hcall with hold | hnew
    · obtain ⟨before', v, hbefore, htaken⟩ := before.reached hold
      obtain ⟨event, _, hcalled⟩ := run_called before hold htaken
      have hunborn := (run_ledger hbefore).2.unborn s.next (Nat.le_refl _)
      exact (hunmixed s jsonBody hold).step hcalled hunborn ledger ht.view
        (ht.clean hepoch hdown hrecalls hact)
    · cases List.mem_singleton.mp hnew
      exact ht.unmixed htracked ledger hrecalls hact

/-- **One load per request.**  In a run of which no step mixes loads, every request that succeeds
has been served by the load under which it was admitted. -/
theorem served_by_one_load {startTime : Nat} {maxHistoryChat : Int} {es : List (System σ × Act)}
    {t : System σ} (hrun : Run (step vendor .loop) (fresh startTime maxHistoryChat) es t)
    (hclean : EveryStepAfter (fun history s act => s.mixesLoads history act = false) es) :
    ∀ s jsonBody, (s, Act.handleChatCompletion jsonBody) ∈ es → Succeeded s.next t.log →
      s.ServedByOne t := by
  intro s jsonBody hcall hsucceeded
  exact (run_unmixed hrun hclean).2.2.2 s jsonBody hcall (Or.inr hsucceeded)

/-- A stream, a load after its last callback, and a whole reply under the second load. -/
def servedInTurn : List Act :=
  [.loadModel {} (loadRequest "m"), .handleChatCompletion (chatRequest true "x"), .start {},
    .iterate { token := 104 }, .iterate { isDone := true }, .postLoop, .throughput {}, .finish {},
    .loadModel {} (loadRequest "n"), .handleChatCompletion (chatRequest false "x"),
    .start { output := utf8Bytes "USER: xASSISTANT: ok" }]

theorem served_by_one_load_of_servedInTurn : ∃ t,
    execute (step utf8Vendor .loop) (fresh 0 0) servedInTurn = some t ∧
      ∀ s jsonBody, (s, Act.handleChatCompletion jsonBody) ∈
          trace (step utf8Vendor .loop) (fresh 0 0) servedInTurn →
        Succeeded s.next t.log → s.ServedByOne t := by
  have hruns : (execute (step utf8Vendor .loop) (fresh 0 0) servedInTurn).any
      (fun t => t.fault.isNone) = true := by decide
  obtain ⟨t, hexecute, hrun, _⟩ := exists_run_of_execute hruns
  have hclean : EveryStepAfter (fun history s act => s.mixesLoads history act = false)
      (trace (step utf8Vendor .loop) (fresh 0 0) servedInTurn) := by
    unfold EveryStepAfter
    decide
  exact ⟨t, hexecute, served_by_one_load hrun hclean⟩

/-- A load between a request's admission and its start: another model answers it. -/
theorem load_over_queue_mixes :
    ¬∀ es t, Run (step utf8Vendor .loop) (fresh 0 0) es t →
      ∀ s jsonBody, (s, Act.handleChatCompletion jsonBody) ∈ es → Succeeded s.next t.log →
        s.ServedByOne t := by
  have hruns : (execute (step utf8Vendor .loop) (fresh 0 0)
      [.loadModel {} (loadRequest "m"), .handleChatCompletion (chatRequest true "x"),
        .loadModel {} (loadRequest "n"), .start {}, .iterate { isDone := true }, .postLoop,
        .throughput {}, .finish {}]).any
        (fun t => t.log.any (·.succeeds 1) && t.log.any (·.usesEpoch 1 2)) = true := by decide
  obtain ⟨t, _, hrun, hmixed⟩ := exists_run_of_execute hruns
  rw [Bool.and_eq_true, List.any_eq_true, List.any_eq_true] at hmixed
  obtain ⟨⟨event, hevent, hsucceeds⟩, event', hevent', huses⟩ := hmixed
  intro hclaim
  have hserved := hclaim _ t hrun _ (chatRequest true "x") (List.Mem.tail _ (List.Mem.head _))
    (succeeded_of_event hevent hsucceeds)
  have hepoch := hserved.uses (some 2) (used_of_event hevent' huses)
  cases hepoch

end System

end CortexOnnx

import Mathlib.Data.List.Induction
import CortexOnnx.Transition

/-!
# The record determines the flag and the handles

Between any two steps the three handles are all set or all null.  Whether they are set, and whether
`model_loaded_` is, can be read off the record: each is written by a few kinds of event only.  The
later files argue about the record instead of the six writers of these fields.
-/

namespace CortexOnnx

variable {σ : Type} {vendor : Vendor σ} {grain : Grain}

/-- What an event writes to `model_loaded_`.  The two `catch` blocks write nothing. -/
def Event.flag? : Event → Option Bool
  | .modelLoaded _ | .restarted => some true
  | .modelUnloaded | .restarting => some false
  | _ => none

/-- What an event does to the handles. -/
def Event.live? : Event → Option Bool
  | .modelLoaded _ | .restarted => some true
  | .modelUnloaded | .restarting | .loadFailed | .inferenceError _ => some false
  | _ => none

/-- The flag after a history. -/
def flagged (log : List Event) : Bool := (latest Event.flag? log).getD false

/-- Whether the handles are set after a history. -/
def live (log : List Event) : Bool := (latest Event.live? log).getD false

theorem flagged_append (log events : List Event) :
    flagged (log ++ events) = (latest Event.flag? events).getD (flagged log) := by
  rw [flagged, latest_append]
  cases latest Event.flag? events <;> rfl

theorem live_append (log events : List Event) :
    live (log ++ events) = (latest Event.live? events).getD (live log) := by
  rw [live, latest_append]
  cases latest Event.live? events <;> rfl

/-- The handles are set only while the flag is. -/
theorem flagged_of_live {log : List Event} (h : live log = true) : flagged log = true := by
  induction log using List.reverseRecOn with
  | nil => cases h
  -- an event that clears the flag clears the handles, and only a load or a restart sets them
  | append_singleton log event ih =>
    rw [live_append] at h
    rw [flagged_append]
    cases event <;> simp_all [Event.live?, Event.flag?]

/-- Uses of handles write nothing. -/
theorem uses_latest {β : Type} {f : Event → Option β} {id : Nat} {epoch : Option Nat}
    {uses : List Event} (h : Uses id epoch uses) (hused : f (.used id epoch) = none)
    (hgenerated : f (.generated id) = none) : latest f uses = none := by
  apply latest_eq_none
  intro e he
  rcases h e he with rfl | rfl
  · exact hused
  · exact hgenerated

/-- The events of a `catch` block, after some uses. -/
theorem failed_latest {β : Type} {f : Event → Option β} {id : Nat} {epoch : Option Nat}
    {uses : List Event} (h : Uses id epoch uses) (hused : f (.used id epoch) = none)
    (hgenerated : f (.generated id) = none) :
    latest f (uses ++ failedEvents id) =
      (f (inferenceFailedReply id)).or (f (.inferenceError id)) := by
  rw [latest_append, uses_latest h hused hgenerated, Option.or_none]
  simp [failedEvents]

namespace OnnxEngine

/-- Only the handles matter. -/
theorem Aligned.congr {engine engine' : OnnxEngine σ} (h : engine.Aligned)
    (ogaModel : engine'.ogaModel = engine.ogaModel)
    (tokenizer : engine'.tokenizer = engine.tokenizer)
    (tokenizerStream : engine'.tokenizerStream = engine.tokenizerStream) : engine'.Aligned := by
  rcases h with empty | ⟨model, state, holds⟩
  · exact Or.inl ⟨ogaModel.trans empty.1, tokenizer.trans empty.2, tokenizerStream.trans empty.3⟩
  · exact Or.inr ⟨model, state, ogaModel.trans holds.1, tokenizer.trans holds.2,
      tokenizerStream.trans holds.3⟩

theorem markLoaded_q_isSome (engine : OnnxEngine σ) (modelId : String) (startTime : Nat) :
    (engine.markLoaded modelId startTime).q.isSome = true := by
  rw [markLoaded]
  cases engine.q <;> rfl

theorem MayUse.uses {engine : OnnxEngine σ} {id : Nat} {uses : List Event}
    (h : engine.MayUse id uses) : ∃ epoch, Uses id epoch uses := by
  rcases h with rfl | ⟨model, _, _, huses⟩
  · exact ⟨none, fun e he => absurd he List.not_mem_nil⟩
  · exact ⟨model.epoch, huses⟩

/-- Aligned handles are null exactly when the model's is. -/
theorem Aligned.empty_iff {engine : OnnxEngine σ} (h : engine.Aligned) :
    engine.Empty ↔ engine.ogaModel.isSome = false := by
  constructor
  · intro empty
    rw [empty.ogaModel]
    rfl
  · intro hnone
    rcases h with empty | ⟨model, state, holds⟩
    · exact empty
    · rw [holds.ogaModel] at hnone
      cases hnone

theorem Aligned.holds_of {engine : OnnxEngine σ} (h : engine.Aligned)
    (hsome : engine.ogaModel.isSome = true) : ∃ model state, engine.Holds model state := by
  rcases h with empty | holds
  · rw [empty.ogaModel] at hsome
    cases hsome
  · exact holds

end OnnxEngine

namespace System

/-- What happened from state `s` on. -/
def since (s : System σ) (log : List Event) : List Event := log.drop s.log.length

theorem since_append (s : System σ) (events : List Event) : s.since (s.log ++ events) = events :=
  List.drop_left

/-- The engine agrees with the record, and a set flag means there is a queue. -/
structure Tracked (s : System σ) : Prop where
  aligned : s.engine.Aligned
  flag : s.engine.modelLoaded = flagged s.log
  handles : s.engine.ogaModel.isSome = live s.log
  queue : s.engine.modelLoaded = true → s.engine.q.isSome = true

theorem Tracked.flag_of_holds {s : System σ} (h : s.Tracked) {model : OgaModel} {state : σ}
    (holds : s.engine.Holds model state) : s.engine.modelLoaded = true := by
  rw [h.flag]
  apply flagged_of_live
  rw [← h.handles, holds.ogaModel]
  rfl

theorem fresh_tracked (startTime : Nat) (maxHistoryChat : Int) :
    (fresh startTime maxHistoryChat : System σ).Tracked where
  aligned := Or.inl ⟨rfl, rfl, rfl⟩
  flag := rfl
  handles := rfl
  queue := fun h => by cases h

/-- One step, by what its events write. -/
theorem Tracked.step {s t : System σ} {events : List Event} (h : s.Tracked)
    (hlog : t.log = s.log ++ events) (aligned : t.engine.Aligned)
    (flag : t.engine.modelLoaded = (latest Event.flag? events).getD s.engine.modelLoaded)
    (handles : t.engine.ogaModel.isSome = (latest Event.live? events).getD s.engine.ogaModel.isSome)
    (queue : t.engine.modelLoaded = true → t.engine.q.isSome = true) : t.Tracked where
  aligned := aligned
  flag := by rw [flag, h.flag, hlog, flagged_append]
  handles := by rw [handles, h.handles, hlog, live_append]
  queue := queue

theorem Transition.tracked {s t : System σ} {act : Act} (h : s.Tracked)
    (ht : Transition vendor s act t) : t.Tracked := by
  have hsame := h.aligned
  have hqueue := h.queue
  cases ht with
  | loadThrew => exact h.step rfl (hsame.congr rfl rfl rfl) rfl rfl hqueue
  | loadFailed reads throws told =>
    -- that the client was told of success first writes neither field
    rcases told with rfl | rfl
    · exact h.step rfl (Or.inl (OnnxEngine.dropHandles_empty _)) rfl rfl hqueue
    · exact h.step rfl (Or.inl (OnnxEngine.dropHandles_empty _)) rfl rfl hqueue
  -- the first of the two events that set the flag, and it creates the queue if there is none
  | loaded =>
    exact h.step rfl (Or.inr ⟨_, _, rfl, rfl, rfl⟩) rfl rfl
      (fun _ => OnnxEngine.markLoaded_q_isSome _ _ _)
  | unloadRefused | chatRefused | chatThrew | embedding | modelStatus | models =>
    exact h.step rfl hsame rfl rfl hqueue
  | unloaded => exact h.step rfl (Or.inl ⟨rfl, rfl, rfl⟩) rfl rfl (fun hset => by cases hset)
  | chatQueued => exact h.step rfl (hsame.congr rfl rfl rfl) rfl rfl (fun _ => rfl)
  | chatFaulted => exact h.step rfl hsame rfl rfl hqueue
  | streamStarted | generated => exact h.step rfl (hsame.congr rfl rfl rfl) rfl rfl (fun _ => rfl)
  | startFailed idle queues throws used =>
    obtain ⟨epoch, huses⟩ := used.uses
    exact h.step rfl (Or.inl (OnnxEngine.dropHandles_empty _))
      (by rw [failed_latest huses rfl rfl]; rfl)
      (by rw [failed_latest huses rfl rfl]; rfl) (fun _ => rfl)
  | startFaulted => exact h.step rfl (hsame.congr rfl rfl rfl) rfl rfl (fun _ => rfl)
  | generateFaulted idle queues holds whole succeeds used =>
    obtain ⟨epoch, huses⟩ := used.uses
    exact h.step rfl (hsame.congr rfl rfl rfl) (by rw [uses_latest huses rfl rfl]; rfl)
      (by rw [uses_latest huses rfl rfl]; rfl) (fun _ => rfl)
  -- the stream's handle is set again with the decoder's new state
  | turned at_ holds =>
    exact h.step rfl (Or.inr ⟨_, _, OnnxEngine.withHandles_holds _ _ _⟩) rfl
      (by simp [holds.ogaModel]; rfl) hqueue
  | loopLeft | leftLoaded | fastEnough | finished | leftUnloaded | turnFaulted =>
    exact h.step rfl hsame rfl rfl hqueue
  | turnFailed at_ throws used =>
    obtain ⟨epoch, huses⟩ := used.uses
    exact h.step rfl (Or.inl (OnnxEngine.dropHandles_empty _))
      (by rw [failed_latest huses rfl rfl]; rfl)
      (by rw [failed_latest huses rfl rfl]; rfl) hqueue
  | tornDown => exact h.step rfl (Or.inl ⟨rfl, rfl, rfl⟩) rfl rfl (fun hset => by cases hset)
  | reloaded =>
    exact h.step rfl (Or.inr ⟨_, _, rfl, rfl, rfl⟩) rfl rfl
      (fun _ => OnnxEngine.markLoaded_q_isSome _ _ _)
  | reloadFailed => exact h.step rfl (Or.inl (OnnxEngine.dropHandles_empty _)) rfl rfl hqueue

/-- Where the engine and the record agree, each step is one of the transitions. -/
theorem Tracked.transition {s t : System σ} {act : Act} (h : s.Tracked)
    (taken : System.step vendor grain s act = some t) : Transition vendor s act t :=
  (step_transition h.aligned taken).2.2

theorem Tracked.after {s t : System σ} {act : Act} (h : s.Tracked)
    (taken : System.step vendor grain s act = some t) : t.Tracked :=
  (h.transition taken).tracked h

/-- A step that can be taken and has one outcome only. -/
theorem Tracked.taken {s u : System σ} {act : Act} (h : s.Tracked)
    (enabled : (System.step vendor grain s act).isSome = true)
    (only : ∀ t, Transition vendor s act t → t = u) :
    System.step vendor grain s act = some u := by
  obtain ⟨t, htaken⟩ := Option.isSome_iff_exists.mp enabled
  rw [htaken, only t (h.transition htaken)]

/-- Between whole tasks the worker is idle. -/
theorem idle_of_taskGrain {s t : System σ} {act : Act} (h : s.Tracked)
    (taken : step vendor .task s act = some t) (hhandler : (handler vendor s.next act).isSome) :
    s.worker = .idle := by
  have hallows := (step_transition h.aligned taken).2.1 hhandler
  revert hallows
  cases s.worker <;> simp [Grain.allows]

/-- The engine and the record agree along every run, and so an invariant need only be kept by the
transitions from states where they do. -/
theorem run_invariant {I : System σ → Prop} {s t : System σ} {es : List (System σ × Act)}
    (hrun : Run (step vendor grain) s es t) (tracked : s.Tracked) (init : I s)
    (preserved : ∀ {s act t}, s.Tracked → s.fault = none → Transition vendor s act t → I s → I t) :
    t.Tracked ∧ I t := by
  -- along the run `Tracked` is what makes each step one of the transitions
  apply hrun.invariant (I := fun s => s.Tracked ∧ I s) ⟨tracked, init⟩
  intro s act t hs htaken
  have hrunning := (step_transition hs.1.aligned htaken).1
  exact ⟨hs.1.after htaken, preserved hs.1 hrunning (hs.1.transition htaken) hs.2⟩

end System

end CortexOnnx

import CortexOnnx.Tracking
import CortexOnnx.Utf8Vendor

/-!
# Null handles under queued work

The admission check runs when a request arrives and its task runs later, so what the check saw may
be gone.  Handler calls fall here between the start, the loop turns and the post-loop part of a
task.  A task meets a null handle exactly when it gets as far as its first use of one after an
unload, a failed load or a failed task, with no load or restart in between.
-/

namespace CortexOnnx

variable {σ : Type} {vendor : Vendor σ}

/-- Dereferences of one of the three handles. -/
def Fault.nullHandle : Fault → Bool
  | nullModel | nullTokenizer | nullTokenizerStream => true
  | nullQueue | outOfBounds | uncaught => false

namespace System

/-- No step has dereferenced a null handle. -/
def NoNullUse (s : System σ) : Prop := ∀ fault, s.fault = some fault → fault.nullHandle = false

/-- After a history that leaves no handles, a task starts and its input sequences are created, or a
turn of its loop reaches `Decode`. -/
def reachesNull (s : System σ) : Act → Bool
  | .start env =>
      !live s.log && (s.engine.nextTask?.isSome && !env.fails .sequencesCreate)
  | .iterate env => !live s.log && (s.engine.turns env && !s.engine.throwsEarly env)
  | _ => false

/-- Handles are null exactly after a history that leaves none. -/
theorem Tracked.empty_iff {s : System σ} (h : s.Tracked) : s.engine.Empty ↔ live s.log = false := by
  rw [h.aligned.empty_iff, h.handles]

theorem Tracked.live_of_holds {s : System σ} (h : s.Tracked) {model : OgaModel} {state : σ}
    (holds : s.engine.Holds model state) : live s.log = true := by
  rw [← h.handles, holds.ogaModel]
  rfl

theorem noNullUse_of_running {s : System σ} (h : s.fault = none) : s.NoNullUse := by
  intro fault hfault
  rw [h] at hfault
  cases hfault

/-- One step before any fault: it is safe unless it reaches a null handle. -/
theorem Transition.noNullUse_iff {s t : System σ} {act : Act} (ht : Transition vendor s act t)
    (h : s.Tracked) (hrunning : s.fault = none) :
    t.NoNullUse ↔ s.reachesNull act = false := by
  cases ht with
  | loadThrew | loadFailed | loaded | unloadRefused | unloaded | chatRefused | chatThrew
  | chatQueued | embedding | modelStatus | models | leftUnloaded | leftLoaded | tornDown
  | fastEnough | reloaded | reloadFailed | finished =>
    -- none of these is a start or a turn
    exact iff_of_true (noNullUse_of_running hrunning) rfl
  -- the queue is not one of the three handles
  | chatFaulted =>
    apply iff_of_true
    · intro fault hfault
      cases hfault
      rfl
    · rfl
  | streamStarted idle queues stream holds | generated idle queues whole holds =>
    apply iff_of_true (noNullUse_of_running hrunning)
    simp [reachesNull, h.live_of_holds holds]
  | generateFaulted idle queues holds =>
    apply iff_of_true
    · intro fault hfault
      cases hfault
      rfl
    · simp [reachesNull, h.live_of_holds holds]
  | startFailed idle queues throws used early =>
    apply iff_of_true (noNullUse_of_running hrunning)
    -- with null handles it was the creation of the input sequences that threw
    by_cases hlive : live s.log = true
    · simp [reachesNull, hlive]
    · have hthrew := early (h.empty_iff.mpr (by simpa using hlive))
      simp [reachesNull, hthrew]
  -- both sides fail: the tokenizer is null, and the history has left no handle
  | startFaulted idle queues empty reached =>
    apply iff_of_false
    · intro hsafe
      cases hsafe .nullTokenizer rfl
    · have hdead := h.empty_iff.mp empty
      simp [reachesNull, hdead, OnnxEngine.nextTask?, queues, reached]
  | turned at_ holds =>
    apply iff_of_true (noNullUse_of_running hrunning)
    simp [reachesNull, h.live_of_holds holds]
  | loopLeft at_ tests stops =>
    apply iff_of_true (noNullUse_of_running hrunning)
    simp [reachesNull, stops]
  | turnFailed at_ throws used early =>
    apply iff_of_true (noNullUse_of_running hrunning)
    by_cases hlive : live s.log = true
    · simp [reachesNull, hlive]
    · have hthrew := early (h.empty_iff.mpr (by simpa using hlive))
      simp [reachesNull, hthrew]
  | turnFaulted at_ empty turns reached =>
    apply iff_of_false
    · intro hsafe
      cases hsafe .nullTokenizerStream rfl
    · have hdead := h.empty_iff.mp empty
      simp [reachesNull, hdead, turns, reached]

/-- **Use of null handles.**  In a run no step dereferences a null handle exactly when every task
start and every loop turn that gets as far as a handle comes after a history that leaves one. -/
theorem noNullUse_throughout_iff {startTime : Nat} {maxHistoryChat : Int}
    {es : List (System σ × Act)} {t : System σ}
    (hrun : Run (step vendor .loop) (fresh startTime maxHistoryChat) es t) :
    Throughout NoNullUse es t ↔ EveryStep (fun s act => s.reachesNull act = false) es := by
  apply hrun.throughout_iff (I := Tracked)
  · exact fresh_tracked startTime maxHistoryChat
  · intro s act t hs _ htaken _
    exact hs.after htaken
  · exact noNullUse_of_running rfl
  · intro s act t hs _ htaken
    have ht := step_transition hs.aligned htaken
    exact ht.2.2.noNullUse_iff hs ht.1

/-- A stream that runs to its end, and an unload with nothing left in the queue. -/
def unloadedIdle : List Act :=
  [.loadModel {} (loadRequest "m"), .handleChatCompletion (chatRequest true "x"), .start {},
    .iterate { token := 104 }, .iterate { isDone := true }, .postLoop, .throughput {}, .finish {},
    .unloadModel (.obj [])]

theorem noNullUse_of_unloadedIdle : ∃ t,
    execute (step utf8Vendor .loop) (fresh 0 0) unloadedIdle = some t ∧
      Throughout NoNullUse (trace (step utf8Vendor .loop) (fresh 0 0) unloadedIdle) t := by
  have hruns : (execute (step utf8Vendor .loop) (fresh 0 0) unloadedIdle).any
      (fun t => t.fault.isNone) = true := by decide
  obtain ⟨t, hexecute, hrun, _⟩ := exists_run_of_execute hruns
  have hsafe : ∀ e ∈ trace (step utf8Vendor .loop) (fresh 0 0) unloadedIdle,
      e.1.reachesNull e.2 = false := by decide
  exact ⟨t, hexecute, (noNullUse_throughout_iff hrun).mpr hsafe⟩

/-- An unload while the second of two accepted requests still waits. -/
theorem unload_over_queue_reaches_null :
    ¬∀ es t, Run (step utf8Vendor .loop) (fresh 0 0) es t → Throughout NoNullUse es t := by
  have hruns : (execute (step utf8Vendor .loop) (fresh 0 0)
      [.loadModel {} (loadRequest "m"), .handleChatCompletion (chatRequest false "x"),
        .handleChatCompletion (chatRequest false "y"),
        .start { output := utf8Bytes "USER: xASSISTANT: ok" }, .unloadModel (.obj []),
        .start {}]).any (fun t => t.fault = some .nullTokenizer) = true := by decide
  obtain ⟨t, _, hrun, hfault⟩ := exists_run_of_execute hruns
  intro hclaim
  cases (hclaim _ t hrun).2 .nullTokenizer (by simpa using hfault)

end System

end CortexOnnx

import CortexOnnx.Tracking
import CortexOnnx.Utf8Vendor

/-!
# Whether an unload lasts

Handler calls fall here between any two steps of the worker.  The restart sets the flag again
without a look at what the client did since the test after the loop, so an unload lasts exactly as
long as no restart is completed after it.
-/

namespace CortexOnnx

variable {σ : Type} {vendor : Vendor σ}

/-- What a client did to the model: loads and unloads that succeeded. -/
def Event.unload? : Event → Option Bool
  | .modelLoaded _ => some false
  | .modelUnloaded => some true
  | _ => none

/-- The last load or unload of a client was an unload. -/
def unloadedLast (log : List Event) : Bool := (latest Event.unload? log).getD false

theorem unloadedLast_append (log events : List Event) :
    unloadedLast (log ++ events) = (latest Event.unload? events).getD (unloadedLast log) := by
  rw [unloadedLast, latest_append]
  cases latest Event.unload? events <;> rfl

namespace System

/-- No model to the clients: `GetModels` lists nothing, an unload and a chat are answered 409. -/
def Unavailable (s : System σ) : Prop :=
  s.engine.modelLoaded = false ∧ runningModels s.engine = [] ∧ ∀ jsonBody,
    s.handle (unloadModel s.next jsonBody) = s.answer s.engine [refusal s.next] ∧
    s.handle (handleChatCompletion s.next jsonBody) = s.answer s.engine [refusal s.next]

/-- All of that is the flag. -/
theorem unavailable_iff {s : System σ} : s.Unavailable ↔ s.engine.modelLoaded = false := by
  constructor
  · intro h
    exact h.1
  · intro hunset
    refine ⟨hunset, by simp [runningModels, hunset], fun jsonBody => ⟨?_, ?_⟩⟩
    -- of the outcomes a specification lists, the clear flag leaves the refusal
    · rcases handle_cases (unloadModel_spec s.next jsonBody s.toWorld) with
        ⟨w, ⟨_, _, rfl⟩ | ⟨hset, _⟩, ht⟩ | ⟨what, w, ⟨_, hr, _⟩ | ⟨_, hr, _⟩, _⟩ |
        ⟨fault, w, ⟨_, hr, _⟩ | ⟨_, hr, _⟩, _⟩
      · exact ht
      · rw [hunset] at hset
        cases hset
      all_goals cases hr
    · rcases handle_cases (handleChatCompletion_spec s.next jsonBody s.toWorld) with
        ⟨w, ⟨_, _, rfl⟩ | ⟨hset, _⟩ | ⟨hset, _⟩, ht⟩ |
        ⟨what, w, ⟨_, hr, _⟩ | ⟨hset, _⟩ | ⟨hset, _⟩, _⟩ |
        ⟨fault, w, ⟨_, hr, _⟩ | ⟨hset, _⟩ | ⟨hset, _⟩, _⟩
      · exact ht
      all_goals first | cases hr | (rw [hunset] at hset; cases hset)

/-- After an unload, until a load succeeds, there is no model. -/
def UnloadSticky (s : System σ) : Prop := unloadedLast s.log = true → s.Unavailable

/-- A restart completes although the last load or unload of a client was an unload. -/
def undoesUnload (s : System σ) : Act → Bool
  | .reload env => unloadedLast s.log && !env.throwsIn createCalls
  | _ => false

theorem unloadSticky_iff {s : System σ} :
    s.UnloadSticky ↔ (unloadedLast s.log = true → s.engine.modelLoaded = false) := by
  rw [UnloadSticky, unavailable_iff]

/-- A step that does not set the flag, and in which no client loads a model. -/
theorem UnloadSticky.kept {s t : System σ} {events : List Event} (h : s.UnloadSticky)
    (log : t.log = s.log ++ events) (quiet : latest Event.unload? events = none)
    (flag : t.engine.modelLoaded = true → s.engine.modelLoaded = true) : t.UnloadSticky := by
  rw [unloadSticky_iff] at h ⊢
  rw [log, unloadedLast_append, quiet]
  intro hlast
  by_cases hset : t.engine.modelLoaded = true
  · have hunset := h hlast
    rw [flag hset] at hunset
    cases hunset
  · simpa using hset

/-- One step, while unloads have lasted. -/
theorem Transition.unloadSticky_iff {s t : System σ} {act : Act} (ht : Transition vendor s act t)
    (h : s.UnloadSticky) : t.UnloadSticky ↔ s.undoesUnload act = false := by
  cases ht with
  | loadFailed reads throws told =>
    apply iff_of_true _ rfl
    rcases told with rfl | rfl
    · exact h.kept rfl rfl id
    · exact h.kept rfl rfl id
  -- a client has loaded a model, so nothing is promised
  | loaded =>
    apply iff_of_true _ rfl
    rw [System.unloadSticky_iff, answer_log, unloadedLast_append]
    intro hlast
    cases hlast
  | unloaded =>
    apply iff_of_true _ rfl
    rw [System.unloadSticky_iff]
    intro _
    rfl
  | startFailed idle queues throws used =>
    obtain ⟨epoch, huses⟩ := used.uses
    apply iff_of_true _ rfl
    exact h.kept rfl (by rw [failed_latest huses rfl rfl]; rfl) id
  | turnFailed at_ throws used =>
    obtain ⟨epoch, huses⟩ := used.uses
    apply iff_of_true _ rfl
    exact h.kept rfl (by rw [failed_latest huses rfl rfl]; rfl) id
  | generateFaulted idle queues holds whole succeeds used =>
    obtain ⟨epoch, huses⟩ := used.uses
    apply iff_of_true _ rfl
    exact h.kept rfl (uses_latest huses rfl rfl) id
  -- the teardown clears the flag, and is no unload of a client's
  | tornDown =>
    apply iff_of_true _ rfl
    exact h.kept rfl rfl (fun hset => by cases hset)
  | reloaded at_ succeeds =>
    -- the one step that sets the flag without a client
    rw [System.unloadSticky_iff, moves_log, unloadedLast_append, undoesUnload, succeeds]
    cases unloadedLast s.log with
    | true => simp [Event.unload?, OnnxEngine.markLoaded]
    | false => simp [Event.unload?]
  | reloadFailed at_ throws =>
    apply iff_of_true
    · exact h.kept rfl rfl id
    · simp [undoesUnload, throws]
  | loadThrew | unloadRefused | chatRefused | chatThrew | chatQueued | chatFaulted | embedding
  | modelStatus | models | streamStarted | generated | startFaulted | turned | loopLeft
  | turnFaulted | leftUnloaded | leftLoaded | fastEnough | finished =>
    apply iff_of_true _ rfl
    exact h.kept rfl rfl id

/-- **Unloads last** in every state of a run exactly when no restart of the run is completed while
the last load or unload of a client was an unload. -/
theorem unloadSticky_throughout_iff {startTime : Nat} {maxHistoryChat : Int}
    {es : List (System σ × Act)} {t : System σ}
    (hrun : Run (step vendor .fine) (fresh startTime maxHistoryChat) es t) :
    Throughout UnloadSticky es t ↔ EveryStep (fun s act => s.undoesUnload act = false) es := by
  apply hrun.throughout_iff (I := Tracked)
  · exact fresh_tracked startTime maxHistoryChat
  · intro s act t hs _ htaken _
    exact hs.after htaken
  · intro hlast
    cases hlast
  · intro s act t hs hsticky htaken
    exact (hs.transition htaken).unloadSticky_iff hsticky

/-- A slow stream that restarts the model, then an unload. -/
def restartedThenUnloaded : List Act :=
  [.loadModel {} (loadRequest "m"), .handleChatCompletion (chatRequest true "x"), .start {},
    .iterate { token := 104 }, .iterate { isDone := true }, .postLoop, .throughput { slow := true },
    .reload {}, .finish {}, .unloadModel (.obj [])]

theorem unloadSticky_of_restartedThenUnloaded : ∃ t,
    execute (step utf8Vendor .fine) (fresh 0 0) restartedThenUnloaded = some t ∧
      Throughout UnloadSticky
        (trace (step utf8Vendor .fine) (fresh 0 0) restartedThenUnloaded) t := by
  have hruns : (execute (step utf8Vendor .fine) (fresh 0 0) restartedThenUnloaded).any
      (fun t => t.fault.isNone) = true := by decide
  obtain ⟨t, hexecute, hrun, _⟩ := exists_run_of_execute hruns
  have hlasts : ∀ e ∈ trace (step utf8Vendor .fine) (fresh 0 0) restartedThenUnloaded,
      e.1.undoesUnload e.2 = false := by decide
  exact ⟨t, hexecute, (unloadSticky_throughout_iff hrun).mpr hlasts⟩

/-- An unload acknowledged between the test after the loop and the teardown of a restart. -/
theorem restart_undoes_unload :
    ¬∀ es t, Run (step utf8Vendor .fine) (fresh 0 0) es t → Throughout UnloadSticky es t := by
  have hruns : (execute (step utf8Vendor .fine) (fresh 0 0)
      [.loadModel {} (loadRequest "m"), .handleChatCompletion (chatRequest true "x"), .start {},
        .iterate { token := 104 }, .iterate { isDone := true }, .postLoop, .unloadModel (.obj []),
        .throughput { slow := true }, .reload {}]).any
        (fun t => unloadedLast t.log && t.engine.modelLoaded) = true := by decide
  obtain ⟨t, _, hrun, hbroken⟩ := exists_run_of_execute hruns
  intro hclaim
  rw [Bool.and_eq_true] at hbroken
  have hunset := ((hclaim _ t hrun).2 hbroken.1).1
  rw [hbroken.2] at hunset
  cases hunset

end System

end CortexOnnx

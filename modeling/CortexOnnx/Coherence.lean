import Mathlib.Data.List.Induction
import Mathlib.Logic.Function.Iterate
import CortexOnnx.Tracking
import CortexOnnx.Utf8Vendor

/-!
# One request behind the running model

Handler calls and whole tasks are atomic here.  `LoadModel` writes the configuration field by field
before its `try` block, so a request with an ill-typed field leaves the fields before it behind,
with the previous model still loaded.  That is the only step after which a running model has
another request's configuration.
-/

namespace CortexOnnx

variable {σ : Type} {vendor : Vendor σ}

/-! ## What a rejected request leaves behind -/

/-- The string fields of a request in the order in which they are read: key, default, and the value
the engine has. -/
def Config.fields (config : Config) : List (String × String × String) :=
  [("model_path", "", config.path), ("user_prompt", "USER: ", config.userPrompt),
    ("ai_prompt", "ASSISTANT: ", config.aiPrompt),
    ("system_prompt", "ASSISTANT's RULE: ", config.systemPrompt),
    ("pre_prompt", "", config.prePrompt)]

/-- The fields that are read before the first ill-typed one have the values the engine has. -/
def keepsFields (jsonBody : Json) : List (String × String × String) → Bool
  | [] => true
  | (key, defaultValue, value) :: rest =>
      match readString jsonBody key defaultValue with
      | .ok read => read = value && keepsFields jsonBody rest
      | .error _ => true

/-- A request that throws changes nothing exactly when it repeats what it overwrites. -/
theorem overwrite_spec (config : Config) {jsonBody : Json} {what : String}
    (h : readConfig jsonBody = .error what) :
    (overwrite config jsonBody).maxHistoryChat = config.maxHistoryChat ∧
      (overwrite config jsonBody = config ↔ keepsFields jsonBody config.fields = true) := by
  simp only [readConfig] at h
  simp only [overwrite, Config.fields, keepsFields]
  -- the first field that throws is where both lists stop
  cases hpath : readString jsonBody "model_path" "" with
  | error => simp
  | ok path =>
    cases huser : readString jsonBody "user_prompt" "USER: " with
    | error => simp [Config.ext_iff]
    | ok userPrompt =>
      cases hai : readString jsonBody "ai_prompt" "ASSISTANT: " with
      | error => simp [Config.ext_iff]
      | ok aiPrompt =>
        cases hsystem : readString jsonBody "system_prompt" "ASSISTANT's RULE: " with
        | error => simp [Config.ext_iff]
        | ok systemPrompt =>
          cases hpre : readString jsonBody "pre_prompt" "" with
          | error => simp [Config.ext_iff]
          | ok prePrompt =>
            cases hmax : readInt jsonBody "max_history_chat" 2 with
            | error => simp [Config.ext_iff]
            -- with all six fields well-typed nothing throws
            | ok maxHistoryChat => simp [hpath, huser, hai, hsystem, hpre, hmax] at h

/-! ## Coherent engines -/

/-- Every handle that is set was created from `path`. -/
structure OnnxEngine.CreatedFrom (engine : OnnxEngine σ) (path : String) : Prop where
  ogaModel : ∀ model, engine.ogaModel = some model → model.path = path
  tokenizer : ∀ tokenizer, engine.tokenizer = some tokenizer → tokenizer.model.path = path
  tokenizerStream : ∀ stream, engine.tokenizerStream = some stream →
    stream.tokenizer.model.path = path

/-- One `LoadModel` request is behind the engine: it has the request's configuration, with a history
window halved by some number of restarts, its model id, and handles created from its path. -/
def OnnxEngine.From (engine : OnnxEngine σ) (jsonBody : Json) : Prop :=
  ∃ config modelId restarts, readConfig jsonBody = .ok config ∧ getModelId jsonBody = .ok modelId ∧
    engine.config =
      { config with maxHistoryChat := halveHistory^[restarts] config.maxHistoryChat } ∧
    engine.modelId = modelId ∧ engine.CreatedFrom config.path

namespace System

/-- The request is that of the last successful load. -/
def Coherent (s : System σ) : Prop :=
  ∃ jsonBody, currentLoad s.log = some jsonBody ∧ s.engine.From jsonBody

/-- A running model is coherent, looked at between tasks. -/
def SettledCoherent (s : System σ) : Prop :=
  s.worker = .idle → s.engine.modelLoaded = true → s.engine.ogaModel.isSome = true →
    s.engine.tokenizer.isSome = true → s.engine.tokenizerStream.isSome = true → s.Coherent

/-- A `LoadModel` request throws to its caller over a running model, and one of the fields it
overwrote has another value. -/
def scramblesConfig (s : System σ) : Act → Bool
  | .loadModel _ jsonBody =>
      s.engine.modelLoaded && (s.engine.ogaModel.isSome && (!(readConfig jsonBody).isOk &&
        !keepsFields jsonBody s.engine.config.fields))
  | _ => false

/-- In the middle of a task the engine is coherent, with or without handles. -/
def CoherentMidTask (s : System σ) : Prop := s.worker ≠ .idle → s.Coherent

theorem CoherentMidTask.of_busy {s : System σ} (h : s.CoherentMidTask)
    (busy : s.worker.isIdle = false) : s.Coherent := by
  apply h
  intro hidle
  rw [hidle] at busy
  cases busy

theorem currentLoad_append (log events : List Event) :
    currentLoad (log ++ events) = (currentLoad events).or (currentLoad log) :=
  latest_append _ _ _

theorem SettledCoherent.of_holds {s : System σ} (hcoherent : s.SettledCoherent) (h : s.Tracked)
    (idle : s.worker = .idle) {model : OgaModel} {state : σ}
    (holds : s.engine.Holds model state) : s.Coherent := by
  apply hcoherent idle (h.flag_of_holds holds)
  · rw [holds.ogaModel]
    rfl
  · rw [holds.tokenizer]
    rfl
  · rw [holds.tokenizerStream]
    rfl

/-- A step that touches neither the configuration nor, but to drop them, the handles. -/
theorem Coherent.kept {s t : System σ} {events : List Event} (h : s.Coherent)
    (log : t.log = s.log ++ events) (quiet : currentLoad events = none)
    (config : t.engine.config = s.engine.config) (modelId : t.engine.modelId = s.engine.modelId)
    (created : ∀ path, s.engine.CreatedFrom path → t.engine.CreatedFrom path) : t.Coherent := by
  obtain ⟨jsonBody, hload, c, i, restarts, hreads, hnames, hconfig, hid, hcreated⟩ := h
  refine ⟨jsonBody, ?_, c, i, restarts, hreads, hnames, ?_, ?_, created _ hcreated⟩
  · rw [log, currentLoad_append, quiet]
    exact hload
  · rw [config, hconfig]
  · rw [modelId, hid]

theorem createdFrom_of_empty {engine : OnnxEngine σ} (h : engine.Empty) (path : String) :
    engine.CreatedFrom path := by
  constructor
  · intro model hmodel
    rw [h.ogaModel] at hmodel
    cases hmodel
  · intro tokenizer htokenizer
    rw [h.tokenizer] at htokenizer
    cases htokenizer
  · intro stream hstream
    rw [h.tokenizerStream] at hstream
    cases hstream

theorem createdFrom_of_holds {engine : OnnxEngine σ} {model : OgaModel} {state : σ} {path : String}
    (h : engine.Holds model state) (hpath : model.path = path) : engine.CreatedFrom path := by
  subst hpath
  constructor
  · intro model' hmodel
    rw [h.ogaModel] at hmodel
    cases hmodel
    rfl
  · intro tokenizer htokenizer
    rw [h.tokenizer] at htokenizer
    cases htokenizer
    rfl
  · intro stream hstream
    rw [h.tokenizerStream] at hstream
    cases hstream
    rfl

theorem Transition.coherentMidTask {s t : System σ} {act : Act} (ht : Transition vendor s act t)
    (h : s.Tracked) (hmid : s.CoherentMidTask) (hcoherent : s.SettledCoherent)
    (hatomic : (handler vendor s.next act).isSome → s.worker = .idle) : t.CoherentMidTask := by
  intro hbusy
  cases ht with
  | loadThrew | loadFailed | loaded | unloadRefused | unloaded | chatRefused | chatThrew
  | chatQueued | chatFaulted | embedding | modelStatus | models => exact absurd (hatomic rfl) hbusy
  | generated | startFailed | turnFailed | leftUnloaded | reloadFailed | finished =>
    exact absurd rfl hbusy
  | startFaulted idle => exact absurd idle hbusy
  | generateFaulted idle => exact absurd idle hbusy
  | streamStarted idle queues stream holds =>
    exact (hcoherent.of_holds h idle holds).kept rfl rfl rfl rfl
      fun _ hcreated => ⟨hcreated.1, hcreated.2, hcreated.3⟩
  -- the model stays, and the new state is put in a stream of the same model
  | @turned env task sequence model state at_ holds =>
    have hs := hmid.of_busy (by rw [at_]; rfl)
    refine hs.kept rfl rfl rfl rfl fun path hcreated => ?_
    exact createdFrom_of_holds (OnnxEngine.withHandles_holds _ _ _)
      (hcreated.ogaModel model holds.ogaModel)
  | loopLeft at_ | leftLoaded at_ | fastEnough at_ | turnFaulted at_ =>
    have hs := hmid.of_busy (by rw [at_]; rfl)
    exact hs.kept rfl rfl rfl rfl fun _ hcreated => hcreated
  | tornDown at_ =>
    -- one restart more behind the history window
    have hs := hmid.of_busy (by rw [at_]; rfl)
    obtain ⟨jsonBody, hload, c, i, restarts, hreads, hnames, hconfig, hid, hcreated⟩ := hs
    refine ⟨jsonBody, ?_, c, i, restarts + 1, hreads, hnames, ?_, hid, ?_⟩
    · rw [moves_log, currentLoad_append]
      exact hload
    · have hmax : s.engine.maxHistoryChat = halveHistory^[restarts] c.maxHistoryChat :=
        congrArg Config.maxHistoryChat hconfig
      have htorn : s.engine.tornDown.config =
          { s.engine.config with maxHistoryChat := halveHistory s.engine.maxHistoryChat } := rfl
      rw [moves_engine, htorn, hconfig, Function.iterate_succ_apply', ← hmax]
    · exact createdFrom_of_empty ⟨rfl, rfl, rfl⟩ _
  | reloaded at_ =>
    have hs := hmid.of_busy (by rw [at_]; rfl)
    obtain ⟨jsonBody, hload, c, i, restarts, hreads, hnames, hconfig, hid, hcreated⟩ := hs
    refine ⟨jsonBody, ?_, c, i, restarts, hreads, hnames, hconfig, hid, ?_⟩
    · rw [moves_log, currentLoad_append]
      exact hload
    -- the restart loads `path_`, and that is still the request's
    · have hpath : s.engine.path = c.path := congrArg Config.path hconfig
      exact createdFrom_of_holds ⟨rfl, rfl, rfl⟩ hpath

theorem settledCoherent_of_unset {s : System σ} (h : s.engine.modelLoaded = false) :
    s.SettledCoherent := by
  intro _ hset
  rw [h] at hset
  cases hset

theorem settledCoherent_of_empty {s : System σ} (h : s.engine.ogaModel = none) :
    s.SettledCoherent := by
  intro _ _ hmodel
  rw [h] at hmodel
  cases hmodel

/-- One step from a coherent state. -/
theorem Transition.settledCoherent_iff {s t : System σ} {act : Act}
    (ht : Transition vendor s act t) (h : s.Tracked) (hmid : s.CoherentMidTask)
    (hcoherent : s.SettledCoherent)
    (hatomic : (handler vendor s.next act).isSome → s.worker = .idle) :
    t.SettledCoherent ↔ s.scramblesConfig act = false := by
  have htracked := ht.tracked h
  cases ht with
  -- the one step in which the two sides can differ from true
  | @loadThrew env jsonBody what reads =>
    by_cases hheld : s.engine.modelLoaded = true ∧ s.engine.ogaModel.isSome = true
    · obtain ⟨model, state, holds⟩ := h.aligned.holds_of hheld.2
      obtain ⟨body, hload, c, i, restarts, hreads, hnames, hconfig, hid, hcreated⟩ :=
        hcoherent.of_holds h (hatomic rfl) holds
      obtain ⟨hmax, hsame⟩ := overwrite_spec s.engine.config reads
      have hscrambles : s.scramblesConfig (.loadModel env jsonBody) = false ↔
          overwrite s.engine.config jsonBody = s.engine.config := by
        rw [hsame]
        simp [scramblesConfig, hheld, reads, Except.isOk, Except.toBool]
      rw [hscrambles]
      constructor
      · intro hafter
        obtain ⟨body', hload', c', i', restarts', hreads', _, hconfig', _⟩ :=
          hafter.of_holds htracked (hatomic rfl) ⟨holds.1, holds.2, holds.3⟩
        -- both configurations are the same request's up to the window, which nothing overwrote
        rw [answer_log, currentLoad_append] at hload'
        cases hload.symm.trans hload'
        cases hreads.symm.trans hreads'
        rw [answer_engine, OnnxEngine.config_withConfig] at hconfig'
        rw [hconfig', hconfig] at hmax ⊢
        simpa [Config.ext_iff] using hmax
      -- it wrote what was there
      · intro hrepeats _ _ _ _ _
        rw [hrepeats, OnnxEngine.withConfig_config]
        exact (hcoherent.of_holds h (hatomic rfl) holds).kept rfl rfl rfl rfl fun _ hpath => hpath
    -- no model is running, so there is nothing to scramble
    · apply iff_of_true
      · intro _ hset hmodel
        exact absurd ⟨hset, hmodel⟩ hheld
      · by_cases hset : s.engine.modelLoaded = true
        · have hnone : s.engine.ogaModel.isSome = false := by simpa [hset] using hheld
          simp [scramblesConfig, hnone]
        · simp [scramblesConfig, hset]
  | loadFailed reads =>
    apply iff_of_true (settledCoherent_of_empty rfl)
    simp [scramblesConfig, reads, Except.isOk, Except.toBool]
  | @loaded env jsonBody config modelId reads succeeds names =>
    apply iff_of_true
    · intro _ _ _ _ _
      -- this request, and no restart since
      refine ⟨jsonBody, ?_, config, modelId, 0, reads, names, rfl, rfl, ?_⟩
      · rw [answer_log, currentLoad_append]
        rfl
      · exact createdFrom_of_holds ⟨rfl, rfl, rfl⟩ rfl
    · simp [scramblesConfig, reads, Except.isOk, Except.toBool]
  | unloaded => exact iff_of_true (settledCoherent_of_unset rfl) rfl
  | leftUnloaded at_ unset => exact iff_of_true (settledCoherent_of_unset unset) rfl
  | startFailed | turnFailed | reloadFailed => exact iff_of_true (settledCoherent_of_empty rfl) rfl
  | startFaulted idle queues empty =>
    exact iff_of_true (settledCoherent_of_empty empty.ogaModel) rfl
  | unloadRefused | chatRefused | chatThrew | chatFaulted | embedding | modelStatus | models =>
    apply iff_of_true _ rfl
    intro idle hset hmodel htokenizer hstream
    exact (hcoherent idle hset hmodel htokenizer hstream).kept rfl rfl rfl rfl
      fun _ hcreated => hcreated
  | chatQueued =>
    apply iff_of_true _ rfl
    intro idle hset hmodel htokenizer hstream
    exact (hcoherent idle hset hmodel htokenizer hstream).kept rfl rfl rfl rfl
      fun _ hcreated => ⟨hcreated.1, hcreated.2, hcreated.3⟩
  | generated idle queues whole holds =>
    apply iff_of_true _ rfl
    intro _ _ _ _ _
    exact (hcoherent.of_holds h idle holds).kept rfl rfl rfl rfl
      fun _ hcreated => ⟨hcreated.1, hcreated.2, hcreated.3⟩
  | generateFaulted idle queues holds whole succeeds used =>
    obtain ⟨epoch, huses⟩ := used.uses
    apply iff_of_true _ rfl
    intro _ _ _ _ _
    exact (hcoherent.of_holds h idle holds).kept rfl (uses_latest huses rfl rfl) rfl rfl
      fun _ hcreated => ⟨hcreated.1, hcreated.2, hcreated.3⟩
  | streamStarted | turned | loopLeft | leftLoaded | tornDown | fastEnough | reloaded =>
    apply iff_of_true _ rfl
    intro idle
    cases idle
  | turnFaulted at_ =>
    apply iff_of_true _ rfl
    intro idle
    rw [crashes_worker, at_] at idle
    cases idle
  | finished at_ =>
    apply iff_of_true _ rfl
    intro _ _ _ _ _
    have hs := hmid.of_busy (by rw [at_]; rfl)
    exact hs.kept rfl rfl rfl rfl fun _ hcreated => hcreated

/-- **Coherence.**  A run of atomic handler calls and tasks keeps a running model coherent exactly
when no request that throws to its caller overwrites a field of a running model with another value.
-/
theorem settledCoherent_throughout_iff {startTime : Nat} {maxHistoryChat : Int}
    {es : List (System σ × Act)} {t : System σ}
    (hrun : Run (step vendor .task) (fresh startTime maxHistoryChat) es t) :
    Throughout SettledCoherent es t ↔
      EveryStep (fun s act => s.scramblesConfig act = false) es := by
  apply hrun.throughout_iff (I := fun s => s.Tracked ∧ s.CoherentMidTask)
  · exact ⟨fresh_tracked startTime maxHistoryChat, fun hbusy => absurd rfl hbusy⟩
  · intro s act t hs hcoherent htaken _
    have ht := hs.1.transition htaken
    exact ⟨ht.tracked hs.1,
      ht.coherentMidTask hs.1 hs.2 hcoherent (idle_of_taskGrain hs.1 htaken)⟩
  · exact settledCoherent_of_unset rfl
  · intro s act t hs hcoherent htaken
    have ht := hs.1.transition htaken
    exact ht.settledCoherent_iff hs.1 hs.2 hcoherent (idle_of_taskGrain hs.1 htaken)

/-- A request whose first field is read and whose second is not a string. -/
def illTypedRequest (path : String) : Json :=
  .obj [("model_path", .str path), ("user_prompt", .arr [])]

/-- A rejected request that repeats the path, and a restart from it. -/
def rejectedThenRestarted : List Act :=
  [.loadModel {} (loadRequest "m"), .loadModel {} (illTypedRequest "m"),
    .handleChatCompletion (chatRequest true "x"), .start {}, .iterate { isDone := true }, .postLoop,
    .throughput { slow := true }, .reload {}, .finish {}]

theorem settledCoherent_of_rejectedThenRestarted : ∃ t,
    execute (step utf8Vendor .task) (fresh 0 0) rejectedThenRestarted = some t ∧
      Throughout SettledCoherent
        (trace (step utf8Vendor .task) (fresh 0 0) rejectedThenRestarted) t := by
  have hruns : (execute (step utf8Vendor .task) (fresh 0 0) rejectedThenRestarted).any
      (fun t => t.fault.isNone) = true := by decide
  obtain ⟨t, hexecute, hrun, _⟩ := exists_run_of_execute hruns
  have hkeeps : ∀ e ∈ trace (step utf8Vendor .task) (fresh 0 0) rejectedThenRestarted,
      e.1.scramblesConfig e.2 = false := by decide
  exact ⟨t, hexecute, (settledCoherent_throughout_iff hrun).mpr hkeeps⟩

/-- A rejected request with another path: the next restart would load that one. -/
theorem rejectedLoad_breaks_settledCoherent :
    ¬∀ es t, Run (step utf8Vendor .task) (fresh 0 0) es t → Throughout SettledCoherent es t := by
  have hruns : (execute (step utf8Vendor .task) (fresh 0 0)
      [.loadModel {} (loadRequest "m"), .loadModel {} (illTypedRequest "n")]).any
        (fun t => t.worker.isIdle && (t.engine.modelLoaded && t.engine.tokenizer.isSome &&
          t.engine.tokenizerStream.isSome && t.engine.path = "n" &&
          t.engine.ogaModel.any (fun model => model.path = "m"))) = true := by decide
  obtain ⟨t, _, hrun, hbroken⟩ := exists_run_of_execute hruns
  simp only [Bool.and_eq_true, Worker.isIdle_iff, decide_eq_true_eq, Option.any_eq_true]
    at hbroken
  obtain ⟨idle, ⟨⟨⟨hset, htokenizer⟩, hstream⟩, hpath⟩, model, hmodel, hmodelPath⟩ := hbroken
  intro hclaim
  obtain ⟨_, _, config, _, _, _, _, hconfig, _, hcreated⟩ :=
    (hclaim _ t hrun).2 idle hset (by rw [hmodel]; rfl) htokenizer hstream
  have hsame : t.engine.path = config.path := congrArg Config.path hconfig
  rw [hpath, ← hcreated.ogaModel model hmodel, hmodelPath] at hsame
  exact absurd hsame (by decide)

end System

end CortexOnnx

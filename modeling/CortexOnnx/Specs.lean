import CortexOnnx.System

/-!
# What each function of the engine does

One specification for each function of `CortexOnnx.Engine` and `CortexOnnx.ChatTask`, for all three
ways it can end.  Nothing after this file unfolds those functions.
-/

namespace CortexOnnx

variable {σ : Type}

/-! ## Engine states -/

namespace OnnxEngine

/-- The three handles come from one chain of `Create` calls. -/
structure Holds (engine : OnnxEngine σ) (model : OgaModel) (state : σ) : Prop where
  ogaModel : engine.ogaModel = some model
  tokenizer : engine.tokenizer = some { model }
  tokenizerStream : engine.tokenizerStream = some { tokenizer := { model }, state }

/-- All three handles are null. -/
structure Empty (engine : OnnxEngine σ) : Prop where
  ogaModel : engine.ogaModel = none
  tokenizer : engine.tokenizer = none
  tokenizerStream : engine.tokenizerStream = none

/-- All three handles or none of them. -/
def Aligned (engine : OnnxEngine σ) : Prop :=
  engine.Empty ∨ ∃ model state, engine.Holds model state

def dropHandles (engine : OnnxEngine σ) : OnnxEngine σ :=
  { engine with ogaModel := none, tokenizer := none, tokenizerStream := none }

def withHandles (engine : OnnxEngine σ) (model : OgaModel) (state : σ) : OnnxEngine σ :=
  { engine with
    ogaModel := some model
    tokenizer := some { model }
    tokenizerStream := some { tokenizer := { model }, state } }

def withConfig (engine : OnnxEngine σ) (config : Config) : OnnxEngine σ :=
  { engine with
    path := config.path
    userPrompt := config.userPrompt
    aiPrompt := config.aiPrompt
    systemPrompt := config.systemPrompt
    prePrompt := config.prePrompt
    maxHistoryChat := config.maxHistoryChat }

/-- The assignments that follow the three `Create` calls, at a load and at a restart. -/
def markLoaded (engine : OnnxEngine σ) (modelId : String) (startTime : Nat) : OnnxEngine σ :=
  { engine with
    modelId
    modelLoaded := true
    startTime
    q := engine.q <|> some { name := modelId, tasks := [] } }

theorem dropHandles_empty (engine : OnnxEngine σ) : engine.dropHandles.Empty := ⟨rfl, rfl, rfl⟩

theorem withHandles_holds (engine : OnnxEngine σ) (model : OgaModel) (state : σ) :
    (engine.withHandles model state).Holds model state := ⟨rfl, rfl, rfl⟩

theorem Holds.not_empty {engine : OnnxEngine σ} {model : OgaModel} {state : σ}
    (h : engine.Holds model state) : ¬engine.Empty := by
  intro empty
  have hsome := h.ogaModel
  rw [empty.ogaModel] at hsome
  cases hsome

theorem Holds.unique {engine : OnnxEngine σ} {model model' : OgaModel} {state state' : σ}
    (h : engine.Holds model state) (h' : engine.Holds model' state') :
    model = model' ∧ state = state' := by
  have hsame := h.tokenizerStream.symm.trans h'.tokenizerStream
  simp only [Option.some.injEq, OgaTokenizerStream.mk.injEq, OgaTokenizer.mk.injEq] at hsame
  exact hsame

@[simp] theorem config_withConfig (engine : OnnxEngine σ) (config : Config) :
    (engine.withConfig config).config = config := rfl

@[simp] theorem withConfig_config (engine : OnnxEngine σ) :
    engine.withConfig engine.config = engine := rfl

end OnnxEngine

namespace World

def emits (w : World σ) (events : List Event) : World σ := { w with log := w.log ++ events }

theorem emits_nil (w : World σ) : w.emits [] = w := by
  simp [emits]

theorem emits_emits (w : World σ) (events events' : List Event) :
    (w.emits events).emits events' = w.emits (events ++ events') := by
  simp [emits]

end World

/-! ## The elementary operations -/

section Elementary

variable {w : World σ}

@[simp] theorem wp_getEngine {Q : Exit Fault (OnnxEngine σ) → World σ → Prop} :
    Prog.wp getEngine Q w ↔ Q (.value w.engine) w := Iff.rfl

@[simp] theorem wp_modifyEngine {Q : Exit Fault Unit → World σ → Prop}
    (f : OnnxEngine σ → OnnxEngine σ) :
    Prog.wp (modifyEngine f) Q w ↔ Q (.value ()) { w with engine := f w.engine } := Iff.rfl

@[simp] theorem wp_emit {Q : Exit Fault Unit → World σ → Prop} (event : Event) :
    Prog.wp (emit event) Q w ↔ Q (.value ()) (w.emits [event]) := Iff.rfl

@[simp] theorem wp_callback {Q : Exit Fault Unit → World σ → Prop} (id : Nat) (status : Status)
    (body : Json) :
    Prog.wp (callback id status body) Q w ↔
      Q (.value ()) (w.emits [.callback id status body]) := Iff.rfl

@[simp] theorem wp_resetHandles {Q : Exit Fault Unit → World σ → Prop} :
    Prog.wp resetHandles Q w ↔ Q (.value ()) { w with engine := w.engine.dropHandles } := Iff.rfl

/-- A library call either throws or has no effect. -/
theorem wp_call {Q : Exit Fault Unit → World σ → Prop} (env : Env) (c : Call) :
    Prog.wp (call env c) Q w ↔
      (env.fails c = true → Q (.exception "OgaResult") w) ∧
        (env.fails c = false → Q (.value ()) w) := by
  rw [call, Prog.wp_ite]
  simp

end Elementary

/-- One of the calls throws. -/
def Env.throwsIn (env : Env) (calls : List Call) : Bool := calls.any env.fails

/-! ## Loading -/

def createCalls : List Call := [.modelCreate, .tokenizerCreate, .streamCreate]

/-- A throw leaves the earlier handles replaced, and nothing else changed. -/
theorem createHandles_spec (vendor : Vendor σ) (env : Env) (path : String) (epoch : Option Nat)
    (w : World σ) :
    Prog.wp (createHandles vendor env path epoch) (fun r w' => match r with
      | .value _ => env.throwsIn createCalls = false ∧
          w' = { w with engine := w.engine.withHandles { path, epoch } (vendor.streamInit path) }
      | .exception _ => env.throwsIn createCalls = true ∧ w'.log = w.log ∧
          w'.engine.dropHandles = w.engine.dropHandles
      | .undefined _ => False) w := by
  simp only [createHandles, Prog.wp_bind, wp_call, wp_modifyEngine, Env.throwsIn, createCalls,
    List.any_cons, List.any_nil]
  -- the first, the second or the third call throws, or none does
  refine ⟨fun h1 => ?_, fun h1 => ⟨fun h2 => ?_, fun h2 => ⟨fun h3 => ?_, fun h3 => ?_⟩⟩⟩
  · simp [h1]
  · simp [h1, h2, OnnxEngine.dropHandles]
  · simp [h1, h2, h3, OnnxEngine.dropHandles]
  · simp [h1, h2, h3, OnnxEngine.withHandles]

/-- The configuration after `loadConfig`: the fields before the first ill-typed one are the
request's. -/
def overwrite (config : Config) (jsonBody : Json) : Config :=
  match readString jsonBody "model_path" "" with
  | .error _ => config
  | .ok path =>
    match readString jsonBody "user_prompt" "USER: " with
    | .error _ => { config with path }
    | .ok userPrompt =>
      match readString jsonBody "ai_prompt" "ASSISTANT: " with
      | .error _ => { config with path, userPrompt }
      | .ok aiPrompt =>
        match readString jsonBody "system_prompt" "ASSISTANT's RULE: " with
        | .error _ => { config with path, userPrompt, aiPrompt }
        | .ok systemPrompt =>
          match readString jsonBody "pre_prompt" "" with
          | .error _ => { config with path, userPrompt, aiPrompt, systemPrompt }
          | .ok prePrompt =>
            match readInt jsonBody "max_history_chat" 2 with
            | .error _ => { config with path, userPrompt, aiPrompt, systemPrompt, prePrompt }
            | .ok maxHistoryChat =>
              { path, userPrompt, aiPrompt, systemPrompt, prePrompt, maxHistoryChat }

theorem loadConfig_spec (jsonBody : Json) (w : World σ) :
    Prog.wp (loadConfig jsonBody) (fun r w' => match r with
      | .value _ => ∃ config, readConfig jsonBody = .ok config ∧
          w' = { w with engine := w.engine.withConfig config }
      | .exception what => readConfig jsonBody = .error what ∧
          w' = { w with engine := w.engine.withConfig (overwrite w.engine.config jsonBody) }
      | .undefined _ => False) w := by
  simp only [loadConfig, Prog.wp_bind, wp_modifyEngine, readConfig, overwrite]
  -- the reads in the order of the assignments: the first that throws decides
  cases readString jsonBody "model_path" "" with
  | error => simp
  | ok path =>
    cases readString jsonBody "user_prompt" "USER: " with
    | error => simp [OnnxEngine.withConfig, OnnxEngine.config]
    | ok userPrompt =>
      cases readString jsonBody "ai_prompt" "ASSISTANT: " with
      | error => simp [OnnxEngine.withConfig, OnnxEngine.config]
      | ok aiPrompt =>
        cases readString jsonBody "system_prompt" "ASSISTANT's RULE: " with
        | error => simp [OnnxEngine.withConfig, OnnxEngine.config]
        | ok systemPrompt =>
          cases readString jsonBody "pre_prompt" "" with
          | error => simp [OnnxEngine.withConfig, OnnxEngine.config]
          | ok prePrompt =>
            cases readInt jsonBody "max_history_chat" 2 with
            | error => simp [OnnxEngine.withConfig, OnnxEngine.config]
            | ok maxHistoryChat => simp [OnnxEngine.withConfig]

/-- The `try` block of `LoadModel` throws: one of the three `Create` calls does, or the model id is
an array or an object. -/
def loadThrows (env : Env) (jsonBody : Json) : Bool :=
  env.throwsIn createCalls || !(getModelId jsonBody).isOk

def loadedReply (id : Nat) : Event :=
  .callback id .ok (messageBody "Model loaded successfully")

def loadFailedReply (id : Nat) : Event :=
  .callback id (.failure k500InternalServerError) (messageBody "Failed to load model")

theorem loadBody_spec (vendor : Vendor σ) (id : Nat) (env : Env) (jsonBody : Json) (w : World σ) :
    Prog.wp (loadBody vendor id env jsonBody) (fun r w' => match r with
      | .value _ => loadThrows env jsonBody = false ∧ ∃ modelId, getModelId jsonBody = .ok modelId ∧
          w' = { engine := (w.engine.withHandles
                    { path := w.engine.path, epoch := some (epoch w.log + 1) }
                    (vendor.streamInit w.engine.path)).markLoaded modelId env.startTime
                 log := w.log ++ [loadedReply id, .modelLoaded jsonBody] }
      | .exception _ => loadThrows env jsonBody = true ∧
          w'.engine.dropHandles = w.engine.dropHandles ∧
          (w'.log = w.log ∨ w'.log = w.log ++ [loadedReply id])
      | .undefined _ => False) w := by
  rw [loadBody, Prog.wp_bind, Prog.wp_read]
  dsimp only
  rw [Prog.wp_bind]
  apply (createHandles_spec vendor env w.engine.path (some (epoch w.log + 1)) w).mono
  rintro (_ | _ | _) w' h
  case undefined => exact h.elim
  case exception =>
    obtain ⟨hthrows, hlog, hengine⟩ := h
    exact ⟨by simp [loadThrows, hthrows], hengine, Or.inl hlog⟩
  case value =>
    obtain ⟨hthrows, rfl⟩ := h
    simp only [Prog.wp_bind, wp_callback, wp_modifyEngine, wp_emit, ensureQueue, loadThrows,
      hthrows, Bool.false_or]
    cases getModelId jsonBody with
    -- the handles are set and the client has been told, and only then it throws
    | error what => exact ⟨rfl, rfl, Or.inr rfl⟩
    | ok modelId =>
        rw [Prog.wp_lift_ok]
        refine ⟨rfl, modelId, rfl, ?_⟩
        simp [World.emits, OnnxEngine.withHandles, OnnxEngine.markLoaded, loadedReply]

/-- A `LoadModel` call throws to its caller while it reads the configuration, or it fails inside the
`try` block and drops all handles, or it succeeds.  The failure leaves `model_loaded_` alone. -/
theorem loadModel_spec (vendor : Vendor σ) (id : Nat) (env : Env) (jsonBody : Json) (w : World σ) :
    Prog.wp (loadModel vendor id env jsonBody) (fun r w' => match r with
      | .value _ => ∃ config, readConfig jsonBody = .ok config ∧
          ((loadThrows env jsonBody = false ∧ ∃ modelId, getModelId jsonBody = .ok modelId ∧
            w' = { engine := ((w.engine.withConfig config).withHandles
                      { path := config.path, epoch := some (epoch w.log + 1) }
                      (vendor.streamInit config.path)).markLoaded modelId env.startTime
                   log := w.log ++ [loadedReply id, .modelLoaded jsonBody] }) ∨
          (loadThrows env jsonBody = true ∧ ∃ early, (early = [] ∨ early = [loadedReply id]) ∧
            w' = { engine := (w.engine.withConfig config).dropHandles
                   log := w.log ++ (early ++ [.loadFailed, loadFailedReply id]) }))
      | .exception what => readConfig jsonBody = .error what ∧
          w' = { w with engine := w.engine.withConfig (overwrite w.engine.config jsonBody) }
      | .undefined _ => False) w := by
  rw [loadModel, Prog.wp_bind]
  apply (loadConfig_spec jsonBody w).mono
  rintro (_ | _ | _) w' h
  -- a throw of `loadConfig` is outside the `try` block
  case undefined => exact h
  case exception => exact h
  case value =>
    obtain ⟨config, hconfig, rfl⟩ := h
    dsimp only
    rw [Prog.wp_tryCatch]
    apply (loadBody_spec vendor id env jsonBody _).mono
    rintro (_ | _ | _) w' h
    case undefined => exact h
    case value => exact ⟨config, hconfig, Or.inl h⟩
    case exception =>
      obtain ⟨hthrows, hengine, hlog⟩ := h
      -- the `catch` block drops whatever the body had replaced
      simp only [loadFailed, Prog.wp_bind, wp_emit, wp_resetHandles, wp_callback]
      refine ⟨config, hconfig, Or.inr ⟨hthrows, ?_⟩⟩
      rcases hlog with hlog | hlog
      · refine ⟨[], Or.inl rfl, ?_⟩
        simp [World.emits, hengine, hlog, loadFailedReply]
      · refine ⟨[loadedReply id], Or.inr rfl, ?_⟩
        simp [World.emits, hengine, hlog, loadFailedReply]

/-- What the client has been told when the `try` block throws: of a success, unless it was a
`Create` call that threw. -/
def earlyReply (id : Nat) (env : Env) : List Event :=
  if env.throwsIn createCalls then [] else [loadedReply id]

theorem loadBody_early (vendor : Vendor σ) (id : Nat) (env : Env) (jsonBody : Json) (w : World σ) :
    Prog.wp (loadBody vendor id env jsonBody)
      (fun r w' => ∀ what, r = .exception what → w'.log = w.log ++ earlyReply id env) w := by
  rw [loadBody, Prog.wp_bind, Prog.wp_read]
  dsimp only
  rw [Prog.wp_bind]
  apply (createHandles_spec vendor env w.engine.path (some (epoch w.log + 1)) w).mono
  rintro (_ | _ | _) w' h
  case undefined => exact h.elim
  case exception =>
    intro _ _
    rw [h.2.1, earlyReply, if_pos h.1, List.append_nil]
  case value =>
    obtain ⟨hcalm, rfl⟩ := h
    have hearly : earlyReply id env = [loadedReply id] := by simp [earlyReply, hcalm]
    simp only [Prog.wp_bind, wp_callback, wp_modifyEngine, wp_emit, ensureQueue, hearly]
    cases getModelId jsonBody with
    | error what =>
      intro _ _
      rfl
    | ok modelId =>
      rw [Prog.wp_lift_ok]
      intro _ hreturned
      cases hreturned

/-- The callbacks of a `LoadModel` call that has failed. -/
theorem loadModel_early (vendor : Vendor σ) (id : Nat) (env : Env) (jsonBody : Json)
    (w : World σ) : Prog.wp (loadModel vendor id env jsonBody) (fun r w' => r = .value () →
      loadThrows env jsonBody = true →
        w'.log = w.log ++ (earlyReply id env ++ [.loadFailed, loadFailedReply id])) w := by
  rw [loadModel, Prog.wp_bind]
  apply (loadConfig_spec jsonBody w).mono
  rintro (_ | _ | _) w' h
  case undefined => exact h.elim
  case exception =>
    intro hreturned
    cases hreturned
  case value =>
    obtain ⟨config, _, rfl⟩ := h
    dsimp only
    rw [Prog.wp_tryCatch]
    apply ((loadBody_spec vendor id env jsonBody _).and
      (loadBody_early vendor id env jsonBody _)).mono
    rintro (_ | what | _) w' ⟨h, hearly⟩
    case undefined => exact h.elim
    case value =>
      intro _ hthrows
      rw [hthrows] at h
      cases h.1
    case exception =>
      simp only [loadFailed, Prog.wp_bind, wp_emit, wp_resetHandles, wp_callback]
      intro _ _
      simp [World.emits, hearly what rfl, loadFailedReply]

/-! ## Admission -/

def refusal (id : Nat) : Event :=
  .callback id (.failure k409Conflict)
    (messageBody "Model has not been loaded, please load model into cortex.onnx")

theorem checkModelLoaded_spec (id : Nat) (w : World σ) :
    Prog.wp (checkModelLoaded id) (fun r w' =>
      (w.engine.modelLoaded = true ∧ r = .value true ∧ w' = w) ∨
        (w.engine.modelLoaded = false ∧ r = .value false ∧ w' = w.emits [refusal id])) w := by
  simp only [checkModelLoaded, Prog.wp_bind, wp_getEngine]
  cases w.engine.modelLoaded with
  | true => simp
  | false => simp [Prog.wp_bind, refusal]

def unloadedReply (id : Nat) : Event :=
  .callback id .ok (messageBody "Model unloaded successfully")

theorem unloadModel_spec (id : Nat) (jsonBody : Json) (w : World σ) :
    Prog.wp (unloadModel id jsonBody) (fun r w' =>
      (w.engine.modelLoaded = false ∧ r = .value () ∧ w' = w.emits [refusal id]) ∨
        (w.engine.modelLoaded = true ∧ r = .value () ∧
          w' = { engine := { w.engine.dropHandles with modelLoaded := false }
                 log := w.log ++ [unloadedReply id, .modelUnloaded] })) w := by
  rw [unloadModel, Prog.wp_bind]
  apply (checkModelLoaded_spec id w).mono
  rintro r w' (⟨hloaded, rfl, rfl⟩ | ⟨hloaded, rfl, rfl⟩)
  · simp only [if_true, Prog.wp_bind, wp_resetHandles, wp_modifyEngine, wp_callback, wp_emit]
    refine Or.inr ⟨hloaded, trivial, ?_⟩
    simp [World.emits, unloadedReply]
  · exact Or.inl ⟨hloaded, rfl, rfl⟩

/-- The task that a request becomes under a configuration, or the exception it raises. -/
def formTask (config : Config) (id : Nat) (jsonBody : Json) : Except String Task := do
  let req ← ChatCompletionRequest.fromJson jsonBody
  let _isStream ← do (← jsonBody.get "stream" (.bool false)).asBool
  let formattedOutput ← formatPrompt config req.messages
  return { id, formattedOutput, req }

def OnnxEngine.enqueue (engine : OnnxEngine σ) (queue : ConcurrentTaskQueue) (task : Task) :
    OnnxEngine σ :=
  { engine with q := some { queue with tasks := queue.tasks ++ [task] } }

theorem runTaskInQueue_spec (task : Task) (w : World σ) :
    Prog.wp (runTaskInQueue task) (fun r w' =>
      (∃ queue, w.engine.q = some queue ∧ r = .value () ∧
        w' = { engine := w.engine.enqueue queue task, log := w.log ++ [.queued task.id] }) ∨
      (w.engine.q = none ∧ r = .undefined .nullQueue ∧ w' = w)) w := by
  simp only [runTaskInQueue, Prog.wp_bind, wp_getEngine, wp_modifyEngine, wp_emit]
  cases w.engine.q with
  | none => exact Or.inr ⟨rfl, rfl, rfl⟩
  | some queue => exact Or.inl ⟨queue, rfl, trivial, rfl⟩

/-- A request is refused with 409, throws without a trace, or queues exactly one task. -/
theorem handleChatCompletion_spec (id : Nat) (jsonBody : Json) (w : World σ) :
    Prog.wp (handleChatCompletion id jsonBody) (fun r w' =>
      (w.engine.modelLoaded = false ∧ r = .value () ∧ w' = w.emits [refusal id]) ∨
      (w.engine.modelLoaded = true ∧ ∃ what, formTask w.engine.config id jsonBody = .error what ∧
        r = .exception what ∧ w' = w) ∨
      (w.engine.modelLoaded = true ∧ ∃ task, formTask w.engine.config id jsonBody = .ok task ∧
        ((∃ queue, w.engine.q = some queue ∧ r = .value () ∧
          w' = { engine := w.engine.enqueue queue task, log := w.log ++ [.queued id] }) ∨
        (w.engine.q = none ∧ r = .undefined .nullQueue ∧ w' = w)))) w := by
  rw [handleChatCompletion, Prog.wp_bind]
  apply (checkModelLoaded_spec id w).mono
  rintro r w' (⟨hloaded, rfl, rfl⟩ | ⟨hloaded, rfl, rfl⟩)
  case inr => exact Or.inl ⟨hloaded, rfl, rfl⟩
  case inl =>
    simp only [if_true, Prog.wp_bind, wp_getEngine, formTask]
    cases ChatCompletionRequest.fromJson jsonBody with
    | error what => exact Or.inr (Or.inl ⟨hloaded, what, rfl, rfl, rfl⟩)
    | ok req =>
      -- the second read of `stream` is of the same body, and its exception is the caller's too
      simp only [Prog.wp_lift_ok, ok_bind]
      cases jsonBody.get "stream" (.bool false) with
      | error what => exact Or.inr (Or.inl ⟨hloaded, what, rfl, rfl, rfl⟩)
      | ok value =>
        simp only [ok_bind]
        cases value.asBool with
        | error what => exact Or.inr (Or.inl ⟨hloaded, what, rfl, rfl, rfl⟩)
        | ok isStream =>
          simp only [Prog.wp_lift_ok, ok_bind]
          cases formatPrompt w'.engine.config req.messages with
          | error what => exact Or.inr (Or.inl ⟨hloaded, what, rfl, rfl, rfl⟩)
          | ok formattedOutput =>
            simp only [Prog.wp_lift_ok, ok_bind]
            apply (runTaskInQueue_spec _ w').mono
            rintro r w'' (⟨queue, hq, rfl, rfl⟩ | ⟨hq, rfl, rfl⟩)
            · exact Or.inr (Or.inr ⟨hloaded, _, rfl, Or.inl ⟨queue, hq, rfl, rfl⟩⟩)
            · exact Or.inr (Or.inr ⟨hloaded, _, rfl, Or.inr ⟨hq, rfl, rfl⟩⟩)

/-! ## The pieces of a task

`Uses` is what a piece may log before it ends abruptly. -/

def Uses (id : Nat) (epoch : Option Nat) (events : List Event) : Prop :=
  ∀ e ∈ events, e = .used id epoch ∨ e = .generated id

def prepareCalls : List Call :=
  [.sequencesCreate, .encode, .paramsCreate, .setSearchOption, .setInputSequences]

section Pieces

variable (vendor : Vendor σ) (env : Env) (task : Task) {w : World σ}

@[simp] theorem wp_useModel {Q : Exit Fault OgaModel → World σ → Prop} (id : Nat)
    {model : OgaModel} (h : w.engine.ogaModel = some model) :
    Prog.wp (useModel id) Q w ↔ Q (.value model) (w.emits [.used id model.epoch]) := by
  simp [useModel, Prog.wp_bind, h]

@[simp] theorem wp_useTokenizer {Q : Exit Fault OgaTokenizer → World σ → Prop} (id : Nat)
    {tokenizer : OgaTokenizer} (h : w.engine.tokenizer = some tokenizer) :
    Prog.wp (useTokenizer id) Q w ↔
      Q (.value tokenizer) (w.emits [.used id tokenizer.model.epoch]) := by
  simp [useTokenizer, Prog.wp_bind, h]

@[simp] theorem wp_useTokenizerStream {Q : Exit Fault (OgaTokenizerStream σ) → World σ → Prop}
    (id : Nat) {stream : OgaTokenizerStream σ} (h : w.engine.tokenizerStream = some stream) :
    Prog.wp (useTokenizerStream id) Q w ↔
      Q (.value stream) (w.emits [.used id stream.tokenizer.model.epoch]) := by
  simp [useTokenizerStream, Prog.wp_bind, h]

theorem prepare_spec {model : OgaModel} {state : σ} (h : w.engine.Holds model state) :
    Prog.wp (prepare vendor env task) (fun r w' => match r with
      | .value sequences => env.throwsIn prepareCalls = false ∧
          sequences = vendor.encode model.path task.formattedOutput ∧
          w' = w.emits [.used task.id model.epoch, .used task.id model.epoch]
      | .exception _ => env.throwsIn prepareCalls = true ∧
          ∃ uses, Uses task.id model.epoch uses ∧ w' = w.emits uses
      | .undefined _ => False) w := by
  simp only [prepare, Prog.wp_bind, wp_call, Prog.wp_pure, Env.throwsIn, prepareCalls,
    List.any_cons, List.any_nil]
  -- each call throws with the uses made before it, or the next one is reached
  refine ⟨fun h1 => ⟨by simp [h1], [], by simp [Uses], w.emits_nil.symm⟩, fun h1 => ?_⟩
  rw [wp_useTokenizer task.id h.tokenizer]
  refine ⟨fun h2 => ⟨by simp [h2], _, by simp [Uses], rfl⟩, fun h2 => ?_⟩
  rw [wp_useModel task.id (w := w.emits _) h.ogaModel]
  simp only [World.emits_emits]
  refine ⟨fun h3 => ⟨by simp [h3], _, by simp [Uses], rfl⟩, fun h3 => ⟨?_, fun h4 => ⟨?_, ?_⟩⟩⟩
  · exact fun h4 => ⟨by simp [h4], _, by simp [Uses], rfl⟩
  · exact fun h5 => ⟨by simp [h5], _, by simp [Uses], rfl⟩
  -- none of the five calls throws
  · exact fun h5 => ⟨by simp [h1, h2, h3, h4, h5], trivial, rfl⟩

/-- With null handles the first dereference faults, unless the call before it throws. -/
theorem prepare_empty {Q : Exit Fault (List Int) → World σ → Prop} (h : w.engine.Empty) :
    Prog.wp (prepare vendor env task) Q w ↔
      (env.fails .sequencesCreate = true → Q (.exception "OgaResult") w) ∧
        (env.fails .sequencesCreate = false → Q (.undefined .nullTokenizer) w) := by
  simp only [prepare, Prog.wp_bind, wp_call, useTokenizer, wp_getEngine, h.tokenizer,
    Prog.wp_deref_none]

def startCalls : List Call := prepareCalls ++ [.generatorCreate]

theorem streamStart_spec {model : OgaModel} {state : σ} (h : w.engine.Holds model state) :
    Prog.wp (streamStart vendor env task) (fun r w' => match r with
      | .value sequences => env.throwsIn startCalls = false ∧
          sequences = vendor.encode model.path task.formattedOutput ∧
          w' = w.emits (List.replicate 3 (.used task.id model.epoch))
      | .exception _ => env.throwsIn startCalls = true ∧
          ∃ uses, Uses task.id model.epoch uses ∧ w' = w.emits uses
      | .undefined _ => False) w := by
  rw [streamStart, Prog.wp_bind]
  apply (prepare_spec vendor env task h).mono
  rintro (_ | _ | _) w' h'
  case undefined => exact h'
  case exception =>
    obtain ⟨hthrows, huses⟩ := h'
    exact ⟨by simp_all [startCalls, Env.throwsIn], huses⟩
  case value =>
    obtain ⟨hthrows, rfl, rfl⟩ := h'
    simp only [Prog.wp_bind, wp_call, Prog.wp_pure]
    rw [wp_useModel task.id (w := w.emits _) h.ogaModel]
    simp only [World.emits_emits]
    refine ⟨fun h1 => ⟨?_, _, by simp [Uses], rfl⟩, fun h1 => ⟨?_, trivial, rfl⟩⟩
    · simp [startCalls, Env.throwsIn, h1]
    · simp_all [startCalls, Env.throwsIn]

theorem streamStart_empty {Q : Exit Fault (List Int) → World σ → Prop} (h : w.engine.Empty) :
    Prog.wp (streamStart vendor env task) Q w ↔
      (env.fails .sequencesCreate = true → Q (.exception "OgaResult") w) ∧
        (env.fails .sequencesCreate = false → Q (.undefined .nullTokenizer) w) := by
  rw [streamStart, Prog.wp_bind, prepare_empty vendor env task h]

def generateCalls : List Call := prepareCalls ++ [.generate, .outputSequence, .decode]

/-- The tokens after the prompt, when the output is at least as long as the prompt. -/
theorem generateAll_spec {model : OgaModel} {state : σ} (h : w.engine.Holds model state) :
    Prog.wp (generateAll vendor env task) (fun r w' => match r with
      | .value _ => env.throwsIn generateCalls = false ∧
          ∃ body, w' = w.emits
            [.used task.id model.epoch, .used task.id model.epoch, .used task.id model.epoch,
              .generated task.id, .used task.id model.epoch, .callback task.id .ok body]
      | .exception _ => env.throwsIn generateCalls = true ∧
          ∃ uses, Uses task.id model.epoch uses ∧ w' = w.emits uses
      | .undefined fault => fault = .outOfBounds ∧ env.throwsIn generateCalls = false ∧
          ∃ uses, Uses task.id model.epoch uses ∧ w' = w.emits uses) w := by
  rw [generateAll, Prog.wp_bind]
  apply (prepare_spec vendor env task h).mono
  rintro (_ | _ | _) w' h'
  case undefined => exact h'.elim
  case exception =>
    obtain ⟨hthrows, huses⟩ := h'
    exact ⟨by simp_all [generateCalls, Env.throwsIn], huses⟩
  case value =>
    obtain ⟨hthrows, rfl, rfl⟩ := h'
    simp only [Prog.wp_bind, wp_call, wp_emit, wp_callback]
    rw [wp_useModel task.id (w := w.emits _) h.ogaModel]
    simp only [World.emits_emits]
    refine ⟨fun h1 => ⟨?_, _, by simp [Uses], rfl⟩, fun h1 =>
      ⟨fun h2 => ⟨?_, _, by simp [Uses], rfl⟩, fun h2 => ?_⟩⟩
    · simp [generateCalls, Env.throwsIn, h1]
    · simp [generateCalls, Env.throwsIn, h2]
    rw [wp_useTokenizer task.id (w := w.emits _) h.tokenizer]
    simp only [World.emits_emits]
    refine ⟨fun h3 => ⟨?_, _, by simp [Uses], rfl⟩, fun h3 => ?_⟩
    · simp [generateCalls, Env.throwsIn, h3]
    -- past every call: what is left is the read of the output
    have hnone : env.throwsIn generateCalls = false := by
      simp_all [generateCalls, Env.throwsIn]
    split
    · simp only [Prog.wp_deref_some, World.emits_emits]
      exact ⟨hnone, _, rfl⟩
    -- the output is shorter than the prompt
    · exact ⟨rfl, hnone, _, by simp [Uses], rfl⟩

/-- The reply of the non-streaming branch. -/
def wholeReply (id : Nat) (model : OgaModel) (generated : List Int) : Event :=
  .callback id .ok (createFullReturnJson env.created env.randomString "_"
    (vendor.decode model.path generated) "_" 0 0)

/-- An output that starts with the prompt: the subtraction gives the number of generated tokens, and
those are what is decoded. -/
theorem generateAll_output {model : OgaModel} {state : σ} (h : w.engine.Holds model state)
    {generated : List Int} (calm : ∀ c, env.fails c = false)
    (output : env.output = vendor.encode model.path task.formattedOutput ++ generated)
    (counted : env.output.length < 2 ^ 64) :
    Prog.wp (generateAll vendor env task) (fun r w' => r = .value () ∧ w' = w.emits
      [.used task.id model.epoch, .used task.id model.epoch, .used task.id model.epoch,
        .generated task.id, .used task.id model.epoch,
        wholeReply vendor env task.id model generated]) w := by
  rw [generateAll, Prog.wp_bind]
  apply (prepare_spec vendor env task h).mono
  rintro (_ | _ | _) w' h'
  case undefined => exact h'.elim
  case exception => simp [Env.throwsIn, calm] at h'
  case value =>
    obtain ⟨_, rfl, rfl⟩ := h'
    simp only [Prog.wp_bind, wp_call, calm, wp_emit, wp_callback]
    rw [wp_useModel task.id (w := w.emits _) h.ogaModel]
    simp only [World.emits_emits, Bool.false_eq_true, false_implies, true_and, forall_const]
    rw [wp_useTokenizer task.id (w := w.emits _) h.tokenizer]
    simp only [World.emits_emits]
    have hsum : env.output.length =
        (vendor.encode model.path task.formattedOutput).length + generated.length := by
      rw [output, List.length_append]
    -- no wrap-around: the output is at least as long as the prompt
    have hlength : (env.output.length + 2 ^ 64 -
        (vendor.encode model.path task.formattedOutput).length) % 2 ^ 64 = generated.length := by
      omega
    have hrange : (vendor.encode model.path task.formattedOutput).length + generated.length ≤
        env.output.length := by
      omega
    have hdata : (env.output.drop (vendor.encode model.path task.formattedOutput).length).take
        generated.length = generated := by
      rw [output, List.drop_left, List.take_length]
    rw [hlength, if_pos hrange, hdata, Prog.wp_deref_some]
    simp only [World.emits_emits]
    rfl

theorem generateAll_empty {Q : Exit Fault Unit → World σ → Prop} (h : w.engine.Empty) :
    Prog.wp (generateAll vendor env task) Q w ↔
      (env.fails .sequencesCreate = true → Q (.exception "OgaResult") w) ∧
        (env.fails .sequencesCreate = false → Q (.undefined .nullTokenizer) w) := by
  rw [generateAll, Prog.wp_bind, prepare_empty vendor env task h]

/-- The loop goes round: the generator is not done and the flag is set. -/
def OnnxEngine.turns (engine : OnnxEngine σ) (env : Env) : Bool := !env.isDone && engine.modelLoaded

/-- The calls of a turn before the text is decoded. -/
def generateNextCalls : List Call := [.computeLogits, .generateNextToken, .getSequence]

/-- A turn of the loop throws. -/
def OnnxEngine.turnThrows (engine : OnnxEngine σ) (env : Env) : Bool :=
  env.fails .isDone ||
    (engine.turns env && (env.throwsIn generateNextCalls || env.fails .streamDecode))

/-- A turn throws before it reaches `Decode`. -/
def OnnxEngine.throwsEarly (engine : OnnxEngine σ) (env : Env) : Bool :=
  env.fails .isDone || (engine.turns env && env.throwsIn generateNextCalls)

def turnText (model : OgaModel) (state : σ) : String :=
  (vendor.streamDecode model.path state env.token).2

def chunkReply (id : Nat) (text : String) : Event :=
  .callback id .chunk (dataBody (chunkData vendor env text))

theorem streamIterate_spec (sequence : List Int) {model : OgaModel} {state : σ}
    (h : w.engine.Holds model state) :
    Prog.wp (streamIterate vendor env task sequence) (fun r w' => match r with
      | .value none => w.engine.turnThrows env = false ∧ w.engine.turns env = false ∧ w' = w
      | .value (some grown) => w.engine.turnThrows env = false ∧ w.engine.turns env = true ∧
          grown = sequence ++ [env.token] ∧
          w' =
            { engine := w.engine.withHandles model
                (vendor.streamDecode model.path state env.token).1
              log := w.log ++ [.used task.id model.epoch,
                .decoded task.id env.token (turnText vendor env model state),
                chunkReply vendor env task.id (turnText vendor env model state)] }
      | .exception _ => w.engine.turnThrows env = true ∧
          ∃ uses, Uses task.id model.epoch uses ∧ w' = w.emits uses
      | .undefined _ => False) w := by
  simp only [streamIterate, Prog.wp_bind, wp_call, wp_getEngine, Prog.wp_ite, Prog.wp_pure,
    OnnxEngine.turnThrows, Env.throwsIn, generateNextCalls, List.any_cons, List.any_nil]
  refine ⟨fun h1 => ⟨by simp [h1], [], by simp [Uses], w.emits_nil.symm⟩, fun h1 => ⟨?_, ?_⟩⟩
  case refine_2 =>
    intro hturns
    have hturns : w.engine.turns env = false := by simpa [OnnxEngine.turns] using hturns
    exact ⟨by simp [h1, hturns], hturns, trivial⟩
  intro hturns
  have hturns : w.engine.turns env = true := by simpa [OnnxEngine.turns] using hturns
  -- the three calls before `Decode` throw without a use of a handle
  refine ⟨fun h2 => ⟨by simp [h2, hturns], [], by simp [Uses], w.emits_nil.symm⟩, fun h2 =>
    ⟨fun h3 => ⟨by simp [h3, hturns], [], by simp [Uses], w.emits_nil.symm⟩, fun h3 =>
      ⟨fun h4 => ⟨by simp [h4, hturns], [], by simp [Uses], w.emits_nil.symm⟩, fun h4 => ?_⟩⟩⟩
  have hlast : (sequence ++ [env.token])[(sequence ++ [env.token]).length - 1]? =
      some env.token := by simp
  rw [hlast, Prog.wp_deref_some]
  dsimp only
  rw [wp_useTokenizerStream task.id h.tokenizerStream]
  refine ⟨fun h5 => ⟨by simp [h5, hturns], _, by simp [Uses], rfl⟩, fun h5 => ?_⟩
  -- the decoder's state is the one component of the handles that changes
  simp only [wp_modifyEngine, wp_emit, wp_callback]
  refine ⟨by simp [h1, h2, h3, h4, h5], hturns, trivial, ?_⟩
  simp [World.emits, OnnxEngine.withHandles, h.ogaModel, h.tokenizer, turnText, chunkReply]

/-- With null handles a turn that gets as far as `Decode` faults. -/
theorem streamIterate_empty (sequence : List Int) (h : w.engine.Empty) :
    Prog.wp (streamIterate vendor env task sequence) (fun r w' => w' = w ∧ match r with
      | .value none => env.fails .isDone = false ∧ w.engine.turns env = false
      | .value (some _) => False
      | .exception _ => w.engine.turnThrows env = true ∧ w.engine.throwsEarly env = true
      | .undefined fault => fault = .nullTokenizerStream ∧ w.engine.turns env = true ∧
          w.engine.throwsEarly env = false) w := by
  simp only [streamIterate, Prog.wp_bind, wp_call, wp_getEngine, Prog.wp_ite, Prog.wp_pure,
    OnnxEngine.turnThrows, OnnxEngine.throwsEarly, Env.throwsIn, generateNextCalls, List.any_cons,
    List.any_nil]
  refine ⟨fun h1 => ⟨trivial, by simp [h1]⟩, fun h1 => ⟨?_, ?_⟩⟩
  case refine_2 =>
    intro hturns
    exact ⟨trivial, h1, by simpa [OnnxEngine.turns] using hturns⟩
  intro hturns
  have hturns : w.engine.turns env = true := by simpa [OnnxEngine.turns] using hturns
  refine ⟨fun h2 => ⟨trivial, by simp [h2, hturns]⟩, fun h2 =>
    ⟨fun h3 => ⟨trivial, by simp [h3, hturns]⟩, fun h3 =>
      ⟨fun h4 => ⟨trivial, by simp [h4, hturns]⟩, fun h4 => ?_⟩⟩⟩
  have hlast : (sequence ++ [env.token])[(sequence ++ [env.token]).length - 1]? =
      some env.token := by simp
  rw [hlast, Prog.wp_deref_some]
  -- `Decode` is the one call of a turn that needs a handle of the engine
  simp only [useTokenizerStream, Prog.wp_bind, wp_getEngine, h.tokenizerStream, Prog.wp_deref_none]
  exact ⟨trivial, trivial, hturns, by simp [h1, h2, h3, h4]⟩

def streamUnloadedReply (id : Nat) : Event := .callback id .streamUnloaded (dataBody "")

theorem streamPostLoop_spec :
    Prog.wp (streamPostLoop task) (fun r w' =>
      (w.engine.modelLoaded = true ∧ r = .value true ∧ w' = w) ∨
        (w.engine.modelLoaded = false ∧ r = .value false ∧
          w' = w.emits [streamUnloadedReply task.id])) w := by
  simp only [streamPostLoop, Prog.wp_bind, wp_getEngine, Prog.wp_ite, Prog.wp_pure, wp_callback]
  constructor
  · intro hloaded
    exact Or.inl ⟨hloaded, trivial, trivial⟩
  · intro hloaded
    exact Or.inr ⟨by simpa using hloaded, trivial, rfl⟩

/-- `max_history_chat_ = std::max(1, max_history_chat_ / 2)`, with C's division. -/
def halveHistory (maxHistoryChat : Int) : Int := max 1 (maxHistoryChat.tdiv 2)

/-- The engine after the teardown of a restart. -/
def OnnxEngine.tornDown (engine : OnnxEngine σ) : OnnxEngine σ :=
  { engine.dropHandles with
    maxHistoryChat := halveHistory engine.maxHistoryChat
    modelLoaded := false }

theorem streamThroughput_spec :
    Prog.wp (streamThroughput env) (fun r w' =>
      (env.slow = true ∧ r = .value true ∧
        w' = { engine := w.engine.tornDown, log := w.log ++ [.restarting] }) ∨
      (env.slow = false ∧ r = .value false ∧ w' = w)) w := by
  simp only [streamThroughput, Prog.wp_ite, Prog.wp_bind, wp_modifyEngine, wp_resetHandles, wp_emit,
    Prog.wp_pure]
  constructor
  · intro hslow
    exact Or.inl ⟨hslow, trivial, rfl⟩
  · intro hslow
    exact Or.inr ⟨by simpa using hslow, trivial, trivial⟩

theorem streamReload_spec :
    Prog.wp (streamReload vendor env task) (fun r w' => match r with
      | .value _ => env.throwsIn createCalls = false ∧
          w' =
            { engine := (w.engine.withHandles
                { path := w.engine.path, epoch := restartEpoch w.log w.engine.path }
                (vendor.streamInit w.engine.path)).markLoaded w.engine.modelId env.startTime
              log := w.log ++
                [.used task.id (restartEpoch w.log w.engine.path), .restarted] }
      | .exception _ => env.throwsIn createCalls = true ∧ w'.log = w.log ∧
          w'.engine.dropHandles = w.engine.dropHandles
      | .undefined _ => False) w := by
  rw [streamReload, Prog.wp_bind, Prog.wp_read]
  dsimp only
  rw [Prog.wp_bind]
  apply (createHandles_spec vendor env w.engine.path _ w).mono
  rintro (_ | _ | _) w' h
  case undefined => exact h
  case exception => exact h
  case value =>
    obtain ⟨hthrows, rfl⟩ := h
    simp only [Prog.wp_bind, wp_emit, wp_modifyEngine, ensureQueue]
    refine ⟨hthrows, ?_⟩
    simp [World.emits, OnnxEngine.markLoaded, OnnxEngine.withHandles]

def stopReply (id : Nat) : Event := .callback id .streamStop (dataBody (stopData vendor env))

def inferenceFailedReply (id : Nat) : Event :=
  .callback id (.failure k500InternalServerError) (messageBody "Error during inference")

/-- The engine after the `catch` block: the handles are gone, the flag is as it was. -/
theorem inferenceFailed_spec {Q : Exit Fault Unit → World σ → Prop} :
    Prog.wp (inferenceFailed task) Q w ↔ Q (.value ())
      { engine := w.engine.dropHandles
        log := w.log ++ [.inferenceError task.id, inferenceFailedReply task.id] } := by
  simp [inferenceFailed, Prog.wp_bind, World.emits, inferenceFailedReply]

end Pieces

end CortexOnnx

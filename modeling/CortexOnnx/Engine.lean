import CortexOnnx.Lib.History
import CortexOnnx.Lib.Prog
import CortexOnnx.ChatCompletionRequest
import CortexOnnx.Responses

/-!
# The engine

`OnnxEngine`: its fields, the handlers that a client reaches, and the record of what they did.
The task that `HandleChatCompletion` queues is in `CortexOnnx.ChatTask`.
-/

namespace CortexOnnx

/-- What `LoadModel` reads from its request, apart from the model id. -/
@[ext] structure Config where
  path : String
  userPrompt : String
  aiPrompt : String
  systemPrompt : String
  prePrompt : String
  maxHistoryChat : Int
  deriving Repr, DecidableEq

/-- What the lambda handed to `runTaskInQueue` captures; `id` stands for its callback. -/
structure Task where
  id : Nat
  formattedOutput : String
  req : ChatCompletionRequest

/-- `trantor::ConcurrentTaskQueue` with one thread: the tasks not yet started, oldest first. -/
structure ConcurrentTaskQueue where
  name : String
  tasks : List Task

structure OnnxEngine (σ : Type) where
  ogaModel : Option OgaModel
  tokenizer : Option OgaTokenizer
  tokenizerStream : Option (OgaTokenizerStream σ)
  modelLoaded : Bool
  userPrompt : String
  aiPrompt : String
  systemPrompt : String
  prePrompt : String
  modelId : String
  startTime : Nat
  maxHistoryChat : Int
  q : Option ConcurrentTaskQueue
  path : String

/-- The ways a step can run into undefined behaviour. -/
inductive Fault where
  | nullModel
  | nullTokenizer
  | nullTokenizerStream
  | nullQueue
  | outOfBounds
  | uncaught
  deriving Repr, DecidableEq

/-- What the engine did, in order: the callbacks it made, the lines it logged, and the uses of the
handles.  A handler call is known by the number of its callback. -/
inductive Event where
  | callback (id : Nat) (status : Status) (body : Json)
  | threw (id : Nat)
  | queued (id : Nat)
  | used (id : Nat) (epoch : Option Nat)
  | decoded (id : Nat) (token : Int) (text : String)
  | generated (id : Nat)
  | modelLoaded (request : Json)
  | loadFailed
  | modelUnloaded
  | restarting
  | restarted
  | inferenceError (id : Nat)

/-- The engine and the record of what it did. -/
structure World (σ : Type) where
  engine : OnnxEngine σ
  log : List Event

abbrev EngineM (σ : Type) := Prog Fault (World σ)

/-! ## Reading a `LoadModel` request -/

def readString (jsonBody : Json) (key defaultValue : String) : Except String String := do
  (← jsonBody.get key (.str defaultValue)).asString

def readInt (jsonBody : Json) (key : String) (defaultValue : Int) : Except String Int := do
  (← jsonBody.get key (.int defaultValue)).asInt

/-- The whole configuration of a request, in the order in which `LoadModel` reads it. -/
def readConfig (jsonBody : Json) : Except String Config := do
  let path ← readString jsonBody "model_path" ""
  let userPrompt ← readString jsonBody "user_prompt" "USER: "
  let aiPrompt ← readString jsonBody "ai_prompt" "ASSISTANT: "
  let systemPrompt ← readString jsonBody "system_prompt" "ASSISTANT's RULE: "
  let prePrompt ← readString jsonBody "pre_prompt" ""
  let maxHistoryChat ← readInt jsonBody "max_history_chat" 2
  return { path, userPrompt, aiPrompt, systemPrompt, prePrompt, maxHistoryChat }

/-! ## Epochs -/

def Event.load? : Event → Option Json
  | .modelLoaded request => some request
  | _ => none

/-- The number of successful `LoadModel` calls. -/
def epoch (log : List Event) : Nat := log.countP (·.load?.isSome)

/-- The request of the last successful `LoadModel` call. -/
def currentLoad (log : List Event) : Option Json := latest Event.load? log

/-- The configuration of that request. -/
def loadedConfig (log : List Event) : Option Config :=
  (currentLoad log).bind fun request => (readConfig request).toOption

/-- The epoch a restart from `path` continues: the current one, when the path is still its own. -/
def restartEpoch (log : List Event) (path : String) : Option Nat :=
  if (loadedConfig log).map Config.path = some path then some (epoch log) else none

/-! ## The handlers -/

section

variable {σ : Type}

namespace OnnxEngine

def config (engine : OnnxEngine σ) : Config where
  path := engine.path
  userPrompt := engine.userPrompt
  aiPrompt := engine.aiPrompt
  systemPrompt := engine.systemPrompt
  prePrompt := engine.prePrompt
  maxHistoryChat := engine.maxHistoryChat

end OnnxEngine

def getEngine : EngineM σ (OnnxEngine σ) := do
  return (← Prog.read).engine

def modifyEngine (f : OnnxEngine σ → OnnxEngine σ) : EngineM σ Unit :=
  Prog.write fun w => { w with engine := f w.engine }

def emit (event : Event) : EngineM σ Unit :=
  Prog.write fun w => { w with log := w.log ++ [event] }

def callback (id : Nat) (status : Status) (body : Json) : EngineM σ Unit :=
  emit (.callback id status body)

/-- A library call, which throws when the step's environment says so. -/
def call (env : Env) (c : Call) : EngineM σ Unit :=
  if env.fails c then Prog.throws "OgaResult" else pure ()

/-- `oga_model_.reset(); tokenizer_.reset(); tokenizer_stream_.reset();` in any order. -/
def resetHandles : EngineM σ Unit :=
  modifyEngine fun e => { e with ogaModel := none, tokenizer := none, tokenizerStream := none }

/-- The three `Create` calls.  Each handle is assigned before the next call, so a throw leaves the
earlier ones replaced. -/
def createHandles (vendor : Vendor σ) (env : Env) (path : String) (epoch : Option Nat) :
    EngineM σ Unit := do
  -- a throw here leaves all three handles as they were
  call env .modelCreate
  let model : OgaModel := { path, epoch }
  modifyEngine fun e => { e with ogaModel := some model }
  -- from here on the old tokenizer belongs to a model that is gone
  call env .tokenizerCreate
  let tokenizer : OgaTokenizer := { model }
  modifyEngine fun e => { e with tokenizer := some tokenizer }
  call env .streamCreate
  modifyEngine fun e =>
    { e with tokenizerStream := some { tokenizer, state := vendor.streamInit path } }

/-- `if (q_ == nullptr) q_ = std::make_unique<ConcurrentTaskQueue>(1, model_id_);`, which could only
throw for want of memory or of a thread. -/
def ensureQueue : EngineM σ Unit :=
  modifyEngine fun e => { e with q := e.q <|> some { name := e.modelId, tasks := [] } }

/-- The assignments before the `try` block, lines 130 to 136.  Each is made before the next field is
read, so an ill-typed field leaves the ones before it overwritten. -/
def loadConfig (jsonBody : Json) : EngineM σ Unit := do
  let path ← Prog.lift (readString jsonBody "model_path" "")
  modifyEngine fun e => { e with path }
  let userPrompt ← Prog.lift (readString jsonBody "user_prompt" "USER: ")
  modifyEngine fun e => { e with userPrompt }
  let aiPrompt ← Prog.lift (readString jsonBody "ai_prompt" "ASSISTANT: ")
  modifyEngine fun e => { e with aiPrompt }
  let systemPrompt ← Prog.lift (readString jsonBody "system_prompt" "ASSISTANT's RULE: ")
  modifyEngine fun e => { e with systemPrompt }
  let prePrompt ← Prog.lift (readString jsonBody "pre_prompt" "")
  modifyEngine fun e => { e with prePrompt }
  let maxHistoryChat ← Prog.lift (readInt jsonBody "max_history_chat" 2)
  modifyEngine fun e => { e with maxHistoryChat }

/-- The `try` block.  The client is told of success before the model id is read. -/
def loadBody (vendor : Vendor σ) (id : Nat) (env : Env) (jsonBody : Json) : EngineM σ Unit := do
  -- `path_` has been assigned by `loadConfig`
  let w ← Prog.read
  createHandles vendor env w.engine.path (some (epoch w.log + 1))
  callback id .ok (messageBody "Model loaded successfully")
  -- an ill-typed `model` throws here, and the `catch` block answers a second time
  let modelId ← Prog.lift (getModelId jsonBody)
  modifyEngine fun e => { e with modelId }
  emit (.modelLoaded jsonBody)
  modifyEngine fun e => { e with modelLoaded := true, startTime := env.startTime }
  ensureQueue

/-- The `catch` block. -/
def loadFailed (id : Nat) : EngineM σ Unit := do
  emit .loadFailed
  -- `model_loaded_` stays as it was
  resetHandles
  callback id (.failure k500InternalServerError) (messageBody "Failed to load model")

def loadModel (vendor : Vendor σ) (id : Nat) (env : Env) (jsonBody : Json) : EngineM σ Unit := do
  loadConfig jsonBody
  Prog.tryCatch (loadBody vendor id env jsonBody) (loadFailed id)

def checkModelLoaded (id : Nat) : EngineM σ Bool := do
  if (← getEngine).modelLoaded then
    return true
  callback id (.failure k409Conflict)
    (messageBody "Model has not been loaded, please load model into cortex.onnx")
  return false

def unloadModel (id : Nat) (_jsonBody : Json) : EngineM σ Unit := do
  if ← checkModelLoaded id then
    -- what is queued stays queued
    resetHandles
    modifyEngine fun e => { e with modelLoaded := false }
    callback id .ok (messageBody "Model unloaded successfully")
    emit .modelUnloaded

/-- The callback is dropped without being called. -/
def handleEmbedding (_id : Nat) (_jsonBody : Json) : EngineM σ Unit := pure ()

def getModelStatus (id : Nat) (_jsonBody : Json) : EngineM σ Unit :=
  callback id (.failure k409Conflict)
    (messageBody "Engine does not support get model status method yet")

/-- The entries of the `data` array of `GetModels`. -/
def runningModels (engine : OnnxEngine σ) : List Json :=
  if engine.modelLoaded then
    [.obj [
      ("engine", .str "cortex.onnx"),
      ("id", .str engine.modelId),
      ("object", .str "model"),
      ("ram", .str "-"),
      ("start_time", .int engine.startTime),
      ("vram", .str "-")]]
  else []

def getModels (id : Nat) (_jsonBody : Json) : EngineM σ Unit := do
  let models := runningModels (← getEngine)
  callback id .ok (.obj [("data", .arr models), ("object", .str "list")])

end

end CortexOnnx

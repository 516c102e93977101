import CortexOnnx.Vendor

/-!
# Responses

The status record every callback carries, the response bodies, and `GetModelId`.
-/

namespace CortexOnnx

def k200OK : Int := 200

def k409Conflict : Int := 409

def k500InternalServerError : Int := 500

structure Status where
  isDone : Bool
  hasError : Bool
  isStream : Bool
  statusCode : Int
  deriving Repr, DecidableEq

/-- The server stops reading a reply queue at such a status. -/
def Status.terminal (status : Status) : Bool := status.hasError || status.isDone

namespace Status

def ok : Status := ⟨true, false, false, k200OK⟩

def failure (statusCode : Int) : Status := ⟨false, true, false, statusCode⟩

def chunk : Status := ⟨false, false, true, k200OK⟩

def streamStop : Status := ⟨true, false, true, k200OK⟩

def streamUnloaded : Status := ⟨false, true, true, k200OK⟩

end Status

def messageBody (text : String) : Json := .obj [("message", .str text)]

def dataBody (data : String) : Json := .obj [("data", .str data)]

/-- `res["data"].asString()`, as the server reads a reply. -/
def dataField (body : Json) : Except String String := do
  (← body.index "data").asString

def createFullReturnJson (created : Int) (id model content systemFingerprint : String)
    (promptTokens completionTokens : Int) (finishReason : Json := .null) : Json :=
  .obj [
    ("choices", .arr [.obj [
      ("finish_reason", finishReason),
      ("index", .int 0),
      ("message", .obj [("content", .str content), ("role", .str "assistant")])]]),
    ("created", .int created),
    ("id", .str id),
    ("model", .str model),
    ("object", .str "chat.completion"),
    ("system_fingerprint", .str systemFingerprint),
    ("usage", .obj [
      ("completion_tokens", .int completionTokens),
      ("prompt_tokens", .int promptTokens),
      ("total_tokens", .int (promptTokens + completionTokens))])]

/-- The value `CreateReturnJson` writes. -/
def returnJson (created : Int) (id model content : String) (finishReason : Json := .null) : Json :=
  .obj [
    ("choices", .arr [.obj [
      ("delta", .obj [("content", .str content)]),
      ("finish_reason", finishReason),
      ("index", .int 0)]]),
    ("created", .int created),
    ("id", .str id),
    ("model", .str model),
    ("object", .str "chat.completion.chunk")]

section

variable {σ : Type} (vendor : Vendor σ) (env : Env)

def createReturnJson (id model content : String) (finishReason : Json := .null) : String :=
  vendor.writeString (returnJson env.created id model content finishReason)

/-- The data field of one chunk. -/
def chunkData (content : String) : String :=
  "data: " ++ createReturnJson vendor env env.randomString "_" content ++ "\n\n"

/-- The data field of the last write of a stream: the stop chunk and the end marker. -/
def stopData : String :=
  "data: " ++ createReturnJson vendor env env.randomString "_" "" (.str "stop") ++ "\n\n" ++
    "data: [DONE]" ++ "\n\n"

end

/-- `std::replace` of backslashes, then what follows the last slash. -/
def baseName (path : String) : String :=
  let s := path.toList.map fun c => if c = '\\' then '/' else c
  -- with no slash `find_last_of` gives `npos`, and `npos + 1` is 0
  String.ofList (s.reverse.takeWhile (· ≠ '/')).reverse

def getModelId (jsonBody : Json) : Except String String := do
  let model ← jsonBody.index "model"
  -- a `model` that is present but null falls through to the alias
  if !model.isNull then return ← model.asString
  let modelAlias ← jsonBody.index "model_alias"
  if !modelAlias.isNull then return ← modelAlias.asString
  let input ← jsonBody.index "model_path"
  if !input.isNull then return baseName (← input.asString)
  return ""

end CortexOnnx

import CortexOnnx.Json

/-!
# Chat completion requests

`chat_completion_request.h`: the request record, its defaults and its reader.
-/

namespace CortexOnnx

def defaultTopP : Double := ⟨"0.95", some 0, true, by decide⟩

def defaultTemperature : Double := ⟨"0.8", some 0, true, by decide⟩

structure ChatCompletionRequest where
  stream : Bool := false
  maxTokens : Int := 500
  topP : Number := .real defaultTopP
  temperature : Number := .real defaultTemperature
  frequencyPenalty : Number := .int 0
  presencePenalty : Number := .int 0
  stop : Json := .arr []
  messages : Json := .arr []
  modelId : String := ""

namespace ChatCompletionRequest

/-- Every field is read through a checked accessor, so an ill-typed one throws.  A missing
`messages` or `stop` becomes null, not the record's default. -/
def fromJson (jsonBody : Json) : Except String ChatCompletionRequest := do
  let stream ← (← jsonBody.get "stream" (.bool false)).asBool
  let maxTokens ← (← jsonBody.get "max_tokens" (.int 500)).asInt
  let topP ← (← jsonBody.get "top_p" (.real defaultTopP)).asFloat
  let temperature ← (← jsonBody.get "temperature" (.real defaultTemperature)).asFloat
  let frequencyPenalty ← (← jsonBody.get "frequency_penalty" (.int 0)).asFloat
  let presencePenalty ← (← jsonBody.get "presence_penalty" (.int 0)).asFloat
  let messages ← jsonBody.index "messages"
  let stop ← jsonBody.index "stop"
  let modelId ← (← jsonBody.get "model" .null).asString
  return { stream, maxTokens, topP, temperature, frequencyPenalty, presencePenalty, stop,
           messages, modelId }

/-- `max_tokens` is an `int`. -/
theorem maxTokens_inRange {jsonBody : Json} {req : ChatCompletionRequest}
    (h : fromJson jsonBody = .ok req) :
    Json.minInt ≤ req.maxTokens ∧ req.maxTokens ≤ Json.maxInt := by
  simp only [fromJson, bind_eq_ok, pure_ok, Except.ok.injEq] at h
  -- the reads in their order, of which the second is that of `max_tokens`
  obtain ⟨_, _, _, _, _, _, maxTokens, hint, hrest⟩ := h
  have hsame : req.maxTokens = maxTokens := by grind
  rw [hsame]
  exact Json.asInt_inRange hint

end ChatCompletionRequest

end CortexOnnx

import CortexOnnx.BranchAgreement
import CortexOnnx.LoadReport

/-!
# Which requests are accepted

A completion request is read through checked accessors, field by field, and its messages one by
one; the first that cannot be converted ends the call with an exception.  `acceptable` says which
bodies get through, and `Transition` says what becomes of the others.
-/

namespace CortexOnnx

variable {σ : Type} {vendor : Vendor σ} {grain : Grain}

namespace Json

/-- A value with members to read: the accessors take null for an empty object. -/
def isMapping : Json → Bool
  | null | obj _ => true
  | _ => false

def member? (json : Json) (key : String) : Option Json :=
  match json with
  | obj members => members.lookup key
  | _ => none

/-- What `asBool` and `asFloat` convert. -/
def isNumeric : Json → Bool
  | null | bool _ | int _ | real _ => true
  | str _ | arr _ | obj _ => false

/-- What `asInt` converts. -/
def fitsInt : Json → Bool
  | null | bool _ => true
  | int i => minInt ≤ i && i ≤ maxInt
  | real d => d.truncated.isSome
  | str _ | arr _ | obj _ => false

/-- What `asString` converts. -/
def isTextual (json : Json) : Bool := !json.isContainer

/-- A field that is absent, or that `accepts` takes. -/
def fieldOk (json : Json) (key : String) (accepts : Json → Bool) : Bool :=
  (json.member? key).all accepts

theorem asBool_isOk (json : Json) : json.asBool.isOk = json.isNumeric := by cases json <;> rfl

theorem asFloat_isOk (json : Json) : json.asFloat.isOk = json.isNumeric := by cases json <;> rfl

theorem asInt_isOk (json : Json) : json.asInt.isOk = json.fitsInt := by
  cases json with
  | int i =>
    by_cases hrange : minInt ≤ i ∧ i ≤ maxInt
    · simp [asInt, fitsInt, hrange, Except.isOk, Except.toBool]
    · have hout : (minInt ≤ i && i ≤ maxInt) = false := by
        rw [← Bool.decide_and]
        exact decide_eq_false hrange
      rw [asInt, if_neg hrange, fitsInt, hout]
      rfl
  | real d =>
    cases htruncated : d.truncated <;>
      simp [asInt, fitsInt, htruncated, Except.isOk, Except.toBool]
  | null | bool | str | arr | obj => rfl

theorem asString_isTextual (json : Json) : json.asString.isOk = json.isTextual :=
  asString_isOk json

/-- A member is read from null and from objects only. -/
theorem get_eq (json : Json) (key : String) (defaultValue : Json) :
    json.isMapping = true →
      json.get key defaultValue = .ok ((json.member? key).getD defaultValue) := by
  intro hmapping
  cases json with
  | null => rfl
  | obj members =>
    cases hlookup : members.lookup key with
    | none => simp [get, find, member?, hlookup, pure, Except.pure, bind, Except.bind]
    | some value => simp [get, find, member?, hlookup, pure, Except.pure, bind, Except.bind]
  | bool | int | real | str | arr => cases hmapping

/-- Converting a field, or its default. -/
theorem convert_isOk {β : Type} {convert : Json → Except String β} {accepts : Json → Bool}
    (h : ∀ value, (convert value).isOk = accepts value) (json : Json) (key : String)
    (defaultValue : Json) (hdefault : accepts defaultValue = true) :
    (convert ((json.member? key).getD defaultValue)).isOk = json.fieldOk key accepts := by
  rw [h, fieldOk]
  cases json.member? key with
  | none => exact hdefault
  | some value => rfl

end Json

/-- A message of which both strings can be read. -/
def acceptableMessage (message : Json) : Bool :=
  message.isMapping && message.fieldOk "role" Json.isTextual &&
    message.fieldOk "content" Json.isTextual

/-- A body that `HandleChatCompletion` can read.  Nothing is required: what is absent has a
default, and without messages the prompt is made of the configuration alone. -/
def acceptable (jsonBody : Json) : Bool :=
  jsonBody.isMapping && jsonBody.fieldOk "stream" Json.isNumeric &&
    jsonBody.fieldOk "max_tokens" Json.fitsInt &&
    ["top_p", "temperature", "frequency_penalty", "presence_penalty"].all (fun key =>
      jsonBody.fieldOk key Json.isNumeric) &&
    jsonBody.fieldOk "model" Json.isTextual &&
    jsonBody.fieldOk "messages" (fun messages => messages.elements.all acceptableMessage)

theorem promptStep_isOk (config : Config) (size : Nat) (historyMax : Int) (state : PromptState)
    (message : Json) :
    (promptStep config size historyMax state message).isOk = acceptableMessage message := by
  cases hmapping : message.isMapping with
  | false =>
    rw [acceptableMessage, hmapping]
    cases message <;> first | rfl | cases hmapping
  | true =>
    rw [acceptableMessage, hmapping, Bool.true_and,
      ← Json.convert_isOk Json.asString_isTextual message "role" .null rfl,
      ← Json.convert_isOk Json.asString_isTextual message "content" .null rfl]
    simp only [promptStep, Json.index, Json.get_eq message _ _ hmapping, ok_bind]
    generalize ((message.member? "role").getD .null).asString = role
    generalize ((message.member? "content").getD .null).asString = content
    cases role with
    | error what => rfl
    | ok role =>
      cases content with
      | error what => rfl
      | ok content => rfl

theorem formatPrompt_isOk (config : Config) (messages : Json) :
    (formatPrompt config messages).isOk = messages.elements.all acceptableMessage := by
  unfold formatPrompt
  dsimp only
  refine (isOk_bind (b := true) fun _ _ => rfl).trans ?_
  rw [Bool.and_true]
  exact isOk_foldlM (promptStep_isOk config _ _) _ _

/-- The body itself, without its messages. -/
theorem fromJson_isOk {jsonBody : Json} (hmapping : jsonBody.isMapping = true) :
    (ChatCompletionRequest.fromJson jsonBody).isOk =
      (jsonBody.fieldOk "stream" Json.isNumeric && jsonBody.fieldOk "max_tokens" Json.fitsInt &&
        ["top_p", "temperature", "frequency_penalty", "presence_penalty"].all (fun key =>
          jsonBody.fieldOk key Json.isNumeric) &&
        jsonBody.fieldOk "model" Json.isTextual) := by
  have hfloat := Json.convert_isOk Json.asFloat_isOk jsonBody
  simp only [ChatCompletionRequest.fromJson, Json.index, Json.get_eq jsonBody _ _ hmapping, ok_bind,
    List.all_cons, List.all_nil, Bool.and_true,
    ← Json.convert_isOk Json.asBool_isOk jsonBody "stream" (.bool false) rfl,
    ← Json.convert_isOk Json.asInt_isOk jsonBody "max_tokens" (.int 500) (by decide),
    ← hfloat "top_p" (.real defaultTopP) rfl, ← hfloat "temperature" (.real defaultTemperature) rfl,
    ← hfloat "frequency_penalty" (.int 0) rfl, ← hfloat "presence_penalty" (.int 0) rfl,
    ← Json.convert_isOk Json.asString_isTextual jsonBody "model" .null rfl]
  generalize ((jsonBody.member? "stream").getD (.bool false)).asBool = stream
  generalize ((jsonBody.member? "max_tokens").getD (.int 500)).asInt = maxTokens
  generalize ((jsonBody.member? "top_p").getD (.real defaultTopP)).asFloat = topP
  generalize ((jsonBody.member? "temperature").getD (.real defaultTemperature)).asFloat =
    temperature
  generalize ((jsonBody.member? "frequency_penalty").getD (.int 0)).asFloat = frequencyPenalty
  generalize ((jsonBody.member? "presence_penalty").getD (.int 0)).asFloat = presencePenalty
  generalize ((jsonBody.member? "model").getD .null).asString = modelId
  -- the first that fails ends the reading
  cases stream with
  | error what => rfl
  | ok stream =>
  cases maxTokens with
  | error what => rfl
  | ok maxTokens =>
  cases topP with
  | error what => rfl
  | ok topP =>
  cases temperature with
  | error what => rfl
  | ok temperature =>
  cases frequencyPenalty with
  | error what => rfl
  | ok frequencyPenalty =>
  cases presencePenalty with
  | error what => rfl
  | ok presencePenalty =>
  cases modelId with
  | error what => rfl
  | ok modelId => rfl

/-- The messages of a request that was read. -/
theorem messages_of_fromJson {jsonBody : Json} {req : ChatCompletionRequest}
    (hmapping : jsonBody.isMapping = true)
    (reads : ChatCompletionRequest.fromJson jsonBody = .ok req) :
    req.messages = (jsonBody.member? "messages").getD .null := by
  simp only [ChatCompletionRequest.fromJson, Json.index, Json.get_eq jsonBody _ _ hmapping, ok_bind,
    bind_eq_ok, pure_ok, Except.ok.injEq] at reads
  obtain ⟨_, _, _, _, _, _, _, _, _, _, _, _, _, _, rfl⟩ := reads
  rfl

/-- The second read of `stream` succeeds where the first did, so the messages decide the rest. -/
theorem formTask_isOk (config : Config) (id : Nat) (jsonBody : Json) :
    (formTask config id jsonBody).isOk = acceptable jsonBody := by
  cases hmapping : jsonBody.isMapping with
  | false =>
    rw [acceptable, hmapping]
    cases jsonBody <;> first | rfl | cases hmapping
  | true =>
    have hbody := fromJson_isOk hmapping
    rw [acceptable, hmapping, Bool.true_and, ← hbody]
    unfold formTask
    refine isOk_bind fun req hreads => ?_
    have hstream : jsonBody.fieldOk "stream" Json.isNumeric = true := by
      rw [hreads] at hbody
      have hall := hbody.symm.trans (rfl : _ = true)
      simp only [Bool.and_eq_true] at hall
      exact hall.1.1.1
    rw [← Json.convert_isOk Json.asBool_isOk jsonBody "stream" (.bool false) rfl] at hstream
    obtain ⟨isStream, hread⟩ := isOk_iff_exists.mp hstream
    simp only [Json.get_eq jsonBody _ _ hmapping, ok_bind, hread]
    refine (isOk_bind (b := true) fun _ _ => rfl).trans ?_
    rw [Bool.and_true, formatPrompt_isOk, messages_of_fromJson hmapping hreads, Json.fieldOk]
    cases jsonBody.member? "messages" <;> rfl

/-- What a completion request does, by the flag and by its body alone. -/
def admission (modelLoaded : Bool) (id : Nat) (jsonBody : Json) : Event :=
  if modelLoaded then if acceptable jsonBody then .queued id else .threw id else refusal id

namespace System

/-- **Which requests are accepted.**  In every reachable state a completion request logs one event:
without a model it is refused, whatever its body; with one it is queued when the body is acceptable
and throws when it is not.  Unless it is queued, nothing else changes. -/
theorem handleChatCompletion_accepts {startTime : Nat} {maxHistoryChat : Int}
    {es : List (System σ × Act)} {s t : System σ} {jsonBody : Json}
    (hrun : Run (step vendor grain) (fresh startTime maxHistoryChat) es s)
    (taken : step vendor grain s (.handleChatCompletion jsonBody) = some t) :
    t.log = s.log ++ [admission s.engine.modelLoaded s.next jsonBody] ∧
      ((s.engine.modelLoaded && acceptable jsonBody) = false → t.engine = s.engine) := by
  have htracked := (run_ledger hrun).1
  have haccepts := formTask_isOk s.engine.config s.next jsonBody
  have ht := htracked.transition taken
  cases ht with
  | chatRefused unset =>
    rw [admission, unset]
    exact ⟨rfl, fun _ => rfl⟩
  | chatThrew set forms =>
    rw [forms] at haccepts
    rw [admission, set, ← haccepts]
    exact ⟨rfl, fun _ => rfl⟩
  | chatQueued set forms =>
    rw [forms] at haccepts
    rw [admission, set, ← haccepts]
    exact ⟨rfl, fun hnot => by cases hnot⟩
  | chatFaulted set null =>
    -- a set flag comes with a queue
    have hqueue := htracked.queue set
    rw [null] at hqueue
    cases hqueue

/-- A message without content, whose role is not a string. -/
def arrayRole : Json := .obj [("messages", .arr [.obj [("role", .arr [])]])]

theorem accepts_arrayRole : ∃ s t : System (List Nat),
    execute (step utf8Vendor .fine) (fresh 0 0) [.loadModel {} (loadRequest "m")] = some s ∧
    t.log = s.log ++ [admission s.engine.modelLoaded s.next arrayRole] ∧
    ((s.engine.modelLoaded && acceptable arrayRole) = false → t.engine = s.engine) := by
  have hruns : (execute (step utf8Vendor .fine) (fresh 0 0) [.loadModel {} (loadRequest "m")]).any
      (fun s => (step utf8Vendor .fine s (.handleChatCompletion arrayRole)).isSome) = true := by
    decide
  obtain ⟨s, hexecute, hrun, htaken⟩ := exists_run_of_execute hruns
  obtain ⟨t, htaken⟩ := Option.isSome_iff_exists.mp htaken
  exact ⟨s, t, hexecute, handleChatCompletion_accepts hrun htaken⟩

end System

end CortexOnnx

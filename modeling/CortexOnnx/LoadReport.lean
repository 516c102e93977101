import CortexOnnx.Replies
import CortexOnnx.Utf8Vendor

/-!
# What `LoadModel` tells its client

`LoadModel` makes its success callback in the middle of its `try` block, and its `catch` block makes
a callback of its own.  The statement that can throw in between is the one that reads the model id.
-/

namespace CortexOnnx

variable {σ : Type}

/-! ## Requests whose model id cannot be read -/

/-- The values that `asString` throws on. -/
def Json.isContainer : Json → Bool
  | .arr _ | .obj _ => true
  | _ => false

/-- The first of `model` and `model_alias` that is not null is an array or an object. -/
def unnameable (jsonBody : Json) : Bool :=
  match jsonBody.index "model", jsonBody.index "model_alias" with
  | .ok model, .ok modelAlias => (if model.isNull then modelAlias else model).isContainer
  | _, _ => false

theorem asString_isOk (value : Json) : value.asString.isOk = !value.isContainer := by
  cases value <;> rfl

/-- Only an object or null has members to read. -/
theorem index_of_readConfig {jsonBody : Json} {config : Config}
    (h : readConfig jsonBody = .ok config) (key : String) :
    ∃ value, jsonBody.index key = .ok value := by
  cases jsonBody with
  | null => exact ⟨.null, rfl⟩
  | obj members =>
    simp only [Json.index, Json.get, Json.find, ok_bind]
    cases members.lookup key with
    | none => exact ⟨.null, rfl⟩
    | some value => exact ⟨value, rfl⟩
  | bool | int | real | str | arr =>
    simp [readConfig, readString, Json.get, Json.find] at h

/-- The path has been read as a string by the time the model id is. -/
theorem modelPath_of_readConfig {jsonBody input : Json} {config : Config}
    (h : readConfig jsonBody = .ok config) (hindex : jsonBody.index "model_path" = .ok input) :
    input.isContainer = false := by
  have hreads : (readString jsonBody "model_path" "").isOk = true := by
    cases hpath : readString jsonBody "model_path" "" with
    | error what => simp [readConfig, hpath] at h
    | ok path => rfl
  simp only [readString, Json.index, Json.get] at hreads hindex
  cases hfind : jsonBody.find "model_path" with
  | error what => simp [hfind] at hindex
  | ok found =>
    rw [hfind] at hreads hindex
    cases found with
    -- an absent path reads as null here, and as the default there
    | none =>
      cases hindex
      rfl
    | some value =>
      have hsame : value = input := Except.ok.inj hindex
      have hstring : value.asString.isOk = true := hreads
      rw [asString_isOk, hsame] at hstring
      simpa using hstring

theorem getModelId_isOk {jsonBody : Json} {config : Config}
    (h : readConfig jsonBody = .ok config) :
    (getModelId jsonBody).isOk = !unnameable jsonBody := by
  obtain ⟨model, hmodel⟩ := index_of_readConfig h "model"
  obtain ⟨modelAlias, halias⟩ := index_of_readConfig h "model_alias"
  obtain ⟨input, hinput⟩ := index_of_readConfig h "model_path"
  have hpath := modelPath_of_readConfig h hinput
  simp only [getModelId, unnameable, hmodel, halias, hinput, ok_bind]
  by_cases hnull : model.isNull = true
  case neg =>
    have hstring := asString_isOk model
    simpa [hnull] using hstring
  by_cases hnull' : modelAlias.isNull = true
  case neg =>
    have hstring := asString_isOk modelAlias
    simpa [hnull, hnull'] using hstring
  -- both are null: the base name of the path, which is a string
  have hscalar : modelAlias.isContainer = false := by
    cases modelAlias <;> first | rfl | cases hnull'
  simp only [hnull, hnull', hscalar, Bool.not_true, Bool.false_eq_true, if_false, if_true,
    Bool.not_false]
  by_cases hnull'' : input.isNull = true
  · simp only [hnull'', Bool.not_true, Bool.false_eq_true, if_false]
    rfl
  · have hstring := asString_isOk input
    rw [hpath] at hstring
    cases hread : input.asString with
    | error what => simp [hread, Except.isOk, Except.toBool] at hstring
    | ok path =>
      simp only [hnull'', Bool.not_false, if_true, ok_bind]
      rfl

/-! ## One truthful callback -/

/-- The engine runs the model of this request, under this request's id. -/
structure OnnxEngine.LoadedAs (engine : OnnxEngine σ) (jsonBody : Json) : Prop where
  flag : engine.modelLoaded = true
  ogaModel : engine.ogaModel.isSome = true
  tokenizer : engine.tokenizer.isSome = true
  tokenizerStream : engine.tokenizerStream.isSome = true
  q : engine.q.isSome = true
  modelId : getModelId jsonBody = .ok engine.modelId

theorem OnnxEngine.not_loadedAs_dropHandles (engine : OnnxEngine σ) (jsonBody : Json) :
    ¬engine.dropHandles.LoadedAs jsonBody := by
  intro h
  cases h.ogaModel

theorem OnnxEngine.loadedAs_markLoaded (engine : OnnxEngine σ) (model : OgaModel) (state : σ)
    (startTime : Nat) {jsonBody : Json} {modelId : String} (h : getModelId jsonBody = .ok modelId) :
    ((engine.withHandles model state).markLoaded modelId startTime).LoadedAs jsonBody := by
  refine ⟨rfl, rfl, rfl, rfl, ?_, h⟩
  unfold markLoaded
  cases (engine.withHandles model state).q <;> rfl

/-- The engine runs the model of this request, all of it made for this configuration. -/
structure OnnxEngine.RunsAs (engine : OnnxEngine σ) (config : Config) (jsonBody : Json) :
    Prop where
  loadedAs : engine.LoadedAs jsonBody
  handles : ∃ model state, model.path = config.path ∧ engine.Holds model state
  configured : engine.config = config

theorem OnnxEngine.runsAs_markLoaded (engine : OnnxEngine σ) {config : Config} {model : OgaModel}
    (state : σ) (startTime : Nat) {jsonBody : Json} {modelId : String}
    (names : getModelId jsonBody = .ok modelId) (path : model.path = config.path) :
    ((((engine.withConfig config).withHandles model state).markLoaded modelId startTime).RunsAs
      config jsonBody) where
  loadedAs := loadedAs_markLoaded _ model state startTime names
  handles := ⟨model, state, path, rfl, rfl, rfl⟩
  configured := rfl

/-- A call that returns has made one callback, with status 200 when the engine runs the requested
model and 500 when it does not. -/
def ReportsOnce (vendor : Vendor σ) (id : Nat) (env : Env) (jsonBody : Json) (w : World σ) : Prop :=
  ∀ w', loadModel vendor id env jsonBody w = (.value (), w') →
    ∃ status body, replies (w'.log.drop w.log.length) = [(status, body)] ∧
      (status.statusCode = k200OK ↔ w'.engine.LoadedAs jsonBody) ∧
      (¬w'.engine.LoadedAs jsonBody → status.statusCode = k500InternalServerError)

/-- The callbacks of a call that returns. -/
theorem loadModel_replies (vendor : Vendor σ) (id : Nat) (env : Env) (jsonBody : Json)
    (w : World σ) : Prog.wp (loadModel vendor id env jsonBody) (fun r w' => r = .value () →
      (readConfig jsonBody).isOk = true ∧
      ((loadThrows env jsonBody = false ∧ w'.engine.LoadedAs jsonBody ∧
        replies (w'.log.drop w.log.length) =
          [(.ok, messageBody "Model loaded successfully")]) ∨
      (loadThrows env jsonBody = true ∧ ¬w'.engine.LoadedAs jsonBody ∧
        replies (w'.log.drop w.log.length) = replies (earlyReply id env) ++
          [(.failure k500InternalServerError, messageBody "Failed to load model")]))) w := by
  apply ((loadModel_spec vendor id env jsonBody w).and
    (loadModel_early vendor id env jsonBody w)).mono
  rintro (_ | _ | _) w' ⟨h, hearly⟩ hreturned
  case exception => cases hreturned
  case undefined => cases hreturned
  case value =>
    obtain ⟨config, hreads, ⟨hcalm, modelId, hnames, rfl⟩ | ⟨hthrows, early, _, rfl⟩⟩ := h
    · refine ⟨by rw [hreads]; rfl, Or.inl ⟨hcalm, ?_, ?_⟩⟩
      · exact OnnxEngine.loadedAs_markLoaded _ _ _ _ hnames
      · rw [List.drop_left]
        rfl
    · have hlog := hearly hreturned hthrows
      refine ⟨by rw [hreads]; rfl, Or.inr ⟨hthrows, ?_, ?_⟩⟩
      · exact OnnxEngine.not_loadedAs_dropHandles _ _
      · rw [hlog, List.drop_left, replies_append]
        rfl

theorem loadThrows_iff {env : Env} {jsonBody : Json} (h : (readConfig jsonBody).isOk = true) :
    loadThrows env jsonBody = true ↔
      env.throwsIn createCalls = true ∨ unnameable jsonBody = true := by
  cases hreads : readConfig jsonBody with
  | error what =>
    rw [hreads] at h
    cases h
  | ok config => simp [loadThrows, getModelId_isOk hreads]

/-- **One truthful report.**  Whatever state it starts from, a `LoadModel` call reports once and
truthfully unless everything goes well up to the success callback and the model id is not a string.
-/
theorem reportsOnce_iff (vendor : Vendor σ) (id : Nat) (env : Env) (jsonBody : Json)
    (w : World σ) :
    ReportsOnce vendor id env jsonBody w ↔
      ¬((readConfig jsonBody).isOk = true ∧ env.throwsIn createCalls = false ∧
        unnameable jsonBody = true) := by
  have hspec := loadModel_replies vendor id env jsonBody w
  have hreturns := loadModel_spec vendor id env jsonBody w
  unfold Prog.wp at hspec hreturns
  constructor
  · rintro hreports ⟨hreads, hcalm, hcontainer⟩
    have hthrows : loadThrows env jsonBody = true :=
      (loadThrows_iff hreads).mpr (Or.inr hcontainer)
    rcases hrun : loadModel vendor id env jsonBody w with ⟨_ | what | fault, w'⟩
    case value =>
      rw [hrun] at hspec
      obtain ⟨_, ⟨hfine, _⟩ | ⟨_, _, hreplies⟩⟩ := hspec rfl
      · rw [hthrows] at hfine
        cases hfine
      -- told of the success and then of the failure
      · obtain ⟨status, body, honce, _⟩ := hreports w' hrun
        rw [hreplies, earlyReply, hcalm] at honce
        cases honce
    case exception =>
      rw [hrun] at hreturns
      rw [hreturns.1] at hreads
      cases hreads
    case undefined =>
      rw [hrun] at hreturns
      exact hreturns.elim
  · intro hcondition w' hrun
    rw [hrun] at hspec
    obtain ⟨hreads, ⟨_, hloaded, hreplies⟩ | ⟨hthrows, hunloaded, hreplies⟩⟩ := hspec rfl
    · refine ⟨_, _, hreplies, iff_of_true rfl hloaded, fun hunloaded => ?_⟩
      exact absurd hloaded hunloaded
    · have hfails : env.throwsIn createCalls = true := by
        rcases (loadThrows_iff hreads).mp hthrows with hfails | hcontainer
        · exact hfails
        -- a `Create` call must have failed as well
        · by_contra hcalm
          exact hcondition ⟨hreads, by simpa using hcalm, hcontainer⟩
      rw [earlyReply, if_pos hfails] at hreplies
      refine ⟨_, _, hreplies, iff_of_false ?_ hunloaded, fun _ => rfl⟩
      intro hstatus
      exact absurd hstatus (by decide)

def containerRequest : Json := .obj [("model", .arr []), ("model_path", .str "m")]

/-- An empty array under `model`: told of success and then of failure, with the handles gone. -/
theorem unnameable_load_reports_twice :
    ¬∀ (id : Nat) (env : Env) (jsonBody : Json) (w : World (List Nat)),
      ReportsOnce utf8Vendor id env jsonBody w := by
  intro hclaim
  let run := loadModel utf8Vendor 0 {} containerRequest (System.fresh 0 0).toWorld
  have hreturned : run.1 = .value () := by rfl
  have htwice : (replies run.2.log).length = 2 := by rfl
  obtain ⟨status, body, honce, _⟩ := hclaim 0 {} containerRequest _ run.2 (Prod.ext hreturned rfl)
  have hone : (replies run.2.log).length = 1 := congrArg List.length honce
  omega

end CortexOnnx

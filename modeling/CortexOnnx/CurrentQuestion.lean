import Mathlib.Logic.Function.Iterate
import CortexOnnx.HistoryWindow
import CortexOnnx.Tracking
import CortexOnnx.Utf8Vendor

/-!
# Whether the current question is in the prompt

The last message of a conversation is subject to the history window like any other.  `LoadModel`
takes any setting, and only the restart of a slow generation makes it positive.
-/

namespace CortexOnnx

variable {σ : Type} {vendor : Vendor σ}

/-! ## The last position -/

/-- The doubled setting is positive as a 32-bit `int`, or it wraps around together with the
subtraction.  The upper bound counts only where the index itself has wrapped around. -/
def ReachesLast (maxHistoryChat : Int) (size : Nat) : Prop :=
  let doubled := toInt32 (2 * maxHistoryChat)
  let last := toInt32 (size - 1)
  (0 < doubled ∧ doubled ≤ last + 1 + 2 ^ 31) ∨ doubled + 2 ^ 31 ≤ last + 1

instance (maxHistoryChat : Int) (size : Nat) : Decidable (ReachesLast maxHistoryChat size) :=
  inferInstanceAs (Decidable (_ ∨ _))

theorem remembers_last_iff (maxHistoryChat : Int) {size : Nat} (hsize : 0 < size) :
    remembers maxHistoryChat size (size - 1) = true ↔ ReachesLast maxHistoryChat size := by
  have hposition : ((size - 1 : Nat) : Int) = size - 1 := by omega
  unfold remembers windowBound ReachesLast
  rw [hposition, decide_eq_true_iff]
  obtain ⟨i, hlast, hlastLow, hlastHigh⟩ := toInt32_spec (size - 1)
  obtain ⟨j, hdoubled, hdoubledLow, hdoubledHigh⟩ := toInt32_spec (2 * maxHistoryChat)
  obtain ⟨k, hbound, hboundLow, hboundHigh⟩ := toInt32_spec (size - 2 * maxHistoryChat)
  dsimp only
  omega

/-- The prompt for every conversation of `size` messages that ends with a question ends with that
question and the start of the answer. -/
def QuestionReaches (config : Config) (size : Nat) : Prop :=
  ∀ (messages : Json) (before : List Message) (content : String),
    Conversation messages (before ++ [(⟨"user", content⟩ : Message)]) → before.length + 1 = size →
    ∃ front, formatPrompt config messages =
      .ok (front ++ (config.userPrompt ++ content ++ config.aiPrompt))

/-- The layout of everything before the question. -/
def layoutBefore (config : Config) (before : List Message) : List Piece :=
  gather (placement config (before.length + 1)) [.prePrompt] before.zipIdx

theorem layout_question (config : Config) (before : List Message) (content : String) :
    layout config (before ++ [(⟨"user", content⟩ : Message)]) =
      layoutBefore config before ++
        (if remembers config.maxHistoryChat (before.length + 1) before.length then
          [.message ⟨"user", content⟩ before.length] else []) ++ [.aiPrompt] := by
  have hlength : (before ++ [(⟨"user", content⟩ : Message)]).length = before.length + 1 := by simp
  have hzip : (before ++ [(⟨"user", content⟩ : Message)]).zipIdx =
      before.zipIdx ++ [(⟨"user", content⟩, before.length)] := by
    simp [List.zipIdx_append]
  rw [layout, hlength, hzip, layoutBefore]
  unfold gather
  rw [List.foldl_append, List.foldl_cons, List.foldl_nil]
  have huser : (⟨"user", content⟩ : Message).isDialogue = true := rfl
  unfold placement
  rw [if_pos huser]
  split
  · rfl
  · rw [List.append_nil]
    rfl

/-- Where the last position is outside the window the prompt does not depend on the question. -/
theorem questionReaches_iff (config : Config) {size : Nat} (hsize : 0 < size) :
    QuestionReaches config size ↔ ReachesLast config.maxHistoryChat size := by
  rw [← remembers_last_iff config.maxHistoryChat hsize]
  constructor
  · intro hreaches
    by_contra hout
    -- a question that is longer than the rest of the prompt
    let before := questions (size - 1)
    let content := textOf config (layoutBefore config before) ++ "?"
    have hlength : before.length = size - 1 := List.length_replicate
    obtain ⟨front, hprompt⟩ := hreaches _ before content (conversation_toJson _) (by omega)
    rw [formatPrompt_eq config (conversation_toJson _), layout_question, hlength,
      Nat.sub_add_cancel hsize, if_neg hout, List.append_nil, textOf_append] at hprompt
    have hsame := congrArg String.length (Except.ok.inj hprompt)
    simp only [textOf_singleton, Piece.text, String.length_append, content] at hsame
    have hmark : "?".length = 1 := rfl
    omega
  · intro hinside messages before content hread hlength
    subst hlength
    rw [Nat.add_sub_cancel] at hinside
    refine ⟨textOf config (layoutBefore config before), ?_⟩
    rw [formatPrompt_eq config hread, layout_question, if_pos hinside, textOf_append,
      textOf_append, textOf_singleton, textOf_singleton, String.append_assoc]
    rfl

/-! ## The settings a run can reach -/

/-- A step of a slow generation that halves the history setting. -/
def Act.restarts : Act → Bool
  | .throughput env => env.slow
  | _ => false

def Act.loads : Act → Bool
  | .loadModel _ _ => true
  | _ => false

/-- The number of restarts in a run. -/
def restarts (es : List (System σ × Act)) : Nat := es.countP fun e => e.2.restarts

theorem restarts_snoc (es : List (System σ × Act)) (s : System σ) (act : Act) :
    restarts (es ++ [(s, act)]) = (if act.restarts then 1 else 0) + restarts es := by
  unfold restarts
  rw [List.countP_append, List.countP_singleton, Nat.add_comm]

/-- A positive setting whose double fits keeps the question of every conversation that an `int` can
count. -/
theorem reachesLast_of_positive {maxHistoryChat : Int} (positive : 1 ≤ maxHistoryChat)
    (fits : maxHistoryChat < 2 ^ 30) {size : Nat} (hsize : 0 < size) (counted : size ≤ 2 ^ 31) :
    ReachesLast maxHistoryChat size := by
  have hdoubled : toInt32 (2 * maxHistoryChat) = 2 * maxHistoryChat := by
    apply toInt32_of_fits
    · unfold Json.minInt
      omega
    · unfold Json.maxInt
      omega
  have hlast : toInt32 (size - 1) = size - 1 := by
    apply toInt32_of_fits
    · unfold Json.minInt
      omega
    · unfold Json.maxInt
      omega
  unfold ReachesLast
  dsimp only
  rw [hdoubled, hlast]
  omega

theorem halveHistory_le (x : Int) : halveHistory x ≤ max 1 (x / 2) := by
  have hdiv : x.tdiv 2 ≤ max 1 (x / 2) := by
    rw [Int.tdiv_eq_ediv]
    have hsign : Int.sign 2 = 1 := rfl
    rw [hsign]
    -- only a negative odd number is rounded up
    split <;> omega
  unfold halveHistory
  omega

/-- One restart repairs every setting. -/
theorem reachesLast_of_restarted {maxHistoryChat : Int} (high : maxHistoryChat ≤ Json.maxInt)
    (restarts : Nat) {size : Nat} (hsize : 0 < size) (counted : size ≤ 2 ^ 31) :
    ReachesLast (halveHistory^[restarts + 1] maxHistoryChat) size := by
  have hle (n : Nat) : halveHistory^[n] maxHistoryChat ≤ Json.maxInt := by
    induction n with
    | zero => exact high
    | succ n ih =>
      rw [Function.iterate_succ_apply']
      have hhalf := halveHistory_le (halveHistory^[n] maxHistoryChat)
      unfold Json.maxInt at ih ⊢
      omega
  have hbefore := hle restarts
  have hhalf := halveHistory_le (halveHistory^[restarts] maxHistoryChat)
  have hpositive : 1 ≤ halveHistory (halveHistory^[restarts] maxHistoryChat) := Int.le_max_left _ _
  unfold Json.maxInt at hbefore
  rw [Function.iterate_succ_apply']
  exact reachesLast_of_positive hpositive (by omega) hsize counted

/-- The configuration after a number of restarts. -/
def Config.halved (config : Config) (restarts : Nat) : Config :=
  { config with maxHistoryChat := halveHistory^[restarts] config.maxHistoryChat }

theorem Config.halved_halved (config : Config) (m n : Nat) :
    (config.halved m).halved n = config.halved (n + m) := by
  unfold halved
  rw [Function.iterate_add_apply]

namespace System

/-- Only a load or a restart changes the configuration. -/
theorem Transition.config_eq {s t : System σ} {act : Act} (ht : Transition vendor s act t)
    (hload : act.loads = false) :
    t.engine.config = s.engine.config.halved (if act.restarts then 1 else 0) := by
  cases ht with
  | loadThrew | loadFailed | loaded => cases hload
  | tornDown at_ slow =>
    rw [Act.restarts, slow]
    rfl
  | fastEnough at_ fast =>
    rw [Act.restarts, fast]
    rfl
  | _ => rfl

/-- Without another load the setting is the one of the start, halved once for each restart. -/
theorem config_of_run {grain : Grain} {s t : System σ} {es : List (System σ × Act)}
    (hrun : Run (step vendor grain) s es t) (tracked : s.Tracked)
    (hloads : EveryStep (fun _ act => act.loads = false) es) :
    t.Tracked ∧ t.engine.config = s.engine.config.halved (restarts es) := by
  induction hrun with
  | nil => exact ⟨tracked, rfl⟩
  | @snoc es u t act before taken ih =>
    obtain ⟨hes, hact⟩ := everyStep_snoc.mp hloads
    obtain ⟨htracked, hconfig⟩ := ih hes
    have ht := htracked.transition taken
    refine ⟨ht.tracked htracked, ?_⟩
    rw [ht.config_eq hact, hconfig, Config.halved_halved, restarts_snoc]

/-- What a load that succeeds leaves in the configuration. -/
theorem config_of_loaded {grain : Grain} {s u : System σ} {env : Env} {jsonBody : Json}
    {config : Config} (tracked : s.Tracked)
    (taken : step vendor grain s (.loadModel env jsonBody) = some u)
    (reads : readConfig jsonBody = .ok config) (succeeds : loadThrows env jsonBody = false) :
    u.Tracked ∧ u.engine.config = config := by
  have ht := tracked.transition taken
  refine ⟨ht.tracked tracked, ?_⟩
  cases ht with
  | loadThrew reads' => cases reads.symm.trans reads'
  | loadFailed reads' throws => cases succeeds.symm.trans throws
  | loaded reads' =>
    cases reads.symm.trans reads'
    rfl

/-- **The current question.**  After a load and any run without another one, every conversation of
`size` messages keeps its question exactly when the setting, halved once for each restart, is
positive as a doubled 32-bit `int`, or wraps around. -/
theorem questionReaches_run_iff {grain : Grain} {startTime : Nat} {maxHistoryChat : Int}
    {before es : List (System σ × Act)} {s u t : System σ} {env : Env} {jsonBody : Json}
    {config : Config} {size : Nat}
    (reached : Run (step vendor grain) (fresh startTime maxHistoryChat) before s)
    (taken : step vendor grain s (.loadModel env jsonBody) = some u)
    (reads : readConfig jsonBody = .ok config) (succeeds : loadThrows env jsonBody = false)
    (hrun : Run (step vendor grain) u es t)
    (hloads : EveryStep (fun _ act => act.loads = false) es) (hsize : 0 < size) :
    QuestionReaches t.engine.config size ↔
      ReachesLast (halveHistory^[restarts es] config.maxHistoryChat) size := by
  have hstart := (run_invariant (I := fun _ => True) reached (fresh_tracked _ _) trivial
    fun _ _ _ _ => trivial).1
  obtain ⟨htracked, hconfig⟩ := config_of_loaded hstart taken reads succeeds
  have hafter := (config_of_run hrun htracked hloads).2
  rw [questionReaches_iff t.engine.config hsize, hafter, hconfig]
  rfl

/-- A chat that is answered slowly. -/
def slowChat : List Act :=
  [.handleChatCompletion (chatRequest true "x"), .start {}, .iterate { isDone := true }, .postLoop,
    .throughput { slow := true }, .reload {}, .finish {}]

theorem questionReaches_of_slowChat : ∃ u t,
    step utf8Vendor .task (fresh 0 0) (.loadModel {} (loadRequest "m")) = some u ∧
      execute (step utf8Vendor .task) u slowChat = some t ∧
      QuestionReaches t.engine.config 3 := by
  let u : System (List Nat) :=
    (step utf8Vendor .task (fresh 0 0) (.loadModel {} (loadRequest "m"))).get (by decide)
  have htaken : step utf8Vendor .task (fresh 0 0) (.loadModel {} (loadRequest "m")) = some u :=
    (Option.some_get _).symm
  have hruns : (execute (step utf8Vendor .task) u slowChat).any
      (fun t => t.fault.isNone) = true := by decide
  obtain ⟨t, hexecute, hrun, _⟩ := exists_run_of_execute hruns
  have hloads : ∀ e ∈ trace (step utf8Vendor .task) u slowChat, e.2.loads = false := by decide
  have hreaches : ReachesLast (halveHistory^[restarts (trace (step utf8Vendor .task) u slowChat)]
      (defaultConfig "m").maxHistoryChat) 3 := by decide
  exact ⟨u, t, htaken, hexecute, (questionReaches_run_iff Run.nil htaken (readConfig_default "m")
    rfl hrun hloads (by decide)).mpr hreaches⟩

/-- With no history at all the model is not asked the question. -/
def zeroHistoryRequest : Json := .obj [("model_path", .str "m"), ("max_history_chat", .int 0)]

theorem zeroHistory_loses_question :
    ¬∀ (jsonBody : Json) (config : Config) (u : System (List Nat)) (size : Nat),
      readConfig jsonBody = .ok config → loadThrows {} jsonBody = false →
      step utf8Vendor .task (fresh 0 0) (.loadModel {} jsonBody) = some u → 0 < size →
        QuestionReaches u.engine.config size := by
  intro hclaim
  let u : System (List Nat) :=
    (step utf8Vendor .task (fresh 0 0) (.loadModel {} zeroHistoryRequest)).get (by decide)
  have htaken : step utf8Vendor .task (fresh 0 0) (.loadModel {} zeroHistoryRequest) = some u :=
    (Option.some_get _).symm
  have hreaches := hclaim zeroHistoryRequest { defaultConfig "m" with maxHistoryChat := 0 } u 1 rfl
    rfl htaken (by decide)
  rw [(config_of_loaded (fresh_tracked 0 0) htaken rfl rfl).2,
    questionReaches_iff _ (by decide)] at hreaches
  exact absurd hreaches (by decide)

end System

end CortexOnnx

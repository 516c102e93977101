import Mathlib.Data.List.Forall2
import CortexOnnx.Lib.TwoEnds
import CortexOnnx.Prompt

/-!
# The layout of a prompt

The prompt loop works at both ends of its string: a system message goes to the front and every other
message to the back, the user's and the assistant's only inside the history window.  A layout is the
list of the segments such a prompt consists of, each with the message it comes from.
-/

namespace CortexOnnx

/-! ## Messages -/

structure Message where
  role : String
  content : String
  deriving Repr, DecidableEq

namespace Message

def isSystem (message : Message) : Bool := message.role = "system"

/-- The messages that the history window is about. -/
def isDialogue (message : Message) : Bool := message.role = "user" ∨ message.role = "assistant"

def toJson (message : Message) : Json :=
  .obj [("content", .str message.content), ("role", .str message.role)]

end Message

/-- What the loop reads of one entry of `messages`. -/
def Reads (value : Json) (message : Message) : Prop :=
  (do (← value.index "role").asString) = Except.ok message.role ∧
    (do (← value.index "content").asString) = Except.ok message.content

/-- The entries of `messages`, as the loop reads them. -/
def Conversation (messages : Json) (conversation : List Message) : Prop :=
  List.Forall₂ Reads messages.elements conversation

theorem conversation_toJson (conversation : List Message) :
    Conversation (.arr (conversation.map Message.toJson)) conversation := by
  unfold Conversation
  induction conversation with
  | nil => exact List.Forall₂.nil
  | cons message conversation ih => exact List.Forall₂.cons ⟨rfl, rfl⟩ ih

/-! ## The window test -/

theorem toInt32_succ (x : Int) : toInt32 (toInt32 x + 1) = toInt32 (x + 1) := by
  unfold toInt32
  rw [Int.bmod_add_bmod]

/-- The bound that a position is compared with. -/
def windowBound (maxHistoryChat : Int) (size : Nat) : Int := toInt32 (size - 2 * maxHistoryChat)

/-- A message at position `p` is inside the history window. -/
def remembers (maxHistoryChat : Int) (size p : Nat) : Bool :=
  toInt32 p > windowBound maxHistoryChat size

/-- Where the doubling wraps around, the subtraction wraps back. -/
theorem inWindow_eq (maxHistoryChat : Int) (size p : Nat) :
    inWindow (toInt32 p) size (toInt32 (maxHistoryChat * 2)) =
      remembers maxHistoryChat size p := by
  unfold inWindow remembers windowBound toInt32
  rw [Int.bmod_sub_bmod, Int.sub_bmod_bmod, Int.mul_comm]

/-- The number of messages and the bound of the window are their exact values. -/
structure WindowExact (maxHistoryChat : Int) (size : Nat) : Prop where
  counted : (size : Int) ≤ Json.maxInt
  low : Json.minInt ≤ size - 2 * maxHistoryChat
  high : size - 2 * maxHistoryChat ≤ Json.maxInt

theorem toInt32_position {size p : Nat} (hsize : size ≤ 2 ^ 31) (hp : p < size) :
    toInt32 p = p := by
  apply toInt32_of_fits
  · unfold Json.minInt
    omega
  · unfold Json.maxInt
    omega

theorem WindowExact.remembers_iff {maxHistoryChat : Int} {size p : Nat}
    (h : WindowExact maxHistoryChat size) (hp : p < size) :
    remembers maxHistoryChat size p = true ↔ (p : Int) > size - 2 * maxHistoryChat := by
  have hsize : size ≤ 2 ^ 31 := by
    have hmax := h.counted
    unfold Json.maxInt at hmax
    omega
  unfold remembers windowBound
  rw [toInt32_position hsize hp, toInt32_of_fits h.low h.high]
  exact decide_eq_true_iff

/-! ## Layouts -/

/-- A segment of the prompt; a message carries its position among all messages. -/
inductive Piece where
  | prePrompt
  | message (message : Message) (position : Nat)
  | aiPrompt
  deriving Repr, DecidableEq

/-- What is written before the content of a message. -/
def Message.label (config : Config) (message : Message) : String :=
  if message.role = "user" then config.userPrompt
  else if message.role = "assistant" then config.aiPrompt
  else if message.role = "system" then config.systemPrompt
  else message.role

def Piece.text (config : Config) : Piece → String
  | prePrompt => config.prePrompt
  | message m _ => m.label config ++ m.content
  | aiPrompt => config.aiPrompt

/-- The text of a list of segments. -/
def textOf (config : Config) (pieces : List Piece) : String :=
  String.join (pieces.map (Piece.text config))

/-- Where the loop puts a message. -/
def placement (config : Config) (size : Nat) (entry : Message × Nat) : Placement Piece :=
  if entry.1.isDialogue then
    if remembers config.maxHistoryChat size entry.2 then .back (.message entry.1 entry.2) else .skip
  else if entry.1.isSystem then .front (.message entry.1 entry.2)
  else .back (.message entry.1 entry.2)

theorem Message.not_system_of_dialogue {message : Message} (h : message.isDialogue = true) :
    message.isSystem = false := by
  simp only [isDialogue, decide_eq_true_eq] at h
  rcases h with h | h <;> simp [isSystem, h]

theorem placement_front? (config : Config) (size : Nat) (message : Message) (p : Nat) :
    (placement config size (message, p)).front? =
      if message.isSystem then some (.message message p) else none := by
  unfold placement
  by_cases hdialogue : message.isDialogue = true
  · have hsystem := Message.not_system_of_dialogue hdialogue
    by_cases hinside : remembers config.maxHistoryChat size p = true
    · simp [hdialogue, hsystem, hinside, Placement.front?]
    · simp [hdialogue, hsystem, hinside, Placement.front?]
  · by_cases hsystem : message.isSystem = true
    · simp [hdialogue, hsystem, Placement.front?]
    · simp [hdialogue, hsystem, Placement.front?]

theorem placement_back? (config : Config) (size : Nat) (message : Message) (p : Nat) :
    (placement config size (message, p)).back? =
      if message.isSystem || (message.isDialogue && !remembers config.maxHistoryChat size p) then
        none
      else some (.message message p) := by
  unfold placement
  by_cases hdialogue : message.isDialogue = true
  · have hsystem := Message.not_system_of_dialogue hdialogue
    by_cases hinside : remembers config.maxHistoryChat size p = true
    · simp [hdialogue, hsystem, hinside, Placement.back?]
    · simp [hdialogue, hinside, Placement.back?]
  · by_cases hsystem : message.isSystem = true
    · simp [hdialogue, hsystem, Placement.back?]
    · simp [hdialogue, hsystem, Placement.back?]

def layout (config : Config) (conversation : List Message) : List Piece :=
  gather (placement config conversation.length) [.prePrompt] conversation.zipIdx ++ [.aiPrompt]

theorem textOf_cons (config : Config) (piece : Piece) (pieces : List Piece) :
    textOf config (piece :: pieces) = piece.text config ++ textOf config pieces :=
  String.join_cons

theorem textOf_append (config : Config) (pieces pieces' : List Piece) :
    textOf config (pieces ++ pieces') = textOf config pieces ++ textOf config pieces' := by
  simp only [textOf, List.map_append, String.join_append]

theorem textOf_singleton (config : Config) (piece : Piece) :
    textOf config [piece] = piece.text config := by
  rw [textOf_cons]
  exact String.append_empty

/-- One iteration of the prompt loop extends a layout where the placement says. -/
theorem promptStep_eq (config : Config) (size p : Nat) (pieces : List Piece) {value : Json}
    {message : Message} (h : Reads value message) :
    promptStep config size (toInt32 (config.maxHistoryChat * 2))
        { formattedOutput := textOf config pieces, index := toInt32 p } value =
      .ok
        { formattedOutput :=
            textOf config ((placement config size (message, p)).extend pieces)
          index := toInt32 (p + 1 : Nat) } := by
  obtain ⟨hrole, hcontent⟩ := h
  unfold promptStep
  rcases hroleField : value.index "role" with what | roleField
  · simp [hroleField] at hrole
  rcases hcontentField : value.index "content" with what | contentField
  · simp [hcontentField] at hcontent
  simp only [hroleField, hcontentField, ok_bind] at hrole hcontent
  simp only [hrole, hcontent, ok_bind, pure_ok, inWindow_eq, toInt32_succ]
  congr 2
  by_cases huser : message.role = "user"
  · by_cases hinside : remembers config.maxHistoryChat size p = true
    · simp [huser, hinside, placement, Message.isDialogue, Placement.extend, textOf_append,
        textOf_singleton, Piece.text, Message.label]
    · simp [huser, hinside, placement, Message.isDialogue, Placement.extend]
  by_cases hassistant : message.role = "assistant"
  · by_cases hinside : remembers config.maxHistoryChat size p = true
    · simp [hassistant, hinside, placement, Message.isDialogue, Placement.extend, textOf_append,
        textOf_singleton, Piece.text, Message.label]
    · simp [hassistant, hinside, placement, Message.isDialogue, Placement.extend]
  by_cases hsystem : message.role = "system"
  · simp [hsystem, placement, Message.isDialogue, Message.isSystem, Placement.extend, textOf_cons,
      Piece.text, Message.label]
  · simp [huser, hassistant, hsystem, placement, Message.isDialogue, Message.isSystem,
      Placement.extend, textOf_append, textOf_singleton, Piece.text, Message.label]

/-- The whole loop. -/
theorem promptLoop_eq (config : Config) (size : Nat) {values : List Json}
    {conversation : List Message} (h : List.Forall₂ Reads values conversation) (p : Nat)
    (pieces : List Piece) :
    values.foldlM (promptStep config size (toInt32 (config.maxHistoryChat * 2)))
        { formattedOutput := textOf config pieces, index := toInt32 p } =
      .ok
        { formattedOutput :=
            textOf config (gather (placement config size) pieces (conversation.zipIdx p))
          index := toInt32 (p + conversation.length : Nat) } := by
  induction h generalizing p pieces with
  | nil => rfl
  | @cons value message values conversation hreads _ ih =>
    rw [List.foldlM_cons, promptStep_eq config size p pieces hreads, ok_bind, ih]
    have hlength : p + 1 + conversation.length = p + (message :: conversation).length := by
      simp only [List.length_cons]
      omega
    rw [hlength]
    rfl

/-- The prompt is the text of the layout. -/
theorem formatPrompt_eq (config : Config) {messages : Json} {conversation : List Message}
    (h : Conversation messages conversation) :
    formatPrompt config messages = .ok (textOf config (layout config conversation)) := by
  have hsize : messages.elements.length = conversation.length := List.Forall₂.length_eq h
  have hloop := promptLoop_eq config conversation.length h 0 [.prePrompt]
  rw [textOf_singleton] at hloop
  unfold formatPrompt
  dsimp only
  rw [hsize]
  have hstart : toInt32 (0 : Nat) = 0 := rfl
  rw [hstart] at hloop
  rw [show config.prePrompt = (Piece.prePrompt).text config from rfl, hloop, ok_bind, layout,
    textOf_append, textOf_singleton]
  rfl

/-! ## The shape of the prompt -/

/-- The system messages, the last of them first. -/
def systemPart (config : Config) (conversation : List Message) : String :=
  String.join ((conversation.filter Message.isSystem).reverse.map fun message =>
    config.systemPrompt ++ message.content)

/-- What a message at position `p` of `size` contributes to the rest of the prompt. -/
def segment (config : Config) (size : Nat) (entry : Message × Nat) : Option String :=
  let ⟨message, p⟩ := entry
  if message.role = "user" then
    if (p : Int) > size - 2 * config.maxHistoryChat then some (config.userPrompt ++ message.content)
    else none
  else if message.role = "assistant" then
    if (p : Int) > size - 2 * config.maxHistoryChat then some (config.aiPrompt ++ message.content)
    else none
  else if message.role = "system" then none
  else some (message.role ++ message.content)

/-- The other messages in the order of the request. -/
def dialoguePart (config : Config) (conversation : List Message) : String :=
  String.join (conversation.zipIdx.filterMap (segment config conversation.length))

theorem fronts_text (config : Config) (size : Nat) (conversation : List Message) (p : Nat) :
    (fronts (placement config size) (conversation.zipIdx p)).map (Piece.text config) =
      (conversation.filter Message.isSystem).map fun message =>
        config.systemPrompt ++ message.content := by
  induction conversation generalizing p with
  | nil => rfl
  | cons message conversation ih =>
    have hrest := ih (p + 1)
    unfold fronts at hrest ⊢
    rw [List.zipIdx_cons]
    by_cases hsystem : message.isSystem = true
    · have hrole : message.role = "system" := by simpa [Message.isSystem] using hsystem
      simp [placement_front?, hsystem, hrest, Piece.text, Message.label, hrole]
    · simp [placement_front?, hsystem, hrest]

theorem back_text (config : Config) {size : Nat} (exact : WindowExact config.maxHistoryChat size)
    {entry : Message × Nat} (hp : entry.2 < size) :
    (placement config size entry).back?.map (Piece.text config) = segment config size entry := by
  obtain ⟨message, p⟩ := entry
  have hwindow : remembers config.maxHistoryChat size p = true ↔
      (p : Int) > size - 2 * config.maxHistoryChat := exact.remembers_iff hp
  rw [placement_back?]
  unfold segment
  by_cases huser : message.role = "user"
  · by_cases hinside : (p : Int) > size - 2 * config.maxHistoryChat
    · simp [huser, hwindow.mpr hinside, hinside, Message.isSystem, Piece.text, Message.label]
    · have hnot := mt hwindow.mp hinside
      simp [huser, hnot, hinside, Message.isDialogue]
  by_cases hassistant : message.role = "assistant"
  · by_cases hinside : (p : Int) > size - 2 * config.maxHistoryChat
    · simp [hassistant, hwindow.mpr hinside, hinside, Message.isSystem, Piece.text, Message.label]
    · have hnot := mt hwindow.mp hinside
      simp [hassistant, hnot, hinside, Message.isDialogue]
  by_cases hsystem : message.role = "system"
  · simp [hsystem, Message.isSystem]
  · simp [huser, hassistant, hsystem, Message.isSystem, Message.isDialogue, Piece.text,
      Message.label]

theorem backs_text (config : Config) {conversation : List Message}
    (exact : WindowExact config.maxHistoryChat conversation.length) :
    textOf config (backs (placement config conversation.length) conversation.zipIdx) =
      dialoguePart config conversation := by
  unfold textOf backs dialoguePart
  rw [List.map_filterMap]
  congr 1
  apply List.filterMap_congr
  intro entry hmem
  exact back_text config exact (List.snd_lt_of_mem_zipIdx hmem)

/-- **The shape of the prompt.**  System messages in front, the last of them first; then the
pre-prompt, the other messages in order, the user's and the assistant's only from the history
window, and the start of the answer. -/
theorem formatPrompt_shape (config : Config) {messages : Json} {conversation : List Message}
    (h : Conversation messages conversation)
    (exact : WindowExact config.maxHistoryChat conversation.length) :
    formatPrompt config messages =
      .ok (systemPart config conversation ++ config.prePrompt ++ dialoguePart config conversation ++
        config.aiPrompt) := by
  have hsystems : textOf config
      (fronts (placement config conversation.length) conversation.zipIdx).reverse =
        systemPart config conversation := by
    unfold textOf systemPart
    rw [List.map_reverse, fronts_text, List.map_reverse]
  rw [formatPrompt_eq config h, layout, gather_eq, textOf_append, textOf_append, textOf_append,
    hsystems, backs_text config exact, textOf_singleton, textOf_singleton]
  rfl

/-- The configuration of a request that gives only a path. -/
def defaultConfig (path : String) : Config where
  path
  userPrompt := "USER: "
  aiPrompt := "ASSISTANT: "
  systemPrompt := "ASSISTANT's RULE: "
  prePrompt := ""
  maxHistoryChat := 2

theorem readConfig_default (path : String) :
    readConfig (.obj [("model_path", .str path)]) = .ok (defaultConfig path) := rfl

/-- A request with every role, of which the first user message is outside the window. -/
def mixedConversation : List Message :=
  [⟨"user", "a"⟩, ⟨"system", "b"⟩, ⟨"tool", "c"⟩, ⟨"assistant", "d"⟩, ⟨"system", "e"⟩,
    ⟨"user", "f"⟩]

theorem formatPrompt_mixed :
    formatPrompt (defaultConfig "m") (.arr (mixedConversation.map Message.toJson)) =
      .ok "ASSISTANT's RULE: eASSISTANT's RULE: btoolcASSISTANT: dUSER: fASSISTANT: " := by
  have hexact : WindowExact (defaultConfig "m").maxHistoryChat mixedConversation.length :=
    ⟨by decide, by decide, by decide⟩
  rw [formatPrompt_shape (defaultConfig "m") (conversation_toJson mixedConversation) hexact]
  decide

/-! ## Order within a role class -/

def Piece.isSystem : Piece → Bool
  | message m _ => m.isSystem
  | prePrompt | aiPrompt => false

/-- The one message comes before the other in the request. -/
def Piece.before : Piece → Piece → Prop
  | message _ p, message _ q => p < q
  | _, _ => False

theorem Piece.before_asymm (a b : Piece) (h : a.before b) : ¬b.before a := by
  intro h'
  cases a with
  | message m p =>
    cases b with
    | message m' q =>
      unfold before at h h'
      omega
    | prePrompt | aiPrompt => exact h
  | prePrompt | aiPrompt => exact h

/-- The pieces that a loop over the messages puts at one of the ends. -/
theorem filterMap_sorted {f : Message × Nat → Option Piece} {entries : List (Message × Nat)}
    (sorted : entries.Pairwise fun a b => a.2 < b.2)
    (hf : ∀ entry piece, f entry = some piece → piece = .message entry.1 entry.2) :
    (entries.filterMap f).Pairwise Piece.before := by
  apply List.Pairwise.filterMap f _ sorted
  intro a a' hlt b hb b' hb'
  rw [hf a b hb, hf a' b' hb']
  exact hlt

theorem zipIdx_sorted (conversation : List Message) :
    conversation.zipIdx.Pairwise fun a b => a.2 < b.2 := by
  have hpositions : (conversation.zipIdx.map Prod.snd).Pairwise (· < ·) := by
    rw [List.zipIdx_map_snd]
    exact List.pairwise_lt_range'
  exact List.pairwise_map.mp hpositions

theorem front_of_placement {config : Config} {size : Nat} {entry : Message × Nat} {piece : Piece}
    (h : (placement config size entry).front? = some piece) :
    piece = .message entry.1 entry.2 ∧ piece.isSystem = true := by
  rw [placement_front?] at h
  by_cases hsystem : entry.1.isSystem = true
  · rw [if_pos hsystem] at h
    cases h
    exact ⟨rfl, hsystem⟩
  · rw [if_neg hsystem] at h
    cases h

theorem back_of_placement {config : Config} {size : Nat} {entry : Message × Nat} {piece : Piece}
    (h : (placement config size entry).back? = some piece) :
    piece = .message entry.1 entry.2 ∧ piece.isSystem = false := by
  rw [placement_back?] at h
  by_cases hsystem : entry.1.isSystem = true
  · simp [hsystem] at h
  · split at h
    · cases h
    · cases h
      exact ⟨rfl, Bool.eq_false_iff.mpr hsystem⟩

section Ends

variable (config : Config) (conversation : List Message)

/-- The system messages, as the loop meets them. -/
def systemPieces : List Piece := fronts (placement config conversation.length) conversation.zipIdx

/-- The other messages of the prompt. -/
def otherPieces : List Piece := backs (placement config conversation.length) conversation.zipIdx

theorem layout_eq : layout config conversation =
    (systemPieces config conversation).reverse ++ [.prePrompt] ++ otherPieces config conversation ++
      [.aiPrompt] := by
  rw [layout, gather_eq]
  rfl

theorem systemPieces_sorted : (systemPieces config conversation).Pairwise Piece.before :=
  filterMap_sorted (zipIdx_sorted conversation) fun _ _ h => (front_of_placement h).1

theorem otherPieces_sorted : (otherPieces config conversation).Pairwise Piece.before :=
  filterMap_sorted (zipIdx_sorted conversation) fun _ _ h => (back_of_placement h).1

theorem isSystem_of_systemPieces {piece : Piece} (h : piece ∈ systemPieces config conversation) :
    piece.isSystem = true := by
  obtain ⟨entry, _, hplace⟩ := List.mem_filterMap.mp h
  exact (front_of_placement hplace).2

theorem not_isSystem_of_otherPieces {piece : Piece}
    (h : piece ∈ otherPieces config conversation) : piece.isSystem = false := by
  obtain ⟨entry, _, hplace⟩ := List.mem_filterMap.mp h
  exact (back_of_placement hplace).2

/-- Only the system messages are in front, and they are there in reverse. -/
theorem filter_layout : (layout config conversation).filter Piece.isSystem =
    (systemPieces config conversation).reverse := by
  rw [layout_eq, List.filter_append, List.filter_append, List.filter_append]
  have hfront : ((systemPieces config conversation).reverse).filter Piece.isSystem =
      (systemPieces config conversation).reverse := by
    apply List.filter_eq_self.mpr
    intro piece hmem
    exact isSystem_of_systemPieces config conversation (List.mem_reverse.mp hmem)
  have hback : (otherPieces config conversation).filter Piece.isSystem = [] := by
    apply List.filter_eq_nil_iff.mpr
    intro piece hmem
    simp [not_isSystem_of_otherPieces config conversation hmem]
  rw [hfront, hback]
  simp [Piece.isSystem]

theorem mem_systemPieces {message : Message} {p : Nat} (hsystem : message.isSystem = true)
    (h : .message message p ∈ layout config conversation) :
    .message message p ∈ systemPieces config conversation := by
  have hfront : .message message p ∈ (layout config conversation).filter Piece.isSystem :=
    List.mem_filter.mpr ⟨h, hsystem⟩
  rw [filter_layout] at hfront
  exact List.mem_reverse.mp hfront

theorem mem_otherPieces {message : Message} {p : Nat} (hsystem : message.isSystem = false)
    (h : .message message p ∈ layout config conversation) :
    .message message p ∈ otherPieces config conversation := by
  rw [layout_eq] at h
  simp only [List.mem_append, List.mem_singleton, List.mem_reverse, reduceCtorEq, or_false] at h
  rcases h with h | h
  · have hfront := isSystem_of_systemPieces config conversation h
    exact absurd (hsystem.symm.trans hfront) (by decide)
  · exact h

end Ends

/-- Two messages of the same class stand in the prompt in the order in which they were sent. -/
def KeepsOrder (config : Config) (conversation : List Message) : Prop :=
  ∀ m m' p q, p < q → m.isSystem = m'.isSystem →
    .message m p ∈ layout config conversation → .message m' q ∈ layout config conversation →
    List.Sublist [.message m p, .message m' q] (layout config conversation)

theorem length_systemPieces (config : Config) (conversation : List Message) :
    (systemPieces config conversation).length = conversation.countP Message.isSystem := by
  have htexts := congrArg List.length (fronts_text config conversation.length conversation 0)
  rw [List.length_map, List.length_map] at htexts
  rw [List.countP_eq_length_filter]
  exact htexts

/-- Two system messages stand in the prompt the other way round. -/
theorem not_keepsOrder {config : Config} {conversation : List Message} {a b : Piece}
    {rest : List Piece} (h : systemPieces config conversation = a :: b :: rest) :
    ¬KeepsOrder config conversation := by
  intro horder
  have hsorted := systemPieces_sorted config conversation
  have hsystem (piece : Piece) (hpiece : piece ∈ systemPieces config conversation) :
      piece.isSystem = true := isSystem_of_systemPieces config conversation hpiece
  have hmem (piece : Piece) (hpiece : piece ∈ systemPieces config conversation) :
      piece ∈ layout config conversation := by
    rw [layout_eq]
    simp [hpiece]
  simp only [h] at hsorted hsystem hmem
  have hbefore : a.before b := (List.pairwise_cons.mp hsorted).1 b List.mem_cons_self
  have ha := hsystem a List.mem_cons_self
  have hb := hsystem b (List.mem_cons_of_mem _ List.mem_cons_self)
  cases a with
  | prePrompt | aiPrompt => cases ha
  | message m p =>
    cases b with
    | prePrompt | aiPrompt => cases hb
    | message m' q =>
      have hpair := horder m m' p q hbefore (Eq.trans ha hb.symm) (hmem _ List.mem_cons_self)
        (hmem _ (List.mem_cons_of_mem _ List.mem_cons_self))
      -- what is left of the prompt are the system messages in reverse
      have hfront := hpair.filter Piece.isSystem
      rw [filter_layout, List.filter_cons_of_pos ha, List.filter_cons_of_pos hb,
        List.filter_nil] at hfront
      have hreversed := hfront.reverse
      rw [List.reverse_reverse] at hreversed
      have hback : Piece.before (.message m' q) (.message m p) :=
        rel_of_pair_sublist (systemPieces_sorted config conversation) hreversed
      exact Piece.before_asymm _ _ hbefore hback

/-- **Order.**  Each system message is put before those that came earlier, so the order within a
class is kept exactly when there is at most one of them. -/
theorem keepsOrder_iff (config : Config) {messages : Json} {conversation : List Message}
    (h : Conversation messages conversation) :
    formatPrompt config messages = .ok (textOf config (layout config conversation)) ∧
      (KeepsOrder config conversation ↔ conversation.countP Message.isSystem ≤ 1) := by
  refine ⟨formatPrompt_eq config h, ?_⟩
  rw [← length_systemPieces config]
  constructor
  · intro horder
    by_contra hmany
    rcases hpieces : systemPieces config conversation with _ | ⟨a, _ | ⟨b, rest⟩⟩
    · simp [hpieces] at hmany
    · simp [hpieces] at hmany
    · exact not_keepsOrder hpieces horder
  · intro hone m m' p q hlt hclass hm hm'
    by_cases hsystem : m.isSystem = true
    -- two system messages would be two
    · have hfront : List.Sublist [.message m p, .message m' q]
          (systemPieces config conversation) := by
        apply pair_sublist_of_sorted (systemPieces_sorted config conversation) Piece.before_asymm
        · exact mem_systemPieces config conversation hsystem hm
        · exact mem_systemPieces config conversation (hclass.symm.trans hsystem) hm'
        · exact hlt
      have hlength := hfront.length_le
      simp only [List.length_cons, List.length_nil] at hlength
      omega
    · have hother : m.isSystem = false := Bool.eq_false_iff.mpr hsystem
      have hpair : List.Sublist [.message m p, .message m' q]
          (otherPieces config conversation) := by
        apply pair_sublist_of_sorted (otherPieces_sorted config conversation) Piece.before_asymm
        · exact mem_otherPieces config conversation hother hm
        · exact mem_otherPieces config conversation (hclass.symm.trans hother) hm'
        · exact hlt
      rw [layout_eq]
      refine hpair.trans ?_
      rw [List.append_assoc]
      exact (List.sublist_append_left _ _).trans (List.sublist_append_right _ _)

/-- Questions, answers and one rule, all within a window of four. -/
def ruledConversation : List Message :=
  [⟨"user", "a"⟩, ⟨"assistant", "b"⟩, ⟨"system", "c"⟩, ⟨"user", "d"⟩, ⟨"assistant", "e"⟩,
    ⟨"user", "f"⟩]

theorem keepsOrder_mixed :
    KeepsOrder { defaultConfig "m" with maxHistoryChat := 4 } ruledConversation ∧
      ¬KeepsOrder (defaultConfig "m") mixedConversation := by
  constructor
  · exact (keepsOrder_iff { defaultConfig "m" with maxHistoryChat := 4 }
      (conversation_toJson ruledConversation)).2.mpr (by decide)
  · intro horder
    have hcount := (keepsOrder_iff (defaultConfig "m")
      (conversation_toJson mixedConversation)).2.mp horder
    exact absurd hcount (by decide)

/-- Of two system messages the second comes first. -/
theorem systemMessages_reversed :
    ¬∀ (config : Config) (conversation : List Message), KeepsOrder config conversation := by
  intro hclaim
  have hpieces : systemPieces (defaultConfig "m") [⟨"system", "a"⟩, ⟨"system", "b"⟩] =
      [.message ⟨"system", "a"⟩ 0, .message ⟨"system", "b"⟩ 1] := rfl
  exact not_keepsOrder hpieces (hclaim _ _)

end CortexOnnx

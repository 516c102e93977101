import CortexOnnx.PromptLayout

/-!
# What the history window keeps

A user's or assistant's message is in the prompt when its position is beyond a bound that is
computed from the length of the whole list, system messages included.  The bound is a 32-bit `int`
and wraps around for large settings.
-/

namespace CortexOnnx

/-! ## Messages in the prompt -/

/-- A conversation is read in one way only. -/
theorem conversation_unique {messages : Json} {conversation conversation' : List Message}
    (h : Conversation messages conversation) (h' : Conversation messages conversation') :
    conversation = conversation' := by
  unfold Conversation at h h'
  generalize messages.elements = values at h h'
  induction h generalizing conversation' with
  | nil =>
    cases h'
    rfl
  | @cons value message values conversation hreads _ ih =>
    cases h' with
    | @cons _ message' _ _ hreads' h' =>
      have hrole : message.role = message'.role :=
        Except.ok.inj (hreads.1.symm.trans hreads'.1)
      have hcontent : message.content = message'.content :=
        Except.ok.inj (hreads.2.symm.trans hreads'.2)
      have hmessage : message = message' := by
        cases message
        cases message'
        simp_all
      rw [hmessage, ih h']

/-- The prompt that is formatted for `messages` has a segment for the message at position `p`. -/
def Includes (config : Config) (messages : Json) (message : Message) (p : Nat) : Prop :=
  ∃ conversation, Conversation messages conversation ∧
    formatPrompt config messages = .ok (textOf config (layout config conversation)) ∧
    .message message p ∈ layout config conversation

theorem includes_iff (config : Config) {messages : Json} {conversation : List Message}
    (h : Conversation messages conversation) {message : Message}
    (dialogue : message.isDialogue = true) (p : Nat) :
    Includes config messages message p ↔
      (message, p) ∈ conversation.zipIdx ∧
        remembers config.maxHistoryChat conversation.length p = true := by
  have hsystem := Message.not_system_of_dialogue dialogue
  have hmem : .message message p ∈ layout config conversation ↔
      .message message p ∈ otherPieces config conversation := by
    constructor
    · exact mem_otherPieces config conversation hsystem
    · intro hmem
      rw [layout_eq]
      simp [hmem]
  have hother : .message message p ∈ otherPieces config conversation ↔
      (message, p) ∈ conversation.zipIdx ∧
        remembers config.maxHistoryChat conversation.length p = true := by
    unfold otherPieces backs
    rw [List.mem_filterMap]
    constructor
    · rintro ⟨entry, hentry, hplace⟩
      have hpiece := (back_of_placement hplace).1
      cases hpiece
      rw [placement_back?] at hplace
      refine ⟨hentry, ?_⟩
      by_contra hout
      simp [dialogue, hout] at hplace
    · rintro ⟨hentry, hinside⟩
      exact ⟨_, hentry, by simp [placement_back?, hsystem, hinside]⟩
  constructor
  · rintro ⟨conversation', h', _, hlayout⟩
    cases conversation_unique h h'
    exact hother.mp (hmem.mp hlayout)
  · intro hentry
    exact ⟨conversation, h, formatPrompt_eq config h, hmem.mpr (hother.mpr hentry)⟩

/-! ## A larger setting -/

/-- What is in the prompt of this list under the setting `maxHistoryChat` is in its prompt under
`larger` as well. -/
def RemembersMore (config : Config) (messages : Json) (maxHistoryChat larger : Int) : Prop :=
  ∀ message p, message.isDialogue = true →
    Includes { config with maxHistoryChat } messages message p →
    Includes { config with maxHistoryChat := larger } messages message p

/-- No user's or assistant's message stands beyond the one bound and not beyond the other. -/
def NoneBetween (messages : Json) (maxHistoryChat larger : Int) : Prop :=
  ∀ conversation, Conversation messages conversation →
    ∀ entry ∈ conversation.zipIdx, entry.1.isDialogue = true →
      ¬(windowBound maxHistoryChat conversation.length < entry.2 ∧
        entry.2 ≤ windowBound larger conversation.length)

theorem remembers_position {maxHistoryChat : Int} {size p : Nat} (hsize : size ≤ 2 ^ 31)
    (hp : p < size) :
    remembers maxHistoryChat size p = true ↔ windowBound maxHistoryChat size < p := by
  unfold remembers
  rw [toInt32_position hsize hp]
  exact decide_eq_true_iff

/-- A message of a list is in its prompt when it is beyond the bound. -/
theorem includes_iff_bound (config : Config) {messages : Json} {conversation : List Message}
    (h : Conversation messages conversation) (hsize : messages.elements.length < 2 ^ 31)
    {message : Message} {p : Nat} (hentry : (message, p) ∈ conversation.zipIdx)
    (dialogue : message.isDialogue = true) :
    Includes config messages message p ↔
      windowBound config.maxHistoryChat conversation.length < p := by
  have hlength : messages.elements.length = conversation.length := List.Forall₂.length_eq h
  have hp : p < conversation.length := List.snd_lt_of_mem_zipIdx hentry
  rw [includes_iff config h dialogue, remembers_position (by omega) hp]
  exact and_iff_right hentry

section Bounds

variable {config : Config} {messages : Json} (hsize : messages.elements.length < 2 ^ 31)
  {maxHistoryChat larger : Int}
include hsize

/-- A message between the bounds is lost. -/
theorem noneBetween_of_remembersMore
    (hmore : RemembersMore config messages maxHistoryChat larger) :
    NoneBetween messages maxHistoryChat larger := by
  intro conversation hread entry hentry dialogue
  rintro ⟨hin, hout⟩
  have hbefore : Includes { config with maxHistoryChat } messages entry.1 entry.2 :=
    (includes_iff_bound _ hread hsize hentry dialogue).mpr hin
  have hafter : windowBound larger conversation.length < entry.2 :=
    (includes_iff_bound { config with maxHistoryChat := larger } hread hsize hentry dialogue).mp
      (hmore _ _ dialogue hbefore)
  omega

/-- Every other message that is beyond the one bound is beyond the other. -/
theorem remembersMore_of_noneBetween (hnone : NoneBetween messages maxHistoryChat larger) :
    RemembersMore config messages maxHistoryChat larger := by
  intro message p dialogue hincluded
  obtain ⟨conversation, hread, _⟩ := id hincluded
  have hentry := ((includes_iff _ hread dialogue p).mp hincluded).1
  have hin : windowBound maxHistoryChat conversation.length < p :=
    (includes_iff_bound { config with maxHistoryChat } hread hsize hentry dialogue).mp hincluded
  have hbeyond : windowBound larger conversation.length < p :=
    Int.not_le.mp fun hout => hnone conversation hread _ hentry dialogue ⟨hin, hout⟩
  exact (includes_iff_bound { config with maxHistoryChat := larger } hread hsize hentry
    dialogue).mpr hbeyond

end Bounds

/-- **Monotonicity.**  Of a list, a larger setting remembers no less exactly when no user's or
assistant's message stands between the bounds of the two settings, as 32-bit `int`s. -/
theorem remembersMore_iff (config : Config) {messages : Json}
    (hsize : messages.elements.length < 2 ^ 31) (maxHistoryChat larger : Int) :
    RemembersMore config messages maxHistoryChat larger ↔
      NoneBetween messages maxHistoryChat larger :=
  ⟨noneBetween_of_remembersMore hsize, remembersMore_of_noneBetween hsize⟩

/-- A list of empty questions. -/
def questions (size : Nat) : List Message := List.replicate size ⟨"user", ""⟩

/-- The list of a request. -/
def messagesOf (conversation : List Message) : Json := .arr (conversation.map Message.toJson)

theorem length_messagesOf (conversation : List Message) :
    (messagesOf conversation).elements.length = conversation.length :=
  List.Forall₂.length_eq (conversation_toJson conversation)

theorem noneBetween_messagesOf {conversation : List Message} {maxHistoryChat larger : Int} :
    NoneBetween (messagesOf conversation) maxHistoryChat larger ↔
      ∀ entry ∈ conversation.zipIdx, entry.1.isDialogue = true →
        ¬(windowBound maxHistoryChat conversation.length < entry.2 ∧
          entry.2 ≤ windowBound larger conversation.length) := by
  constructor
  · exact fun hnone => hnone conversation (conversation_toJson conversation)
  · intro hnone conversation' hread
    cases conversation_unique (conversation_toJson conversation) hread
    exact hnone

/-- A system message between the bounds is no loss. -/
theorem remembersMore_of_system :
    RemembersMore (defaultConfig "m") (messagesOf [⟨"system", "a"⟩]) 1 (2 ^ 30 + 1) :=
  (remembersMore_iff (defaultConfig "m") (by decide) 1 (2 ^ 30 + 1)).mpr
    (noneBetween_messagesOf.mpr (by decide))

/-- Where neither bound wraps around, a larger setting never remembers less. -/
theorem remembersMore_of_exact (config : Config) {messages : Json} {maxHistoryChat larger : Int}
    (exact : WindowExact maxHistoryChat messages.elements.length)
    (exact' : WindowExact larger messages.elements.length) (hle : maxHistoryChat ≤ larger) :
    RemembersMore config messages maxHistoryChat larger := by
  have hsize : messages.elements.length < 2 ^ 31 := by
    have hmax := exact.counted
    unfold Json.maxInt at hmax
    omega
  apply remembersMore_of_noneBetween hsize
  intro conversation hread entry _ _
  have hlength : messages.elements.length = conversation.length := List.Forall₂.length_eq hread
  rw [hlength] at exact exact'
  unfold windowBound
  rw [toInt32_of_fits exact.low exact.high, toInt32_of_fits exact'.low exact'.high]
  omega

/-- Of all lists of a size at once: the larger bound is no higher, it is negative, or the smaller
setting keeps nothing. -/
theorem remembersMore_all_iff (config : Config) {size : Nat} (hsize : size < 2 ^ 31)
    (maxHistoryChat larger : Int) :
    (∀ messages : Json, messages.elements.length = size →
        RemembersMore config messages maxHistoryChat larger) ↔
      windowBound larger size ≤ windowBound maxHistoryChat size ∨
        windowBound larger size < 0 ∨ size ≤ windowBound maxHistoryChat size + 1 ∨ size = 0 := by
  constructor
  · intro hall
    by_contra hnot
    -- the first position that the smaller setting keeps
    let p := (windowBound maxHistoryChat size + 1).toNat
    have hp : p < size := by omega
    have hlength : (questions size).length = size := List.length_replicate
    have hmore := hall (messagesOf (questions size)) ((length_messagesOf _).trans hlength)
    have hcounted : (messagesOf (questions size)).elements.length < 2 ^ 31 := by
      rw [length_messagesOf, hlength]
      exact hsize
    have hnone := noneBetween_messagesOf.mp (noneBetween_of_remembersMore hcounted hmore)
    have hentry : ((⟨"user", ""⟩ : Message), p) ∈ (questions size).zipIdx := by
      rw [List.mem_zipIdx_iff_getElem?]
      simp [questions, hp]
    rw [hlength] at hnone
    exact hnone _ hentry rfl ⟨by omega, by omega⟩
  · intro hbounds messages helements
    apply remembersMore_of_noneBetween (by omega)
    intro conversation hread entry hentry _
    have hlength : conversation.length = size := by
      rw [← helements, List.Forall₂.length_eq hread]
    have hp : entry.2 < size := by
      rw [← hlength]
      exact List.snd_lt_of_mem_zipIdx hentry
    rw [hlength]
    omega

/-- With the largest settings the doubling wraps around, and one question is lost. -/
theorem remembersMore_wraps :
    ¬∀ (config : Config) (messages : Json) (maxHistoryChat larger : Int),
      messages.elements.length < 2 ^ 31 → Json.minInt ≤ maxHistoryChat →
        maxHistoryChat ≤ larger → larger ≤ Json.maxInt →
          RemembersMore config messages maxHistoryChat larger := by
  intro hclaim
  have hmore := hclaim (defaultConfig "m") (messagesOf (questions 1)) 1 (2 ^ 30 + 1) (by decide)
    (by decide) (by decide) (by decide)
  have hbefore : Includes { defaultConfig "m" with maxHistoryChat := 1 } (messagesOf (questions 1))
      ⟨"user", ""⟩ 0 :=
    (includes_iff_bound _ (conversation_toJson _) (by decide) (by decide) rfl).mpr (by decide)
  have hafter := (includes_iff_bound { defaultConfig "m" with maxHistoryChat := 2 ^ 30 + 1 }
    (conversation_toJson _) (by decide) (by decide) rfl).mp (hmore _ 0 rfl hbefore)
  exact absurd hafter (by decide)

/-! ## System messages in between -/

def Piece.dialogue? : Piece → Option Message
  | message m _ => if m.isDialogue then some m else none
  | prePrompt | aiPrompt => none

/-- The user's and assistant's messages that are in the prompt. -/
def remembered (config : Config) (conversation : List Message) : List Message :=
  (layout config conversation).filterMap Piece.dialogue?

/-- The user's and assistant's messages with fewer than `width` messages from themselves on. -/
def keptWithin (width : Int) : List Message → List Message
  | [] => []
  | message :: rest =>
      if message.isDialogue ∧ (rest.length + 1 : Int) < width then message :: keptWithin width rest
      else keptWithin width rest

section Kept

variable {width : Int} {message : Message} {rest : List Message}

theorem keptWithin_of_kept (dialogue : message.isDialogue = true)
    (inside : (rest.length + 1 : Int) < width) :
    keptWithin width (message :: rest) = message :: keptWithin width rest :=
  if_pos ⟨dialogue, inside⟩

theorem keptWithin_of_other (h : ¬message.isDialogue = true) :
    keptWithin width (message :: rest) = keptWithin width rest :=
  if_neg fun kept => h kept.1

theorem keptWithin_of_outside (h : ¬(rest.length + 1 : Int) < width) :
    keptWithin width (message :: rest) = keptWithin width rest :=
  if_neg fun kept => h kept.2

end Kept

theorem keptWithin_eq {config : Config} {size : Nat}
    (exact : WindowExact config.maxHistoryChat size) (conversation : List Message) (p : Nat)
    (hsize : p + conversation.length = size) :
    ((conversation.zipIdx p).filterMap fun entry => (placement config size entry).back?).filterMap
        Piece.dialogue? =
      keptWithin (2 * config.maxHistoryChat) conversation := by
  induction conversation generalizing p with
  | nil => rfl
  | cons message rest ih =>
    rw [List.length_cons] at hsize
    have hrest := ih (p + 1) (by omega)
    rw [List.zipIdx_cons, List.filterMap_cons, placement_back?]
    have hwindow : remembers config.maxHistoryChat size p = true ↔
        (rest.length + 1 : Int) < 2 * config.maxHistoryChat := by
      rw [exact.remembers_iff (by omega)]
      omega
    by_cases hdialogue : message.isDialogue = true
    · have hsystem := Message.not_system_of_dialogue hdialogue
      by_cases hinside : (rest.length + 1 : Int) < 2 * config.maxHistoryChat
      · rw [keptWithin_of_kept hdialogue hinside]
        simp [hsystem, hwindow.mpr hinside, Piece.dialogue?, hdialogue, hrest]
      · rw [keptWithin_of_outside hinside]
        simp [hdialogue, mt hwindow.mp hinside, hrest]
    -- whatever becomes of the others, none of them counts
    · rw [keptWithin_of_other hdialogue]
      by_cases hsystem : message.isSystem = true
      · simp [hsystem, hrest]
      · simp [hsystem, hdialogue, Piece.dialogue?, hrest]

/-- What the window keeps, without positions. -/
theorem remembered_eq {config : Config} {conversation : List Message}
    (exact : WindowExact config.maxHistoryChat conversation.length) :
    remembered config conversation = keptWithin (2 * config.maxHistoryChat) conversation := by
  have hfront : (systemPieces config conversation).reverse.filterMap Piece.dialogue? = [] := by
    apply List.filterMap_eq_nil_iff.mpr
    intro piece hmem
    have hsystem := isSystem_of_systemPieces config conversation (List.mem_reverse.mp hmem)
    cases piece with
    | prePrompt | aiPrompt => rfl
    | message m p =>
      apply if_neg
      intro hdialogue
      exact absurd (Eq.trans (Message.not_system_of_dialogue hdialogue).symm hsystem) (by decide)
  have hback : (otherPieces config conversation).filterMap Piece.dialogue? =
      keptWithin (2 * config.maxHistoryChat) conversation :=
    keptWithin_eq exact conversation 0 (Nat.zero_add _)
  have hfirst : [Piece.prePrompt].filterMap Piece.dialogue? = [] := rfl
  have hlast : [Piece.aiPrompt].filterMap Piece.dialogue? = [] := rfl
  unfold remembered
  rw [layout_eq, List.filterMap_append, List.filterMap_append, List.filterMap_append, hfront, hback,
    hfirst, hlast, List.nil_append, List.append_nil, List.nil_append]

/-- A message, marked when it was inserted. -/
abbrev Marked := Bool × Message

/-- The messages that were there before the insertion. -/
def sent (marked : List Marked) : List Message :=
  (marked.filter fun entry => !entry.1).map Prod.snd

def withInserted (marked : List Marked) : List Message := marked.map Prod.snd

/-- Every user's or assistant's message that was inside a window of `width` still is when the
inserted messages after it are counted as well. -/
def NoneDisplaced (width : Int) (marked : List Marked) : Prop :=
  ∀ message rest, (false, message) :: rest <:+ marked → message.isDialogue = true →
    ((sent rest).length + 1 : Int) < width → (rest.length + 1 : Int) < width

theorem sent_cons (entry : Marked) (rest : List Marked) :
    sent (entry :: rest) = if entry.1 then sent rest else entry.2 :: sent rest := by
  unfold sent
  cases hmark : entry.1 <;> simp [hmark]

theorem length_sent_le (marked : List Marked) : (sent marked).length ≤ marked.length := by
  unfold sent
  rw [List.length_map]
  exact List.length_filter_le _ _

theorem noneDisplaced_cons {width : Int} {entry : Marked} {rest : List Marked} :
    NoneDisplaced width (entry :: rest) ↔
      (entry.1 = false → entry.2.isDialogue = true → ((sent rest).length + 1 : Int) < width →
        (rest.length + 1 : Int) < width) ∧ NoneDisplaced width rest := by
  unfold NoneDisplaced
  constructor
  · intro h
    refine ⟨fun hmark => ?_, fun message rest' hsuffix => ?_⟩
    · obtain ⟨mark, message⟩ := entry
      change mark = false at hmark
      subst hmark
      exact h message rest (List.suffix_refl _)
    · exact h message rest' (hsuffix.trans (List.suffix_cons _ _))
  · rintro ⟨hhead, hrest⟩ message rest' hsuffix
    rcases List.suffix_cons_iff.mp hsuffix with heq | hsuffix
    · cases heq
      exact hhead rfl
    · exact hrest message rest' hsuffix

theorem sent_unmarked (original : List Message) : sent (original.map (false, ·)) = original := by
  induction original with
  | nil => rfl
  | cons message original ih =>
    rw [List.map_cons, sent_cons, if_neg Bool.false_ne_true, ih]

/-- In front of all other messages nothing is displaced. -/
theorem noneDisplaced_of_leading (width : Int) (inserted original : List Message) :
    NoneDisplaced width (inserted.map (true, ·) ++ original.map (false, ·)) := by
  induction inserted with
  | cons message inserted ih => exact noneDisplaced_cons.mpr ⟨fun hfalse => (by cases hfalse), ih⟩
  | nil =>
    induction original with
    | nil =>
      intro message rest hsuffix
      exact absurd (List.suffix_nil.mp hsuffix) (List.cons_ne_nil _ _)
    | cons message original ih =>
      refine noneDisplaced_cons.mpr ⟨fun _ _ hbefore => ?_, ih⟩
      rw [sent_unmarked] at hbefore
      simpa using hbefore

/-- Inserted messages can only push others out of a window. -/
theorem keptWithin_inserted (width : Int) {marked : List Marked}
    (systems : ∀ entry ∈ marked, entry.1 = true → entry.2.isSystem = true) :
    List.Sublist (keptWithin width (withInserted marked)) (keptWithin width (sent marked)) ∧
      (keptWithin width (sent marked) = keptWithin width (withInserted marked) ↔
        NoneDisplaced width marked) := by
  induction marked with
  | nil =>
    refine ⟨List.Sublist.refl _, iff_of_true rfl ?_⟩
    intro message rest hsuffix
    exact absurd (List.suffix_nil.mp hsuffix) (List.cons_ne_nil _ _)
  | cons entry rest ih =>
    obtain ⟨hsub, hiff⟩ := ih fun e he => systems e (List.mem_cons_of_mem _ he)
    have hlength : (withInserted rest).length = rest.length := List.length_map _
    have hfewer := length_sent_le rest
    have hwith : withInserted (entry :: rest) = entry.2 :: withInserted rest := rfl
    rw [noneDisplaced_cons, hwith, sent_cons]
    cases hmark : entry.1 with
    | true =>
      have hsystem := systems entry List.mem_cons_self hmark
      have hother : ¬entry.2.isDialogue = true := by
        intro hdialogue
        exact absurd ((Message.not_system_of_dialogue hdialogue).symm.trans hsystem) (by decide)
      rw [keptWithin_of_other hother, if_pos rfl]
      refine ⟨hsub, hiff.trans ⟨fun h => ⟨fun hfalse => ?_, h⟩, fun h => h.2⟩⟩
      cases hfalse
    | false =>
      rw [if_neg (by decide)]
      by_cases hdialogue : entry.2.isDialogue = true
      case neg =>
        rw [keptWithin_of_other hdialogue, keptWithin_of_other hdialogue]
        refine ⟨hsub, hiff.trans ⟨fun h => ⟨fun _ hdialogue' => ?_, h⟩, fun h => h.2⟩⟩
        exact absurd hdialogue' hdialogue
      by_cases hinside : ((withInserted rest).length + 1 : Int) < width
      -- inside with the inserted messages, and so without them
      · rw [keptWithin_of_kept hdialogue hinside,
          keptWithin_of_kept hdialogue (by omega : ((sent rest).length + 1 : Int) < width)]
        refine ⟨hsub.cons_cons _, ?_⟩
        rw [List.cons_inj_right, hiff]
        exact ⟨fun h => ⟨fun _ _ _ => by omega, h⟩, fun h => h.2⟩
      rw [keptWithin_of_outside hinside]
      by_cases hbefore : ((sent rest).length + 1 : Int) < width
      -- the message that is pushed out
      · rw [keptWithin_of_kept hdialogue hbefore]
        refine ⟨hsub.cons _, iff_of_false ?_ ?_⟩
        · intro heq
          have hle := hsub.length_le
          rw [← heq, List.length_cons] at hle
          omega
        · intro hnone
          have hafter := hnone.1 rfl hdialogue hbefore
          omega
      · rw [keptWithin_of_outside hbefore]
        refine ⟨hsub, hiff.trans ⟨fun h => ⟨fun _ _ hbefore' => ?_, h⟩, fun h => h.2⟩⟩
        exact absurd hbefore' hbefore

/-- **System messages and the window.**  Inserted system messages leave the remembered messages
alone exactly when none of these has too many of them behind it. -/
theorem remembered_inserted_iff (config : Config) {marked : List Marked} {messages messages' : Json}
    (systems : ∀ entry ∈ marked, entry.1 = true → entry.2.isSystem = true)
    (before : Conversation messages (sent marked))
    (after : Conversation messages' (withInserted marked))
    (exact : WindowExact config.maxHistoryChat (sent marked).length)
    (exact' : WindowExact config.maxHistoryChat (withInserted marked).length) :
    formatPrompt config messages = .ok (textOf config (layout config (sent marked))) ∧
      formatPrompt config messages' = .ok (textOf config (layout config (withInserted marked))) ∧
      (remembered config (sent marked) = remembered config (withInserted marked) ↔
        NoneDisplaced (2 * config.maxHistoryChat) marked) := by
  refine ⟨formatPrompt_eq config before, formatPrompt_eq config after, ?_⟩
  rw [remembered_eq exact, remembered_eq exact']
  exact (keptWithin_inserted _ systems).2

def threeQuestions : List Message := [⟨"user", "a"⟩, ⟨"user", "b"⟩, ⟨"user", "c"⟩]

/-- The usual place of a system message. -/
def leadingSystem : List Marked :=
  [⟨"system", "d"⟩].map (true, ·) ++ threeQuestions.map (false, ·)

theorem remembered_leadingSystem :
    remembered (defaultConfig "m") (sent leadingSystem) =
      remembered (defaultConfig "m") (withInserted leadingSystem) := by
  have hsystems : ∀ entry ∈ leadingSystem, entry.1 = true → entry.2.isSystem = true := by decide
  have hiff := remembered_inserted_iff (defaultConfig "m") hsystems (conversation_toJson _)
    (conversation_toJson _) ⟨by decide, by decide, by decide⟩
    ⟨by decide, by decide, by decide⟩
  exact hiff.2.2.mpr (noneDisplaced_of_leading _ _ _)

/-- A system message at the end takes the place of the first question. -/
theorem trailingSystem_displaces :
    ¬∀ (config : Config) (marked : List Marked),
      (∀ entry ∈ marked, entry.1 = true → entry.2.isSystem = true) →
      WindowExact config.maxHistoryChat (sent marked).length →
      WindowExact config.maxHistoryChat (withInserted marked).length →
        remembered config (sent marked) = remembered config (withInserted marked) := by
  intro hclaim
  have hsame := hclaim (defaultConfig "m")
    (threeQuestions.map (false, ·) ++ [⟨"system", "d"⟩].map (true, ·)) (by decide)
    ⟨by decide, by decide, by decide⟩ ⟨by decide, by decide, by decide⟩
  exact absurd hsame (by decide)

end CortexOnnx

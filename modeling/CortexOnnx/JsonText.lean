import Mathlib.Data.List.Basic
import CortexOnnx.Json
import CortexOnnx.Lib.StringLiteral

/-!
# Compact JSON text

What `Json::writeString` emits with an empty indentation, for values without doubles, and a reader
of such texts.  The reader takes back every value without doubles.
-/

namespace CortexOnnx.Json

mutual

def text : Json → List Char
  | null => "null".toList
  | bool b => (if b then "true" else "false").toList
  | int i => (toString i).toList
  | real d => d.text.toList
  | str s => StringLiteral.quote s.toList
  | arr elems => '[' :: (textElems elems ++ [']'])
  | obj members => '\x7b' :: (textMembers members ++ ['\x7d'])

def textElems : List Json → List Char
  | [] => []
  | [elem] => text elem
  | elem :: elems => text elem ++ ',' :: textElems elems

def textMembers : List (String × Json) → List Char
  | [] => []
  | [(key, value)] => StringLiteral.quote key.toList ++ ':' :: text value
  | (key, value) :: members =>
      StringLiteral.quote key.toList ++ ':' :: (text value ++ ',' :: textMembers members)

end

theorem textElems_cons (elem next : Json) (elems : List Json) :
    textElems (elem :: next :: elems) = text elem ++ ',' :: textElems (next :: elems) := by
  rw [textElems]
  simp

theorem textMembers_cons (key : String) (value : Json) (next : String × Json)
    (members : List (String × Json)) : textMembers ((key, value) :: next :: members) =
      StringLiteral.quote key.toList ++
        ':' :: (text value ++ ',' :: textMembers (next :: members)) := by
  rw [textMembers]
  simp

/-- The compact text as a string. -/
def compact (json : Json) : String := String.ofList json.text

/-! ## Reading -/

def readNat (input : List Char) : Option (Nat × List Char) :=
  let digits := input.takeWhile Char.isDigit
  if digits.isEmpty then none
  else some (Nat.ofDigitChars 10 digits 0, input.dropWhile Char.isDigit)

def readInteger : List Char → Option (Int × List Char)
  | '-' :: rest => (readNat rest).map fun (n, rest) => (-(n : Int), rest)
  | input => (readNat input).map fun (n, rest) => ((n : Int), rest)

/-- A literal after its first quote. -/
def readQuoted (input : List Char) : Option (String × List Char) :=
  (StringLiteral.readBody (input.length + 1) input).map fun (s, rest) => (String.ofList s, rest)

mutual

/-- The fuel bounds the depth and the number of elements. -/
def readValue : Nat → List Char → Option (Json × List Char)
  | 0, _ => none
  | _ + 1, [] => none
  | fuel + 1, c :: rest =>
      if c = 'n' then (rest.dropPrefix? "ull".toList).map fun rest => (null, rest)
      else if c = 't' then (rest.dropPrefix? "rue".toList).map fun rest => (bool true, rest)
      else if c = 'f' then (rest.dropPrefix? "alse".toList).map fun rest => (bool false, rest)
      else if c = '"' then (readQuoted rest).map fun (s, rest) => (str s, rest)
      else if c = '[' then
        if rest.head? = some ']' then some (arr [], rest.tail)
        else (readElems fuel rest).map fun (elems, rest) => (arr elems, rest)
      else if c = '\x7b' then
        if rest.head? = some '\x7d' then some (obj [], rest.tail)
        else (readMembers fuel rest).map fun (members, rest) => (obj members, rest)
      else (readInteger (c :: rest)).map fun (i, rest) => (int i, rest)

def readElems : Nat → List Char → Option (List Json × List Char)
  | 0, _ => none
  | fuel + 1, input => do
      let (elem, rest) ← readValue fuel input
      match rest with
      | ',' :: rest => do
          let (elems, rest) ← readElems fuel rest
          return (elem :: elems, rest)
      | ']' :: rest => return ([elem], rest)
      | _ => none

def readMembers : Nat → List Char → Option (List (String × Json) × List Char)
  | 0, _ => none
  | fuel + 1, input => do
      let (key, rest) ← readQuoted (← input.dropPrefix? ['"'])
      let (value, rest) ← readValue fuel (← rest.dropPrefix? [':'])
      match rest with
      | ',' :: rest => do
          let (members, rest) ← readMembers fuel rest
          return ((key, value) :: members, rest)
      | '\x7d' :: rest => return ([(key, value)], rest)
      | _ => none

end

/-- A whole text. -/
def parse (s : String) : Option Json :=
  match readValue (s.toList.length + 1) s.toList with
  | some (json, []) => some json
  | _ => none

/-! ## The round trip -/

mutual

/-- No doubles. -/
def exact : Json → Bool
  | real _ => false
  | arr elems => exactElems elems
  | obj members => exactMembers members
  | _ => true

def exactElems : List Json → Bool
  | [] => true
  | elem :: elems => exact elem && exactElems elems

def exactMembers : List (String × Json) → Bool
  | [] => true
  | (_, value) :: members => exact value && exactMembers members

end

/-- What may follow a number. -/
def EndsNumber (rest : List Char) : Prop := ∀ c ∈ rest.head?, c.isDigit = false

theorem readNat_digits (n : Nat) {rest : List Char} (h : EndsNumber rest) :
    readNat (Nat.toDigits 10 n ++ rest) = some (n, rest) := by
  have hdigits : ∀ c ∈ Nat.toDigits 10 n, c.isDigit = true := fun c hc =>
    Nat.isDigit_of_mem_toDigits (by decide) (by decide) hc
  have hstops : rest.takeWhile Char.isDigit = [] ∧ rest.dropWhile Char.isDigit = rest := by
    cases rest with
    | nil => exact ⟨rfl, rfl⟩
    | cons c rest =>
      have hc : c.isDigit = false := h c rfl
      simp [hc]
  rw [readNat, List.takeWhile_append_of_pos hdigits, List.dropWhile_append_of_pos hdigits, hstops.1,
    hstops.2, List.append_nil, Nat.ofDigitChars_ten_toDigits]
  simp [Nat.toDigits_ne_nil]

theorem text_int (i : Int) : text (int i) =
    if i < 0 then '-' :: Nat.toDigits 10 i.natAbs else Nat.toDigits 10 i.natAbs := by
  cases i with
  | ofNat n =>
    have htext : text (int (Int.ofNat n)) = n.repr.toList := rfl
    rw [htext, Nat.toList_repr, if_neg (by simp)]
    rfl
  | negSucc n =>
    have htext : text (int (Int.negSucc n)) = ("-" ++ (n + 1).repr).toList := rfl
    rw [htext, String.toList_append, Nat.toList_repr, if_pos (Int.negSucc_lt_zero n)]
    rfl

theorem toDigits_head (n : Nat) :
    ∃ c tail, Nat.toDigits 10 n = c :: tail ∧ c.isDigit = true := by
  cases hdigits : Nat.toDigits 10 n with
  | nil => exact absurd hdigits Nat.toDigits_ne_nil
  | cons c tail =>
    have hmem : c ∈ Nat.toDigits 10 n := by
      rw [hdigits]
      exact List.mem_cons_self
    exact ⟨c, tail, rfl, Nat.isDigit_of_mem_toDigits (by decide) (by decide) hmem⟩

/-- The first character of a number. -/
theorem text_int_head (i : Int) :
    ∃ c tail, text (int i) = c :: tail ∧ (c = '-' ∨ c.isDigit = true) := by
  rw [text_int]
  split
  · exact ⟨_, _, rfl, Or.inl rfl⟩
  · obtain ⟨c, tail, hdigits, hdigit⟩ := toDigits_head i.natAbs
    exact ⟨c, tail, hdigits, Or.inr hdigit⟩

theorem readInteger_text (i : Int) {rest : List Char} (h : EndsNumber rest) :
    readInteger (text (int i) ++ rest) = some (i, rest) := by
  rw [text_int]
  split
  · rename_i hneg
    have hback : -(i.natAbs : Int) = i := by omega
    rw [List.cons_append, readInteger, readNat_digits _ h, Option.map_some]
    dsimp only
    rw [hback]
  · rename_i hpos
    have hread : readInteger (Nat.toDigits 10 i.natAbs ++ rest) =
        (readNat (Nat.toDigits 10 i.natAbs ++ rest)).map fun (n, rest) => ((n : Int), rest) := by
      obtain ⟨c, tail, hdigits, hdigit⟩ := toDigits_head i.natAbs
      rw [hdigits, List.cons_append, readInteger]
      -- a digit is not the minus sign
      intro _ hminus
      cases hminus
      exact absurd hdigit (by decide)
    have hback : (i.natAbs : Int) = i := by omega
    rw [hread, readNat_digits _ h, Option.map_some]
    dsimp only
    rw [hback]

theorem readQuoted_escape (s : String) (rest : List Char) :
    readQuoted (StringLiteral.escape s.toList ++ '"' :: rest) = some (s, rest) := by
  have hlength := StringLiteral.length_le_escape s.toList
  have hroom : s.toList.length < (StringLiteral.escape s.toList ++ '"' :: rest).length + 1 := by
    rw [List.length_append]
    omega
  rw [readQuoted, StringLiteral.readBody_escape _ _ hroom]
  simp

theorem endsNumber_cons {c : Char} {rest : List Char} (h : c.isDigit = false) :
    EndsNumber (c :: rest) := by
  intro d hd
  cases hd
  exact h

/-- No value starts like the end of an array. -/
theorem text_head (v : Json) (h : v.exact = true) : ∃ c tail, text v = c :: tail ∧ c ≠ ']' := by
  cases v with
  | null => exact ⟨_, _, rfl, by decide⟩
  | bool b => cases b <;> exact ⟨_, _, rfl, by decide⟩
  | int i =>
    obtain ⟨c, tail, htext, hhead⟩ := text_int_head i
    refine ⟨c, tail, htext, ?_⟩
    rintro rfl
    rcases hhead with hminus | hdigit
    · exact absurd hminus (by decide)
    · exact absurd hdigit (by decide)
  | real d => cases h
  | str s => exact ⟨_, _, by rw [text, StringLiteral.quote], by decide⟩
  | arr elems | obj members => exact ⟨_, _, by rw [text], by decide⟩

theorem text_elems_head (elem : Json) (elems : List Json) (h : exactElems (elem :: elems) = true) :
    ∃ c tail, textElems (elem :: elems) = c :: tail ∧ c ≠ ']' := by
  rw [exactElems, Bool.and_eq_true] at h
  obtain ⟨c, tail, htext, hclose⟩ := text_head elem h.1
  cases elems with
  | nil => exact ⟨c, tail, htext, hclose⟩
  | cons next elems => exact ⟨c, _, by rw [textElems_cons, htext, List.cons_append], hclose⟩

theorem text_members_head (member : String × Json) (members : List (String × Json)) :
    ∃ tail, textMembers (member :: members) = '"' :: tail := by
  cases members with
  | nil => exact ⟨_, rfl⟩
  | cons next members => exact ⟨_, rfl⟩

/-- A number is none of the other values. -/
theorem readValue_int (i : Int) {rest : List Char} (h : EndsNumber rest) (fuel : Nat) :
    readValue (fuel + 1) (text (int i) ++ rest) = some (int i, rest) := by
  obtain ⟨c, tail, htext, hhead⟩ := text_int_head i
  have hread := readInteger_text i h
  rw [htext, List.cons_append] at hread ⊢
  -- its first character starts no other kind of value
  have hne : ∀ d : Char, d ≠ '-' → d.isDigit = false → c ≠ d := by
    intro d hminus hdigit hsame
    subst hsame
    rcases hhead with hhead | hhead
    · exact hminus hhead
    · rw [hdigit] at hhead
      cases hhead
  have hn := hne 'n' (by decide) (by decide)
  have ht := hne 't' (by decide) (by decide)
  have hf := hne 'f' (by decide) (by decide)
  have hquote := hne '"' (by decide) (by decide)
  have harr := hne '[' (by decide) (by decide)
  have hobj := hne '\x7b' (by decide) (by decide)
  simp only [readValue, if_neg hn, if_neg ht, if_neg hf, if_neg hquote, if_neg harr, if_neg hobj,
    hread, Option.map_some]

mutual

theorem readValue_text (v : Json) (rest : List Char) (fuel : Nat) (hexact : v.exact = true)
    (hends : EndsNumber rest) (hfuel : (text v).length ≤ fuel) :
    readValue fuel (text v ++ rest) = some (v, rest) := by
  obtain ⟨c, tail, htext, _⟩ := text_head v hexact
  obtain ⟨fuel, rfl⟩ : ∃ n, fuel = n + 1 := by
    rw [htext, List.length_cons] at hfuel
    exact ⟨fuel - 1, by omega⟩
  match v with
  -- on the value, with the fuel of its own text; what follows it is arbitrary but for a digit
  | null => simp [text, readValue, List.dropPrefix?]
  | bool true => simp [text, readValue, List.dropPrefix?]
  | bool false => simp [text, readValue, List.dropPrefix?]
  | int i => exact readValue_int i hends fuel
  | real d => cases hexact
  | str s =>
    have hread := readQuoted_escape s rest
    rw [text, StringLiteral.quote, List.cons_append, List.append_assoc]
    simp [readValue, hread]
  | arr [] => simp [text, textElems, readValue]
  | arr (elem :: elems) =>
    -- no element starts with `]`, so this is not read as the empty array
    obtain ⟨d, tail', htext', hclose⟩ := text_elems_head elem elems hexact
    have hlength : (textElems (elem :: elems)).length < fuel := by
      rw [text, List.length_cons, List.length_append, List.length_singleton] at hfuel
      omega
    have hread := readElems_text (elem :: elems) rest fuel (by simp) hexact hlength
    rw [text, List.cons_append, List.append_assoc, List.singleton_append]
    rw [htext', List.cons_append] at hread ⊢
    simp [readValue, hclose, hread]
  | obj [] => simp [text, textMembers, readValue]
  | obj (member :: members) =>
    have hlength : (textMembers (member :: members)).length < fuel := by
      rw [text, List.length_cons, List.length_append, List.length_singleton] at hfuel
      omega
    have hread := readMembers_text (member :: members) rest fuel (by simp) hexact hlength
    obtain ⟨tail', htext'⟩ := text_members_head member members
    rw [text, List.cons_append, List.append_assoc, List.singleton_append]
    rw [htext', List.cons_append] at hread ⊢
    simp [readValue, hread]

theorem readElems_text (elems : List Json) (rest : List Char) (fuel : Nat) (hne : elems ≠ [])
    (hexact : exactElems elems = true) (hfuel : (textElems elems).length < fuel) :
    readElems fuel (textElems elems ++ ']' :: rest) = some (elems, rest) := by
  obtain ⟨fuel, rfl⟩ : ∃ n, fuel = n + 1 := ⟨fuel - 1, by omega⟩
  match elems with
  | [] => exact absurd rfl hne
  | [elem] =>
    rw [textElems] at hfuel ⊢
    rw [exactElems, Bool.and_eq_true] at hexact
    have hread := readValue_text elem (']' :: rest) fuel hexact.1 (endsNumber_cons (by decide))
      (by omega)
    simp [readElems, hread]
  | elem :: next :: elems =>
    rw [textElems_cons] at hfuel ⊢
    rw [exactElems, Bool.and_eq_true] at hexact
    rw [List.length_append, List.length_cons] at hfuel
    have hread := readValue_text elem (',' :: (textElems (next :: elems) ++ ']' :: rest)) fuel
      hexact.1 (endsNumber_cons (by decide)) (by omega)
    have hmore := readElems_text (next :: elems) rest fuel (by simp) hexact.2 (by omega)
    rw [List.append_assoc, List.cons_append]
    simp [readElems, hread, hmore]

theorem readMembers_text (members : List (String × Json)) (rest : List Char) (fuel : Nat)
    (hne : members ≠ []) (hexact : exactMembers members = true)
    (hfuel : (textMembers members).length < fuel) :
    readMembers fuel (textMembers members ++ '\x7d' :: rest) = some (members, rest) := by
  obtain ⟨fuel, rfl⟩ : ∃ n, fuel = n + 1 := ⟨fuel - 1, by omega⟩
  match members with
  | [] => exact absurd rfl hne
  | [(key, value)] =>
    rw [textMembers] at hfuel ⊢
    rw [exactMembers, Bool.and_eq_true] at hexact
    rw [List.length_append, List.length_cons] at hfuel
    -- what follows the key is the value, and what follows the value closes the object
    have hkey := readQuoted_escape key (':' :: (text value ++ '\x7d' :: rest))
    have hread := readValue_text value ('\x7d' :: rest) fuel hexact.1
      (endsNumber_cons (by decide)) (by omega)
    simp [readMembers, StringLiteral.quote, List.dropPrefix?, hkey, hread]
  | (key, value) :: next :: members =>
    rw [textMembers_cons] at hfuel ⊢
    rw [exactMembers, Bool.and_eq_true] at hexact
    rw [List.length_append, List.length_cons, List.length_append, List.length_cons] at hfuel
    have hkey := readQuoted_escape key
      (':' :: (text value ++ ',' :: (textMembers (next :: members) ++ '\x7d' :: rest)))
    have hread := readValue_text value (',' :: (textMembers (next :: members) ++ '\x7d' :: rest))
      fuel hexact.1 (endsNumber_cons (by decide)) (by omega)
    have hmore := readMembers_text (next :: members) rest fuel (by simp) hexact.2 (by omega)
    simp [readMembers, StringLiteral.quote, List.dropPrefix?, hkey, hread, hmore]

end

/-- **Round trip.**  A value without doubles is read back from its compact text. -/
theorem parse_compact {v : Json} (h : v.exact = true) : parse v.compact = some v := by
  have hread := readValue_text v [] ((text v).length + 1) h (fun _ hc => by cases hc) (by omega)
  rw [List.append_nil] at hread
  rw [parse, compact, String.toList_ofList, hread]

/-! ## Compact texts are one line -/

open StringLiteral (Printable printable_nil printable_cons printable_append quote_printable)

theorem text_int_printable (i : Int) : Printable (text (int i)) := by
  have hdigits : Printable (Nat.toDigits 10 i.natAbs) := by
    intro c hc
    have hdigit : c.isDigit = true := Nat.isDigit_of_mem_toDigits (by decide) (by decide) hc
    have hlow : 48 ≤ c.toNat := (Char.isDigit_iff_toNat.mp hdigit).1
    omega
  rw [text_int]
  split
  · exact printable_cons.mpr ⟨by decide, hdigits⟩
  · exact hdigits

mutual

theorem text_printable (v : Json) (h : v.exact = true) : Printable (text v) := by
  match v with
  | null => simp [text]
  | bool true => simp [text]
  | bool false => simp [text]
  | int i => exact text_int_printable i
  | real d => cases h
  | str s =>
    rw [text]
    exact quote_printable _
  | arr elems =>
    rw [text, printable_cons, printable_append]
    exact ⟨by decide, textElems_printable elems h, by simp⟩
  | obj members =>
    rw [text, printable_cons, printable_append]
    exact ⟨by decide, textMembers_printable members h, by simp⟩

theorem textElems_printable (elems : List Json) (h : exactElems elems = true) :
    Printable (textElems elems) := by
  match elems with
  | [] => exact printable_nil
  | [elem] =>
    rw [exactElems, Bool.and_eq_true] at h
    rw [textElems]
    exact text_printable elem h.1
  | elem :: next :: elems =>
    rw [exactElems, Bool.and_eq_true] at h
    rw [textElems_cons, printable_append, printable_cons]
    exact ⟨text_printable elem h.1, by decide, textElems_printable (next :: elems) h.2⟩

theorem textMembers_printable (members : List (String × Json)) (h : exactMembers members = true) :
    Printable (textMembers members) := by
  match members with
  | [] => exact printable_nil
  | [(key, value)] =>
    rw [exactMembers, Bool.and_eq_true] at h
    rw [textMembers, printable_append, printable_cons]
    exact ⟨quote_printable _, by decide, text_printable value h.1⟩
  | (key, value) :: next :: members =>
    rw [exactMembers, Bool.and_eq_true] at h
    rw [textMembers_cons, printable_append, printable_cons, printable_append, printable_cons]
    exact ⟨quote_printable _, by decide, text_printable value h.1, by decide,
      textMembers_printable (next :: members) h.2⟩

end

/-- A compact text has no newline. -/
theorem newline_not_mem_compact {v : Json} (h : v.exact = true) : '\n' ∉ v.compact.toList := by
  rw [compact, String.toList_ofList]
  intro hmem
  exact absurd (text_printable v h _ hmem) (by decide)

end CortexOnnx.Json

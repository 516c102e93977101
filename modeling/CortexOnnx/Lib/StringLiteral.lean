/-!
# JSON string literals

The escaping of a string between quotes, as ASCII: control characters and everything outside ASCII
become `\u` units, a supplementary character two of them.
-/

namespace CortexOnnx.StringLiteral

def hexDigit (n : Nat) : Char := if n < 10 then Char.ofNat (48 + n) else Char.ofNat (87 + n)

/-- A 16-bit unit, in lower case. -/
def hex4 (n : Nat) : List Char :=
  [hexDigit (n / 4096 % 16), hexDigit (n / 256 % 16), hexDigit (n / 16 % 16), hexDigit (n % 16)]

def escapeUnit (n : Nat) : List Char := '\\' :: 'u' :: hex4 n

/-- The characters with an escape of their own, and its letter. -/
def shortEscapes : List (Char × Char) :=
  [('"', '"'), ('\\', '\\'), ('\x08', 'b'), ('\x0c', 'f'), ('\n', 'n'), ('\x0d', 'r'), ('\t', 't')]

def escapeChar (c : Char) : List Char :=
  match shortEscapes.lookup c with
  | some letter => ['\\', letter]
  | none =>
      if 0x20 ≤ c.toNat ∧ c.toNat ≤ 0x7F then [c]
      -- one unit, or the two of a surrogate pair
      else if c.toNat < 0x10000 then escapeUnit c.toNat
      else
        escapeUnit (0xD800 + (c.toNat - 0x10000) / 0x400) ++
          escapeUnit (0xDC00 + (c.toNat - 0x10000) % 0x400)

def escape (s : List Char) : List Char := s.flatMap escapeChar

/-- The literal, quotes included. -/
def quote (s : List Char) : List Char := '"' :: (escape s ++ ['"'])

/-! ## Reading a literal -/

def hexValue (c : Char) : Option Nat :=
  if '0' ≤ c ∧ c ≤ '9' then some (c.toNat - 48)
  else if 'a' ≤ c ∧ c ≤ 'f' then some (c.toNat - 87)
  else none

def readHex4 : List Char → Option (Nat × List Char)
  | c₀ :: c₁ :: c₂ :: c₃ :: rest => do
      let d₀ ← hexValue c₀
      let d₁ ← hexValue c₁
      let d₂ ← hexValue c₂
      let d₃ ← hexValue c₃
      return (((d₀ * 16 + d₁) * 16 + d₂) * 16 + d₃, rest)
  | _ => none

/-- The second unit of a supplementary character. -/
def readLowUnit (high : Nat) : List Char → Option (Char × List Char)
  | '\\' :: 'u' :: rest => do
      let (low, rest) ← readHex4 rest
      return (Char.ofNat (0x10000 + (high - 0xD800) * 0x400 + (low - 0xDC00)), rest)
  | _ => none

/-- One character of a literal, escaped or not. -/
def readChar : List Char → Option (Char × List Char)
  | '\\' :: 'u' :: rest => do
      let (unit, rest) ← readHex4 rest
      -- a high surrogate is only half a character
      if 0xD800 ≤ unit ∧ unit < 0xDC00 then readLowUnit unit rest
      else return (Char.ofNat unit, rest)
  | '\\' :: letter :: rest =>
      (shortEscapes.find? fun entry => entry.2 = letter).map fun entry => (entry.1, rest)
  | c :: rest => some (c, rest)
  | [] => none

/-- The characters up to the closing quote; the fuel bounds their number. -/
def readBody : Nat → List Char → Option (List Char × List Char)
  | 0, _ => none
  | _ + 1, '"' :: rest => some ([], rest)
  | fuel + 1, input => do
      let (c, rest) ← readChar input
      let (cs, rest) ← readBody fuel rest
      return (c :: cs, rest)

theorem hexValue_hexDigit {n : Nat} (h : n < 16) : hexValue (hexDigit n) = some n := by
  have hall : ∀ n < 16, hexValue (hexDigit n) = some n := by decide
  exact hall n h

theorem readHex4_hex4 {n : Nat} (h : n < 0x10000) (rest : List Char) :
    readHex4 (hex4 n ++ rest) = some (n, rest) := by
  have hdigit (m : Nat) : hexValue (hexDigit (m % 16)) = some (m % 16) :=
    hexValue_hexDigit (Nat.mod_lt m (by decide))
  have hsum : ((n / 4096 % 16 * 16 + n / 256 % 16) * 16 + n / 16 % 16) * 16 + n % 16 = n := by
    omega
  simp [hex4, readHex4, hdigit, hsum]

theorem readChar_escapeUnit {n : Nat} (h : n < 0x10000) (hunit : ¬(0xD800 ≤ n ∧ n < 0xDC00))
    (rest : List Char) : readChar (escapeUnit n ++ rest) = some (Char.ofNat n, rest) := by
  rw [escapeUnit, List.cons_append, List.cons_append, readChar, readHex4_hex4 h]
  simp [hunit]

/-- A supplementary character is the pair of units of `n + 0x10000`. -/
theorem readChar_surrogates {n : Nat} (h : n < 0x100000) (rest : List Char) :
    readChar (escapeUnit (0xD800 + n / 0x400) ++ (escapeUnit (0xDC00 + n % 0x400) ++ rest)) =
      some (Char.ofNat (0x10000 + n), rest) := by
  have hhigh : 0xD800 ≤ 0xD800 + n / 0x400 ∧ 0xD800 + n / 0x400 < 0xDC00 := by omega
  have hsum : 0x10000 + (0xD800 + n / 0x400 - 0xD800) * 0x400 + (0xDC00 + n % 0x400 - 0xDC00) =
      0x10000 + n := by omega
  rw [escapeUnit, List.cons_append, List.cons_append, readChar, readHex4_hex4 (by omega)]
  simp only [Option.bind_eq_bind, Option.bind_some, if_pos hhigh]
  rw [escapeUnit, List.cons_append, List.cons_append, readLowUnit, readHex4_hex4 (by omega)]
  simp only [Option.bind_eq_bind, Option.bind_some, hsum]
  rfl

theorem mem_shortEscapes {c letter : Char} (h : shortEscapes.lookup c = some letter) :
    (c, letter) ∈ shortEscapes := by
  obtain ⟨before, after, hsplit, _⟩ := List.lookup_eq_some_iff.mp h
  rw [hsplit]
  exact List.mem_append_right _ List.mem_cons_self

theorem readChar_short {c letter : Char} (h : shortEscapes.lookup c = some letter)
    (rest : List Char) : readChar ('\\' :: letter :: rest) = some (c, rest) := by
  have hall : ∀ entry ∈ shortEscapes,
      readChar ('\\' :: entry.2 :: rest) = some (entry.1, rest) := by
    intro entry hentry
    simp only [shortEscapes, List.mem_cons, List.not_mem_nil, or_false] at hentry
    rcases hentry with rfl | rfl | rfl | rfl | rfl | rfl | rfl <;> rfl
  exact hall _ (mem_shortEscapes h)

theorem readChar_plain {c : Char} (h : c ≠ '\\') (rest : List Char) :
    readChar (c :: rest) = some (c, rest) := by
  unfold readChar
  split
  · rename_i heq
    cases heq
    exact absurd rfl h
  · rename_i heq
    cases heq
    exact absurd rfl h
  · rename_i heq
    cases heq
    rfl
  · rename_i heq
    cases heq

/-- Every character is read back from what is written for it. -/
theorem readChar_escapeChar (c : Char) (rest : List Char) :
    readChar (escapeChar c ++ rest) = some (c, rest) := by
  unfold escapeChar
  cases hshort : shortEscapes.lookup c with
  | some letter => exact readChar_short hshort rest
  | none =>
    dsimp only
    split
    · have hplain : c ≠ '\\' := by
        intro hc
        subst hc
        revert hshort
        decide
      exact readChar_plain hplain rest
    -- a character is no surrogate, so the reader never waits for a second unit in vain
    · have hvalid : c.toNat < 0xD800 ∨ (0xDFFF < c.toNat ∧ c.toNat < 0x110000) := c.valid
      split
      · rw [readChar_escapeUnit (by omega) (by omega), Char.ofNat_toNat]
      · rw [List.append_assoc, readChar_surrogates (by omega)]
        have hsum : 0x10000 + (c.toNat - 0x10000) = c.toNat := by omega
        rw [hsum, Char.ofNat_toNat]

/-- The writing of a character never starts with a quote. -/
theorem escapeChar_head (c : Char) : ∃ head tail, escapeChar c = head :: tail ∧ head ≠ '"' := by
  unfold escapeChar
  cases hshort : shortEscapes.lookup c with
  | some letter => exact ⟨_, _, rfl, by decide⟩
  | none =>
    dsimp only
    split
    · refine ⟨_, _, rfl, ?_⟩
      intro hc
      subst hc
      revert hshort
      decide
    · split
      · exact ⟨_, _, rfl, by decide⟩
      · exact ⟨_, _, rfl, by decide⟩

theorem readBody_of_head {fuel : Nat} {head : Char} {tail : List Char} (h : head ≠ '"') :
    readBody (fuel + 1) (head :: tail) = (readChar (head :: tail)).bind fun (c, rest) =>
      (readBody fuel rest).map fun (cs, rest) => (c :: cs, rest) := by
  rw [readBody]
  · cases readChar (head :: tail) with
    | none => rfl
    | some read => cases hbody : readBody fuel read.2 <;> simp [hbody]
  · intro rest hquote
    cases hquote
    exact h rfl

theorem length_le_escape (s : List Char) : s.length ≤ (escape s).length := by
  induction s with
  | nil => exact Nat.le_refl _
  | cons c s ih =>
    obtain ⟨head, tail, hescape, _⟩ := escapeChar_head c
    rw [escape, List.flatMap_cons, ← escape, hescape, List.length_append, List.length_cons,
      List.length_cons]
    omega

/-- The round trip of a literal without its first quote. -/
theorem readBody_escape (s rest : List Char) {fuel : Nat} (h : s.length < fuel) :
    readBody fuel (escape s ++ '"' :: rest) = some (s, rest) := by
  induction s generalizing fuel with
  | nil =>
    obtain ⟨fuel, rfl⟩ : ∃ n, fuel = n + 1 := ⟨fuel - 1, by simp at h; omega⟩
    rfl
  | cons c s ih =>
    obtain ⟨fuel, rfl⟩ : ∃ n, fuel = n + 1 := ⟨fuel - 1, by omega⟩
    obtain ⟨head, tail, hescape, hquote⟩ := escapeChar_head c
    have hread := readChar_escapeChar c (escape s ++ '"' :: rest)
    rw [hescape, List.cons_append] at hread
    have hlength : s.length < fuel := by
      rw [List.length_cons] at h
      omega
    -- each character takes one unit of fuel, however long its escape is
    have hrest := ih hlength
    rw [escape, List.flatMap_cons, ← escape, hescape, List.append_assoc, List.cons_append,
      readBody_of_head hquote, hread, Option.bind_some]
    dsimp only
    rw [hrest]
    rfl

/-! ## What is written is one line -/

/-- No control character is written raw. -/
def Printable (s : List Char) : Prop := ∀ c ∈ s, 0x20 ≤ c.toNat

@[simp] theorem printable_nil : Printable [] := fun _ hc => absurd hc List.not_mem_nil

@[simp] theorem printable_cons {c : Char} {s : List Char} :
    Printable (c :: s) ↔ 0x20 ≤ c.toNat ∧ Printable s := List.forall_mem_cons

@[simp] theorem printable_append {s t : List Char} :
    Printable (s ++ t) ↔ Printable s ∧ Printable t := List.forall_mem_append

theorem hexDigit_printable {n : Nat} (h : n < 16) : 0x20 ≤ (hexDigit n).toNat := by
  have hall : ∀ n < 16, 0x20 ≤ (hexDigit n).toNat := by decide
  exact hall n h

theorem escapeUnit_printable (n : Nat) : Printable (escapeUnit n) := by
  have hdigit (m : Nat) : 0x20 ≤ (hexDigit (m % 16)).toNat :=
    hexDigit_printable (Nat.mod_lt m (by decide))
  simp [escapeUnit, hex4, hdigit]

theorem escapeChar_printable (c : Char) : Printable (escapeChar c) := by
  unfold escapeChar
  cases hshort : shortEscapes.lookup c with
  | some letter =>
    have hall : ∀ entry ∈ shortEscapes, 0x20 ≤ entry.2.toNat := by decide
    have hletter := hall _ (mem_shortEscapes hshort)
    exact printable_cons.mpr ⟨by decide, printable_cons.mpr ⟨hletter, printable_nil⟩⟩
  | none =>
    dsimp only
    split
    · rename_i hplain
      exact printable_cons.mpr ⟨hplain.1, printable_nil⟩
    · split
      · exact escapeUnit_printable _
      · exact printable_append.mpr ⟨escapeUnit_printable _, escapeUnit_printable _⟩

theorem quote_printable (s : List Char) : Printable (quote s) := by
  have hescape : Printable (escape s) := by
    intro d hd
    obtain ⟨c, _, hc⟩ := List.mem_flatMap.mp hd
    exact escapeChar_printable c d hc
  rw [quote, printable_cons, printable_append]
  exact ⟨by decide, hescape, by simp⟩

end CortexOnnx.StringLiteral

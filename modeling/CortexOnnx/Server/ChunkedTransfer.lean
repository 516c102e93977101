import Mathlib.Algebra.Order.Ring.Nat
import Mathlib.Data.List.Basic
import Mathlib.Data.List.Induction

/-!
# Chunked transfer coding

`write_content_chunked` of `httplib.h`, with the sink it hands to the content provider, and
`read_content_chunked`, which reads the result.  The reader recovers exactly what was written, and
it accepts a body exactly when no write failed.
-/

namespace CortexOnnx

abbrev Bytes := List UInt8

def crlf : Bytes := [13, 10]

/-! ## Writing -/

/-- `charset[n & 15]` -/
def hexCharset (n : Nat) : UInt8 :=
  ([48, 49, 50, 51, 52, 53, 54, 55, 56, 57, 97, 98, 99, 100, 101, 102] : Bytes).getD (n % 16) 0

def fromIToHexLoop : Nat → Nat → Bytes → Bytes
  | 0, _, ret => ret
  | fuel + 1, n, ret =>
      let ret := hexCharset n :: ret
      if n / 16 > 0 then fromIToHexLoop fuel (n / 16) ret else ret

/-- A `size_t` has at most 16 digits. -/
def fromIToHex (n : Nat) : Bytes := fromIToHexLoop 16 n []

/-- `write_data`: what is on the wire, and whether all of the data got there.  A fault is the number
of bytes that were still written. -/
def writeData (sent data : Bytes) : Option Nat → Bytes × Bool
  | none => (sent ++ data, true)
  | some k => if k < data.length then (sent ++ data.take k, false) else (sent ++ data, true)

/-- What the lambdas of `write_content_chunked` share, without a compressor. -/
structure ChunkSink where
  ok : Bool
  dataAvailable : Bool
  sent : Bytes
  deriving Repr, DecidableEq

namespace ChunkSink

def opened : ChunkSink := { ok := true, dataAvailable := true, sent := [] }

/-- One chunk with its header and footer. -/
def chunk (payload : Bytes) : Bytes := fromIToHex payload.length ++ crlf ++ payload ++ crlf

/-- `data_sink.write` -/
def write (sink : ChunkSink) (d : Bytes) (fault : Option Nat) : ChunkSink :=
  if sink.ok then
    let sink := { sink with dataAvailable := d.length > 0 }
    -- nothing is emitted for an empty payload, which would end the body
    if d.isEmpty then sink
    else
      let (sent, ok) := writeData sink.sent (chunk d) fault
      { sink with sent, ok }
  else sink

def doneMarker : Bytes := [48, 13, 10]

/-- `data_sink.done`, which has no trailer. -/
def done (sink : ChunkSink) (fault fault' : Option Nat) : ChunkSink :=
  if sink.ok then
    let (sent, ok) := writeData sink.sent doneMarker fault
    -- the last line is written even if the marker was not
    let (sent, ok') := writeData sent crlf fault'
    { ok := ok && ok', dataAvailable := false, sent }
  else sink

/-- What the loop of `write_content_chunked` does after a call of the provider that returned true:
it reports failure or success, or it calls the provider again. -/
def afterProvider (sink : ChunkSink) : Option Bool :=
  if !sink.ok then some false
  else if sink.dataAvailable then none
  else some true

/-- The writes of a provider, each with its fault, and then `done`. -/
def provide (writes : List (Bytes × Option Nat)) (fault fault' : Option Nat) : ChunkSink :=
  (writes.foldl (fun sink entry => sink.write entry.1 entry.2) opened).done fault fault'

end ChunkSink

/-! ## Reading -/

def isSpace (c : UInt8) : Bool := c == 32 || (9 ≤ c && c ≤ 13)

def hexDigitValue? (c : UInt8) : Option Nat :=
  if 48 ≤ c && c ≤ 57 then some (c.toNat - 48)
  else if 97 ≤ c && c ≤ 102 then some (c.toNat - 87)
  else if 65 ≤ c && c ≤ 70 then some (c.toNat - 55)
  else none

/-- The digits at the front, as one number after `value`, and how many there are. -/
def readDigits (value count : Nat) : Bytes → Nat × Nat
  | [] => (value, count)
  | c :: rest =>
      match hexDigitValue? c with
      | some digit => readDigits (value * 16 + digit) (count + 1) rest
      | none => (value, count)

/-- `ULONG_MAX` where `unsigned long` has 64 bits, as in LP64.  On Windows it has 32. -/
def ulongMax : Nat := 2 ^ 64 - 1

def skipSign : Bytes → Bool × Bytes
  | 45 :: s => (true, s)
  | 43 :: s => (false, s)
  | s => (false, s)

/-- `0x` counts only in front of a digit. -/
def skipBase : Bytes → Bytes
  | 48 :: x :: c :: rest =>
      if (x == 120 || x == 88) && (hexDigitValue? c).isSome then c :: rest else 48 :: x :: c :: rest
  | s => s

/-- `std::strtoul(s, &end_ptr, 16)`; `none` where `end_ptr` stays at the beginning.  The terminating
zero is no digit and no space, so the rest of the line does not matter. -/
def strtoul (s : Bytes) : Option Nat :=
  let (negative, s) := skipSign (s.dropWhile isSpace)
  let (value, count) := readDigits 0 0 (skipBase s)
  if count = 0 then none
  else if value > ulongMax then some ulongMax
  else some (if negative then (2 ^ 64 - value) % 2 ^ 64 else value)

/-- The bytes up to and including the first newline, and the others. -/
def splitLine : Bytes → Bytes × Bytes
  | [] => ([], [])
  | byte :: rest =>
      if byte = 10 then ([byte], rest)
      else
        let (line, rest) := splitLine rest
        (byte :: line, rest)

/-- `stream_line_reader::getline`, which fails at the end of the input only. -/
def getline (input : Bytes) : Option (Bytes × Bytes) :=
  if input.isEmpty then none else some (splitLine input)

/-- `strcmp(line_reader.ptr(), "\r\n") == 0` -/
def isCrlf (line : Bytes) : Bool := line.takeWhile (· ≠ 0) = crlf

def readContentWithLength (len : Nat) (input : Bytes) : Option (Bytes × Bytes) :=
  if len ≤ input.length then some (input.take len, input.drop len) else none

/-- `CPPHTTPLIB_HEADER_MAX_LENGTH` -/
def headerMaxLength : Nat := 8192

/-- The trailer, whose fields are not kept here.  Every line shortens the input. -/
def readTrailer : Nat → Bytes → Option Bytes
  | 0, _ => none
  | fuel + 1, input =>
      match getline input with
      | none => none
      | some (line, input) =>
          if isCrlf line then some input
          else if line.length > headerMaxLength then none
          else readTrailer fuel input

/-- The loop, at a line that gives the length of a chunk.  Every turn shortens the input. -/
def readChunks : Nat → Bytes → Bytes → Bytes → Option (Bytes × Bytes)
  | 0, _, _, _ => none
  | fuel + 1, line, input, body =>
      match strtoul line with
      | none => none
      | some chunkLen =>
          if chunkLen = ulongMax then none
          else if chunkLen = 0 then
            (readTrailer (input.length + 1) input).map fun rest => (body, rest)
          else
            match readContentWithLength chunkLen input with
            | none => none
            | some (data, input) =>
                match getline input with
                | none => none
                | some (footer, input) =>
                    if isCrlf footer then
                      match getline input with
                      | none => none
                      | some (line, input) => readChunks fuel line input (body ++ data)
                    else none

/-- `read_content_chunked`: what the receiver got, and what is left of the input. -/
def readContentChunked (input : Bytes) : Option (Bytes × Bytes) :=
  match getline input with
  | none => none
  | some (line, rest) => readChunks (input.length + 1) line rest []

/-! ## Lengths in hexadecimal -/

theorem hexDigitValue_hexCharset (n : Nat) : hexDigitValue? (hexCharset n) = some (n % 16) := by
  have hall : ∀ m < 16, hexDigitValue? (hexCharset m) = some m := by decide
  have hmod : hexCharset n = hexCharset (n % 16) := by rw [hexCharset, hexCharset, Nat.mod_mod]
  rw [hmod]
  exact hall (n % 16) (Nat.mod_lt n (by decide))

/-- The loop puts the digits of `n` in front. -/
theorem readDigits_loop (fuel n count : Nat) (ret : Bytes) (h : n < 16 ^ (fuel + 1)) :
    ∃ k, 0 < k ∧
      readDigits 0 count (fromIToHexLoop (fuel + 1) n ret) = readDigits n (count + k) ret := by
  induction fuel generalizing n count ret with
  | zero =>
      have hsmall : ¬n / 16 > 0 := by omega
      have hdigit : 0 * 16 + n % 16 = n := by omega
      refine ⟨1, Nat.one_pos, ?_⟩
      rw [fromIToHexLoop, if_neg hsmall, readDigits, hexDigitValue_hexCharset]
      dsimp only
      rw [hdigit]
  | succ fuel ih =>
      by_cases hmore : n / 16 > 0
      · have hless : n / 16 < 16 ^ (fuel + 1) := by
          rw [Nat.pow_succ] at h
          omega
        obtain ⟨k, hk, hread⟩ := ih (n / 16) count (hexCharset n :: ret) hless
        have hdigits : n / 16 * 16 + n % 16 = n := by omega
        refine ⟨k + 1, Nat.succ_pos k, ?_⟩
        rw [fromIToHexLoop, if_pos hmore, hread, readDigits, hexDigitValue_hexCharset]
        dsimp only
        rw [hdigits, Nat.add_assoc]
      · have hdigit : 0 * 16 + n % 16 = n := by omega
        refine ⟨1, Nat.one_pos, ?_⟩
        rw [fromIToHexLoop, if_neg hmore, readDigits, hexDigitValue_hexCharset]
        dsimp only
        rw [hdigit]

theorem fromIToHexLoop_digits (fuel n : Nat) (ret : Bytes)
    (h : ∀ c ∈ ret, (hexDigitValue? c).isSome = true) :
    ∀ c ∈ fromIToHexLoop fuel n ret, (hexDigitValue? c).isSome = true := by
  induction fuel generalizing n ret with
  | zero => exact h
  | succ fuel ih =>
      have hmore : ∀ c ∈ hexCharset n :: ret, (hexDigitValue? c).isSome = true := by
        intro c hc
        rcases List.mem_cons.mp hc with rfl | hc
        · rw [hexDigitValue_hexCharset]
          rfl
        · exact h c hc
      rw [fromIToHexLoop]
      split
      · exact ih (n / 16) _ hmore
      · exact hmore

theorem fromIToHex_digits (n : Nat) : ∀ c ∈ fromIToHex n, (hexDigitValue? c).isSome = true :=
  fromIToHexLoop_digits 16 n [] fun _ h => absurd h List.not_mem_nil

/-- A digit is none of the bytes that the reader treats in another way. -/
theorem digit_plain (c : UInt8) (h : (hexDigitValue? c).isSome = true) :
    isSpace c = false ∧ c ≠ 45 ∧ c ≠ 43 ∧ c ≠ 120 ∧ c ≠ 88 ∧ c ≠ 10 := by
  have hall : ∀ n < 256, (hexDigitValue? (UInt8.ofNat n)).isSome = true →
      isSpace (UInt8.ofNat n) = false ∧ UInt8.ofNat n ≠ 45 ∧ UInt8.ofNat n ≠ 43 ∧
        UInt8.ofNat n ≠ 120 ∧ UInt8.ofNat n ≠ 88 ∧ UInt8.ofNat n ≠ 10 := by
    decide +kernel
  have hc := hall c.toNat c.toNat_lt
  rw [UInt8.ofNat_toNat] at hc
  exact hc h

theorem fromIToHex_cons (n : Nat) : ∃ c rest, fromIToHex n = c :: rest := by
  have hne : ∀ (fuel n : Nat) (ret : Bytes), fromIToHexLoop (fuel + 1) n ret ≠ [] := by
    intro fuel
    induction fuel with
    | zero =>
        intro n ret
        rw [fromIToHexLoop]
        split <;> exact List.cons_ne_nil _ _
    | succ fuel ih =>
        intro n ret
        rw [fromIToHexLoop]
        split
        · exact ih _ _
        · exact List.cons_ne_nil _ _
  exact List.exists_cons_of_ne_nil (hne 15 n [])

theorem fromIToHexLoop_append (fuel n : Nat) (ret : Bytes) :
    fromIToHexLoop fuel n ret = fromIToHexLoop fuel n [] ++ ret := by
  induction fuel generalizing n ret with
  | zero => rfl
  | succ fuel ih =>
      rw [fromIToHexLoop, fromIToHexLoop]
      split
      · rw [ih (n / 16) (hexCharset n :: ret), ih (n / 16) [hexCharset n], List.append_assoc]
        rfl
      · rfl

/-- A line that begins with a digit is read from there. -/
theorem strtoul_of_digit {c : UInt8} {rest : Bytes} (hc : (hexDigitValue? c).isSome = true)
    (hx : ∀ x ∈ rest.head?, x ≠ 120 ∧ x ≠ 88) {value count : Nat}
    (hread : readDigits 0 0 (c :: rest) = (value, count)) (hcount : 0 < count) :
    strtoul (c :: rest) = some (min value ulongMax) := by
  obtain ⟨hspace, hminus, hplus, _⟩ := digit_plain c hc
  have hdrop : (c :: rest).dropWhile isSpace = c :: rest := by
    rw [List.dropWhile_cons_of_neg (by rw [hspace]; exact Bool.false_ne_true)]
  have hnone : ¬count = 0 := by omega
  have hsign : skipSign (c :: rest) = (false, c :: rest) := by
    unfold skipSign
    split
    · rename_i heq
      exact absurd (List.cons.inj heq).1 hminus
    · rename_i heq
      exact absurd (List.cons.inj heq).1 hplus
    · rfl
  have hbase : skipBase (c :: rest) = c :: rest := by
    unfold skipBase
    split
    · rename_i x d more heq
      obtain ⟨hlower, hupper⟩ := hx x (by rw [(List.cons.inj heq).2]; rfl)
      rw [if_neg (by simp [hlower, hupper]), ← heq]
    · rfl
  rw [strtoul, hdrop, hsign]
  dsimp only
  rw [hbase, hread]
  dsimp only
  rw [if_neg hnone]
  by_cases hlarge : value > ulongMax
  · rw [if_pos hlarge, Nat.min_eq_right (Nat.le_of_lt hlarge)]
  · rw [if_neg hlarge, Nat.min_eq_left (Nat.le_of_not_lt hlarge)]
    rfl

/-- The length line of a chunk. -/
theorem strtoul_fromIToHex {n : Nat} (h : n < ulongMax) :
    strtoul (fromIToHex n ++ crlf) = some n := by
  have hsize : n < 16 ^ (15 + 1) := by
    have hmax : ulongMax < 16 ^ (15 + 1) := by decide
    omega
  obtain ⟨c, rest, hcons⟩ := fromIToHex_cons n
  have hdigits := fromIToHex_digits n
  rw [hcons] at hdigits
  obtain ⟨k, hk, hread⟩ := readDigits_loop 15 n 0 crlf hsize
  have hline : fromIToHexLoop (15 + 1) n crlf = c :: (rest ++ crlf) := by
    rw [fromIToHexLoop_append, ← List.cons_append, ← hcons]
    rfl
  have hend : readDigits n (0 + k) crlf = (n, 0 + k) := rfl
  rw [hline, hend] at hread
  rw [hcons, List.cons_append, strtoul_of_digit (hdigits c List.mem_cons_self) ?_ hread (by omega)]
  · rw [Nat.min_eq_left (Nat.le_of_lt h)]
  · intro x hx
    cases rest with
    | nil =>
        cases hx
        decide
    | cons d rest =>
        cases hx
        obtain ⟨_, _, _, hlower, hupper, _⟩ := digit_plain x (hdigits x (by simp))
        exact ⟨hlower, hupper⟩

/-! ## Lines -/

theorem splitLine_newline {line : Bytes} (h : (10 : UInt8) ∉ line) (rest : Bytes) :
    splitLine (line ++ 10 :: rest) = (line ++ [10], rest) := by
  induction line with
  | nil => rfl
  | cons byte line ih =>
      have hbyte : byte ≠ 10 := fun hsame => h (hsame ▸ List.mem_cons_self)
      rw [List.cons_append, splitLine, if_neg hbyte,
        ih fun hmem => h (List.mem_cons_of_mem _ hmem)]
      rfl

theorem splitLine_last {line : Bytes} (h : (10 : UInt8) ∉ line) : splitLine line = (line, []) := by
  induction line with
  | nil => rfl
  | cons byte line ih =>
      have hbyte : byte ≠ 10 := fun hsame => h (hsame ▸ List.mem_cons_self)
      rw [splitLine, if_neg hbyte, ih fun hmem => h (List.mem_cons_of_mem _ hmem)]

theorem getline_append {line : Bytes} (h : (10 : UInt8) ∉ line) (rest : Bytes) :
    getline (line ++ 10 :: rest) = some (line ++ [10], rest) := by
  rw [getline, splitLine_newline h]
  cases line <;> rfl

theorem getline_crlf (rest : Bytes) : getline (crlf ++ rest) = some (crlf, rest) := by
  have hline : (10 : UInt8) ∉ ([13] : Bytes) := by decide
  exact getline_append hline rest

/-- The loop from the line that it is about to read. -/
def readBody (fuel : Nat) (input body : Bytes) : Option (Bytes × Bytes) :=
  match getline input with
  | none => none
  | some (line, rest) => readChunks fuel line rest body

/-- With nothing behind its line no chunk can be read, and no end. -/
theorem readChunks_nil (fuel : Nat) (line body : Bytes) : readChunks fuel line [] body = none := by
  cases fuel with
  | zero => rfl
  | succ fuel =>
      rw [readChunks]
      cases strtoul line with
      | none => rfl
      | some chunkLen =>
          dsimp only
          split
          · rfl
          · split
            · rfl
            · rename_i hpositive
              rw [readContentWithLength, if_neg (by simpa using hpositive)]

theorem readBody_unended (fuel : Nat) {input : Bytes} (h : (10 : UInt8) ∉ input) (body : Bytes) :
    readBody fuel input body = none := by
  rw [readBody, getline]
  split
  · rfl
  · rename_i hline
    split at hline
    · cases hline
    · rw [splitLine_last h] at hline
      cases hline
      exact readChunks_nil fuel _ body

/-- A last line, complete or not. -/
theorem readBody_lastLine (fuel : Nat) {line : Bytes} (h : (10 : UInt8) ∉ line) (body : Bytes) :
    readBody fuel (line ++ [10]) body = none := by
  rw [readBody, getline_append h]
  exact readChunks_nil fuel _ body

theorem length_plain (n : Nat) : (10 : UInt8) ∉ fromIToHex n ++ [13] := by
  intro hmem
  rcases List.mem_append.mp hmem with hdigit | hreturn
  · exact (digit_plain 10 (fromIToHex_digits n 10 hdigit)).2.2.2.2.2 rfl
  · exact absurd hreturn (by decide)

theorem getline_length (n : Nat) (more : Bytes) :
    getline (fromIToHex n ++ crlf ++ more) = some (fromIToHex n ++ crlf, more) := by
  have hline := getline_append (length_plain n) more
  simpa [crlf] using hline

section Chunk

variable {x : Bytes} (hne : x ≠ []) (hsize : x.length < ulongMax)
include hne hsize

/-- Reading behind the length line of a chunk. -/
theorem readBody_chunkLine (fuel : Nat) (more body : Bytes) :
    readBody (fuel + 1) (fromIToHex x.length ++ crlf ++ more) body =
      match readContentWithLength x.length more with
      | none => none
      | some (data, input) =>
          match getline input with
          | none => none
          | some (footer, input) =>
              if isCrlf footer then readBody fuel input (body ++ data) else none := by
  have hpositive : x.length ≠ 0 := by simpa using hne
  have hmax : x.length ≠ ulongMax := by omega
  rw [readBody, getline_length]
  dsimp only
  rw [readChunks, strtoul_fromIToHex hsize]
  dsimp only
  rw [if_neg hmax, if_neg hpositive]
  rfl

/-- One chunk is read as what it was made from. -/
theorem readBody_chunk (fuel : Nat) (more body : Bytes) :
    readBody (fuel + 1) (ChunkSink.chunk x ++ more) body = readBody fuel more (body ++ x) := by
  have hwhole : ChunkSink.chunk x ++ more =
      fromIToHex x.length ++ crlf ++ (x ++ (crlf ++ more)) := by
    simp [ChunkSink.chunk]
  have hread : readContentWithLength x.length (x ++ (crlf ++ more)) = some (x, crlf ++ more) := by
    rw [readContentWithLength, if_pos (by simp), List.take_left, List.drop_left]
  rw [hwhole, readBody_chunkLine hne hsize, hread]
  dsimp only
  rw [getline_crlf]
  rfl

/-- A chunk that was cut off is not accepted. -/
theorem readBody_cut (fuel : Nat) {k : Nat} (hk : k < (ChunkSink.chunk x).length) (body : Bytes) :
    readBody fuel ((ChunkSink.chunk x).take k) body = none := by
  cases fuel with
  | zero =>
      rw [readBody]
      split <;> rfl
  | succ fuel =>
      have hwhole : ChunkSink.chunk x = (fromIToHex x.length ++ [13]) ++ ([10] ++ (x ++ crlf)) := by
        simp [ChunkSink.chunk, crlf]
      by_cases hshort : k ≤ (fromIToHex x.length ++ [13]).length
      · have hcut : (10 : UInt8) ∉ (ChunkSink.chunk x).take k := by
          rw [hwhole, List.take_append_of_le_length hshort]
          exact fun hmem => length_plain x.length (List.mem_of_mem_take hmem)
        exact readBody_unended (fuel + 1) hcut body
      · obtain ⟨j, rfl⟩ := Nat.exists_eq_add_of_lt (Nat.lt_of_not_le hshort)
        have hcut : (ChunkSink.chunk x).take ((fromIToHex x.length ++ [13]).length + j + 1) =
            fromIToHex x.length ++ crlf ++ (x ++ crlf).take j := by
          rw [hwhole, Nat.add_assoc, List.take_length_add_append]
          simp [crlf]
        have hj : j < x.length + 2 := by
          rw [hwhole] at hk
          simp only [List.length_append, List.length_cons, List.length_nil, crlf] at hk
          omega
        rw [hcut, readBody_chunkLine hne hsize, readContentWithLength]
        by_cases hdata : j < x.length
        · rw [if_neg (by simp only [List.length_take]; omega)]
        · -- all the data, and less than the footer
          obtain ⟨i, rfl⟩ := Nat.exists_eq_add_of_le (Nat.le_of_not_lt hdata)
          rw [List.take_length_add_append, if_pos (by simp), List.take_left, List.drop_left]
          have hi : i = 0 ∨ i = 1 := by omega
          rcases hi with rfl | rfl <;> rfl

end Chunk

/-! ## The end of a body -/

/-- The end of a body is recognised, and nothing behind it is read. -/
theorem readBody_end (fuel : Nat) (rest body : Bytes) :
    readBody (fuel + 1) (ChunkSink.doneMarker ++ crlf ++ rest) body = some (body, rest) := by
  have hline : (10 : UInt8) ∉ ([48, 13] : Bytes) := by decide
  have hzero : getline (ChunkSink.doneMarker ++ (crlf ++ rest)) =
      some (ChunkSink.doneMarker, crlf ++ rest) := getline_append hline (crlf ++ rest)
  have htrailer : readTrailer ((crlf ++ rest).length + 1) (crlf ++ rest) = some rest := by
    rw [readTrailer, getline_crlf]
    rfl
  have hlength : strtoul ChunkSink.doneMarker = some 0 := by decide
  rw [List.append_assoc, readBody, hzero]
  dsimp only
  rw [readChunks, hlength]
  dsimp only
  rw [if_neg (by decide), if_pos rfl, htrailer]
  rfl

/-- Whatever is missing of the two lines that end a body, it is not accepted. -/
theorem readBody_brokenEnd (fuel : Nat) {a b : Nat} (h : a < 3 ∨ b < 2) (body : Bytes) :
    readBody fuel (ChunkSink.doneMarker.take a ++ crlf.take b) body = none := by
  by_cases ha : a < 3
  · by_cases hb : b < 2
    · have hplain : ∀ a < 3, ∀ b < 2,
          (10 : UInt8) ∉ ChunkSink.doneMarker.take a ++ crlf.take b := by decide
      exact readBody_unended fuel (hplain a ha b hb) body
    · have hplain : ∀ a < 3, (10 : UInt8) ∉ ChunkSink.doneMarker.take a ++ [13] := by decide
      have hcrlf : crlf.take b = [13] ++ [10] := List.take_of_length_le (Nat.le_of_not_lt hb)
      rw [hcrlf, ← List.append_assoc]
      exact readBody_lastLine fuel (hplain a ha) body
  · have hmarker : ChunkSink.doneMarker.take a = [48, 13] ++ [10] :=
      List.take_of_length_le (Nat.le_of_not_lt ha)
    have hb : b = 0 ∨ b = 1 := by omega
    rw [hmarker]
    rcases hb with rfl | rfl
    · have hplain : (10 : UInt8) ∉ ([48, 13] : Bytes) := by decide
      exact readBody_lastLine fuel hplain body
    · -- the length is read, but the trailer does not end
      cases fuel with
      | zero => rfl
      | succ fuel =>
          have hlength : strtoul ([48, 13] ++ [10]) = some 0 := by decide
          have hmarkerLine : getline ([48, 13] ++ [10] ++ crlf.take 1) =
              some ([48, 13] ++ [10], [13]) := by decide
          rw [readBody, hmarkerLine]
          dsimp only
          rw [readChunks, hlength]
          rfl

/-! ## Whole bodies -/

/-- The chunks of a body are read one after the other. -/
theorem readBody_chunks (payloads : List Bytes)
    (h : ∀ x ∈ payloads, x ≠ [] ∧ x.length < ulongMax) (fuel : Nat) (more body : Bytes) :
    readBody (fuel + payloads.length) (payloads.flatMap ChunkSink.chunk ++ more) body =
      readBody fuel more (body ++ payloads.flatten) := by
  induction payloads generalizing body with
  | nil =>
      rw [List.flatMap_nil, List.nil_append, List.flatten_nil, List.append_nil]
      rfl
  | cons x payloads ih =>
      obtain ⟨hne, hsize⟩ := h x List.mem_cons_self
      have hlater := ih (fun y hy => h y (List.mem_cons_of_mem x hy)) (body ++ x)
      rw [List.length_cons, ← Nat.add_assoc, List.flatMap_cons, List.append_assoc,
        readBody_chunk hne hsize, hlater, List.flatten_cons, List.append_assoc]

theorem ChunkSink.length_le_chunks (payloads : List Bytes) :
    payloads.length ≤ (payloads.flatMap chunk).length := by
  induction payloads with
  | nil => exact Nat.le_refl 0
  | cons x payloads ih =>
      have hchunk : 0 < (chunk x).length := by
        simp only [chunk, crlf, List.length_append, List.length_cons]
        omega
      rw [List.flatMap_cons, List.length_cons, List.length_append]
      omega

/-- The reader gets through all chunks at the front, and has turns left. -/
theorem readContentChunked_chunks (payloads : List Bytes)
    (h : ∀ x ∈ payloads, x ≠ [] ∧ x.length < ulongMax) (more : Bytes) :
    ∃ fuel, readContentChunked (payloads.flatMap ChunkSink.chunk ++ more) =
      readBody (fuel + 1) more payloads.flatten := by
  have hcount := ChunkSink.length_le_chunks payloads
  obtain ⟨left, hleft⟩ := Nat.exists_eq_add_of_le' hcount
  have hfuel : (payloads.flatMap ChunkSink.chunk ++ more).length + 1 =
      left + more.length + 1 + payloads.length := by
    rw [List.length_append]
    omega
  refine ⟨left + more.length, ?_⟩
  show readBody ((payloads.flatMap ChunkSink.chunk ++ more).length + 1) _ [] = _
  rw [hfuel, readBody_chunks payloads h, List.nil_append]

namespace ChunkSink

/-- The payloads that are sent. -/
def payloads (writes : List (Bytes × Option Nat)) : List Bytes :=
  (writes.map Prod.fst).filter (· ≠ [])

theorem payloads_sized {writes : List (Bytes × Option Nat)}
    (hsize : ∀ entry ∈ writes, entry.1.length < ulongMax) :
    ∀ x ∈ payloads writes, x ≠ [] ∧ x.length < ulongMax := by
  intro x hx
  obtain ⟨hx, hne⟩ := List.mem_filter.mp hx
  obtain ⟨entry, hentry, rfl⟩ := List.mem_map.mp hx
  exact ⟨of_decide_eq_true hne, hsize entry hentry⟩

/-- What the sink is after these writes: all of the chunks are out, or one was cut off. -/
inductive Wrote (writes : List (Bytes × Option Nat)) (sink : ChunkSink) : Prop
  | whole (hok : sink.ok = true) (hsent : sink.sent = (payloads writes).flatMap chunk)
  | cut (earlier : List Bytes) (x : Bytes) (k : Nat) (hok : sink.ok = false)
      (hbegins : earlier ++ [x] <+: payloads writes) (hshort : k < (chunk x).length)
      (hsent : sink.sent = earlier.flatMap chunk ++ (chunk x).take k)

theorem writeData_cases (sent data : Bytes) (fault : Option Nat) :
    writeData sent data fault = (sent ++ data, true) ∨
      ∃ k < data.length, writeData sent data fault = (sent ++ data.take k, false) := by
  cases fault with
  | none => exact .inl rfl
  | some k =>
      by_cases hshort : k < data.length
      · exact .inr ⟨k, hshort, if_pos hshort⟩
      · exact .inl (if_neg hshort)

/-- One more write. -/
theorem Wrote.write {writes : List (Bytes × Option Nat)} {sink : ChunkSink}
    (h : Wrote writes sink) (entry : Bytes × Option Nat) :
    Wrote (writes ++ [entry]) (sink.write entry.1 entry.2) := by
  obtain ⟨d, fault⟩ := entry
  have hpayloads : payloads (writes ++ [(d, fault)]) =
      payloads writes ++ payloads [(d, fault)] := by
    rw [payloads, payloads, payloads, List.map_append, List.filter_append]
  cases h with
  | cut earlier x k hok hbegins hshort hsent =>
      have hsame : sink.write d fault = sink := by
        rw [ChunkSink.write, hok]
        rfl
      refine .cut earlier x k (by rw [hsame, hok]) ?_ hshort (by rw [hsame, hsent])
      rw [hpayloads]
      exact hbegins.trans (List.prefix_append _ _)
  | whole hok hsent =>
      by_cases hempty : d = []
      · subst hempty
        refine .whole ?_ ?_
        · simp [ChunkSink.write, hok]
        · simp [ChunkSink.write, hok, hsent, payloads]
      · have hone : payloads [(d, fault)] = [d] := by simp [payloads, hempty]
        have hwrite : sink.write d fault =
            { ok := (writeData sink.sent (chunk d) fault).2, dataAvailable := d.length > 0,
              sent := (writeData sink.sent (chunk d) fault).1 } := by
          simp [ChunkSink.write, hok, hempty]
        rcases writeData_cases sink.sent (chunk d) fault with hall | ⟨k, hshort, hcut⟩
        · refine .whole (by rw [hwrite, hall]) ?_
          rw [hwrite, hall, hpayloads, hone, List.flatMap_append, ← hsent]
          simp
        · have hlast : payloads (writes ++ [(d, fault)]) = payloads writes ++ [d] := by
            rw [hpayloads, hone]
          refine .cut (payloads writes) d k (by rw [hwrite, hcut]) ?_ hshort ?_
          · exact hlast ▸ List.prefix_refl _
          · rw [hwrite, hcut, hsent]

/-- Any number of writes. -/
theorem wrote_foldl (writes : List (Bytes × Option Nat)) :
    Wrote writes (writes.foldl (fun sink entry => sink.write entry.1 entry.2) opened) := by
  induction writes using List.reverseRecOn with
  | nil => exact .whole rfl rfl
  | append_singleton writes entry ih =>
      rw [List.foldl_append]
      exact ih.write entry

/-- Before `done` there is no end to be read. -/
theorem readContentChunked_undone {writes : List (Bytes × Option Nat)} {sink : ChunkSink}
    (h : Wrote writes sink) (hsize : ∀ entry ∈ writes, entry.1.length < ulongMax) :
    readContentChunked sink.sent = none := by
  cases h with
  | whole hok hsent =>
      obtain ⟨fuel, hread⟩ := readContentChunked_chunks (payloads writes) (payloads_sized hsize) []
      rw [List.append_nil] at hread
      rw [hsent, hread]
      exact readBody_unended _ List.not_mem_nil _
  | cut earlier x k hok hbegins hshort hsent =>
      have hearlier : ∀ y ∈ earlier ++ [x], y ≠ [] ∧ y.length < ulongMax :=
        fun y hy => payloads_sized hsize y (hbegins.subset hy)
      obtain ⟨hne, hx⟩ := hearlier x (by simp)
      obtain ⟨fuel, hread⟩ := readContentChunked_chunks earlier
        (fun y hy => hearlier y (List.mem_append_left _ hy)) ((chunk x).take k)
      rw [hsent, hread]
      exact readBody_cut hne hx _ hshort _

/-- The two lines at the end. -/
theorem done_cases {sink : ChunkSink} (hok : sink.ok = true) (fault fault' : Option Nat) :
    (sink.done fault fault').dataAvailable = false ∧
      (((sink.done fault fault').ok = true ∧
          (sink.done fault fault').sent = sink.sent ++ (doneMarker ++ crlf)) ∨
        ((sink.done fault fault').ok = false ∧ ∃ a b, (a < 3 ∨ b < 2) ∧
          (sink.done fault fault').sent = sink.sent ++ (doneMarker.take a ++ crlf.take b))) := by
  rw [done, if_pos hok]
  refine ⟨rfl, ?_⟩
  rcases writeData_cases sink.sent doneMarker fault with hmarker | ⟨a, ha, hmarker⟩ <;>
    rcases writeData_cases (writeData sink.sent doneMarker fault).1 crlf fault' with
      hend | ⟨b, hb, hend⟩ <;> rw [hmarker] at hend ⊢ <;> dsimp only at hend ⊢ <;> rw [hend]
  · exact .inl ⟨rfl, List.append_assoc _ _ _⟩
  · exact .inr ⟨rfl, 3, b, .inr hb, List.append_assoc _ _ _⟩
  · exact .inr ⟨rfl, a, 2, .inl ha, List.append_assoc _ _ _⟩
  · exact .inr ⟨rfl, a, b, .inl ha, List.append_assoc _ _ _⟩

/-- A sink that failed is left as it is. -/
theorem done_of_failed {sink : ChunkSink} (h : sink.ok = false) (fault fault' : Option Nat) :
    sink.done fault fault' = sink := by
  rw [done, h]
  rfl

section Provide

variable {writes : List (Bytes × Option Nat)} {fault fault' : Option Nat}

theorem readContentChunked_whole (hsize : ∀ entry ∈ writes, entry.1.length < ulongMax)
    (h : (provide writes fault fault').ok = true) (rest : Bytes) :
    readContentChunked ((provide writes fault fault').sent ++ rest) =
      some ((writes.map Prod.fst).flatten, rest) := by
  have hdecoded : (payloads writes).flatten = (writes.map Prod.fst).flatten :=
    List.flatten_filter_ne_nil
  rw [provide] at h ⊢
  cases wrote_foldl writes with
  | cut earlier x k hok =>
      rw [done_of_failed hok, hok] at h
      cases h
  | whole hok hsent =>
      obtain ⟨_, ⟨_, hall⟩ | ⟨hfailed, _⟩⟩ := done_cases hok fault fault'
      · obtain ⟨fuel, hread⟩ := readContentChunked_chunks (payloads writes) (payloads_sized hsize)
          (doneMarker ++ crlf ++ rest)
        rw [hall, hsent, List.append_assoc, hread, readBody_end, hdecoded]
      · rw [hfailed] at h
        cases h

theorem readContentChunked_broken (hsize : ∀ entry ∈ writes, entry.1.length < ulongMax)
    (h : (provide writes fault fault').ok = false) :
    readContentChunked (provide writes fault fault').sent = none := by
  have hwrote := wrote_foldl writes
  have hundone := readContentChunked_undone hwrote hsize
  rw [provide] at h ⊢
  cases hwrote with
  | cut earlier x k hok =>
      rw [done_of_failed hok]
      exact hundone
  | whole hok hsent =>
      obtain ⟨_, ⟨hended, _⟩ | ⟨_, a, b, hshort, hall⟩⟩ := done_cases hok fault fault'
      · rw [hended] at h
        cases h
      · obtain ⟨fuel, hread⟩ := readContentChunked_chunks (payloads writes) (payloads_sized hsize)
          (doneMarker.take a ++ crlf.take b)
        rw [hall, hsent, hread]
        exact readBody_brokenEnd _ hshort _

theorem afterProvider_provide :
    (provide writes fault fault').afterProvider = some (provide writes fault fault').ok := by
  have hfailed : ∀ {sink : ChunkSink}, sink.ok = false → sink.afterProvider = some sink.ok := by
    intro sink hok
    rw [afterProvider, hok]
    rfl
  rw [provide]
  cases wrote_foldl writes with
  | cut earlier x k hok =>
      rw [done_of_failed hok]
      exact hfailed hok
  | whole hok hsent =>
      obtain ⟨hdone, ⟨hended, _⟩ | ⟨hended, _⟩⟩ := done_cases hok fault fault'
      · rw [afterProvider, hended, hdone]
        rfl
      · exact hfailed hended

end Provide

/-- **Chunked transfer** round trip over a connection that may fail at any byte.  What was written
is read back, whatever follows it, and where a write failed nothing is accepted.  The provider is
called once. -/
theorem provide_decodes (writes : List (Bytes × Option Nat))
    (hsize : ∀ entry ∈ writes, entry.1.length < ulongMax) (fault fault' : Option Nat) :
    ((provide writes fault fault').ok = true → ∀ rest,
        readContentChunked ((provide writes fault fault').sent ++ rest) =
          some ((writes.map Prod.fst).flatten, rest)) ∧
      ((provide writes fault fault').ok = false →
        readContentChunked (provide writes fault fault').sent = none) ∧
      (provide writes fault fault').afterProvider = some (provide writes fault fault').ok :=
  ⟨readContentChunked_whole hsize, readContentChunked_broken hsize, afterProvider_provide⟩

/-- Two payloads around an empty one, over a connection that works. -/
theorem provide_decodes_threeWrites :
    (provide [([104, 105], none), ([], none), ([33], none)] none none).sent =
        [50, 13, 10, 104, 105, 13, 10, 49, 13, 10, 33, 13, 10, 48, 13, 10, 13, 10] ∧
      readContentChunked (provide [([104, 105], none), ([], none), ([33], none)] none none).sent =
        some ([104, 105, 33], []) := by
  have hwhole := (provide_decodes [([104, 105], none), ([], none), ([33], none)]
    (by decide) none none).1 (by decide) []
  rw [List.append_nil] at hwhole
  exact ⟨by decide, hwhole⟩

end ChunkSink

end CortexOnnx

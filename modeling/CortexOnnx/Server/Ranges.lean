import CortexOnnx.Lib.Rows
import CortexOnnx.Server.Headers

/-!
# Ranges

What `httplib.h` makes of a `Range` field: `parse_range_header` before any handler is called,
`range_error` once there is a response, and `apply_ranges`, which cuts its body.  Only the ranges of
a successful response are checked and resolved.
-/

namespace CortexOnnx

/-! ## Numbers -/

/-- `std::to_string` of a number, and `%d` of one that is not negative. -/
def printNat (n : Nat) : Bytes := (Nat.toDigits 10 n).map fun c => UInt8.ofNat c.toNat

def printInt : Int → Bytes
  | .ofNat n => printNat n
  | .negSucc n => 45 :: printNat (n + 1)

def decimalDigit? (c : UInt8) : Option Nat :=
  if 48 ≤ c && c ≤ 57 then some (c.toNat - 48) else none

/-- The digits at the front, as one number after `value`. -/
def readDecimal (value : Nat) : Bytes → Nat
  | [] => value
  | c :: s =>
      match decimalDigit? c with
      | some digit => readDecimal (value * 10 + digit) s
      | none => value

/-- `std::strtoull(s, nullptr, 10)`, which is zero without a digit. -/
def strtoull (s : Bytes) : Nat :=
  let (negative, s) := skipSign (s.dropWhile isSpace)
  let value := readDecimal 0 s
  if value > ulongMax then ulongMax else if negative then (2 ^ 64 - value) % 2 ^ 64 else value

/-! ## Numbers are read back -/

theorem decimalDigit_of_isDigit {c : Char} (h : c.isDigit = true) :
    decimalDigit? (UInt8.ofNat c.toNat) = some (c.toNat - 48) := by
  have hrange : 48 ≤ c.toNat ∧ c.toNat ≤ 57 := by
    simpa [Char.isDigit, UInt32.le_iff_toNat_le] using h
  have hbyte : (UInt8.ofNat c.toNat).toNat = c.toNat := by
    rw [UInt8.toNat_ofNat']
    omega
  rw [decimalDigit?, if_pos (by simp [UInt8.le_iff_toNat_le, hbyte, hrange]), hbyte]

theorem printNat_digits (n : Nat) : ∀ c ∈ printNat n, (decimalDigit? c).isSome = true := by
  intro c hc
  obtain ⟨d, hd, rfl⟩ := List.mem_map.mp hc
  rw [decimalDigit_of_isDigit (Nat.isDigit_of_mem_toDigits (by decide) (by decide) hd)]
  rfl

/-- A decimal digit is none of the bytes that a reader of headers treats in another way. -/
theorem decimalDigit_plain (c : UInt8) (h : (decimalDigit? c).isSome = true) :
    isSpace c = false ∧ isSpaceOrTab c = false ∧ c ≠ 0 ∧ c ≠ 10 ∧ c ≠ 13 ∧ c ≠ 37 ∧ c ≠ 43 ∧
      c ≠ 45 := by
  have hall : ∀ n < 256, (decimalDigit? (UInt8.ofNat n)).isSome = true →
      isSpace (UInt8.ofNat n) = false ∧ isSpaceOrTab (UInt8.ofNat n) = false ∧
        UInt8.ofNat n ≠ 0 ∧ UInt8.ofNat n ≠ 10 ∧ UInt8.ofNat n ≠ 13 ∧ UInt8.ofNat n ≠ 37 ∧
        UInt8.ofNat n ≠ 43 ∧ UInt8.ofNat n ≠ 45 := by
    decide +kernel
  have hc := hall c.toNat c.toNat_lt
  rw [UInt8.ofNat_toNat] at hc
  exact hc h

theorem readDecimal_map (digits : List Char) (h : ∀ c ∈ digits, c.isDigit = true) (value : Nat) :
    readDecimal value (digits.map fun c => UInt8.ofNat c.toNat) =
      Nat.ofDigitChars 10 digits value := by
  induction digits generalizing value with
  | nil => simp [readDecimal]
  | cons c digits ih =>
      rw [List.map_cons, readDecimal, decimalDigit_of_isDigit (h c List.mem_cons_self)]
      dsimp only
      rw [ih (fun d hd => h d (List.mem_cons_of_mem _ hd)), Nat.ofDigitChars_cons, Nat.mul_comm]
      rfl

theorem readDecimal_printNat (n : Nat) : readDecimal 0 (printNat n) = n := by
  rw [printNat, readDecimal_map _ fun c hc =>
    Nat.isDigit_of_mem_toDigits (by decide) (by decide) hc, Nat.ofDigitChars_ten_toDigits]

theorem printNat_ne_nil (n : Nat) : printNat n ≠ [] := by
  rw [printNat, ne_eq, List.map_eq_nil_iff]
  exact Nat.toDigits_ne_nil

theorem strtoull_printNat {n : Nat} (h : n ≤ ulongMax) : strtoull (printNat n) = n := by
  obtain ⟨c, s, hcons⟩ := List.exists_cons_of_ne_nil (printNat_ne_nil n)
  have hdigit := printNat_digits n c (hcons ▸ List.mem_cons_self)
  obtain ⟨hspace, _, _, _, _, _, hplus, hminus⟩ := decimalDigit_plain c hdigit
  have hdrop : (printNat n).dropWhile isSpace = printNat n := by
    rw [hcons, List.dropWhile_cons_of_neg (by simp [hspace])]
  have hsign : skipSign (printNat n) = (false, printNat n) := by
    rw [hcons]
    unfold skipSign
    split
    · rename_i heq
      exact absurd (List.cons.inj heq).1 hminus
    · rename_i heq
      exact absurd (List.cons.inj heq).1 hplus
    · rfl
  rw [strtoull, hdrop, hsign]
  dsimp only
  rw [readDecimal_printNat, if_neg (Nat.not_lt.mpr h)]
  rfl

theorem printNat_three {n : Nat} (h : 100 ≤ n) (h' : n < 1000) : (printNat n).length = 3 := by
  have hshort : (Nat.toDigits 10 n).length ≤ 3 :=
    (Nat.length_toDigits_le_iff (by decide) (by decide)).mpr h'
  have hlong : ¬(Nat.toDigits 10 n).length ≤ 2 := fun hle =>
    absurd ((Nat.length_toDigits_le_iff (by decide) (by decide)).mp hle) (by omega)
  rw [printNat, List.length_map]
  omega

/-! ## The field of a request -/

/-- `httplib::Range`, where -1 is a position that was not given. -/
abbrev Range := Int × Int

abbrev Ranges := List Range

def isDigit (c : UInt8) : Bool := (decimalDigit? c).isSome

/-- The groups of `(\d*)-(\d*)`, against all of a string. -/
def matchRange (s : Bytes) : Option (Bytes × Bytes) :=
  match s.dropWhile isDigit with
  | 45 :: last => if last.all isDigit then some (s.takeWhile isDigit, last) else none
  | _ => none

/-- A position, by `std::stoll` of its digits. -/
def rangePos (digits : Bytes) : Option Int :=
  if digits.isEmpty then some (-1)
  else if readDecimal 0 digits < 2 ^ 63 then some (readDecimal 0 digits)
  -- `std::out_of_range`
  else none

def rangeOfGroups (groups : Bytes × Bytes) : Option Range := do
  let first ← rangePos groups.1
  let last ← rangePos groups.2
  if first ≠ -1 && last ≠ -1 && first > last then none else some (first, last)

/-- `parse_range_header`: `bytes=(\d*-\d*(?:,\s*\d*-\d*)*)`, and then every range by itself. -/
def parseRangeHeader (s : Bytes) : Option Ranges := do
  match (← s.dropPrefix? (utf8 "bytes=")).splitOn 44 with
  | [] => none
  | first :: others =>
      let groups ← (first :: others.map (·.dropWhile isSpace)).mapM matchRange
      groups.mapM rangeOfGroups

/-! ## Resolving -/

/-- `CPPHTTPLIB_RANGE_MAX_COUNT` -/
def rangeMaxCount : Nat := 1024

/-- The positions of a range in a content of this length. -/
def resolveRange (contentLen : Int) (r : Range) : Range :=
  let (first, last) := if r.1 = -1 && r.2 = -1 then (0, contentLen) else r
  let (first, last) := if first = -1 then (contentLen - last, contentLen - 1) else (first, last)
  if last = -1 then (first, contentLen - 1) else (first, last)

/-- The loop of `range_error`, which resolves the ranges as it goes. -/
def resolveRanges (contentLen prevFirstPos prevLastPos : Int) (overlappingCount : Nat) :
    Ranges → Option Ranges
  | [] => some []
  | r :: ranges =>
      let (first, last) := resolveRange contentLen r
      if !(0 ≤ first && first ≤ last && last ≤ contentLen - 1) then none
      else if first ≤ prevFirstPos then none
      else if first ≤ prevLastPos && overlappingCount + 1 > 2 then none
      else
        let overlappingCount :=
          if first ≤ prevLastPos then overlappingCount + 1 else overlappingCount
        (resolveRanges contentLen (max prevFirstPos first) (max prevLastPos last) overlappingCount
          ranges).map ((first, last) :: ·)

def isSuccess (status : Int) : Bool := 200 ≤ status && status < 300

/-- The ranges as `range_error` leaves them, or none where it finds an error. -/
def rangeError (ranges : Ranges) (status : Int) (contentLen : Nat) : Option Ranges :=
  if ranges.isEmpty || !isSuccess status then some ranges
  else if ranges.length > rangeMaxCount then none
  else resolveRanges contentLen (-1) (-1) 0 ranges

/-! ## Cutting a body -/

/-- `static_cast<size_t>` -/
def toSizeT (n : Int) : Nat := (n % 2 ^ 64).toNat

/-- `std::string::substr`, which throws where the offset is behind the end. -/
def substr (s : Bytes) (offset length : Nat) : Option Bytes :=
  if offset ≤ s.length then some ((s.drop offset).take length) else none

/-- `get_range_offset_and_length`.  Its assertions are left out of a build with `NDEBUG`. -/
def getRangeOffsetAndLength (ndebug : Bool) (r : Range) (contentLength : Nat) :
    Option (Nat × Nat) :=
  if ndebug || (r.1 ≠ -1 && r.2 ≠ -1 && 0 ≤ r.1 && r.1 < contentLength && r.1 ≤ r.2 &&
      r.2 < contentLength) then
    some (toSizeT r.1, toSizeT (r.2 - r.1 + 1))
  else none

def makeContentRangeHeaderField (offset length contentLength : Nat) : Bytes :=
  utf8 "bytes " ++ printNat offset ++ [45] ++ printNat (toSizeT (offset + length - 1)) ++ [47] ++
    printNat contentLength

/-- A range of a body, with the value of its `Content-Range` field. -/
def cutRange (ndebug : Bool) (body : Bytes) (r : Range) : Option (Bytes × Bytes) := do
  let (offset, length) ← getRangeOffsetAndLength ndebug r body.length
  let data ← substr body offset length
  return (makeContentRangeHeaderField offset length body.length, data)

/-- One turn of `process_multipart_ranges_data`. -/
def rangePart (boundary contentType : Bytes) (cut : Bytes × Bytes) : Bytes :=
  utf8 "--" ++ boundary ++ crlf ++
    (if contentType.isEmpty then [] else utf8 "Content-Type: " ++ contentType ++ crlf) ++
    utf8 "Content-Range: " ++ cut.1 ++ crlf ++ crlf ++ cut.2 ++ crlf

/-- `make_multipart_ranges_data` -/
def makeMultipartRangesData (ndebug : Bool) (boundary contentType body : Bytes) (ranges : Ranges) :
    Option Bytes := do
  let cuts ← ranges.mapM (cutRange ndebug body)
  return cuts.flatMap (rangePart boundary contentType) ++ utf8 "--" ++ boundary ++ utf8 "--"

/-- The text that is left of a text.  Nothing is cut out of an empty one. -/
def cutText (ndebug : Bool) (boundary contentType text : Bytes) (ranges : Ranges) : Option Bytes :=
  if text.isEmpty then some []
  else
    match ranges with
    | [] => some text
    | [range] => (cutRange ndebug text range).map Prod.snd
    | ranges => makeMultipartRangesData ndebug boundary contentType text ranges

/-! ## What the checks leave -/

theorem rangePos_bounds {digits : Bytes} {pos : Int} (h : rangePos digits = some pos) :
    -1 ≤ pos ∧ pos < 2 ^ 63 := by
  rw [rangePos] at h
  split at h
  · cases h
    decide
  · split at h
    · rename_i hsmall
      cases h
      omega
    · cases h

/-- A field that is parsed asks for a range, and every position fits an `ssize_t`. -/
theorem parseRangeHeader_spec {s : Bytes} {ranges : Ranges}
    (h : parseRangeHeader s = some ranges) :
    ranges ≠ [] ∧ ∀ r ∈ ranges, -1 ≤ r.1 ∧ r.1 < 2 ^ 63 := by
  obtain ⟨rest, _, h⟩ := Option.bind_eq_some_iff.mp h
  split at h
  · cases h
  · obtain ⟨groups, hgroups, h⟩ := Option.bind_eq_some_iff.mp h
    have hranges := forall₂_of_mapM h
    constructor
    · rintro rfl
      have hlength := hranges.length_eq.trans rfl
      rw [← (forall₂_of_mapM hgroups).length_eq] at hlength
      cases hlength
    · apply forall_mem_of_forall₂ (P := fun r => -1 ≤ r.1 ∧ r.1 < 2 ^ 63) hranges
      intro pair r hr
      obtain ⟨first, hfirst, hr⟩ := Option.bind_eq_some_iff.mp hr
      obtain ⟨last, _, hr⟩ := Option.bind_eq_some_iff.mp hr
      split at hr
      · cases hr
      · cases hr
        exact rangePos_bounds hfirst

/-- A range within a content of this length. -/
def Range.Inside (contentLen : Int) (r : Range) : Prop :=
  0 ≤ r.1 ∧ r.1 ≤ r.2 ∧ r.2 < contentLen

theorem resolveRanges_inside {contentLen prevFirstPos prevLastPos : Int} {overlappingCount : Nat}
    {ranges resolved : Ranges}
    (h : resolveRanges contentLen prevFirstPos prevLastPos overlappingCount ranges =
      some resolved) :
    resolved.length = ranges.length ∧ ∀ r ∈ resolved, Range.Inside contentLen r := by
  induction ranges generalizing prevFirstPos prevLastPos overlappingCount resolved with
  | nil =>
      cases h
      exact ⟨rfl, fun _ hmem => absurd hmem List.not_mem_nil⟩
  | cons r ranges ih =>
      rw [resolveRanges] at h
      dsimp only at h
      split at h
      · cases h
      rename_i hbounds
      split at h
      · cases h
      split at h
      · cases h
      obtain ⟨rest, hrest, rfl⟩ := Option.map_eq_some_iff.mp h
      obtain ⟨hlength, hinside⟩ := ih hrest
      refine ⟨by rw [List.length_cons, hlength, List.length_cons], fun r' hr' => ?_⟩
      rcases List.mem_cons.mp hr' with rfl | hr'
      · simp only [Bool.not_eq_true', Bool.not_eq_false, Bool.and_eq_true,
          decide_eq_true_eq] at hbounds
        exact ⟨hbounds.1.1, hbounds.1.2, by omega⟩
      · exact hinside r' hr'

theorem rangeError_nil (status : Int) (contentLen : Nat) :
    rangeError [] status contentLen = some [] := rfl

/-- The ranges of a response without success are left as they were asked for. -/
theorem rangeError_refusal {status : Int} (h : isSuccess status = false) (ranges : Ranges)
    (contentLen : Nat) : rangeError ranges status contentLen = some ranges := by
  rw [rangeError, h, if_pos (by simp)]

theorem rangeError_inside {ranges resolved : Ranges} {status : Int} {contentLen : Nat}
    (success : isSuccess status = true)
    (h : rangeError ranges status contentLen = some resolved) :
    resolved.length = ranges.length ∧ ∀ r ∈ resolved, Range.Inside contentLen r := by
  rw [rangeError, success] at h
  split at h
  · rename_i hempty
    have hnil : ranges = [] := by simpa using hempty
    cases h
    rw [hnil]
    exact ⟨rfl, fun _ hmem => absurd hmem List.not_mem_nil⟩
  · split at h
    · cases h
    · exact resolveRanges_inside h

/-- Nothing can be taken from an empty content. -/
theorem rangeError_empty {ranges : Ranges} {status : Int} (asked : ranges ≠ [])
    (success : isSuccess status = true) : rangeError ranges status 0 = none := by
  cases h : rangeError ranges status 0 with
  | none => rfl
  | some resolved =>
      obtain ⟨hlength, hinside⟩ := rangeError_inside success h
      obtain ⟨r, rest, rfl⟩ := List.exists_cons_of_length_pos
        (by rw [hlength]; exact List.length_pos_iff.mpr asked)
      obtain ⟨hfirst, hle, hlast⟩ := hinside r List.mem_cons_self
      have hzero : r.2 < 0 := hlast
      omega

/-! ## What is cut -/

theorem toSizeT_eq {n : Int} (h : 0 ≤ n) (h' : n < 2 ^ 64) : toSizeT n = n.toNat := by
  rw [toSizeT, Int.emod_eq_of_lt h h']

/-- A range within the body is cut out of it, in either build. -/
theorem cutRange_inside {body : Bytes} {r : Range} (inside : Range.Inside body.length r)
    (small : body.length < 2 ^ 63) (ndebug : Bool) :
    ∃ field, cutRange ndebug body r =
      some (field, (body.drop r.1.toNat).take (r.2 - r.1 + 1).toNat) := by
  obtain ⟨hfirst, hle, hlast⟩ := inside
  have hbounds : (ndebug || (r.1 ≠ -1 && r.2 ≠ -1 && 0 ≤ r.1 && r.1 < body.length && r.1 ≤ r.2 &&
      r.2 < body.length)) = true := by
    simp only [Bool.or_eq_true, Bool.and_eq_true, decide_eq_true_eq]
    omega
  have hoffset : toSizeT r.1 = r.1.toNat := toSizeT_eq hfirst (by omega)
  have hlength : toSizeT (r.2 - r.1 + 1) = (r.2 - r.1 + 1).toNat :=
    toSizeT_eq (by omega) (by omega)
  have hcut : substr body r.1.toNat (r.2 - r.1 + 1).toNat =
      some ((body.drop r.1.toNat).take (r.2 - r.1 + 1).toNat) := if_pos (by omega)
  refine ⟨makeContentRangeHeaderField r.1.toNat (r.2 - r.1 + 1).toNat body.length, ?_⟩
  rw [cutRange, getRangeOffsetAndLength, if_pos hbounds, hoffset, hlength]
  show (substr body r.1.toNat (r.2 - r.1 + 1).toNat).bind _ = _
  rw [hcut]
  rfl

/-- Whether a range can be cut out of a body, as it was asked for. -/
theorem cutRange_isSome_iff {body : Bytes} (small : body.length < 2 ^ 63) {r : Range}
    (first : -1 ≤ r.1 ∧ r.1 < 2 ^ 63) (ndebug : Bool) :
    (cutRange ndebug body r).isSome = true ↔
      if ndebug then 0 ≤ r.1 ∧ r.1 ≤ body.length else Range.Inside body.length r := by
  cases ndebug with
  | true =>
      have hoffset : toSizeT r.1 ≤ body.length ↔ 0 ≤ r.1 ∧ r.1 ≤ body.length := by
        rw [toSizeT]
        omega
      rw [if_pos rfl, ← hoffset, cutRange, getRangeOffsetAndLength, Bool.true_or, if_pos rfl]
      show ((substr body (toSizeT r.1) (toSizeT (r.2 - r.1 + 1))).bind _).isSome = true ↔ _
      by_cases h : toSizeT r.1 ≤ body.length
      · simp [substr, h]
      · simp [substr, h]
  | false =>
      rw [if_neg Bool.false_ne_true]
      constructor
      · intro hsome
        rw [cutRange, getRangeOffsetAndLength, Bool.false_or] at hsome
        by_cases hbounds : (r.1 ≠ -1 && r.2 ≠ -1 && 0 ≤ r.1 && r.1 < body.length && r.1 ≤ r.2 &&
            r.2 < body.length) = true
        · simp only [Bool.and_eq_true, decide_eq_true_eq] at hbounds
          exact ⟨hbounds.1.1.1.2, hbounds.1.2, hbounds.2⟩
        · rw [if_neg hbounds] at hsome
          cases hsome
      · intro inside
        obtain ⟨field, hcut⟩ := cutRange_inside inside small false
        rw [hcut]
        rfl

theorem cutText_nil (ndebug : Bool) (boundary contentType text : Bytes) :
    cutText ndebug boundary contentType text [] = some text := by
  cases text <;> rfl

/-- One range within the text. -/
theorem cutText_inside {text : Bytes} {r : Range} (inside : Range.Inside text.length r)
    (small : text.length < 2 ^ 63) (ndebug : Bool) (boundary contentType : Bytes) :
    cutText ndebug boundary contentType text [r] =
      some ((text.drop r.1.toNat).take (r.2 - r.1 + 1).toNat) := by
  have hne : text ≠ [] := by
    rintro rfl
    obtain ⟨hfirst, hle, hlast⟩ := inside
    have hzero : r.2 < 0 := hlast
    omega
  obtain ⟨field, hcut⟩ := cutRange_inside inside small ndebug
  unfold cutText
  rw [if_neg (by simpa using hne)]
  dsimp only
  rw [hcut]
  rfl

/-- A text is cut where all of the ranges can be cut out of it. -/
theorem cutText_isSome_iff {ndebug : Bool} {boundary contentType text : Bytes} {ranges : Ranges} :
    (cutText ndebug boundary contentType text ranges).isSome = true ↔
      text = [] ∨ ∀ r ∈ ranges, (cutRange ndebug text r).isSome = true := by
  unfold cutText
  by_cases hempty : text = []
  · rw [hempty, List.isEmpty_nil, if_pos rfl]
    exact iff_of_true rfl (.inl rfl)
  have hparts : (makeMultipartRangesData ndebug boundary contentType text ranges).isSome =
      (ranges.mapM (cutRange ndebug text)).isSome := by
    unfold makeMultipartRangesData
    cases ranges.mapM (cutRange ndebug text) <;> rfl
  rw [if_neg (by simpa using hempty), or_iff_right hempty]
  split
  · exact iff_of_true rfl fun _ hmem => absurd hmem List.not_mem_nil
  · rw [Option.isSome_map, List.forall_mem_singleton]
  · rw [hparts, mapM_isSome_iff]

/-- Ranges that nobody has checked. -/
theorem cutText_eq_none_iff {ndebug : Bool} {boundary contentType text : Bytes} {ranges : Ranges}
    (small : text.length < 2 ^ 63) (positions : ∀ r ∈ ranges, -1 ≤ r.1 ∧ r.1 < 2 ^ 63) :
    cutText ndebug boundary contentType text ranges = none ↔
      text ≠ [] ∧ ∃ r ∈ ranges, ¬if ndebug then 0 ≤ r.1 ∧ r.1 ≤ text.length
        else Range.Inside text.length r := by
  rw [← Option.not_isSome_iff_eq_none, cutText_isSome_iff, not_or]
  refine and_congr_right fun _ => ?_
  constructor
  · intro hnone
    obtain ⟨r, hr⟩ := not_forall.mp hnone
    obtain ⟨hr, hnone⟩ := Classical.not_imp.mp hr
    refine ⟨r, hr, fun hcuts => hnone ?_⟩
    exact (cutRange_isSome_iff small (positions r hr) ndebug).mpr hcuts
  · rintro ⟨r, hr, hnot⟩ hsome
    exact hnot ((cutRange_isSome_iff small (positions r hr) ndebug).mp (hsome r hr))

/-- Checked ranges can be cut out of the text that they were checked against. -/
theorem cutText_of_success {ranges resolved : Ranges} {status : Int} {text : Bytes}
    (success : isSuccess status = true) (small : text.length < 2 ^ 63)
    (resolves : rangeError ranges status text.length = some resolved) (ndebug : Bool)
    (boundary contentType : Bytes) :
    cutText ndebug boundary contentType text resolved ≠ none := by
  rw [← Option.isSome_iff_ne_none]
  refine cutText_isSome_iff.mpr (.inr fun r hr => ?_)
  obtain ⟨field, hcut⟩ :=
    cutRange_inside ((rangeError_inside success resolves).2 r hr) small ndebug
  rw [hcut]
  rfl

end CortexOnnx

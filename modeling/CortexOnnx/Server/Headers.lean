import CortexOnnx.Lib.Multimap
import CortexOnnx.Server.ChunkedBodies
import CortexOnnx.Server.Wire
import Mathlib.Data.List.DropRight
import Mathlib.Data.List.Lex

/-!
# Header blocks

`httplib::Headers` with `set_header`, `write_headers` and `read_headers`.  A value may come from the
other side, as the `Origin` that every handler repeats; whatever bytes it has, the block is read
back as the fields that were set, and what follows it is left alone.
-/

namespace CortexOnnx

/-! ## Fields -/

/-- `::tolower` in the C locale. -/
def toLower (c : UInt8) : Nat :=
  if 65 ≤ c.toNat ∧ c.toNat ≤ 90 then c.toNat + 32 else c.toNat

/-- What `detail::ci` compares. -/
def ciKey (field : Bytes × Bytes) : List Nat := field.1.map toLower

/-- `httplib::Headers`, names and values. -/
abbrev Headers := Multimap ciKey

def compareCaseIgnore (a b : Bytes) : Bool := a.map toLower = b.map toLower

/-- The bytes that are read through `c_str()`. -/
def cStr (s : Bytes) : Bytes := s.takeWhile (· ≠ 0)

def hasCrlf (s : Bytes) : Bool := (cStr s).any fun c => c == 13 || c == 10

namespace Headers

def has (headers : Headers) (key : Bytes) : Bool := (headers.find (key.map toLower)).isSome

/-- `get_header_value`, whose result is a C string. -/
def getHeaderValue (headers : Headers) (key : Bytes) : Bytes :=
  ((headers.find (key.map toLower)).map fun field => cStr field.2).getD []

/-- `set_header` of a request and of a response. -/
def setHeader (headers : Headers) (key val : Bytes) : Headers :=
  if !hasCrlf key && !hasCrlf val then headers.emplace (key, val) else headers

end Headers

/-! ## Writing -/

/-- One line of `write_headers`. -/
def headerLine (field : Bytes × Bytes) : Bytes :=
  cStr field.1 ++ [58, 32] ++ cStr field.2 ++ crlf

def writeHeaders (headers : Headers) : Bytes := headers.entries.flatMap headerLine ++ crlf

/-! ## Decoding -/

/-- `from_hex_to_i`, at the front of what is left. -/
def fromHexToI : Nat → Nat → Bytes → Option Nat
  | 0, val, _ => some val
  | _ + 1, _, [] => none
  | cnt + 1, val, c :: s =>
      match hexDigitValue? c with
      | some v => fromHexToI cnt (val * 16 + v) s
      | none => none

def toUtf8 (code : Nat) : Bytes :=
  let last := UInt8.ofNat (128 + code % 64)
  if code < 0x80 then [UInt8.ofNat code]
  else if code < 0x800 then [UInt8.ofNat (192 + code / 64 % 32), last]
  else if code < 0xD800 then
    [UInt8.ofNat (224 + code / 4096 % 16), UInt8.ofNat (128 + code / 64 % 64), last]
  -- surrogates
  else if code < 0xE000 then []
  else if code < 0x10000 then
    [UInt8.ofNat (224 + code / 4096 % 16), UInt8.ofNat (128 + code / 64 % 64), last]
  else if code < 0x110000 then
    [UInt8.ofNat (240 + code / 262144 % 8), UInt8.ofNat (128 + code / 4096 % 64),
      UInt8.ofNat (128 + code / 64 % 64), last]
  else []

/-- The bytes that an escape at the front stands for, and how many follow its percent sign. -/
def escape? : Bytes → Option (Bytes × Nat)
  | 37 :: 117 :: s => (fromHexToI 4 0 s).map fun val => (toUtf8 val, 5)
  | 37 :: c :: s => (fromHexToI 2 0 (c :: s)).map fun val => ([UInt8.ofNat val], 2)
  | _ => none

/-- The loop of `decode_url`, which passes over `skip` bytes. -/
def decodeUrlFrom (convertPlusToSpace : Bool) : Nat → Bytes → Bytes
  | _, [] => []
  | skip + 1, _ :: s => decodeUrlFrom convertPlusToSpace skip s
  | 0, c :: s =>
      match escape? (c :: s) with
      | some (bytes, skip) => bytes ++ decodeUrlFrom convertPlusToSpace skip s
      | none =>
          (if convertPlusToSpace && c == 43 then 32 else c) :: decodeUrlFrom convertPlusToSpace 0 s

def decodeUrl (s : Bytes) (convertPlusToSpace : Bool) : Bytes :=
  decodeUrlFrom convertPlusToSpace 0 s

/-! ## Reading -/

def isSpaceOrTab (c : UInt8) : Bool := c == 32 || c == 9

/-- The value of a field as `parse_header` passes it on. -/
def decodeValue (key val : Bytes) : Bytes :=
  if compareCaseIgnore key (utf8 "Location") then val else decodeUrl val false

/-- `parse_header`, on a line without its end. -/
def parseHeader (line : Bytes) : Option (Bytes × Bytes) :=
  let line := line.rdropWhile isSpaceOrTab
  let key := line.takeWhile (· ≠ 58)
  match line.dropWhile (· ≠ 58) with
  | [] => none
  | _ :: p =>
      let val := p.dropWhile isSpaceOrTab
      if val.isEmpty || key.isEmpty then none else some (key, decodeValue key val)

/-- `stream_line_reader::end_with_crlf` -/
def endWithCrlf (line : Bytes) : Bool := line.drop (line.length - 2) = crlf

/-- The loop of `read_headers`.  Every line shortens the input. -/
def readHeaderLines : Nat → Headers → Bytes → Option (Headers × Bytes)
  | 0, _, _ => none
  | fuel + 1, headers, input =>
      match getline input with
      | none => none
      | some (line, input) =>
          -- an invalid line is skipped
          if !endWithCrlf line then readHeaderLines fuel headers input
          else if line.length = 2 then some (headers, input)
          else if line.length > headerMaxLength then none
          else
            let field? := parseHeader (line.take (line.length - 2))
            readHeaderLines fuel (field?.elim headers headers.emplace) input

def readHeaders (input : Bytes) : Option (Headers × Bytes) :=
  readHeaderLines (input.length + 1) .empty input

/-! ## One field -/

/-- A name that neither ends its line nor its field. -/
def PlainName (key : Bytes) : Prop :=
  key ≠ [] ∧ ∀ c ∈ key, c ≠ 0 ∧ c ≠ 10 ∧ c ≠ 13 ∧ c ≠ 58

instance : DecidablePred PlainName := fun key =>
  @instDecidableAnd _ _ _ (List.decidableBAll _ key)

/-- A field as the other side gets it: without the spaces around its value, which is decoded, and
not at all where nothing is left. -/
def receivedField (field : Bytes × Bytes) : Option (Bytes × Bytes) :=
  let val := ((cStr field.2).rdropWhile isSpaceOrTab).dropWhile isSpaceOrTab
  if val.isEmpty then none else some (field.1, decodeValue field.1 val)

theorem receivedField_key (field field' : Bytes × Bytes) (h : receivedField field = some field') :
    ciKey field' = ciKey field := by
  rw [receivedField] at h
  split at h
  · cases h
  · cases h
    rfl

theorem cStr_of_plain {key : Bytes} (h : PlainName key) : cStr key = key :=
  List.takeWhile_eq_self_iff.mpr fun c hc => decide_eq_true (h.2 c hc).1

theorem hasCrlf_of_plain {key : Bytes} (h : PlainName key) : hasCrlf key = false := by
  rw [hasCrlf, cStr_of_plain h, List.any_eq_false]
  intro c hc
  obtain ⟨_, hlf, hcr, _⟩ := h.2 c hc
  simp [hlf, hcr]

theorem rdropWhile_append {p : UInt8 → Bool} (xs ys : Bytes) :
    (xs ++ ys).rdropWhile p =
      if ys.rdropWhile p = [] then xs.rdropWhile p else xs ++ ys.rdropWhile p := by
  rw [List.rdropWhile, List.reverse_append, List.dropWhile_append]
  by_cases hys : ys.reverse.dropWhile p = []
  · simp [List.rdropWhile, hys]
  · simp [List.rdropWhile, hys]

/-- Up to the first colon. -/
theorem takeWhile_key {key : Bytes} (h : PlainName key) (after : Bytes) :
    (key ++ 58 :: after).takeWhile (· ≠ 58) = key ∧
      (key ++ 58 :: after).dropWhile (· ≠ 58) = 58 :: after := by
  have hkey : ∀ c ∈ key, decide (c ≠ 58) = true := fun c hc => decide_eq_true (h.2 c hc).2.2.2
  rw [List.takeWhile_append_of_pos hkey, List.dropWhile_append_of_pos hkey]
  exact ⟨by simp, by simp⟩

theorem parseHeader_line {key : Bytes} (h : PlainName key) (val : Bytes) :
    parseHeader (key ++ [58, 32] ++ cStr val) = receivedField (key, val) := by
  have hname : key.isEmpty = false := List.isEmpty_eq_false_iff.mpr h.1
  obtain ⟨after, hline, htrim⟩ : ∃ after,
      (key ++ [58, 32] ++ cStr val).rdropWhile isSpaceOrTab = key ++ 58 :: after ∧
        after.dropWhile isSpaceOrTab =
          ((cStr val).rdropWhile isSpaceOrTab).dropWhile isSpaceOrTab := by
    rw [rdropWhile_append]
    split_ifs with hblank
    · -- the space behind the colon goes as well
      refine ⟨[], ?_, by rw [hblank]⟩
      have hspace : key ++ [58, 32] = key ++ [58] ++ [32] := by simp
      rw [hspace, List.rdropWhile_concat_pos _ (key ++ [58]) 32 (by decide)]
      exact List.rdropWhile_concat_neg _ key 58 (by decide)
    · exact ⟨32 :: (cStr val).rdropWhile isSpaceOrTab, by simp, by simp [isSpaceOrTab]⟩
  obtain ⟨hkey, hafter⟩ := takeWhile_key h after
  rw [parseHeader, receivedField, hline, hkey, hafter]
  dsimp only
  rw [htrim, hname, Bool.or_false]

/-! ## Lines -/

/-- What `set_header` lets through is printed without a line end of its own. -/
theorem newline_not_mem_cStr {s : Bytes} (h : hasCrlf s = false) : (10 : UInt8) ∉ cStr s := by
  intro hmem
  rw [hasCrlf, List.any_eq_false] at h
  exact h 10 hmem rfl

theorem endWithCrlf_append (line : Bytes) : endWithCrlf (line ++ crlf) = true := by
  rw [endWithCrlf, List.length_append, decide_eq_true_eq]
  exact List.drop_left' (by simp [crlf])

section Line

variable {field : Bytes × Bytes} (hname : PlainName field.1) (hval : hasCrlf field.2 = false)
include hname hval

theorem getline_headerLine (rest : Bytes) :
    getline (headerLine field ++ rest) = some (headerLine field, rest) := by
  have hline : (10 : UInt8) ∉ cStr field.1 ++ [58, 32] ++ cStr field.2 ++ [13] := by
    simp only [List.mem_append, not_or]
    exact ⟨⟨⟨newline_not_mem_cStr (hasCrlf_of_plain hname), by decide⟩,
      newline_not_mem_cStr hval⟩, by decide⟩
  have hsplit := getline_append hline rest
  simpa [headerLine, crlf] using hsplit

/-- One turn of the reader on a line that was written. -/
theorem readHeaderLines_line (fuel : Nat) (headers : Headers) (rest : Bytes) :
    readHeaderLines (fuel + 1) headers (headerLine field ++ rest) =
      if (headerLine field).length > headerMaxLength then none
      else readHeaderLines fuel ((receivedField field).elim headers headers.emplace) rest := by
  have hlong : (headerLine field).length ≠ 2 := by
    simp [headerLine, crlf]
    omega
  have hcut : (headerLine field).take ((headerLine field).length - 2) =
      field.1 ++ [58, 32] ++ cStr field.2 := by
    rw [headerLine, cStr_of_plain hname, List.length_append]
    exact List.take_left' (by simp [crlf])
  have hend : endWithCrlf (headerLine field) = true := endWithCrlf_append _
  rw [readHeaderLines, getline_headerLine hname hval]
  dsimp only
  rw [hend, if_neg (by decide), if_neg hlong, hcut, parseHeader_line hname]

end Line

theorem readHeaderLines_end (fuel : Nat) (headers : Headers) (rest : Bytes) :
    readHeaderLines (fuel + 1) headers (crlf ++ rest) = some (headers, rest) := by
  rw [readHeaderLines, getline_crlf]
  rfl

/-! ## Blocks -/

namespace Headers

/-- Headers that `write_headers` writes as one line each. -/
structure Writable (headers : Headers) : Prop where
  names : ∀ field ∈ headers.entries, PlainName field.1
  values : ∀ field ∈ headers.entries, hasCrlf field.2 = false

theorem writable_empty : Writable .empty :=
  ⟨fun _ h => absurd h List.not_mem_nil, fun _ h => absurd h List.not_mem_nil⟩

theorem Writable.subset {headers headers' : Headers} (h : headers.Writable)
    (hsub : headers'.entries ⊆ headers.entries) : headers'.Writable :=
  ⟨fun field hfield => h.names field (hsub hfield),
    fun field hfield => h.values field (hsub hfield)⟩

/-- Whatever the value is: it is refused, or it does no harm. -/
theorem Writable.setHeader {headers : Headers} (h : headers.Writable) {key : Bytes}
    (hkey : PlainName key) (val : Bytes) : (headers.setHeader key val).Writable := by
  rw [Headers.setHeader]
  split
  · rename_i hpass
    rw [hasCrlf_of_plain hkey, Bool.not_false, Bool.true_and, Bool.not_eq_true'] at hpass
    refine ⟨fun field hfield => ?_, fun field hfield => ?_⟩
    · rcases Multimap.mem_emplace.mp hfield with rfl | hfield
      · exact hkey
      · exact h.names field hfield
    · rcases Multimap.mem_emplace.mp hfield with rfl | hfield
      · exact hpass
      · exact h.values field hfield
  · exact h

/-- The header table of the other side. -/
def received (headers : Headers) : Headers := headers.filterMap receivedField receivedField_key

/-- Every line is short enough for the reader. -/
def fits (headers : Headers) : Bool :=
  headers.entries.all fun field => (headerLine field).length ≤ headerMaxLength

end Headers

/-- The lines of a block, one after the other. -/
theorem readHeaderLines_block (fields : List (Bytes × Bytes))
    (hnames : ∀ field ∈ fields, PlainName field.1)
    (hvalues : ∀ field ∈ fields, hasCrlf field.2 = false) (fuel : Nat) (headers : Headers)
    (rest : Bytes) :
    readHeaderLines (fuel + fields.length + 1) headers (fields.flatMap headerLine ++ crlf ++ rest) =
      if fields.all fun field => (headerLine field).length ≤ headerMaxLength then
        some ((fields.filterMap receivedField).foldl Multimap.emplace headers, rest)
      else none := by
  induction fields generalizing headers with
  | nil => exact readHeaderLines_end fuel headers rest
  | cons field fields ih =>
      have hlater := ih (fun f hf => hnames f (List.mem_cons_of_mem _ hf))
        (fun f hf => hvalues f (List.mem_cons_of_mem _ hf))
        ((receivedField field).elim headers headers.emplace)
      have hline := readHeaderLines_line (hnames field List.mem_cons_self)
        (hvalues field List.mem_cons_self) (fuel + fields.length + 1) headers
        (fields.flatMap headerLine ++ crlf ++ rest)
      rw [List.flatMap_cons, List.append_assoc, List.append_assoc, ← List.append_assoc _ crlf,
        List.length_cons, ← Nat.add_assoc, hline, hlater, List.all_cons]
      by_cases hshort : (headerLine field).length ≤ headerMaxLength
      · rw [if_neg (Nat.not_lt.mpr hshort), decide_eq_true hshort, Bool.true_and]
        cases hreceived : receivedField field with
        | none => rw [List.filterMap_cons_none hreceived, Option.elim_none]
        | some field' => rw [List.filterMap_cons_some hreceived, Option.elim_some, List.foldl_cons]
      · rw [if_pos (Nat.lt_of_not_le hshort), decide_eq_false hshort, Bool.false_and]
        rfl

theorem length_le_headerLines (fields : List (Bytes × Bytes)) :
    fields.length ≤ (fields.flatMap headerLine).length := by
  induction fields with
  | nil => exact Nat.le_refl 0
  | cons field fields ih =>
      have hline : 0 < (headerLine field).length := by simp [headerLine, crlf]
      rw [List.flatMap_cons, List.length_cons, List.length_append]
      omega

theorem readHeaders_writeHeaders {headers : Headers} (h : headers.Writable) (rest : Bytes) :
    readHeaders (writeHeaders headers ++ rest) =
      if headers.fits then some (headers.received, rest) else none := by
  have hcount := length_le_headerLines headers.entries
  obtain ⟨fuel, hfuel⟩ : ∃ fuel, (writeHeaders headers ++ rest).length + 1 =
      fuel + headers.entries.length + 1 := by
    refine ⟨(writeHeaders headers ++ rest).length - headers.entries.length, ?_⟩
    rw [writeHeaders, List.length_append, List.length_append]
    omega
  have hreceived : (headers.entries.filterMap receivedField).foldl Multimap.emplace .empty =
      headers.received := Multimap.ofList_filterMap headers receivedField receivedField_key
  rw [readHeaders, hfuel, writeHeaders,
    readHeaderLines_block headers.entries h.names h.values fuel .empty rest, hreceived]
  rfl

/-! ## What a block takes -/

/-- The block ends with its own blank line. -/
theorem readHeaderLines_frames {fuel : Nat} {headers headers' : Headers} {input rest : Bytes}
    (h : readHeaderLines fuel headers input = some (headers', rest)) :
    ∃ used, input = used ++ rest ∧ 0 < used.length ∧ ∀ fuel', used.length ≤ fuel' → ∀ more,
      readHeaderLines fuel' headers (used ++ more) = some (headers', more) := by
  induction fuel generalizing headers input with
  | zero => cases h
  | succ fuel ih =>
      rw [readHeaderLines] at h
      cases hline : getline input with
      | none =>
          rw [hline] at h
          cases h
      | some pair =>
          obtain ⟨line, input'⟩ := pair
          obtain ⟨hinput, hpositive, hwhole, hrest⟩ := getline_split hline
          rw [hline] at h
          dsimp only at h
          -- a line after which the reader goes on, with the fields that it has then
          have hagain : ∀ headers₁, readHeaderLines fuel headers₁ input' = some (headers', rest) →
              (∀ left more, (10 : UInt8) ∈ line →
                readHeaderLines (left + 1) headers (line ++ more) =
                  readHeaderLines left headers₁ more) →
              ∃ used, input = used ++ rest ∧ 0 < used.length ∧ ∀ fuel', used.length ≤ fuel' →
                ∀ more, readHeaderLines fuel' headers (used ++ more) = some (headers', more) := by
            intro headers₁ hlater hturn
            obtain ⟨used, hused, hsome, hframes⟩ := ih hlater
            have hmore : input' ≠ [] := by
              rintro rfl
              have hlength := congrArg List.length hused
              rw [List.length_append, List.length_nil] at hlength
              omega
            refine ⟨line ++ used, ?_, ?_, fun fuel' hfuel more => ?_⟩
            · rw [hinput, hused, List.append_assoc]
            · rw [List.length_append]
              omega
            · rw [List.length_append] at hfuel
              obtain ⟨left, rfl⟩ : ∃ left, fuel' = left + 1 := ⟨fuel' - 1, by omega⟩
              rw [List.append_assoc, hturn left _ (hrest hmore)]
              exact hframes left (by omega) more
          split at h
          · rename_i hinvalid
            refine hagain headers h fun left more hnewline => ?_
            rw [readHeaderLines, hwhole hnewline]
            dsimp only
            rw [if_pos hinvalid]
          · rename_i hvalid
            split at h
            · rename_i hblank
              cases h
              have hcrlf : line = crlf := by
                simpa [endWithCrlf, hblank] using hvalid
              refine ⟨line, hinput, hpositive, fun fuel' hfuel more => ?_⟩
              obtain ⟨left, rfl⟩ := Nat.exists_eq_add_of_le' (Nat.le_trans hpositive hfuel)
              rw [hcrlf]
              exact readHeaderLines_end left _ more
            · rename_i hfield
              split at h
              · cases h
              · rename_i hshort
                refine hagain _ h fun left more hnewline => ?_
                rw [readHeaderLines, hwhole hnewline]
                dsimp only
                rw [if_neg hvalid, if_neg hfield, if_neg hshort]

theorem selfDelimiting_readHeaders : SelfDelimiting readHeaders := by
  intro input headers rest h
  obtain ⟨used, hinput, _, hframes⟩ := readHeaderLines_frames h
  refine ⟨used, hinput, fun more => hframes _ ?_ more⟩
  rw [List.length_append]
  omega

/-- A block that was cut off is not accepted, whether or not the reader would take all of it. -/
theorem readHeaders_cut {headers : Headers} (h : headers.Writable) {k : Nat}
    (hk : k < (writeHeaders headers).length) :
    readHeaders ((writeHeaders headers).take k) = none := by
  by_cases hfits : headers.fits = true
  · have hframes : Frames readHeaders (writeHeaders headers) headers.received := by
      intro more
      rw [readHeaders_writeHeaders h, if_pos hfits]
    exact selfDelimiting_readHeaders.prefix_none hframes hk
  · by_contra hsome
    obtain ⟨⟨headers', rest⟩, hread⟩ := Option.ne_none_iff_exists'.mp hsome
    obtain ⟨used, hused, hframes⟩ := selfDelimiting_readHeaders _ _ _ hread
    have hwhole := hframes (rest ++ (writeHeaders headers).drop k)
    rw [← List.append_assoc, ← hused, List.take_append_drop,
      ← List.append_nil (writeHeaders headers), readHeaders_writeHeaders h,
      if_neg hfits] at hwhole
    cases hwhole

namespace Headers

/-- Fields set one after the other. -/
def ofFields (fields : List (Bytes × Bytes)) : Headers :=
  fields.foldl (fun headers field => headers.setHeader field.1 field.2) .empty

theorem mem_setHeader {headers : Headers} {key : Bytes} (hkey : PlainName key) {val : Bytes}
    {field : Bytes × Bytes} : field ∈ (headers.setHeader key val).entries ↔
      (field = (key, val) ∧ hasCrlf val = false) ∨ field ∈ headers.entries := by
  rw [setHeader, hasCrlf_of_plain hkey, Bool.not_false, Bool.true_and]
  cases hval : hasCrlf val with
  | false => simp [Multimap.mem_emplace]
  | true => simp

theorem ofFields_append (fields : List (Bytes × Bytes)) (field : Bytes × Bytes) :
    ofFields (fields ++ [field]) = (ofFields fields).setHeader field.1 field.2 := by
  rw [ofFields, List.foldl_append]
  rfl

theorem writable_ofFields {fields : List (Bytes × Bytes)}
    (h : ∀ field ∈ fields, PlainName field.1) : (ofFields fields).Writable := by
  induction fields using List.reverseRecOn with
  | nil => exact writable_empty
  | append_singleton fields field ih =>
      rw [ofFields_append]
      exact (ih fun f hf => h f (List.mem_append_left _ hf)).setHeader (h field (by simp)) field.2

theorem mem_ofFields {fields : List (Bytes × Bytes)} (h : ∀ field ∈ fields, PlainName field.1)
    {field : Bytes × Bytes} :
    field ∈ (ofFields fields).entries ↔ field ∈ fields ∧ hasCrlf field.2 = false := by
  induction fields using List.reverseRecOn with
  | nil => simp [ofFields, Multimap.empty]
  | append_singleton fields last ih =>
      rw [ofFields_append, mem_setHeader (h last (by simp)),
        ih fun f hf => h f (List.mem_append_left _ hf), List.mem_append, List.mem_singleton]
      constructor
      · rintro (⟨rfl, hval⟩ | ⟨hfield, hval⟩)
        · exact ⟨.inr rfl, hval⟩
        · exact ⟨.inl hfield, hval⟩
      · rintro ⟨hfield | rfl, hval⟩
        · exact .inr ⟨hfield, hval⟩
        · exact .inl ⟨rfl, hval⟩

/-- **No injection.**  Whatever the values are that were set, the block is read back as the fields
that `set_header` let through, no other, and what follows stays for the body.  It is refused where
one of its lines is too long, and where it was cut off. -/
theorem block_received (fields : List (Bytes × Bytes))
    (hnames : ∀ field ∈ fields, PlainName field.1) :
    (∀ rest, readHeaders (writeHeaders (ofFields fields) ++ rest) =
        if (ofFields fields).fits then some ((ofFields fields).received, rest) else none) ∧
      (∀ field, field ∈ (ofFields fields).received.entries ↔
        ∃ set ∈ fields, hasCrlf set.2 = false ∧ receivedField set = some field) ∧
      ∀ k < (writeHeaders (ofFields fields)).length,
        readHeaders ((writeHeaders (ofFields fields)).take k) = none := by
  have hwritable := writable_ofFields hnames
  refine ⟨readHeaders_writeHeaders hwritable, fun field => ?_, fun k => readHeaders_cut hwritable⟩
  show field ∈ (ofFields fields).entries.filterMap receivedField ↔ _
  rw [List.mem_filterMap]
  constructor
  · rintro ⟨set, hset, hfield⟩
    obtain ⟨hset, hval⟩ := (mem_ofFields hnames).mp hset
    exact ⟨set, hset, hval, hfield⟩
  · rintro ⟨set, hset, hval, hfield⟩
    exact ⟨set, (mem_ofFields hnames).mpr ⟨hset, hval⟩, hfield⟩

/-- An origin with a second header in it, once as it is and once in escapes. -/
def injected : List (Bytes × Bytes) :=
  [(utf8 "Origin", utf8 "a\r\nX: b"), (utf8 "Content-Length", utf8 "2"),
    (utf8 "Origin", utf8 "a%0d%0aX: b")]

theorem block_received_injected : readHeaders (writeHeaders (ofFields injected) ++ utf8 "ok") =
      some ((ofFields injected).received, utf8 "ok") ∧
    (ofFields injected).received.entries =
      [(utf8 "Content-Length", utf8 "2"), (utf8 "Origin", utf8 "a\r\nX: b")] := by
  have hread := (block_received injected (by decide)).1 (utf8 "ok")
  rw [if_pos (by decide)] at hread
  exact ⟨hread, by decide⟩

end Headers

end CortexOnnx

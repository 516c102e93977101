import CortexOnnx.Lib.SelfDelimiting
import CortexOnnx.Server.ChunkedTransfer

/-!
# Bodies that are accepted

What `read_content_chunked` takes from its input when it accepts a body, whoever wrote it: whole
lines and counted bytes, so what follows on the connection has no influence.
-/

namespace CortexOnnx

/-! ## Whole lines -/

theorem splitLine_eq {input line rest : Bytes} (h : splitLine input = (line, rest)) :
    input = line ++ rest := by
  induction input generalizing line with
  | nil =>
      cases h
      rfl
  | cons byte input ih =>
      rw [splitLine] at h
      split at h
      · cases h
        rfl
      · cases h
        exact congrArg (byte :: ·) (ih rfl)

/-- A line before the end of the input is a whole line. -/
theorem newline_of_rest {input line rest : Bytes} (h : splitLine input = (line, rest))
    (hrest : rest ≠ []) : (10 : UInt8) ∈ line := by
  by_contra hnone
  induction input generalizing line with
  | nil =>
      cases h
      exact hrest rfl
  | cons byte input ih =>
      rw [splitLine] at h
      split at h
      · rename_i hbyte
        cases h
        exact hnone (hbyte ▸ List.mem_cons_self)
      · cases h
        exact ih rfl fun hmem => hnone (List.mem_cons_of_mem _ hmem)

/-- A whole line is read alike whatever follows it. -/
theorem splitLine_whole {input line rest : Bytes} (h : splitLine input = (line, rest))
    (hnewline : (10 : UInt8) ∈ line) (more : Bytes) : splitLine (line ++ more) = (line, more) := by
  induction input generalizing line with
  | nil =>
      cases h
      cases hnewline
  | cons byte input ih =>
      rw [splitLine] at h
      split at h
      · rename_i hbyte
        cases h
        show splitLine (byte :: more) = _
        rw [splitLine, if_pos hbyte]
      · rename_i hbyte
        cases h
        have hmem : (10 : UInt8) ∈ (splitLine input).1 := by
          rcases List.mem_cons.mp hnewline with hsame | hmem
          · exact absurd hsame.symm hbyte
          · exact hmem
        rw [List.cons_append, splitLine, if_neg hbyte, ih rfl hmem]

theorem getline_split {input line rest : Bytes} (h : getline input = some (line, rest)) :
    input = line ++ rest ∧ 0 < line.length ∧
      ((10 : UInt8) ∈ line → ∀ more, getline (line ++ more) = some (line, more)) ∧
      (rest ≠ [] → (10 : UInt8) ∈ line) := by
  rw [getline] at h
  split at h
  · cases h
  · rename_i hinput
    have hsplit : splitLine input = (line, rest) := Option.some.inj h
    have hline : line ≠ [] := by
      rintro rfl
      cases input with
      | nil => exact hinput rfl
      | cons byte input =>
          rw [splitLine] at hsplit
          split at hsplit <;> cases hsplit
    refine ⟨splitLine_eq hsplit, List.length_pos_iff.mpr hline, fun hnewline more => ?_,
      newline_of_rest hsplit⟩
    rw [getline, splitLine_whole hsplit hnewline, if_neg (by simp [hline])]

theorem newline_of_isCrlf {line : Bytes} (h : isCrlf line = true) : (10 : UInt8) ∈ line := by
  have hcrlf : line.takeWhile (· ≠ 0) = crlf := of_decide_eq_true h
  have hmem : (10 : UInt8) ∈ line.takeWhile (· ≠ 0) := by
    rw [hcrlf]
    decide
  exact List.takeWhile_subset _ hmem

/-! ## Trailers and chunks -/

/-- The trailer ends with its own last line. -/
theorem readTrailer_frames {fuel : Nat} {input rest : Bytes}
    (h : readTrailer fuel input = some rest) : ∃ used, input = used ++ rest ∧ 0 < used.length ∧
      ∀ fuel', used.length ≤ fuel' → ∀ more, readTrailer fuel' (used ++ more) = some more := by
  induction fuel generalizing input with
  | zero => cases h
  | succ fuel ih =>
      rw [readTrailer] at h
      cases hline : getline input with
      | none =>
          rw [hline] at h
          cases h
      | some pair =>
          obtain ⟨line, input'⟩ := pair
          obtain ⟨hinput, hpositive, hwhole, hrest⟩ := getline_split hline
          rw [hline] at h
          dsimp only at h
          split at h
          · rename_i hcrlf
            cases h
            refine ⟨line, hinput, hpositive, fun fuel' hfuel more => ?_⟩
            obtain ⟨left, rfl⟩ := Nat.exists_eq_add_of_le' (Nat.le_trans hpositive hfuel)
            rw [readTrailer, hwhole (newline_of_isCrlf hcrlf)]
            dsimp only
            rw [if_pos hcrlf]
          · rename_i hcrlf
            split at h
            · cases h
            · rename_i hshort
              obtain ⟨used, hused, hsome, hframes⟩ := ih h
              have hmore : input' ≠ [] := by
                rintro rfl
                have hlength := congrArg List.length hused
                rw [List.length_append, List.length_nil] at hlength
                omega
              refine ⟨line ++ used, ?_, ?_, fun fuel' hfuel more => ?_⟩
              · rw [hinput, hused, List.append_assoc]
              · rw [List.length_append]
                omega
              · rw [List.length_append] at hfuel
                obtain ⟨left, rfl⟩ : ∃ left, fuel' = left + 1 :=
                  ⟨fuel' - 1, by omega⟩
                rw [List.append_assoc, readTrailer, hwhole (hrest hmore)]
                dsimp only
                rw [if_neg hcrlf, if_neg hshort]
                exact hframes left (by omega) more

/-- One turn of the loop that ends in success: the end of the body, or a chunk and the loop
again. -/
inductive Turn (fuel : Nat) (line input body : Bytes) (result : Bytes × Bytes) : Prop
  | last (length : strtoul line = some 0) {rest : Bytes}
      (trailer : readTrailer (input.length + 1) input = some rest) (ends : result = (body, rest))
  | chunk {chunkLen : Nat} {data footer line' input₁ input₂ input₃ : Bytes}
      (length : strtoul line = some chunkLen) (small : chunkLen ≠ ulongMax) (counted : chunkLen ≠ 0)
      (payload : readContentWithLength chunkLen input = some (data, input₁))
      (after : getline input₁ = some (footer, input₂)) (ended : isCrlf footer = true)
      (next : getline input₂ = some (line', input₃))
      (again : readChunks fuel line' input₃ (body ++ data) = some result)

theorem readChunks_turn {fuel : Nat} {line input body : Bytes} {result : Bytes × Bytes} :
    readChunks (fuel + 1) line input body = some result ↔ Turn fuel line input body result := by
  constructor
  · intro h
    rw [readChunks] at h
    split at h
    · cases h
    · rename_i chunkLen hlength
      split at h
      · cases h
      · rename_i hsmall
        split at h
        · rename_i hlast
          obtain ⟨rest, htrailer, hends⟩ := Option.map_eq_some_iff.mp h
          exact .last (hlast ▸ hlength) htrailer hends.symm
        · rename_i hsome
          split at h
          · cases h
          · rename_i data input₁ hpayload
            split at h
            · cases h
            · rename_i footer input₂ hafter
              split at h
              · rename_i hended
                split at h
                · cases h
                · rename_i line' input₃ hnext
                  exact .chunk hlength hsmall hsome hpayload hafter hended hnext h
              · cases h
  · intro h
    rw [readChunks]
    cases h with
    | last length trailer ends =>
        rw [length]
        dsimp only
        rw [if_neg (by decide), if_pos rfl, trailer, ends]
        rfl
    | chunk length small counted payload after ended next again =>
        rw [length]
        dsimp only
        rw [if_neg small, if_neg counted, payload]
        dsimp only
        rw [after]
        dsimp only
        rw [if_pos ended, next]
        exact again

/-- So does the body, from behind the length line of one of its chunks. -/
theorem readChunks_frames {fuel : Nat} {line input body body' rest : Bytes}
    (h : readChunks fuel line input body = some (body', rest)) :
    ∃ used data, input = used ++ rest ∧ body' = body ++ data ∧ 0 < used.length ∧
      ∀ fuel', used.length ≤ fuel' → ∀ more front,
        readChunks fuel' line (used ++ more) front = some (front ++ data, more) := by
  induction fuel generalizing line input body with
  | zero => cases h
  | succ fuel ih =>
      cases readChunks_turn.mp h with
      | last length trailer ends =>
          cases ends
          obtain ⟨used, hused, hpositive, hframes⟩ := readTrailer_frames trailer
          refine ⟨used, [], hused, (List.append_nil _).symm, hpositive, ?_⟩
          intro fuel' hfuel more front
          obtain ⟨left, rfl⟩ := Nat.exists_eq_add_of_le' (Nat.le_trans hpositive hfuel)
          have hend := hframes ((used ++ more).length + 1)
            (by rw [List.length_append]; omega) more
          rw [List.append_nil]
          exact readChunks_turn.mpr (.last length hend rfl)
      | @chunk chunkLen data footer line' input₁ input₂ input₃ length small counted payload after
          ended next again =>
          obtain ⟨used, data', hused, hbody, hpositive, hframes⟩ := ih again
          obtain ⟨hinput₁, hfooter, hwholeFooter, _⟩ := getline_split after
          obtain ⟨hinput₂, hline, hwholeLine, hlineRest⟩ := getline_split next
          have hinput : input = data ++ input₁ ∧ data.length = chunkLen := by
            rw [readContentWithLength] at payload
            split at payload
            · rename_i hlong
              cases payload
              exact ⟨(List.take_append_drop _ _).symm, List.length_take_of_le hlong⟩
            · cases payload
          have hmore : input₃ ≠ [] := by
            rintro rfl
            have hlength := congrArg List.length hused
            rw [List.length_append, List.length_nil] at hlength
            omega
          refine ⟨data ++ (footer ++ (line' ++ used)), data ++ data', ?_, ?_, ?_, ?_⟩
          · rw [hinput.1, hinput₁, hinput₂, hused]
            simp only [List.append_assoc]
          · rw [hbody, List.append_assoc]
          · simp only [List.length_append]
            omega
          · intro fuel' hfuel more front
            simp only [List.length_append] at hfuel
            obtain ⟨left, rfl⟩ : ∃ left, fuel' = left + 1 := ⟨fuel' - 1, by omega⟩
            have hpayload : readContentWithLength chunkLen
                (data ++ (footer ++ (line' ++ used)) ++ more) =
                  some (data, footer ++ (line' ++ (used ++ more))) := by
              rw [readContentWithLength, if_pos (by simp only [List.length_append]; omega),
                ← hinput.2, List.append_assoc, List.take_left, List.drop_left]
              simp only [List.append_assoc]
            have hagain := hframes left (by omega) more (front ++ data)
            rw [List.append_assoc] at hagain
            exact readChunks_turn.mpr (.chunk length small counted hpayload
              (hwholeFooter (newline_of_isCrlf ended) _) ended (hwholeLine (hlineRest hmore) _)
              hagain)

theorem selfDelimiting_readContentChunked : SelfDelimiting readContentChunked := by
  intro input body rest h
  rw [readContentChunked] at h
  cases hline : getline input with
  | none =>
      rw [hline] at h
      cases h
  | some pair =>
      obtain ⟨line, input'⟩ := pair
      rw [hline] at h
      dsimp only at h
      obtain ⟨hinput, _, hwhole, hlineRest⟩ := getline_split hline
      obtain ⟨used, data, hused, hbody, hpositive, hframes⟩ := readChunks_frames h
      have hmore : input' ≠ [] := by
        rintro rfl
        have hlength := congrArg List.length hused
        rw [List.length_append, List.length_nil] at hlength
        omega
      refine ⟨line ++ used, by rw [hinput, hused, List.append_assoc], fun more => ?_⟩
      rw [readContentChunked, List.append_assoc, hwhole (hlineRest hmore), hbody]
      exact hframes _ (by simp only [List.length_append]; omega) more []

/-- **The chunked coding delimits itself**, whoever wrote the body.  A body that is accepted is read
alike whatever follows it, and no part of it that was cut off is accepted. -/
theorem readContentChunked_takes {input body rest : Bytes}
    (h : readContentChunked input = some (body, rest)) : ∃ used, input = used ++ rest ∧
      Frames readContentChunked used body ∧
      ∀ k < used.length, readContentChunked (used.take k) = none := by
  obtain ⟨used, hinput, hframes⟩ := selfDelimiting_readContentChunked _ _ _ h
  exact ⟨used, hinput, hframes, fun _ hk =>
    selfDelimiting_readContentChunked.prefix_none hframes hk⟩

/-- A length in capital digits with an extension, a trailer, and the next request. -/
theorem readContentChunked_takes_trailer : ∃ used : Bytes,
    [66, 59, 120, 13, 10] ++ List.replicate 11 97 ++
        [13, 10, 48, 13, 10, 88, 58, 49, 13, 10, 13, 10, 71, 69, 84] = used ++ [71, 69, 84] ∧
      Frames readContentChunked used (List.replicate 11 97) ∧
      ∀ k < used.length, readContentChunked (used.take k) = none :=
  readContentChunked_takes (by decide)

end CortexOnnx

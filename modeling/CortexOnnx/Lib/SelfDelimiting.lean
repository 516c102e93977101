import Mathlib.Algebra.GroupWithZero.Nat
import Mathlib.Data.List.Basic

/-!
# Self-delimiting formats

A reader that takes a value from the front of its input and leaves the rest.  Where the value is
determined by what was taken, whatever follows, the format is free of prefixes: no part of an
encoding is one itself.  Messages written one after the other are then read back one after the
other, up to the place where the input was cut off.
-/

namespace CortexOnnx

variable {α β γ : Type} {read : List α → Option (β × List α)}

/-- The reader takes exactly `used`, whatever follows. -/
def Frames (read : List α → Option (β × List α)) (used : List α) (value : β) : Prop :=
  ∀ more, read (used ++ more) = some (value, more)

def SelfDelimiting (read : List α → Option (β × List α)) : Prop :=
  ∀ input value rest, read input = some (value, rest) →
    ∃ used, input = used ++ rest ∧ Frames read used value

theorem SelfDelimiting.prefix_none (h : SelfDelimiting read) {used : List α} {value : β}
    (frames : Frames read used value) {k : Nat} (hk : k < used.length) :
    read (used.take k) = none := by
  by_contra hsome
  obtain ⟨⟨value', rest⟩, hread⟩ := Option.ne_none_iff_exists'.mp hsome
  obtain ⟨used', htaken, hframes⟩ := h _ _ _ hread
  -- the part that was left out would be left over as well
  have hwhole : used = used' ++ (rest ++ used.drop k) := by
    rw [← List.append_assoc, ← htaken, List.take_append_drop]
  have hmore := hframes (rest ++ used.drop k)
  have hnone := frames []
  rw [List.append_nil] at hnone
  rw [← hwhole, hnone] at hmore
  have hdrop : used.drop k = [] := by
    have hrest := (Prod.mk.inj (Option.some.inj hmore)).2
    exact (List.append_eq_nil_iff.mp hrest.symm).2
  rw [List.drop_eq_nil_iff] at hdrop
  omega

/-- The reader takes exactly `used`, and accepts no part of it that was cut off. -/
structure Delimits (read : List α → Option (β × List α)) (used : List α) (value : β) : Prop where
  frames : Frames read used value
  cut : ∀ k < used.length, read (used.take k) = none

theorem SelfDelimiting.delimits (h : SelfDelimiting read) {used : List α} {value : β}
    (frames : Frames read used value) : Delimits read used value :=
  ⟨frames, fun _ hk => h.prefix_none frames hk⟩

/-! ## One reader after another -/

section ReadThen

variable {next : β → List α → Option (γ × List α)}

/-- Reads a value and goes on behind it. -/
def readThen (read : List α → Option (β × List α)) (next : β → List α → Option (γ × List α))
    (input : List α) : Option (γ × List α) :=
  (read input).bind fun taken => next taken.1 taken.2

theorem Frames.readThen {used used' : List α} {value : β} {value' : γ}
    (h : Frames read used value) (h' : Frames (next value) used' value') :
    Frames (readThen read next) (used ++ used') value' := by
  intro more
  rw [CortexOnnx.readThen, List.append_assoc, h]
  exact h' more

theorem SelfDelimiting.readThen (h : SelfDelimiting read)
    (h' : ∀ value, SelfDelimiting (next value)) : SelfDelimiting (readThen read next) := by
  intro input value' rest hread
  obtain ⟨⟨value, input'⟩, hfirst, hnext⟩ := Option.bind_eq_some_iff.mp hread
  obtain ⟨used, hused, hframes⟩ := h _ _ _ hfirst
  obtain ⟨used', hused', hframes'⟩ := h' value _ _ _ hnext
  refine ⟨used ++ used', ?_, hframes.readThen hframes'⟩
  calc
    input = used ++ input' := hused
    _ = used ++ (used' ++ rest) := congrArg (used ++ ·) hused'
    _ = used ++ used' ++ rest := (List.append_assoc _ _ _).symm

theorem Delimits.readThen {used used' : List α} {value : β} {value' : γ}
    (h : Delimits read used value) (h' : Delimits (next value) used' value') :
    Delimits (readThen read next) (used ++ used') value' := by
  refine ⟨h.frames.readThen h'.frames, fun k hk => ?_⟩
  rw [CortexOnnx.readThen]
  rcases Nat.lt_or_ge k used.length with hshort | hlong
  · rw [List.take_append_of_le_length (Nat.le_of_lt hshort), h.cut k hshort]
    rfl
  · -- the first part has arrived, and the second is cut off
    obtain ⟨j, rfl⟩ := Nat.exists_eq_add_of_le hlong
    rw [List.length_append] at hk
    rw [List.take_length_add_append, h.frames]
    exact h'.cut j (by omega)

theorem Delimits.map {used : List α} {value : β} (h : Delimits read used value) (f : β → γ) :
    Delimits (fun input => (read input).map fun taken => (f taken.1, taken.2)) used (f value) := by
  refine ⟨fun more => ?_, fun k hk => ?_⟩
  · rw [h.frames]
    rfl
  · rw [h.cut k hk]
    rfl

end ReadThen

/-- A reader that passes over what may stand in front of a value. -/
theorem Delimits.skip {pre used : List α} {value : β} (h : Delimits read used value)
    (hskip : ∀ more, read (pre ++ more) = read more)
    (hcut : ∀ k < pre.length, read (pre.take k) = none) : Delimits read (pre ++ used) value := by
  refine ⟨fun more => ?_, fun k hk => ?_⟩
  · rw [List.append_assoc, hskip]
    exact h.frames more
  · rcases Nat.lt_or_ge k pre.length with hshort | hlong
    · rw [List.take_append_of_le_length (Nat.le_of_lt hshort)]
      exact hcut k hshort
    · obtain ⟨j, rfl⟩ := Nat.exists_eq_add_of_le hlong
      rw [List.length_append] at hk
      rw [List.take_length_add_append, hskip]
      exact h.cut j (by omega)

theorem delimits_nil (value : β) : Delimits (fun input : List α => some (value, input)) [] value :=
  ⟨fun _ => rfl, fun _ hk => absurd hk (Nat.not_lt_zero _)⟩

/-! ## Messages in a row -/

/-- What the readers find, each behind what the one before it took, until one accepts nothing. -/
def readInTurn : List (List α → Option (β × List α)) → List α → List β
  | [], _ => []
  | read :: reads, input =>
      match read input with
      | none => []
      | some (value, rest) => value :: readInTurn reads rest

/-- How many messages of the given lengths are within the first `k` elements. -/
def arrived (k : Nat) : List Nat → Nat
  | [] => 0
  | length :: lengths => if length ≤ k then arrived (k - length) lengths + 1 else 0

/-- Wherever the input is cut off, the messages that arrived are read, and nothing else. -/
theorem readInTurn_take {ι : Type} {reader : ι → List α → Option (β × List α)}
    {used : ι → List α} {value : ι → β} {messages : List ι}
    (h : ∀ message ∈ messages, Delimits (reader message) (used message) (value message))
    (k : Nat) :
    readInTurn (messages.map reader) ((messages.flatMap used).take k) =
      (messages.take (arrived k (messages.map fun message => (used message).length))).map
        value := by
  induction messages generalizing k with
  | nil => rfl
  | cons message messages ih =>
      have hfirst := h message List.mem_cons_self
      rw [List.map_cons, List.flatMap_cons, readInTurn, List.map_cons, arrived]
      split_ifs with harrived
      · obtain ⟨j, rfl⟩ := Nat.exists_eq_add_of_le harrived
        rw [List.take_length_add_append, hfirst.frames, Nat.add_sub_cancel_left]
        dsimp only
        rw [ih fun m hm => h m (List.mem_cons_of_mem _ hm), List.take_succ_cons, List.map_cons]
      · have hshort : k < (used message).length := Nat.lt_of_not_le harrived
        rw [List.take_append_of_le_length (Nat.le_of_lt hshort), hfirst.cut k hshort]
        rfl

theorem arrived_all {lengths : List Nat} {k : Nat} (h : lengths.sum ≤ k) :
    arrived k lengths = lengths.length := by
  induction lengths generalizing k with
  | nil => rfl
  | cons length lengths ih =>
      rw [List.sum_cons] at h
      rw [arrived, if_pos (by omega), ih (by omega), List.length_cons]

end CortexOnnx

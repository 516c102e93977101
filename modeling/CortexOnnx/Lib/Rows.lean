import Mathlib.Algebra.BigOperators.Group.List.Basic
import Mathlib.Algebra.GroupWithZero.Nat
import Mathlib.Data.List.Forall2

/-!
# Lists side by side

What a relation to another list, and a sum of sizes, say after one entry is replaced, and the
relation of a list to what was computed from each of its entries.
-/

namespace CortexOnnx

variable {α β : Type}

theorem forall₂_set {R : α → β → Prop} {l : List α} {l' : List β} (h : List.Forall₂ R l l')
    {i : Nat} {b b' : β} (at_ : l'[i]? = some b) (replaced : ∀ a, R a b → R a b') :
    List.Forall₂ R l (l'.set i b') := by
  induction h generalizing i with
  | nil => cases at_
  | @cons a c l l' hac _ ih =>
      cases i with
      | zero =>
          cases at_
          exact List.Forall₂.cons (replaced a hac) ‹_›
      | succ i => exact List.Forall₂.cons hac (ih at_)

/-- Related entries, of which the right ones have a property. -/
theorem forall₂_and_mem {R : α → β → Prop} {P : β → Prop} {l : List α} {l' : List β}
    (h : List.Forall₂ R l l') (hP : ∀ b ∈ l', P b) :
    List.Forall₂ (fun a b => R a b ∧ P b) l l' := by
  induction h with
  | nil => exact List.Forall₂.nil
  | cons hab _ ih =>
      exact List.Forall₂.cons ⟨hab, hP _ List.mem_cons_self⟩
        (ih fun b hb => hP b (List.mem_cons_of_mem _ hb))

/-- What every relation entails of its right side holds of every entry there. -/
theorem forall_mem_of_forall₂ {R : α → β → Prop} {P : β → Prop} {l : List α} {l' : List β}
    (h : List.Forall₂ R l l') (entails : ∀ a b, R a b → P b) : ∀ b ∈ l', P b := by
  induction h with
  | nil => exact fun _ hb => absurd hb List.not_mem_nil
  | cons hab _ ih =>
      intro b hb
      rcases List.mem_cons.mp hb with rfl | hb
      · exact entails _ _ hab
      · exact ih b hb

/-- A computation for each entry, none of which failed. -/
theorem forall₂_of_mapM {f : α → Option β} {l : List α} {l' : List β} (h : l.mapM f = some l') :
    List.Forall₂ (fun a b => f a = some b) l l' := by
  induction l generalizing l' with
  | nil =>
      cases h
      exact List.Forall₂.nil
  | cons a l ih =>
      rw [List.mapM_cons] at h
      obtain ⟨b, hb, h⟩ := Option.bind_eq_some_iff.mp h
      obtain ⟨rest, hrest, h⟩ := Option.bind_eq_some_iff.mp h
      cases h
      exact List.Forall₂.cons hb (ih hrest)

/-- One failure is a failure of all. -/
theorem mapM_isSome_iff {f : α → Option β} {l : List α} :
    (l.mapM f).isSome = true ↔ ∀ a ∈ l, (f a).isSome = true := by
  induction l with
  | nil => simp
  | cons a l ih =>
      rw [List.mapM_cons, List.forall_mem_cons, ← ih]
      cases hfirst : f a with
      | none => simp
      | some b => cases hrest : l.mapM f <;> simp

/-- A list around one of its entries, which may be replaced. -/
theorem exists_split_set {l : List α} {i : Nat} {a : α} (at_ : l[i]? = some a) :
    ∃ before after, l = before ++ a :: after ∧ ∀ b, l.set i b = before ++ b :: after := by
  obtain ⟨hi, rfl⟩ := List.getElem?_eq_some_iff.mp at_
  refine ⟨l.take i, l.drop (i + 1), ?_, ?_⟩
  · rw [List.cons_getElem_drop_succ, List.take_append_drop]
  · intro b
    rw [List.set_eq_take_append_cons_drop, if_pos hi]

theorem sum_map_set_lt {size : α → Nat} {l : List α} {i : Nat} {a b : α} (at_ : l[i]? = some a)
    (smaller : size b < size a) : ((l.set i b).map size).sum < (l.map size).sum := by
  induction l generalizing i with
  | nil => cases at_
  | cons c l ih =>
      cases i with
      | zero =>
          cases at_
          simp only [List.set_cons_zero, List.map_cons, List.sum_cons]
          omega
      | succ i =>
          have hrest := ih at_
          simp only [List.set_cons_succ, List.map_cons, List.sum_cons]
          omega

end CortexOnnx

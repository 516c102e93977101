/-!
# Lists grown at both ends

A loop that puts some of its items in front of the result, appends others and skips the rest.  What
it builds is the items put in front, the last of them first, then what was there before the loop,
and then the items appended.
-/

namespace CortexOnnx

universe u v

/-- What a loop does with an item. -/
inductive Placement (β : Type v) where
  | front (b : β)
  | back (b : β)
  | skip

namespace Placement

variable {β : Type v}

def extend (acc : List β) : Placement β → List β
  | front b => b :: acc
  | back b => acc ++ [b]
  | skip => acc

def front? : Placement β → Option β
  | front b => some b
  | back _ | skip => none

def back? : Placement β → Option β
  | back b => some b
  | front _ | skip => none

end Placement

section Gather

variable {α : Type u} {β : Type v} (place : α → Placement β)

/-- The whole loop. -/
def gather (acc : List β) (items : List α) : List β :=
  items.foldl (fun acc a => (place a).extend acc) acc

def fronts (items : List α) : List β := items.filterMap fun a => (place a).front?

def backs (items : List α) : List β := items.filterMap fun a => (place a).back?

theorem gather_eq (acc : List β) (items : List α) :
    gather place acc items = (fronts place items).reverse ++ acc ++ backs place items := by
  induction items generalizing acc with
  | nil => simp [gather, fronts, backs]
  | cons a items ih =>
    have hstep : gather place acc (a :: items) = gather place ((place a).extend acc) items := rfl
    rw [hstep, ih]
    cases hplace : place a with
    | front b => simp [fronts, backs, Placement.extend, Placement.front?, Placement.back?, hplace]
    | back b => simp [fronts, backs, Placement.extend, Placement.front?, Placement.back?, hplace]
    | skip => simp [fronts, backs, Placement.extend, Placement.front?, Placement.back?, hplace]

end Gather

/-! ## Order of two items -/

section Order

variable {α : Type u} {R : α → α → Prop} {l : List α} {a b : α}

/-- In a list sorted by an asymmetric relation, the relation tells which of two items comes first.
-/
theorem pair_sublist_of_sorted (sorted : l.Pairwise R) (asymm : ∀ x y, R x y → ¬R y x)
    (ha : a ∈ l) (hb : b ∈ l) (h : R a b) : List.Sublist [a, b] l := by
  induction l with
  | nil => cases ha
  | cons c l ih =>
    obtain ⟨hhead, htail⟩ := List.pairwise_cons.mp sorted
    rcases List.mem_cons.mp ha with rfl | ha'
    · rcases List.mem_cons.mp hb with rfl | hb'
      · exact absurd h (asymm _ _ h)
      · exact List.Sublist.cons_cons _ (List.singleton_sublist.mpr hb')
    · rcases List.mem_cons.mp hb with rfl | hb'
      -- `b` would be the head, and related to `a`
      · exact absurd h (asymm _ _ (hhead a ha'))
      · exact List.Sublist.cons _ (ih htail ha' hb')

theorem rel_of_pair_sublist (sorted : l.Pairwise R) (h : List.Sublist [a, b] l) : R a b :=
  (List.pairwise_cons.mp (sorted.sublist h)).1 b (List.mem_singleton.mpr rfl)

end Order

end CortexOnnx

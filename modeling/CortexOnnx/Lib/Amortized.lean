import Mathlib.Algebra.BigOperators.Group.List.Basic
import Mathlib.Algebra.GroupWithZero.Nat
import CortexOnnx.Lib.Run

/-!
# Potentials along a run

What the steps of a run cost is paid from a potential, which may be refilled out of what the run
earns.  A potential that some step can always lower leads to an end.
-/

namespace CortexOnnx

section Potentials

variable {S A : Type} {step : S → A → Option S} {s₀ : S}

/-- What the steps of a run cost together. -/
def totalCost (cost : A → Nat) (es : List (S × A)) : Nat := (es.map fun e => cost e.2).sum

theorem totalCost_snoc (cost : A → Nat) (es : List (S × A)) (s : S) (a : A) :
    totalCost cost (es ++ [(s, a)]) = totalCost cost es + cost a := by
  simp [totalCost]

/-- The rule of potentials: where every step is paid from the potential and from what it earns, so
is the run. -/
theorem Run.totalCost_le {I : S → Prop} {es : List (S × A)} {t : S} (h : Run step s₀ es t)
    (cost : A → Nat) (potential earned : S → Nat) (init : I s₀)
    (preserved : ∀ s a t, I s → step s a = some t → I t)
    (paid : ∀ s a t, I s → step s a = some t →
      cost a + potential t + earned s ≤ potential s + earned t) :
    totalCost cost es + potential t + earned s₀ ≤ potential s₀ + earned t := by
  induction h with
  | nil => simp [totalCost]
  | @snoc es s t a before taken ih =>
      have hlast := paid s a t (before.invariant init preserved) taken
      rw [totalCost_snoc]
      omega

/-- Where a step that meets `G` can lower the measure for as long as the end is not reached, some
run of such steps reaches it. -/
theorem exists_run_of_decreasing {I Done : S → Prop} {G : S → A → Prop} (measure : S → Nat)
    (progress : ∀ s, I s → ¬Done s → ∃ a t, G s a ∧ step s a = some t ∧ I t ∧
      measure t < measure s) {s : S} (h : I s) :
    ∃ es t, Run step s es t ∧ EveryStep G es ∧ I t ∧ Done t := by
  -- on the bound of the measure, with the first step split off
  induction hn : measure s using Nat.strongRecOn generalizing s with
  | _ n ih =>
      by_cases hdone : Done s
      · exact ⟨[], s, Run.nil, fun _ he => absurd he List.not_mem_nil, h, hdone⟩
      · obtain ⟨a, t, hG, taken, ht, hless⟩ := progress s h hdone
        obtain ⟨es, u, hrun, hes, hu, hend⟩ := ih (measure t) (hn ▸ hless) ht rfl
        refine ⟨(s, a) :: es, u, hrun.cons taken, ?_, hu, hend⟩
        intro e he
        rcases List.mem_cons.mp he with rfl | he
        · exact hG
        · exact hes e he

theorem everyStep_nil {G : S → A → Prop} : EveryStep G ([] : List (S × A)) :=
  fun _ h => absurd h List.not_mem_nil

theorem everyStep_append {G : S → A → Prop} {es es' : List (S × A)} (h : EveryStep G es)
    (h' : EveryStep G es') : EveryStep G (es ++ es') := by
  intro e he
  rcases List.mem_append.mp he with he | he
  · exact h e he
  · exact h' e he

/-- Two runs, one after the other. -/
theorem Run.append {s t u : S} {es es' : List (S × A)} (h : Run step s es t)
    (h' : Run step t es' u) : Run step s (es ++ es') u := by
  induction h' with
  | nil =>
      rw [List.append_nil]
      exact h
  | snoc _ taken ih =>
      rw [← List.append_assoc]
      exact ih.snoc taken

end Potentials

end CortexOnnx

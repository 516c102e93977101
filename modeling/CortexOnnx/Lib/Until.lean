/-!
# Loops that run until a test holds

`while (!done(s)) s = step(s);` as a relation, with no bound on the number of turns.  The loop is
deterministic, so whatever is on the way from a state lies on one path.
-/

namespace CortexOnnx

section Loop

variable {S : Type} {done : S → Bool} {step : S → S} {s t u : S}

/-- The states at the loop test for as long as the loop goes round. -/
inductive Turns (done : S → Bool) (step : S → S) (s : S) : S → Prop
  | start : Turns done step s s
  | turn {t : S} (before : Turns done step s t) (goes : done t = false) : Turns done step s (step t)

/-- The loop leads from `s` to `t` and stops there. -/
def Until (done : S → Bool) (step : S → S) (s t : S) : Prop :=
  Turns done step s t ∧ done t = true

/-- The first turn. -/
theorem Turns.head (h : Turns done step s t) :
    t = s ∨ done s = false ∧ Turns done step (step s) t := by
  induction h with
  | start => exact Or.inl rfl
  | turn _ goes ih =>
    rcases ih with rfl | ⟨hgoes, hrest⟩
    · exact Or.inr ⟨goes, .start⟩
    · exact Or.inr ⟨hgoes, hrest.turn goes⟩

/-- Where the loop stops it gets to from every state on the way. -/
theorem Until.ahead (h : Until done step s u) (hturns : Turns done step s t) :
    Until done step t u := by
  induction hturns with
  | start => exact h
  | turn _ goes ih =>
    refine ⟨?_, h.2⟩
    rcases ih.1.head with rfl | ⟨_, hrest⟩
    · exact absurd (goes.symm.trans h.2) (by decide)
    · exact hrest

theorem Until.unique (h : Until done step s u) (h' : Until done step s t) : t = u := by
  rcases (h.ahead h'.1).1.head with rfl | ⟨goes, _⟩
  · rfl
  · exact absurd (goes.symm.trans h'.2) (by decide)

/-- The rule of loops that stop: what holds at the end and is carried back over every turn holds at
the start. -/
theorem Until.back {P : S → Prop} (h : Until done step s u) (stop : P u)
    (turn : ∀ t, Turns done step s t → done t = false → P (step t) → P t) : P s := by
  replace h := h.1
  induction h with
  | start => exact stop
  | turn before goes ih => exact ih (turn _ before goes stop)

end Loop

section Growing

variable {A : Type} {done : List A → Bool} {next : List A → A}

/-- A loop that appends one item in each turn. -/
theorem Turns.exists_append {s t : List A} (h : Turns done (fun s => s ++ [next s]) s t) :
    ∃ items, t = s ++ items := by
  induction h with
  | start => exact ⟨[], (List.append_nil s).symm⟩
  | @turn t _ goes ih =>
    obtain ⟨items, rfl⟩ := ih
    exact ⟨items ++ [next (s ++ items)], List.append_assoc ..⟩

/-- A loop that stops, at the latest, once it has `bound` items. -/
theorem Turns.length_le {s t : List A} {bound : Int}
    (h : Turns done (fun s => s ++ [next s]) s t)
    (stops : ∀ s : List A, bound ≤ s.length → done s = true) :
    (t.length : Int) ≤ s.length ∨ (t.length : Int) ≤ bound := by
  induction h with
  | start => exact Or.inl (Int.le_refl _)
  | @turn t _ goes _ =>
    -- the loop has gone round once more, so there was room
    have hroom : (t.length : Int) < bound := by
      apply Int.not_le.mp
      intro hfull
      exact absurd (goes.symm.trans (stops t hfull)) (by decide)
    rw [List.length_append, List.length_singleton]
    omega

end Growing

end CortexOnnx

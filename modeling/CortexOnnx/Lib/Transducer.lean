/-!
# Transducers

A deterministic machine that answers each input with an output.  Two states are bisimilar exactly
when no sequence of inputs tells them apart.
-/

namespace CortexOnnx

variable {S A B : Type} (step : S → A → S × B)

/-- The state after a sequence of inputs. -/
def advance (s : S) (inputs : List A) : S := inputs.foldl (fun s a => (step s a).1) s

/-- The outputs along the way. -/
def outputs (s : S) : List A → List B
  | [] => []
  | a :: inputs => (step s a).2 :: outputs (step s a).1 inputs

theorem outputs_cons (s : S) (a : A) (inputs : List A) :
    outputs step s (a :: inputs) = (step s a).2 :: outputs step (step s a).1 inputs := rfl

theorem advance_snoc (s : S) (inputs : List A) (a : A) :
    advance step s (inputs ++ [a]) = (step (advance step s inputs) a).1 := by
  rw [advance, List.foldl_append]
  rfl

theorem outputs_append (s : S) (inputs inputs' : List A) :
    outputs step s (inputs ++ inputs') =
      outputs step s inputs ++ outputs step (advance step s inputs) inputs' := by
  induction inputs generalizing s with
  | nil => rfl
  | cons a inputs ih =>
      rw [List.cons_append, outputs_cons, outputs_cons, ih]
      rfl

theorem outputs_snoc (s : S) (inputs : List A) (a : A) :
    outputs step s (inputs ++ [a]) =
      outputs step s inputs ++ [(step (advance step s inputs) a).2] :=
  outputs_append step s inputs [a]

/-- Related states answer alike and stay related. -/
def IsBisimulation (R : S → S → Prop) : Prop :=
  ∀ s t, R s t → ∀ a, (step s a).2 = (step t a).2 ∧ R (step s a).1 (step t a).1

def Bisimilar (s t : S) : Prop := ∃ R, IsBisimulation step R ∧ R s t

/-- To give the same outputs is itself a bisimulation, the largest one. -/
theorem bisimilar_iff_outputs {s t : S} :
    Bisimilar step s t ↔ ∀ inputs, outputs step s inputs = outputs step t inputs := by
  constructor
  · intro ⟨R, hR, hst⟩ inputs
    induction inputs generalizing s t with
    | nil => rfl
    | cons a inputs ih =>
        obtain ⟨hsame, hnext⟩ := hR s t hst a
        rw [outputs_cons, outputs_cons, hsame, ih hnext]
  · intro hsame
    refine ⟨fun s t => ∀ inputs, outputs step s inputs = outputs step t inputs, ?_, hsame⟩
    intro s t hst a
    have hmore (inputs : List A) := hst (a :: inputs)
    simp only [outputs_cons, List.cons.injEq] at hmore
    exact ⟨(hmore []).1, fun inputs => (hmore inputs).2⟩

end CortexOnnx

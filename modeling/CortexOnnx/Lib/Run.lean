/-!
# Runs of a partial step function

A run records every step together with the state it was taken in, so a condition on steps and a
property of the states reached can be compared along the same run.
-/

namespace CortexOnnx

section Runs

variable {S A : Type} {step : S → A → Option S} {s₀ : S}

/-- `Run step s₀ es t`: the steps `es`, each paired with the state before it, lead from `s₀` to
`t`. -/
inductive Run (step : S → A → Option S) (s₀ : S) : List (S × A) → S → Prop
  | nil : Run step s₀ [] s₀
  | snoc {es : List (S × A)} {s t : S} {a : A} (before : Run step s₀ es s)
      (taken : step s a = some t) : Run step s₀ (es ++ [(s, a)]) t

/-- Every step of a run meets `G`, a condition on the state before it and the action. -/
def EveryStep (G : S → A → Prop) (es : List (S × A)) : Prop := ∀ e ∈ es, G e.1 e.2

/-- A condition on every step of a run that may also look back at the actions before it. -/
def EveryStepAfter (G : List A → S → A → Prop) (es : List (S × A)) : Prop :=
  ∀ i, (h : i < es.length) → G ((es.take i).map Prod.snd) es[i].1 es[i].2

/-- `P` holds in every state of a run that ends in `t`. -/
def Throughout (P : S → Prop) (es : List (S × A)) (t : S) : Prop := (∀ e ∈ es, P e.1) ∧ P t

theorem everyStep_snoc {G : S → A → Prop} {es : List (S × A)} {s : S} {a : A} :
    EveryStep G (es ++ [(s, a)]) ↔ EveryStep G es ∧ G s a := by
  simp only [EveryStep, List.mem_append, List.mem_singleton]
  constructor
  · intro h
    exact ⟨fun e he => h e (Or.inl he), h (s, a) (Or.inr rfl)⟩
  · rintro ⟨hes, ha⟩ e (he | rfl)
    · exact hes e he
    · exact ha

theorem everyStepAfter_snoc {G : List A → S → A → Prop} {es : List (S × A)} {s : S} {a : A} :
    EveryStepAfter G (es ++ [(s, a)]) ↔ EveryStepAfter G es ∧ G (es.map Prod.snd) s a := by
  have hlength : (es ++ [(s, a)]).length = es.length + 1 := by simp
  constructor
  · intro h
    constructor
    · intro i hi
      have hstep := h i (by omega)
      rwa [List.take_append_of_le_length (by omega), List.getElem_append_left hi] at hstep
    · have hstep := h es.length (by omega)
      rwa [List.take_left, List.getElem_concat_length rfl] at hstep
  · rintro ⟨hes, ha⟩ i hi
    -- the step is an old one, or the last
    by_cases hold : i < es.length
    · rw [List.take_append_of_le_length (by omega), List.getElem_append_left hold]
      exact hes i hold
    · obtain rfl : i = es.length := by omega
      rw [List.take_left, List.getElem_concat_length rfl]
      exact ha

theorem throughout_snoc {P : S → Prop} {es : List (S × A)} {s t : S} {a : A} :
    Throughout P (es ++ [(s, a)]) t ↔ Throughout P es s ∧ P t := by
  simp only [Throughout, List.mem_append, List.mem_singleton]
  constructor
  · rintro ⟨h, ht⟩
    exact ⟨⟨fun e he => h e (Or.inl he), h (s, a) (Or.inr rfl)⟩, ht⟩
  · rintro ⟨⟨h, hs⟩, ht⟩
    refine ⟨?_, ht⟩
    rintro e (he | rfl)
    · exact h e he
    · exact hs

/-- A step of a run starts from a state that the run reaches. -/
theorem Run.reached {es : List (S × A)} {s t : S} {a : A} (h : Run step s₀ es t)
    (he : (s, a) ∈ es) : ∃ before u, Run step s₀ before s ∧ step s a = some u := by
  induction h with
  | nil => exact absurd he List.not_mem_nil
  | snoc before taken ih =>
      rcases List.mem_append.mp he with he | he
      · exact ih he
      · cases List.mem_singleton.mp he
        exact ⟨_, _, before, taken⟩

/-- The invariant rule. -/
theorem Run.invariant {I : S → Prop} {es : List (S × A)} {t : S} (h : Run step s₀ es t)
    (init : I s₀) (preserved : ∀ s a t, I s → step s a = some t → I t) : I t := by
  induction h with
  | nil => exact init
  | snoc _ taken ih => exact preserved _ _ _ ih taken

/-- An invariant that is preserved for as long as `P` holds. -/
theorem Run.invariant_while {I P : S → Prop} {es : List (S × A)} {t : S} (h : Run step s₀ es t)
    (init : I s₀)
    (preserved : ∀ s a t, I s → P s → step s a = some t → P t → I t)
    (hP : Throughout P es t) : I t := by
  induction h with
  | nil => exact init
  | snoc _ taken ih =>
      obtain ⟨hes, ht⟩ := throughout_snoc.mp hP
      exact preserved _ _ _ (ih hes) hes.2 taken ht

/-- Where each step adds at most one item to a list, the list is what the steps have added. -/
theorem Run.collects {B : Type} {f : S → List B} {item? : S → A → Option B}
    {es : List (S × A)} {t : S} (h : Run step s₀ es t) (init : f s₀ = [])
    (adds : ∀ before s a t, Run step s₀ before s → step s a = some t →
      f t = f s ++ (item? s a).toList) :
    f t = es.filterMap fun e => item? e.1 e.2 := by
  induction h with
  | nil => exact init
  | @snoc es s t a before taken ih =>
      rw [adds es s a t before taken, ih, List.filterMap_append]
      cases hitem : item? s a with
      | none => simp [hitem]
      | some b => simp [hitem]

/-- Where the first step that misses `G` is also the first that breaks `P`, a run keeps `P`
throughout exactly when all its steps meet `G`.  `I` is what else is known while `P` has held. -/
theorem Run.throughout_iff {I P : S → Prop} {G : S → A → Prop} {es : List (S × A)} {t : S}
    (h : Run step s₀ es t) (init : I s₀)
    (preserved : ∀ s a t, I s → P s → step s a = some t → P t → I t) (start : P s₀)
    (exactly : ∀ s a t, I s → P s → step s a = some t → (P t ↔ G s a)) :
    Throughout P es t ↔ EveryStep G es := by
  induction h with
  | nil => simp [Throughout, EveryStep, start]
  | @snoc es s t a before taken ih =>
      rw [throughout_snoc, everyStep_snoc]
      constructor
      · intro ⟨hes, ht⟩
        have hI := before.invariant_while init preserved hes
        exact ⟨ih.mp hes, (exactly _ _ _ hI hes.2 taken).mp ht⟩
      · intro ⟨hes, ha⟩
        have hP := ih.mpr hes
        have hI := before.invariant_while init preserved hP
        exact ⟨hP, (exactly _ _ _ hI hP.2 taken).mpr ha⟩

/-! ## Executing a list of actions -/

def execute (step : S → A → Option S) (s : S) : List A → Option S
  | [] => some s
  | a :: as =>
      match step s a with
      | some t => execute step t as
      | none => none

/-- The runs that start with a given step. -/
theorem Run.cons {s t u : S} {a : A} {es : List (S × A)} (taken : step s a = some t)
    (h : Run step t es u) : Run step s ((s, a) :: es) u := by
  induction h with
  | nil => exact Run.snoc Run.nil taken
  | snoc _ last ih => exact Run.snoc ih last

/-- The steps of an execution. -/
def trace (step : S → A → Option S) (s : S) : List A → List (S × A)
  | [] => []
  | a :: as =>
      match step s a with
      | some t => (s, a) :: trace step t as
      | none => []

theorem run_of_execute {s t : S} {as : List A} (h : execute step s as = some t) :
    Run step s (trace step s as) t := by
  induction as generalizing s with
  | nil =>
      cases h
      exact Run.nil
  | cons a as ih =>
      rw [execute] at h
      rw [trace]
      split at h
      · rename_i u taken
        exact (ih h).cons taken
      · cases h

/-- A test on the state that a list of actions leads to speaks about a run. -/
theorem exists_run_of_execute {s : S} {as : List A} {test : S → Bool}
    (h : (execute step s as).any test = true) :
    ∃ t, execute step s as = some t ∧ Run step s (trace step s as) t ∧ test t = true := by
  cases hexecute : execute step s as with
  | none => simp [hexecute] at h
  | some t =>
      have htest : test t = true := by simpa [hexecute] using h
      exact ⟨t, rfl, run_of_execute hexecute, htest⟩

end Runs

/-! ## A component of a system

A system whose steps are steps of a component, or leave it as it is.  The component runs as it would
alone, so what is known of its runs holds within the system. -/

section Component

variable {S A T B : Type} {step : S → A → Option S} {step' : T → B → Option T}

/-- A step of the system is the step `on` of the component, if it is one. -/
def Projects (step : S → A → Option S) (step' : T → B → Option T) (part : S → T)
    (on : S → A → Option B) : Prop :=
  ∀ s a t, step s a = some t →
    match on s a with
    | some b => step' (part s) b = some (part t)
    | none => part t = part s

/-- The steps of the component. -/
def projected (part : S → T) (on : S → A → Option B) (es : List (S × A)) : List (T × B) :=
  es.filterMap fun e => (on e.1 e.2).map (part e.1, ·)

theorem Run.project {part : S → T} {on : S → A → Option B} {s₀ : S} {es : List (S × A)} {t : S}
    (hrun : Run step s₀ es t) (h : Projects step step' part on) :
    Run step' (part s₀) (projected part on es) (part t) := by
  induction hrun with
  | nil => exact Run.nil
  | @snoc es s t a before taken ih =>
      have hstep := h s a t taken
      rw [projected, List.filterMap_append, List.filterMap_cons, List.filterMap_nil]
      cases hon : on s a with
      | none =>
          rw [hon] at hstep
          rw [hstep, Option.map_none, List.append_nil]
          exact ih
      | some b =>
          rw [hon] at hstep
          exact ih.snoc hstep

end Component

end CortexOnnx

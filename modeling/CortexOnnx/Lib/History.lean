import Mathlib.Data.List.Basic

/-!
# Reading a history

A state component that only some events write equals the last value written, so it can be read off
the history of events.  Where events have a subject, the part of a history about one subject grows
only with its own events.
-/

namespace CortexOnnx

variable {E β : Type}

/-- The value of the last event that has one. -/
def latest (f : E → Option β) (history : List E) : Option β :=
  history.foldl (fun last event => (f event).or last) none

private theorem foldl_or (f : E → Option β) (history : List E) (last : Option β) :
    history.foldl (fun last event => (f event).or last) last = (latest f history).or last := by
  induction history generalizing last with
  | nil => rfl
  | cons event rest ih =>
      rw [latest, List.foldl_cons, List.foldl_cons, ih, ih, Option.or_none, Option.or_assoc]

@[simp] theorem latest_nil (f : E → Option β) : latest f [] = none := rfl

@[simp] theorem latest_cons (f : E → Option β) (event : E) (rest : List E) :
    latest f (event :: rest) = (latest f rest).or (f event) := by
  rw [latest, List.foldl_cons, foldl_or, Option.or_none]

@[simp] theorem latest_append (f : E → Option β) (before after : List E) :
    latest f (before ++ after) = (latest f after).or (latest f before) := by
  rw [latest, List.foldl_append, foldl_or]
  rfl

/-- Events without a value leave the latest one in place. -/
theorem latest_eq_none {f : E → Option β} {history : List E} (h : ∀ e ∈ history, f e = none) :
    latest f history = none := by
  induction history with
  | nil => rfl
  | cons event rest ih =>
      rw [latest_cons, ih fun e he => h e (List.mem_cons_of_mem _ he), h event List.mem_cons_self]
      rfl

/-- Where all values agree, one event with a value settles it. -/
theorem latest_eq_some {f : E → Option β} {history : List E} {b : β}
    (h : ∀ e ∈ history, f e = none ∨ f e = some b) (hmem : ∃ e ∈ history, f e = some b) :
    latest f history = some b := by
  induction history with
  | nil =>
      obtain ⟨e, he, _⟩ := hmem
      exact absurd he List.not_mem_nil
  | cons event rest ih =>
      have hrest : ∀ e ∈ rest, f e = none ∨ f e = some b :=
        fun e he => h e (List.mem_cons_of_mem _ he)
      rw [latest_cons]
      by_cases hlater : ∃ e ∈ rest, f e = some b
      · rw [ih hrest hlater]
        rfl
      · -- nothing later has a value, so it is this event's
        have hnone : latest f rest = none := by
          apply latest_eq_none
          intro e he
          rcases hrest e he with hnone | hsome
          · exact hnone
          · exact absurd ⟨e, he, hsome⟩ hlater
        obtain ⟨e, he, hsome⟩ := hmem
        rcases List.mem_cons.mp he with rfl | he
        · rw [hnone, hsome]
          rfl
        · exact absurd ⟨e, he, hsome⟩ hlater

section Subjects

variable {κ : Type} [DecidableEq κ] (subject : E → Option κ) (k : κ)

/-- The events about one subject. -/
def about (history : List E) : List E := history.filter fun event => subject event = some k

@[simp] theorem about_append (before after : List E) :
    about subject k (before ++ after) = about subject k before ++ about subject k after :=
  List.filter_append before after

variable {subject k}

theorem about_eq_nil {history : List E} (h : ∀ e ∈ history, subject e ≠ some k) :
    about subject k history = [] := by
  apply List.filter_eq_nil_iff.mpr
  intro e he
  simpa using h e he

/-- Events about one subject, or about none, are not about another. -/
theorem about_of_ne {k' : κ} {history : List E}
    (h : ∀ e ∈ history, subject e = some k' ∨ subject e = none) (hne : k ≠ k') :
    about subject k history = [] := by
  apply about_eq_nil
  intro e he hsubject
  rcases h e he with hother | hnone
  · rw [hsubject] at hother
    exact hne (Option.some.inj hother)
  · rw [hsubject] at hnone
    cases hnone

/-- A reading that depends on one subject's events only. -/
theorem filterMap_about {f : E → Option β} {history : List E}
    (h : ∀ e ∈ history, subject e = some k ∨ f e = none) :
    (about subject k history).filterMap f = history.filterMap f := by
  rw [about, List.filterMap_filter]
  apply List.filterMap_congr
  intro e he
  rcases h e he with hsubject | hnone
  · simp [hsubject]
  · simp [hnone]

theorem mem_about {e : E} {history : List E} :
    e ∈ about subject k history ↔ e ∈ history ∧ subject e = some k := by
  simp [about]

end Subjects

end CortexOnnx

/-!
# Programs with state, exceptions and undefined behaviour

A shallow embedding of imperative code that can return, throw, or run into undefined behaviour.
State written before a `throw` survives it, as it does in C++, so a `catch` block starts from the
state the `try` block left.  Undefined behaviour is final: no handler sees it.
-/

namespace CortexOnnx

universe u v

/-- How a block of code ends. -/
inductive Exit (φ : Type u) (α : Type v) where
  | value (a : α)
  | exception (what : String)
  | undefined (fault : φ)
  deriving Repr, DecidableEq

/-- A block of code over states `σ` that may fault with a `φ`. -/
def Prog (φ σ α : Type) := σ → Exit φ α × σ

/-! ## Checked computations

Whether a sequence of checked reads succeeds is the conjunction of whether each does, as long as
what comes after a read succeeds or not whatever was read. -/

section Checked

variable {ε α β : Type}

/-- Sequencing of checked computations, oriented for `simp`. -/
@[simp] theorem ok_bind (a : α) (f : α → Except ε β) : (Except.ok a >>= f) = f a := rfl

@[simp] theorem error_bind (e : ε) (f : α → Except ε β) :
    (Except.error e >>= f) = .error e := rfl

@[simp] theorem pure_ok (a : α) : (pure a : Except ε α) = .ok a := rfl

theorem isOk_iff_exists {x : Except ε α} : x.isOk = true ↔ ∃ a, x = .ok a := by
  cases x with
  | error e => simp [Except.isOk, Except.toBool]
  | ok a => simp [Except.isOk, Except.toBool]

theorem isOk_bind {x : Except ε α} {f : α → Except ε β} {b : Bool}
    (h : ∀ a, x = .ok a → (f a).isOk = b) : (x >>= f).isOk = (x.isOk && b) := by
  cases x with
  | error e => rfl
  | ok a => exact h a rfl

theorem bind_eq_ok {x : Except ε α} {f : α → Except ε β} {b : β} :
    x >>= f = .ok b ↔ ∃ a, x = .ok a ∧ f a = .ok b := by
  cases x <;> simp

/-- A loop whose body accepts each element by itself. -/
theorem isOk_foldlM {step : β → α → Except ε β} {accepts : α → Bool}
    (h : ∀ b a, (step b a).isOk = accepts a) (l : List α) (b : β) :
    (l.foldlM step b).isOk = l.all accepts := by
  induction l generalizing b with
  | nil => rfl
  | cons a l ih =>
      rw [List.foldlM_cons, List.all_cons, isOk_bind fun b' _ => ih b', h]

end Checked

namespace Prog

variable {φ σ α β : Type}

/-- Sequencing: only a value reaches the continuation. -/
def andThen (p : Prog φ σ α) (f : α → Prog φ σ β) : Prog φ σ β := fun s =>
  match p s with
  | (.value a, s') => f a s'
  | (.exception what, s') => (.exception what, s')
  | (.undefined fault, s') => (.undefined fault, s')

instance : Monad (Prog φ σ) where
  pure a := fun s => (.value a, s)
  bind := andThen

def read : Prog φ σ σ := fun s => (.value s, s)

def write (f : σ → σ) : Prog φ σ Unit := fun s => (.value (), f s)

def throws (what : String) : Prog φ σ α := fun s => (.exception what, s)

def faults (fault : φ) : Prog φ σ α := fun s => (.undefined fault, s)

/-- A pure computation that may throw, such as a checked accessor. -/
def lift : Except String α → Prog φ σ α
  | .ok a => pure a
  | .error what => throws what

/-- Dereferencing a pointer: null is undefined behaviour. -/
def deref (fault : φ) : Option α → Prog φ σ α
  | some a => pure a
  | none => faults fault

/-- `try { body } catch (const std::exception&) { handler }`. -/
def tryCatch (body : Prog φ σ α) (handler : Prog φ σ α) : Prog φ σ α := fun s =>
  match body s with
  | (.exception _, s') => handler s'
  | r => r

/-! ## Weakest preconditions

A postcondition speaks about all three ways to end, so a block that cannot fault, or a handler that
never throws, is one whose postcondition is false there. -/

/-- `p` run from `s` ends in a way and a state that meet `Q`. -/
def wp (p : Prog φ σ α) (Q : Exit φ α → σ → Prop) (s : σ) : Prop := Q (p s).1 (p s).2

theorem wp.mono {p : Prog φ σ α} {Q Q' : Exit φ α → σ → Prop} {s : σ} (h : wp p Q s)
    (hQ : ∀ r s', Q r s' → Q' r s') : wp p Q' s :=
  hQ _ _ h

theorem wp.and {p : Prog φ σ α} {Q Q' : Exit φ α → σ → Prop} {s : σ} (h : wp p Q s)
    (h' : wp p Q' s) : wp p (fun r s' => Q r s' ∧ Q' r s') s :=
  ⟨h, h'⟩

section Rules

variable {Q : Exit φ α → σ → Prop} {s : σ}

@[simp] theorem wp_pure (a : α) : wp (pure a : Prog φ σ α) Q s ↔ Q (.value a) s := Iff.rfl

/-- The rule of sequencing: the abrupt exits of `p` are those of the whole. -/
theorem wp_bind {Q : Exit φ β → σ → Prop} (p : Prog φ σ α) (f : α → Prog φ σ β) :
    wp (p >>= f) Q s ↔ wp p (fun r s' => match r with
      | .value a => wp (f a) Q s'
      | .exception what => Q (.exception what) s'
      | .undefined fault => Q (.undefined fault) s') s := by
  change Q (andThen p f s).1 (andThen p f s).2 ↔ _
  unfold wp andThen
  rcases p s with ⟨_ | _ | _, s'⟩ <;> rfl

@[simp] theorem wp_read {Q : Exit φ σ → σ → Prop} :
    wp (read : Prog φ σ σ) Q s ↔ Q (.value s) s := Iff.rfl

@[simp] theorem wp_write {Q : Exit φ Unit → σ → Prop} (f : σ → σ) :
    wp (write f : Prog φ σ Unit) Q s ↔ Q (.value ()) (f s) := Iff.rfl

@[simp] theorem wp_throws (what : String) :
    wp (throws what : Prog φ σ α) Q s ↔ Q (.exception what) s := Iff.rfl

@[simp] theorem wp_lift_ok (a : α) : wp (lift (.ok a) : Prog φ σ α) Q s ↔ Q (.value a) s := Iff.rfl

@[simp] theorem wp_lift_error (what : String) :
    wp (lift (.error what) : Prog φ σ α) Q s ↔ Q (.exception what) s := Iff.rfl

@[simp] theorem wp_deref_some (fault : φ) (a : α) :
    wp (deref fault (some a) : Prog φ σ α) Q s ↔ Q (.value a) s := Iff.rfl

@[simp] theorem wp_deref_none (fault : φ) :
    wp (deref fault none : Prog φ σ α) Q s ↔ Q (.undefined fault) s := Iff.rfl

theorem wp_ite {c : Prop} [Decidable c] (p q : Prog φ σ α) :
    wp (if c then p else q) Q s ↔ (c → wp p Q s) ∧ (¬c → wp q Q s) := by
  by_cases hc : c <;> simp [hc]

/-- The handler starts from the state the body left. -/
theorem wp_tryCatch (body handler : Prog φ σ α) :
    wp (tryCatch body handler) Q s ↔ wp body (fun r s' => match r with
      | .exception _ => wp handler Q s'
      | r => Q r s') s := by
  unfold wp tryCatch
  rcases body s with ⟨_ | _ | _, s'⟩ <;> rfl

end Rules

end Prog

end CortexOnnx

/-
Outcomes of C code that can leave the function early.

A call either returns a value, terminates the process with an exit status and
a diagnostic, or touches memory outside the object it was given.  The third
case is kept apart from the second so that a bound on every access is a
statement about outcomes, not a convention of the translation.
-/
import Mathlib.Data.List.Basic

namespace Foundations

universe u v w

inductive Outcome (α : Type u) where
  | ok (value : α)
  | exit (status : Nat) (message : String)
  | fault
deriving DecidableEq, Repr

namespace Outcome

variable {α : Type u} {β : Type v} {γ : Type w}

def bind (outcome : Outcome α) (next : α → Outcome β) : Outcome β :=
  match outcome with
  | .ok value => next value
  | .exit status message => .exit status message
  | .fault => .fault

instance : Monad Outcome where
  pure := Outcome.ok
  bind := Outcome.bind

@[simp] theorem pure_eq_ok (value : α) : (pure value : Outcome α) = .ok value :=
  rfl

@[simp] theorem ok_bind {α β : Type u} (value : α) (next : α → Outcome β) :
    ((Outcome.ok value) >>= next) = next value :=
  rfl

@[simp] theorem exit_bind {α β : Type u} (status : Nat) (message : String)
    (next : α → Outcome β) :
    ((Outcome.exit status message : Outcome α) >>= next) = .exit status message :=
  rfl

@[simp] theorem fault_bind {α β : Type u} (next : α → Outcome β) :
    ((Outcome.fault : Outcome α) >>= next) = .fault :=
  rfl

@[simp] theorem map_ok {α β : Type u} (function : α → β) (value : α) :
    (function <$> (Outcome.ok value)) = .ok (function value) :=
  rfl

theorem bind_eq_ok_iff {α β : Type u} (outcome : Outcome α)
    (next : α → Outcome β) (result : β) :
    (outcome >>= next) = .ok result ↔
      ∃ value, outcome = .ok value ∧ next value = .ok result := by
  cases outcome with
  | ok value => simp
  | exit status message => simp
  | fault => simp

/-- The property holds of the value, if there is one. -/
def All (property : α → Prop) : Outcome α → Prop
  | .ok value => property value
  | .exit _ _ => True
  | .fault => True

instance {property : α → Prop} [DecidablePred property] :
    (outcome : Outcome α) → Decidable (outcome.All property)
  | .ok value => inferInstanceAs (Decidable (property value))
  | .exit _ _ => .isTrue trivial
  | .fault => .isTrue trivial

instance : LawfulMonad Outcome := LawfulMonad.mk' Outcome
  (by
    intro α outcome
    cases outcome <;> rfl)
  (by
    intro α β value next
    rfl)
  (by
    intro α β γ outcome next last
    cases outcome <;> rfl)

end Outcome

end Foundations

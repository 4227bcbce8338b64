/-
Interpreters that run on fuel, and the systems that track them.

An interpreter is done, gets stuck or has spent its fuel.  A transition system
tracks it from a state if it reaches what the interpreter says, and if it keeps
running for as long as the fuel lasts.
-/
import Lambpie.Foundations.Transition

namespace Foundations

inductive Ran (α : Type) where
  | done (value : α)
  | stuck
  | spent
deriving DecidableEq, Repr

namespace Ran

variable {α β : Type}

def bind (ran : Ran α) (next : α → Ran β) : Ran β :=
  match ran with
  | .done value => next value
  | .stuck => .stuck
  | .spent => .spent

instance : Monad Ran where
  pure := .done
  bind := bind

@[simp] theorem pure_eq (value : α) : (pure value : Ran α) = .done value := rfl

@[simp] theorem done_bind (value : α) (next : α → Ran β) :
    (Ran.done value >>= next) = next value := rfl

@[simp] theorem stuck_bind (next : α → Ran β) : (Ran.stuck >>= next) = .stuck := rfl

@[simp] theorem spent_bind (next : α → Ran β) : (Ran.spent >>= next) = .spent := rfl

end Ran

/-- The second says what the first one says, unless that has spent its fuel. -/
def Below {α : Type} (less more : Ran α) : Prop := less = .spent ∨ more = less

namespace Below

variable {α β : Type} {less more : Ran α}

theorem refl (ran : Ran α) : Below ran ran := .inr rfl

theorem bind {next onward : α → Ran β} (here : Below less more)
    (later : ∀ value, Below (next value) (onward value)) :
    Below (less >>= next) (more >>= onward) := by
  rcases here with rfl | rfl
  · exact .inl rfl
  · cases more with
    | done value => exact later value
    | stuck => exact .refl _
    | spent => exact .inl rfl

end Below

/-- The test and the body in turn, until the test fails or the body leaves with
a result. -/
def iterate {ε ρ : Type} (test : ε → Ran Bool) (body : ε → Ran (ε ⊕ ρ)) :
    Nat → ε → Ran (ε ⊕ ρ)
  | 0, _ => .spent
  | fuel + 1, env => do
      if ← test env then
        match ← body env with
        | .inl env => iterate test body fuel env
        | .inr result => pure (.inr result)
      else pure (.inl env)

theorem iterate_below {ε ρ : Type} {test test' : ε → Ran Bool} {body body' : ε → Ran (ε ⊕ ρ)}
    (tests : ∀ env, Below (test env) (test' env)) (bodies : ∀ env, Below (body env) (body' env))
    {less more : Nat} (fewer : less ≤ more) (env : ε) :
    Below (iterate test body less env) (iterate test' body' more env) := by
  induction less generalizing more env with
  | zero => exact .inl rfl
  | succ less ih =>
      obtain ⟨more, rfl⟩ := Nat.exists_eq_succ_of_ne_zero (Nat.ne_zero_of_lt fewer)
      refine (tests env).bind fun holds => ?_
      cases holds with
      | false => exact .refl _
      | true =>
          refine (bodies env).bind fun result => ?_
          cases result with
          | inl env => exact ih (Nat.le_of_succ_le_succ fewer) env
          | inr result => exact .refl _

section

universe u v

variable {σ : Type u} {ω : Type v} {α β : Type} (step : σ → Progress σ ω)

def RunsFor (count : Nat) (start : σ) : Prop :=
  ∃ steps state, count ≤ steps ∧ runFor step steps start = .next state

def Tracks (fuel : Nat) (start : σ) (ran : Ran α) (post : α → σ → Prop) : Prop :=
  match ran with
  | .done value => ∃ state, Reaches step start state ∧ post value state
  | .stuck => True
  | .spent => RunsFor step fuel start

variable {step} {fuel : Nat} {start state : σ} {ran : Ran α} {post : α → σ → Prop}

theorem RunsFor.zero (start : σ) : RunsFor step 0 start :=
  ⟨0, start, Nat.le_refl 0, rfl⟩

theorem RunsFor.mono {fewer count : Nat} (runs : RunsFor step count start)
    (enough : fewer ≤ count) : RunsFor step fewer start := by
  obtain ⟨steps, state, more, run⟩ := runs
  exact ⟨steps, state, Nat.le_trans enough more, run⟩

theorem RunsFor.of_reaches {count : Nat} (reached : Reaches step start state)
    (runs : RunsFor step count state) : RunsFor step count start := by
  obtain ⟨front, toState⟩ := reached
  obtain ⟨steps, last, more, run⟩ := runs
  refine ⟨front + steps, last, by omega, ?_⟩
  rw [runFor_add, toState]
  exact run

theorem RunsFor.of_step {count : Nat} (stepped : step start = .next state)
    (runs : RunsFor step count state) : RunsFor step (count + 1) start := by
  obtain ⟨steps, last, more, run⟩ := runs
  refine ⟨steps + 1, last, by omega, ?_⟩
  rw [runFor, stepped]
  exact run

theorem Tracks.done {value : α} (here : post value start) :
    Tracks step fuel start (.done value) post :=
  ⟨start, .refl start, here⟩

theorem Tracks.of_reaches (reached : Reaches step start state)
    (tracks : Tracks step fuel state ran post) : Tracks step fuel start ran post := by
  cases ran with
  | done value =>
      obtain ⟨last, toLast, after⟩ := tracks
      exact ⟨last, reached.trans toLast, after⟩
  | stuck => trivial
  | spent => exact RunsFor.of_reaches reached tracks

theorem Tracks.of_step (stepped : step start = .next state)
    (tracks : Tracks step fuel state ran post) : Tracks step (fuel + 1) start ran post := by
  cases ran with
  | done value => exact Tracks.of_reaches (.of_step stepped) tracks
  | stuck => trivial
  | spent => exact RunsFor.of_step stepped tracks

theorem Tracks.mono {less : Nat} (tracks : Tracks step fuel start ran post)
    (enough : less ≤ fuel) : Tracks step less start ran post := by
  cases ran with
  | done value => exact tracks
  | stuck => trivial
  | spent => exact RunsFor.mono tracks enough

theorem RunsFor.last {count : Nat} (runs : RunsFor step count start) :
    ∃ state, runFor step count start = .next state := by
  obtain ⟨steps, last, enough, ran⟩ := runs
  obtain ⟨more, rfl⟩ := Nat.exists_eq_add_of_le enough
  rw [runFor_add] at ran
  cases early : runFor step count start with
  | next state => exact ⟨state, rfl⟩
  | halt result =>
      rw [early] at ran
      cases ran

/-- With the fuel that it takes to halt, an interpreter that is never stuck is
done. -/
theorem Tracks.done_of_halts {rans : Nat → Ran α} {outcome : ω}
    (tracks : ∀ fuel, Tracks step fuel start (rans fuel) post)
    (notStuck : ∀ fuel, rans fuel ≠ .stuck) (halts : Halts step start outcome) :
    ∃ fuel value, rans fuel = .done value := by
  obtain ⟨fuel, halted⟩ := halts
  have runs := tracks fuel
  cases ran : rans fuel with
  | done value => exact ⟨fuel, value, ran⟩
  | stuck => exact absurd ran (notStuck fuel)
  | spent =>
      rw [ran] at runs
      obtain ⟨state, running⟩ := RunsFor.last runs
      rw [halted] at running
      cases running

/-- The value is the one that the interpreter is done with. -/
theorem Tracks.known (tracks : Tracks step fuel start ran post) :
    Tracks step fuel start ran fun value state => ran = .done value ∧ post value state := by
  cases ran with
  | done value =>
      obtain ⟨last, toLast, after⟩ := tracks
      exact ⟨last, toLast, rfl, after⟩
  | stuck => trivial
  | spent => exact tracks

theorem Tracks.weaken {weaker : α → σ → Prop} (tracks : Tracks step fuel start ran post)
    (imp : ∀ value state, post value state → weaker value state) :
    Tracks step fuel start ran weaker := by
  cases ran with
  | done value =>
      obtain ⟨last, toLast, after⟩ := tracks
      exact ⟨last, toLast, imp value last after⟩
  | stuck => trivial
  | spent => exact tracks

/-- More steps are taken once the interpreter is done. -/
theorem Tracks.advance {further : α → σ → Prop} (tracks : Tracks step fuel start ran post)
    (onward : ∀ value state, post value state →
      ∃ last, Reaches step state last ∧ further value last) :
    Tracks step fuel start ran further := by
  cases ran with
  | done value =>
      obtain ⟨middle, toMiddle, after⟩ := tracks
      obtain ⟨last, toLast, arrived⟩ := onward value middle after
      exact ⟨last, toMiddle.trans toLast, arrived⟩
  | stuck => trivial
  | spent => exact tracks

theorem Tracks.bind {next : α → Ran β} {last : β → σ → Prop}
    (front : Tracks step fuel start ran post)
    (back : ∀ value state, post value state → Tracks step fuel state (next value) last) :
    Tracks step fuel start (ran >>= next) last := by
  cases ran with
  | done value =>
      obtain ⟨middle, reached, after⟩ := front
      exact Tracks.of_reaches reached (back value middle after)
  | stuck => trivial
  | spent => exact front

/-- A loop: from the invariant the test either enters the body, which takes a
step, or is the end; the body leads back to the invariant or leaves. -/
theorem Tracks.iterate {ε ρ : Type} {test : ε → Ran Bool} {body : ε → Ran (ε ⊕ ρ)}
    (invariant enters : ε → σ → Prop) {last : ε ⊕ ρ → σ → Prop}
    (tests : ∀ env state, invariant env state → Tracks step fuel state (test env)
      fun holds after => if holds then ∃ inner, step after = .next inner ∧ enters env inner
        else last (.inl env) after)
    (bodies : ∀ env state, enters env state → Tracks step fuel state (body env)
      fun result after => Sum.elim (fun env => ∃ again, Reaches step after again ∧
        invariant env again) (fun value => last (.inr value) after) result)
    {count : Nat} (within : count ≤ fuel) {env : ε} (holds : invariant env start) :
    Tracks step count start (Foundations.iterate test body count env) last := by
  induction count generalizing env start with
  | zero => exact RunsFor.zero start
  | succ count ih =>
      refine Tracks.bind ((tests env start holds).mono within) fun result after tested => ?_
      cases result with
      | false => exact .done tested
      | true =>
          obtain ⟨inner, stepped, entered⟩ := tested
          apply Tracks.of_step stepped
          have inside := (bodies env inner entered).mono (Nat.le_of_succ_le within)
          refine Tracks.bind inside fun result after left => ?_
          cases result with
          | inl env =>
              obtain ⟨again, reached, holds⟩ := left
              exact Tracks.of_reaches reached (ih (Nat.le_of_succ_le within) holds)
          | inr value => exact .done left

end

end Foundations

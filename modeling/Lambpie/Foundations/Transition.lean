/-
Deterministic transition systems.

A step either moves to another state or halts with a result.  Reaching and
halting compose, an invariant is checked on one step, and a measure that every
step decreases gives a result.
-/
import Mathlib.Data.Nat.Basic

namespace Foundations

universe u v

inductive Progress (σ : Type u) (ρ : Type v) where
  | next (state : σ)
  | halt (result : ρ)
deriving DecidableEq, Repr

def Progress.halted {σ : Type u} {ρ : Type v} : Progress σ ρ → Bool
  | .next _ => false
  | .halt _ => true

def Progress.Running {σ : Type u} {ρ : Type v} (property : σ → Prop) :
    Progress σ ρ → Prop
  | .next state => property state
  | .halt _ => False

instance {σ : Type u} {ρ : Type v} {property : σ → Prop}
    [DecidablePred property] :
    (progress : Progress σ ρ) → Decidable (progress.Running property)
  | .next state => inferInstanceAs (Decidable (property state))
  | .halt _ => .isFalse id

def Progress.Stopped {σ : Type u} {ρ : Type v} (property : ρ → Prop) :
    Progress σ ρ → Prop
  | .next _ => False
  | .halt result => property result

instance {σ : Type u} {ρ : Type v} {property : ρ → Prop}
    [DecidablePred property] :
    (progress : Progress σ ρ) → Decidable (progress.Stopped property)
  | .next _ => .isFalse id
  | .halt result => inferInstanceAs (Decidable (property result))

variable {σ : Type u} {ρ : Type v} (step : σ → Progress σ ρ)

def runFor : Nat → σ → Progress σ ρ
  | 0, state => .next state
  | count + 1, state =>
      match step state with
      | .next state' => runFor count state'
      | .halt result => .halt result

def Reaches (start state : σ) : Prop :=
  ∃ count, runFor step count start = .next state

def Halts (start : σ) (result : ρ) : Prop :=
  ∃ count, runFor step count start = .halt result

variable {step}

theorem runFor_add (first second : Nat) (start : σ) :
    runFor step (first + second) start =
      match runFor step first start with
      | .next state => runFor step second state
      | .halt result => .halt result := by
  induction first generalizing start with
  | zero => rw [Nat.zero_add, runFor]
  | succ first ih =>
      rw [Nat.succ_add, runFor, runFor]
      cases step start with
      | next state => exact ih state
      | halt result => rfl

private theorem runFor_halt_mono {first second : Nat} {start : σ} {result : ρ}
    (halted : runFor step first start = .halt result)
    (later : first ≤ second) : runFor step second start = .halt result := by
  obtain ⟨extra, rfl⟩ := Nat.exists_eq_add_of_le later
  rw [runFor_add, halted]

theorem Reaches.refl (state : σ) : Reaches step state state :=
  ⟨0, rfl⟩

theorem Reaches.of_step {start state : σ} (stepped : step start = .next state) :
    Reaches step start state :=
  ⟨1, by simp [runFor, stepped]⟩

theorem Reaches.trans {first second third : σ}
    (head : Reaches step first second) (tail : Reaches step second third) :
    Reaches step first third := by
  obtain ⟨headCount, headRun⟩ := head
  obtain ⟨tailCount, tailRun⟩ := tail
  exact ⟨headCount + tailCount, by rw [runFor_add, headRun]; exact tailRun⟩

/-- A run carried over to another system by a map that its steps commute
with. -/
theorem Reaches.map {τ : Type u} {ω : Type v} {step' : τ → Progress τ ω}
    (embed : σ → τ)
    (simulates : ∀ before after, step before = .next after →
      step' (embed before) = .next (embed after))
    {start state : σ} (reached : Reaches step start state) :
    Reaches step' (embed start) (embed state) := by
  obtain ⟨count, run⟩ := reached
  induction count generalizing start with
  | zero =>
      cases run
      exact .refl _
  | succ count ih =>
      rw [runFor] at run
      cases stepped : step start with
      | next middle =>
          rw [stepped] at run
          have head : Reaches step' (embed start) (embed middle) :=
            .of_step (simulates start middle stepped)
          exact head.trans (ih run)
      | halt result =>
          rw [stepped] at run
          cases run

/-- Of two states reached from the same start, one is on the way to the
other. -/
theorem Reaches.linear {start left right : σ}
    (toLeft : Reaches step start left) (toRight : Reaches step start right) :
    Reaches step left right ∨ Reaches step right left := by
  obtain ⟨leftCount, leftRun⟩ := toLeft
  obtain ⟨rightCount, rightRun⟩ := toRight
  rcases Nat.le_total leftCount rightCount with earlier | earlier
  · obtain ⟨extra, rfl⟩ := Nat.exists_eq_add_of_le earlier
    rw [runFor_add, leftRun] at rightRun
    exact .inl ⟨extra, rightRun⟩
  · obtain ⟨extra, rfl⟩ := Nat.exists_eq_add_of_le earlier
    rw [runFor_add, rightRun] at leftRun
    exact .inr ⟨extra, leftRun⟩

theorem Reaches.to_last {start state last : σ} {result : ρ}
    (reached : Reaches step start state) (toLast : Reaches step start last)
    (ended : step last = .halt result) : Reaches step state last := by
  rcases reached.linear toLast with forward | ⟨count, run⟩
  · exact forward
  · cases count with
    | zero =>
        cases run
        exact .refl _
    | succ count =>
        rw [runFor, ended] at run
        cases run

theorem Halts.of_step {state : σ} {result : ρ}
    (stepped : step state = .halt result) : Halts step state result :=
  ⟨1, by simp [runFor, stepped]⟩

theorem Halts.of_reaches {start state : σ} {result : ρ}
    (head : Reaches step start state) (tail : Halts step state result) :
    Halts step start result := by
  obtain ⟨headCount, headRun⟩ := head
  obtain ⟨tailCount, tailRun⟩ := tail
  exact ⟨headCount + tailCount, by rw [runFor_add, headRun]; exact tailRun⟩

theorem Halts.last {start : σ} {result : ρ} (halts : Halts step start result) :
    ∃ state, Reaches step start state ∧ step state = .halt result := by
  obtain ⟨count, run⟩ := halts
  induction count generalizing start with
  | zero => cases run
  | succ count ih =>
      rw [runFor] at run
      cases stepped : step start with
      | next middle =>
          rw [stepped] at run
          obtain ⟨state, reached, stopped⟩ := ih run
          exact ⟨state, (Reaches.of_step stepped).trans reached, stopped⟩
      | halt other =>
          rw [stepped] at run
          cases run
          exact ⟨start, .refl start, stepped⟩

theorem Halts.unique {start : σ} {left right : ρ}
    (leftHalts : Halts step start left) (rightHalts : Halts step start right) :
    left = right := by
  obtain ⟨leftCount, leftRun⟩ := leftHalts
  obtain ⟨rightCount, rightRun⟩ := rightHalts
  have leftLater := runFor_halt_mono leftRun (Nat.le_max_left leftCount rightCount)
  have rightLater :=
    runFor_halt_mono rightRun (Nat.le_max_right leftCount rightCount)
  rw [leftLater] at rightLater
  cases rightLater
  rfl

/-- What holds at the start and is kept by every step holds in every state
reached. -/
theorem Reaches.invariant {invariant : σ → Prop} {start state : σ}
    (preserved : ∀ before after, Reaches step start before →
      invariant before → step before = .next after → invariant after)
    (initially : invariant start) (reached : Reaches step start state) :
    invariant state := by
  obtain ⟨count, run⟩ := reached
  induction count generalizing state with
  | zero =>
      cases run
      exact initially
  | succ count ih =>
      rw [runFor_add] at run
      cases middle : runFor step count start with
      | next before =>
          rw [middle] at run
          simp only [runFor] at run
          cases stepped : step before with
          | next after =>
              rw [stepped] at run
              cases run
              exact preserved before state ⟨count, middle⟩ (ih middle) stepped
          | halt result =>
              rw [stepped] at run
              cases run
      | halt result =>
          rw [middle] at run
          cases run

def visited (step : σ → Progress σ ρ) : Nat → σ → List σ
  | 0, state => [state]
  | count + 1, state =>
      state ::
        match step state with
        | .next state' => visited step count state'
        | .halt _ => []

theorem mem_visited {count index : Nat} {start state : σ}
    (earlier : index ≤ count) (run : runFor step index start = .next state) :
    state ∈ visited step count start := by
  induction index generalizing count start with
  | zero =>
      cases run
      cases count with
      | zero => exact List.mem_singleton.mpr rfl
      | succ count => exact List.mem_cons_self
  | succ index ih =>
      cases count with
      | zero => omega
      | succ count =>
          rw [runFor] at run
          rw [visited]
          cases stepped : step start with
          | next middle =>
              rw [stepped] at run
              exact List.mem_cons_of_mem _ (ih (by omega) run)
          | halt result =>
              rw [stepped] at run
              cases run

variable (step) in
theorem exists_reaches_of_runFor (property : σ → Prop) (count : Nat) (start : σ)
    (evaluated : (runFor step count start).Running property) :
    ∃ state, Reaches step start state ∧ property state := by
  cases run : runFor step count start with
  | next state =>
      rw [run] at evaluated
      exact ⟨state, ⟨count, run⟩, evaluated⟩
  | halt result =>
      rw [run] at evaluated
      exact evaluated.elim

theorem halts_of_runFor {property : ρ → Prop} (count : Nat) {start : σ}
    (evaluated : (runFor step count start).Stopped property) :
    ∃ result, Halts step start result ∧ property result := by
  cases run : runFor step count start with
  | next state =>
      rw [run] at evaluated
      exact evaluated.elim
  | halt result =>
      rw [run] at evaluated
      exact ⟨result, ⟨count, run⟩, evaluated⟩

/-- A run that halts within a number of steps reaches only the states visited
by then. -/
theorem Reaches.mem_visited {start state : σ} (count : Nat)
    (halted : (runFor step count start).halted = true)
    (reached : Reaches step start state) : state ∈ visited step count start := by
  obtain ⟨index, run⟩ := reached
  by_cases earlier : index ≤ count
  · exact Foundations.mem_visited earlier run
  · cases final : runFor step count start with
    | next state' =>
        rw [final] at halted
        cases halted
    | halt result =>
        have later := runFor_halt_mono final (by omega : count ≤ index)
        rw [run] at later
        cases later

end Foundations

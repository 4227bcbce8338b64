/-
Computations that read and change a state and may fail.

A failed computation has no final state, so what a computation ensures is said
of its successful runs only, and is checked part by part.
-/

namespace Foundations

universe u v w

def Comp (σ : Type u) (ε : Type v) (α : Type w) : Type (max u v w) :=
  σ → Except ε (α × σ)

namespace Comp

variable {σ : Type u} {ε : Type v} {α β : Type w}

def bind (first : Comp σ ε α) (next : α → Comp σ ε β) : Comp σ ε β :=
  fun state =>
    match first state with
    | .ok (value, state') => next value state'
    | .error error => .error error

instance : Monad (Comp σ ε) where
  pure := fun value state => .ok (value, state)
  bind := bind

def fail (error : ε) : Comp σ ε α := fun _ => .error error

def reads (read : σ → α) : Comp σ ε α := fun state => .ok (read state, state)

def modify (change : σ → σ) : Comp σ ε PUnit :=
  fun state => .ok (.unit, change state)

@[simp] theorem pure_ok_iff {value result : α} {state state' : σ} :
    (pure value : Comp σ ε α) state = .ok (result, state') ↔
      value = result ∧ state = state' := by
  change Except.ok (value, state) = .ok (result, state') ↔ _
  simp

@[simp] theorem bind_ok_iff {first : Comp σ ε α} {next : α → Comp σ ε β}
    {result : β} {state state' : σ} :
    (first >>= next) state = .ok (result, state') ↔
      ∃ value middle, first state = .ok (value, middle) ∧
        next value middle = .ok (result, state') := by
  change bind first next state = _ ↔ _
  unfold bind
  cases first state with
  | ok pair =>
      constructor
      · intro continued
        exact ⟨pair.1, pair.2, rfl, continued⟩
      · rintro ⟨value, middle, same, continued⟩
        cases same
        exact continued
  | error error =>
      constructor
      · intro failed
        cases failed
      · rintro ⟨value, middle, failed, -⟩
        cases failed

@[simp] theorem fail_ok_iff {error : ε} {result : α} {state state' : σ} :
    (fail error : Comp σ ε α) state = .ok (result, state') ↔ False := by
  simp [fail]

@[simp] theorem reads_ok_iff {read : σ → α} {result : α} {state state' : σ} :
    (reads read : Comp σ ε α) state = .ok (result, state') ↔
      read state = result ∧ state = state' := by
  simp [reads]

@[simp] theorem modify_ok_iff {change : σ → σ} {result : PUnit}
    {state state' : σ} :
    (modify change : Comp σ ε PUnit) state = .ok (result, state') ↔
      change state = state' := by
  simp [modify]

theorem bind_of_ok {first : Comp σ ε α} {next : α → Comp σ ε β} {value : α}
    {state state' : σ} (run : first state = .ok (value, state')) :
    (first >>= next) state = next value state' := by
  change bind first next state = _
  rw [bind, run]

theorem bind_of_error {first : Comp σ ε α} {next : α → Comp σ ε β} {error : ε}
    {state : σ} (run : first state = .error error) :
    (first >>= next) state = .error error := by
  change bind first next state = _
  rw [bind, run]

theorem reads_then (read : σ → α) (next : α → Comp σ ε β) (state : σ) :
    (reads read >>= next) state = next (read state) state := rfl

theorem modify_then (change : σ → σ) (next : PUnit → Comp σ ε β) (state : σ) :
    (modify change >>= next) state = next .unit (change state) := rfl

theorem pure_then (value : α) (next : α → Comp σ ε β) :
    (pure value >>= next) = next value := rfl

theorem then_assoc {γ : Type w} (computation : Comp σ ε α)
    (next : α → Comp σ ε β) (last : β → Comp σ ε γ) :
    (computation >>= next) >>= last =
      computation >>= fun value => next value >>= last := by
  funext state
  change bind (bind computation next) last state =
    bind computation (fun value => bind (next value) last) state
  unfold bind
  cases computation state <;> rfl

/-- Every successful run from a state with the precondition ends with the
postcondition.  Nothing is said of a run that fails. -/
def Ensures (pre : σ → Prop) (computation : Comp σ ε α)
    (post : α → σ → Prop) : Prop :=
  ∀ state value state', pre state → computation state = .ok (value, state') →
    post value state'

namespace Ensures

variable {pre : σ → Prop} {post : α → σ → Prop} {computation : Comp σ ε α}

theorem pure {value : α} (holds : ∀ state, pre state → post value state) :
    Ensures pre (Pure.pure value : Comp σ ε α) post := by
  intro state result state' before run
  obtain ⟨rfl, rfl⟩ := pure_ok_iff.mp run
  exact holds state before

theorem bind {mid : α → σ → Prop} {last : β → σ → Prop}
    {next : α → Comp σ ε β} (head : Ensures pre computation mid)
    (tail : ∀ value, Ensures (mid value) (next value) last) :
    Ensures pre (computation >>= next) last := by
  intro state result state' before run
  obtain ⟨value, middle, firstRun, nextRun⟩ := bind_ok_iff.mp run
  exact tail _ _ _ _ (head _ _ _ before firstRun) nextRun

theorem bind_never {last : β → σ → Prop} {next : α → Comp σ ε β}
    (head : Ensures pre computation fun _ _ => False) :
    Ensures pre (computation >>= next) last :=
  head.bind fun _ _ _ _ never => never.elim

theorem fail (error : ε) : Ensures pre (Comp.fail error : Comp σ ε α) post := by
  intro state result state' _ run
  exact (fail_ok_iff.mp run).elim

theorem reads {read : σ → α} (holds : ∀ state, pre state → post (read state) state) :
    Ensures pre (Comp.reads read : Comp σ ε α) post := by
  intro state result state' before run
  obtain ⟨rfl, rfl⟩ := reads_ok_iff.mp run
  exact holds state before

theorem modify {change : σ → σ} {after : PUnit → σ → Prop}
    (holds : ∀ state, pre state → after .unit (change state)) :
    Ensures pre (Comp.modify change : Comp σ ε PUnit) after := by
  intro state result state' before run
  obtain rfl := modify_ok_iff.mp run
  exact holds state before

theorem any : Ensures pre computation fun _ _ => True :=
  fun _ _ _ _ _ => trivial

theorem weaken {weaker : α → σ → Prop} (ensured : Ensures pre computation post)
    (implies : ∀ value state, post value state → weaker value state) :
    Ensures pre computation weaker :=
  fun state value state' before run =>
    implies value state' (ensured state value state' before run)

theorem strengthen {stronger : σ → Prop} (ensured : Ensures pre computation post)
    (implies : ∀ state, stronger state → pre state) :
    Ensures stronger computation post :=
  fun state value state' before =>
    ensured state value state' (implies state before)

theorem and {other : σ → Prop} {after : α → σ → Prop}
    (ensured : Ensures pre computation post)
    (otherEnsured : Ensures other computation after) :
    Ensures (fun state => pre state ∧ other state) computation
      fun value state => post value state ∧ after value state :=
  fun state value state' before run =>
    ⟨ensured state value state' before.1 run,
      otherEnsured state value state' before.2 run⟩

theorem cases {other : σ → Prop} (ensured : Ensures pre computation post)
    (otherEnsured : Ensures other computation post) :
    Ensures (fun state => pre state ∨ other state) computation post :=
  fun state value state' before run =>
    before.elim (fun held => ensured state value state' held run)
      fun held => otherEnsured state value state' held run

/-- State by state. -/
theorem each (ensured : ∀ state, pre state → Ensures (· = state) computation post) :
    Ensures pre computation post :=
  fun state value state' before run =>
    ensured state before state value state' rfl run

/-- A fact that the precondition shows of any state. -/
theorem showing {fact : Prop} (shows : ∀ state, pre state → fact)
    (ensured : fact → Ensures pre computation post) :
    Ensures pre computation post :=
  fun state value state' before =>
    ensured (shows state before) state value state' before

/-- A fact about no state moves from the precondition to the context. -/
theorem assume {fact : Prop}
    (ensured : fact → Ensures pre computation post) :
    Ensures (fun state => fact ∧ pre state) computation post :=
  fun state value state' before => ensured before.1 state value state' before.2

end Ensures

end Comp

end Foundations

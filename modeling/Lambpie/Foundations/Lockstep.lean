/-
Two computations in lockstep.

One computation tracks another when, from related states, both succeed with
related results or both fail.  What only one of them does is answered by a
`pure` of the other.
-/
import Lambpie.Foundations.StateExcept

namespace Foundations

universe u v w u' v' w'

namespace Comp

variable {σ : Type u} {ε : Type v} {α β : Type w} {τ : Type u'} {δ : Type v'}
  {γ η : Type w'}

/-- Both results are there and related, or neither is there. -/
inductive Meets (post : α → γ → σ → τ → Prop) :
    Except ε (α × σ) → Except δ (γ × τ) → Prop
  | both {value : α} {answer : γ} {state : σ} {other : τ}
      (holds : post value answer state other) :
      Meets post (.ok (value, state)) (.ok (answer, other))
  | neither {error : ε} {fault : δ} : Meets post (.error error) (.error fault)

def Tracks (pre : σ → τ → Prop) (left : Comp σ ε α) (right : Comp τ δ γ)
    (post : α → γ → σ → τ → Prop) : Prop :=
  ∀ state other, pre state other → Meets post (left state) (right other)

namespace Tracks

variable {pre : σ → τ → Prop} {left : Comp σ ε α} {right : Comp τ δ γ}
  {post : α → γ → σ → τ → Prop}

theorem pure {value : α} {answer : γ}
    (holds : ∀ state other, pre state other → post value answer state other) :
    Tracks pre (Pure.pure value : Comp σ ε α) (Pure.pure answer : Comp τ δ γ)
      post :=
  fun state other before => .both (holds state other before)

theorem fail (error : ε) (fault : δ) :
    Tracks pre (Comp.fail error : Comp σ ε α) (Comp.fail fault : Comp τ δ γ) post :=
  fun _ _ _ => .neither

theorem bind {mid : α → γ → σ → τ → Prop} {next : α → Comp σ ε β}
    {follow : γ → Comp τ δ η} {last : β → η → σ → τ → Prop}
    (head : Tracks pre left right mid)
    (tail : ∀ value answer, Tracks (mid value answer) (next value) (follow answer)
      last) :
    Tracks pre (left >>= next) (right >>= follow) last := by
  intro state other before
  have met := head state other before
  change Meets last (Comp.bind left next state) (Comp.bind right follow other)
  unfold Comp.bind
  generalize left state = reached at met
  generalize right other = answered at met
  cases met with
  | both holds => exact tail _ _ _ _ holds
  | neither => exact .neither

theorem packs {pack : α → β} {last : β → γ → σ → τ → Prop}
    (tracks : Tracks pre left right post)
    (holds : ∀ value answer state other, post value answer state other →
      last (pack value) answer state other) :
    Tracks pre (left >>= fun value => Pure.pure (pack value)) right last := by
  intro state other before
  have met := tracks state other before
  change Meets last (Comp.bind left (fun value => Pure.pure (pack value)) state) _
  unfold Comp.bind
  generalize left state = reached at met ⊢
  generalize right other = answered at met ⊢
  cases met with
  | both related => exact .both (holds _ _ _ _ related)
  | neither => exact .neither

theorem answers {pack : γ → η} {last : α → η → σ → τ → Prop}
    (tracks : Tracks pre left right post)
    (holds : ∀ value answer state other, post value answer state other →
      last value (pack answer) state other) :
    Tracks pre left (right >>= fun answer => Pure.pure (pack answer)) last := by
  intro state other before
  have met := tracks state other before
  change Meets last _ (Comp.bind right (fun answer => Pure.pure (pack answer)) other)
  unfold Comp.bind
  generalize left state = reached at met ⊢
  generalize right other = answered at met ⊢
  cases met with
  | both related => exact .both (holds _ _ _ _ related)
  | neither => exact .neither

/-- A step of the first computation alone. -/
theorem before {mid : α → σ → τ → Prop} {next : α → Comp σ ε β}
    {last : β → γ → σ → τ → Prop}
    (head : Tracks pre left (Pure.pure .unit : Comp τ δ PUnit.{w' + 1})
      fun value _ state other => mid value state other)
    (tail : ∀ value, Tracks (mid value) (next value) right last) :
    Tracks pre (left >>= next) right last := by
  have together : Tracks pre (left >>= next)
      ((Pure.pure .unit : Comp τ δ PUnit.{w' + 1}) >>= fun _ => right) last :=
    head.bind fun value _ => tail value
  exact together

theorem never (fault : δ) (fails : ∀ other, Ensures (fun state => pre state other) left
    fun _ _ => False) : Tracks pre left (Comp.fail fault : Comp τ δ γ) post := by
  intro state other holds
  cases run : left state with
  | ok reached => exact (fails other state reached.1 reached.2 holds run).elim
  | error error => exact .neither

theorem reads {read : σ → α} {look : τ → γ}
    (holds : ∀ state other, pre state other →
      post (read state) (look other) state other) :
    Tracks pre (Comp.reads read : Comp σ ε α) (Comp.reads look : Comp τ δ γ)
      post :=
  fun state other before => .both (holds state other before)

theorem modify {change : σ → σ} {alter : τ → τ}
    {last : PUnit → PUnit → σ → τ → Prop}
    (holds : ∀ state other, pre state other →
      last .unit .unit (change state) (alter other)) :
    Tracks pre (Comp.modify change : Comp σ ε PUnit)
      (Comp.modify alter : Comp τ δ PUnit) last :=
  fun state other before => .both (holds state other before)

theorem weaken {last : α → γ → σ → τ → Prop} (tracks : Tracks pre left right post)
    (implies : ∀ value answer state other, post value answer state other →
      last value answer state other) :
    Tracks pre left right last := by
  intro state other before
  have met := tracks state other before
  generalize left state = reached at met ⊢
  generalize right other = answered at met ⊢
  cases met with
  | both holds => exact .both (implies _ _ _ _ holds)
  | neither => exact .neither

theorem strengthen {earlier : σ → τ → Prop} (tracks : Tracks pre left right post)
    (implies : ∀ state other, earlier state other → pre state other) :
    Tracks earlier left right post :=
  fun state other before => tracks state other (implies state other before)

theorem assume {fact : Prop} (tracks : fact → Tracks pre left right post) :
    Tracks (fun state other => fact ∧ pre state other) left right post :=
  fun state other before => tracks before.1 state other before.2

theorem ensuring {also : σ → Prop} {after : α → σ → Prop}
    (tracks : Tracks pre left right post) (ensured : Ensures also left after) :
    Tracks (fun state other => also state ∧ pre state other) left right
      fun value answer state other => after value state ∧ post value answer state other := by
  intro state other before
  have met := tracks state other before.2
  have ensured := ensured state
  generalize left state = reached at met ensured ⊢
  generalize right other = answered at met ⊢
  cases met with
  | both holds => exact .both ⟨ensured _ _ before.1 rfl, holds⟩
  | neither => exact .neither

end Tracks

end Comp

end Foundations

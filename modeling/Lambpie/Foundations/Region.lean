/-
Marks on the paths through a region of a directed graph.

A region has a node to start from and a node to stop at.  Where one region
follows another, which of the marks lie on a way through both, and which lie on
a cycle, can be told from the same of each.
-/
import Mathlib.Data.List.Forall2
import Mathlib.Logic.Relation

namespace Foundations

open Relation

variable {α : Type}

/-- Whether a way from the start to the stop passes the mark, and whether a
cycle does. -/
structure Mark where
  passed : Bool
  cyclic : Bool
deriving DecidableEq, Repr

/-- Whether there is a way from the start to the stop, and the marks. -/
structure Flow where
  falls : Bool
  marks : List Mark
deriving DecidableEq, Repr

def Mark.along (falls : Bool) (mark : Mark) : Mark :=
  { mark with passed := mark.passed && falls }

/-- The mark in a loop: passed once, it is passed again. -/
def Mark.again (mark : Mark) : Mark :=
  { mark with cyclic := mark.cyclic || mark.passed }

namespace Flow

def straight (count : Nat) : Flow where
  falls := true
  marks := List.replicate count { passed := true, cyclic := false }

def halt : Flow where
  falls := false
  marks := []

def seq (first second : Flow) : Flow where
  falls := first.falls && second.falls
  marks := first.marks.map (·.along second.falls) ++ second.marks.map (·.along first.falls)

def either (first second : Flow) : Flow where
  falls := first.falls || second.falls
  marks := first.marks ++ second.marks

def loop (body : Flow) : Flow where
  falls := true
  marks := body.marks.map (·.again)

/-- A part that nothing leads to, and from which ways do not go back. -/
def apart (body : Flow) : Flow where
  falls := false
  marks := body.marks.map (·.along false)

/-- A part that nothing leads to, and that is left aside. -/
def aside (body : Flow) : Flow where
  falls := true
  marks := body.marks.map (·.along false)

end Flow

@[simp] theorem Mark.along_true (mark : Mark) : mark.along true = mark := by
  rw [Mark.along, Bool.and_true]

@[simp] theorem Mark.along_cyclic (falls : Bool) (mark : Mark) :
    (mark.along falls).cyclic = mark.cyclic := rfl

namespace Flow

@[simp] theorem straight_seq (flow : Flow) : (straight 0).seq flow = flow := by
  simp [seq, straight]

@[simp] theorem seq_straight (flow : Flow) : flow.seq (straight 0) = flow := by
  simp [seq, straight]

/-- Nothing more is cut off by the end of a part that nothing leads to. -/
theorem apart_seq_halt (flow : Flow) : (flow.seq .halt).apart = flow.apart := by
  simp [seq, halt, apart, Mark.along]

theorem aside_seq_halt (flow : Flow) : (flow.seq .halt).aside = flow.aside := by
  simp [seq, halt, aside, Mark.along]

@[simp] theorem seq_cyclic (first second : Flow) :
    (first.seq second).marks.map Mark.cyclic =
      first.marks.map Mark.cyclic ++ second.marks.map Mark.cyclic := by
  simp [seq, Function.comp_def]

end Flow

def Either (first second : α → α → Prop) (x y : α) : Prop :=
  first x y ∨ second x y

/-- The second part starts where the first one stops, and is new otherwise. -/
structure Follows (first second : α → α → Prop) (front back : α → Prop) (joint : α) :
    Prop where
  source : ∀ x y, first x y → front x
  target : ∀ x y, first x y → front y
  inFront : front joint
  apart : ∀ x, front x → ¬back x
  last : ∀ y, ¬first joint y
  newSource : ∀ x y, second x y → x = joint ∨ back x
  newTarget : ∀ x y, second x y → back y

namespace Follows

variable {first second : α → α → Prop} {front back : α → Prop} {joint x y : α}
  (follows : Follows first second front back joint)

include follows

private theorem reaches_front (inFront : front y)
    (reaches : ReflTransGen (Either first second) x y) : ReflTransGen first x y := by
  induction reaches with
  | refl => exact .refl
  | tail _ edge ih =>
      rcases edge with old | new
      · exact (ih (follows.source _ _ old)).tail old
      · exact absurd (follows.newTarget _ _ new) (follows.apart _ inFront)

private theorem reaches_back (inBack : x = joint ∨ back x)
    (reaches : ReflTransGen (Either first second) x y) : ReflTransGen second x y := by
  induction reaches using ReflTransGen.head_induction_on with
  | refl => exact .refl
  | head edge _ ih =>
      rcases edge with old | new
      · rcases inBack with rfl | inBack
        · exact absurd old (follows.last _)
        · exact absurd inBack (follows.apart _ (follows.source _ _ old))
      · exact (ih (.inr (follows.newTarget _ _ new))).head new

private theorem reaches_across (inFront : front x) (inBack : y = joint ∨ back y) :
    ReflTransGen (Either first second) x y ↔
      ReflTransGen first x joint ∧ ReflTransGen second joint y := by
  constructor
  · intro reaches
    induction reaches with
    | refl =>
        rcases inBack with rfl | inBack
        · exact ⟨.refl, .refl⟩
        · exact absurd inBack (follows.apart _ inFront)
    | tail before edge ih =>
        rcases edge with old | new
        · rcases inBack with rfl | inBack
          · have whole := follows.reaches_front follows.inFront (before.tail (.inl old))
            exact ⟨whole, .refl⟩
          · exact absurd inBack (follows.apart _ (follows.target _ _ old))
        · obtain ⟨toJoint, onward⟩ := ih (follows.newSource _ _ new)
          exact ⟨toJoint, onward.tail new⟩
  · rintro ⟨toJoint, onward⟩
    exact (ReflTransGen.mono (fun _ _ => Or.inl) _ _ toJoint).trans
      (ReflTransGen.mono (fun _ _ => Or.inr) _ _ onward)

private theorem cyclic_front (inFront : front x) :
    TransGen (Either first second) x x ↔ TransGen first x x := by
  constructor
  · intro cycle
    obtain ⟨y, reaches, old | new⟩ := TransGen.tail'_iff.mp cycle
    · exact TransGen.tail' (follows.reaches_front (follows.source _ _ old) reaches) old
    · exact absurd (follows.newTarget _ _ new) (follows.apart _ inFront)
  · exact TransGen.mono (fun _ _ => Or.inl) _ _

private theorem cyclic_back (inBack : x = joint ∨ back x) :
    TransGen (Either first second) x x ↔ TransGen second x x := by
  constructor
  · intro cycle
    rcases inBack with rfl | inBack
    · rw [follows.cyclic_front follows.inFront] at cycle
      obtain ⟨y, edge, -⟩ := TransGen.head'_iff.mp cycle
      exact absurd edge (follows.last y)
    · obtain ⟨y, reaches, old | new⟩ := TransGen.tail'_iff.mp cycle
      · exact absurd inBack (follows.apart _ (follows.target _ _ old))
      · exact TransGen.tail' (follows.reaches_back (.inr inBack) reaches) new
  · exact TransGen.mono (fun _ _ => Or.inr) _ _

end Follows

/-- The mark of a node: the ways are those from the start to the stop, if the
region can be entered and left. -/
structure Marked (edge : α → α → Prop) (start stop : α) (inner : α → Prop)
    (enters leaves : Prop) (x : α) (mark : Mark) : Prop where
  placed : x = start ∨ inner x
  passed : enters → (mark.passed = true ↔
    leaves ∧ ReflTransGen edge start x ∧ ReflTransGen edge x stop)
  cyclic : mark.cyclic = true ↔ TransGen edge x x

/-- The edges of a region lead from its start to nodes of its own. -/
structure Region (flow : Flow) (edge : α → α → Prop) (start stop : α)
    (inner : α → Prop) (nodes : List α) (enters leaves : Prop) : Prop where
  source : ∀ x y, edge x y → x = start ∨ inner x
  target : ∀ x y, edge x y → inner y
  outside : ¬inner start
  inside : stop = start ∨ inner stop
  last : ∀ y, ¬edge stop y
  opens : ∀ y, edge start y → enters
  stays : stop = start → leaves → enters
  falls : enters → (flow.falls = true ↔ leaves ∧ ReflTransGen edge start stop)
  marks : List.Forall₂ (Marked edge start stop inner enters leaves) nodes flow.marks

namespace Region

variable {flow : Flow} {edge : α → α → Prop} {start stop : α} {inner : α → Prop}
  {nodes : List α} {enters leaves : Prop}

private theorem enters_of_way (region : Region flow edge start stop inner nodes enters leaves)
    (leaving : leaves) (way : ReflTransGen edge start stop) : enters := by
  rcases ReflTransGen.cases_head way with same | ⟨y, first, -⟩
  · exact region.stays same.symm leaving
  · exact region.opens y first

theorem widen (region : Region flow edge start stop inner nodes enters leaves)
    {wider : α → Prop} (inWider : ∀ x, inner x → wider x) (outside : ¬wider start) :
    Region flow edge start stop wider nodes enters leaves where
  source x y first := (region.source x y first).imp id (inWider x)
  target x y first := inWider y (region.target x y first)
  outside := outside
  inside := region.inside.imp id (inWider stop)
  last := region.last
  opens := region.opens
  stays := region.stays
  falls := region.falls
  marks := region.marks.imp fun x _ marked =>
    { placed := marked.placed.imp id (inWider x)
      passed := marked.passed
      cyclic := marked.cyclic }

section

variable (none : ∀ x y, ¬edge x y) (outside : ¬inner start)

include none outside

theorem straight (count : Nat) (open_ : leaves ↔ enters) :
    Region (.straight count) edge start start inner (List.replicate count start)
      enters leaves where
  source x y first := absurd first (none x y)
  target x y first := absurd first (none x y)
  outside := outside
  inside := .inl rfl
  last y := none start y
  opens y first := absurd first (none start y)
  stays _ leaving := open_.mp leaving
  falls entering := iff_of_true rfl ⟨open_.mpr entering, .refl⟩
  marks := by
    have marked : Marked edge start start inner enters leaves start
        { passed := true, cyclic := false } :=
      { placed := .inl rfl
        passed := fun entering => iff_of_true rfl ⟨open_.mpr entering, .refl, .refl⟩
        cyclic := by
          constructor
          · intro never
            cases never
          · intro cycle
            obtain ⟨y, first, -⟩ := TransGen.head'_iff.mp cycle
            exact absurd first (none start y) }
    rw [Flow.straight]
    induction count with
    | zero => exact .nil
    | succ count ih => exact .cons marked ih

theorem halt (closed : ¬leaves) :
    Region .halt edge start start inner [] enters leaves where
  source x y first := absurd first (none x y)
  target x y first := absurd first (none x y)
  outside := outside
  inside := .inl rfl
  last y := none start y
  opens y first := absurd first (none start y)
  stays _ leaving := absurd leaving closed
  falls _ := iff_of_false Bool.false_ne_true fun both => closed both.1
  marks := .nil

end

section Seq

variable {first second : Flow} {front back : α → α → Prop} {joint : α}
  {inFront inBack : α → Prop} {frontNodes backNodes : List α} {between : Prop}
  (head : Region first front start joint inFront frontNodes enters between)
  (tail : Region second back joint stop inBack backNodes between leaves)
  (apart : ∀ x, inFront x → ¬inBack x) (new : ¬inBack start)

include head tail apart new

theorem follows :
    Follows front back (fun x => x = start ∨ inFront x) inBack joint where
  source := head.source
  target x y edge := .inr (head.target x y edge)
  inFront := head.inside
  apart := by
    rintro x (rfl | inside)
    · exact new
    · exact apart x inside
  last := head.last
  newSource := tail.source
  newTarget := tail.target

private theorem leaves_across {x : α} (inside : x = start ∨ inFront x) :
    leaves ∧ ReflTransGen (Either front back) x stop ↔
      (between ∧ ReflTransGen front x joint) ∧ second.falls = true := by
  have follows := follows head tail apart new
  rw [follows.reaches_across inside tail.inside]
  constructor
  · rintro ⟨leaving, toJoint, onward⟩
    have entering := tail.enters_of_way leaving onward
    exact ⟨⟨entering, toJoint⟩, (tail.falls entering).mpr ⟨leaving, onward⟩⟩
  · rintro ⟨⟨entering, toJoint⟩, falls⟩
    obtain ⟨leaving, onward⟩ := (tail.falls entering).mp falls
    exact ⟨leaving, toJoint, onward⟩

private theorem marked_front {x : α} {mark : Mark}
    (marked : Marked front start joint inFront enters between x mark) :
    Marked (Either front back) start stop (fun x => inFront x ∨ inBack x) enters leaves
      x (mark.along second.falls) where
  placed := marked.placed.imp id .inl
  passed := by
    intro entering
    have follows := follows head tail apart new
    have reaches : ReflTransGen (Either front back) start x ↔ ReflTransGen front start x :=
      ⟨follows.reaches_front marked.placed, ReflTransGen.mono (fun _ _ => Or.inl) _ _⟩
    have across := leaves_across head tail apart new marked.placed
    rw [Mark.along, Bool.and_eq_true, marked.passed entering, reaches]
    constructor
    · rintro ⟨⟨open_, way, toJoint⟩, falls⟩
      obtain ⟨leaving, onward⟩ := across.mpr ⟨⟨open_, toJoint⟩, falls⟩
      exact ⟨leaving, way, onward⟩
    · rintro ⟨leaving, way, onward⟩
      obtain ⟨⟨open_, toJoint⟩, falls⟩ := across.mp ⟨leaving, onward⟩
      exact ⟨⟨open_, way, toJoint⟩, falls⟩
  cyclic := by
    rw [(follows head tail apart new).cyclic_front marked.placed]
    exact marked.cyclic

private theorem marked_back {x : α} {mark : Mark}
    (marked : Marked back joint stop inBack between leaves x mark) :
    Marked (Either front back) start stop (fun x => inFront x ∨ inBack x) enters leaves
      x (mark.along first.falls) where
  placed := by
    rcases marked.placed with rfl | inside
    · exact head.inside.imp id .inl
    · exact .inr (.inr inside)
  passed := by
    intro entering
    have follows := follows head tail apart new
    have onward : ReflTransGen (Either front back) x stop ↔ ReflTransGen back x stop :=
      ⟨follows.reaches_back marked.placed, ReflTransGen.mono (fun _ _ => Or.inr) _ _⟩
    rw [Mark.along, Bool.and_eq_true, head.falls entering,
      follows.reaches_across (.inl rfl) marked.placed, onward]
    constructor
    · rintro ⟨passed, open_, toJoint⟩
      obtain ⟨leaving, way, toStop⟩ := (marked.passed open_).mp passed
      exact ⟨leaving, ⟨toJoint, way⟩, toStop⟩
    · rintro ⟨leaving, ⟨toJoint, way⟩, toStop⟩
      have open_ := tail.enters_of_way leaving (way.trans toStop)
      exact ⟨(marked.passed open_).mpr ⟨leaving, way, toStop⟩, open_, toJoint⟩
  cyclic := by
    rw [(follows head tail apart new).cyclic_back marked.placed]
    exact marked.cyclic

theorem seq :
    Region (first.seq second) (Either front back) start stop
      (fun x => inFront x ∨ inBack x) (frontNodes ++ backNodes) enters leaves where
  source := by
    rintro x y (edge | edge)
    · exact (head.source x y edge).imp id .inl
    · rcases tail.source x y edge with rfl | inside
      · exact head.inside.imp id .inl
      · exact .inr (.inr inside)
  target := by
    rintro x y (edge | edge)
    · exact .inl (head.target x y edge)
    · exact .inr (tail.target x y edge)
  outside := by
    rintro (inside | inside)
    · exact head.outside inside
    · exact new inside
  inside := by
    rcases tail.inside with rfl | inside
    · exact head.inside.imp id .inl
    · exact .inr (.inr inside)
  last := by
    rintro y (edge | edge)
    · rcases tail.inside with rfl | inside
      · exact head.last y edge
      · rcases head.source _ y edge with rfl | inFront
        · exact new inside
        · exact apart stop inFront inside
    · exact tail.last y edge
  opens := by
    rintro y (edge | edge)
    · exact head.opens y edge
    · rcases tail.source start y edge with same | inside
      · exact head.stays same.symm (tail.opens y (same ▸ edge))
      · exact absurd inside new
  stays := by
    intro same leaving
    rcases tail.inside with isJoint | inside
    · exact head.stays (isJoint.symm.trans same) (tail.stays isJoint leaving)
    · exact absurd (same ▸ inside) new
  falls := by
    intro entering
    rw [leaves_across head tail apart new (.inl rfl), Flow.seq, Bool.and_eq_true,
      head.falls entering]
  marks := by
    apply List.rel_append
    · apply List.forall₂_map_right_iff.mpr
      exact head.marks.imp fun _ _ => marked_front head tail apart new
    · apply List.forall₂_map_right_iff.mpr
      exact tail.marks.imp fun _ _ => marked_back head tail apart new

end Seq

section

variable {flow : Flow} {edge : α → α → Prop} {entry stop start : α}
  {inner wider : α → Prop} {nodes : List α} {enters leaves entering : Prop}
  (body : Region flow edge entry stop inner nodes enters leaves)
  (inWider : ∀ x, x = entry ∨ inner x → wider x) (outside : ¬wider start)

include body inWider outside

theorem apart : Region flow.apart edge start stop wider nodes entering False where
  source x y edge := .inr (inWider x (body.source x y edge))
  target x y edge := inWider y (.inr (body.target x y edge))
  outside := outside
  inside := .inr (inWider stop body.inside)
  last := body.last
  opens y edge := absurd (inWider start (body.source start y edge)) outside
  stays _ := False.elim
  falls _ := iff_of_false Bool.false_ne_true And.left
  marks := by
    apply List.forall₂_map_right_iff.mpr
    refine body.marks.imp fun x mark marked => ?_
    refine { placed := .inr (inWider x marked.placed), passed := ?_, cyclic := marked.cyclic }
    intro _
    rw [Mark.along, Bool.and_false]
    exact iff_of_false Bool.false_ne_true And.left

theorem aside : Region flow.aside edge start start wider nodes entering entering where
  source x y edge := .inr (inWider x (body.source x y edge))
  target x y edge := inWider y (.inr (body.target x y edge))
  outside := outside
  inside := .inl rfl
  last y edge := outside (inWider start (body.source start y edge))
  opens y edge := absurd (inWider start (body.source start y edge)) outside
  stays _ leaving := leaving
  falls entering := iff_of_true rfl ⟨entering, .refl⟩
  marks := by
    apply List.forall₂_map_right_iff.mpr
    refine body.marks.imp fun x mark marked => ?_
    refine { placed := .inr (inWider x marked.placed), passed := ?_, cyclic := marked.cyclic }
    intro _
    rw [Mark.along, Bool.and_false]
    apply iff_of_false Bool.false_ne_true
    rintro ⟨-, reaches, -⟩
    rcases ReflTransGen.cases_head reaches with rfl | ⟨z, first, -⟩
    · exact outside (inWider start marked.placed)
    · exact outside (inWider start (body.source start z first))

end

end Region

end Foundations

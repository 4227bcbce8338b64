/-
Tests with arms in a directed graph.

An arm is entered at one node and left at one, so that every way to a node of
the arm comes from the first and every way out goes on from the second.  The
arms of a condition meet again, the arm of a loop leads back to the test.
-/
import Lambpie.Foundations.Region

namespace Foundations

open Relation

variable {α : Type}

/-- The nodes of an island are entered at one of them and left at one. -/
structure Island (edge inner : α → α → Prop) (within : α → Prop) (entry exit : α) :
    Prop where
  embeds : ∀ x y, inner x y → edge x y
  restricts : ∀ x y, within x → within y → edge x y → inner x y
  enters : ∀ x y, ¬within x → within y → edge x y → y = entry
  leaves : ∀ x y, within x → ¬within y → edge x y → x = exit

namespace Island

variable {edge inner : α → α → Prop} {within : α → Prop} {entry exit x y : α}

/-- A way round the island leads from its exit to its entry. -/
def Back (edge : α → α → Prop) (within : α → Prop) (entry exit : α) : Prop :=
  ∃ x y, ¬within x ∧ ¬within y ∧ edge exit x ∧ ReflTransGen edge x y ∧ edge y entry

variable (island : Island edge inner within entry exit)

include island

private theorem reaches_in (outside : ¬within x) (inside : within y) :
    ReflTransGen edge x y ↔
      (∃ z, ¬within z ∧ ReflTransGen edge x z ∧ edge z entry) ∧
        ReflTransGen inner entry y := by
  constructor
  · intro reaches
    induction reaches with
    | refl => exact absurd inside outside
    | @tail z y before last ih =>
        by_cases inIsland : within z
        · obtain ⟨comes, onward⟩ := ih inIsland
          exact ⟨comes, onward.tail (island.restricts _ _ inIsland inside last)⟩
        · have isEntry := island.enters _ _ inIsland inside last
          rw [isEntry] at last ⊢
          exact ⟨⟨z, inIsland, before, last⟩, .refl⟩
  · rintro ⟨⟨z, -, before, enters⟩, onward⟩
    exact (before.tail enters).trans (ReflTransGen.mono island.embeds _ _ onward)

private theorem reaches_out (inside : within x) (outside : ¬within y) :
    ReflTransGen edge x y ↔
      ReflTransGen inner x exit ∧ ∃ z, ¬within z ∧ edge exit z ∧ ReflTransGen edge z y := by
  constructor
  · intro reaches
    induction reaches using ReflTransGen.head_induction_on with
    | refl => exact absurd inside outside
    | @head x z first onward ih =>
        by_cases inIsland : within z
        · obtain ⟨toExit, goes⟩ := ih inIsland
          exact ⟨toExit.head (island.restricts _ _ inside inIsland first), goes⟩
        · have isExit := island.leaves _ _ inside inIsland first
          rw [isExit] at first ⊢
          exact ⟨.refl, z, inIsland, first, onward⟩
  · rintro ⟨toExit, z, -, leaves, onward⟩
    exact (ReflTransGen.mono island.embeds _ _ toExit).trans (onward.head leaves)

private theorem reaches_within (start : within x) (inside : within y) :
    ReflTransGen edge x y ↔ ReflTransGen inner x y ∨
      (ReflTransGen inner x exit ∧ Back edge within entry exit ∧
        ReflTransGen inner entry y) := by
  constructor
  · intro reaches
    induction reaches with
    | refl => exact .inl .refl
    | @tail z y before last ih =>
        by_cases inIsland : within z
        · have edge := island.restricts _ _ inIsland inside last
          rcases ih inIsland with direct | ⟨toExit, back, onward⟩
          · exact .inl (direct.tail edge)
          · exact .inr ⟨toExit, back, onward.tail edge⟩
        · have isEntry := island.enters _ _ inIsland inside last
          obtain ⟨toExit, other, isOutside, leaves, round⟩ :=
            (island.reaches_out start inIsland).mp before
          rw [isEntry] at last ⊢
          exact .inr ⟨toExit, ⟨other, z, isOutside, inIsland, leaves, round, last⟩, .refl⟩
  · rintro (direct | ⟨toExit, ⟨first, second, -, -, leaves, round, enters⟩, onward⟩)
    · exact ReflTransGen.mono island.embeds _ _ direct
    · have back := (ReflTransGen.single leaves).trans (round.tail enters)
      exact (ReflTransGen.mono island.embeds _ _ toExit).trans (back.trans (ReflTransGen.mono island.embeds _ _ onward))

private theorem cyclic_within (inside : within x) :
    TransGen edge x x ↔ TransGen inner x x ∨
      (ReflTransGen inner x exit ∧ Back edge within entry exit ∧
        ReflTransGen inner entry x) := by
  constructor
  · intro cycle
    obtain ⟨z, before, last⟩ := TransGen.tail'_iff.mp cycle
    by_cases inIsland : within z
    · have edge := island.restricts _ _ inIsland inside last
      rcases (island.reaches_within inside inIsland).mp before with
        direct | ⟨toExit, back, onward⟩
      · exact .inl (TransGen.tail' direct edge)
      · exact .inr ⟨toExit, back, onward.tail edge⟩
    · have isEntry := island.enters _ _ inIsland inside last
      obtain ⟨toExit, other, isOutside, leaves, round⟩ :=
        (island.reaches_out inside inIsland).mp before
      rw [isEntry] at last toExit ⊢
      exact .inr ⟨toExit, ⟨other, z, isOutside, inIsland, leaves, round, last⟩, .refl⟩
  · rintro (direct | ⟨toExit, ⟨first, second, -, -, leaves, round, enters⟩, onward⟩)
    · exact TransGen.mono island.embeds _ _ direct
    · have toEntry := (ReflTransGen.mono island.embeds _ _ toExit).trans
        ((ReflTransGen.single leaves).trans round)
      exact (TransGen.tail' toEntry enters).trans_left (ReflTransGen.mono island.embeds _ _ onward)

end Island

namespace Region

section Arm

variable {arm edge : α → α → Prop} {start entry exit stop : α}
  {inner wider : α → Prop} {enters entering leaves : Prop} (open_ : enters)
  (island : Island edge arm (fun x => x = entry ∨ inner x) entry exit)
  (startOutside : ¬(start = entry ∨ inner start))
  (stopOutside : ¬(stop = entry ∨ inner stop))
  (comes : ∃ x, ¬(x = entry ∨ inner x) ∧ ReflTransGen edge start x ∧ edge x entry)
  (goes : (∃ x, ¬(x = entry ∨ inner x) ∧ edge exit x ∧ ReflTransGen edge x stop) ↔ leaves)

include open_ island startOutside stopOutside comes goes

private theorem passed_arm {x : α} {mark : Mark}
    (marked : Marked arm entry exit inner enters leaves x mark) :
    mark.passed = true ↔ ReflTransGen edge start x ∧ ReflTransGen edge x stop := by
  rw [marked.passed open_, island.reaches_in startOutside marked.placed,
    island.reaches_out marked.placed stopOutside, goes]
  constructor
  · rintro ⟨leaving, toMark, toExit⟩
    exact ⟨⟨comes, toMark⟩, toExit, leaving⟩
  · rintro ⟨⟨-, toMark⟩, toExit, leaving⟩
    exact ⟨leaving, toMark, toExit⟩

variable (inWider : ∀ x, x = entry ∨ inner x → wider x)

include inWider

private theorem marked_once
    (once : ¬Island.Back edge (fun x => x = entry ∨ inner x) entry exit)
    {x : α} {mark : Mark} (marked : Marked arm entry exit inner enters leaves x mark) :
    Marked edge start stop wider entering True x mark where
  placed := .inr (inWider x marked.placed)
  passed _ := by
    rw [true_and]
    exact passed_arm open_ island startOutside stopOutside comes goes marked
  cyclic := by
    rw [island.cyclic_within marked.placed, marked.cyclic]
    exact (or_iff_left fun round => once round.2.1).symm

private theorem marked_again
    (back : Island.Back edge (fun x => x = entry ∨ inner x) entry exit ↔ leaves)
    {x : α} {mark : Mark} (marked : Marked arm entry exit inner enters leaves x mark) :
    Marked edge start stop wider entering True x mark.again where
  placed := .inr (inWider x marked.placed)
  passed _ := by
    rw [true_and]
    have passed := passed_arm open_ island startOutside stopOutside comes goes marked
    exact passed
  cyclic := by
    rw [island.cyclic_within marked.placed, Mark.again, Bool.or_eq_true, marked.cyclic,
      marked.passed open_, back]
    apply or_congr_right
    constructor
    · rintro ⟨leaving, toMark, toExit⟩
      exact ⟨toExit, leaving, toMark⟩
    · rintro ⟨toExit, leaving, toMark⟩
      exact ⟨leaving, toMark, toExit⟩

end Arm

end Region

structure OneArm (edge arm : α → α → Prop) (inner wider : α → Prop) (leaves : Prop)
    (start test entry exit onward stop : α) : Prop where
  edges : ∀ x y, edge x y ↔ (x = start ∧ y = test) ∨ (x = test ∧ (y = entry ∨ y = stop)) ∨
    arm x y ∨ (leaves ∧ x = exit ∧ y = onward)
  outside : ¬wider start
  hasTest : wider test
  hasStop : wider stop
  hasArm : ∀ x, x = entry ∨ inner x → wider x
  testApart : ¬(test = entry ∨ inner test)
  stopApart : ¬(stop = entry ∨ inner stop)
  different : test ≠ stop

namespace OneArm

variable {flow : Flow} {edge arm : α → α → Prop} {inner wider : α → Prop}
  {start test entry exit onward stop : α} {nodes : List α} {enters entering leaves : Prop}
  (construct : OneArm edge arm inner wider leaves start test entry exit onward stop)
  (body : Region flow arm entry exit inner nodes enters leaves)

include construct

private theorem startApart : ¬(start = entry ∨ inner start) :=
  fun inArm => construct.outside (construct.hasArm start inArm)

theorem enter : edge start test := (construct.edges _ _).mpr (.inl ⟨rfl, rfl⟩)

private theorem choose : edge test entry := (construct.edges _ _).mpr (.inr (.inl ⟨rfl, .inl rfl⟩))

theorem skip : edge test stop := (construct.edges _ _).mpr (.inr (.inl ⟨rfl, .inr rfl⟩))

private theorem comes : ∃ x, ¬(x = entry ∨ inner x) ∧ ReflTransGen edge start x ∧ edge x entry :=
  ⟨test, construct.testApart, .single construct.enter, construct.choose⟩

include body

omit construct in
private theorem exit_ne {x : α} (apart : ¬(x = entry ∨ inner x)) : exit ≠ x := by
  rintro rfl
  exact apart body.inside

private theorem edge_of_apart {x y : α} (apart : ¬(x = entry ∨ inner x)) (edge : edge x y) :
    (x = start ∧ y = test) ∨ (x = test ∧ (y = entry ∨ y = stop)) := by
  rcases (construct.edges x y).mp edge with first | second | inArm | ⟨-, isExit, -⟩
  · exact .inl first
  · exact .inr second
  · exact absurd (body.source x y inArm) apart
  · exact absurd isExit.symm (exit_ne body apart)

private theorem island (onwardApart : ¬(onward = entry ∨ inner onward)) :
    Island edge arm (fun x => x = entry ∨ inner x) entry exit where
  embeds x y inArm := (construct.edges x y).mpr (.inr (.inr (.inl inArm)))
  restricts x y inside toInside edge := by
    rcases (construct.edges x y).mp edge with ⟨rfl, -⟩ | ⟨rfl, -⟩ | inArm | ⟨-, -, rfl⟩
    · exact absurd inside construct.startApart
    · exact absurd inside construct.testApart
    · exact inArm
    · exact absurd toInside onwardApart
  enters x y outside toInside edge := by
    rcases construct.edge_of_apart body outside edge with ⟨-, rfl⟩ | ⟨-, rfl | rfl⟩
    · exact absurd toInside construct.testApart
    · rfl
    · exact absurd toInside construct.stopApart
  leaves x y inside toOutside edge := by
    rcases (construct.edges x y).mp edge with ⟨rfl, -⟩ | ⟨rfl, -⟩ | inArm | ⟨-, rfl, -⟩
    · exact absurd inside construct.startApart
    · exact absurd inside construct.testApart
    · exact absurd (.inr (body.target x y inArm)) toOutside
    · rfl

private theorem not_edge_stop (y : α) : ¬edge stop y := by
  intro edge
  rcases construct.edge_of_apart body construct.stopApart edge with ⟨same, -⟩ | ⟨same, -⟩
  · exact construct.outside (same ▸ construct.hasStop)
  · exact construct.different same.symm

private theorem edge_exit {x : α} (apart : ¬(x = entry ∨ inner x)) :
    edge exit x ↔ leaves ∧ x = onward := by
  constructor
  · intro edge
    rcases (construct.edges exit x).mp edge with ⟨isStart, -⟩ | ⟨isTest, -⟩ | inArm |
      ⟨leaving, -, same⟩
    · exact absurd isStart (exit_ne body construct.startApart)
    · exact absurd isTest (exit_ne body construct.testApart)
    · exact absurd (.inr (body.target exit x inArm)) apart
    · exact ⟨leaving, same⟩
  · rintro ⟨leaving, rfl⟩
    exact (construct.edges exit x).mpr (.inr (.inr (.inr ⟨leaving, rfl, rfl⟩)))

private theorem goes (onwardApart : ¬(onward = entry ∨ inner onward))
    (toStop : ReflTransGen edge onward stop) :
    (∃ x, ¬(x = entry ∨ inner x) ∧ edge exit x ∧ ReflTransGen edge x stop) ↔ leaves := by
  constructor
  · rintro ⟨x, apart, edge, -⟩
    exact ((construct.edge_exit body apart).mp edge).1
  · intro leaving
    exact ⟨onward, onwardApart, (construct.edge_exit body onwardApart).mpr ⟨leaving, rfl⟩,
      toStop⟩

theorem region {whole : Flow} (isOnward : onward = test ∨ onward = stop) (isOpen : entering)
    (falls : whole.falls = true)
    (marks : List.Forall₂ (Marked edge start stop wider entering True) nodes whole.marks) :
    Region whole edge start stop wider nodes entering True where
  source x y edge := by
    rcases (construct.edges x y).mp edge with ⟨rfl, -⟩ | ⟨rfl, -⟩ | inArm | ⟨-, rfl, -⟩
    · exact .inl rfl
    · exact .inr construct.hasTest
    · exact .inr (construct.hasArm x (body.source x y inArm))
    · exact .inr (construct.hasArm x body.inside)
  target x y edge := by
    rcases (construct.edges x y).mp edge with ⟨-, rfl⟩ | ⟨-, rfl | rfl⟩ | inArm | ⟨-, -, rfl⟩
    · exact construct.hasTest
    · exact construct.hasArm y (.inl rfl)
    · exact construct.hasStop
    · exact construct.hasArm y (.inr (body.target x y inArm))
    · rcases isOnward with rfl | rfl
      · exact construct.hasTest
      · exact construct.hasStop
  outside := construct.outside
  inside := .inr construct.hasStop
  last := construct.not_edge_stop body
  opens _ _ := isOpen
  stays _ _ := isOpen
  falls _ := iff_of_true falls
    ⟨trivial, (ReflTransGen.single construct.enter).tail construct.skip⟩
  marks := marks

theorem condition (isStop : onward = stop) (open_ : enters) (isOpen : entering) :
    Region (flow.either (.straight 0)) edge start stop wider nodes entering True := by
  subst isStop
  have island := construct.island body construct.stopApart
  have goes := construct.goes body construct.stopApart .refl
  have once : ¬Island.Back edge (fun x => x = entry ∨ inner x) entry exit := by
    rintro ⟨x, y, outside, -, leaves, round, enters⟩
    obtain ⟨-, rfl⟩ := (construct.edge_exit body outside).mp leaves
    rcases ReflTransGen.cases_head round with rfl | ⟨z, first, -⟩
    · exact construct.not_edge_stop body _ enters
    · exact construct.not_edge_stop body _ first
  apply construct.region body (.inr rfl) isOpen (Bool.or_true _)
  have same : (flow.either (.straight 0)).marks = flow.marks := List.append_nil flow.marks
  rw [same]
  exact body.marks.imp fun x mark => Region.marked_once open_ island construct.startApart
    construct.stopApart construct.comes goes construct.hasArm once

theorem loop (isTest : onward = test) (open_ : enters) (isOpen : entering) :
    Region flow.loop edge start stop wider nodes entering True := by
  subst isTest
  have island := construct.island body construct.testApart
  have goes := construct.goes body construct.testApart (.single construct.skip)
  have back : Island.Back edge (fun x => x = entry ∨ inner x) entry exit ↔ leaves := by
    constructor
    · rintro ⟨x, y, outside, -, leaves, -⟩
      exact ((construct.edge_exit body outside).mp leaves).1
    · intro leaving
      exact ⟨onward, onward, construct.testApart, construct.testApart,
        (construct.edge_exit body construct.testApart).mpr ⟨leaving, rfl⟩, .refl,
        construct.choose⟩
  apply construct.region body (.inl rfl) isOpen rfl
  apply List.forall₂_map_right_iff.mpr
  exact body.marks.imp fun x mark => Region.marked_again open_ island construct.startApart
    construct.stopApart construct.comes goes construct.hasArm back

end OneArm

structure TwoArms (edge first second : α → α → Prop) (firstInner secondInner wider : α → Prop)
    (firstLeaves secondLeaves : Prop)
    (start test firstEntry firstExit secondEntry secondExit stop : α) : Prop where
  edges : ∀ x y, edge x y ↔ (x = start ∧ y = test) ∨
    (x = test ∧ (y = firstEntry ∨ y = secondEntry)) ∨
    (first x y ∨ (firstLeaves ∧ x = firstExit ∧ y = stop)) ∨
    (second x y ∨ (secondLeaves ∧ x = secondExit ∧ y = stop))
  outside : ¬wider start
  hasTest : wider test
  hasStop : wider stop
  hasFirst : ∀ x, x = firstEntry ∨ firstInner x → wider x
  hasSecond : ∀ x, x = secondEntry ∨ secondInner x → wider x
  testFirst : ¬(test = firstEntry ∨ firstInner test)
  testSecond : ¬(test = secondEntry ∨ secondInner test)
  stopFirst : ¬(stop = firstEntry ∨ firstInner stop)
  stopSecond : ¬(stop = secondEntry ∨ secondInner stop)
  armsApart : ∀ x, x = firstEntry ∨ firstInner x → ¬(x = secondEntry ∨ secondInner x)
  different : test ≠ stop

namespace TwoArms

variable {firstFlow secondFlow : Flow} {edge first second : α → α → Prop}
  {firstInner secondInner wider : α → Prop} {firstLeaves secondLeaves : Prop}
  {start test firstEntry firstExit secondEntry secondExit stop : α}
  {firstNodes secondNodes : List α} {firstEnters secondEnters entering : Prop}
  (construct : TwoArms edge first second firstInner secondInner wider firstLeaves
    secondLeaves start test firstEntry firstExit secondEntry secondExit stop)
  (left : Region firstFlow first firstEntry firstExit firstInner firstNodes
    firstEnters firstLeaves)
  (right : Region secondFlow second secondEntry secondExit secondInner secondNodes
    secondEnters secondLeaves)

include construct

theorem swap : TwoArms edge second first secondInner firstInner wider secondLeaves
    firstLeaves start test secondEntry secondExit firstEntry firstExit stop where
  edges x y := by
    rw [construct.edges, or_comm (a := y = firstEntry), or_comm (a := first x y ∨ _)]
  outside := construct.outside
  hasTest := construct.hasTest
  hasStop := construct.hasStop
  hasFirst := construct.hasSecond
  hasSecond := construct.hasFirst
  testFirst := construct.testSecond
  testSecond := construct.testFirst
  stopFirst := construct.stopSecond
  stopSecond := construct.stopFirst
  armsApart x inSecond inFirst := construct.armsApart x inFirst inSecond
  different := construct.different

private theorem startApart : ¬(start = firstEntry ∨ firstInner start) :=
  fun inArm => construct.outside (construct.hasFirst start inArm)

theorem enter : edge start test := (construct.edges _ _).mpr (.inl ⟨rfl, rfl⟩)

private theorem choose : edge test firstEntry :=
  (construct.edges _ _).mpr (.inr (.inl ⟨rfl, .inl rfl⟩))

private theorem comes : ∃ x, ¬(x = firstEntry ∨ firstInner x) ∧ ReflTransGen edge start x ∧
    edge x firstEntry :=
  ⟨test, construct.testFirst, .single construct.enter, construct.choose⟩

include left right

private theorem island : Island edge first (fun x => x = firstEntry ∨ firstInner x)
    firstEntry firstExit where
  embeds x y inArm := (construct.edges x y).mpr (.inr (.inr (.inl (.inl inArm))))
  restricts x y inside toInside edge := by
    rcases (construct.edges x y).mp edge with ⟨rfl, -⟩ | ⟨rfl, -⟩ | (inArm | ⟨-, -, rfl⟩) |
      (inArm | ⟨-, rfl, -⟩)
    · exact absurd inside construct.startApart
    · exact absurd inside construct.testFirst
    · exact inArm
    · exact absurd toInside construct.stopFirst
    · exact absurd (right.source x y inArm) (construct.armsApart x inside)
    · exact absurd right.inside (construct.armsApart x inside)
  enters x y outside toInside edge := by
    rcases (construct.edges x y).mp edge with ⟨-, rfl⟩ | ⟨-, rfl | rfl⟩ |
      (inArm | ⟨-, rfl, -⟩) | (inArm | ⟨-, -, rfl⟩)
    · exact absurd toInside construct.testFirst
    · rfl
    · exact absurd (.inl rfl) (construct.armsApart y toInside)
    · exact absurd (left.source x y inArm) outside
    · exact absurd left.inside outside
    · exact absurd (.inr (right.target x y inArm)) (construct.armsApart y toInside)
    · exact absurd toInside construct.stopFirst
  leaves x y inside toOutside edge := by
    rcases (construct.edges x y).mp edge with ⟨rfl, -⟩ | ⟨rfl, -⟩ | (inArm | ⟨-, rfl, -⟩) |
      (inArm | ⟨-, rfl, -⟩)
    · exact absurd inside construct.startApart
    · exact absurd inside construct.testFirst
    · exact absurd (.inr (left.target x y inArm)) toOutside
    · rfl
    · exact absurd (right.source x y inArm) (construct.armsApart x inside)
    · exact absurd right.inside (construct.armsApart x inside)

private theorem not_edge_stop (y : α) : ¬edge stop y := by
  intro edge
  rcases (construct.edges stop y).mp edge with ⟨same, -⟩ | ⟨same, -⟩ |
    (inArm | ⟨-, same, -⟩) | (inArm | ⟨-, same, -⟩)
  · exact construct.outside (same ▸ construct.hasStop)
  · exact construct.different same.symm
  · exact construct.stopFirst (left.source stop y inArm)
  · exact construct.stopFirst (same ▸ left.inside)
  · exact construct.stopSecond (right.source stop y inArm)
  · exact construct.stopSecond (same ▸ right.inside)

private theorem edge_exit {x : α} (apart : ¬(x = firstEntry ∨ firstInner x)) :
    edge firstExit x ↔ firstLeaves ∧ x = stop := by
  constructor
  · intro edge
    rcases (construct.edges firstExit x).mp edge with ⟨same, -⟩ | ⟨same, -⟩ |
      (inArm | ⟨leaving, -, same⟩) | (inArm | ⟨-, same, -⟩)
    · exact absurd (same ▸ left.inside) construct.startApart
    · exact absurd (same ▸ left.inside) construct.testFirst
    · exact absurd (.inr (left.target firstExit x inArm)) apart
    · exact ⟨leaving, same⟩
    · exact absurd (right.source firstExit x inArm) (construct.armsApart _ left.inside)
    · exact absurd (same ▸ right.inside) (construct.armsApart _ left.inside)
  · rintro ⟨leaving, rfl⟩
    exact (construct.edges firstExit x).mpr (.inr (.inr (.inl (.inr ⟨leaving, rfl, rfl⟩))))

private theorem goes : (∃ x, ¬(x = firstEntry ∨ firstInner x) ∧ edge firstExit x ∧
    ReflTransGen edge x stop) ↔ firstLeaves := by
  constructor
  · rintro ⟨x, apart, edge, -⟩
    exact ((construct.edge_exit left right apart).mp edge).1
  · intro leaving
    exact ⟨stop, construct.stopFirst,
      (construct.edge_exit left right construct.stopFirst).mpr ⟨leaving, rfl⟩, .refl⟩

theorem once : ¬Island.Back edge (fun x => x = firstEntry ∨ firstInner x)
    firstEntry firstExit := by
  rintro ⟨x, y, outside, -, leaves, round, enters⟩
  obtain ⟨-, rfl⟩ := (construct.edge_exit left right outside).mp leaves
  rcases ReflTransGen.cases_head round with rfl | ⟨z, first, -⟩
  · exact construct.not_edge_stop left right _ enters
  · exact construct.not_edge_stop left right _ first

theorem marked (open_ : firstEnters) {x : α} {mark : Mark}
    (marked : Marked first firstEntry firstExit firstInner firstEnters firstLeaves x mark) :
    Marked edge start stop wider entering True x mark :=
  Region.marked_once open_ (construct.island left right) construct.startApart
    construct.stopFirst construct.comes (construct.goes left right) construct.hasFirst
    (construct.once left right) marked

private theorem reaches_exit (open_ : firstEnters) :
    (firstLeaves ∧ ReflTransGen edge start firstExit) ↔ firstFlow.falls = true := by
  rw [(construct.island left right).reaches_in construct.startApart left.inside,
    left.falls open_]
  constructor
  · rintro ⟨leaving, -, way⟩
    exact ⟨leaving, way⟩
  · rintro ⟨leaving, way⟩
    exact ⟨leaving, construct.comes, way⟩

private theorem reaches_stop (openLeft : firstEnters) (openRight : secondEnters) :
    ReflTransGen edge start stop ↔ firstFlow.falls = true ∨ secondFlow.falls = true := by
  rw [← construct.reaches_exit left right openLeft,
    ← construct.swap.reaches_exit right left openRight]
  constructor
  · intro reaches
    rcases ReflTransGen.cases_tail reaches with same | ⟨x, before, last⟩
    · exact absurd (same ▸ construct.hasStop) construct.outside
    · rcases (construct.edges x stop).mp last with ⟨-, same⟩ | ⟨-, same | same⟩ |
        (inArm | ⟨leaving, rfl, -⟩) | (inArm | ⟨leaving, rfl, -⟩)
      · exact absurd same.symm construct.different
      · exact absurd (.inl same) construct.stopFirst
      · exact absurd (.inl same) construct.stopSecond
      · exact absurd (.inr (left.target x stop inArm)) construct.stopFirst
      · exact .inl ⟨leaving, before⟩
      · exact absurd (.inr (right.target x stop inArm)) construct.stopSecond
      · exact .inr ⟨leaving, before⟩
  · rintro (⟨leaving, before⟩ | ⟨leaving, before⟩)
    · exact before.tail
        ((construct.edge_exit left right construct.stopFirst).mpr ⟨leaving, rfl⟩)
    · exact before.tail
        ((construct.swap.edge_exit right left construct.stopSecond).mpr ⟨leaving, rfl⟩)

theorem region (openLeft : firstEnters) (openRight : secondEnters) (isOpen : entering) :
    Region (firstFlow.either secondFlow) edge start stop wider (firstNodes ++ secondNodes)
      entering True where
  source x y edge := by
    rcases (construct.edges x y).mp edge with ⟨rfl, -⟩ | ⟨rfl, -⟩ | (inArm | ⟨-, rfl, -⟩) |
      (inArm | ⟨-, rfl, -⟩)
    · exact .inl rfl
    · exact .inr construct.hasTest
    · exact .inr (construct.hasFirst x (left.source x y inArm))
    · exact .inr (construct.hasFirst x left.inside)
    · exact .inr (construct.hasSecond x (right.source x y inArm))
    · exact .inr (construct.hasSecond x right.inside)
  target x y edge := by
    rcases (construct.edges x y).mp edge with ⟨-, rfl⟩ | ⟨-, rfl | rfl⟩ |
      (inArm | ⟨-, -, rfl⟩) | (inArm | ⟨-, -, rfl⟩)
    · exact construct.hasTest
    · exact construct.hasFirst y (.inl rfl)
    · exact construct.hasSecond y (.inl rfl)
    · exact construct.hasFirst y (.inr (left.target x y inArm))
    · exact construct.hasStop
    · exact construct.hasSecond y (.inr (right.target x y inArm))
    · exact construct.hasStop
  outside := construct.outside
  inside := .inr construct.hasStop
  last := construct.not_edge_stop left right
  opens _ _ := isOpen
  stays _ _ := isOpen
  falls _ := by
    rw [construct.reaches_stop left right openLeft openRight, true_and, Flow.either,
      Bool.or_eq_true]
  marks := by
    apply List.rel_append
    · exact left.marks.imp fun x mark => construct.marked left right openLeft
    · exact right.marks.imp fun x mark => construct.swap.marked right left openRight

end TwoArms

end Foundations

/-
Conditions and loops between their blocks.

The blocks of a construct are made first, the branches to them are written when
it is visited.  The block after the construct is reached from the ends of its
arms or from its test, and only from there.
-/
import Lambpie.Compiler.BlockGraph

namespace Lambpie.Compiler.Graph

def blockAfter (graph : Graph) (func offset : Nat) : Label where
  func := func
  index := graph.blockCount + offset

@[simp] theorem blockAfter_index (graph : Graph) (func offset : Nat) :
    (graph.blockAfter func offset).index = graph.blockCount + offset := rfl

@[simp] theorem standAt_blockCount (graph : Graph) (label : Label) :
    (graph.standAt label).blockCount = graph.blockCount := rfl

@[simp] theorem addBlock_blockCount (graph : Graph) :
    graph.addBlock.blockCount = graph.blockCount + 1 := rfl

variable {func : Nat} {condition : PyVal} {testFalls firstFalls secondFalls : Bool}
  {start opened tested chosen first joined second last : Graph}
  {block label entry : Label}

structure IfElse (func : Nat) (condition : PyVal)
    (testFalls firstFalls secondFalls : Bool)
    (start opened tested chosen first joined second last : Graph) : Prop where
  sound : start.Sound
  inside : ∃ entry, start.entries[func]? = some (some entry)
  enters : Leaves (.br (start.blockAfter func 0))
    start.addBlock.addBlock.addBlock.addBlock opened
  test : Passes testFalls (opened.standAt (start.blockAfter func 0)) tested
  chooses : Leaves
    (.cbr condition (start.blockAfter func 1) (start.blockAfter func 2)) tested chosen
  firstArm : Passes firstFalls (chosen.standAt (start.blockAfter func 1)) first
  firstJoins : Joins (start.blockAfter func 3) first joined
  secondArm : Passes secondFalls (joined.standAt (start.blockAfter func 2)) second
  secondJoins : Joins (start.blockAfter func 3) second last

namespace IfElse

variable (construct : IfElse func condition testFalls firstFalls secondFalls
  start opened tested chosen first joined second last)

include construct

theorem counts : opened.blockCount = start.blockCount + 4 ∧
    opened.blockCount ≤ tested.blockCount ∧
    chosen.blockCount = tested.blockCount ∧
    chosen.blockCount ≤ first.blockCount ∧
    joined.blockCount = first.blockCount ∧
    joined.blockCount ≤ second.blockCount ∧
    last.blockCount = second.blockCount :=
  ⟨construct.enters.blocks, construct.test.grows.blocks, construct.chooses.blocks,
    construct.firstArm.grows.blocks, construct.firstJoins.blocks,
    construct.secondArm.grows.blocks, construct.secondJoins.blocks⟩

private theorem extends_second : Extends second (last.standAt (start.blockAfter func 3)) :=
  construct.secondJoins.extends_.trans (extends_standAt last _)

private theorem extends_first : Extends first (last.standAt (start.blockAfter func 3)) :=
  (construct.firstJoins.extends_.trans (extends_standAt joined _)).trans
    (construct.secondArm.grows.toExtends.trans construct.extends_second)

private theorem extends_tested : Extends tested (last.standAt (start.blockAfter func 3)) :=
  (construct.chooses.extends_.trans (extends_standAt chosen _)).trans
    (construct.firstArm.grows.toExtends.trans construct.extends_first)

private theorem extends_start : Extends start (last.standAt (start.blockAfter func 3)) := by
  have made : Extends start start.addBlock.addBlock.addBlock.addBlock :=
    ((extends_addBlock _).trans (extends_addBlock _)).trans
      ((extends_addBlock _).trans (extends_addBlock _))
  have opens := (made.trans construct.enters.extends_).trans
    (extends_standAt opened (start.blockAfter func 0))
  exact opens.trans (construct.test.grows.toExtends.trans construct.extends_tested)

private theorem edge_first (edge : last.Edge block label)
    (small : label.index < joined.blockCount) :
    first.Edge block label ∨
      (label = start.blockAfter func 3 ∧ (first.OpenAt block ∨ second.OpenAt block)) := by
  rcases construct.secondJoins.edge edge with edge | ⟨isOpen, same⟩
  · rcases construct.secondArm.grows.edges block label edge with edge | late
    · rcases construct.firstJoins.edge edge with edge | ⟨isOpen, same⟩
      · exact .inl edge
      · exact .inr ⟨same, .inl isOpen⟩
    · exact absurd small (Nat.not_lt.mpr late)
  · exact .inr ⟨same, .inr isOpen⟩

private theorem edge_tested (edge : last.Edge block label)
    (small : label.index < chosen.blockCount) :
    tested.Edge block label ∨
      ((label = start.blockAfter func 1 ∨ label = start.blockAfter func 2) ∧
        tested.OpenAt block) ∨
      (label = start.blockAfter func 3 ∧ (first.OpenAt block ∨ second.OpenAt block)) := by
  have counts := construct.counts
  rcases construct.edge_first edge (by omega) with edge | merges
  · rcases construct.firstArm.grows.edges block label edge with edge | late
    · rcases construct.chooses.edge edge with edge | ⟨isOpen, leads⟩
      · exact .inl edge
      · exact .inr (.inl ⟨List.mem_pair.mp leads, isOpen⟩)
    · exact absurd small (Nat.not_lt.mpr late)
  · exact .inr (.inr merges)

private theorem edge_start (edge : last.Edge block label)
    (small : label.index < opened.blockCount) :
    start.Edge block label ∨
      (label = start.blockAfter func 0 ∧
        start.addBlock.addBlock.addBlock.addBlock.OpenAt block) ∨
      ((label = start.blockAfter func 1 ∨ label = start.blockAfter func 2) ∧
        tested.OpenAt block) ∨
      (label = start.blockAfter func 3 ∧ (first.OpenAt block ∨ second.OpenAt block)) := by
  have counts := construct.counts
  rcases construct.edge_tested edge (by omega) with edge | others
  · rcases construct.test.grows.edges block label edge with edge | late
    · rcases construct.enters.edge edge with edge | ⟨isOpen, leads⟩
      · exact .inl edge
      · exact .inr (.inl ⟨List.mem_singleton.mp leads, isOpen⟩)
    · exact absurd small (Nat.not_lt.mpr late)
  · exact .inr (.inr others)

theorem grows : start.Grows (last.standAt (start.blockAfter func 3)) where
  toExtends := construct.extends_start
  edges := by
    have counts := construct.counts
    intro block label edge
    by_cases old : label.index < start.blockCount
    · rcases construct.edge_start edge (by omega) with edge | others
      · exact .inl edge
      · rcases others with ⟨rfl, -⟩ | ⟨rfl | rfl, -⟩ | ⟨rfl, -⟩
        all_goals
          rw [blockAfter_index] at old
          omega
    · exact .inr (Nat.not_lt.mp old)

section Walks

variable {walks : Nat → Label → Prop}
  (grounded : Grounded walks start (last.standAt (start.blockAfter func 3)))

include grounded

private theorem grounded_test :
    Grounded walks (opened.standAt (start.blockAfter func 0)) tested := by
  have counts := construct.counts
  apply grounded.inner (by rw [standAt_blockCount]; omega) construct.extends_tested
  intro block label from_ below edge
  rw [standAt_blockCount] at from_
  rcases construct.edge_tested edge (by omega) with edge | ⟨rfl | rfl, -⟩ | ⟨rfl, -⟩
  · exact edge
  all_goals
    rw [blockAfter_index] at from_
    omega

private theorem grounded_first :
    Grounded walks (chosen.standAt (start.blockAfter func 1)) first := by
  have counts := construct.counts
  apply grounded.inner (by rw [standAt_blockCount]; omega) construct.extends_first
  intro block label from_ below edge
  rw [standAt_blockCount] at from_
  rcases construct.edge_first edge (by omega) with edge | ⟨rfl, -⟩
  · exact edge
  · rw [blockAfter_index] at from_
    omega

private theorem grounded_second :
    Grounded walks (joined.standAt (start.blockAfter func 2)) second := by
  have counts := construct.counts
  apply grounded.inner (by rw [standAt_blockCount]; omega) construct.extends_second
  intro block label from_ below edge
  rw [standAt_blockCount] at from_
  rcases construct.secondJoins.edge edge with edge | ⟨-, rfl⟩
  · exact edge
  · rw [blockAfter_index] at from_
    omega

end Walks

private theorem soundAfter : (last.standAt (start.blockAfter func 3)).Sound := by
  have counts := construct.counts
  obtain ⟨entry, has⟩ := construct.inside
  have sound := construct.secondJoins.sound construct.secondArm.sound
    (by rw [blockAfter_index]; omega)
  exact sound.standAt (construct.extends_start.entries func entry has)

theorem dead {walks : Nat → Label → Prop} {bound offset : Nat}
    (grounded : Grounded walks start (last.standAt (start.blockAfter func 3)))
    (small : offset < 4)
    (dead : ∀ block, last.Edge block (start.blockAfter func offset) →
      Dead walks bound block) :
    Dead walks bound (start.blockAfter func offset) := by
  have counts := construct.counts
  obtain ⟨entry, has⟩ := construct.inside
  refine grounded.dead construct.soundAfter ?_
    (construct.sound.entries func entry has).2 ?_ ?_ dead
  · exact construct.extends_start.entries func entry has
  · exact Nat.le_add_right _ _
  · rw [blockAfter_index, standAt_blockCount]
    omega

private theorem edge_offset {offset : Nat} (small : offset < 4)
    (edge : last.Edge block (start.blockAfter func offset)) :
    (offset = 0 ∧ start.addBlock.addBlock.addBlock.addBlock.OpenAt block) ∨
      ((offset = 1 ∨ offset = 2) ∧ tested.OpenAt block) ∨
      (offset = 3 ∧ (first.OpenAt block ∨ second.OpenAt block)) := by
  have counts := construct.counts
  have apart (other : Nat)
      (same : start.blockAfter func offset = start.blockAfter func other) :
      offset = other := by
    have indices := congrArg Label.index same
    rw [blockAfter_index, blockAfter_index] at indices
    omega
  rcases construct.edge_start edge (by rw [blockAfter_index]; omega) with
    old | ⟨same, isOpen⟩ | ⟨same | same, isOpen⟩ | ⟨same, isOpen⟩
  · obtain ⟨written, member, -, target⟩ := old
    have below := construct.sound.targets written member _ target
    rw [blockAfter_index] at below
    omega
  · exact .inl ⟨apart 0 same, isOpen⟩
  · exact .inr (.inl ⟨.inl (apart 1 same), isOpen⟩)
  · exact .inr (.inl ⟨.inr (apart 2 same), isOpen⟩)
  · exact .inr (.inr ⟨apart 3 same, isOpen⟩)

theorem passes : Passes (firstFalls || secondFalls) start
    (last.standAt (start.blockAfter func 3)) where
  sound := construct.soundAfter
  grows := construct.grows
  unreachable := by
    intro walks grounded written member isUnreachable
    have inSecond := construct.secondJoins.unreachable written member isUnreachable
    rcases construct.secondArm.unreachable walks (construct.grounded_second grounded)
      written inSecond isUnreachable with inJoined | dead
    · have inFirst := construct.firstJoins.unreachable written inJoined isUnreachable
      rcases construct.firstArm.unreachable walks (construct.grounded_first grounded)
        written inFirst isUnreachable with inChosen | dead
      · have inTested := construct.chooses.unreachable Instr.noConfusion written
          inChosen isUnreachable
        rcases construct.test.unreachable walks (construct.grounded_test grounded)
          written inTested isUnreachable with inOpened | dead
        · exact .inl (construct.enters.unreachable Instr.noConfusion written inOpened
            isUnreachable)
        · exact .inr dead
      · exact .inr dead
    · exact .inr dead
  done := by
    intro walks grounded bound cannot
    -- where the start is not reached, nor are the test and the two arms
    have arms (done : Done walks bound start) :
        Dead walks bound (start.blockAfter func 1) ∧
          Dead walks bound (start.blockAfter func 2) := by
      have entered : Dead walks bound (start.blockAfter func 0) := by
        apply construct.dead grounded (by omega)
        intro block edge
        rcases construct.edge_offset (by omega) edge with ⟨-, isOpen⟩ | ⟨no, -⟩ | ⟨no, -⟩
        · exact @Done.dead _ _ _ start done isOpen
        · omega
        · omega
      have doneTest := construct.test.done walks (construct.grounded_test grounded) bound
        (.inr (entered.done opened))
      have arm (offset : Nat) (isArm : offset = 1 ∨ offset = 2) :
          Dead walks bound (start.blockAfter func offset) := by
        apply construct.dead grounded (by omega)
        intro block edge
        rcases construct.edge_offset (by omega) edge with ⟨no, -⟩ | ⟨-, isOpen⟩ | ⟨no, -⟩
        · omega
        · exact doneTest.dead isOpen
        · omega
      exact ⟨arm 1 (.inl rfl), arm 2 (.inr rfl)⟩
    have doneFirst : Done walks bound first := by
      apply construct.firstArm.done walks (construct.grounded_first grounded) bound
      rcases cannot with neither | done
      · exact .inl (Bool.or_eq_false_iff.mp neither).1
      · exact .inr ((arms done).1.done chosen)
    have doneSecond : Done walks bound second := by
      apply construct.secondArm.done walks (construct.grounded_second grounded) bound
      rcases cannot with neither | done
      · exact .inl (Bool.or_eq_false_iff.mp neither).2
      · exact .inr ((arms done).2.done joined)
    apply Dead.done
    apply construct.dead grounded (by omega)
    intro block edge
    rcases construct.edge_offset (by omega) edge with ⟨no, -⟩ | ⟨no, -⟩ | ⟨-, isOpen⟩
    · omega
    · omega
    · rcases isOpen with isOpen | isOpen
      · exact doneFirst.dead isOpen
      · exact doneSecond.dead isOpen

end IfElse

structure OneArm (func : Nat) (condition : PyVal) (testFalls firstFalls : Bool)
    (back : Nat) (start opened tested chosen first last : Graph) : Prop where
  sound : start.Sound
  inside : ∃ entry, start.entries[func]? = some (some entry)
  isBack : back = 0 ∨ back = 2
  enters : Leaves (.br (start.blockAfter func 0))
    start.addBlock.addBlock.addBlock opened
  test : Passes testFalls (opened.standAt (start.blockAfter func 0)) tested
  chooses : Leaves
    (.cbr condition (start.blockAfter func 1) (start.blockAfter func 2)) tested chosen
  arm : Passes firstFalls (chosen.standAt (start.blockAfter func 1)) first
  joins : Joins (start.blockAfter func back) first last

namespace OneArm

variable {back : Nat} (construct : OneArm func condition testFalls firstFalls back
  start opened tested chosen first last)

include construct

theorem counts : opened.blockCount = start.blockCount + 3 ∧
    opened.blockCount ≤ tested.blockCount ∧
    chosen.blockCount = tested.blockCount ∧
    chosen.blockCount ≤ first.blockCount ∧
    last.blockCount = first.blockCount ∧ back < 3 :=
  ⟨construct.enters.blocks, construct.test.grows.blocks, construct.chooses.blocks,
    construct.arm.grows.blocks, construct.joins.blocks,
    by have isBack := construct.isBack; omega⟩

private theorem extends_first : Extends first (last.standAt (start.blockAfter func 2)) :=
  construct.joins.extends_.trans (extends_standAt last _)

private theorem extends_tested : Extends tested (last.standAt (start.blockAfter func 2)) :=
  (construct.chooses.extends_.trans (extends_standAt chosen _)).trans
    (construct.arm.grows.toExtends.trans construct.extends_first)

private theorem extends_start : Extends start (last.standAt (start.blockAfter func 2)) := by
  have made : Extends start start.addBlock.addBlock.addBlock :=
    ((extends_addBlock _).trans (extends_addBlock _)).trans (extends_addBlock _)
  have opens := (made.trans construct.enters.extends_).trans
    (extends_standAt opened (start.blockAfter func 0))
  exact opens.trans (construct.test.grows.toExtends.trans construct.extends_tested)

private theorem edge_tested (edge : last.Edge block label)
    (small : label.index < chosen.blockCount) :
    tested.Edge block label ∨
      ((label = start.blockAfter func 1 ∨ label = start.blockAfter func 2) ∧
        tested.OpenAt block) ∨
      (label = start.blockAfter func back ∧ first.OpenAt block) := by
  rcases construct.joins.edge edge with edge | ⟨isOpen, same⟩
  · rcases construct.arm.grows.edges block label edge with edge | late
    · rcases construct.chooses.edge edge with edge | ⟨isOpen, leads⟩
      · exact .inl edge
      · exact .inr (.inl ⟨List.mem_pair.mp leads, isOpen⟩)
    · exact absurd small (Nat.not_lt.mpr late)
  · exact .inr (.inr ⟨same, isOpen⟩)

private theorem edge_start (edge : last.Edge block label)
    (small : label.index < opened.blockCount) :
    start.Edge block label ∨
      (label = start.blockAfter func 0 ∧
        start.addBlock.addBlock.addBlock.OpenAt block) ∨
      ((label = start.blockAfter func 1 ∨ label = start.blockAfter func 2) ∧
        tested.OpenAt block) ∨
      (label = start.blockAfter func back ∧ first.OpenAt block) := by
  have counts := construct.counts
  rcases construct.edge_tested edge (by omega) with edge | others
  · rcases construct.test.grows.edges block label edge with edge | late
    · rcases construct.enters.edge edge with edge | ⟨isOpen, leads⟩
      · exact .inl edge
      · exact .inr (.inl ⟨List.mem_singleton.mp leads, isOpen⟩)
    · exact absurd small (Nat.not_lt.mpr late)
  · exact .inr (.inr others)

theorem grows : start.Grows (last.standAt (start.blockAfter func 2)) where
  toExtends := construct.extends_start
  edges := by
    have counts := construct.counts
    intro block label edge
    by_cases old : label.index < start.blockCount
    · rcases construct.edge_start edge (by omega) with edge | others
      · exact .inl edge
      · rcases others with ⟨rfl, -⟩ | ⟨rfl | rfl, -⟩ | ⟨rfl, -⟩
        all_goals
          rw [blockAfter_index] at old
          omega
    · exact .inr (Nat.not_lt.mp old)

private theorem soundAfter : (last.standAt (start.blockAfter func 2)).Sound := by
  have counts := construct.counts
  obtain ⟨entry, has⟩ := construct.inside
  have sound := construct.joins.sound construct.arm.sound
    (by rw [blockAfter_index]; omega)
  exact sound.standAt (construct.extends_start.entries func entry has)

private theorem edge_offset {offset : Nat} (small : offset < 3)
    (edge : last.Edge block (start.blockAfter func offset)) :
    (offset = 0 ∧ start.addBlock.addBlock.addBlock.OpenAt block) ∨
      ((offset = 1 ∨ offset = 2) ∧ tested.OpenAt block) ∨
      (offset = back ∧ first.OpenAt block) := by
  have counts := construct.counts
  have apart (other : Nat)
      (same : start.blockAfter func offset = start.blockAfter func other) :
      offset = other := by
    have indices := congrArg Label.index same
    rw [blockAfter_index, blockAfter_index] at indices
    omega
  rcases construct.edge_start edge (by rw [blockAfter_index]; omega) with
    old | ⟨same, isOpen⟩ | ⟨same | same, isOpen⟩ | ⟨same, isOpen⟩
  · obtain ⟨written, member, -, target⟩ := old
    have below := construct.sound.targets written member _ target
    rw [blockAfter_index] at below
    omega
  · exact .inl ⟨apart 0 same, isOpen⟩
  · exact .inr (.inl ⟨.inl (apart 1 same), isOpen⟩)
  · exact .inr (.inl ⟨.inr (apart 2 same), isOpen⟩)
  · exact .inr (.inr ⟨apart back same, isOpen⟩)

section Walks

variable {walks : Nat → Label → Prop} {bound : Nat}
  (grounded : Grounded walks start (last.standAt (start.blockAfter func 2)))

include grounded

private theorem grounded_test :
    Grounded walks (opened.standAt (start.blockAfter func 0)) tested := by
  have counts := construct.counts
  apply grounded.inner (by rw [standAt_blockCount]; omega) construct.extends_tested
  intro block label from_ below edge
  rw [standAt_blockCount] at from_
  rcases construct.edge_tested edge (by omega) with edge | ⟨rfl | rfl, -⟩ | ⟨rfl, -⟩
  · exact edge
  all_goals
    rw [blockAfter_index] at from_
    omega

private theorem grounded_arm :
    Grounded walks (chosen.standAt (start.blockAfter func 1)) first := by
  have counts := construct.counts
  apply grounded.inner (by rw [standAt_blockCount]; omega) construct.extends_first
  intro block label from_ below edge
  rw [standAt_blockCount] at from_
  rcases construct.joins.edge edge with edge | ⟨-, rfl⟩
  · exact edge
  · rw [blockAfter_index] at from_
    omega

/-- A walk to a block of the construct comes along one of its branches. -/
theorem walk_offset {offset count : Nat} (small : offset < 3)
    (walk : walks count (start.blockAfter func offset)) :
    ∃ block shorter, shorter < count ∧ walks shorter block ∧
      ((offset = 0 ∧ start.addBlock.addBlock.addBlock.OpenAt block) ∨
        ((offset = 1 ∨ offset = 2) ∧ tested.OpenAt block) ∨
        (offset = back ∧ first.OpenAt block)) := by
  have counts := construct.counts
  obtain ⟨entry, has⟩ := construct.inside
  obtain ⟨block, shorter, less, before, edge⟩ :=
    grounded.edge construct.soundAfter (construct.extends_start.entries func entry has)
      (construct.sound.entries func entry has).2 (Nat.le_add_right _ _)
      (by rw [blockAfter_index, standAt_blockCount]; omega) walk
  exact ⟨block, shorter, less, before, construct.edge_offset small edge⟩

private theorem done_of_dead (dead : Dead walks bound (start.blockAfter func 0)) :
    Done walks bound tested ∧ Done walks bound first := by
  have isBack := construct.isBack
  have doneTest := construct.test.done walks (construct.grounded_test grounded) bound
    (.inr (dead.done opened))
  have deadArm : Dead walks bound (start.blockAfter func 1) := by
    intro count small walk
    obtain ⟨block, shorter, less, before, ⟨no, -⟩ | ⟨-, isOpen⟩ | ⟨no, -⟩⟩ :=
      construct.walk_offset grounded (by omega) walk
    · omega
    · exact doneTest.dead isOpen shorter (by omega) before
    · omega
  exact ⟨doneTest, construct.arm.done walks (construct.grounded_arm grounded) bound
    (.inr (deadArm.done chosen))⟩

/-- By induction on the length of the walk, which may come from the arm. -/
theorem dead_test (done : Done walks bound start) :
    Dead walks bound (start.blockAfter func 0) := by
  induction bound with
  | zero =>
      intro count small walk
      obtain ⟨block, shorter, less, -⟩ := construct.walk_offset grounded (by omega) walk
      omega
  | succ bound ih =>
      have earlier : Done walks bound start := by
        intro label standing
        rcases done label standing with terminated | dead
        · exact .inl terminated
        · exact .inr fun count small => dead count (by omega)
      have doneArm := (construct.done_of_dead grounded (ih earlier)).2
      intro count small walk
      obtain ⟨block, shorter, less, before, ⟨-, isOpen⟩ | ⟨no, -⟩ | ⟨-, isOpen⟩⟩ :=
        construct.walk_offset grounded (by omega) walk
      · exact @Done.dead _ _ _ start done isOpen shorter (by omega) before
      · omega
      · exact doneArm.dead isOpen shorter (by omega) before

end Walks

theorem passes : Passes true start (last.standAt (start.blockAfter func 2)) where
  sound := construct.soundAfter
  grows := construct.grows
  unreachable := by
    intro walks grounded written member isUnreachable
    have inFirst := construct.joins.unreachable written member isUnreachable
    rcases construct.arm.unreachable walks (construct.grounded_arm grounded)
      written inFirst isUnreachable with inChosen | dead
    · have inTested := construct.chooses.unreachable Instr.noConfusion written
        inChosen isUnreachable
      rcases construct.test.unreachable walks (construct.grounded_test grounded)
        written inTested isUnreachable with inOpened | dead
      · exact .inl (construct.enters.unreachable Instr.noConfusion written inOpened
          isUnreachable)
      · exact .inr dead
    · exact .inr dead
  done := by
    rintro walks grounded bound (isFalse | done)
    · cases isFalse
    · have dead := construct.dead_test grounded done
      obtain ⟨doneTest, doneArm⟩ := construct.done_of_dead grounded dead
      apply Dead.done
      intro count small walk
      obtain ⟨block, shorter, less, before, ⟨no, -⟩ | ⟨-, isOpen⟩ | ⟨-, isOpen⟩⟩ :=
        construct.walk_offset grounded (by omega) walk
      · omega
      · exact doneTest.dead isOpen shorter (by omega) before
      · exact doneArm.dead isOpen shorter (by omega) before

end OneArm

end Lambpie.Compiler.Graph

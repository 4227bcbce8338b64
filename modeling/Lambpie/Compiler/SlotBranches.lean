/-
The slots of conditions and loops.

The blocks of a construct are made first, and the code of its test and of its
arms is written between the branches to them.
-/
import Lambpie.Compiler.Slots

namespace Lambpie.Compiler

open Foundations
open Foundations.Comp
open CompilerState

/-! ### The parts of a construct -/

def CompilerState.blockAfter (state : CompilerState) (func offset : Nat) : Label where
  func := func
  index := state.module.blockCount + offset

@[simp] theorem CompilerState.blockAfter_index (state : CompilerState) (func offset : Nat) :
    (state.blockAfter func offset).index = state.module.blockCount + offset := rfl

/-- From the start of a construct with so many blocks to the choice of an arm. -/
structure Tested (count : Nat) (start test first second : Label)
    (state chosen : CompilerState) (front : List Emitted) : Prop where
  isOpen : state.graph.OpenAt start
  code : chosen.module.code = state.module.code ++ front
  blocks : chosen.module.blockCount = state.module.blockCount + count
  kept : chosen.kept = state.kept
  placed : ∀ entry ∈ front, entry.block = start ∨ entry.block = test
  slots : slotBlocks front = []
  leads : ∀ x y, Leads front x y ↔ (x = some start ∧ y = some test) ∨
    (x = some test ∧ (y = some first ∨ y = some second))

structure Joined (target : Label) (before after : CompilerState) (last : List Emitted) :
    Prop where
  code : after.module.code = before.module.code ++ last
  blocks : after.module.blockCount = before.module.blockCount
  kept : after.kept = before.kept
  placed : ∀ entry ∈ last, some entry.block = before.builder
  slots : slotBlocks last = []
  leads : ∀ x y, Leads last x y ↔ before.IsOpen ∧ x = before.builder ∧ y = some target

private theorem slotBlocks_terminator {entry : Emitted}
    (terminates : entry.instr.isTerminator = true) : slotBlocks [entry] = [] := by
  apply slotBlocks_of_plain
  intro other member
  rw [List.mem_singleton.mp member]
  exact isAlloca_of_isTerminator terminates

theorem joined_of_run {target : Label} {before after : CompilerState}
    (run : branchUnlessTerminated target before = .ok ((), after)) :
    ∃ last, Joined target before after last := by
  obtain ⟨terminated, middle, read, run⟩ := bind_ok_iff.mp run
  obtain ⟨label, standing, rfl, isTerminated⟩ := isTerminated_ok read
  cases terminated with
  | true =>
      obtain ⟨-, rfl⟩ := pure_ok_iff.mp run
      refine ⟨[], (List.append_nil _).symm, rfl, rfl, ?_, rfl, ?_⟩
      · intro entry member
        exact (List.not_mem_nil member).elim
      · intro x y
        constructor
        · rintro ⟨entry, member, -⟩
          exact (List.not_mem_nil member).elim
        · rintro ⟨⟨other, stands, isOpen⟩, -⟩
          cases standing.symm.trans stands
          exact absurd (isTerminated.mp rfl) isOpen
  | false =>
      obtain ⟨block, isOpen, rfl⟩ := terminate_ok run
      have same : middle.builder = some block := isOpen.1
      refine ⟨[⟨block, .br target⟩], rfl, rfl, rfl, ?_, slotBlocks_terminator rfl, ?_⟩
      · intro entry member
        rw [List.mem_singleton.mp member]
        exact same.symm
      · intro x y
        rw [leads_singleton, same]
        constructor
        · rintro ⟨from_, label, member, to_⟩
          cases List.mem_singleton.mp member
          exact ⟨⟨block, isOpen⟩, from_, to_⟩
        · rintro ⟨-, from_, to_⟩
          exact ⟨from_, target, List.mem_singleton.mpr rfl, to_⟩

theorem tested_of_runs {test : Visit PyVal} {condition : PyVal} {count : Nat}
    {label block first second : Label} {state made opened tested chosen : CompilerState}
    (silent : ∀ base, Keeps (Straight 0 base) test) (standing : state.builder = some label)
    (code : made.module.code = state.module.code)
    (blocks : made.module.blockCount = state.module.blockCount + count)
    (builder : made.builder = state.builder) (kept : made.kept = state.kept)
    (entered : branch block made = .ok ((), opened))
    (testRun : test { opened with builder := some block } = .ok (condition, tested))
    (chose : cbranch condition first second tested = .ok ((), chosen)) :
    ∃ front, Tested count label block first second state chosen front := by
  obtain ⟨start, isOpen, rfl⟩ := terminate_ok entered
  obtain ⟨finish, chosenOpen, rfl⟩ := terminate_ok chose
  have isStart : label = start :=
    Option.some.inj (standing.symm.trans (builder.symm.trans isOpen.1))
  subst isStart
  have straight := silent _ _ _ _ (.refl _) testRun
  obtain ⟨middle, testCode, plain, slots⟩ := straight.code
  have isTest : finish = block :=
    Option.some.inj (chosenOpen.1.symm.trans straight.builder)
  subst isTest
  have none := not_leads fun entry member => targets_of_inBlock (plain entry member).2
  refine ⟨[⟨label, .br finish⟩] ++ middle ++ [⟨finish, .cbr condition first second⟩],
    ⟨standing, ?_⟩, ?_, straight.blocks.trans blocks, straight.kept.trans kept, ?_, ?_, ?_⟩
  · rintro ⟨entry, member, ends⟩
    apply isOpen.2
    refine ⟨entry, ?_, ends⟩
    change entry ∈ made.module.code
    rw [code]
    exact member
  · change tested.module.code ++ [_] = _
    rw [testCode]
    change made.module.code ++ [_] ++ middle ++ [_] = _
    rw [code, List.append_assoc, List.append_assoc, List.append_assoc]
  · intro entry member
    rcases List.mem_append.mp member with inFront | last
    · rcases List.mem_append.mp inFront with isFirst | inTest
      · cases List.mem_singleton.mp isFirst
        exact .inl rfl
      · exact .inr (Option.some.inj (plain entry inTest).1)
    · cases List.mem_singleton.mp last
      exact .inr rfl
  · rw [slotBlocks_append, slotBlocks_append, slots, slotBlocks_terminator rfl,
      slotBlocks_terminator rfl]
    rfl
  · intro x y
    rw [leads_append, leads_append, Either, Either, leads_singleton, leads_singleton]
    constructor
    · rintro ((⟨from_, target, member, to_⟩ | inTest) | ⟨from_, target, member, to_⟩)
      · cases List.mem_singleton.mp member
        exact .inl ⟨from_, to_⟩
      · exact absurd inTest (none x y)
      · rcases List.mem_pair.mp member with rfl | rfl
        · exact .inr ⟨from_, .inl to_⟩
        · exact .inr ⟨from_, .inr to_⟩
    · rintro (⟨from_, to_⟩ | ⟨from_, to_ | to_⟩)
      · exact .inl (.inl ⟨from_, finish, List.mem_singleton.mpr rfl, to_⟩)
      · exact .inr ⟨from_, first, List.mem_pair.mpr (.inl rfl), to_⟩
      · exact .inr ⟨from_, second, List.mem_pair.mpr (.inr rfl), to_⟩

/-! ### Blocks that are not written to yet -/

private theorem tidy_standAt {state : CompilerState} {label : Label}
    (code : ∀ entry ∈ state.module.code, entry.block.index < state.module.blockCount)
    (below : label.index < state.module.blockCount) : (state.standAt label).Tidy where
  code := code
  builder := by
    rintro other same
    cases same
    exact below

private theorem open_standAt {state : CompilerState} {label : Label}
    (unused : ∀ entry ∈ state.module.code, entry.block.index ≠ label.index) :
    (state.standAt label).IsOpen := by
  refine ⟨label, rfl, ?_⟩
  rintro ⟨entry, member, same, -⟩
  exact unused entry member (congrArg Label.index same)

private theorem made_block {base state : CompilerState} {block : Label} :
    Made base state (some block) ↔
      base.module.blockCount ≤ block.index ∧ block.index < state.module.blockCount := by
  constructor
  · rintro ⟨label, same, bounds⟩
    cases same
    exact bounds
  · intro bounds
    exact ⟨block, rfl, bounds⟩

theorem Tested.index {count : Nat} {start first second : Label} {func : Nat}
    {state chosen : CompilerState} {front : List Emitted}
    (tested : Tested count start (state.blockAfter func 0) first second state chosen front)
    (tidy : state.Tidy) :
    ∀ entry ∈ chosen.module.code, entry.block.index ≤ state.module.blockCount := by
  intro entry member
  rw [tested.code] at member
  rcases List.mem_append.mp member with earlier | inFront
  · exact Nat.le_of_lt (tidy.code entry earlier)
  · rcases tested.placed entry inFront with isStart | isTest
    · rw [isStart]
      exact Nat.le_of_lt (tidy.builder start tested.isOpen.1)
    · rw [isTest]
      exact Nat.le_refl _

/-- The blocks of an arm are its first one and those that it makes. -/
theorem Segment.index {flow : Flow} {before first last : CompilerState} {arm target : Label}
    {body tail : List Emitted} (segment : Segment flow (before.standAt arm) first body)
    (joined : Joined target first last tail) :
    ∀ entry ∈ body ++ tail, entry.block.index = arm.index ∨
      (before.module.blockCount ≤ entry.block.index ∧
        entry.block.index < first.module.blockCount) := by
  have inArm {block : Label} (standing : some block = first.builder) :
      block.index = arm.index ∨ (before.module.blockCount ≤ block.index ∧
        block.index < first.module.blockCount) := by
    rcases segment.region.inside with same | made
    · cases standing.trans same
      exact .inl rfl
    · exact .inr (made_block.mp (standing ▸ made))
  intro entry member
  rcases List.mem_append.mp member with inBody | inTail
  · rcases segment.placed entry inBody with same | made
    · cases same
      exact .inl rfl
    · exact .inr (made_block.mp made)
  · exact inArm (joined.placed entry inTail)

private theorem not_inArm {before first : CompilerState} {arm block : Label}
    (different : block.index ≠ arm.index)
    (earlier : block.index < before.module.blockCount) :
    ¬(some block = (before.standAt arm).builder ∨ Made (before.standAt arm) first (some block)) := by
  rintro (same | made)
  · cases same
    exact different rfl
  · have bounds := made_block.mp made
    have above : before.module.blockCount ≤ block.index := bounds.1
    omega

/-- The construct as a segment, with the block after it still empty. -/
theorem segment_of_region {whole : Flow} {start stop : Label} {state last : CompilerState}
    {added : List Emitted} (tidy : state.Tidy) (standing : state.builder = some start)
    (code : last.module.code = state.module.code ++ added)
    (blocks : state.module.blockCount ≤ last.module.blockCount)
    (kept : last.kept = state.kept) (fresh : state.module.blockCount ≤ stop.index)
    (placed : ∀ entry ∈ added, entry.block = start ∨
      (state.module.blockCount ≤ entry.block.index ∧
        entry.block.index < last.module.blockCount ∧ entry.block.index ≠ stop.index))
    (region : Region whole (Leads added) (some start) (some stop)
      (Made state (last.standAt stop)) (slotBlocks added) state.IsOpen True) :
    Segment whole state (last.standAt stop) added where
  code := code
  blocks := blocks
  placed := by
    intro entry member
    rcases placed entry member with isStart | ⟨above, below, -⟩
    · exact .inl (isStart ▸ standing.symm)
    · exact .inr (made_block.mpr ⟨above, below⟩)
  kept := kept
  region := by
    have isOpen : (last.standAt stop).IsOpen := by
      apply open_standAt
      intro entry member
      rw [code] at member
      rcases List.mem_append.mp member with earlier | new
      · have below := tidy.code entry earlier
        omega
      · rcases placed entry new with isStart | ⟨-, -, different⟩
        · have below := tidy.builder start standing
          rw [isStart]
          omega
        · exact different
    rw [standing, standAt_builder, eq_true isOpen]
    exact region

/-! ### One arm -/

section OneArm

variable {flow : Flow} {func : Nat} {start onward : Label}
  {state chosen first last : CompilerState} {front body tail : List Emitted}
  (tidy : state.Tidy)
  (tested : Tested 3 start (state.blockAfter func 0) (state.blockAfter func 1)
    (state.blockAfter func 2) state chosen front)
  (segment : Segment flow (chosen.standAt (state.blockAfter func 1)) first body)
  (joined : Joined onward first last tail)

include tidy tested segment joined

private theorem oneArm_of_segment :
    OneArm (Leads (front ++ (body ++ tail))) (Leads body)
      (Made (chosen.standAt (state.blockAfter func 1)) first)
      (Made state (last.standAt (state.blockAfter func 2))) first.IsOpen
      (some start) (some (state.blockAfter func 0)) (some (state.blockAfter func 1))
      first.builder (some onward) (some (state.blockAfter func 2)) := by
  have blocks := tested.blocks
  have more : chosen.module.blockCount ≤ first.module.blockCount := segment.blocks
  have lastBlocks := joined.blocks
  have made (offset : Nat) (small : offset < 3) :
      Made state (last.standAt (state.blockAfter func 2)) (some (state.blockAfter func offset)) := by
    rw [made_block, blockAfter_index, standAt_blockCount]
    omega
  have apart (offset : Nat) (small : offset < 3) (other : offset ≠ 1) :
      ¬(some (state.blockAfter func offset) =
          (chosen.standAt (state.blockAfter func 1)).builder ∨
        Made (chosen.standAt (state.blockAfter func 1)) first
          (some (state.blockAfter func offset))) := by
    apply not_inArm
    · rw [blockAfter_index, blockAfter_index]
      omega
    · rw [blockAfter_index]
      omega
  refine
    { edges := ?_, outside := ?_, hasTest := made 0 (by omega), hasStop := made 2 (by omega)
      hasArm := ?_, testApart := apart 0 (by omega) (by omega)
      stopApart := apart 2 (by omega) (by omega), different := ?_ }
  · intro x y
    rw [leads_append, leads_append, Either, Either, tested.leads, joined.leads, or_assoc]
  · rw [← show state.builder = some start from tested.isOpen.1]
    exact not_made_builder tidy (Nat.le_refl _)
  · rintro x (rfl | inside)
    · exact made 1 (by omega)
    · apply inside.mono
      · rw [standAt_blockCount]
        omega
      · rw [standAt_blockCount]
        omega
  · intro same
    have indices := congrArg Label.index (Option.some.inj same)
    rw [blockAfter_index, blockAfter_index] at indices
    omega

private theorem segment_oneArm {whole : Flow}
    (region : Region whole (Leads (front ++ (body ++ tail))) (some start)
      (some (state.blockAfter func 2)) (Made state (last.standAt (state.blockAfter func 2)))
      (slotBlocks body) state.IsOpen True) :
    Segment whole state (last.standAt (state.blockAfter func 2))
      (front ++ (body ++ tail)) := by
  have blocks := tested.blocks
  have more : chosen.module.blockCount ≤ first.module.blockCount := segment.blocks
  have lastBlocks := joined.blocks
  have slots : slotBlocks (front ++ (body ++ tail)) = slotBlocks body := by
    rw [slotBlocks_append, slotBlocks_append, tested.slots, joined.slots, List.nil_append,
      List.append_nil]
  apply segment_of_region tidy tested.isOpen.1
  · rw [joined.code, segment.code, standAt_code, tested.code, List.append_assoc,
      List.append_assoc]
  · omega
  · exact joined.kept.trans (segment.kept.trans tested.kept)
  · rw [blockAfter_index]
    omega
  · intro entry member
    rw [blockAfter_index]
    rcases List.mem_append.mp member with inFront | inArm
    · rcases tested.placed entry inFront with isStart | isTest
      · exact .inl isStart
      · rw [isTest, blockAfter_index]
        exact .inr (by omega)
    · have index := segment.index joined entry inArm
      rw [blockAfter_index] at index
      exact .inr (by omega)
  · rwa [slots]

end OneArm

theorem Tested.arm {count func : Nat} {start : Label} {state chosen : CompilerState}
    {front : List Emitted} {first second : Label}
    (tested : Tested count start (state.blockAfter func 0) first second state chosen front)
    (tidy : state.Tidy) {arm : Label} (above : state.module.blockCount < arm.index)
    (below : arm.index < state.module.blockCount + count) :
    (chosen.standAt arm).Tidy ∧ (chosen.standAt arm).IsOpen := by
  have index := tested.index tidy
  have blocks := tested.blocks
  constructor
  · apply tidy_standAt
    · intro entry member
      have earlier := index entry member
      omega
    · omega
  · apply open_standAt
    intro entry member
    have earlier := index entry member
    omega

theorem segments_of_runs {flow : Flow} {test : Visit PyVal} {body : Visit Unit}
    {condition : PyVal} {label onward : Label} {state opened tested chosen first last : CompilerState}
    (tidy : state.Tidy) (standing : state.builder = some label)
    (silent : ∀ base, Keeps (Straight 0 base) test) (lays : Lays flow body)
    (entered : branch (state.blockAfter label.func 0)
      (((state.appendBlock label.func).appendBlock label.func).appendBlock label.func) =
        .ok ((), opened))
    (testRun : test (opened.standAt (state.blockAfter label.func 0)) = .ok (condition, tested))
    (chose : cbranch condition (state.blockAfter label.func 1)
      (state.blockAfter label.func 2) tested = .ok ((), chosen))
    (bodyRun : body (chosen.standAt (state.blockAfter label.func 1)) = .ok ((), first))
    (joined : branchUnlessTerminated onward first = .ok ((), last)) :
    ∃ front body tail,
      Tested 3 label (state.blockAfter label.func 0) (state.blockAfter label.func 1)
        (state.blockAfter label.func 2) state chosen front ∧
      Segment flow (chosen.standAt (state.blockAfter label.func 1)) first body ∧
      (chosen.standAt (state.blockAfter label.func 1)).IsOpen ∧
      Joined onward first last tail := by
  obtain ⟨front, isTested⟩ :
      ∃ front, Tested 3 label (state.blockAfter label.func 0) (state.blockAfter label.func 1)
        (state.blockAfter label.func 2) state chosen front := by
    apply tested_of_runs silent standing _ _ _ _ entered testRun chose
    all_goals rfl
  have arm : (chosen.standAt (state.blockAfter label.func 1)).Tidy ∧
      (chosen.standAt (state.blockAfter label.func 1)).IsOpen := by
    apply isTested.arm tidy
    · rw [blockAfter_index]
      omega
    · rw [blockAfter_index]
      omega
  obtain ⟨added, segment⟩ := lays _ _ _ arm.1 bodyRun
  obtain ⟨tail, isJoined⟩ := joined_of_run joined
  exact ⟨front, added, tail, isTested, segment, arm.2, isJoined⟩

theorem lays_visitIf {flow : Flow} {test : Visit PyVal} {body : Visit Unit}
    (silent : ∀ base, Keeps (Straight 0 base) test) (lays : Lays flow body) :
    Lays (flow.either (.straight 0)) (visitIf test body none) := by
  intro state value state' tidy run
  simp only [visitIf, positionAtEnd, bind_ok_iff, appendBlock_ok_iff, modify_ok_iff,
    pure_ok_iff] at run
  obtain ⟨func, _, current, _, _, ⟨rfl, rfl⟩, _, _, ⟨rfl, rfl⟩, _, _, ⟨rfl, rfl⟩, _,
    opened, entered, _, _, rfl, condition, tested, testRun, _, chosen, chose, _, _, rfl,
    _, first, bodyRun, _, last, joined, _, _, rfl, -, rfl⟩ := run
  obtain ⟨label, standing, rfl, rfl⟩ := currentFunction_ok current
  obtain ⟨front, added, tail, isTested, segment, isOpen, isJoined⟩ :=
    segments_of_runs tidy standing silent lays entered testRun chose bodyRun joined
  have construct := oneArm_of_segment tidy isTested segment isJoined
  have entering : state.IsOpen := ⟨label, isTested.isOpen⟩
  have region := construct.condition segment.region rfl isOpen entering
  exact ⟨_, segment_oneArm tidy isTested segment isJoined region⟩

theorem lays_visitWhile {flow : Flow} {test : Visit PyVal} {body : Visit Unit}
    (silent : ∀ base, Keeps (Straight 0 base) test) (lays : Lays flow body) :
    Lays flow.loop (visitWhile test body) := by
  intro state value state' tidy run
  simp only [visitWhile, positionAtEnd, bind_ok_iff, appendBlock_ok_iff, modify_ok_iff,
    pure_ok_iff] at run
  obtain ⟨func, _, current, _, _, ⟨rfl, rfl⟩, _, _, ⟨rfl, rfl⟩, _, _, ⟨rfl, rfl⟩, _,
    opened, entered, _, _, rfl, condition, tested, testRun, _, chosen, chose, _, _, rfl,
    _, first, bodyRun, _, last, joined, _, _, rfl, -, rfl⟩ := run
  obtain ⟨label, standing, rfl, rfl⟩ := currentFunction_ok current
  obtain ⟨front, added, tail, isTested, segment, isOpen, isJoined⟩ :=
    segments_of_runs tidy standing silent lays entered testRun chose bodyRun joined
  have construct := oneArm_of_segment tidy isTested segment isJoined
  have entering : state.IsOpen := ⟨label, isTested.isOpen⟩
  have region := construct.loop segment.region rfl isOpen entering
  exact ⟨_, segment_oneArm tidy isTested segment isJoined region⟩

/-! ### Two arms -/

section TwoArms

variable {firstFlow secondFlow : Flow} {func : Nat} {start : Label}
  {state chosen first joined second last : CompilerState}
  {front body tail orelse finish : List Emitted}
  (tidy : state.Tidy)
  (tested : Tested 4 start (state.blockAfter func 0) (state.blockAfter func 1)
    (state.blockAfter func 2) state chosen front)
  (left : Segment firstFlow (chosen.standAt (state.blockAfter func 1)) first body)
  (leftJoined : Joined (state.blockAfter func 3) first joined tail)

include tidy tested left leftJoined

theorem second_arm : (joined.standAt (state.blockAfter func 2)).Tidy ∧
    (joined.standAt (state.blockAfter func 2)).IsOpen := by
  have blocks := tested.blocks
  have more : chosen.module.blockCount ≤ first.module.blockCount := left.blocks
  have joinedBlocks := leftJoined.blocks
  have index : ∀ entry ∈ joined.module.code,
      entry.block.index ≤ state.module.blockCount + 1 ∨
        (state.module.blockCount + 4 ≤ entry.block.index ∧
          entry.block.index < first.module.blockCount) := by
    intro entry member
    rw [leftJoined.code, left.code, List.append_assoc, standAt_code] at member
    rcases List.mem_append.mp member with earlier | inArm
    · have small := tested.index tidy entry earlier
      exact .inl (by omega)
    · have place := left.index leftJoined entry inArm
      rw [blockAfter_index] at place
      omega
  constructor
  · apply tidy_standAt
    · intro entry member
      have place := index entry member
      omega
    · rw [blockAfter_index]
      omega
  · apply open_standAt
    intro entry member
    have place := index entry member
    rw [blockAfter_index]
    omega

variable
  (right : Segment secondFlow (joined.standAt (state.blockAfter func 2)) second orelse)
  (rightJoined : Joined (state.blockAfter func 3) second last finish)

include right rightJoined

private theorem twoArms_of_segments :
    TwoArms (Leads (front ++ ((body ++ tail) ++ (orelse ++ finish)))) (Leads body)
      (Leads orelse) (Made (chosen.standAt (state.blockAfter func 1)) first)
      (Made (joined.standAt (state.blockAfter func 2)) second)
      (Made state (last.standAt (state.blockAfter func 3))) first.IsOpen second.IsOpen
      (some start) (some (state.blockAfter func 0)) (some (state.blockAfter func 1))
      first.builder (some (state.blockAfter func 2)) second.builder
      (some (state.blockAfter func 3)) := by
  have blocks := tested.blocks
  have more : chosen.module.blockCount ≤ first.module.blockCount := left.blocks
  have joinedBlocks := leftJoined.blocks
  have most : joined.module.blockCount ≤ second.module.blockCount := right.blocks
  have lastBlocks := rightJoined.blocks
  have made (offset : Nat) (small : offset < 4) :
      Made state (last.standAt (state.blockAfter func 3)) (some (state.blockAfter func offset)) := by
    rw [made_block, blockAfter_index, standAt_blockCount]
    omega
  have apartFirst (offset : Nat) (small : offset < 4) (other : offset ≠ 1) :
      ¬(some (state.blockAfter func offset) =
          (chosen.standAt (state.blockAfter func 1)).builder ∨
        Made (chosen.standAt (state.blockAfter func 1)) first
          (some (state.blockAfter func offset))) := by
    apply not_inArm
    · rw [blockAfter_index, blockAfter_index]
      omega
    · rw [blockAfter_index]
      omega
  have apartSecond (offset : Nat) (small : offset < 4) (other : offset ≠ 2) :
      ¬(some (state.blockAfter func offset) =
          (joined.standAt (state.blockAfter func 2)).builder ∨
        Made (joined.standAt (state.blockAfter func 2)) second
          (some (state.blockAfter func offset))) := by
    apply not_inArm
    · rw [blockAfter_index, blockAfter_index]
      omega
    · rw [blockAfter_index]
      omega
  refine
    { edges := ?_, outside := ?_, hasTest := made 0 (by omega), hasStop := made 3 (by omega)
      hasFirst := ?_, hasSecond := ?_
      testFirst := apartFirst 0 (by omega) (by omega)
      testSecond := apartSecond 0 (by omega) (by omega)
      stopFirst := apartFirst 3 (by omega) (by omega)
      stopSecond := apartSecond 3 (by omega) (by omega)
      armsApart := ?_, different := ?_ }
  · intro x y
    rw [leads_append, leads_append, leads_append, leads_append, Either, Either, Either, Either,
      tested.leads, leftJoined.leads, rightJoined.leads, or_assoc]
  · rw [← show state.builder = some start from tested.isOpen.1]
    exact not_made_builder tidy (Nat.le_refl _)
  · rintro x (rfl | inside)
    · exact made 1 (by omega)
    · apply inside.mono
      · rw [standAt_blockCount]
        omega
      · rw [standAt_blockCount]
        omega
  · rintro x (rfl | inside)
    · exact made 2 (by omega)
    · apply inside.mono
      · rw [standAt_blockCount]
        omega
      · rw [standAt_blockCount]
        omega
  · rintro x (rfl | ⟨label, rfl, above, below⟩)
    · exact apartSecond 1 (by omega) (by omega)
    · rw [standAt_blockCount] at above
      rintro (same | inside)
      · have index := congrArg Label.index (Option.some.inj same)
        rw [blockAfter_index] at index
        omega
      · have bounds := made_block.mp inside
        rw [standAt_blockCount] at bounds
        omega
  · intro same
    have indices := congrArg Label.index (Option.some.inj same)
    rw [blockAfter_index, blockAfter_index] at indices
    omega

private theorem segment_twoArms {whole : Flow}
    (region : Region whole (Leads (front ++ ((body ++ tail) ++ (orelse ++ finish))))
      (some start) (some (state.blockAfter func 3))
      (Made state (last.standAt (state.blockAfter func 3)))
      (slotBlocks body ++ slotBlocks orelse) state.IsOpen True) :
    Segment whole state (last.standAt (state.blockAfter func 3))
      (front ++ ((body ++ tail) ++ (orelse ++ finish))) := by
  have blocks := tested.blocks
  have more : chosen.module.blockCount ≤ first.module.blockCount := left.blocks
  have joinedBlocks := leftJoined.blocks
  have most : joined.module.blockCount ≤ second.module.blockCount := right.blocks
  have lastBlocks := rightJoined.blocks
  have slots : slotBlocks (front ++ ((body ++ tail) ++ (orelse ++ finish))) =
      slotBlocks body ++ slotBlocks orelse := by
    rw [slotBlocks_append, slotBlocks_append, slotBlocks_append, slotBlocks_append,
      tested.slots, leftJoined.slots, rightJoined.slots, List.nil_append, List.append_nil,
      List.append_nil]
  apply segment_of_region tidy tested.isOpen.1
  · rw [rightJoined.code, right.code, standAt_code, leftJoined.code, left.code, standAt_code,
      tested.code]
    simp only [List.append_assoc]
  · omega
  · exact rightJoined.kept.trans (right.kept.trans (leftJoined.kept.trans
      (left.kept.trans tested.kept)))
  · rw [blockAfter_index]
    omega
  · intro entry member
    rw [blockAfter_index]
    rcases List.mem_append.mp member with inFront | inArms
    · rcases tested.placed entry inFront with isStart | isTest
      · exact .inl isStart
      · rw [isTest, blockAfter_index]
        exact .inr (by omega)
    · rcases List.mem_append.mp inArms with inFirst | inSecond
      · have index := left.index leftJoined entry inFirst
        rw [blockAfter_index] at index
        exact .inr (by omega)
      · have index := right.index rightJoined entry inSecond
        rw [blockAfter_index] at index
        exact .inr (by omega)
  · rwa [slots]

end TwoArms

theorem lays_visitIfElse {bodyFlow elseFlow : Flow} {test : Visit PyVal}
    {body orelse : Visit Unit} (silent : ∀ base, Keeps (Straight 0 base) test)
    (laysBody : Lays bodyFlow body) (laysElse : Lays elseFlow orelse) :
    Lays (bodyFlow.either elseFlow) (visitIf test body (some orelse)) := by
  intro state value state' tidy run
  simp only [visitIf, positionAtEnd, bind_ok_iff, appendBlock_ok_iff, modify_ok_iff,
    pure_ok_iff] at run
  obtain ⟨func, _, current, _, _, ⟨rfl, rfl⟩, _, _, ⟨rfl, rfl⟩, _, _, ⟨rfl, rfl⟩, _, _,
    ⟨rfl, rfl⟩, _, opened, entered, _, _, rfl, condition, tested, testRun, _, chosen,
    chose, _, _, rfl, _, first, bodyRun, _, joined, firstJoined, _, _, rfl, _, second,
    elseRun, _, last, secondJoined, _, _, rfl, -, rfl⟩ := run
  obtain ⟨label, standing, rfl, rfl⟩ := currentFunction_ok current
  obtain ⟨front, isTested⟩ :
      ∃ front, Tested 4 label (state.blockAfter label.func 0) (state.blockAfter label.func 1)
        (state.blockAfter label.func 2) state chosen front := by
    apply tested_of_runs silent standing _ _ _ _ entered testRun chose
    all_goals rfl
  have arm : (chosen.standAt (state.blockAfter label.func 1)).Tidy ∧
      (chosen.standAt (state.blockAfter label.func 1)).IsOpen := by
    apply isTested.arm tidy
    · rw [blockAfter_index]
      omega
    · rw [blockAfter_index]
      omega
  obtain ⟨added, left⟩ := laysBody _ _ _ arm.1 bodyRun
  obtain ⟨tail, leftJoined⟩ := joined_of_run firstJoined
  have elseArm := second_arm tidy isTested left leftJoined
  obtain ⟨others, right⟩ := laysElse _ _ _ elseArm.1 elseRun
  obtain ⟨finish, rightJoined⟩ := joined_of_run secondJoined
  have construct := twoArms_of_segments tidy isTested left leftJoined right rightJoined
  have entering : state.IsOpen := ⟨label, isTested.isOpen⟩
  have region := construct.region left.region right.region arm.2 elseArm.2 entering
  exact ⟨_, segment_twoArms tidy isTested left leftJoined right rightJoined region⟩

end Lambpie.Compiler

/-
Conditions and loops of integer functions.

A jump leads to the start of a block, and the blocks of a construct are written
to in the order in which the machine can first come to them.
-/
import Lambpie.Integers.Statements

namespace Lambpie.Integers

open Foundations
open Foundations.Comp
open Lambpie.Compiler
open Lambpie.Machine
open CompilerState

variable {module : Compiler.Module} {act : Activation} {fuel : Nat} {visible : List String}
  {env : Env} {slots : String → Nat} {state state' : CompilerState}
  {machine : MachineState}

private theorem Ends.weaken {fewer : List String} {result : Env ⊕ Word}
    (ends : Ends module act visible state result machine)
    (subset : ∀ env, result = .inl env → ∀ name ∈ fewer, name ∈ visible) :
    Ends module act fewer state result machine := by
  cases result with
  | inr number => exact ends
  | inl env =>
      obtain ⟨slots, running⟩ := ends
      exact ⟨slots, running.weaken (subset env rfl)⟩

private theorem Executes.weaken {α : Type} {later fewer names : List String} {compile : Visit α}
    {ran : Env → Ran (Env ⊕ Word)}
    (executes : Executes module act fuel visible later names compile ran)
    (subset : ∀ name ∈ fewer, name ∈ later) :
    Executes module act fuel visible fewer names compile ran := by
  intro state val state' run int
  obtain ⟨grown, tracks⟩ := executes state val state' run int
  refine ⟨grown, fun included covers fresh tidy env slots machine running => ?_⟩
  exact (tracks included covers fresh tidy env slots machine running).weaken
    fun result after ends => ends.weaken fun _ _ => subset

private theorem executes_nil : Executes module act fuel visible visible [] (visitBody [])
    fun env => .done (.inl env) := by
  intro state val state' run int
  obtain ⟨rfl, rfl⟩ := pure_ok_iff.mp run
  refine ⟨(Undisturbed.refl _).grown, fun _ _ _ _ env slots machine running => ?_⟩
  exact .done ⟨slots, running⟩

/-- The second part is executed only where the first one goes on. -/
private theorem executes_cons {flow : Flow} {later onward last whole front back : List String}
    {head : Visit PyVal} {tail : Visit Unit} {ran rest : Env → Ran (Env ⊕ Word)}
    (lays : Lays flow head) (first : Executes module act fuel visible later front head ran)
    (second : Executes module act fuel onward last back tail rest)
    (goesOn : ∀ env env', ran env = .done (.inl env') →
      (∀ name ∈ onward, name ∈ later) ∧ ∀ name ∈ whole, name ∈ last) :
    Executes module act fuel visible whole (front ++ back) (head >>= fun _ => tail)
      fun env => ran env >>= Sum.elim rest fun value => .done (.inr value) := by
  intro state val state' run int
  obtain ⟨inner, middle, headRun, tailRun⟩ := bind_ok_iff.mp run
  obtain ⟨grown, tracks⟩ := first _ _ _ headRun int
  obtain ⟨grown', tracks'⟩ := second _ _ _ tailRun (by rw [grown.types]; exact int)
  refine ⟨grown.trans grown', fun included covers fresh tidy env slots machine running => ?_⟩
  have freshBack := fresh.right grown
  have coversMiddle := covers.before grown' freshBack
  obtain ⟨added, segment⟩ := lays _ _ _ tidy headRun
  have tracked := tracks (grown'.code.trans included) coversMiddle fresh.left tidy env slots machine
    running
  refine tracked.known.bind fun result between ends => ?_
  obtain ⟨isRan, ends⟩ := ends
  cases result with
  | inr number => exact .done ends
  | inl env' =>
      obtain ⟨slots, running⟩ := ends
      obtain ⟨seen, subset⟩ := goesOn env env' isRan
      have last := tracks' included covers freshBack (segment.tidy tidy) env' slots between
        (running.weaken seen)
      exact last.weaken fun result after ends => ends.weaken fun _ _ => subset

private theorem step_br {block target : Label} (stands : At module state machine.frame)
    (standing : state.builder = some block)
    (included : (state.append { block, instr := .br target }).module.code <+: module.code) :
    step module machine = .next (jump module machine target) := by
  obtain ⟨pending, -⟩ := stands.next standing included
  exact step_of_execute pending rfl

private theorem step_cbr {block first second : Label} {condition : PyVal} {holds : Bool}
    (stands : At module state machine.frame) (standing : state.builder = some block)
    (included : (state.append { block, instr := .cbr condition first second }).module.code <+:
      module.code) (evaluated : evalPyVal machine.frame condition = .i1 holds) :
    step module machine = .next (jump module machine (if holds then first else second)) := by
  obtain ⟨pending, -⟩ := stands.next standing included
  apply step_of_execute pending
  have isTest (code : List (Nat × Instr)) :
      evalPyVal (machine.fetched code).frame condition = .i1 holds := evaluated
  cases holds with
  | true =>
      simp only [execute, isTest]
      rfl
  | false =>
      simp only [execute, isTest]
      rfl

private theorem running_jump {target : Label}
    (poised : Poised module act.homes act.globals visible act.memory.nextStack env slots state machine)
    (active : Active act machine) (known : Scoped act.homes act.globals visible state')
    (isOpen : state'.IsOpen) (stands : At module state' (jump module machine target).frame) :
    Running module act visible env slots state' (jump module machine target) where
  known := known
  bound := poised.bound
  stands := stands
  stored := poised.stored.change rfl
  isOpen := isOpen
  active := ⟨active.args, active.callers, active.dst, active.slots, active.untouched⟩

private theorem running_at {target : Label}
    (poised : Poised module act.homes act.globals visible act.memory.nextStack env slots state machine)
    (active : Active act machine) (known : Scoped act.homes act.globals visible state')
    (standing : state'.builder = some target)
    (unused : ∀ entry ∈ state'.module.code, entry.block ≠ target)
    (included : state'.module.code <+: module.code) :
    Running module act visible env slots state' (jump module machine target) := by
  refine running_jump poised active known ⟨target, standing, ?_⟩
    (at_start standing unused included rfl rfl)
  rintro ⟨entry, member, same, -⟩
  exact unused entry member same

theorem Scoped.grown {homes : Scope Value} {globals : Scope PyVal} {names : List String}
    (known : Scoped homes globals visible state) (grown : Grown names state state')
    (covers : Covers homes state') : Scoped homes globals visible state' where
  int := by rw [grown.types]; exact known.int
  globals := grown.globals.trans known.globals
  locals := covers
  visible name member := by
    by_cases declares : name ∈ names
    · obtain ⟨type, id, found, -⟩ := grown.declared name declares
      exact Option.isSome_iff_exists.mpr ⟨_, found⟩
    · rw [grown.kept name declares]
      exact known.visible name member

theorem Grown.after {names : List String} {base middle : CompilerState}
    (head : Grown names base middle) (tail : Grown [] middle state) : Grown names base state := by
  have whole := head.trans tail
  rwa [List.append_nil] at whole

private theorem grown_join {target : Label} {first last : CompilerState}
    (run : branchUnlessTerminated target first = .ok ((), last)) : Grown [] first last := by
  obtain ⟨terminated, middle, read, run⟩ := bind_ok_iff.mp run
  obtain ⟨label, -, rfl, -⟩ := isTerminated_ok read
  cases terminated with
  | true =>
      obtain ⟨-, rfl⟩ := pure_ok_iff.mp run
      exact (Undisturbed.refl _).grown
  | false =>
      obtain ⟨block, -, rfl⟩ := terminate_ok run
      exact ((Undisturbed.refl _).append _).grown

private theorem join_open {target : Label} {first last : CompilerState} (isOpen : first.IsOpen)
    (run : branchUnlessTerminated target first = .ok ((), last)) :
    ∃ block, first.builder = some block ∧ last = first.append { block, instr := .br target } := by
  obtain ⟨terminated, middle, read, run⟩ := bind_ok_iff.mp run
  obtain ⟨label, standing, rfl, isTerminated⟩ := isTerminated_ok read
  cases terminated with
  | true =>
      obtain ⟨other, stands, notEnded⟩ := isOpen
      cases standing.symm.trans stands
      exact absurd (isTerminated.mp rfl) notEnded
  | false =>
      obtain ⟨block, open_, rfl⟩ := terminate_ok run
      exact ⟨block, open_.1, rfl⟩

section

variable {func : Nat} {test : Visit PyVal} {ranTest : Env → Ran Bool}
  {made opened tested chosen : CompilerState} {label header first second : Label}
  {condition : PyVal}

structure Choosing (test : Visit PyVal) (label header first second : Label)
    (condition : PyVal) (state made opened tested chosen : CompilerState) : Prop where
  standing : state.builder = some label
  same : Undisturbed state made
  code : made.module.code = state.module.code
  entered : branch header made = .ok ((), opened)
  testRun : test (opened.standAt header) = .ok (condition, tested)
  chose : cbranch condition first second tested = .ok ((), chosen)

theorem Choosing.grown
    (choosing : Choosing test label header first second condition state made opened tested chosen)
    (silent : ∀ base, Keeps (Undisturbed base) test) :
    Grown [] state (opened.standAt header) ∧ Undisturbed (opened.standAt header) tested ∧
      Grown [] tested chosen := by
  obtain ⟨block, isOpen, rfl⟩ := terminate_ok choosing.entered
  obtain ⟨block', isOpen', rfl⟩ := terminate_ok choosing.chose
  have same := choosing.same.append ⟨block, .br header⟩
  exact ⟨grown_of_same same.code same.types same.globals same.locals,
    silent _ _ _ _ (.refl _) choosing.testRun, ((Undisturbed.refl _).append _).grown⟩

theorem Choosing.enters
    (choosing : Choosing test label header first second condition state made opened tested chosen)
    (silent : ∀ base, Keeps (Undisturbed base) test) (tidy : state.Tidy)
    (isNew : state.module.blockCount ≤ header.index) (covers : Covers act.homes opened)
    (included : opened.module.code <+: module.code)
    (running : Running module act visible env slots state machine) :
    step module machine = .next (jump module machine header) ∧
      Running module act visible env slots (opened.standAt header) (jump module machine header) := by
  have grown := (choosing.grown silent).1
  obtain ⟨block, isOpen, rfl⟩ := terminate_ok choosing.entered
  have isBlock : made.builder = some block := isOpen.1
  have isLabel : label = block := by
    rw [choosing.same.builder, choosing.standing] at isBlock
    exact Option.some.inj isBlock
  have stands : At module made machine.frame := by
    refine ⟨?_, ?_⟩
    · rw [choosing.same.builder]
      exact running.stands.builder
    · rw [choosing.code]
      exact running.stands.code
  refine ⟨step_br stands isBlock included, ?_⟩
  apply running_at running.toPoised running.active (running.known.grown grown covers) rfl ?_ included
  intro entry member
  change entry ∈ made.module.code ++ _ at member
  rw [choosing.code] at member
  rcases List.mem_append.mp member with earlier | last
  · intro equal
    have below := tidy.code entry earlier
    rw [equal] at below
    omega
  · cases List.mem_singleton.mp last
    intro equal
    have below := tidy.builder label choosing.standing
    rw [isLabel, show block = header from equal] at below
    omega

theorem Choosing.tracks
    (choosing : Choosing test label header first second condition state made opened tested chosen)
    (isHomes : Homes module act.homes) (silent : ∀ base, Keeps (Undisturbed base) test)
    (computes : ∀ env slots, Computes module fuel act.homes act.globals visible
      act.memory.nextStack env slots test .i1 .i1 (ranTest env))
    (included : chosen.module.code <+: module.code)
    (running : Running module act visible env slots (opened.standAt header) machine) :
    Tracks (step module) (fuel + 1) machine (ranTest env) fun holds after =>
      step module after = .next (jump module after (if holds then first else second)) ∧
        Poised module act.homes act.globals visible act.memory.nextStack env slots tested after ∧
        Active act after := by
  obtain ⟨-, same, -⟩ := choosing.grown silent
  obtain ⟨-, tracks⟩ := computes env slots _ _ _ choosing.testRun
  obtain ⟨block, isOpen, rfl⟩ := terminate_ok choosing.chose
  have before : tested.module.code <+: module.code := (List.prefix_append _ _).trans included
  refine (tracks before machine running.toPoised).weaken fun holds after leaves => ?_
  obtain ⟨value, rfl, -, evaluated, -⟩ := leaves.operand
  exact ⟨step_cbr leaves.stands isOpen.1 included evaluated,
    running.evaluates isHomes same leaves.stands leaves.evaluates,
    running.active.evaluates leaves.evaluates⟩

end

private theorem ends_join {names : List String} {target : Label} {first last : CompilerState}
    {result : Env ⊕ Word} (joined : branchUnlessTerminated target first = .ok ((), last))
    (inLast : last.module.code <+: module.code)
    (grown : Grown names first (state'.standAt target))
    (covers : Covers act.homes (state'.standAt target))
    (unused : ∀ entry ∈ state'.module.code, entry.block ≠ target)
    (included : state'.module.code <+: module.code)
    (ends : Ends module act visible first result machine) :
    ∃ after, Reaches (step module) machine after ∧
      Ends module act visible (state'.standAt target) result after := by
  cases result with
  | inr number => exact ⟨machine, .refl machine, ends⟩
  | inl env =>
      obtain ⟨slots, running⟩ := ends
      have known := running.known.grown grown covers
      obtain ⟨block, standing, rfl⟩ := join_open running.isOpen joined
      exact ⟨_, .of_step (step_br running.stands standing inLast), slots,
        running_at running.toPoised running.active known rfl unused included⟩

private theorem if_ok {test : Visit PyVal} {body : Visit Unit} {val : PyVal}
    (run : visitIf test body none state = .ok (val, state')) :
    ∃ label condition made opened tested chosen first last,
      Choosing test label (state.blockAfter label.func 0) (state.blockAfter label.func 1)
        (state.blockAfter label.func 2) condition state made opened tested chosen ∧
      made = ((state.appendBlock label.func).appendBlock label.func).appendBlock label.func ∧
      body (chosen.standAt (state.blockAfter label.func 1)) = .ok ((), first) ∧
      branchUnlessTerminated (state.blockAfter label.func 2) first = .ok ((), last) ∧
      state' = last.standAt (state.blockAfter label.func 2) := by
  simp only [visitIf, positionAtEnd, bind_ok_iff, appendBlock_ok_iff, modify_ok_iff,
    pure_ok_iff] at run
  obtain ⟨func, _, current, _, _, ⟨rfl, rfl⟩, _, _, ⟨rfl, rfl⟩, _, _, ⟨rfl, rfl⟩, _,
    opened, entered, _, _, rfl, condition, tested, testRun, _, chosen, chose, _, _, rfl,
    _, first, bodyRun, _, last, joined, _, _, rfl, -, rfl⟩ := run
  obtain ⟨label, standing, rfl, rfl⟩ := currentFunction_ok current
  exact ⟨label, condition,
    ((state.appendBlock label.func).appendBlock label.func).appendBlock label.func,
    opened, tested, chosen, first, last, ⟨standing, ⟨List.prefix_rfl, rfl, rfl, rfl, rfl⟩, rfl,
    entered, testRun, chose⟩, rfl, bodyRun, joined, rfl⟩

section

variable {names : List String} {flow : Flow} {test : Visit PyVal} {body : Visit Unit}
  {ranTest : Env → Ran Bool} {ranBody : Env → Ran (Env ⊕ Word)}
  {made opened tested chosen first last : CompilerState} {label : Label} {condition : PyVal}
  (isHomes : Homes module act.homes) (silent : ∀ base, Keeps (Undisturbed base) test)
  (straight : ∀ base, Keeps (Straight 0 base) test) (lays : Lays flow body)
  (computes : ∀ env slots, Computes module fuel act.homes act.globals visible
    act.memory.nextStack env slots test .i1 .i1 (ranTest env))
  (executes : Executes module act fuel visible visible names body ranBody)

structure OneArmed (module : Compiler.Module) (act : Activation) (visible names : List String)
    (arm exit : Label) (opened chosen first last : CompilerState) : Prop where
  inOpened : opened.module.code <+: module.code
  inChosen : chosen.module.code <+: module.code
  inFirst : first.module.code <+: module.code
  coversTest : Covers act.homes opened
  coversFirst : Covers act.homes first
  fresh : Fresh names (chosen.standAt arm)
  tidy : (chosen.standAt arm).Tidy
  knownArm : Scoped act.homes act.globals visible (chosen.standAt arm)
  knownExit : Scoped act.homes act.globals visible (last.standAt exit)
  unusedArm : ∀ entry ∈ chosen.module.code, entry.block ≠ arm
  unusedExit : ∀ entry ∈ last.module.code, entry.block ≠ exit

include silent in
theorem Choosing.entering {header second : Label} {arm : Label}
    (choosing : Choosing test label header arm second condition state made opened tested chosen) :
    Grown [] state (chosen.standAt arm) := by
  obtain ⟨toTest, same, toChoice⟩ := choosing.grown silent
  exact (toTest.trans same.grown).trans (toChoice.moved arm)

include silent straight lays in
private theorem oneArmed_of_runs {onward : Label}
    (choosing : Choosing test label (state.blockAfter label.func 0) (state.blockAfter label.func 1)
      (state.blockAfter label.func 2) condition state
      (((state.appendBlock label.func).appendBlock label.func).appendBlock label.func)
      opened tested chosen)
    (bodyRun : body (chosen.standAt (state.blockAfter label.func 1)) = .ok ((), first))
    (joined : branchUnlessTerminated onward first = .ok ((), last))
    (grown : Grown names (chosen.standAt (state.blockAfter label.func 1)) first)
    (included : last.module.code <+: module.code) (covers : Covers act.homes last)
    (fresh : Fresh names state) (tidy : state.Tidy)
    (known : Scoped act.homes act.globals visible state) :
    OneArmed module act visible names (state.blockAfter label.func 1)
      (state.blockAfter label.func 2) opened chosen first last := by
  obtain ⟨toTest, same, toChoice⟩ := choosing.grown silent
  have toArm := toChoice.moved (state.blockAfter label.func 1)
  have entering := choosing.entering silent
  have toExit := (grown_join joined).moved (state.blockAfter label.func 2)
  obtain ⟨front, added, tail, isTested, segment, isOpen, isJoined⟩ := segments_of_runs tidy
    choosing.standing straight lays choosing.entered choosing.testRun choosing.chose bodyRun joined
  have inFirst : first.module.code <+: module.code := toExit.code.trans included
  have inChosen : chosen.module.code <+: module.code := grown.code.trans inFirst
  have freshArm : Fresh names (chosen.standAt (state.blockAfter label.func 1)) :=
    @Fresh.right [] names _ _ fresh entering
  have coversFirst : Covers act.homes first := covers.before (grown_join joined) (.nil _)
  have coversArm := coversFirst.before grown freshArm
  have coversHeader := (coversArm.before toArm (.nil _)).before same.grown (.nil _)
  have knownArm := known.grown entering coversArm
  have blocks := isTested.blocks
  refine
    { inOpened := same.code.trans (toArm.code.trans inChosen), inChosen, inFirst
      coversTest := coversHeader, coversFirst
      fresh := freshArm, tidy := ?_, knownArm
      knownExit := (knownArm.grown grown coversFirst).grown toExit covers
      unusedArm := ?_, unusedExit := ?_ }
  · apply (isTested.arm tidy _ _).1
    · rw [blockAfter_index]; omega
    · rw [blockAfter_index]; omega
  · intro entry member equal
    have index := isTested.index tidy entry member
    rw [equal, blockAfter_index] at index
    omega
  · intro entry member equal
    rw [isJoined.code, segment.code, List.append_assoc] at member
    rcases List.mem_append.mp member with earlier | inArm
    · have index := isTested.index tidy entry earlier
      rw [equal, blockAfter_index] at index
      omega
    · have index := segment.index isJoined entry inArm
      rw [equal, blockAfter_index, blockAfter_index] at index
      omega

include isHomes silent straight lays computes executes

private theorem executes_if :
    Executes module act fuel visible visible names (visitIf test body none)
    fun env => ranTest env >>= fun holds => if holds then ranBody env else .done (.inl env) := by
  intro state val state' run int
  obtain ⟨label, condition, made, opened, tested, chosen, first, last, choosing, rfl, bodyRun,
    joined, rfl⟩ := if_ok run
  have entering := choosing.entering silent
  obtain ⟨grown, tracks⟩ := executes _ _ _ bodyRun (by rw [entering.types]; exact int)
  have toExit := (grown_join joined).moved (state.blockAfter label.func 2)
  refine ⟨(entering.trans grown).after toExit,
    fun included covers fresh tidy env slots machine running => ?_⟩
  have armed := oneArmed_of_runs silent straight lays choosing bodyRun joined grown included covers
    fresh tidy running.known
  obtain ⟨stepped, inTest⟩ := choosing.enters silent tidy (Nat.le_refl _) armed.coversTest
    armed.inOpened running
  apply Tracks.of_reaches (.of_step stepped)
  refine (choosing.tracks isHomes silent computes armed.inChosen inTest).bind
    fun holds after atChoice => ?_
  obtain ⟨stepped, poised, active⟩ := atChoice
  apply Tracks.of_reaches (.of_step stepped)
  cases holds with
  | true =>
      have inArm := running_at poised active armed.knownArm rfl armed.unusedArm armed.inChosen
      have body := tracks armed.inFirst armed.coversFirst armed.fresh armed.tidy env slots _ inArm
      exact body.advance fun result after ends =>
        ends_join joined included toExit covers armed.unusedExit included ends
  | false =>
      exact .done ⟨slots, running_at poised active armed.knownExit rfl armed.unusedExit included⟩

end

/-! ### Two arms -/

section

variable {front back laterBody laterElse whole : List String} {bodyFlow elseFlow : Flow}
  {test : Visit PyVal} {body orelse : Visit Unit} {ranTest : Env → Ran Bool}
  {ranBody ranElse : Env → Ran (Env ⊕ Word)}

private theorem ifElse_ok {val : PyVal}
    (run : visitIf test body (some orelse) state = .ok (val, state')) :
    ∃ label condition made opened tested chosen first joined second last,
      Choosing test label (state.blockAfter label.func 0) (state.blockAfter label.func 1)
        (state.blockAfter label.func 2) condition state made opened tested chosen ∧
      made = (((state.appendBlock label.func).appendBlock label.func).appendBlock
        label.func).appendBlock label.func ∧
      body (chosen.standAt (state.blockAfter label.func 1)) = .ok ((), first) ∧
      branchUnlessTerminated (state.blockAfter label.func 3) first = .ok ((), joined) ∧
      orelse (joined.standAt (state.blockAfter label.func 2)) = .ok ((), second) ∧
      branchUnlessTerminated (state.blockAfter label.func 3) second = .ok ((), last) ∧
      state' = last.standAt (state.blockAfter label.func 3) := by
  simp only [visitIf, positionAtEnd, bind_ok_iff, appendBlock_ok_iff, modify_ok_iff,
    pure_ok_iff] at run
  obtain ⟨func, _, current, _, _, ⟨rfl, rfl⟩, _, _, ⟨rfl, rfl⟩, _, _, ⟨rfl, rfl⟩, _, _,
    ⟨rfl, rfl⟩, _, opened, entered, _, _, rfl, condition, tested, testRun, _, chosen,
    chose, _, _, rfl, _, first, bodyRun, _, joined, firstJoined, _, _, rfl, _, second,
    elseRun, _, last, secondJoined, _, _, rfl, -, rfl⟩ := run
  obtain ⟨label, standing, rfl, rfl⟩ := currentFunction_ok current
  exact ⟨label, condition,
    (((state.appendBlock label.func).appendBlock label.func).appendBlock label.func).appendBlock
      label.func,
    opened, tested, chosen, first, joined, second, last,
    ⟨standing, ⟨List.prefix_rfl, rfl, rfl, rfl, rfl⟩, rfl, entered, testRun, chose⟩, rfl, bodyRun,
    firstJoined, elseRun, secondJoined, rfl⟩

structure TwoArmed (first second exit : Label) (chosen joined last : CompilerState) : Prop where
  tidyFirst : (chosen.standAt first).Tidy
  tidySecond : (joined.standAt second).Tidy
  unusedFirst : ∀ entry ∈ chosen.module.code, entry.block ≠ first
  unusedSecond : ∀ entry ∈ joined.module.code, entry.block ≠ second
  unusedExit : ∀ entry ∈ last.module.code, entry.block ≠ exit

private theorem twoArmed_of_runs
    {made opened tested chosen first joined second last : CompilerState}
    {label : Label} {condition : PyVal} (straight : ∀ base, Keeps (Straight 0 base) test)
    (laysBody : Lays bodyFlow body) (laysElse : Lays elseFlow orelse)
    (choosing : Choosing test label (state.blockAfter label.func 0) (state.blockAfter label.func 1)
      (state.blockAfter label.func 2) condition state made opened tested chosen)
    (isMade : made = (((state.appendBlock label.func).appendBlock label.func).appendBlock
      label.func).appendBlock label.func)
    (bodyRun : body (chosen.standAt (state.blockAfter label.func 1)) = .ok ((), first))
    (firstJoined : branchUnlessTerminated (state.blockAfter label.func 3) first = .ok ((), joined))
    (elseRun : orelse (joined.standAt (state.blockAfter label.func 2)) = .ok ((), second))
    (secondJoined : branchUnlessTerminated (state.blockAfter label.func 3) second = .ok ((), last))
    (tidy : state.Tidy) :
    TwoArmed (state.blockAfter label.func 1) (state.blockAfter label.func 2)
      (state.blockAfter label.func 3) chosen joined last := by
  subst isMade
  obtain ⟨front, isTested⟩ :
      ∃ front, Tested 4 label (state.blockAfter label.func 0) (state.blockAfter label.func 1)
        (state.blockAfter label.func 2) state chosen front := by
    apply tested_of_runs straight choosing.standing _ _ _ _ choosing.entered choosing.testRun
      choosing.chose
    all_goals rfl
  have arm : (chosen.standAt (state.blockAfter label.func 1)).Tidy ∧
      (chosen.standAt (state.blockAfter label.func 1)).IsOpen := by
    apply isTested.arm tidy
    · rw [blockAfter_index]; omega
    · rw [blockAfter_index]; omega
  obtain ⟨added, left⟩ := laysBody _ _ _ arm.1 bodyRun
  obtain ⟨tail, leftJoined⟩ := joined_of_run firstJoined
  have elseArm := second_arm tidy isTested left leftJoined
  obtain ⟨others, right⟩ := laysElse _ _ _ elseArm.1 elseRun
  obtain ⟨finish, rightJoined⟩ := joined_of_run secondJoined
  have blocks := isTested.blocks
  have more : chosen.module.blockCount ≤ first.module.blockCount := left.blocks
  have joinedBlocks := leftJoined.blocks
  have inFront (entry : Emitted) (member : entry ∈ joined.module.code) :
      entry.block.index ≤ state.module.blockCount + 1 ∨
        state.module.blockCount + 4 ≤ entry.block.index := by
    rw [leftJoined.code, left.code, List.append_assoc] at member
    rcases List.mem_append.mp member with earlier | inArm
    · have index := isTested.index tidy entry earlier
      omega
    · have index := left.index leftJoined entry inArm
      rw [blockAfter_index] at index
      omega
  refine ⟨arm.1, elseArm.1, ?_, ?_, ?_⟩
  · intro entry member equal
    have index := isTested.index tidy entry member
    rw [equal, blockAfter_index] at index
    omega
  · intro entry member equal
    have index := inFront entry member
    rw [equal, blockAfter_index] at index
    omega
  · intro entry member equal
    rw [rightJoined.code, right.code, List.append_assoc] at member
    rcases List.mem_append.mp member with earlier | inArm
    · have index := inFront entry earlier
      rw [equal, blockAfter_index] at index
      omega
    · have index := right.index rightJoined entry inArm
      rw [equal, blockAfter_index, blockAfter_index] at index
      omega

private theorem executes_ifElse (isHomes : Homes module act.homes)
    (silent : ∀ base, Keeps (Undisturbed base) test)
    (straight : ∀ base, Keeps (Straight 0 base) test) (laysBody : Lays bodyFlow body)
    (laysElse : Lays elseFlow orelse)
    (computes : ∀ env slots, Computes module fuel act.homes act.globals visible
      act.memory.nextStack env slots test .i1 .i1 (ranTest env))
    (executesBody : Executes module act fuel visible laterBody front body ranBody)
    (executesElse : Executes module act fuel visible laterElse back orelse ranElse)
    (bodyGoesOn : ∀ env env', ranBody env = .done (.inl env') → ∀ name ∈ whole, name ∈ laterBody)
    (elseGoesOn : ∀ env env', ranElse env = .done (.inl env') → ∀ name ∈ whole, name ∈ laterElse) :
    Executes module act fuel visible whole (front ++ back) (visitIf test body (some orelse))
      fun env => ranTest env >>= fun holds => if holds then ranBody env else ranElse env := by
  intro state val state' run int
  obtain ⟨label, condition, made, opened, tested, chosen, first, joined, second, last, choosing,
    isMade, bodyRun, firstJoined, elseRun, secondJoined, rfl⟩ := ifElse_ok run
  obtain ⟨toTest, same, toChoice⟩ := choosing.grown silent
  have entering := choosing.entering silent
  obtain ⟨grown, tracks⟩ := executesBody _ _ _ bodyRun (by rw [entering.types]; exact int)
  have between := (grown_join firstJoined).moved (state.blockAfter label.func 2)
  have toElse := (entering.trans grown).after between
  obtain ⟨grown', tracks'⟩ := executesElse _ _ _ elseRun (by rw [toElse.types]; exact int)
  have toExit := (grown_join secondJoined).moved (state.blockAfter label.func 3)
  refine ⟨(toElse.trans grown').after toExit,
    fun included covers fresh tidy env slots machine running => ?_⟩
  have armed := twoArmed_of_runs straight laysBody laysElse choosing isMade bodyRun firstJoined
    elseRun secondJoined tidy
  have inSecond : second.module.code <+: module.code := toExit.code.trans included
  have inJoined : joined.module.code <+: module.code := grown'.code.trans inSecond
  have inFirst : first.module.code <+: module.code := between.code.trans inJoined
  have inChosen : chosen.module.code <+: module.code := grown.code.trans inFirst
  have inOpened : opened.module.code <+: module.code :=
    same.code.trans (toChoice.code.trans inChosen)
  have freshElse : Fresh back (joined.standAt (state.blockAfter label.func 2)) := fresh.right toElse
  have freshBody : Fresh front (chosen.standAt (state.blockAfter label.func 1)) :=
    @Fresh.right [] front _ _ fresh.left entering
  have coversSecond : Covers act.homes second := covers.before toExit (.nil _)
  have coversElse := coversSecond.before grown' freshElse
  have coversFirst : Covers act.homes first := coversElse.before between (.nil _)
  have coversBody := coversFirst.before grown freshBody
  have coversTested : Covers act.homes tested :=
    coversBody.before (toChoice.moved (state.blockAfter label.func 1)) (.nil _)
  have coversTest := coversTested.before same.grown (.nil _)
  have knownBody := running.known.grown entering coversBody
  have knownElse := running.known.grown toElse coversElse
  obtain ⟨stepped, inTest⟩ := choosing.enters silent tidy (Nat.le_refl _) coversTest inOpened running
  apply Tracks.of_reaches (.of_step stepped)
  refine (choosing.tracks isHomes silent computes inChosen inTest).bind fun holds after atChoice => ?_
  obtain ⟨stepped, poised, active⟩ := atChoice
  apply Tracks.of_reaches (.of_step stepped)
  cases holds with
  | true =>
      have inArm := running_at poised active knownBody rfl armed.unusedFirst inChosen
      have body := tracks inFirst coversFirst freshBody armed.tidyFirst env slots _ inArm
      refine body.known.advance fun result after ends => ?_
      obtain ⟨isRan, ends⟩ := ends
      have arm := ends.weaken fun env' same => bodyGoesOn env env' (isRan.trans (by rw [same]))
      exact ends_join firstJoined inJoined ((between.trans grown').after toExit) covers
        armed.unusedExit included arm
  | false =>
      have inArm := running_at poised active knownElse rfl armed.unusedSecond inJoined
      have orelse := tracks' inSecond coversSecond freshElse armed.tidySecond env slots _ inArm
      refine orelse.known.advance fun result after ends => ?_
      obtain ⟨isRan, ends⟩ := ends
      have arm := ends.weaken fun env' same => elseGoesOn env env' (isRan.trans (by rw [same]))
      exact ends_join secondJoined included toExit covers armed.unusedExit included arm

end

section

variable {names : List String} {flow : Flow} {test : Visit PyVal} {body : Visit Unit}
  {ranTest : Env → Ran Bool} {ranBody : Env → Ran (Env ⊕ Word)}

private theorem while_ok {val : PyVal} (run : visitWhile test body state = .ok (val, state')) :
    ∃ label condition made opened tested chosen first last,
      Choosing test label (state.blockAfter label.func 0) (state.blockAfter label.func 1)
        (state.blockAfter label.func 2) condition state made opened tested chosen ∧
      made = ((state.appendBlock label.func).appendBlock label.func).appendBlock label.func ∧
      body (chosen.standAt (state.blockAfter label.func 1)) = .ok ((), first) ∧
      branchUnlessTerminated (state.blockAfter label.func 0) first = .ok ((), last) ∧
      state' = last.standAt (state.blockAfter label.func 2) := by
  simp only [visitWhile, positionAtEnd, bind_ok_iff, appendBlock_ok_iff, modify_ok_iff,
    pure_ok_iff] at run
  obtain ⟨func, _, current, _, _, ⟨rfl, rfl⟩, _, _, ⟨rfl, rfl⟩, _, _, ⟨rfl, rfl⟩, _,
    opened, entered, _, _, rfl, condition, tested, testRun, _, chosen, chose, _, _, rfl,
    _, first, bodyRun, _, last, joined, _, _, rfl, -, rfl⟩ := run
  obtain ⟨label, standing, rfl, rfl⟩ := currentFunction_ok current
  exact ⟨label, condition,
    ((state.appendBlock label.func).appendBlock label.func).appendBlock label.func,
    opened, tested, chosen, first, last, ⟨standing, ⟨List.prefix_rfl, rfl, rfl, rfl, rfl⟩, rfl,
    entered, testRun, chose⟩, rfl, bodyRun, joined, rfl⟩

/-- The invariant is that the machine stands at the test with the values of the
variables. -/
theorem executes_while (isHomes : Homes module act.homes)
    (silent : ∀ base, Keeps (Undisturbed base) test)
    (straight : ∀ base, Keeps (Straight 0 base) test) (lays : Lays flow body)
    (computes : ∀ env slots, Computes module fuel act.homes act.globals visible
      act.memory.nextStack env slots test .i1 .i1 (ranTest env))
    (executes : Executes module act fuel visible visible names body ranBody) :
    Executes module act fuel visible visible names (visitWhile test body)
      fun env => iterate ranTest ranBody fuel env := by
  intro state val state' run int
  obtain ⟨label, condition, made, opened, tested, chosen, first, last, choosing, rfl, bodyRun,
    joined, rfl⟩ := while_ok run
  have entering := choosing.entering silent
  obtain ⟨grown, tracks⟩ := executes _ _ _ bodyRun (by rw [entering.types]; exact int)
  have toExit := (grown_join joined).moved (state.blockAfter label.func 2)
  refine ⟨(entering.trans grown).after toExit,
    fun included covers fresh tidy env slots machine running => ?_⟩
  have armed := oneArmed_of_runs silent straight lays choosing bodyRun joined grown included covers
    fresh tidy running.known
  obtain ⟨stepped, inTest⟩ := choosing.enters silent tidy (Nat.le_refl _) armed.coversTest
    armed.inOpened running
  apply Tracks.of_step stepped
  refine Tracks.iterate
    (fun env machine => ∃ slots, Running module act visible env slots
      (opened.standAt (state.blockAfter label.func 0)) machine)
    (fun env machine => ∃ slots, Running module act visible env slots
      (chosen.standAt (state.blockAfter label.func 1)) machine)
    ?_ ?_ (Nat.le_refl fuel) ⟨slots, inTest⟩
  · intro env machine standing
    obtain ⟨slots, running⟩ := standing
    have tests := choosing.tracks isHomes silent computes armed.inChosen running
    refine (tests.mono (Nat.le_succ fuel)).advance fun holds after atChoice => ?_
    obtain ⟨stepped, poised, active⟩ := atChoice
    cases holds with
    | true =>
        refine ⟨after, .refl after, ?_⟩
        rw [if_pos rfl]
        exact ⟨_, stepped, slots,
          running_at poised active armed.knownArm rfl armed.unusedArm armed.inChosen⟩
    | false =>
        refine ⟨_, .of_step stepped, ?_⟩
        rw [if_neg Bool.false_ne_true]
        exact ⟨slots, running_at poised active armed.knownExit rfl armed.unusedExit included⟩
  · intro env machine standing
    obtain ⟨slots, running⟩ := standing
    have body := tracks armed.inFirst armed.coversFirst armed.fresh armed.tidy env slots machine
      running
    refine (body.mono (Nat.le_succ fuel)).weaken fun result after ends => ?_
    cases result with
    | inr number => exact ends
    | inl env =>
        -- the branch leads back to the test, which is code that was there before
        obtain ⟨slots, running⟩ := ends
        obtain ⟨block, standing, rfl⟩ := join_open running.isOpen joined
        exact ⟨_, .of_step (step_br running.stands standing included), slots,
          running_jump running.toPoised running.active inTest.known inTest.isOpen
            ⟨rfl, inTest.stands.code⟩⟩

end

section

variable {functions : List String} {calls : String → List Word → Ran Word}

private theorem silent_test {node : Node} (expression : isExpression node = true)
    (base : CompilerState) :
    Keeps (Undisturbed base) (visit node) :=
  keeps_expression (quiet_undisturbed base) node expression

theorem Executes.congr {later names : List String} {α : Type} {compile : Visit α}
    {ran other : Env → Ran (Env ⊕ Word)}
    (executes : Executes module act fuel visible later names compile ran)
    (same : ∀ env, other env = ran env) :
    Executes module act fuel visible later names compile other := by
  have equal : other = ran := funext same
  rw [equal]
  exact executes

private theorem introduced_body {test : Node} {body orelse : List Node}
    (falls : fallsThroughAll body = true) :
    ∀ name ∈ introduces (.ifStmt test body orelse) ++ visible,
      name ∈ introducesAll body ++ visible := by
  intro name member
  rw [introduces, if_pos falls, List.append_nil] at member
  split at member
  · exact List.mem_append_right _ member
  · exact member

private theorem introduced_else {test : Node} {body orelse : List Node}
    (falls : fallsThroughAll orelse = true) :
    ∀ name ∈ introduces (.ifStmt test body orelse) ++ visible,
      name ∈ introducesAll orelse ++ visible := by
  intro name member
  rw [introduces, if_pos falls, List.nil_append] at member
  split at member
  · exact List.mem_append_right _ member
  · exact member

mutual

private theorem executes_stmt (isHomes : Homes module act.homes)
    (linked : Linked module calls fuel functions act.globals)
    (visible : List String) (node : Node)
    (int : isIntStmt functions visible node = true) :
    Executes module act fuel visible (introduces node ++ visible) (declares node) (visit node)
      (exec calls fuel node) := by
  match node, int with
  | .annAssign target annotation (some value), int =>
      obtain ⟨⟨id, rfl⟩, rfl, int⟩ := isInt_of_initial int
      exact (executes_initial isHomes (isExpression_of_isInt value int)
        (fun env env' same => evalInt_congr same value int)
        fun env slots => computes_int isHomes linked value int).congr fun env => by rw [exec]
  | .annAssign (.name id) annotation none, isDeclared =>
      rw [isIntStmt] at isDeclared
      obtain ⟨fresh, isDeclared⟩ := Option.isSome_iff_exists.mp isDeclared
      refine (executes_declaration isHomes isDeclared).congr fun env => ?_
      rw [exec, isDeclared]
  | .assign (.name id) [] value, both =>
      exact (executes_assignName isHomes (List.contains_iff_mem.mp (and_left both))
        (isExpression_of_isInt value (and_right both))
        fun env slots => computes_int isHomes linked value (and_right both)).congr
          fun env => by rw [exec]
  | .assign (.subscript (.name id) slice) [] value, both =>
      have slices := and_right (and_left both)
      exact (executes_assignSubscript isHomes
        (List.contains_iff_mem.mp (and_left (and_left both)))
        ⟨isExpression_of_isInt slice slices, isExpression_of_isInt value (and_right both)⟩
        (fun env slots => computes_int isHomes linked slice slices)
        fun env slots => computes_int isHomes linked value (and_right both)).congr
          fun env => by rw [exec]
  | .ifStmt test body [], both =>
      have tests := and_left (and_left both)
      have expression := isExpression_of_isTest test tests
      have bodies := and_right (and_left both)
      have arm := executes_all isHomes linked visible body bodies
      have nothing : introduces (.ifStmt test body []) = [] := by
        rw [introduces, fallsThroughAll, if_pos rfl, introducesAll, ite_self]
        rfl
      rw [nothing, declares, declaresAll, List.append_nil]
      exact (executes_if isHomes (silent_test expression) (silent_expression expression)
        (lays_visitBody body (areWellFormed_of_areIntStmts body bodies))
        (fun env slots => computes_test isHomes linked test tests)
        (arm.weaken fun name => List.mem_append_right _)).congr
          fun env => by rw [exec, execAll]
  | .ifStmt test body (stmt :: orelse), both =>
      have tests := and_left (and_left both)
      have expression := isExpression_of_isTest test tests
      have bodies := and_right (and_left both)
      have arm := executes_all isHomes linked visible body bodies
      have other := executes_all isHomes linked visible (stmt :: orelse) (and_right both)
      exact (executes_ifElse isHomes (silent_test expression) (silent_expression expression)
        (lays_visitBody body (areWellFormed_of_areIntStmts body bodies))
        (lays_visitBody (stmt :: orelse) (areWellFormed_of_areIntStmts _ (and_right both)))
        (fun env slots => computes_test isHomes linked test tests) arm other
        (fun _ _ ran => introduced_body (fallsThroughAll_of_exec body ran))
        (fun _ _ ran => introduced_else (fallsThroughAll_of_exec (stmt :: orelse) ran))).congr
          fun env => by rw [exec]
  | .whileStmt test body [], both =>
      have tests := and_left both
      have expression := isExpression_of_isTest test tests
      have arm := executes_all isHomes linked visible body (and_right both)
      exact (executes_while isHomes (silent_test expression) (silent_expression expression)
        (lays_visitBody body (areWellFormed_of_areIntStmts body (and_right both)))
        (fun env slots => computes_test isHomes linked test tests)
        (arm.weaken fun name => List.mem_append_right _)).congr fun env => by rw [exec]
  | .return_ (some value), int =>
      exact (executes_return (isExpression_of_isInt value int)
        fun env slots => computes_int isHomes linked value int).congr fun env => by rw [exec]
  | .expr value, int =>
      exact (executes_expr isHomes (isExpression_of_isInt value int)
        fun env slots => computes_int isHomes linked value int).congr fun env => by rw [exec]
  | .pass, _ => exact executes_pass.congr fun env => by rw [exec]

theorem executes_all (isHomes : Homes module act.homes)
    (linked : Linked module calls fuel functions act.globals)
    (visible : List String) (stmts : List Node)
    (ints : areIntStmts functions visible stmts = true) :
    Executes module act fuel visible (introducesAll stmts ++ visible) (declaresAll stmts)
      (visitBody stmts) (execAll calls fuel stmts) := by
  match stmts, ints with
  | [], _ => exact executes_nil.congr fun env => by rw [execAll]
  | stmt :: rest, both =>
      have first := executes_stmt isHomes linked visible stmt (and_left both)
      have second := executes_all isHomes linked (visibleAfter visible stmt rest) rest
        (and_right both)
      have formed := isWellFormed_of_isIntStmt stmt (and_left both)
      refine (executes_cons (lays_visit stmt formed) first second fun env env' ran => ?_).congr
        fun env => ?_
      · rw [visibleAfter, if_pos (fallsThrough_of_exec stmt ran), introducesAll, List.append_assoc]
        exact ⟨fun _ => id, fun _ => id⟩
      rw [execAll]
      congr 1
      funext result
      cases result <;> rfl

end

end

end Lambpie.Integers

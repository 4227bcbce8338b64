/-
How often an activation allocates a stack slot.

While an activation is on the stack, its frame stays in its block, with less
and less code left, or moves on along a branch.  So an instruction of a block
on no cycle is executed at most once.
-/
import Lambpie.Compiler.SlotCycles
import Lambpie.Compiler.Dropped
import Lambpie.Machine.EventLoop
import Lambpie.Machine.StepCases

namespace Lambpie.Machine

open Foundations
open Lambpie.Compiler
open Relation

variable {module : Module} {state state' : MachineState}

private theorem block_increasing (module : Module) (label : Label) :
    (module.block label).Pairwise fun first second => first.1 < second.1 := by
  unfold Module.block
  rw [List.pairwise_map]
  have ordered : module.code.zipIdx.Pairwise fun first second => first.2 < second.2 := by
    apply List.pairwise_map.mp
    rw [List.zipIdx_map_snd]
    exact List.pairwise_lt_range'
  exact ordered.sublist List.filter_sublist

private theorem getElem_of_mem_block {label : Label} {id : Nat} {instr : Instr}
    (member : (id, instr) ∈ module.block label) :
    module.code[id]? = some { block := label, instr } := by
  unfold Module.block at member
  obtain ⟨⟨entry, index⟩, inBlock, same⟩ := List.mem_map.mp member
  obtain ⟨inCode, isLabel⟩ := List.mem_filter.mp inBlock
  cases same
  have found := List.mem_zipIdx_iff_getElem?.mp inCode
  rw [found, ← of_decide_eq_true isLabel]

def MachineState.depth (state : MachineState) : Nat := state.callers.length

def MachineState.frameAt (state : MachineState) (depth : Nat) : Option Frame :=
  (state.frame :: state.callers).reverse[depth]?

/-- A step during which the activation stays on the stack. -/
def Within (module : Module) (depth : Nat) (state state' : MachineState) : Prop :=
  step module state = .next state' ∧ depth ≤ state.depth ∧ depth ≤ state'.depth

private theorem frameAt_depth (state : MachineState) :
    state.frameAt state.depth = some state.frame := by
  unfold MachineState.frameAt MachineState.depth
  rw [List.reverse_cons, List.getElem?_append_right (List.length_reverse.le),
    List.length_reverse, Nat.sub_self]
  rfl

private theorem frameAt_below {depth : Nat} (below : depth < state.depth) :
    state.frameAt depth = state.callers.reverse[depth]? := by
  unfold MachineState.frameAt
  rw [List.reverse_cons, List.getElem?_append_left (by rw [List.length_reverse]; exact below)]

/-- The frame goes on in its block or along a branch. -/
def Onward (module : Module) (code : List (Nat × Instr)) (first second : Frame) : Prop :=
  (second.block = first.block ∧ second.code <:+ code) ∨
    TransGen module.Branches first.block second.block

theorem Onward.trans {code : List (Nat × Instr)} {first second third : Frame}
    (front : Onward module code first second)
    (back : Onward module second.code second third) : Onward module code first third := by
  rcases front with ⟨same, fewer⟩ | way
  · rcases back with ⟨same', fewer'⟩ | way
    · exact .inl ⟨same'.trans same, fewer'.trans fewer⟩
    · exact .inr (same ▸ way)
  · rcases back with ⟨same, -⟩ | way'
    · exact .inr (same ▸ way)
    · exact .inr (way.trans way')

theorem step_frame (placed : Placed module state)
    (within : Within module state.depth state state') :
    ∃ frame, state'.frameAt state.depth = some frame ∧
      Onward module state.frame.code.tail state.frame frame := by
  obtain ⟨stepped, -, stays⟩ := within
  obtain ⟨id, instr, code, pending, returned | run⟩ := step_next_cases stepped
  · obtain ⟨value, returned⟩ := returned
    obtain ⟨caller, callers, waiting, rfl⟩ := returnFrom_next returned
    have waiting : state.callers = caller :: callers := waiting
    unfold MachineState.depth at stays
    rw [waiting] at stays
    exact absurd stays (Nat.not_succ_le_self _)
  · have rest : state.frame.code.tail = code := by rw [pending]; rfl
    rw [rest]
    cases effect_of_execute run with
    | result value asked noCall => exact ⟨_, frameAt_depth _, .inl ⟨rfl, List.suffix_rfl⟩⟩
    | slot type => exact ⟨_, frameAt_depth _, .inl ⟨rfl, List.suffix_rfl⟩⟩
    | stored value ptr memory run => exact ⟨_, frameAt_depth _, .inl ⟨rfl, List.suffix_rfl⟩⟩
    | jumped target noCall leads =>
        refine ⟨_, frameAt_depth _, .inr (.single ?_)⟩
        exact ⟨_, placed.frame.mem_code pending, rfl, leads⟩
    | entered index args func entry found defined =>
        refine ⟨(state.fetched code).frame, ?_, .inl ⟨rfl, List.suffix_rfl⟩⟩
        rw [frameAt_below (Nat.lt_succ_self _)]
        exact frameAt_depth (state.fetched code)
    | called index args func result value memory asked found declared run =>
        exact ⟨_, frameAt_depth _, .inl ⟨rfl, List.suffix_rfl⟩⟩

/-- What a step makes of a frame that waits. -/
theorem step_caller {depth : Nat} {frame : Frame} (within : Within module depth state state')
    (below : depth < state.depth) (found : state.frameAt depth = some frame) :
    ∃ frame', state'.frameAt depth = some frame' ∧
      Onward module frame.code frame frame' := by
  obtain ⟨stepped, -, stays⟩ := within
  obtain ⟨id, instr, code, pending, returned | run⟩ := step_next_cases stepped
  · obtain ⟨value, returned⟩ := returned
    obtain ⟨caller, callers, waiting, rfl⟩ := returnFrom_next returned
    have waiting : state.callers = caller :: callers := waiting
    rw [frameAt_below below, waiting] at found
    rcases Nat.lt_or_eq_of_le stays with deeper | top
    · refine ⟨frame, ?_, .inl ⟨rfl, List.suffix_rfl⟩⟩
      rw [frameAt_below deeper]
      rwa [List.reverse_cons, List.getElem?_append_left
        (by rw [List.length_reverse]; exact deeper)] at found
    · have same : depth = callers.length := top
      subst same
      have isCaller : caller = frame :=
        Option.some.inj ((frameAt_depth { state with frame := caller, callers }).symm.trans found)
      subst isCaller
      exact ⟨_, frameAt_depth _, .inl ⟨rfl, List.suffix_rfl⟩⟩
  · have kept (frame' : Frame) (memory : Memory) :
        MachineState.frameAt { frame := frame', callers := state.callers, memory } depth =
          some frame := by
      rw [frameAt_below below] at found
      exact (@frameAt_below { frame := frame', callers := state.callers, memory } depth
        below).trans found
    cases effect_of_execute run with
    | result value asked noCall => exact ⟨frame, kept _ _, .inl ⟨rfl, List.suffix_rfl⟩⟩
    | slot type => exact ⟨frame, kept _ _, .inl ⟨rfl, List.suffix_rfl⟩⟩
    | stored value ptr memory run => exact ⟨frame, kept _ _, .inl ⟨rfl, List.suffix_rfl⟩⟩
    | jumped target noCall leads => exact ⟨frame, kept _ _, .inl ⟨rfl, List.suffix_rfl⟩⟩
    | entered index args func entry found' defined =>
        refine ⟨frame, ?_, .inl ⟨rfl, List.suffix_rfl⟩⟩
        rw [frameAt_below (Nat.lt_succ_of_lt below)]
        exact kept (state.fetched code).frame state.memory
    | called index args func result value memory asked found' declared run =>
        exact ⟨frame, kept _ _, .inl ⟨rfl, List.suffix_rfl⟩⟩

/-- What the steps after the next one make of the frame that runs. -/
theorem within_frame (placed : Placed module state)
    (steps : TransGen (Within module state.depth) state state') :
    Placed module state' ∧ ∃ frame, state'.frameAt state.depth = some frame ∧
      Onward module state.frame.code.tail state.frame frame := by
  induction steps with
  | single within => exact ⟨placed.step within.1, step_frame placed within⟩
  | @tail middle last _ within ih =>
      obtain ⟨placedMiddle, frame, found, front⟩ := ih
      refine ⟨placedMiddle.step within.1, ?_⟩
      rcases Nat.lt_or_eq_of_le within.2.1 with below | top
      · obtain ⟨frame', found', back⟩ := step_caller within below found
        exact ⟨frame', found', front.trans back⟩
      · rw [top] at within found ⊢
        cases (frameAt_depth middle).symm.trans found
        obtain ⟨frame', found', back⟩ := step_frame placedMiddle within
        refine ⟨frame', found', front.trans ?_⟩
        rcases back with ⟨same, fewer⟩ | way
        · exact .inl ⟨same, fewer.trans (List.tail_suffix _)⟩
        · exact .inr way

def MachineState.Executes (state : MachineState) (id : Nat) : Prop :=
  ∃ instr code, state.frame.code = (id, instr) :: code

/-- In every run of the module's functions, no activation executes the
instruction twice. -/
def OncePerCall (module : Module) (id : Nat) : Prop :=
  ∀ index args memory start first second, callState module index args memory = some start →
    Reaches (step module) start first → first.Executes id →
    TransGen (Within module first.depth) first second → second.depth = first.depth →
    ¬second.Executes id

private theorem oncePerCall_of_not_onCycle {id : Nat} {entry : Emitted}
    (found : module.code[id]? = some entry) (noCycle : ¬module.OnCycle entry.block) :
    OncePerCall module id := by
  rintro index args memory start first second called reached ⟨instr, code, pending⟩ steps same
    ⟨instr', code', pending'⟩
  have placed := (placed_callState called).reached reached
  have inFirst : (id, instr) ∈ module.block first.frame.block :=
    placed.frame.subset (by rw [pending]; exact List.mem_cons_self)
  obtain ⟨placedSecond, frame, isFrame, onward⟩ := within_frame placed steps
  rw [← same] at isFrame
  cases (frameAt_depth second).symm.trans isFrame
  have inSecond : (id, instr') ∈ module.block second.frame.block :=
    placedSecond.frame.subset (by rw [pending']; exact List.mem_cons_self)
  rcases onward with ⟨-, fewer⟩ | way
  · have increasing := (block_increasing module first.frame.block).sublist placed.frame.sublist
    rw [pending] at increasing fewer
    have again : (id, instr') ∈ code :=
      fewer.subset (by rw [pending']; exact List.mem_cons_self)
    exact Nat.lt_irrefl id (List.rel_of_pairwise_cons increasing again)
  · have blocks : first.frame.block = entry.block ∧ second.frame.block = entry.block := by
      have isFirst := (getElem_of_mem_block inFirst).symm.trans found
      have isSecond := (getElem_of_mem_block inSecond).symm.trans found
      cases isFirst
      exact ⟨rfl, congrArg Emitted.block (Option.some.inj isSecond)⟩
    rw [blocks.1, blocks.2] at way
    exact noCycle way

private theorem slots_found {slot : Nat × Label} (member : slot ∈ module.slots) :
    ∃ entry, module.code[slot.1]? = some entry ∧ entry.block = slot.2 := by
  obtain ⟨⟨entry, id⟩, inCode, rfl⟩ := List.mem_map.mp member
  exact ⟨entry, List.mem_zipIdx_iff_getElem?.mp (List.mem_filter.mp inCode).1, rfl⟩

/-- A slot is in a block on a cycle if a way through a loop passes its
declaration, and otherwise it is allocated at most once a call. -/
theorem slots_once {tree : List Node} {module : Module} (compiled : compile tree = .ok module)
    (formed : areWellFormed tree = true) :
    ∃ outLengths, List.Forall₂
      (fun slot repeats => (repeats = true ↔ module.OnCycle slot.2) ∧
        (repeats = false → OncePerCall module slot.1))
      module.slots (repeatedSlots tree ++ List.replicate outLengths false) := by
  obtain ⟨state, ran, rfl⟩ := compile_ok_iff.mp compiled
  obtain ⟨outLengths, slots⟩ := slots_onCycle_iff ran formed
  refine ⟨outLengths, ?_⟩
  rw [List.forall₂_iff_get] at slots ⊢
  refine ⟨slots.1, fun index inSlots inFlags => ?_⟩
  have cycle := slots.2 index inSlots inFlags
  refine ⟨cycle, fun once => ?_⟩
  obtain ⟨entry, found, block⟩ := slots_found (List.getElem_mem inSlots)
  apply oncePerCall_of_not_onCycle found
  rw [block]
  intro onCycle
  exact Bool.false_ne_true (once.symm.trans (cycle.mpr onCycle))

/-- `while n < 1: m: int = n`, in `handle`. -/
def loopProgram : List Node :=
  programWith [] [.whileStmt (.compare nameN [(.lt, one)])
    [.annAssign (.name "m") (.name "int") (some nameN)] []]

/-- The slot of `m` is repeated, and no other. -/
theorem slots_once_example :
    ∃ module, compileProgram loopProgram = .ok module ∧ ∃ outLengths, List.Forall₂
      (fun slot repeats => (repeats = true ↔ module.OnCycle slot.2) ∧
        (repeats = false → OncePerCall module slot.1))
      module.slots (repeatedSlots (builtins ++ loopProgram) ++ List.replicate outLengths false) := by
  obtain ⟨module, compiled, formed⟩ : ∃ module, compileProgram loopProgram = .ok module ∧
      areWellFormed (builtins ++ loopProgram) = true :=
    exists_compiled_of_check (by decide +kernel)
  exact ⟨module, compiled, slots_once compiled formed⟩

/-- The declaration in the loop is allocated in a block on a cycle. -/
theorem loop_slot_onCycle :
    ¬∀ tree module, compile tree = .ok module →
      ∀ slot ∈ module.slots, ¬module.OnCycle slot.2 := by
  obtain ⟨module, compiled, formed, repeats⟩ : ∃ module,
      compileProgram loopProgram = .ok module ∧
        areWellFormed (builtins ++ loopProgram) = true ∧
        true ∈ repeatedSlots (builtins ++ loopProgram) :=
    exists_compiled_of_check (by decide +kernel)
  intro never
  obtain ⟨state, ran, rfl⟩ := compile_ok_iff.mp compiled
  obtain ⟨outLengths, slots⟩ := slots_onCycle_iff ran formed
  obtain ⟨index, inFlags, isTrue⟩ :=
    List.getElem_of_mem (List.mem_append_left (List.replicate outLengths false) repeats)
  obtain ⟨lengths, cycles⟩ := List.forall₂_iff_get.mp slots
  have inSlots : index < state.module.slots.length := lengths ▸ inFlags
  have cycle := (cycles index inSlots inFlags).mp isTrue
  exact never _ _ compiled _ (List.getElem_mem inSlots) cycle

end Lambpie.Machine

/-
What one step of the machine can do.

An instruction leaves the frame in its block, jumps to the start of a block,
enters a function or returns to the caller.  In every case the code that a
frame still has to run is the end of its block.
-/
import Lambpie.Machine.Step

namespace Lambpie.Machine

open Foundations
open Lambpie.Compiler
open Lambpie.Runtime (Bytes)

variable {module : Module} {state state' : MachineState} {id : Nat} {instr : Instr}

@[simp] theorem Frame.assign_block (frame : Frame) (register : Nat) (value : RtVal) :
    (frame.assign register value).block = frame.block := rfl

@[simp] theorem Frame.assign_code (frame : Frame) (register : Nat) (value : RtVal) :
    (frame.assign register value).code = frame.code := rfl

/-- The code left is the end of the frame's block. -/
def Frame.Placed (module : Module) (frame : Frame) : Prop :=
  frame.code <:+ module.block frame.block

structure Placed (module : Module) (state : MachineState) : Prop where
  frame : state.frame.Placed module
  callers : ∀ caller ∈ state.callers, caller.Placed module

theorem Frame.Placed.next {frame : Frame} {entry : Nat × Instr}
    {code : List (Nat × Instr)} (placed : frame.Placed module)
    (pending : frame.code = entry :: code) :
    Frame.Placed module { frame with code } := by
  unfold Frame.Placed at placed ⊢
  rw [pending] at placed
  exact (List.suffix_cons entry code).trans placed

private theorem mem_block {label : Label} (member : (id, instr) ∈ module.block label) :
    { block := label, instr } ∈ module.code := by
  unfold Module.block at member
  obtain ⟨⟨entry, index⟩, inBlock, same⟩ := List.mem_map.mp member
  obtain ⟨inCode, isLabel⟩ := List.mem_filter.mp inBlock
  have isEntry : entry = { block := label, instr } := by
    cases same
    rw [← of_decide_eq_true isLabel]
  rw [← isEntry]
  exact (List.mem_zipIdx inCode).2.2 ▸ List.getElem_mem _

theorem Frame.Placed.mem_code {frame : Frame} {rest : List (Nat × Instr)}
    (placed : frame.Placed module) (pending : frame.code = (id, instr) :: rest) :
    { block := frame.block, instr } ∈ module.code := by
  apply mem_block
  apply placed.subset
  rw [pending]
  exact List.mem_cons_self

/-- What an instruction does: it computes a register, allocates a slot, stores,
jumps, enters a function or calls an external one. -/
inductive Effect (module : Module) (state : MachineState) (id : Nat) :
    Instr → MachineState → Prop where
  | result {instr : Instr} (value : RtVal) (asked : Nat)
      (noCall : instr.isCall = false) :
      Effect module state id instr
        (MachineState.assign { state with memory := { state.memory with asked } } id value)
  | slot (type : LType) :
      Effect module state id (.alloca type)
        { state with
          frame := Frame.assign
            { state.frame with slots := state.memory.nextStack :: state.frame.slots }
            id (.ptr (.stack state.memory.nextStack) 0)
          memory := pushSlot state.memory (sizeOf module type) }
  | stored (value ptr : Value) (memory : Memory)
      (run : storeCells module state.memory (eval state.frame ptr)
        (encode (eval state.frame value) (sizeOf module value.type)) = .ok memory) :
      Effect module state id (.store value ptr) { state with memory }
  | jumped {instr : Instr} (target : Label) (noCall : instr.isCall = false)
      (leads : target ∈ instr.targets) :
      Effect module state id instr (jump module state target)
  | entered (index : Nat) (args : List PyVal) (func : Function) (entry : Label)
      (found : module.functions[index]? = some func)
      (defined : func.entry = some entry) :
      Effect module state id (.call index args)
        { state with
          frame := enter module entry (args.map (evalPyVal state.frame)) id
          callers := state.frame :: state.callers }
  | called (index : Nat) (args : List PyVal) (func : Function) (result value : RtVal)
      (memory : Memory) (asked : Nat) (found : module.functions[index]? = some func)
      (declared : func.entry = none)
      (run : callExtern module func.name state.memory
        (args.map (evalPyVal state.frame)) = .ok (result, memory)) :
      Effect module state id (.call index args)
        (MachineState.assign { state with memory := { memory with asked } } id value)

private theorem MachineState.give_eq (state : MachineState) (id : Nat) (result : RtVal) :
    ∃ value asked, state.give id result =
      MachineState.assign { state with memory := { state.memory with asked } } id value := by
  cases result with
  | undefined => exact ⟨_, _, rfl⟩
  | i1 value => exact ⟨_, state.memory.asked, rfl⟩
  | i8 value => exact ⟨_, state.memory.asked, rfl⟩
  | i32 value => exact ⟨_, state.memory.asked, rfl⟩
  | i64 value => exact ⟨_, state.memory.asked, rfl⟩
  | ptr block offset => exact ⟨_, state.memory.asked, rfl⟩
  | raw cells => exact ⟨_, state.memory.asked, rfl⟩

private theorem effect_of_give (result : RtVal) (noCall : instr.isCall = false) :
    Effect module state id instr (state.give id result) := by
  obtain ⟨value, asked, given⟩ := state.give_eq id result
  rw [given]
  exact .result value asked noCall

private theorem effect_of_call {index : Nat} {args : List PyVal}
    (run : callFunction module state id index args = .ok state') :
    Effect module state id (.call index args) state' := by
  unfold callFunction at run
  simp only at run
  split at run
  · cases run
  · rename_i func found
    split at run
    · rename_i entry defined
      cases run
      exact .entered index args func entry found defined
    · rename_i declared
      rw [Outcome.bind_eq_ok_iff] at run
      obtain ⟨⟨result, memory⟩, called, run⟩ := run
      cases run
      obtain ⟨value, asked, given⟩ :=
        MachineState.give_eq { state with memory } id result
      simp only
      rw [given]
      exact .called index args func result value memory asked found declared called

theorem effect_of_execute (run : execute module state id instr = .ok state') :
    Effect module state id instr state' := by
  cases instr with
  | alloca type =>
      cases run
      exact .slot type
  | load ptr =>
      simp only [execute] at run
      split at run
      · rw [Outcome.bind_eq_ok_iff] at run
        obtain ⟨cells, -, run⟩ := run
        cases run
        exact effect_of_give _ rfl
      · cases run
  | store value ptr =>
      simp only [execute] at run
      rw [Outcome.bind_eq_ok_iff] at run
      obtain ⟨memory, stored, run⟩ := run
      cases run
      exact .stored value ptr memory stored
  | binop op lhs rhs =>
      simp only [execute] at run
      split at run
      · split at run
        · cases run
          exact effect_of_give _ rfl
        · cases run
      · cases run
  | icmp predicate lhs rhs =>
      simp only [execute] at run
      split at run
      · cases run
        exact effect_of_give _ rfl
      · cases run
  | gep ptr indices =>
      simp only [execute] at run
      split at run
      · cases run
        exact effect_of_give _ rfl
      · cases run
        exact effect_of_give _ rfl
  | ptrtoint value type =>
      simp only [execute] at run
      split at run
      · cases run
        exact effect_of_give _ rfl
      · cases run
        exact effect_of_give _ rfl
  | bitcast value type =>
      cases run
      exact effect_of_give _ rfl
  | call index args => exact effect_of_call run
  | br target =>
      cases run
      exact .jumped target rfl List.mem_cons_self
  | cbr condition thenTarget elseTarget =>
      simp only [execute] at run
      split at run
      · cases run
        exact .jumped thenTarget rfl List.mem_cons_self
      · cases run
        exact .jumped elseTarget rfl (List.mem_cons_of_mem _ List.mem_cons_self)
      · cases run
  | ret value => cases run
  | retVoid => cases run
  | unreachable => cases run

private theorem Frame.placed_start {frame : Frame}
    (start : frame.code = module.block frame.block) : frame.Placed module := by
  unfold Frame.Placed
  exact ⟨[], start⟩

private theorem Placed.effect (placed : Placed module state)
    (effect : Effect module state id instr state') : Placed module state' := by
  cases effect with
  | result value asked noCall => exact ⟨placed.frame, placed.callers⟩
  | slot type => exact ⟨placed.frame, placed.callers⟩
  | stored value ptr memory run => exact ⟨placed.frame, placed.callers⟩
  | jumped target noCall leads => exact ⟨Frame.placed_start rfl, placed.callers⟩
  | entered index args func entry found defined =>
      refine ⟨Frame.placed_start rfl, ?_⟩
      intro caller member
      rcases List.mem_cons.mp member with rfl | earlier
      · exact placed.frame
      · exact placed.callers caller earlier
  | called index args func result value memory asked found declared run =>
      exact ⟨placed.frame, placed.callers⟩

def MachineState.fetched (state : MachineState) (code : List (Nat × Instr)) :
    MachineState :=
  { state with frame := { state.frame with code } }

/-- A return gives the caller the value of an operand, or none. -/
theorem step_next_values (stepped : step module state = .next state') :
    ∃ id instr code, state.frame.code = (id, instr) :: code ∧
      ((∃ value, (value = .undefined ∨ ∃ val, value = evalPyVal (state.fetched code).frame val) ∧
          returnFrom (state.fetched code) value = .next state') ∨
        execute module (state.fetched code) id instr = .ok state') := by
  unfold step at stepped
  split at stepped
  · cases stepped
  · rename_i id instr code pending
    refine ⟨id, instr, code, pending, ?_⟩
    have executed (instr : Instr) (stepped :
        progressOf (execute module (state.fetched code) id instr) = .next state') :
        execute module (state.fetched code) id instr = .ok state' := by
      cases run : execute module (state.fetched code) id instr with
      | ok result =>
          rw [run] at stepped
          cases stepped
          rfl
      | exit status message =>
          rw [run] at stepped
          cases stepped
      | fault =>
          rw [run] at stepped
          cases stepped
    simp only at stepped
    split at stepped
    · exact .inl ⟨_, .inr ⟨_, rfl⟩, stepped⟩
    · exact .inl ⟨_, .inl rfl, stepped⟩
    · exact .inr (executed _ stepped)

theorem step_next_cases (stepped : step module state = .next state') :
    ∃ id instr code, state.frame.code = (id, instr) :: code ∧
      ((∃ value, returnFrom (state.fetched code) value = .next state') ∨
        execute module (state.fetched code) id instr = .ok state') := by
  obtain ⟨id, instr, code, pending, ⟨value, -, returned⟩ | run⟩ := step_next_values stepped
  · exact ⟨id, instr, code, pending, .inl ⟨value, returned⟩⟩
  · exact ⟨id, instr, code, pending, .inr run⟩

theorem returnFrom_next {value : RtVal}
    (returned : returnFrom state value = .next state') :
    ∃ caller callers, state.callers = caller :: callers ∧
      state' = {
        frame := caller.assign state.frame.dst value
        callers
        memory := releaseSlots state.memory state.frame.slots } := by
  unfold returnFrom at returned
  simp only at returned
  split at returned
  · cases returned
  · rename_i caller callers pending
    cases returned
    exact ⟨caller, callers, pending, rfl⟩

private theorem returnFrom_halt {value : RtVal} {returned : Returned}
    (halted : returnFrom state value = .halt (.ok returned)) :
    returned.memory = releaseSlots state.memory state.frame.slots := by
  unfold returnFrom at halted
  simp only at halted
  split at halted
  · cases halted
    rfl
  · cases halted

theorem step_halt_memory {returned : Returned}
    (stopped : step module state = .halt (.ok returned)) :
    returned.memory = releaseSlots state.memory state.frame.slots := by
  unfold step at stopped
  split at stopped
  · cases stopped
  · simp only at stopped
    split at stopped
    · exact returnFrom_halt stopped
    · exact returnFrom_halt stopped
    · unfold progressOf at stopped
      split at stopped
      · cases stopped
      · cases stopped
      · cases stopped

theorem Placed.step (placed : Placed module state)
    (stepped : step module state = .next state') : Placed module state' := by
  obtain ⟨id, instr, code, pending, returned | run⟩ := step_next_cases stepped
  · obtain ⟨value, returned⟩ := returned
    obtain ⟨caller, callers, waiting, rfl⟩ := returnFrom_next returned
    have waiting : state.callers = caller :: callers := waiting
    constructor
    · exact placed.callers caller (by rw [waiting]; exact List.mem_cons_self)
    · intro other member
      exact placed.callers other (by rw [waiting]; exact List.mem_cons_of_mem _ member)
  · have fetched : Placed module (state.fetched code) :=
      ⟨placed.frame.next pending, placed.callers⟩
    exact fetched.effect (effect_of_execute run)

theorem Placed.reached (placed : Placed module state)
    (reached : Reaches (Machine.step module) state state') : Placed module state' :=
  Reaches.invariant (fun _ _ _ before stepped => before.step stepped) placed reached

/-- The blocks that an instruction leads to: those it branches to, and the first
of the function it calls. -/
def leadsTo (module : Module) (instr : Instr) : List Label :=
  match instr with
  | .call index _ => ((module.functions[index]?).bind (·.entry)).toList
  | instr => instr.targets

/-- No branch and no call leads out of the blocks. -/
def ClosedBlocks (module : Module) (blocks : Label → Prop) : Prop :=
  ∀ entry ∈ module.code, blocks entry.block →
    ∀ target ∈ leadsTo module entry.instr, blocks target

structure Inside (blocks : Label → Prop) (state : MachineState) : Prop where
  frame : blocks state.frame.block
  callers : ∀ caller ∈ state.callers, blocks caller.block

private theorem mem_leadsTo_of_call {index : Nat} {args : List PyVal} {func : Function}
    {entry : Label} (found : module.functions[index]? = some func)
    (defined : func.entry = some entry) :
    entry ∈ leadsTo module (.call index args) := by
  simp [leadsTo, found, defined]

private theorem mem_leadsTo_of_branch {target : Label} (noCall : instr.isCall = false)
    (leads : target ∈ instr.targets) : target ∈ leadsTo module instr := by
  cases instr with
  | call index args => cases noCall
  | _ => exact leads

private theorem Inside.effect {blocks : Label → Prop} (closed : ClosedBlocks module blocks)
    (inside : Inside blocks state)
    (written : { block := state.frame.block, instr } ∈ module.code)
    (effect : Effect module state id instr state') : Inside blocks state' := by
  cases effect with
  | result value asked noCall => exact ⟨inside.frame, inside.callers⟩
  | slot type => exact ⟨inside.frame, inside.callers⟩
  | stored value ptr memory run => exact ⟨inside.frame, inside.callers⟩
  | jumped target noCall leads =>
      have led : target ∈ leadsTo module instr := mem_leadsTo_of_branch noCall leads
      exact ⟨closed _ written inside.frame target led, inside.callers⟩
  | entered index args func entry found defined =>
      have led : entry ∈ leadsTo module (.call index args) :=
        mem_leadsTo_of_call found defined
      refine ⟨closed _ written inside.frame entry led, ?_⟩
      intro caller member
      rcases List.mem_cons.mp member with rfl | earlier
      · exact inside.frame
      · exact inside.callers caller earlier
  | called index args func result value memory asked found declared run =>
      exact ⟨inside.frame, inside.callers⟩

theorem Inside.step {blocks : Label → Prop} (closed : ClosedBlocks module blocks)
    (inside : Inside blocks state) (placed : Placed module state)
    (stepped : step module state = .next state') : Inside blocks state' := by
  obtain ⟨id, instr, code, pending, returned | run⟩ := step_next_cases stepped
  · obtain ⟨value, returned⟩ := returned
    obtain ⟨caller, callers, waiting, rfl⟩ := returnFrom_next returned
    have waiting : state.callers = caller :: callers := waiting
    constructor
    · exact inside.callers caller (by rw [waiting]; exact List.mem_cons_self)
    · intro other member
      exact inside.callers other (by rw [waiting]; exact List.mem_cons_of_mem _ member)
  · have fetched : Inside blocks (state.fetched code) := ⟨inside.frame, inside.callers⟩
    exact fetched.effect closed (placed.frame.mem_code pending) (effect_of_execute run)

/-- A run keeps to blocks that no branch and no call leads out of. -/
theorem Inside.reached {blocks : Label → Prop} {start : MachineState}
    (closed : ClosedBlocks module blocks) (inside : Inside blocks start)
    (placed : Placed module start)
    (reached : Reaches (Machine.step module) start state) : Inside blocks state :=
  Reaches.invariant (fun _ _ toBefore before stepped =>
    before.step closed (placed.reached toBefore) stepped) inside reached

theorem callState_eq_some {index : Nat} {args : List RtVal} {memory : Memory}
    (called : callState module index args memory = some state) :
    ∃ func entry, module.functions[index]? = some func ∧ func.entry = some entry ∧
      state = { frame := enter module entry args 0, callers := [], memory } := by
  unfold callState at called
  obtain ⟨func, found, called⟩ := Option.bind_eq_some_iff.mp called
  obtain ⟨entry, defined, called⟩ := Option.bind_eq_some_iff.mp called
  cases called
  exact ⟨func, entry, found, defined, rfl⟩

theorem placed_callState {index : Nat} {args : List RtVal} {memory : Memory}
    (called : callState module index args memory = some state) :
    Placed module state := by
  obtain ⟨func, entry, -, -, rfl⟩ := callState_eq_some called
  exact ⟨List.suffix_rfl, fun _ member => (List.not_mem_nil member).elim⟩

theorem memory_callState {index : Nat} {args : List RtVal} {memory : Memory}
    (called : callState module index args memory = some state) :
    state.memory = memory := by
  obtain ⟨func, entry, -, -, rfl⟩ := callState_eq_some called
  rfl

theorem inside_callState {blocks : Label → Prop} {index : Nat} {args : List RtVal}
    {memory : Memory} (called : callState module index args memory = some state)
    (inside : ∀ func entry, module.functions[index]? = some func →
      func.entry = some entry → blocks entry) : Inside blocks state := by
  obtain ⟨func, entry, found, defined, rfl⟩ := callState_eq_some called
  exact ⟨inside func entry found defined, fun _ member => (List.not_mem_nil member).elim⟩

private theorem storeCells_arenas {memory memory' : Memory} {pointer : RtVal}
    {cells : List Cell} (run : storeCells module memory pointer cells = .ok memory') :
    memory'.arenas = memory.arenas := by
  unfold storeCells at run
  split at run
  · split at run
    · cases run
    · split at run
      · cases run
        rfl
      · cases run
  · cases run

/-- What an external function does: it answers, allocates, releases, stores cells
or writes to the response. -/
inductive ExternEffect (module : Module) (name : String) (memory : Memory)
    (args : List RtVal) : RtVal → Memory → Prop where
  | allocated {tag : BitVec 32} {size : BitVec 64} {rest : List RtVal} {value : RtVal}
      {memory' : Memory} (isAlloc : name = "lambpie_arena_alloc")
      (evaluated : args = .i32 tag :: .i64 size :: rest)
      (run : externArenaAlloc memory tag size = .ok (value, memory')) :
      ExternEffect module name memory args value memory'
  | undetermined : ExternEffect module name memory args .undefined memory
  | nothing : ExternEffect module name memory args (.ptr .null 0) memory
  | number (value : BitVec 64) (response : Bytes) :
      ExternEffect module name memory args (.i64 value) { memory with response }
  | mapped (size : Nat) :
      ExternEffect module name memory args (.ptr (.heap memory.nextHeap) 0)
        { memory with
          blocks := memory.blocks.allocate (.heap memory.nextHeap) size fun index =>
            .byte (memory.world.garbage memory.nextHeap index)
          nextHeap := memory.nextHeap + 1 }
  | released (index : Nat) :
      ExternEffect module name memory args .undefined
        { memory with blocks := memory.blocks.release (.heap index) }
  | copied {dst src : RtVal} {count : Nat} {cells : List Cell} {memory' : Memory}
      (isDst : dst ∈ args) (isSrc : src ∈ args) (loaded : loadCells memory src count = .ok cells)
      (stored : storeCells module memory dst cells = .ok memory') :
      ExternEffect module name memory args dst memory'
  | found {block : Block} {start : Int} {outLen : RtVal} {length : BitVec 64}
      {memory' : Memory} (distance : Int) (isText : .ptr block start ∈ args)
      (stored : storeCells module memory outLen (encode (.i64 length) 8) = .ok memory') :
      ExternEffect module name memory args (.ptr block (start + distance)) memory'

section

variable {name : String} {memory memory' : Memory} {args : List RtVal} {value : RtVal}

private theorem effect_of_externFree {pointer : RtVal}
    (run : externFree memory pointer = .ok (value, memory')) :
    ExternEffect module name memory args value memory' := by
  unfold externFree at run
  split at run
  · cases run
    exact .undetermined
  · cases run
    exact .released _
  · cases run

private theorem effect_of_externStrlen {pointer : RtVal}
    (run : externStrlen memory pointer = .ok (value, memory')) :
    ExternEffect module name memory args value memory' := by
  unfold externStrlen at run
  split at run
  · split at run
    · split at run
      · cases run
        exact .number _ memory.response
      · cases run
        exact .undetermined
    · cases run
  · cases run

private theorem effect_of_externGetStr {json key outLen : RtVal} {jsonLen keyLen : BitVec 64}
    (isText : json ∈ args)
    (run : externGetStr module memory json jsonLen key keyLen outLen = .ok (value, memory')) :
    ExternEffect module name memory args value memory' := by
  unfold externGetStr at run
  simp only [Outcome.bind_eq_ok_iff] at run
  obtain ⟨text, -, key, -, found, -, run⟩ := run
  split at run
  · cases run
    exact .nothing
  · split at run
    · rw [Outcome.bind_eq_ok_iff] at run
      obtain ⟨written, stored, run⟩ := run
      cases run
      exact .found _ isText stored
    · cases run

private theorem effect_of_externWrite {buf : RtVal} {pos : BitVec 64}
    {write : Runtime.Writer → Outcome Runtime.Writer}
    (run : externWrite memory buf pos write = .ok (value, memory')) :
    ExternEffect module name memory args value memory' := by
  unfold externWrite at run
  split at run
  · rw [Outcome.bind_eq_ok_iff] at run
    obtain ⟨writer, -, run⟩ := run
    cases run
    exact .number _ _
  · cases run

theorem effect_of_callExtern (run : callExtern module name memory args = .ok (value, memory')) :
    ExternEffect module name memory args value memory' := by
  unfold callExtern at run
  split at run
  · exact .allocated rfl rfl run
  · cases run
    exact .mapped _
  · exact effect_of_externFree run
  · exact effect_of_externStrlen run
  · unfold externMemcpy at run
    simp only [Outcome.bind_eq_ok_iff] at run
    obtain ⟨cells, loaded, written, stored, run⟩ := run
    cases run
    exact .copied List.mem_cons_self (List.mem_cons_of_mem _ List.mem_cons_self) loaded stored
  · cases run
    exact .undetermined
  · cases run
    exact .undetermined
  · exact effect_of_externGetStr List.mem_cons_self run
  · unfold externGetInt at run
    simp only [Outcome.bind_eq_ok_iff] at run
    obtain ⟨text, -, key, -, number, -, run⟩ := run
    cases run
    exact .number _ memory.response
  · exact effect_of_externWrite run
  · simp only [Outcome.bind_eq_ok_iff] at run
    obtain ⟨key, -, bytes, -, run⟩ := run
    exact effect_of_externWrite run
  · simp only [Outcome.bind_eq_ok_iff] at run
    obtain ⟨key, -, run⟩ := run
    exact effect_of_externWrite run
  · exact effect_of_externWrite run
  · cases run

/-- Of the external functions only the allocator moves an arena. -/
theorem callExtern_arenas (run : callExtern module name memory args = .ok (value, memory')) :
    memory'.arenas = memory.arenas ∨
      name = "lambpie_arena_alloc" ∧ ∃ tag size rest,
        args = .i32 tag :: .i64 size :: rest ∧
          externArenaAlloc memory tag size = .ok (value, memory') := by
  cases effect_of_callExtern run with
  | allocated isAlloc evaluated run => exact .inr ⟨isAlloc, _, _, _, evaluated, run⟩
  | undetermined => exact .inl rfl
  | nothing => exact .inl rfl
  | number value response => exact .inl rfl
  | mapped size => exact .inl rfl
  | released index => exact .inl rfl
  | copied isDst isSrc loaded stored => exact .inl (storeCells_arenas stored)
  | found distance isText stored => exact .inl (storeCells_arenas stored)

end

theorem Effect.arenas (effect : Effect module state id instr state') :
    state'.memory.arenas = state.memory.arenas ∨
      ∃ index func args tag size rest value, instr = .call index args ∧
        module.functions[index]? = some func ∧
        func.name = "lambpie_arena_alloc" ∧ func.entry = none ∧
        args.map (evalPyVal state.frame) = .i32 tag :: .i64 size :: rest ∧
        ∃ memory, externArenaAlloc state.memory tag size = .ok (value, memory) ∧
          state'.memory.arenas = memory.arenas := by
  cases effect with
  | result value asked noCall => exact .inl rfl
  | slot type => exact .inl rfl
  | stored value ptr memory run => exact .inl (storeCells_arenas run)
  | jumped target noCall leads => exact .inl rfl
  | entered index args func entry found defined => exact .inl rfl
  | called index args func result value memory asked found declared run =>
      rcases callExtern_arenas run with
        same | ⟨isAlloc, tag, size, rest, evaluated, allocated⟩
      · exact .inl same
      · exact .inr ⟨index, func, args, tag, size, rest, result, rfl, found,
          isAlloc, declared, evaluated, memory, allocated, rfl⟩

end Lambpie.Machine

/-
Pointers from the static arena into the request arena.

As long as `lambpie_init` allocates from the static arena only, no value points
into the request arena and none such is stored.  Once the static arena is frozen
its cells stay as they are.
-/
import Lambpie.Machine.ArenaDiscipline

namespace Lambpie.Machine

open Foundations
open Lambpie.Compiler
open Lambpie.Runtime (Bytes lambpieArenaAlloc arenaStatic)

variable {module : Module}

/-- The cell is no part of a pointer into the request arena. -/
def Cell.OffRequest : Cell → Prop
  | .ptrPart block _ _ => block ≠ .req
  | _ => True

def RtVal.OffRequest : RtVal → Prop
  | .ptr block _ => block ≠ .req
  | .raw cells => ∀ cell ∈ cells, cell.OffRequest
  | _ => True

private theorem offRequest_encode {value : RtVal} (off : value.OffRequest) (size : Nat) :
    ∀ cell ∈ encode value size, cell.OffRequest := by
  intro cell member
  cases value with
  | undefined =>
      rw [List.eq_of_mem_replicate member]
      trivial
  | i1 value =>
      cases List.mem_singleton.mp member
      trivial
  | i8 value =>
      cases List.mem_singleton.mp member
      trivial
  | i32 value =>
      obtain ⟨byte, -, rfl⟩ := List.mem_map.mp member
      trivial
  | i64 value =>
      obtain ⟨byte, -, rfl⟩ := List.mem_map.mp member
      trivial
  | ptr block offset =>
      obtain ⟨index, -, rfl⟩ := List.mem_map.mp member
      exact off
  | raw cells => exact off cell member

private theorem offRequest_decodeInt {cells : List Cell} {make : Nat → RtVal}
    (plain : ∀ number, (make number).OffRequest) : (decodeInt cells make).OffRequest := by
  unfold decodeInt
  split
  · exact plain _
  · trivial

private theorem offRequest_decodePtr {cells : List Cell}
    (off : ∀ cell ∈ cells, cell.OffRequest) : (decodePtr cells).OffRequest := by
  unfold decodePtr
  split
  · split
    · exact off (.ptrPart _ _ 0) List.mem_cons_self
    · trivial
  · split
    · exact Block.noConfusion
    · trivial

private theorem offRequest_decode {cells : List Cell} (type : LType)
    (off : ∀ cell ∈ cells, cell.OffRequest) : (decode type cells).OffRequest := by
  unfold decode
  split
  · exact offRequest_decodeInt fun _ => trivial
  · exact offRequest_decodeInt fun _ => trivial
  · exact offRequest_decodeInt fun _ => trivial
  · exact offRequest_decodeInt fun _ => trivial
  · exact offRequest_decodePtr off
  · exact off

/-- Neither the memory outside the request arena nor the world holds a pointer
into it. -/
structure Memory.OffRequest (memory : Memory) : Prop where
  cells : ∀ block, block ≠ .req → ∀ offset, (memory.blocks.cells block offset).OffRequest
  world : ∀ count, (memory.world.value count).OffRequest

section

variable {memory memory' : Memory} {pointer value : RtVal} {cells : List Cell}

private theorem Memory.OffRequest.load (off : memory.OffRequest) {count : Nat}
    (plain : pointer.OffRequest) (loaded : loadCells memory pointer count = .ok cells) :
    ∀ cell ∈ cells, cell.OffRequest := by
  unfold loadCells at loaded
  split at loaded
  · split at loaded
    · rename_i found
      cases loaded
      obtain ⟨-, rfl⟩ := BlockMemory.load_eq_some_iff.mp found
      intro cell member
      obtain ⟨index, -, rfl⟩ := List.mem_map.mp member
      exact off.cells _ plain _
    · cases loaded
  · cases loaded

private theorem storeCells_ok (stored : storeCells module memory pointer cells = .ok memory') :
    ∃ block offset, readOnly module memory block = false ∧
      memory' = { memory with blocks := memory.blocks.put block offset cells } := by
  unfold storeCells at stored
  split at stored
  · split at stored
    · cases stored
    · rename_i writable
      split at stored
      · rename_i found
        cases stored
        obtain ⟨-, rfl⟩ := BlockMemory.store_eq_some_iff.mp found
        exact ⟨_, _, Bool.eq_false_iff.mpr writable, rfl⟩
      · cases stored
  · cases stored

private theorem Memory.OffRequest.store (off : memory.OffRequest)
    (plain : ∀ cell ∈ cells, cell.OffRequest)
    (stored : storeCells module memory pointer cells = .ok memory') : memory'.OffRequest := by
  obtain ⟨block, offset, -, rfl⟩ := storeCells_ok stored
  refine ⟨fun other outside index => ?_, off.world⟩
  change Cell.OffRequest (if _ then _ else _)
  split
  · cases found : cells[index - offset]? with
    | none => exact off.cells other outside index
    | some cell => exact plain cell (List.mem_of_getElem? found)
  · exact off.cells other outside index

private theorem Memory.OffRequest.allocate (off : memory.OffRequest) {block : Block} {size : Nat}
    {fill : Nat → Cell} (plain : ∀ offset, (fill offset).OffRequest) :
    ∀ other, other ≠ .req → ∀ offset,
      ((memory.blocks.allocate block size fill).cells other offset).OffRequest := by
  intro other outside offset
  change Cell.OffRequest (if _ then _ else _)
  split
  · exact plain offset
  · exact off.cells other outside offset

theorem releaseSlots_cells (slots : List Nat) :
    (releaseSlots memory slots).blocks.cells = memory.blocks.cells := by
  change (slots.foldl _ memory.blocks).cells = _
  generalize memory.blocks = blocks
  induction slots generalizing blocks with
  | nil => rfl
  | cons slot rest ih => exact ih (blocks.release (.stack slot))

private theorem Memory.OffRequest.releaseSlots (off : memory.OffRequest) (slots : List Nat) :
    (Machine.releaseSlots memory slots).OffRequest := by
  refine ⟨?_, off.world⟩
  rw [releaseSlots_cells]
  exact off.cells

/-- Only an allocation with the request tag makes a pointer into the arena. -/
private theorem ExternEffect.offRequest {name : String} {args : List RtVal}
    (effect : ExternEffect module name memory args value memory') (off : memory.OffRequest)
    (plain : ∀ arg ∈ args, arg.OffRequest)
    (isStatic : name = "lambpie_arena_alloc" → args.head? = some (.i32 arenaStatic)) :
    value.OffRequest ∧ memory'.OffRequest := by
  cases effect with
  | allocated isAlloc evaluated run =>
      have tag := isStatic isAlloc
      rw [evaluated] at tag
      cases tag
      unfold externArenaAlloc at run
      rw [Outcome.bind_eq_ok_iff] at run
      obtain ⟨⟨arenas, address⟩, -, run⟩ := run
      cases run
      exact ⟨Block.noConfusion, off.cells, off.world⟩
  | undetermined => exact ⟨trivial, off⟩
  | nothing => exact ⟨Block.noConfusion, off⟩
  | number value response => exact ⟨trivial, off.cells, off.world⟩
  | mapped size =>
      exact ⟨Block.noConfusion, off.allocate fun _ => trivial, off.world⟩
  | released index => exact ⟨trivial, off.cells, off.world⟩
  | copied isDst isSrc loaded stored =>
      exact ⟨plain _ isDst, off.store (off.load (plain _ isSrc) loaded) stored⟩
  | @found block start outLen length last distance isText stored =>
      have text : RtVal.OffRequest (.ptr block start) := plain _ isText
      have isNumber : RtVal.OffRequest (.i64 length) := trivial
      exact ⟨text, off.store (offRequest_encode isNumber 8) stored⟩

end

structure Frame.OffRequest (frame : Frame) : Prop where
  regs : ∀ id, (frame.regs id).OffRequest
  args : ∀ value ∈ frame.args, value.OffRequest

structure MachineState.OffRequest (state : MachineState) : Prop where
  frame : state.frame.OffRequest
  callers : ∀ caller ∈ state.callers, caller.OffRequest
  memory : state.memory.OffRequest

section

variable {frame : Frame} {state state' : MachineState}

private theorem Frame.OffRequest.assign (off : frame.OffRequest) (id : Nat) {value : RtVal}
    (plain : value.OffRequest) : (frame.assign id value).OffRequest := by
  refine ⟨fun other => ?_, off.args⟩
  change RtVal.OffRequest (if _ then _ else _)
  split
  · exact plain
  · exact off.regs other

private theorem Frame.OffRequest.eval (off : frame.OffRequest) (value : Value) :
    (Machine.eval frame value).OffRequest := by
  unfold Machine.eval
  split
  · exact off.regs _
  · rename_i index _
    cases found : frame.args[index]? with
    | none => trivial
    | some value => exact off.args value (List.mem_of_getElem? found)
  · unfold evalInt
    split <;> trivial
  · split <;> trivial
  · exact Block.noConfusion
  · exact Block.noConfusion
  · trivial

private theorem Frame.OffRequest.evalPyVal (off : frame.OffRequest) (value : PyVal) :
    (Machine.evalPyVal frame value).OffRequest := by
  cases value with
  | value value => exact off.eval value
  | _ => trivial

private theorem offRequest_evalBinop {width : Nat} {op : BinOpcode} {make : BitVec width → RtVal}
    {lhs rhs : BitVec width} {result : RtVal} (evaluated : evalBinop op make lhs rhs = some result)
    (plain : ∀ bits, (make bits).OffRequest) : result.OffRequest := by
  unfold evalBinop at evaluated
  split at evaluated
  all_goals first
    | (cases evaluated; exact plain _)
    | (split at evaluated <;> cases evaluated <;> first | exact plain _ | trivial)

private theorem offRequest_binopValue {op : BinOpcode} {lhs rhs result : RtVal}
    (evaluated : binopValue op lhs rhs = some result) : result.OffRequest := by
  unfold binopValue at evaluated
  split at evaluated
  · exact offRequest_evalBinop evaluated fun _ => trivial
  · exact offRequest_evalBinop evaluated fun _ => trivial
  · exact offRequest_evalBinop evaluated fun _ => trivial
  · exact offRequest_evalBinop evaluated fun _ => trivial
  · cases evaluated
    trivial

private theorem offRequest_comparesPtr {blocks : BlockMemory Block Cell} {predicate : Predicate}
    {lhs rhs : Block × Int} : (comparesPtr blocks predicate lhs rhs).OffRequest := by
  unfold comparesPtr
  split
  · split <;> trivial
  · split
    · split <;> trivial
    · trivial

private theorem offRequest_icmpValue {blocks : BlockMemory Block Cell} {predicate : Predicate}
    {lhs rhs : RtVal} : (icmpValue blocks predicate lhs rhs).OffRequest := by
  unfold icmpValue
  split
  · trivial
  · trivial
  · trivial
  · trivial
  · exact offRequest_comparesPtr
  · trivial

private theorem MachineState.OffRequest.assign (off : state.OffRequest) (id : Nat) {value : RtVal}
    (plain : value.OffRequest) : (state.assign id value).OffRequest :=
  ⟨off.frame.assign id plain, off.callers, off.memory⟩

private theorem MachineState.OffRequest.give (off : state.OffRequest) (id : Nat) {value : RtVal}
    (plain : value.OffRequest) : (state.give id value).OffRequest := by
  cases value with
  | undefined =>
      exact ⟨off.frame.assign id (off.memory.world _), off.callers, off.memory.cells,
        off.memory.world⟩
  | i1 value => exact off.assign id plain
  | i8 value => exact off.assign id plain
  | i32 value => exact off.assign id plain
  | i64 value => exact off.assign id plain
  | ptr block offset => exact off.assign id plain
  | raw cells => exact off.assign id plain

private theorem MachineState.OffRequest.call {id index : Nat} {args : List PyVal}
    (off : state.OffRequest)
    (isStatic : ∀ func, module.functions[index]? = some func → func.entry = none →
      func.name = "lambpie_arena_alloc" →
        (args.map (evalPyVal state.frame)).head? = some (.i32 arenaStatic))
    (run : callFunction module state id index args = .ok state') : state'.OffRequest := by
  have plain : ∀ arg ∈ args.map (evalPyVal state.frame), arg.OffRequest := by
    intro arg member
    obtain ⟨operand, -, rfl⟩ := List.mem_map.mp member
    exact off.frame.evalPyVal operand
  unfold callFunction at run
  simp only at run
  split at run
  · cases run
  · rename_i func found
    split at run
    · cases run
      refine ⟨⟨fun _ => trivial, plain⟩, fun caller member => ?_, off.memory⟩
      rcases List.mem_cons.mp member with rfl | earlier
      · exact off.frame
      · exact off.callers caller earlier
    · rename_i declared
      rw [Outcome.bind_eq_ok_iff] at run
      obtain ⟨⟨result, memory⟩, called, run⟩ := run
      cases run
      obtain ⟨isPlain, kept⟩ := (effect_of_callExtern called).offRequest off.memory plain
        (isStatic func found declared)
      have after : MachineState.OffRequest { state with memory } := ⟨off.frame, off.callers, kept⟩
      exact after.give id isPlain

private theorem MachineState.OffRequest.execute {id : Nat} {instr : Instr}
    (off : state.OffRequest)
    (isStatic : ∀ index args func, instr = .call index args →
      module.functions[index]? = some func → func.entry = none →
        func.name = "lambpie_arena_alloc" →
          (args.map (evalPyVal state.frame)).head? = some (.i32 arenaStatic))
    (run : execute module state id instr = .ok state') : state'.OffRequest := by
  cases instr with
  | alloca type =>
      cases run
      let frame := { state.frame with slots := state.memory.nextStack :: state.frame.slots }
      have same : frame.OffRequest := ⟨off.frame.regs, off.frame.args⟩
      have slot : RtVal.OffRequest (.ptr (.stack state.memory.nextStack) 0) := Block.noConfusion
      exact ⟨same.assign id slot, off.callers, off.memory.allocate fun _ => trivial,
        off.memory.world⟩
  | load ptr =>
      simp only [Machine.execute] at run
      split at run
      · rw [Outcome.bind_eq_ok_iff] at run
        obtain ⟨cells, loaded, run⟩ := run
        cases run
        exact off.give id (offRequest_decode _ (off.memory.load (off.frame.eval ptr) loaded))
      · cases run
  | store value ptr =>
      simp only [Machine.execute] at run
      rw [Outcome.bind_eq_ok_iff] at run
      obtain ⟨memory, stored, run⟩ := run
      cases run
      exact ⟨off.frame, off.callers,
        off.memory.store (offRequest_encode (off.frame.eval value) _) stored⟩
  | binop op lhs rhs =>
      simp only [Machine.execute] at run
      split at run
      · split at run
        · rename_i evaluated
          cases run
          exact off.give id (offRequest_binopValue evaluated)
        · cases run
      · cases run
  | icmp predicate lhs rhs =>
      simp only [Machine.execute] at run
      split at run
      · cases run
        exact off.give id offRequest_icmpValue
      · cases run
  | gep ptr indices =>
      simp only [Machine.execute] at run
      split at run
      · rename_i isPtr _
        cases run
        have plain := off.frame.eval ptr
        rw [isPtr] at plain
        exact off.give id plain
      · cases run
        exact off.give id trivial
  | ptrtoint value type =>
      simp only [Machine.execute] at run
      split at run
      · cases run
        exact off.give id trivial
      · cases run
        exact off.give id trivial
  | bitcast value type =>
      cases run
      exact off.give id (off.frame.eval value)
  | call index args => exact off.call (fun func => isStatic index args func rfl) run
  | br target =>
      cases run
      exact ⟨⟨off.frame.regs, off.frame.args⟩, off.callers, off.memory⟩
  | cbr condition thenTarget elseTarget =>
      simp only [Machine.execute] at run
      split at run
      · cases run
        exact ⟨⟨off.frame.regs, off.frame.args⟩, off.callers, off.memory⟩
      · cases run
        exact ⟨⟨off.frame.regs, off.frame.args⟩, off.callers, off.memory⟩
      · cases run
  | ret value => cases run
  | retVoid => cases run
  | unreachable => cases run

private theorem MachineState.OffRequest.step (off : state.OffRequest)
    (carries : CarriesTag module .static state)
    (stepped : Machine.step module state = .next state') : state'.OffRequest := by
  obtain ⟨id, instr, code, pending, returned | run⟩ := step_next_values stepped
  · obtain ⟨value, isValue, returned⟩ := returned
    obtain ⟨caller, callers, waiting, rfl⟩ := returnFrom_next returned
    have waiting : state.callers = caller :: callers := waiting
    have plain : value.OffRequest := by
      rcases isValue with rfl | ⟨val, rfl⟩
      · trivial
      · have fetched : (state.fetched code).frame.OffRequest := ⟨off.frame.regs, off.frame.args⟩
        exact fetched.evalPyVal val
    refine ⟨Frame.OffRequest.assign ?_ _ plain, ?_, off.memory.releaseSlots _⟩
    · exact off.callers caller (by rw [waiting]; exact List.mem_cons_self)
    · intro other member
      exact off.callers other (by rw [waiting]; exact List.mem_cons_of_mem _ member)
  · have fetched : (state.fetched code).OffRequest :=
      ⟨⟨off.frame.regs, off.frame.args⟩, off.callers, off.memory⟩
    refine fetched.execute ?_ run
    rintro index args func rfl found declared isAlloc
    exact carries args (allocation_of_call pending found isAlloc declared)

end

/-! ### The frozen arena -/

/-- The cells of the static arena are kept while it is frozen. -/
structure StaticKept (before after : Memory) : Prop where
  world : after.world = before.world
  frozen : after.frozen = before.frozen
  cells : before.frozen = true → after.blocks.cells .static = before.blocks.cells .static

section

variable {memory memory' : Memory} {state state' start : MachineState}

private theorem StaticKept.refl (memory : Memory) : StaticKept memory memory :=
  ⟨rfl, rfl, fun _ => rfl⟩

private theorem StaticKept.trans {last : Memory} (front : StaticKept memory memory')
    (back : StaticKept memory' last) : StaticKept memory last where
  world := back.world.trans front.world
  frozen := back.frozen.trans front.frozen
  cells frozen := (back.cells (front.frozen.trans frozen)).trans (front.cells frozen)

private theorem staticKept_storeCells {pointer : RtVal} {cells : List Cell}
    (stored : storeCells module memory pointer cells = .ok memory') : StaticKept memory memory' := by
  obtain ⟨block, offset, writable, rfl⟩ := storeCells_ok stored
  refine ⟨rfl, rfl, fun frozen => ?_⟩
  have other : Block.static ≠ block := by
    rintro rfl
    exact Bool.false_ne_true (writable.symm.trans frozen)
  funext index
  exact BlockMemory.put_cells_outside _ (.inl other)

private theorem ExternEffect.staticKept {name : String} {args : List RtVal} {value : RtVal}
    (effect : ExternEffect module name memory args value memory') : StaticKept memory memory' := by
  cases effect with
  | allocated isAlloc evaluated run =>
      unfold externArenaAlloc at run
      rw [Outcome.bind_eq_ok_iff] at run
      obtain ⟨⟨arenas, address⟩, -, run⟩ := run
      cases run
      exact ⟨rfl, rfl, fun _ => rfl⟩
  | undetermined => exact .refl _
  | nothing => exact .refl _
  | number value response => exact ⟨rfl, rfl, fun _ => rfl⟩
  | mapped size => exact ⟨rfl, rfl, fun _ => rfl⟩
  | released index => exact ⟨rfl, rfl, fun _ => rfl⟩
  | copied isDst isSrc loaded stored => exact staticKept_storeCells stored
  | found distance isText stored => exact staticKept_storeCells stored

private theorem Effect.staticKept {id : Nat} {instr : Instr}
    (effect : Effect module state id instr state') : StaticKept state.memory state'.memory := by
  cases effect with
  | result value asked noCall => exact ⟨rfl, rfl, fun _ => rfl⟩
  | slot type => exact ⟨rfl, rfl, fun _ => rfl⟩
  | stored value ptr memory run => exact staticKept_storeCells run
  | jumped target noCall leads => exact .refl _
  | entered index args func entry found defined => exact .refl _
  | called index args func result value memory asked found declared run =>
      have kept := (effect_of_callExtern run).staticKept
      exact ⟨kept.world, kept.frozen, kept.cells⟩

private theorem staticKept_releaseSlots (slots : List Nat) :
    StaticKept memory (releaseSlots memory slots) :=
  ⟨rfl, rfl, fun _ => by rw [releaseSlots_cells]⟩

private theorem staticKept_step (stepped : step module state = .next state') :
    StaticKept state.memory state'.memory := by
  obtain ⟨id, instr, code, pending, returned | run⟩ := step_next_cases stepped
  · obtain ⟨value, returned⟩ := returned
    obtain ⟨caller, callers, -, rfl⟩ := returnFrom_next returned
    exact staticKept_releaseSlots _
  · exact (effect_of_execute run).staticKept

private theorem staticKept_reached (reached : Reaches (step module) start state) :
    StaticKept start.memory state.memory := by
  let kept (state : MachineState) : Prop := StaticKept start.memory state.memory
  have initially : kept start := .refl _
  have preserved (before after : MachineState) (_ : Reaches (step module) start before)
      (keeps : kept before) (stepped : step module before = .next after) : kept after :=
    StaticKept.trans keeps (staticKept_step stepped)
  have holds : kept state := Reaches.invariant preserved initially reached
  exact holds

private theorem staticKept_halts {returned : Returned}
    (halted : Halts (step module) start (.ok returned)) :
    StaticKept start.memory returned.memory := by
  obtain ⟨last, reached, stopped⟩ := halted.last
  rw [step_halt_memory stopped]
  exact (staticKept_reached reached).trans (staticKept_releaseSlots _)

end

private theorem staticKept_handleState {memory : Memory} {event : Bytes} {residue : Nat → Cell}
    {start : MachineState} (called : handleState module memory event residue = some start) :
    StaticKept memory start.memory := by
  obtain ⟨index, -, isCalled⟩ := Option.bind_eq_some_iff.mp called
  rw [memory_callState isCalled]
  refine ⟨rfl, rfl, fun _ => ?_⟩
  funext offset
  rfl

/-- The memory of the process at any time. -/
inductive InProcess (module : Module) : Memory → Prop where
  | initialising {arenas : Runtime.Arenas} {world : World} {start state : MachineState}
      (mappings : Mappings)
      (mapped : initialArenas mappings.staticBase mappings.reqBase = .ok arenas)
      (called : initState module (initialMemory module arenas world) = some start)
      (reached : Reaches (step module) start state) : InProcess module state.memory
  | serving {memory : Memory} (serving : Serving module memory) : InProcess module memory
  | handling {memory : Memory} {event : Bytes} {residue : Nat → Cell} {start state : MachineState}
      (serving : Serving module memory) (fits : event.length < receiveBufferSize)
      (called : handleState module memory event residue = some start)
      (reached : Reaches (step module) start state) : InProcess module state.memory

/-- A field of the static arena holds an address of the request arena. -/
def ForwardPointer (memory : Memory) : Prop :=
  ∃ offset target, memory.blocks.range .static offset 8 = encode (.ptr .req target) 8

def StaticOffRequest (memory : Memory) : Prop :=
  ∀ offset, (memory.blocks.cells .static offset).OffRequest

private theorem StaticOffRequest.noForward {memory : Memory} (off : StaticOffRequest memory) :
    ¬ForwardPointer memory := by
  rintro ⟨offset, target, same⟩
  have first : memory.blocks.cells .static (offset + 0) = .ptrPart .req target 0 :=
    (List.cons.inj same).1
  have held := off (offset + 0)
  rw [first] at held
  exact held rfl

private theorem StaticOffRequest.kept {memory memory' : Memory} (off : StaticOffRequest memory)
    (frozen : memory.frozen = true) (kept : StaticKept memory memory') :
    StaticOffRequest memory' := by
  intro offset
  rw [kept.cells frozen]
  exact off offset

private theorem offRequest_initialMemory {arenas : Runtime.Arenas} {world : World}
    (plain : ∀ count, (world.value count).OffRequest) :
    (initialMemory module arenas world).OffRequest := by
  refine ⟨fun block _ offset => ?_, plain⟩
  cases block <;> trivial

private theorem offRequest_callState {index : Nat} {memory : Memory} {state : MachineState}
    (off : memory.OffRequest) (called : callState module index [] memory = some state) :
    state.OffRequest := by
  obtain ⟨func, entry, -, -, rfl⟩ := callState_eq_some called
  exact ⟨⟨fun _ => trivial, fun _ member => (List.not_mem_nil member).elim⟩,
    fun _ member => (List.not_mem_nil member).elim, off⟩

/-- While `lambpie_init` runs, nothing points into the request arena. -/
private theorem offRequest_init {tree : List Node} (compiled : compile tree = .ok module)
    (allocates : AllocatesFor module .static "lambpie_init") {arenas : Runtime.Arenas}
    {world : World} (plain : ∀ count, (world.value count).OffRequest) {start state : MachineState}
    (called : initState module (initialMemory module arenas world) = some start)
    (reached : Reaches (step module) start state) : state.OffRequest := by
  obtain ⟨index, named, called⟩ := Option.bind_eq_some_iff.mp called
  have starts : start.OffRequest := offRequest_callState (offRequest_initialMemory plain) called
  refine Reaches.invariant (fun before after toBefore off stepped => ?_) starts reached
  exact off.step (run_carriesTag allocates (codeTagged_of_compile compiled) named called toBefore).1
    stepped

private theorem staticOffRequest_serving {tree : List Node} (compiled : compile tree = .ok module)
    (allocates : AllocatesFor module .static "lambpie_init") {memory : Memory}
    (serving : Serving module memory) (plain : ∀ count, (memory.world.value count).OffRequest) :
    memory.frozen = true ∧ StaticOffRequest memory := by
  induction serving with
  | @booted arenas world start returned mappings mapped called halted =>
      obtain ⟨last, reached, stopped⟩ := halted.last
      have kept := staticKept_halts halted
      obtain ⟨index, -, isCalled⟩ := Option.bind_eq_some_iff.mp called
      rw [memory_callState isCalled] at kept
      have sameWorld : returned.memory.world = world := kept.world
      have plain (count : Nat) : (returned.memory.world.value count).OffRequest := plain count
      rw [sameWorld] at plain
      have off := offRequest_init compiled allocates plain called reached
      refine ⟨rfl, fun offset => ?_⟩
      change (returned.memory.blocks.cells .static offset).OffRequest
      rw [step_halt_memory stopped, releaseSlots_cells]
      exact off.memory.cells .static Block.noConfusion offset
  | @served memory event residue start returned before fits called halted ih =>
      have kept := (staticKept_handleState called).trans (staticKept_halts halted)
      have plain (count : Nat) : (returned.memory.world.value count).OffRequest := plain count
      rw [kept.world] at plain
      obtain ⟨frozen, off⟩ := ih plain
      have after := off.kept frozen kept
      exact ⟨kept.frozen.trans frozen, after⟩

/-- Unless `lambpie_init` leads to an allocation of the request arena, or the world
supplies an address of it, no field of the static arena ever holds one. -/
theorem no_forwardPointer {tree : List Node} (compiled : compile tree = .ok module)
    (allocates : AllocatesFor module .static "lambpie_init") {memory : Memory}
    (inProcess : InProcess module memory)
    (plain : ∀ count, (memory.world.value count).OffRequest) : ¬ForwardPointer memory := by
  cases inProcess with
  | @initialising arenas world start state mappings mapped called reached =>
      have kept := staticKept_reached reached
      obtain ⟨index, -, isCalled⟩ := Option.bind_eq_some_iff.mp called
      rw [memory_callState isCalled] at kept
      have sameWorld : state.memory.world = world := kept.world
      rw [sameWorld] at plain
      have off := offRequest_init compiled allocates plain called reached
      exact StaticOffRequest.noForward (off.memory.cells .static Block.noConfusion)
  | serving serving => exact (staticOffRequest_serving compiled allocates serving plain).2.noForward
  | @handling before event residue start state serving fits called reached =>
      have kept := (staticKept_handleState called).trans (staticKept_reached reached)
      rw [kept.world] at plain
      obtain ⟨frozen, off⟩ := staticOffRequest_serving compiled allocates serving plain
      exact (off.kept frozen kept).noForward

private theorem world_bootFor {mappings : Mappings} {steps : Nat} {memory : Memory}
    (booted : bootFor module mappings steps = some memory) : memory.world = .silent := by
  unfold bootFor at booted
  obtain ⟨start, called, booted⟩ := Option.bind_eq_some_iff.mp booted
  split at booted
  · rename_i returned run
    cases booted
    have kept := staticKept_halts ⟨steps, run⟩
    obtain ⟨index, -, isCalled⟩ := Option.bind_eq_some_iff.mp called
    rw [memory_callState isCalled] at kept
    exact kept.world
  · cases booted

/-- `class Box` with a field `response: Response`. -/
def boxClass : Node :=
  .classDef "Box" [.annAssign (.name "response") (.name "Response") none] []

/-- `box: Box = Box(value)` at the top level. -/
def boxProgram (value : Node) : List Node :=
  [eventClass, responseClass, boxClass, handleWith [],
    .annAssign (.name "box") (.name "Box") (some (.call (.name "Box") [value] []))]

/-- While an event is handled after `box: Box = Box(Response(1))`. -/
theorem no_forwardPointer_example :
    ∃ module memory, compileProgram (boxProgram (.call (.name "Response") [one] [])) = .ok module ∧
      InProcess module memory ∧
      memory.blocks.range .static 8 8 = encode (.ptr .static 16) 8 ∧
      memory.arenas.reqArena.cursor ≠ memory.arenas.reqArena.base ∧ ¬ForwardPointer memory := by
  obtain ⟨module, compiled, starts, closed, owned, evaluated⟩ : ∃ module,
      compileProgram (boxProgram (.call (.name "Response") [one] [])) = .ok module ∧
        (∀ func ∈ module.functions, func.name = "lambpie_init" →
          ∀ label ∈ func.entry, label.func ∈ [10, 11, 19]) ∧
        (∀ written ∈ module.code, written.block.func ∈ [10, 11, 19] →
          ∀ target ∈ leadsTo module written.instr, target.func ∈ [10, 11, 19]) ∧
        (∀ written ∈ module.code, written.block.func ∈ [10, 11, 19] →
          ∀ args ∈ allocationArgs module written.instr,
            hasConstantTag args = true ∧ module.tagOf written.block.func = .static) ∧
        (bootFor module sampleMappings 29).any (fun memory =>
          (handleState module memory numberEvent fun _ => .byte 0).any fun start =>
            decide ((runFor (step module) 20 start).Running fun state =>
              state.memory.blocks.range .static 8 8 = encode (.ptr .static 16) 8 ∧
                state.memory.arenas.reqArena.cursor ≠ state.memory.arenas.reqArena.base)) = true :=
    exists_compiled_of_check (by decide +kernel)
  obtain ⟨memory, booted, evaluated⟩ := (Option.any_eq_true _ _).mp evaluated
  obtain ⟨start, called, evaluated⟩ := (Option.any_eq_true _ _).mp evaluated
  obtain ⟨state, reached, inStatic, inRequest⟩ :=
    exists_reaches_of_runFor (step module) _ 20 start (of_decide_eq_true evaluated)
  have allocates : AllocatesFor module .static "lambpie_init" :=
    fun written member leads args isAllocation =>
      owned written member (leads.func_mem starts closed) args isAllocation
  have inProcess : InProcess module state.memory :=
    .handling (serving_bootFor booted) (by decide) called reached
  have sameWorld : state.memory.world = .silent :=
    ((staticKept_handleState called).trans (staticKept_reached reached)).world.trans
      (world_bootFor booted)
  have plain (count : Nat) : (state.memory.world.value count).OffRequest := by
    rw [sameWorld]
    trivial
  exact ⟨module, state.memory, compiled, inProcess, inStatic, inRequest,
    no_forwardPointer compiled allocates inProcess plain⟩

/-- After `box: Box = Box(handle(Request(1)))` the box holds the first address of
the request arena. -/
theorem box_holds_request :
    ∃ module, compileProgram (boxProgram (.call (.name "handle")
        [.call (.name "Request") [one] []] [])) = .ok module ∧
      ¬∀ memory, InProcess module memory → ¬ForwardPointer memory := by
  obtain ⟨module, compiled, evaluated⟩ : ∃ module,
      compileProgram (boxProgram (.call (.name "handle")
        [.call (.name "Request") [one] []] [])) = .ok module ∧
        (bootFor module sampleMappings 52).any (fun memory => decide
          (memory.blocks.range .static 8 8 = encode (.ptr .req 0) 8)) = true :=
    exists_compiled_of_check (by decide +kernel)
  refine ⟨module, compiled, fun never => ?_⟩
  obtain ⟨memory, booted, evaluated⟩ := (Option.any_eq_true _ _).mp evaluated
  exact never memory (.serving (serving_bootFor booted)) ⟨8, 0, of_decide_eq_true evaluated⟩

end Lambpie.Machine

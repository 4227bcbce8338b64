/-
The arena that a running program allocates from.

The tag of an allocation is fixed where the compiler wrote it, so it follows
the function that the instruction stands in and not the caller.  A run keeps to
one arena exactly where its allocations stand in functions of that arena.
-/
import Lambpie.Compiler.RequestCode
import Lambpie.Compiler.Dropped
import Lambpie.Machine.EventLoop
import Lambpie.Machine.StepCases

namespace Lambpie.Machine

open Foundations
open Lambpie.Compiler
open Lambpie.Runtime (Bytes Word Arenas lambpieArenaAlloc lambpieArenaAlloc_ok_iff
  arenaStatic)

def allocationArgs (module : Module) : Instr → Option (List PyVal)
  | .call index args =>
      match module.functions[index]? with
      | some func =>
          if func.name = "lambpie_arena_alloc" ∧ func.entry = none then some args
          else none
      | none => none
  | _ => none

def MachineState.allocation (module : Module) (state : MachineState) :
    Option (List PyVal) :=
  state.frame.code.head?.bind fun next => allocationArgs module next.2

def CarriesTag (module : Module) (tag : ArenaTag) (state : MachineState) : Prop :=
  ∀ args, state.allocation module = some args →
    (args.map (evalPyVal state.frame)).head? = some (.i32 (BitVec.ofInt 32 tag.code))

/-- The first argument is an `i32` constant, as in every allocation of an object
or of a wrapped literal. -/
def hasConstantTag : List PyVal → Bool
  | .value { type := .int 32, operand := .int _ } :: _ => true
  | _ => false

private theorem eq_of_hasConstantTag {args : List PyVal} (constant : hasConstantTag args) :
    ∃ number rest, args = .value (i32Const number) :: rest := by
  unfold hasConstantTag at constant
  split at constant
  · exact ⟨_, _, rfl⟩
  · cases constant

/-- Branches and calls lead from the function to the block. -/
inductive LeadsTo (module : Module) (name : String) : Label → Prop where
  | entry {index : Nat} {func : Function} {label : Label}
      (named : functionIndex module name = some index)
      (found : module.functions[index]? = some func)
      (defined : func.entry = some label) : LeadsTo module name label
  | next {written : Emitted} {target : Label} (member : written ∈ module.code)
      (before : LeadsTo module name written.block)
      (leads : target ∈ leadsTo module written.instr) : LeadsTo module name target

/-- The allocations that the function leads to are the compiler's own, with a
constant tag, and stand in functions of the arena. -/
def AllocatesFor (module : Module) (tag : ArenaTag) (name : String) : Prop :=
  ∀ written ∈ module.code, LeadsTo module name written.block →
    ∀ args, allocationArgs module written.instr = some args →
      hasConstantTag args ∧ module.tagOf written.block.func = tag

private theorem inside_leadsTo {module : Module} {name : String} {index : Nat}
    {args : List RtVal} {memory : Memory} {start state : MachineState}
    (named : functionIndex module name = some index)
    (called : callState module index args memory = some start)
    (reached : Reaches (step module) start state) :
    Inside (LeadsTo module name) state := by
  have closed : ClosedBlocks module (LeadsTo module name) :=
    fun _ member before _ leads => .next member before leads
  have starts : Inside (LeadsTo module name) start :=
    inside_callState called fun _ _ found defined => .entry named found defined
  exact starts.reached closed (placed_callState called) reached

private theorem AllocatesFor.carriesTag {module : Module} {tag : ArenaTag} {name : String}
    {state : MachineState} (allocates : AllocatesFor module tag name)
    (tagged : CodeTagged module.tagOf module.names.length module.code)
    (placed : Placed module state) (inside : Inside (LeadsTo module name) state) :
    CarriesTag module tag state := by
  intro args allocation
  obtain ⟨⟨id, instr⟩, isNext, isAllocation⟩ := Option.bind_eq_some_iff.mp allocation
  obtain ⟨code, pending⟩ := List.head?_eq_some_iff.mp isNext
  have written := placed.frame.mem_code pending
  obtain ⟨constant, inArena⟩ := allocates _ written inside.frame args isAllocation
  obtain ⟨number, rest, rfl⟩ := eq_of_hasConstantTag constant
  have isLiteral : instr.tagLiteral = some number := by
    cases instr with
    | call index args =>
        simp only [allocationArgs] at isAllocation
        split at isAllocation
        · split at isAllocation
          · cases isAllocation
            rfl
          · cases isAllocation
        · cases isAllocation
    | _ => cases isAllocation
  have literal := (tagged _ written).2 number isLiteral
  rw [inArena] at literal
  rw [literal]
  rfl

def otherArena (tag : ArenaTag) (memory : Memory) : Lambpie.Runtime.Arena :=
  match tag with
  | .static => memory.arenas.reqArena
  | .req => memory.arenas.staticArena

private theorem externArenaAlloc_other {tag : ArenaTag} {memory : Memory}
    {size : BitVec 64} {value : RtVal} {memory' : Memory}
    (run : externArenaAlloc memory (BitVec.ofInt 32 tag.code) size =
      .ok (value, memory')) :
    otherArena tag memory' = otherArena tag memory := by
  unfold externArenaAlloc at run
  rw [Outcome.bind_eq_ok_iff] at run
  obtain ⟨⟨arenas, address⟩, allocated, run⟩ := run
  cases run
  rcases (lambpieArenaAlloc_ok_iff _ _ _ _ _).mp allocated with
    ⟨isStatic, arena, -, rfl⟩ | ⟨notStatic, arena, -, rfl⟩
  · cases tag with
    | static => rfl
    | req => exact absurd isStatic (by decide)
  · cases tag with
    | static => exact absurd rfl notStatic
    | req => rfl

theorem allocation_of_call {module : Module} {state : MachineState} {id index : Nat}
    {args : List PyVal} {code : List (Nat × Instr)} {func : Function}
    (pending : state.frame.code = (id, .call index args) :: code)
    (found : module.functions[index]? = some func)
    (isAlloc : func.name = "lambpie_arena_alloc") (declared : func.entry = none) :
    state.allocation module = some args := by
  rw [MachineState.allocation, pending]
  simp only [List.head?_cons, Option.bind_some, allocationArgs, found]
  rw [if_pos ⟨isAlloc, declared⟩]

/-- A step whose allocation carries the tag leaves the other arena alone. -/
theorem CarriesTag.step {module : Module} {tag : ArenaTag}
    {state state' : MachineState} (carries : CarriesTag module tag state)
    (stepped : step module state = .next state') :
    otherArena tag state'.memory = otherArena tag state.memory := by
  obtain ⟨id, instr, code, pending, returned | run⟩ := step_next_cases stepped
  · obtain ⟨value, returned⟩ := returned
    obtain ⟨caller, callers, -, rfl⟩ := returnFrom_next returned
    cases tag <;> rfl
  · rcases (effect_of_execute run).arenas with same |
      ⟨index, func, args, number, size, rest, value, rfl, found, isAlloc,
        declared, evaluated, memory, allocated, same⟩
    · have same : state'.memory.arenas = state.memory.arenas := same
      cases tag with
      | static => exact congrArg (·.reqArena) same
      | req => exact congrArg (·.staticArena) same
    · have allocation := allocation_of_call pending found isAlloc declared
      have evaluated : args.map (evalPyVal state.frame) =
          .i32 number :: .i64 size :: rest := evaluated
      have isTag := carries args allocation
      rw [evaluated] at isTag
      cases isTag
      have other := externArenaAlloc_other allocated
      cases tag with
      | static => exact (congrArg (·.reqArena) same).trans other
      | req => exact (congrArg (·.staticArena) same).trans other

/-- In a call of a function that leads to allocations of one arena only, each
carries its tag, and the other arena stays as it is. -/
theorem run_carriesTag {module : Module} {tag : ArenaTag} {name : String}
    {index : Nat} {args : List RtVal} {memory : Memory} {start state : MachineState}
    (allocates : AllocatesFor module tag name)
    (tagged : CodeTagged module.tagOf module.names.length module.code)
    (named : functionIndex module name = some index)
    (called : callState module index args memory = some start)
    (reached : Reaches (step module) start state) :
    CarriesTag module tag state ∧
      otherArena tag state.memory = otherArena tag memory := by
  have carries (state : MachineState) (reached : Reaches (step module) start state) :
      CarriesTag module tag state :=
    allocates.carriesTag tagged ((placed_callState called).reached reached)
      (inside_leadsTo named called reached)
  let untouched (state : MachineState) : Prop :=
    otherArena tag state.memory = otherArena tag memory
  have initially : untouched start := by
    unfold untouched
    rw [memory_callState called]
  have kept (before after : MachineState) (toBefore : Reaches (step module) start before)
      (same : untouched before) (stepped : step module before = .next after) :
      untouched after :=
    ((carries before toBefore).step stepped).trans same
  have same : untouched state := Reaches.invariant kept initially reached
  exact ⟨carries state reached, same⟩

/-- In `lambpie_init` from any memory, and in `lambpie_handle` for any event
from any memory. -/
theorem arena_discipline {tree : List Node} {module : Module}
    (compiled : compile tree = .ok module) (memory : Memory) :
    (AllocatesFor module .static "lambpie_init" →
      ∀ start, initState module memory = some start →
        ∀ state, Reaches (step module) start state →
          CarriesTag module .static state ∧
            state.memory.arenas.reqArena = memory.arenas.reqArena) ∧
    (AllocatesFor module .req "lambpie_handle" →
      ∀ event residue start, handleState module memory event residue = some start →
        ∀ state, Reaches (step module) start state →
          CarriesTag module .req state ∧
            state.memory.arenas.staticArena = memory.arenas.staticArena) := by
  have tagged := codeTagged_of_compile compiled
  constructor
  · intro allocates start called state reached
    obtain ⟨index, named, called⟩ := Option.bind_eq_some_iff.mp called
    exact run_carriesTag allocates tagged named called reached
  · intro allocates event residue start called state reached
    obtain ⟨index, named, called⟩ := Option.bind_eq_some_iff.mp called
    have held := run_carriesTag allocates tagged named called reached
    exact held

instance decidableFound {α : Type} (found : Option α) (property : α → Prop)
    [DecidablePred property] :
    Decidable (∀ value, found = some value → property value) :=
  match found with
  | none => .isTrue fun _ same => nomatch same
  | some value =>
      decidable_of_iff (property value)
        ⟨fun holds _ same => Option.some.inj same ▸ holds, fun holds => holds value rfl⟩

instance (module : Module) (tag : ArenaTag) : DecidablePred (CarriesTag module tag) :=
  fun _ => inferInstanceAs (Decidable (∀ args, _ = some args → _))

/-- `{"n":1}`. -/
def numberEvent : Bytes := [0x7B, 0x22, 0x6E, 0x22, 0x3A, 0x31, 0x7D]

/-- `handle` answers with `Response(double(event.n), "ok")`. -/
def answerProgram : List Node :=
  [eventClass, .classDef "Response" [intField "n", .annAssign (.name "s") (.name "str") none] [],
    doubleFunction,
    .functionDef "handle" [("event", some (.name "Request"))] (some (.name "Response"))
      [.return_ (some (.call (.name "Response")
        [.call (.name "double") [.attribute (.name "event") "n"] [],
          .constant (.str "ok")] []))] []]

private theorem functionIndex_name {module : Module} {name : String} {index : Nat}
    {func : Function} (named : functionIndex module name = some index)
    (found : module.functions[index]? = some func) : func.name = name := by
  obtain ⟨bound, isName, -⟩ := List.findIdx?_eq_some_iff_getElem.mp named
  rw [List.getElem?_eq_getElem bound] at found
  cases found
  exact of_decide_eq_true isName

/-- A function leads only to those of a set that no branch and no call leads out
of. -/
theorem LeadsTo.func_mem {module : Module} {name : String} {funcs : List Nat}
    (starts : ∀ func ∈ module.functions, func.name = name →
      ∀ label ∈ func.entry, label.func ∈ funcs)
    (closed : ∀ written ∈ module.code, written.block.func ∈ funcs →
      ∀ target ∈ leadsTo module written.instr, target.func ∈ funcs)
    {label : Label} (leads : LeadsTo module name label) : label.func ∈ funcs := by
  induction leads with
  | entry named found defined =>
      exact starts _ (List.mem_of_getElem? found) (functionIndex_name named found) _ defined
  | next member _ leads ih => exact closed _ member ih _ leads

/-- In the run of `handle` for an event, with two allocations of its own after
the one of `lambpie_handle`. -/
theorem arena_discipline_example :
    ∃ module memory start state, compileProgram answerProgram = .ok module ∧
      Serving module memory ∧
      handleState module memory numberEvent (fun _ => .byte 0) = some start ∧
      Reaches (step module) start state ∧ state.callers.length = 1 ∧
      (state.allocation module).isSome = true ∧
      CarriesTag module .req state ∧
      state.memory.arenas.staticArena = memory.arenas.staticArena := by
  obtain ⟨module, compiled, starts, closed, owned, evaluated⟩ : ∃ module,
      compileProgram answerProgram = .ok module ∧
        (∀ func ∈ module.functions, func.name = "lambpie_handle" →
          ∀ label ∈ func.entry, label.func ∈ [10, 11, 12, 20]) ∧
        (∀ written ∈ module.code, written.block.func ∈ [10, 11, 12, 20] →
          ∀ target ∈ leadsTo module written.instr, target.func ∈ [10, 11, 12, 20]) ∧
        (∀ written ∈ module.code, written.block.func ∈ [10, 11, 12, 20] →
          ∀ args ∈ allocationArgs module written.instr,
            hasConstantTag args = true ∧ module.tagOf written.block.func = .req) ∧
        (firstEvent module sampleMappings 20 numberEvent).any (fun start =>
          decide ((runFor (step module) 28 start).Running fun state =>
            state.callers.length = 1 ∧ (state.allocation module).isSome = true)) = true :=
    exists_compiled_of_check (by decide +kernel)
  obtain ⟨start, called, evaluated⟩ := (Option.any_eq_true _ _).mp evaluated
  obtain ⟨memory, serving, called⟩ := serving_firstEvent called
  obtain ⟨state, reached, inHandle, allocating⟩ :=
    exists_reaches_of_runFor (step module) _ 28 start (of_decide_eq_true evaluated)
  have allocates : AllocatesFor module .req "lambpie_handle" :=
    fun written member leads args isAllocation =>
      owned written member (leads.func_mem starts closed) args isAllocation
  exact ⟨module, memory, start, state, compiled, serving, called, reached, inHandle,
    allocating, (arena_discipline compiled memory).2 allocates _ _ start called state reached⟩

/-- `def make(n: int) -> Response: return Response(n)`. -/
def makeFunction : Node :=
  .functionDef "make" [("n", some (.name "int"))] (some (.name "Response"))
    [.return_ (some (.call (.name "Response") [nameN] []))] []

/-- `handle` answers with `make(event.n)`. -/
def helperProgram : List Node :=
  [eventClass, responseClass, makeFunction,
    .functionDef "handle" [("event", some (.name "Request"))] (some (.name "Response"))
      [.return_ (some (.call (.name "make") [.attribute (.name "event") "n"] []))] []]

/-- The object that the helper constructs comes from the static arena. -/
theorem helper_allocates_static :
    ∃ module, compileProgram helperProgram = .ok module ∧
      ¬∀ memory, Serving module memory →
        ∀ event residue start, handleState module memory event residue = some start →
          ∀ state, Reaches (step module) start state → CarriesTag module .req state := by
  obtain ⟨module, compiled, evaluated⟩ : ∃ module,
      compileProgram helperProgram = .ok module ∧
        (firstEvent module sampleMappings 20 numberEvent).any (fun start =>
          decide ((runFor (step module) 20 start).Running
            fun state => ¬CarriesTag module .req state)) = true :=
    exists_compiled_of_check (by decide +kernel)
  refine ⟨module, compiled, fun always => ?_⟩
  obtain ⟨start, called, evaluated⟩ := (Option.any_eq_true _ _).mp evaluated
  obtain ⟨memory, serving, called⟩ := serving_firstEvent called
  obtain ⟨state, reached, wrong⟩ :=
    exists_reaches_of_runFor (step module) _ 20 start (of_decide_eq_true evaluated)
  exact wrong (always memory serving _ _ start called state reached)

end Lambpie.Machine

/-
The process around a compiled module.

`_start` initialises both arenas, runs `lambpie_init` and freezes the static
arena; then every event is handled by `lambpie_handle` and the request arena
reset.  An event lies in the receive buffer with a NUL after it; what follows
is left from earlier messages.
-/
import Lambpie.Compiler.Entry
import Lambpie.Machine.Step

namespace Lambpie.Machine

open Foundations
open Lambpie.Compiler
open Lambpie.Runtime (Bytes Word Arenas arenaInit arenaReset)

def staticArenaSize : Nat := 64 * 1024
def reqArenaSize : Nat := 256 * 1024

/-- `MAX_REQUEST_SIZE` with the header room of the receive buffer. -/
def receiveBufferSize : Nat := 6 * 1048576 + 8 * 1024

/-- `writer.capacity()` of the event loop, the size of the response buffer. -/
def responseCapacity : Nat := 6 * 1048576

def globalBytes (module : Module) (index : Nat) : Bytes :=
  ((module.globals[index]?).map (·.bytes)).getD []

/-- The blocks of a process before its first call: the initialised globals,
the mapped arenas, which read as zero, and the receive buffer. -/
def initialBlocks (module : Module) : BlockMemory Block Cell where
  size
    | .global index => (globalBytes module index).length
    | .static => staticArenaSize
    | .req => reqArenaSize
    | .event => receiveBufferSize
    | _ => 0
  cells
    | .global index, offset => .byte ((globalBytes module index)[offset]?.getD 0)
    | _, _ => .byte 0

/-- `arena_init` on both mappings. -/
def initialArenas (staticBase reqBase : Word) : Outcome Arenas := do
  let staticArena ← arenaInit (some staticBase) (BitVec.ofNat 64 staticArenaSize)
  let reqArena ← arenaInit (some reqBase) (BitVec.ofNat 64 reqArenaSize)
  pure { staticArena, reqArena }

def initialMemory (module : Module) (arenas : Arenas) (world : World) : Memory where
  blocks := initialBlocks module
  arenas := arenas
  frozen := false
  response := List.replicate responseCapacity 0
  nextStack := 0
  nextHeap := 0
  world := world
  asked := 0

def functionIndex (module : Module) (name : String) : Option Nat :=
  module.functions.findIdx? (·.name = name)

/-- The call of `lambpie_init`. -/
def initState (module : Module) (memory : Memory) : Option MachineState := do
  let index ← functionIndex module "lambpie_init"
  callState module index [] memory

/-- `arena_freeze(&static_arena)`. -/
def freeze (memory : Memory) : Memory := { memory with frozen := true }

/-- The event in the receive buffer, which keeps `residue` after it. -/
def deliver (memory : Memory) (event : Bytes) (residue : Nat → Cell) : Memory :=
  { memory with
    blocks := { memory.blocks with
      cells := fun block offset =>
        if block = .event then
          if offset < event.length then .byte (event[offset]?.getD 0)
          else if offset = event.length then .byte 0
          else residue offset
        else memory.blocks.cells block offset } }

/-- The call of `lambpie_handle` for an event. -/
def handleState (module : Module) (memory : Memory) (event : Bytes)
    (residue : Nat → Cell) : Option MachineState := do
  let index ← functionIndex module "lambpie_handle"
  callState module index
    [.ptr .event 0, .i64 (BitVec.ofNat 64 event.length), .ptr .response 0,
      .i64 (BitVec.ofNat 64 responseCapacity)]
    (deliver memory event residue)

/-- Where the arenas are mapped, below the end of the address space. -/
structure Mappings where
  staticBase : Word
  reqBase : Word
  staticFits : staticBase.toNat + staticArenaSize < 2 ^ 64
  reqFits : reqBase.toNat + reqArenaSize < 2 ^ 64

/-- `arena_reset(&req_arena)`. -/
def resetRequests (memory : Memory) : Memory :=
  { memory with
    arenas := { memory.arenas with reqArena := arenaReset memory.arenas.reqArena } }

/-- The memory before an event: after `lambpie_init`, or after the events
before it. -/
inductive Serving (module : Module) : Memory → Prop where
  | booted {arenas : Arenas} {world : World} {start : MachineState} {returned : Returned}
      (mappings : Mappings)
      (mapped : initialArenas mappings.staticBase mappings.reqBase = .ok arenas)
      (called : initState module (initialMemory module arenas world) = some start)
      (halted : Halts (step module) start (.ok returned)) :
      Serving module (freeze returned.memory)
  | served {memory : Memory} {event : Bytes} {residue : Nat → Cell}
      {start : MachineState} {returned : Returned}
      (before : Serving module memory)
      (fits : event.length < receiveBufferSize)
      (called : handleState module memory event residue = some start)
      (halted : Halts (step module) start (.ok returned)) :
      Serving module (resetRequests returned.memory)

def Mappings.arenas (mappings : Mappings) : Arenas where
  staticArena :=
    { base := mappings.staticBase, cursor := mappings.staticBase
      limit := mappings.staticBase + BitVec.ofNat 64 staticArenaSize }
  reqArena :=
    { base := mappings.reqBase, cursor := mappings.reqBase
      limit := mappings.reqBase + BitVec.ofNat 64 reqArenaSize }

def World.silent : World where
  value _ := .undefined
  garbage _ _ := 0

def bootFor (module : Module) (mappings : Mappings) (steps : Nat) :
    Option Memory := do
  let start ← initState module (initialMemory module mappings.arenas .silent)
  match runFor (step module) steps start with
  | .halt (.ok returned) => some (freeze returned.memory)
  | _ => none

theorem serving_bootFor {module : Module} {mappings : Mappings} {steps : Nat}
    {memory : Memory} (booted : bootFor module mappings steps = some memory) :
    Serving module memory := by
  unfold bootFor at booted
  obtain ⟨start, called, booted⟩ := Option.bind_eq_some_iff.mp booted
  split at booted
  · rename_i returned run
    cases booted
    have mapped : initialArenas mappings.staticBase mappings.reqBase =
        .ok mappings.arenas := rfl
    exact .booted mappings mapped called ⟨steps, run⟩
  · cases booted

def firstEvent (module : Module) (mappings : Mappings) (steps : Nat)
    (event : Bytes) : Option MachineState := do
  let memory ← bootFor module mappings steps
  handleState module memory event fun _ => .byte 0

theorem serving_firstEvent {module : Module} {mappings : Mappings} {steps : Nat}
    {event : Bytes} {start : MachineState}
    (called : firstEvent module mappings steps event = some start) :
    ∃ memory, Serving module memory ∧
      handleState module memory event (fun _ => .byte 0) = some start := by
  obtain ⟨memory, booted, called⟩ := Option.bind_eq_some_iff.mp called
  exact ⟨memory, serving_bootFor booted, called⟩

def sampleMappings : Mappings where
  staticBase := 0x10000
  reqBase := 0x40000
  staticFits := by decide
  reqFits := by decide

/-- An accepted program with a property, by evaluation. -/
theorem exists_compiled_of_check {tree : List Node} {property : Module → Prop}
    [DecidablePred property]
    (evaluated : (compileProgram tree).toOption.any (fun module => property module) = true) :
    ∃ module, compileProgram tree = .ok module ∧ property module := by
  cases compiled : compileProgram tree with
  | ok module =>
      rw [compiled] at evaluated
      exact ⟨module, rfl, of_decide_eq_true evaluated⟩
  | error error =>
      rw [compiled] at evaluated
      cases evaluated

end Lambpie.Machine

/-
Running a compiled module, one instruction at a time.

Undefined behaviour and accesses outside a block are the outcome `fault`.  An
instruction that LLVM would reject, such as an addition of pointers, is a
fault too.  A value that depends on what is not modelled, such as what `atoi`
returns or how two objects lie in memory, is the next one of the world's, which
may be any.
-/
import Lambpie.Foundations.Transition
import Lambpie.Machine.Value

namespace Lambpie.Machine

open Foundations
open Lambpie.Compiler
open Lambpie.Runtime (Bytes Writer jsonGetStr jsonGetInt jsonOpen jsonClose
  jsonWriteStr jsonWriteInt lambpieArenaAlloc arenaStatic)

/-- A function activation: the rest of the current block, the registers, the
arguments, the stack slots allocated so far, and the register of the caller
that receives the result. -/
structure Frame where
  block : Label
  code : List (Nat × Instr)
  regs : Nat → RtVal
  args : List RtVal
  slots : List Nat
  dst : Nat

structure MachineState where
  frame : Frame
  callers : List Frame
  memory : Memory

structure Returned where
  value : RtVal
  memory : Memory

def Frame.assign (frame : Frame) (register : Nat) (value : RtVal) : Frame :=
  { frame with
    regs := fun other => if other = register then value else frame.regs other }

def MachineState.assign (state : MachineState) (register : Nat)
    (value : RtVal) : MachineState :=
  { state with frame := state.frame.assign register value }

/-- The register takes the value, or the world's if it is not determined. -/
def MachineState.give (state : MachineState) (register : Nat) :
    RtVal → MachineState
  | .undefined =>
      MachineState.assign
        { state with memory := { state.memory with asked := state.memory.asked + 1 } }
        register (state.memory.world.value state.memory.asked)
  | value => state.assign register value

def enter (module : Module) (entry : Label) (args : List RtVal) (dst : Nat) :
    Frame where
  block := entry
  code := module.block entry
  regs := fun _ => .undefined
  args := args
  slots := []
  dst := dst

def evalInt (type : LType) (number : Int) : RtVal :=
  match type with
  | .int 1 => .i1 (number % 2 = 1)
  | .int 8 => .i8 (UInt8.ofInt number)
  | .int 32 => .i32 (BitVec.ofInt 32 number)
  | .int 64 => .i64 (BitVec.ofInt 64 number)
  | _ => .undefined

def eval (frame : Frame) (value : Value) : RtVal :=
  match value.operand with
  | .reg id => frame.regs id
  | .arg index => (frame.args[index]?).getD .undefined
  | .int number => evalInt value.type number
  | .bool value' => if value.type = .i1 then .i1 value' else .undefined
  | .null => .ptr .null 0
  | .global index => .ptr (.global index) 0
  | .func _ => .undefined

/-- An operand that is no LLVM value has no text in the module. -/
def evalPyVal (frame : Frame) : PyVal → RtVal
  | .value value => eval frame value
  | _ => .undefined

/-- `none` is undefined behaviour, `some undefined` a value that may be anything:
a shift by the width or more. -/
def evalBinop {width : Nat} (op : BinOpcode) (make : BitVec width → RtVal)
    (lhs rhs : BitVec width) : Option RtVal :=
  match op with
  | .add => some (make (lhs + rhs))
  | .sub => some (make (lhs - rhs))
  | .mul => some (make (lhs * rhs))
  | .and => some (make (lhs &&& rhs))
  | .or => some (make (lhs ||| rhs))
  | .xor => some (make (lhs ^^^ rhs))
  | .shl =>
      if rhs.toNat < width then some (make (lhs <<< rhs.toNat)) else some .undefined
  | .lshr =>
      if rhs.toNat < width then some (make (lhs >>> rhs.toNat)) else some .undefined
  | .srem =>
      if rhs = 0 ∨ (lhs = BitVec.intMin width ∧ rhs = -1) then none
      else some (make (lhs.srem rhs))

def bitOfBool (value : Bool) : BitVec 1 := BitVec.ofBool value

def binopValue (op : BinOpcode) (lhs rhs : RtVal) : Option RtVal :=
  match lhs, rhs with
  | .i64 lhs, .i64 rhs => evalBinop op .i64 lhs rhs
  | .i32 lhs, .i32 rhs => evalBinop op .i32 lhs rhs
  | .i8 lhs, .i8 rhs =>
      evalBinop op (fun bits => .i8 (UInt8.ofBitVec bits)) lhs.toBitVec
        rhs.toBitVec
  | .i1 lhs, .i1 rhs =>
      evalBinop op (fun bits => .i1 (bits = 1)) (bitOfBool lhs) (bitOfBool rhs)
  | _, _ => some .undefined

def comparesInt {width : Nat} (predicate : Predicate)
    (lhs rhs : BitVec width) : Bool :=
  match predicate with
  | .eq => lhs = rhs
  | .ne => lhs ≠ rhs
  | .slt => lhs.slt rhs
  | .sle => lhs.sle rhs
  | .sgt => rhs.slt lhs
  | .sge => rhs.sle lhs

def isObject (blocks : BlockMemory Block Cell) (pointer : Block × Int) : Bool :=
  pointer = (.null, 0) ∨ 0 ≤ pointer.2 ∧ pointer.2 < blocks.size pointer.1

/-- Of pointers into different blocks it is only known that they differ. -/
def comparesPtr (blocks : BlockMemory Block Cell) (predicate : Predicate)
    (lhs rhs : Block × Int) : RtVal :=
  if lhs.1 = rhs.1 then
    match predicate with
    | .eq => .i1 (lhs.2 = rhs.2)
    | .ne => .i1 (lhs.2 ≠ rhs.2)
    | .slt => .i1 (lhs.2 < rhs.2)
    | .sle => .i1 (lhs.2 ≤ rhs.2)
    | .sgt => .i1 (rhs.2 < lhs.2)
    | .sge => .i1 (rhs.2 ≤ lhs.2)
  else if isObject blocks lhs ∧ isObject blocks rhs then
    match predicate with
    | .eq => .i1 false
    | .ne => .i1 true
    | _ => .undefined
  else .undefined

def icmpValue (blocks : BlockMemory Block Cell) (predicate : Predicate)
    (lhs rhs : RtVal) : RtVal :=
  match lhs, rhs with
  | .i64 lhs, .i64 rhs => .i1 (comparesInt predicate lhs rhs)
  | .i32 lhs, .i32 rhs => .i1 (comparesInt predicate lhs rhs)
  | .i8 lhs, .i8 rhs => .i1 (comparesInt predicate lhs.toBitVec rhs.toBitVec)
  | .i1 lhs, .i1 rhs => .i1 (comparesInt predicate (bitOfBool lhs) (bitOfBool rhs))
  | .ptr lhsBlock lhsOffset, .ptr rhsBlock rhsOffset =>
      comparesPtr blocks predicate (lhsBlock, lhsOffset) (rhsBlock, rhsOffset)
  | _, _ => .undefined

def indexValue : RtVal → Option Int
  | .i64 value => some value.toInt
  | .i32 value => some value.toInt
  | .i8 value => some value.toBitVec.toInt
  | .i1 value => some (bitOfBool value).toInt
  | _ => none

/-- The distance that the indices move a pointer to the type. -/
def gepOffset (module : Module) (type : LType) : List RtVal → Option Int
  | [] => some 0
  | index :: rest => do
      let number ← indexValue index
      match type with
      | .ptr pointee => do
          let inner ← gepOffset module pointee rest
          pure (number * sizeOf module pointee + inner)
      | .array elem _ => do
          let inner ← gepOffset module elem rest
          pure (number * sizeOf module elem + inner)
      | .struct name =>
          pure (fieldOffset 0 (structElements module name) number.toNat)
      | _ => none

def loadCells (memory : Memory) (pointer : RtVal) (count : Nat) :
    Outcome (List Cell) :=
  match pointer with
  | .ptr block offset =>
      match memory.blocks.load block offset count with
      | some cells => .ok cells
      | none => .fault
  | _ => .fault

/-- The static arena once frozen and constant globals are read-only. -/
def readOnly (module : Module) (memory : Memory) : Block → Bool
  | .static => memory.frozen
  | .global index => ((module.globals[index]?).map (·.isConstant)).getD false
  | _ => false

def storeCells (module : Module) (memory : Memory) (pointer : RtVal)
    (cells : List Cell) : Outcome Memory :=
  match pointer with
  | .ptr block offset =>
      if readOnly module memory block then .fault
      else
        match memory.blocks.store block offset cells with
        | some blocks => .ok { memory with blocks }
        | none => .fault
  | _ => .fault

def loadBytes (memory : Memory) (pointer : RtVal) (count : Nat) :
    Outcome Bytes := do
  let cells ← loadCells memory pointer count
  match cellBytes cells with
  | some bytes => pure bytes
  | none => .fault

def pushSlot (memory : Memory) (size : Nat) : Memory :=
  { memory with
    blocks := memory.blocks.allocate (.stack memory.nextStack) size fun _ => .undefined
    nextStack := memory.nextStack + 1 }

def releaseSlots (memory : Memory) (slots : List Nat) : Memory :=
  { memory with
    blocks := slots.foldl (fun blocks slot => blocks.release (.stack slot))
      memory.blocks }

def externArenaAlloc (memory : Memory) (tag : BitVec 32) (size : BitVec 64) :
    Outcome (RtVal × Memory) := do
  let (arenas, address) ← lambpieArenaAlloc memory.arenas tag size
  let pointer :=
    if tag = arenaStatic then
      RtVal.ptr .static (address - arenas.staticArena.base).toNat
    else RtVal.ptr .req (address - arenas.reqArena.base).toNat
  pure (pointer, { memory with arenas })

def externMalloc (memory : Memory) (size : BitVec 64) :
    Outcome (RtVal × Memory) :=
  .ok (.ptr (.heap memory.nextHeap) 0,
    { memory with
      blocks := memory.blocks.allocate (.heap memory.nextHeap) size.toNat fun index =>
        .byte (memory.world.garbage memory.nextHeap index)
      nextHeap := memory.nextHeap + 1 })

def externFree (memory : Memory) : RtVal → Outcome (RtVal × Memory)
  | .ptr .null 0 => .ok (.undefined, memory)
  | .ptr (.heap index) 0 =>
      .ok (.undefined,
        { memory with blocks := memory.blocks.release (.heap index) })
  | _ => .fault

/-- The number of bytes before the first NUL, if there is one within the count
given. -/
def strlenLoop (memory : Memory) (block : Block) : Nat → Int → Option Nat
  | 0, _ => none
  | count + 1, offset =>
      match loadBytes memory (.ptr block offset) 1 with
      | .ok [byte] =>
          if byte = 0 then some 0
          else (strlenLoop memory block count (offset + 1)).map (· + 1)
      | _ => none

/-- What follows a text without a NUL is not known, nor where a NUL is then. -/
def externStrlen (memory : Memory) : RtVal → Outcome (RtVal × Memory)
  | .ptr block offset =>
      if memory.blocks.InBounds block offset 1 then
        match strlenLoop memory block (memory.blocks.size block) offset with
        | some length => .ok (.i64 (BitVec.ofNat 64 length), memory)
        | none => .ok (.undefined, memory)
      else .fault
  | _ => .fault

def externMemcpy (module : Module) (memory : Memory) (dst src : RtVal)
    (count : BitVec 64) : Outcome (RtVal × Memory) := do
  let cells ← loadCells memory src count.toNat
  let memory ← storeCells module memory dst cells
  pure (dst, memory)

/-- The pointer to a slice of the text, or `NULL`, with `*out_len` written only
in the first case. -/
def externGetStr (module : Module) (memory : Memory) (json : RtVal)
    (jsonLen : BitVec 64) (key : RtVal) (keyLen : BitVec 64) (outLen : RtVal) :
    Outcome (RtVal × Memory) := do
  let text ← loadBytes memory json jsonLen.toNat
  let name ← loadBytes memory key keyLen.toNat
  match ← jsonGetStr text name with
  | none => pure (.ptr .null 0, memory)
  | some slice =>
      match json with
      | .ptr block offset => do
          let memory ← storeCells module memory outLen
            (encode (.i64 (BitVec.ofNat 64 slice.len)) 8)
          pure (.ptr block (offset + slice.start), memory)
      | _ => .fault

def externGetInt (memory : Memory) (json : RtVal) (jsonLen : BitVec 64)
    (key : RtVal) (keyLen : BitVec 64) : Outcome (RtVal × Memory) := do
  let text ← loadBytes memory json jsonLen.toNat
  let name ← loadBytes memory key keyLen.toNat
  let number ← jsonGetInt text name
  pure (.i64 number, memory)

/-- A writer of the runtime on the response buffer, from the position given to
the position returned. -/
def externWrite (memory : Memory) (buf : RtVal) (pos : BitVec 64)
    (write : Writer → Outcome Writer) : Outcome (RtVal × Memory) :=
  if buf = .ptr .response 0 then do
    let writer ← write { buf := memory.response, pos := pos.toNat }
    pure (.i64 (BitVec.ofNat 64 writer.pos),
      { memory with response := writer.buf })
  else .fault

/-- What `printf` and `atoi` return is not determined, so the world's next value
stands for it: what was printed is not kept, and `atoi` returns an `int` where
the module declares 64 bits. -/
def callExtern (module : Module) (name : String) (memory : Memory)
    (args : List RtVal) : Outcome (RtVal × Memory) :=
  match name, args with
  | "lambpie_arena_alloc", .i32 tag :: .i64 size :: _ =>
      externArenaAlloc memory tag size
  | "malloc", .i64 size :: _ => externMalloc memory size
  | "free", pointer :: _ => externFree memory pointer
  | "strlen", pointer :: _ => externStrlen memory pointer
  | "memcpy", dst :: src :: .i64 count :: _ =>
      externMemcpy module memory dst src count
  | "printf", _ :: _ => .ok (.undefined, memory)
  | "atoi", _ :: _ => .ok (.undefined, memory)
  | "json_get_str", [json, .i64 jsonLen, key, .i64 keyLen, outLen] =>
      externGetStr module memory json jsonLen key keyLen outLen
  | "json_get_int", [json, .i64 jsonLen, key, .i64 keyLen] =>
      externGetInt memory json jsonLen key keyLen
  | "json_open", [buf, .i64 pos] => externWrite memory buf pos jsonOpen
  | "json_write_str", [buf, .i64 pos, key, .i64 keyLen, val, .i64 valLen] => do
      let name ← loadBytes memory key keyLen.toNat
      let bytes ← loadBytes memory val valLen.toNat
      externWrite memory buf pos (jsonWriteStr · name bytes)
  | "json_write_int", [buf, .i64 pos, key, .i64 keyLen, .i64 number] => do
      let name ← loadBytes memory key keyLen.toNat
      externWrite memory buf pos (jsonWriteInt · name number)
  | "json_close", [buf, .i64 pos] => externWrite memory buf pos jsonClose
  | _, _ => .fault

def jump (module : Module) (state : MachineState) (target : Label) :
    MachineState :=
  { state with
    frame := { state.frame with block := target, code := module.block target } }

/-- The right operand of a comparison at the type of the left one, which is the
only one written.  A literal takes that type; LLVM rejects one that has no value
of it, and an operand of another type. -/
def rightOperand (type : LType) : PyVal → Option Value
  | .value rhs =>
      match rhs.operand with
      | .int _ => if isIntType type then some { rhs with type } else none
      | .bool _ => if type = .i1 then some { rhs with type } else none
      | .null => if isPtrType type then some { rhs with type } else none
      | _ => if rhs.type = type then some rhs else none
  | _ => none

def callFunction (module : Module) (state : MachineState) (id : Nat)
    (index : Nat) (args : List PyVal) : Outcome MachineState := do
  let values := args.map (evalPyVal state.frame)
  match module.functions[index]? with
  | none => .fault
  | some func =>
      match func.entry with
      | some entry =>
          pure { state with
            frame := enter module entry values id
            callers := state.frame :: state.callers }
      | none => do
          let (value, memory) ← callExtern module func.name state.memory values
          pure (MachineState.give { state with memory } id value)

/-- Every instruction but a return; `id` is its register. -/
def execute (module : Module) (state : MachineState) (id : Nat) :
    Instr → Outcome MachineState
  | .alloca type =>
      let slot := state.memory.nextStack
      let frame := { state.frame with slots := slot :: state.frame.slots }
      pure { state with
        frame := frame.assign id (.ptr (.stack slot) 0)
        memory := pushSlot state.memory (sizeOf module type) }
  | .load ptr =>
      match ptr.type with
      | .ptr type => do
          let cells ← loadCells state.memory (eval state.frame ptr)
            (sizeOf module type)
          pure (state.give id (decode type cells))
      | _ => .fault
  | .store value ptr => do
      let memory ← storeCells module state.memory (eval state.frame ptr)
        (encode (eval state.frame value) (sizeOf module value.type))
      pure { state with memory }
  | .binop op lhs rhs =>
      if isIntType lhs.type then
        match binopValue op (eval state.frame lhs) (eval state.frame rhs) with
        | some result => pure (state.give id result)
        | none => .fault
      else .fault
  | .icmp predicate lhs rhs =>
      match rightOperand lhs.type rhs with
      | some rhs =>
          pure (state.give id
            (icmpValue state.memory.blocks predicate (eval state.frame lhs)
              (eval state.frame rhs)))
      | none => .fault
  | .gep ptr indices =>
      let offset := gepOffset module ptr.type (indices.map (eval state.frame))
      match eval state.frame ptr, offset with
      | .ptr block start, some distance =>
          pure (state.give id (.ptr block (start + distance)))
      | _, _ => pure (state.give id .undefined)
  | .ptrtoint value _ =>
      match eval state.frame value with
      | .ptr .null offset =>
          pure (state.give id (.i64 (BitVec.ofInt 64 offset)))
      | _ => pure (state.give id .undefined)
  | .bitcast value _ => pure (state.give id (eval state.frame value))
  | .call index args => callFunction module state id index args
  | .br target => pure (jump module state target)
  | .cbr condition thenTarget elseTarget =>
      match evalPyVal state.frame condition with
      | .i1 true => pure (jump module state thenTarget)
      | .i1 false => pure (jump module state elseTarget)
      | _ => .fault
  | .ret _ => .fault
  | .retVoid => .fault
  | .unreachable => .fault

/-- The slots of the function are released and its caller goes on. -/
def returnFrom (state : MachineState) (value : RtVal) :
    Progress MachineState (Outcome Returned) :=
  let memory := releaseSlots state.memory state.frame.slots
  match state.callers with
  | [] => .halt (.ok { value, memory })
  | caller :: callers =>
      .next { frame := caller.assign state.frame.dst value, callers, memory }

def progressOf : Outcome MachineState → Progress MachineState (Outcome Returned)
  | .ok state => .next state
  | .exit status message => .halt (.exit status message)
  | .fault => .halt .fault

/-- The next instruction is taken off the frame and executed. -/
def step (module : Module) (state : MachineState) :
    Progress MachineState (Outcome Returned) :=
  match state.frame.code with
  | [] => .halt .fault
  | (id, instr) :: code =>
      let state := { state with frame := { state.frame with code } }
      match instr with
      | .ret value => returnFrom state (evalPyVal state.frame value)
      | .retVoid => returnFrom state .undefined
      | instr => progressOf (execute module state id instr)

def callState (module : Module) (index : Nat) (args : List RtVal)
    (memory : Memory) : Option MachineState := do
  let func ← module.functions[index]?
  let entry ← func.entry
  pure { frame := enter module entry args 0, callers := [], memory }

end Lambpie.Machine

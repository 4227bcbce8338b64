/-
Values and memory of the machine that runs compiled modules.

Integers are kept in memory as their bytes and pointers as fragments, so that a
byte never written, a byte of an integer and a part of a pointer stay apart.
-/
import Lambpie.Foundations.BlockMemory
import Lambpie.Foundations.LittleEndian
import Lambpie.Compiler.LLVM
import Lambpie.Runtime.Arena

namespace Lambpie.Machine

open Foundations
open Lambpie.Compiler
open Lambpie.Runtime (Bytes Arenas)

/-- The two arenas, the receive and the response buffer, and one block for
each global, stack slot and `malloc` call. -/
inductive Block where
  | null
  | global (index : Nat)
  | static
  | req
  | event
  | response
  | stack (index : Nat)
  | heap (index : Nat)
deriving DecidableEq, Repr

inductive Cell where
  | undefined
  | byte (value : UInt8)
  | ptrPart (block : Block) (offset : Int) (index : Nat)
deriving DecidableEq, Repr

/-- `undefined` is any value of its type; `raw` is a value that no instruction
looks into, by its cells. -/
inductive RtVal where
  | undefined
  | i1 (value : Bool)
  | i8 (value : UInt8)
  | i32 (value : BitVec 32)
  | i64 (value : BitVec 64)
  | ptr (block : Block) (offset : Int)
  | raw (cells : List Cell)
deriving DecidableEq, Repr

def roundUp (size align : Nat) : Nat := (size + align - 1) / align * align

/-- Of the element types of a struct, none of which is a struct. -/
def alignOf : LType → Nat
  | .int width => if width ≤ 8 then 1 else width / 8
  | .double => 8
  | .void => 1
  | .ptr _ => 8
  | .array elem _ => alignOf elem
  | .struct _ => 8
  | .function .. => 1

def scalarSize : LType → Nat
  | .int width => if width ≤ 8 then 1 else width / 8
  | .double => 8
  | .void => 0
  | .ptr _ => 8
  | .array elem count => scalarSize elem * count
  | .struct _ => 0
  | .function .. => 0

/-- The offset of the field at an index, the fields before it laid out from
the offset given. -/
def fieldOffset : Nat → List LType → Nat → Nat
  | offset, [], _ => offset
  | offset, type :: _, 0 => roundUp offset (alignOf type)
  | offset, type :: rest, index + 1 =>
      fieldOffset (roundUp offset (alignOf type) + scalarSize type) rest index

/-- The end of the last field, rounded up to the alignment of the struct. -/
def structSize (elements : List LType) : Nat :=
  roundUp (fieldOffset 0 elements elements.length)
    (elements.foldl (fun align type => max align (alignOf type)) 1)

def structElements (module : Module) (name : String) : List LType :=
  ((module.struct? name).bind (·.elements)).getD []

def sizeOf (module : Module) : LType → Nat
  | .struct name => structSize (structElements module name)
  | type => scalarSize type

def encode : RtVal → Nat → List Cell
  | .undefined, size => List.replicate size .undefined
  | .i1 value, _ => [.byte (if value then 1 else 0)]
  | .i8 value, _ => [.byte value]
  | .i32 value, _ => (LittleEndian.encode 4 value.toNat).map .byte
  | .i64 value, _ => (LittleEndian.encode 8 value.toNat).map .byte
  | .ptr block offset, _ => (List.range 8).map (.ptrPart block offset)
  | .raw cells, _ => cells

def cellByte : Cell → Option UInt8
  | .byte value => some value
  | _ => none

def cellBytes : List Cell → Option Bytes
  | [] => some []
  | cell :: rest => do
      let byte ← cellByte cell
      let bytes ← cellBytes rest
      pure (byte :: bytes)

/-- The pointer whose fragments the cells are, or the null pointer of eight
zero bytes. -/
def decodePtr (cells : List Cell) : RtVal :=
  match cells with
  | .ptrPart block offset 0 :: _ =>
      if cells = (List.range 8).map (.ptrPart block offset) then
        .ptr block offset
      else .undefined
  | _ =>
      if cells = List.replicate 8 (.byte 0) then .ptr .null 0 else .undefined

def decodeInt (cells : List Cell) (make : Nat → RtVal) : RtVal :=
  match cellBytes cells with
  | some bytes => make (LittleEndian.decode bytes)
  | none => .undefined

def decode (type : LType) (cells : List Cell) : RtVal :=
  match type with
  | .int 1 => decodeInt cells fun number => .i1 (number % 2 = 1)
  | .int 8 => decodeInt cells fun number => .i8 (UInt8.ofNat number)
  | .int 32 => decodeInt cells fun number => .i32 (BitVec.ofNat 32 number)
  | .int 64 => decodeInt cells fun number => .i64 (BitVec.ofNat 64 number)
  | .ptr _ => decodePtr cells
  | _ => .raw cells

/-- What the machine does not determine: the values it asks for, one after the
other, and the bytes of the memory that each `malloc` hands out. -/
structure World where
  value : Nat → RtVal
  garbage : Nat → Nat → UInt8

/-- `response` is the response buffer and `frozen` that the static arena is
read-only.  The stack and the heap hand out blocks by number; `asked` counts
the values taken from the world. -/
structure Memory where
  blocks : BlockMemory Block Cell
  arenas : Arenas
  frozen : Bool
  response : Bytes
  nextStack : Nat
  nextHeap : Nat
  world : World
  asked : Nat

end Lambpie.Machine

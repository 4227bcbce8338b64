/-
The part of the llvmlite IR builder that the compiler uses.

A module's instructions form one log in the order they were appended; a block
is the entries of the log that name it, and an instruction's register is its
place in the log.  Names of registers and blocks only serve printing and are
left out.
-/
import Lambpie.Runtime.Json

namespace Lambpie.Compiler

open Lambpie.Runtime (Bytes)

mutual

inductive LType where
  | int (width : Nat)
  | double
  | void
  | ptr (pointee : LType)
  | array (elem : LType) (count : Nat)
  | struct (name : String)
  | function (ret : LType) (params : LTypes) (varArg : Bool)

inductive LTypes where
  | nil
  | cons (head : LType) (tail : LTypes)

end

deriving instance DecidableEq for LType, LTypes
deriving instance Repr for LType, LTypes

def LTypes.ofList : List LType → LTypes
  | [] => .nil
  | head :: tail => .cons head (.ofList tail)

def LTypes.toList : LTypes → List LType
  | .nil => []
  | .cons head tail => head :: tail.toList

@[simp] theorem LTypes.toList_ofList (types : List LType) :
    (LTypes.ofList types).toList = types := by
  induction types with
  | nil => rfl
  | cons head tail ih => rw [LTypes.ofList, LTypes.toList, ih]

namespace LType

abbrev i1 : LType := .int 1
abbrev i8 : LType := .int 8
abbrev i32 : LType := .int 32
abbrev i64 : LType := .int 64

end LType

def isIntType : LType → Bool
  | .int _ => true
  | _ => false

def isPtrType : LType → Bool
  | .ptr _ => true
  | _ => false

/-- A basic block: its function and its place among the blocks of the module,
in the order of the `append_basic_block` calls. -/
structure Label where
  func : Nat
  index : Nat
deriving DecidableEq, Repr

inductive Operand where
  | reg (id : Nat)
  | arg (index : Nat)
  | int (value : Int)
  | bool (value : Bool)
  | null
  | global (index : Nat)
  | func (index : Nat)
deriving DecidableEq, Repr

/-- `ir.Constant`, and the address in a global. -/
def Operand.isConstant : Operand → Bool
  | .reg _ | .arg _ | .func _ => false
  | .int _ | .bool _ | .null | .global _ => true

/-- An LLVM value: a constant, an argument or an instruction's result. -/
structure Value where
  type : LType
  operand : Operand
deriving DecidableEq, Repr

/-- What a `visit_` method returns: nothing, a value, a type, or the pair of a
receiver and the function found for its attribute. -/
inductive PyVal where
  | none
  | value (value : Value)
  | type (type : LType)
  | method (receiver : Value) (func : PyVal)
deriving DecidableEq, Repr

inductive BinOpcode where
  | add | sub | mul | and | or | xor | shl | lshr | srem
deriving DecidableEq, Repr

inductive Predicate where
  | eq | ne | slt | sle | sgt | sge
deriving DecidableEq, Repr

/-- Operands that the builder stores without looking at them are `PyVal`s. -/
inductive Instr where
  | alloca (type : LType)
  | load (ptr : Value)
  | store (value : Value) (ptr : Value)
  | binop (op : BinOpcode) (lhs : Value) (rhs : Value)
  | icmp (predicate : Predicate) (lhs : Value) (rhs : PyVal)
  | gep (ptr : Value) (indices : List Value)
  | ptrtoint (value : Value) (type : LType)
  | bitcast (value : Value) (type : LType)
  | call (func : Nat) (args : List PyVal)
  | br (target : Label)
  | cbr (condition : PyVal) (thenTarget : Label) (elseTarget : Label)
  | ret (value : PyVal)
  | retVoid
  | unreachable
deriving DecidableEq, Repr

def Instr.isAlloca : Instr → Bool
  | .alloca _ => true
  | _ => false

def Instr.isTerminator : Instr → Bool
  | .br _ => true
  | .cbr .. => true
  | .ret _ => true
  | .retVoid => true
  | .unreachable => true
  | _ => false

def Instr.isCall : Instr → Bool
  | .call .. => true
  | _ => false

def Instr.targets : Instr → List Label
  | .br target => [target]
  | .cbr _ thenTarget elseTarget => [thenTarget, elseTarget]
  | _ => []

structure Emitted where
  block : Label
  instr : Instr
deriving DecidableEq, Repr

/-- `entry` is the function's first block; a declaration has none. -/
structure Function where
  name : String
  ret : LType
  params : List LType
  varArg : Bool
  entry : Option Label
deriving DecidableEq, Repr

def Function.type (func : Function) : LType :=
  .function func.ret (.ofList func.params) func.varArg

/-- `length` is the length of the declared array type, `bytes` the
initialiser, `isConstant` the `global_constant` flag. -/
structure Global where
  name : String
  length : Nat
  bytes : Bytes
  isConstant : Bool
deriving DecidableEq, Repr

/-- An identified struct type; its body is set once. -/
structure StructType where
  name : String
  elements : Option (List LType)
deriving DecidableEq, Repr

structure Module where
  functions : List Function
  globals : List Global
  structs : List StructType
  blockCount : Nat
  code : List Emitted
deriving DecidableEq, Repr

def Module.empty : Module where
  functions := []
  globals := []
  structs := []
  blockCount := 0
  code := []

def Module.struct? (module : Module) (name : String) : Option StructType :=
  module.structs.find? (·.name = name)

def Module.block (module : Module) (label : Label) : List (Nat × Instr) :=
  (module.code.zipIdx.filter (·.1.block = label)).map fun (entry, id) =>
    (id, entry.instr)

def Module.isTerminated (module : Module) (label : Label) : Bool :=
  module.code.any fun entry => entry.block = label && entry.instr.isTerminator

def Module.nameUsed (module : Module) (name : String) : Bool :=
  module.functions.any (·.name = name) || module.globals.any (·.name = name)

end Lambpie.Compiler

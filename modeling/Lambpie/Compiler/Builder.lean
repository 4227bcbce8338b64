/-
The compiler's state and the builder calls it makes.

A call that Python answers with an exception is a failed computation.  The
builder stands for its current block; it is absent until the first function is
compiled, and a method call on it then is an `AttributeError`.
-/
import Lambpie.Compiler.LLVM
import Lambpie.Compiler.Syntax
import Lambpie.Foundations.StateExcept

namespace Lambpie.Compiler

open Foundations
open Lambpie.Runtime (Bytes)

def Scope (α : Type) : Type := String → Option α

namespace Scope

variable {α : Type}

def empty : Scope α := fun _ => none

def set (scope : Scope α) (key : String) (value : α) : Scope α :=
  fun other => if other = key then some value else scope other

@[simp] theorem empty_apply (key : String) : (empty : Scope α) key = none := rfl

@[simp] theorem set_self (scope : Scope α) (key : String) (value : α) :
    scope.set key value key = some value :=
  if_pos rfl

theorem set_of_ne (scope : Scope α) {key other : String} (value : α)
    (different : other ≠ key) : scope.set key value other = scope other :=
  if_neg different

end Scope

inductive ArenaTag where
  | static
  | req
deriving DecidableEq, Repr

/-- `ARENA_STATIC = 0` and `ARENA_REQ = 1`. -/
def ArenaTag.code : ArenaTag → Int
  | .static => 0
  | .req => 1

structure LayoutField where
  name : String
  index : Nat
  type : LType
deriving DecidableEq, Repr

/-- `attributes` of a class, a dictionary from field names. -/
abbrev Layout := List LayoutField

def Layout.lookup (layout : Layout) (name : String) : Option LayoutField :=
  layout.find? (·.name = name)

/-- A field of a name already there takes its place. -/
def Layout.insert (layout : Layout) (field : LayoutField) : Layout :=
  if layout.any (·.name = field.name) then
    layout.map fun other => if other.name = field.name then field else other
  else layout ++ [field]

/-- The fields of a `FunctionDef` that the compiler reads. -/
structure FunctionNode where
  name : String
  args : List (String × Option Node)
  returns : Option Node
  body : List Node

structure CompilerState where
  module : Module
  types : Scope LType
  globalScope : Scope PyVal
  localScope : Scope Value
  classLayouts : Scope Layout
  builder : Option Label
  currentArena : ArenaTag
  nameCounter : Nat
  handleNode : Option FunctionNode
  initStmts : List Node

namespace CompilerState

def addGlobal (state : CompilerState) (global : Global) : CompilerState :=
  { state with module :=
    { state.module with globals := state.module.globals ++ [global] } }

def addFunction (state : CompilerState) (func : Function) : CompilerState :=
  { state with module :=
    { state.module with functions := state.module.functions ++ [func] } }

def nextLabel (state : CompilerState) (func : Nat) : Label where
  func := func
  index := state.module.blockCount

/-- A block of the function, which is its entry if it is its first. -/
def appendBlock (state : CompilerState) (func : Nat) : CompilerState :=
  { state with module :=
    { state.module with
      blockCount := state.module.blockCount + 1
      functions := state.module.functions.modify func fun function =>
        { function with
          entry := some (function.entry.getD (state.nextLabel func)) } } }

/-- The function is declared and the builder stands in its entry block. -/
def begin (state : CompilerState) (func : Function) : CompilerState :=
  let index := state.module.functions.length
  { (state.addFunction func).appendBlock index with
    builder := some (state.nextLabel index) }

def append (state : CompilerState) (entry : Emitted) : CompilerState :=
  { state with module :=
    { state.module with code := state.module.code ++ [entry] } }

end CompilerState

/-- The message of a `dumping` error goes on with the `ast.dump` of a node; of a
slice these are the bounds. -/
inductive PyErr where
  | typeError (message : String)
  | typeErrorDumping (message : String) (node : List Node)
  | attributeError
  | nameError (message : String)
  | notImplementedError (message : String)
  | notImplementedErrorDumping (message : String) (node : Node)
  | importError (message : String)
  | runtimeError (message : String)
  | keyError (key : String)
  | indexError
  | valueError
  | assertionError
  | duplicatedNameError (name : String)

/-- A method of the compiler. -/
abbrev Visit (α : Type) := Comp CompilerState PyErr α

/-- `x.type` where only an LLVM value has the attribute. -/
def asValue : PyVal → Visit Value
  | .value value => pure value
  | _ => Comp.fail .attributeError

def asValues : List PyVal → Visit (List Value)
  | [] => pure []
  | val :: rest => do
      let value ← asValue val
      let values ← asValues rest
      pure (value :: values)

/-- `x.type.pointee`. -/
def pointee (value : Value) : Visit LType :=
  match value.type with
  | .ptr pointee => pure pointee
  | _ => Comp.fail .attributeError

/-- `type.as_pointer()`, which asserts that the type is not void. -/
def asPointer (type : LType) : Visit LType :=
  if type = .void then Comp.fail .assertionError
  else pure (.ptr type)

/-- `x.type.pointee.name` of an identified struct. -/
def structName (value : Value) : Visit String := do
  match ← pointee value with
  | .struct name => pure name
  | _ => Comp.fail .attributeError

def lookup {α : Type} (scope : CompilerState → Scope α) (key : String) :
    Visit α := do
  match ← Comp.reads fun state => scope state key with
  | some value => pure value
  | none => Comp.fail (.keyError key)

def setLocal (name : String) (value : Value) : Visit Unit :=
  Comp.modify fun state => { state with localScope := state.localScope.set name value }

def setGlobal (name : String) (value : PyVal) : Visit Unit :=
  Comp.modify fun state => { state with globalScope := state.globalScope.set name value }

def setType (name : String) (type : LType) : Visit Unit :=
  Comp.modify fun state => { state with types := state.types.set name type }

/-- `ir.Constant(type, value)`, which asserts that the type is not void. -/
def constant (type : LType) (operand : Operand) : Visit Value :=
  if type = .void then Comp.fail .assertionError
  else pure { type, operand }

/-- `ir.Constant(ir.IntType(32), n)`. -/
def i32Const (number : Int) : Value := { type := .i32, operand := .int number }

def i64Const (number : Int) : Value := { type := .i64, operand := .int number }

/-- The bytes of a string in UTF-8. -/
def utf8 (text : String) : Bytes := text.toList.flatMap String.utf8EncodeChar

/-- A private global with its initialiser, and the pointer to its first
element. -/
def addGlobal (name : String) (length : Nat) (bytes : Bytes)
    (isConstant : Bool) : Visit Value := do
  if ← Comp.reads fun state => state.module.nameUsed name then
    Comp.fail (.duplicatedNameError name)
  else do
    let index ← Comp.reads fun state => state.module.globals.length
    Comp.modify (·.addGlobal { name, length, bytes, isConstant })
    pure { type := .ptr .i8, operand := .global index }

/-- The next value of `_name_counter`. -/
def nextName : Visit Nat := do
  Comp.modify fun state => { state with nameCounter := state.nameCounter + 1 }
  Comp.reads (·.nameCounter)

/-- `ir.Function(module, type, name)`: a declaration until a block is added. -/
def addFunction (name : String) (ret : LType) (params : List LType)
    (varArg : Bool) : Visit Value := do
  if ← Comp.reads fun state => state.module.nameUsed name then
    Comp.fail (.duplicatedNameError name)
  else do
    let index ← Comp.reads fun state => state.module.functions.length
    let func : Function := { name, ret, params, varArg, entry := none }
    Comp.modify (·.addFunction func)
    pure { type := .ptr func.type, operand := .func index }

/-- `func.append_basic_block`, for a function by its place in the module. -/
def appendBlock (func : Nat) : Visit Label := do
  let label ← Comp.reads (·.nextLabel func)
  Comp.modify (·.appendBlock func)
  pure label

/-- `self.builder.block`. -/
def currentBlock : Visit Label := do
  match ← Comp.reads (·.builder) with
  | some label => pure label
  | none => Comp.fail .attributeError

/-- `self.builder.function`. -/
def currentFunction : Visit Nat := do
  let label ← currentBlock
  pure label.func

/-- `ir.IRBuilder(block)` and `position_at_end`. -/
def positionAtEnd (label : Label) : Visit Unit :=
  Comp.modify fun state => { state with builder := some label }

/-- A function of the module, with its entry block as the current one. -/
def beginFunction (name : String) (ret : LType) (params : List LType) :
    Visit Value := do
  let func ← addFunction name ret params false
  let index ← Comp.reads fun state => state.module.functions.length - 1
  let entry ← appendBlock index
  positionAtEnd entry
  pure func

def clearLocals : Visit Unit :=
  Comp.modify fun state => { state with localScope := .empty }

/-- `self.builder.block.is_terminated`. -/
def isTerminated : Visit Bool := do
  let label ← currentBlock
  Comp.reads fun state => state.module.isTerminated label

def emit (instr : Instr) (type : LType) : Visit Value := do
  let block ← currentBlock
  let id ← Comp.reads fun state => state.module.code.length
  Comp.modify (·.append { block, instr })
  pure { type, operand := .reg id }

/-- `_set_terminator`: the block must not have one. -/
def terminate (instr : Instr) : Visit Unit := do
  if ← isTerminated then Comp.fail .assertionError
  else do
    let _ ← emit instr .void
    pure ()

def alloca (type : LType) : Visit Value := do
  let ptrType ← asPointer type
  emit (.alloca type) ptrType

def load (ptr : PyVal) : Visit Value := do
  let ptr ← asValue ptr
  match ptr.type with
  | .ptr pointee => emit (.load ptr) pointee
  | _ => Comp.fail (.typeError "cannot load from value: not a pointer")

def store (value ptr : PyVal) : Visit Unit := do
  let ptr ← asValue ptr
  match ptr.type with
  | .ptr pointee => do
      let value ← asValue value
      if value.type = pointee then do
        let _ ← emit (.store value ptr) .void
        pure ()
      else Comp.fail (.typeError "cannot store to pointer: mismatching types")
  | _ => Comp.fail (.typeError "cannot store to value: not a pointer")

/-- Both operands have one type. -/
def binop (op : BinOpcode) (lhs rhs : PyVal) : Visit Value := do
  let lhs ← asValue lhs
  let rhs ← asValue rhs
  if lhs.type = rhs.type then emit (.binop op lhs rhs) lhs.type
  else Comp.fail .valueError

/-- Only the left operand is looked at. -/
def icmpSigned (predicate : Predicate) (lhs rhs : PyVal) : Visit Value := do
  let lhs ← asValue lhs
  emit (.icmp predicate lhs rhs) .i1

/-- The type a `getelementptr` index leads to. -/
def gepInto (type : LType) (index : Value) : Visit LType :=
  if isIntType index.type then
    match type, index.operand with
    | .ptr pointee, _ => pure pointee
    | .array elem _, _ => pure elem
    | .struct name, .int field => do
        match ← Comp.reads fun state => state.module.struct? name with
        | some { elements := some elements, .. } =>
            match elements[field.toNat]? with
            | some type => pure type
            | none => Comp.fail .indexError
        | _ => Comp.fail (.typeError "struct is opaque")
    | _, _ => Comp.fail .attributeError
  else Comp.fail (.typeError "gep index is not an integer")

def gepType (type : LType) : List Value → Visit LType
  | [] => pure type
  | index :: rest => do
      let inner ← gepInto type index
      gepType inner rest

def gep (ptr : PyVal) (indices : List PyVal) : Visit Value := do
  let ptr ← asValue ptr
  let indices ← asValues indices
  match ptr.type with
  | .ptr _ => do
      let inner ← gepType ptr.type indices
      let ptrType ← asPointer inner
      emit (.gep ptr indices) ptrType
  | _ => Comp.fail .attributeError

def ptrtoint (value : Value) (type : LType) : Visit Value :=
  if value.type = type then pure value else emit (.ptrtoint value type) type

def bitcast (value : Value) (type : LType) : Visit Value :=
  if value.type = type then pure value else emit (.bitcast value type) type

/-- The arguments that the function type names must have its types; there may
be more. -/
def checkArgs : List LType → List PyVal → Visit Unit
  | [], _ => pure ()
  | _ :: _, [] => Comp.fail .indexError
  | type :: types, arg :: args => do
      let arg ← asValue arg
      if arg.type = type then checkArgs types args
      else Comp.fail (.typeError "Type of arg mismatch")

/-- Only an instruction, an argument or a function has a `function_type`, which
raises where the value is no function. -/
def calleeError : PyVal → PyErr
  | .value { operand, .. } =>
      if operand.isConstant then .attributeError
      else .typeError "Not a function"
  | _ => .attributeError

def call (func : PyVal) (args : List PyVal) : Visit Value := do
  match func with
  | .value { type := .ptr (.function ret params _), operand := .func index } => do
      checkArgs params.toList args
      emit (.call index args) ret
  | callee => Comp.fail (calleeError callee)

def branch (target : Label) : Visit Unit := terminate (.br target)

def cbranch (condition : PyVal) (thenTarget elseTarget : Label) : Visit Unit :=
  terminate (.cbr condition thenTarget elseTarget)

def ret (value : PyVal) : Visit Unit := terminate (.ret value)

def retVoid : Visit Unit := terminate .retVoid

def unreachable : Visit Unit := terminate .unreachable

end Lambpie.Compiler

/-
What a survey of the source program keeps and does.

The survey follows the program in the order of the visitors with the LLVM types
alone: a value is its kind, an instruction only asks for a block, and a block
is the return type of its function and whether it can still be continued.
-/
import Lambpie.Compiler.Entry

namespace Lambpie.Compiler

open Foundations

/-- A `PyVal` without the operands, of which only a function can be called. -/
inductive Kind where
  | none
  | value (held : LType)
  | function (held : LType)
  | type (named : LType)
  | method (receiver func : Kind)
deriving DecidableEq, Repr

def Value.kind (val : Value) : Kind :=
  match val.operand with
  | .func _ => .function val.type
  | _ => .value val.type

def PyVal.kind : PyVal → Kind
  | .none => .none
  | .value val => val.kind
  | .type named => .type named
  | .method receiver func => .method receiver.kind func.kind

def Kind.held : Kind → Option LType
  | .value held => some held
  | .function held => some held
  | _ => .none

@[simp] theorem Value.held_kind (val : Value) : val.kind.held = some val.type := by
  unfold Value.kind
  split <;> rfl

/-- A returned value has the return type, which is not `None`. -/
def Kind.fitsReturn (kind : Kind) (ret : LType) : Bool :=
  kind.held = some ret && ret ≠ .void

/-- Of the kinds only a truth value can be branched on. -/
def Kind.isTest (kind : Kind) : Bool := kind.held = some .i1

def functionKind (ret : LType) (params : List LType) (varArg : Bool) : Kind :=
  .function (.ptr (.function ret (.ofList params) varArg))

/-- The function that the current block is in, by its return type, and whether
the block can still be continued. -/
structure Place where
  ret : LType
  isOpen : Bool
deriving DecidableEq, Repr

/-- The tables of the compiler, by kinds and types, and the names that the
module has. -/
structure Tables where
  types : Scope LType
  structs : List StructType
  layouts : Scope Layout
  globals : Scope Kind
  locals : Scope Kind
  used : String → Bool
  counter : Nat
  handleNode : Option FunctionNode
  initStmts : List Node

def CompilerState.tables (state : CompilerState) : Tables where
  types := state.types
  structs := state.module.structs
  layouts := state.classLayouts
  globals := fun name => (state.globalScope name).map PyVal.kind
  locals := fun name => (state.localScope name).map Value.kind
  used := state.module.nameUsed
  counter := state.nameCounter
  handleNode := state.handleNode
  initStmts := state.initStmts

/-- `tidy` says that nothing followed the end of a block and that no block was
left before its end; `typed` that the returns and tests so far had the right
types. -/
structure Survey extends Tables where
  place : Option Place
  tidy : Bool
  typed : Bool

abbrev Check (α : Type) := Comp Survey Unit α

namespace Survey

def emit (survey : Survey) : Survey :=
  { survey with tidy := survey.tidy && survey.place.all (·.isOpen) }

def leave (survey : Survey) : Survey :=
  { survey with tidy := survey.tidy && !survey.place.any (·.isOpen) }

def stand (survey : Survey) (ret : LType) : Survey :=
  { survey with place := some { ret, isOpen := true } }

def close (survey : Survey) (ret : LType) (fits : Bool) : Survey :=
  { survey with
    place := some { ret, isOpen := false }
    typed := survey.typed && fits }

def use (survey : Survey) (name : String) : Survey :=
  { survey with used := fun other => survey.used other || name = other }

def setLocal (survey : Survey) (name : String) (kind : Kind) : Survey :=
  { survey with locals := survey.locals.set name kind }

def setClass (survey : Survey) (className : String) (layout : Layout) : Survey :=
  { survey with
    types := survey.types.set className (.ptr (.struct className))
    layouts := survey.layouts.set className layout }

def setGlobal (survey : Survey) (name : String) (kind : Kind) : Survey :=
  { survey with globals := survey.globals.set name kind }

end Survey

def found {α : Type} : Option α → Check α
  | some result => pure result
  | none => Comp.fail ()

def find {α : Type} (table : Survey → Scope α) (key : String) : Check α := do
  found (← Comp.reads fun survey => table survey key)

def surveyLocal (name : String) (kind : Kind) : Check Unit :=
  Comp.modify (·.setLocal name kind)

def surveyGlobal (name : String) (kind : Kind) : Check Unit :=
  Comp.modify (·.setGlobal name kind)

def surveyUse (name : String) : Check Unit := do
  if ← Comp.reads fun survey => survey.used name then Comp.fail ()
  else Comp.modify (·.use name)

def surveyCount : Check Nat := do
  Comp.modify fun survey => { survey with counter := survey.counter + 1 }
  Comp.reads (·.counter)

def surveyText (name : Nat → String) : Check Kind := do
  let counter ← surveyCount
  surveyUse (name counter)
  pure (.value (.ptr .i8))

def emitted : Check Unit := do
  match ← Comp.reads (·.place) with
  | some _ => Comp.modify Survey.emit
  | none => Comp.fail ()

/-- A terminator is written, which fits if it does for the return type. -/
def closeWith (fits : LType → Bool) : Check Unit := do
  match ← Comp.reads (·.place) with
  | some { ret, isOpen := true } => Comp.modify (·.close ret (fits ret))
  | _ => Comp.fail ()

def closeIfOpen (fits : LType → Bool) : Check Unit := do
  match ← Comp.reads (·.place) with
  | some { ret, isOpen := true } => Comp.modify (·.close ret (fits ret))
  | some { isOpen := false, .. } => pure ()
  | none => Comp.fail ()

def stand (ret : LType) : Check Unit := Comp.modify (·.stand ret)

def currentReturn : Check LType := do
  let place ← found (← Comp.reads (·.place))
  pure place.ret

def heldType (kind : Kind) : Check LType := found kind.held

/-- There are no constants of and no pointers to nothing. -/
def pointerTo (type : LType) : Option LType :=
  if type = .void then none else some (.ptr type)

def surveyConst (type : LType) : Check Kind :=
  if type = .void then Comp.fail () else pure (.value type)

def surveyEmit (type : LType) : Check Kind := do
  emitted
  pure (.value type)

/-- An instruction whose result is an address of what has the type given. -/
def surveyAddress (type : LType) : Check Kind := do
  let ptrType ← found (pointerTo type)
  surveyEmit ptrType

def surveyLoad (ptr : Kind) : Check Kind := do
  match ← heldType ptr with
  | .ptr pointee => surveyEmit pointee
  | _ => Comp.fail ()

def surveyStore (val ptr : Kind) : Check Unit := do
  match ← heldType ptr with
  | .ptr pointee => do
      let type ← heldType val
      if type = pointee then emitted else Comp.fail ()
  | _ => Comp.fail ()

def surveyOp (lhs rhs : Kind) : Check Kind := do
  let left ← heldType lhs
  let right ← heldType rhs
  if left = right then surveyEmit left else Comp.fail ()

def surveyTest (lhs : Kind) : Check Kind := do
  let _ ← heldType lhs
  surveyEmit .i1

def fieldType (structs : List StructType) (name : String) (index : Nat) :
    Option LType := do
  let struct ← structs.find? (·.name = name)
  let elements ← struct.elements
  elements[index]?

def intoField (structs : List StructType) : LType → Nat → Option LType
  | .ptr pointee, _ => some pointee
  | .array elem _, _ => some elem
  | .struct name, index => fieldType structs name index
  | _, _ => none

def surveyFieldPtr (ptr : Kind) (index : Nat) : Check Kind := do
  match ← heldType ptr with
  | .ptr pointee => do
      let type ← found (← Comp.reads fun survey => intoField survey.structs pointee index)
      surveyAddress type
  | _ => Comp.fail ()

def surveyElement (elem indexType : LType) : Check Kind :=
  if isIntType indexType then surveyAddress elem else Comp.fail ()

def surveyOffset (ptr index : Kind) : Check Kind := do
  let type ← heldType ptr
  let indexType ← heldType index
  match type with
  | .ptr pointee => surveyElement pointee indexType
  | _ => Comp.fail ()

/-- The elements of an array are indexed, and not the array. -/
def surveyIndex (ptr index : Kind) : Check Kind := do
  match ← heldType ptr with
  | .ptr (.array elem _) => do
      let indexType ← heldType index
      surveyElement elem indexType
  | _ => surveyOffset ptr index

def surveyCast (kind : Kind) (type : LType) : Check Kind := do
  let held ← heldType kind
  if held = type then pure kind else surveyEmit type

def checkKinds : List LType → List Kind → Check Unit
  | [], _ => pure ()
  | _ :: _, [] => Comp.fail ()
  | type :: types, arg :: args => do
      let held ← heldType arg
      if held = type then checkKinds types args else Comp.fail ()

/-- Only a function is called, with arguments of its parameters' types. -/
def surveyCallee (callee : Kind) (args : List Kind) : Check Kind :=
  match callee with
  | .function (.ptr (.function ret params _)) => do
      checkKinds params.toList args
      surveyEmit ret
  | _ => Comp.fail ()

end Lambpie.Compiler

/-
What visits of expressions keep.

An expression reads the scopes, adds globals and appends instructions to the
block it starts in.  It ends no block and allocates no stack slot.
-/
import Lambpie.Compiler.Emits

namespace Lambpie.Compiler

open Foundations
open Foundations.Comp
open Lambpie.Runtime (Bytes)

structure Quiet (holds : CompilerState → Prop) : Prop where
  emits : EmitsQuiet holds
  counter : ∀ state, holds state →
    holds { state with nameCounter := state.nameCounter + 1 }
  global : ∀ state global, holds state → holds (state.addGlobal global)

section Visitors

variable {holds : CompilerState → Prop} {left right operand object slice callee : Visit PyVal}
  (quiet : Quiet holds)

theorem keeps_value {α : Type} {visit : Visit α} {fact : α → Prop}
    (kept : Ensures holds visit fun result state => fact result ∧ holds state) :
    Keeps holds visit :=
  kept.weaken fun _ _ after => after.2

include quiet

theorem keeps_visitConstant (literal : Literal) : Keeps holds (visitConstant literal) := by
  have number (operand : Operand) : Keeps holds (do
      let type ← lookup (·.types) "int"
      let const ← constant type operand
      pure (PyVal.value const) : Visit PyVal) :=
    (keeps_lookup_only _ _).bind fun _ => (keeps_value (keeps_constant _ _)).bind fun _ =>
      keeps_pure _
  have text (name : Nat → String) (length : Nat) (bytes : Bytes) (isConstant : Bool) :
      Keeps holds (do
        let counter ← nextName
        let ptr ← addGlobal (name counter) length bytes isConstant
        pure (PyVal.value ptr) : Visit PyVal) :=
    (keeps_nextName quiet.counter).bind fun _ =>
      (keeps_value (keeps_addGlobal quiet.global _ _ _ _)).bind fun _ => keeps_pure _
  cases literal with
  | int value => exact number _
  | bool value => exact number _
  | str value => exact text _ _ _ _
  | bytes data => exact text _ _ _ _
  | _ => exact keeps_pure _

theorem keeps_visitName (id : String) : Keeps holds (visitName id) := by
  refine (keeps_reads _).bind fun alloc => ?_
  cases alloc with
  | some alloc =>
      dsimp only
      split
      · exact keeps_pure _
      · exact (keeps_value (keeps_load quiet.emits.operand _)).bind fun _ => keeps_pure _
  | none =>
      refine (keeps_reads _).bind fun found => ?_
      cases found with
      | some val => exact keeps_pure _
      | none =>
          refine (keeps_reads _).bind fun type => ?_
          cases type with
          | some type => exact keeps_pure _
          | none => exact .fail _

theorem keeps_visitBinOp (op : BinaryOp) (keepsLeft : Keeps holds left)
    (keepsRight : Keeps holds right) : Keeps holds (visitBinOp left op right) := by
  refine keepsLeft.bind fun lhs => ?_
  refine keepsRight.bind fun rhs => ?_
  cases binOpcode op with
  | some opcode =>
      exact (keeps_value (keeps_binop quiet.emits.operand opcode lhs rhs)).bind fun _ =>
        keeps_pure _
  | none => exact .fail _

theorem keeps_visitUnaryOp (op : UnaryOp) (keeps : Keeps holds operand) :
    Keeps holds (visitUnaryOp op operand) := by
  refine keeps.bind fun val => ?_
  have computes (op : BinOpcode) (number : Int) (operands : Value → PyVal × PyVal) :
      Keeps holds (do
        let value ← asValue val
        let const ← constant value.type (.int number)
        let result ← binop op (operands const).1 (operands const).2
        pure (PyVal.value result) : Visit PyVal) :=
    (keeps_value (keeps_asValue val)).bind fun _ =>
      (keeps_value (keeps_constant _ _)).bind fun _ =>
        (keeps_value (keeps_binop quiet.emits.operand _ _ _)).bind fun _ => keeps_pure _
  cases op with
  | invert => exact computes .xor (-1) fun const => (val, .value const)
  | uSub => exact computes .sub 0 fun const => (.value const, val)
  | uAdd => exact keeps_pure _
  | not => exact .fail _

theorem keeps_visitCompare (op : CompareOp) (keepsLeft : Keeps holds left)
    (keepsRight : Keeps holds right) :
    Keeps holds (visitCompare left (some (op, right))) := by
  refine keepsLeft.bind fun lhs => ?_
  refine keepsRight.bind fun rhs => ?_
  cases comparePredicate op with
  | some predicate =>
      exact (keeps_value (keeps_icmpSigned quiet.emits.operand predicate lhs rhs)).bind
        fun _ => keeps_pure _
  | none => exact .fail _

omit quiet in
theorem keeps_visitChain (keepsLeft : Keeps holds left) :
    Keeps holds (visitCompare left none) :=
  keepsLeft.bind fun _ => .fail _

theorem keeps_visitAttribute (attr : String) (keeps : Keeps holds object) :
    Keeps holds (visitAttribute object attr) := by
  refine keeps.bind fun object => ?_
  refine (keeps_value (keeps_asValue object)).bind fun objPtr => ?_
  refine (keeps_structName objPtr).bind fun typeName => ?_
  refine (keeps_reads _).bind fun method => ?_
  cases method with
  | some method => exact keeps_pure _
  | none =>
      refine (keeps_reads _).bind fun layout => ?_
      cases layout.bind fun layout => layout.lookup attr with
      | some field =>
          exact (keeps_value (keeps_fieldPtr quiet.emits.operand _ _)).bind fun _ =>
            (keeps_value (keeps_load quiet.emits.operand _)).bind fun _ => keeps_pure _
      | none => exact .fail _

theorem keeps_subscriptPtr (keepsObject : Keeps holds object)
    (keepsSlice : Keeps holds slice) : Keeps holds (subscriptPtr object slice) := by
  refine keepsObject.bind fun ptr => ?_
  refine keepsSlice.bind fun idx => ?_
  refine (keeps_value (keeps_asValue ptr)).bind fun ptrValue => ?_
  split
  · exact keeps_value (keeps_gep quiet.emits.operand _ _)
  · exact keeps_value (keeps_gep quiet.emits.operand _ _)

theorem keeps_visitSubscript (keepsObject : Keeps holds object)
    (keepsSlice : Keeps holds slice) : Keeps holds (visitSubscript object slice) :=
  (keeps_subscriptPtr quiet keepsObject keepsSlice).bind fun _ =>
    (keeps_value (keeps_load quiet.emits.operand _)).bind fun _ => keeps_pure _

private theorem keeps_construct {args : Visit (List PyVal)} (name : String)
    (keeps : Keeps holds args) : Keeps holds (construct name args) := by
  refine (keeps_lookup_only _ _).bind fun sizeType => ?_
  refine (keeps_reads _).bind fun tag => ?_
  refine (keeps_allocInBlock quiet.emits _ _ _).bind fun objPtr => ?_
  refine (keeps_reads _).bind fun init => ?_
  cases init with
  | none => exact keeps_pure _
  | some initFunc =>
      refine keeps.bind fun rawArgs => ?_
      refine (keeps_functionParams _).bind fun params => ?_
      exact (keeps_coerceInBlock quiet.emits _ _).bind fun _ =>
        (keeps_callInBlock quiet.emits _ _).bind fun _ => keeps_pure _

theorem keeps_visitCall {args : Visit (List PyVal)} (keepsCallee : Keeps holds callee)
    (keepsArgs : Keeps holds args) : Keeps holds (visitCall callee args) := by
  have plain (val : PyVal) (front : List PyVal) : Keeps holds (do
      let args ← args
      let result ← call val (front ++ args)
      pure (PyVal.value result) : Visit PyVal) :=
    keepsArgs.bind fun _ => (keeps_callInBlock quiet.emits _ _).bind fun _ => keeps_pure _
  refine keepsCallee.bind fun callee => ?_
  cases callee with
  | method receiver method => exact plain method [.value receiver]
  | none => exact plain _ []
  | value val => exact plain _ []
  | type type =>
      cases type with
      | ptr pointee =>
          cases pointee with
          | struct name => exact keeps_construct quiet name keepsArgs
          | _ => exact plain _ []
      | _ => exact plain _ []

end Visitors

mutual

/-- The nodes that may stand where Python's grammar asks for an expression, as
far as they are visited. -/
def isExpression : Node → Bool
  | .name _ => true
  | .constant _ => true
  | .binOp left _ right => isExpression left && isExpression right
  | .unaryOp _ operand => isExpression operand
  | .compare left [(_, comparator)] => isExpression left && isExpression comparator
  | .compare left _ => isExpression left
  | .call func args _ => isExpression func && areExpressions args
  | .attribute value _ => isExpression value
  | .subscript value slice => isExpression value && isExpression slice
  | .sliced value bounds => isExpression value && areExpressions bounds
  | .other _ children => areExpressions children
  | _ => false

def areExpressions : List Node → Bool
  | [] => true
  | node :: rest => isExpression node && areExpressions rest

end

section

variable {first second : Bool}

theorem and_left (both : (first && second) = true) : first = true :=
  (Bool.and_eq_true_iff.mp both).1

theorem and_right (both : (first && second) = true) : second = true :=
  (Bool.and_eq_true_iff.mp both).2

end

section Recursion

variable {holds : CompilerState → Prop}

mutual

theorem keeps_expression (quiet : Quiet holds) (node : Node)
    (expression : isExpression node = true) :
    Keeps holds (visit node) := by
  match node, expression with
  | .name id, _ => exact keeps_visitName quiet id
  | .constant literal, _ => exact keeps_visitConstant quiet literal
  | .binOp left op right, both =>
      exact keeps_visitBinOp quiet op (keeps_expression quiet left (and_left both))
        (keeps_expression quiet right (and_right both))
  | .unaryOp op operand, inner =>
      exact keeps_visitUnaryOp quiet op (keeps_expression quiet operand inner)
  | .compare left [(op, comparator)], both =>
      exact keeps_visitCompare quiet op (keeps_expression quiet left (and_left both))
        (keeps_expression quiet comparator (and_right both))
  | .compare left [], inner => exact keeps_visitChain (keeps_expression quiet left inner)
  | .compare left (_ :: _ :: _), inner =>
      exact keeps_visitChain (keeps_expression quiet left inner)
  | .call callee args dropped, both =>
      exact keeps_visitCall quiet (keeps_expression quiet callee (and_left both))
        (keeps_expressionArgs quiet args (and_right both))
  | .attribute object attr, inner =>
      exact keeps_visitAttribute quiet attr (keeps_expression quiet object inner)
  | .subscript object slice, both =>
      exact keeps_visitSubscript quiet (keeps_expression quiet object (and_left both))
        (keeps_expression quiet slice (and_right both))
  | .sliced object bounds, both =>
      exact keeps_visitSubscript quiet (keeps_expression quiet object (and_left both))
        ((keeps_expressions quiet bounds (and_right both)).bind fun _ => keeps_pure _)
  | .other kind children, inner =>
      exact (keeps_expressions quiet children inner).bind fun _ => keeps_pure _

theorem keeps_expressions (quiet : Quiet holds) (nodes : List Node)
    (expressions : areExpressions nodes = true) :
    Keeps holds (visitBody nodes) := by
  match nodes, expressions with
  | [], _ => exact keeps_pure _
  | node :: rest, both =>
      exact (keeps_expression quiet node (and_left both)).bind fun _ =>
        keeps_expressions quiet rest (and_right both)

theorem keeps_expressionArgs (quiet : Quiet holds) (args : List Node)
    (expressions : areExpressions args = true) :
    Keeps holds (visitArgs args) := by
  match args, expressions with
  | [], _ => exact keeps_pure _
  | arg :: rest, both =>
      exact (keeps_expression quiet arg (and_left both)).bind fun _ =>
        (keeps_expressionArgs quiet rest (and_right both)).bind fun _ => keeps_pure _

end

end Recursion

end Lambpie.Compiler

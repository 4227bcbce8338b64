/-
The forms of a program for which the compiler has no lowering.

Some make a visitor raise; the others are visited by `generic_visit` or lie in
a field that no visitor reads.
-/
import Lambpie.Compiler.Entry

namespace Lambpie.Compiler

/-- `lateInit` is a method before the explicit `__init__` of its class, where a
call of the class runs no constructor; `shadowedHandle` is a `handle` that a
later one replaces. -/
inductive Form where
  | binaryOp (op : BinaryOp)
  | unaryOp (op : UnaryOp)
  | compareOp (op : CompareOp)
  | chainedCompare
  | slice
  | target
  | importModule
  | node (kind : NodeKind)
  | float
  | complex
  | ellipsis
  | keywordArguments
  | severalTargets
  | whileElse
  | functionExtras
  | classExtras
  | classStatement
  | fieldDefault
  | lateInit
  | importAs
  | relativeImport
  | shadowedHandle
deriving DecidableEq, Repr

/-- The forms for which a visitor raises. -/
def Form.rejected : Form → Bool
  | .binaryOp _ => true
  | .unaryOp _ => true
  | .compareOp _ => true
  | .chainedCompare => true
  | .slice => true
  | .target => true
  | .importModule => true
  | _ => false

def formIf (present : Bool) (form : Form) : List Form :=
  if present then [form] else []

def literalForms : Literal → List Form
  | .float => [.float]
  | .complex => [.complex]
  | .ellipsis => [.ellipsis]
  | _ => []

def targetForms : Node → List Form
  | .name _ => []
  | _ => [.target]

/-- A method stands before the first `__init__`. -/
def isLateInit (body : List Node) : Bool :=
  match body.filterMap isMethod with
  | [] => false
  | first :: rest => first ≠ "__init__" && rest.contains "__init__"

mutual

/-- The unlowered forms of a node; annotations are types and have none. -/
def forms : Node → List Form
  | .name _ => []
  | .constant value => literalForms value
  | .binOp left op right =>
      formIf (binOpcode op).isNone (.binaryOp op) ++ forms left ++ forms right
  | .unaryOp op operand =>
      formIf (op = .not) (.unaryOp op) ++ forms operand
  | .compare left [(op, comparator)] =>
      formIf (comparePredicate op).isNone (.compareOp op) ++ forms left ++
        forms comparator
  | .compare left _ => .chainedCompare :: forms left
  | .call func args dropped =>
      formIf (!dropped.isEmpty) .keywordArguments ++ forms func ++ formsAll args
  | .attribute value _ => forms value
  | .subscript value slice => forms value ++ forms slice
  | .sliced value bounds => .slice :: (forms value ++ formsAll bounds)
  | .return_ (some value) => forms value
  | .return_ none => []
  | .assign (.subscript target slice) moreTargets value =>
      formIf (!moreTargets.isEmpty) .severalTargets ++ forms target ++
        forms slice ++ forms value
  | .assign (.sliced target bounds) moreTargets value =>
      .slice :: (formIf (!moreTargets.isEmpty) .severalTargets ++ forms target ++
        formsAll bounds ++ forms value)
  | .assign (.name _) moreTargets value =>
      formIf (!moreTargets.isEmpty) .severalTargets ++ forms value
  | .assign _ _ _ => [.target]
  | .annAssign target _ (some value) => targetForms target ++ forms value
  | .annAssign target _ none => targetForms target
  | .ifStmt test body orelse => forms test ++ formsAll body ++ formsAll orelse
  | .whileStmt test body orelse =>
      formIf (!orelse.isEmpty) .whileElse ++ forms test ++ formsAll body
  | .expr value => forms value
  | .pass => []
  | .functionDef _ _ _ body dropped =>
      formIf (!dropped.isEmpty) .functionExtras ++ formsAll body
  | .classDef _ body dropped =>
      formIf (!dropped.isEmpty) .classExtras ++
        formIf (isLateInit body) .lateInit ++ formsMembers body
  | .importFrom module names level =>
      formIf (module ≠ some "C") .importModule ++
        formIf (module = some "C" ∧ level ≠ 0) .relativeImport ++
          formIf (names.any (·.2.isSome)) .importAs
  | .other kind children => .node kind :: formsAll children

def formsAll : List Node → List Form
  | [] => []
  | node :: rest => forms node ++ formsAll rest

/-- Of a class body only its fields and methods are read. -/
def formsMembers : List Node → List Form
  | [] => []
  | .functionDef _ _ _ body dropped :: rest =>
      formIf (!dropped.isEmpty) .functionExtras ++ formsAll body ++
        formsMembers rest
  | .annAssign target _ value :: rest =>
      targetForms target ++ formIf value.isSome .fieldDefault ++ formsMembers rest
  | .pass :: rest => formsMembers rest
  | _ :: rest => .classStatement :: formsMembers rest

end

theorem formsAll_eq (body : List Node) : formsAll body = body.flatMap forms := by
  induction body with
  | nil => rfl
  | cons stmt rest ih => rw [formsAll, ih, List.flatMap_cons]

def isHandle : Node → Bool
  | .functionDef name _ _ _ _ => name = "handle"
  | _ => false

/-- Of a module, without the block for running it as a script. -/
def moduleForms (tree : List Node) : List Form :=
  formsAll (tree.filter fun stmt => !isMainBlock stmt) ++
    formIf (1 < (tree.filter isHandle).length) .shadowedHandle

end Lambpie.Compiler

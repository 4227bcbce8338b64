/-
Which forms the compiler drops silently.

A form for which a visitor raises never gets through; every other form without
a lowering is accepted in some program.
-/
import Lambpie.Compiler.Ready

namespace Lambpie.Compiler

def nameN : Node := .name "n"

def one : Node := .constant (.int 1)

def intField (name : String) : Node := .annAssign (.name name) (.name "int") none

def eventClass : Node := .classDef "Request" [intField "n"] []

def responseClass : Node := .classDef "Response" [intField "n"] []

/-- `handle`, which returns the event's number, with the statements between. -/
def handleWith (body : List Node) : Node :=
  .functionDef "handle" [("event", some (.name "Request"))] (some (.name "Response"))
    (.annAssign nameN (.name "int") (some (.attribute (.name "event") "n")) ::
      body ++ [.return_ (some (.call (.name "Response") [nameN] []))]) []

def programWith (definitions body : List Node) : List Node :=
  [eventClass, responseClass] ++ definitions ++ [handleWith body]

/-- The children of a node of the kind, over the variable `n`. -/
def sampleChildren : NodeKind → List Node
  | .asyncFunctionDef => [.pass]
  | .delete => [nameN]
  | .typeAlias => [nameN, .name "int"]
  | .augAssign => [nameN, one]
  | .for_ => [nameN, nameN, .pass]
  | .asyncFor => [nameN, nameN, .pass]
  | .with_ => [nameN, .pass]
  | .asyncWith => [nameN, .pass]
  | .match_ => [nameN, one, .pass]
  | .raise => [nameN]
  | .try_ => [.pass, .pass]
  | .tryStar => [.pass, .name "int", .pass]
  | .assert => [nameN]
  | .import_ => []
  | .global => []
  | .nonlocal => []
  | .break_ => []
  | .continue_ => []
  | .boolOp => [nameN, one]
  | .namedExpr => [nameN, one]
  | .lambda => [one]
  | .ifExp => [nameN, one, one]
  | .dict => [one, nameN]
  | .set => [one]
  | .listComp => [nameN, nameN, nameN]
  | .setComp => [nameN, nameN, nameN]
  | .dictComp => [nameN, nameN, nameN, nameN]
  | .generatorExp => [nameN, nameN, nameN]
  | .await => [nameN]
  | .yield => [nameN]
  | .yieldFrom => [nameN]
  | .joinedStr => [nameN]
  | .starred => [nameN]
  | .list => [one]
  | .tuple => [one, nameN]

def NodeKind.isExpr : NodeKind → Bool
  | .boolOp | .namedExpr | .lambda | .ifExp | .dict | .set | .listComp | .setComp
  | .dictComp | .generatorExp | .await | .yield | .yieldFrom | .joinedStr
  | .starred | .list | .tuple => true
  | _ => false

def sampleNode (kind : NodeKind) : Node :=
  if kind.isExpr then .expr (.other kind (sampleChildren kind))
  else .other kind (sampleChildren kind)

/-- `while n < 1: body`. -/
def loop (body orelse : List Node) : Node :=
  .whileStmt (.compare nameN [(.lt, one)]) body orelse

/-- `def double(n: int) -> int: return n + n`. -/
def doubleFunction : Node :=
  .functionDef "double" [("n", some (.name "int"))] (some (.name "int"))
    [.return_ (some (.binOp nameN .add nameN))] []

/-- A program whose only unlowered form is the given one. -/
def sampleProgram : Form → List Node
  | .node kind => programWith [] [loop [sampleNode kind] []]
  | .float => programWith [] [.expr (.constant .float)]
  | .complex => programWith [] [.expr (.constant .complex)]
  | .ellipsis => programWith [] [.expr (.constant .ellipsis)]
  | .keywordArguments =>
      programWith [] [.expr (.call (.name "Response") [nameN] [one])]
  | .severalTargets => programWith [] [.assign nameN [.name "m"] one]
  | .whileElse => programWith [] [loop [.pass] [.pass]]
  | .functionExtras =>
      programWith [.functionDef "f" [("n", some (.name "int"))] (some (.name "int"))
        [.return_ (some nameN)] [one]] []
  | .classExtras => programWith [.classDef "C" [.pass] [.name "object"]] []
  | .classStatement => programWith [.classDef "C" [.expr (.constant (.str "C"))] []] []
  | .fieldDefault =>
      programWith [.classDef "C" [.annAssign nameN (.name "int") (some one)] []] []
  | .lateInit =>
      programWith [.classDef "C"
        [.functionDef "f" [("self", none)] (some (.constant .none)) [.pass] [],
          .functionDef "__init__" [("self", none)] (some (.constant .none)) [.pass] []]
        []] []
  | .importAs => programWith [.importFrom (some "C") [("printf", some "p")] 0] []
  | .relativeImport => programWith [.importFrom (some "C") [("printf", none)] 1] []
  | .shadowedHandle => programWith [handleWith []] []
  | _ => []

theorem sampleProgram_accepted (form : Form) (silent : form.rejected = false) :
    moduleForms (sampleProgram form) = [form] ∧
      (compile (sampleProgram form)).toOption.isSome := by
  cases form with
  | node kind => cases kind <;> decide +kernel
  | binaryOp => cases silent
  | unaryOp => cases silent
  | compareOp => cases silent
  | chainedCompare => cases silent
  | slice => cases silent
  | target => cases silent
  | importModule => cases silent
  | _ => decide +kernel

end Lambpie.Compiler

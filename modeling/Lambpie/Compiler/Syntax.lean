/-
The Python syntax tree as the compiler's visitor sees it.

A node whose kind has a `visit_` method has a constructor of its own, with the
fields that method reads and the ones it leaves aside.  Every other node is
visited by `generic_visit`, which visits the children one after the other;
such a node is its kind and its children, with the nodes that only group
children (arguments, comprehensions, handlers, cases, formatted values)
replaced by them.  The level of an import counts its leading dots.
-/

namespace Lambpie.Compiler

/-- The value of `ast.Constant`; `bool` is an `int` to `isinstance`. -/
inductive Literal where
  | int (value : Int)
  | bool (value : Bool)
  | str (text : String)
  | bytes (data : List UInt8)
  | none
  | float
  | complex
  | ellipsis
deriving DecidableEq, Repr

inductive BinaryOp where
  | add | sub | mult | matMult | div | mod | pow | lShift | rShift | bitOr
  | bitXor | bitAnd | floorDiv
deriving DecidableEq, Repr

def BinaryOp.className : BinaryOp → String
  | .add => "Add"
  | .sub => "Sub"
  | .mult => "Mult"
  | .matMult => "MatMult"
  | .div => "Div"
  | .mod => "Mod"
  | .pow => "Pow"
  | .lShift => "LShift"
  | .rShift => "RShift"
  | .bitOr => "BitOr"
  | .bitXor => "BitXor"
  | .bitAnd => "BitAnd"
  | .floorDiv => "FloorDiv"

inductive UnaryOp where
  | invert | not | uAdd | uSub
deriving DecidableEq, Repr

inductive CompareOp where
  | eq | notEq | lt | ltE | gt | gtE | is | isNot | in_ | notIn
deriving DecidableEq, Repr

def CompareOp.className : CompareOp → String
  | .eq => "Eq"
  | .notEq => "NotEq"
  | .lt => "Lt"
  | .ltE => "LtE"
  | .gt => "Gt"
  | .gtE => "GtE"
  | .is => "Is"
  | .isNot => "IsNot"
  | .in_ => "In"
  | .notIn => "NotIn"

/-- The kinds without a `visit_` method. -/
inductive NodeKind where
  | asyncFunctionDef | delete | typeAlias | augAssign | for_ | asyncFor | with_
  | asyncWith | match_ | raise | try_ | tryStar | assert | import_ | global
  | nonlocal | break_ | continue_
  | boolOp | namedExpr | lambda | ifExp | dict | set | listComp | setComp
  | dictComp | generatorExp | await | yield | yieldFrom | joinedStr | starred
  | list | tuple
deriving DecidableEq, Repr

/-- `dropped` holds the nodes of fields that no visitor reads: decorators,
defaults and the other kinds of parameters of a function, bases, keywords and
decorators of a class, keyword arguments of a call.  A slice only stands in a
subscript, which is `sliced` then, with the bounds. -/
inductive Node where
  | name (id : String)
  | constant (value : Literal)
  | binOp (left : Node) (op : BinaryOp) (right : Node)
  | unaryOp (op : UnaryOp) (operand : Node)
  | compare (left : Node) (rest : List (CompareOp × Node))
  | call (func : Node) (args : List Node) (dropped : List Node)
  | attribute (value : Node) (attr : String)
  | subscript (value : Node) (slice : Node)
  | sliced (value : Node) (bounds : List Node)
  | return_ (value : Option Node)
  | assign (target : Node) (moreTargets : List Node) (value : Node)
  | annAssign (target : Node) ( annotation : Node) (value : Option Node)
  | ifStmt (test : Node) (body : List Node) (orelse : List Node)
  | whileStmt (test : Node) (body : List Node) (orelse : List Node)
  | expr (value : Node)
  | pass
  | functionDef (name : String) (args : List (String × Option Node))
      (returns : Option Node) (body : List Node) (dropped : List Node)
  | classDef (name : String) (body : List Node) (dropped : List Node)
  | importFrom (module : Option String) (names : List (String × Option String))
      (level : Nat)
  | other (kind : NodeKind) (children : List Node)

end Lambpie.Compiler

/-
The integer part of the source language and its meaning.

Functions of integers with integer variables and arrays, assignments,
conditions, loops and calls of each other.  A number is a 64-bit word, and the
interpreter is stuck where Python would raise or the machine has no value.
-/
import Lambpie.Compiler.FallThrough
import Lambpie.Foundations.Fuelled

namespace Lambpie.Integers

open Foundations
open Lambpie.Compiler

abbrev Word := BitVec 64

/-- A cell is empty until it is written. -/
inductive Variable where
  | int (value : Option Word)
  | array (cells : List (Option Word))
deriving DecidableEq, Repr

abbrev Env := Scope Variable

def readInt (env : Env) (name : String) : Ran Word :=
  match env name with
  | some (.int (some value)) => .done value
  | _ => .stuck

def writeInt (env : Env) (name : String) (value : Word) : Ran Env :=
  match env name with
  | some (.int _) => .done (env.set name (.int (some value)))
  | _ => .stuck

/-- A negative index is out of bounds as well. -/
def readCell (env : Env) (name : String) (index : Word) : Ran Word :=
  match env name with
  | some (.array cells) =>
      if 0 ≤ index.toInt then
        match cells[index.toInt.toNat]? with
        | some (some value) => .done value
        | _ => .stuck
      else .stuck
  | _ => .stuck

def writeCell (env : Env) (name : String) (index value : Word) : Ran Env :=
  match env name with
  | some (.array cells) =>
      if 0 ≤ index.toInt ∧ index.toInt.toNat < cells.length then
        .done (env.set name (.array (cells.set index.toInt.toNat (some value))))
      else .stuck
  | _ => .stuck

/-- `>>` is logical and `%` truncates; both and `<<` are partial. -/
def applyBinary (op : BinaryOp) (left right : Word) : Ran Word :=
  match op with
  | .add => .done (left + right)
  | .sub => .done (left - right)
  | .mult => .done (left * right)
  | .bitAnd => .done (left &&& right)
  | .bitOr => .done (left ||| right)
  | .bitXor => .done (left ^^^ right)
  | .lShift => if right.toNat < 64 then .done (left <<< right.toNat) else .stuck
  | .rShift => if right.toNat < 64 then .done (left >>> right.toNat) else .stuck
  | .mod =>
      if right = 0 ∨ (left = BitVec.intMin 64 ∧ right = -1) then .stuck
      else .done (left.srem right)
  | _ => .stuck

def applyUnary (op : UnaryOp) (value : Word) : Ran Word :=
  match op with
  | .invert => .done (~~~value)
  | .uSub => .done (-value)
  | .uAdd => .done value
  | .not => .stuck

def applyCompare (op : CompareOp) (left right : Word) : Ran Bool :=
  match op with
  | .eq => .done (left = right)
  | .notEq => .done (left ≠ right)
  | .lt => .done (left.slt right)
  | .ltE => .done (left.sle right)
  | .gt => .done (right.slt left)
  | .gtE => .done (right.sle left)
  | _ => .stuck

section

variable (calls : String → List Word → Ran Word) (env : Env)

mutual

def evalInt : Node → Ran Word
  | .name id => readInt env id
  | .constant (.int number) => .done (BitVec.ofInt 64 number)
  | .binOp left op right => do
      let left ← evalInt left
      let right ← evalInt right
      applyBinary op left right
  | .unaryOp op operand => do
      let value ← evalInt operand
      applyUnary op value
  | .subscript (.name id) slice => do
      let index ← evalInt slice
      readCell env id index
  | .call (.name func) args _ => do
      let values ← evalArgs args
      calls func values
  | _ => .stuck

def evalArgs : List Node → Ran (List Word)
  | [] => .done []
  | arg :: rest => do
      let value ← evalInt arg
      let values ← evalArgs rest
      .done (value :: values)

end

def evalTest : Node → Ran Bool
  | .compare left [(op, right)] => do
      let left ← evalInt calls env left
      let right ← evalInt calls env right
      applyCompare op left right
  | _ => .stuck

end

/-- `N` of `array[int, N]`. -/
def arrayLength : Node → Option Nat
  | .subscript (.name "array") (.other .tuple [.name "int", .constant (.int (.ofNat count))]) =>
      some count
  | _ => none

def declared : Node → Option Variable
  | .name "int" => some (.int none)
  | annotation => (arrayLength annotation).map fun count => .array (List.replicate count none)

section

variable (calls : String → List Word → Ran Word) (fuel : Nat)

mutual

/-- A statement goes on with other values of the variables, or returns. -/
def exec : Node → Env → Ran (Env ⊕ Word)
  | .annAssign (.name id) _ (some value), env => do
      let value ← evalInt calls env value
      .done (.inl (env.set id (.int (some value))))
  | .annAssign (.name id) annotation none, env =>
      match declared annotation with
      | some fresh => .done (.inl (env.set id fresh))
      | none => .stuck
  | .assign (.name id) _ value, env => do
      let value ← evalInt calls env value
      let env ← writeInt env id value
      .done (.inl env)
  | .assign (.subscript (.name id) slice) _ value, env => do
      let index ← evalInt calls env slice
      let value ← evalInt calls env value
      let env ← writeCell env id index value
      .done (.inl env)
  | .ifStmt test body orelse, env => do
      if ← evalTest calls env test then execAll body env else execAll orelse env
  | .whileStmt test body _, env =>
      iterate (fun env => evalTest calls env test) (fun env => execAll body env) fuel env
  | .return_ (some value), env => do
      let value ← evalInt calls env value
      .done (.inr value)
  | .expr value, env => do
      let _ ← evalInt calls env value
      .done (.inl env)
  | .pass, env => .done (.inl env)
  | _, _ => .stuck

def execAll : List Node → Env → Ran (Env ⊕ Word)
  | [], env => .done (.inl env)
  | stmt :: rest, env => do
      match ← exec stmt env with
      | .inl env => execAll rest env
      | .inr value => .done (.inr value)

end

end

structure IntFunction where
  name : String
  params : List String
  body : List Node

def bindParams (params : List String) (args : List Word) : Env :=
  (params.zip args).foldl (fun env (name, value) => env.set name (.int (some value))) .empty

/-- A call of one of the functions; falling off the end of the body is stuck. -/
def callInt (functions : List IntFunction) : Nat → String → List Word → Ran Word
  | 0, _, _ => .spent
  | fuel + 1, name, args =>
      match functions.find? (·.name = name) with
      | none => .stuck
      | some func =>
          if args.length = func.params.length then do
            match ← execAll (callInt functions fuel) fuel func.body
              (bindParams func.params args) with
            | .inl _ => .stuck
            | .inr value => .done value
          else .stuck

section

variable (functions : List String) (visible : List String)

mutual

/-- An expression of integers that names visible variables and the functions. -/
def isInt : Node → Bool
  | .name id => visible.contains id
  | .constant (.int _) => true
  | .binOp left _ right => isInt left && isInt right
  | .unaryOp _ operand => isInt operand
  | .subscript (.name id) slice => visible.contains id && isInt slice
  | .call (.name func) args _ => functions.contains func && areInts args
  | _ => false

def areInts : List Node → Bool
  | [] => true
  | arg :: rest => isInt arg && areInts rest

end

def isTest : Node → Bool
  | .compare left [(_, right)] => isInt functions visible left && isInt functions visible right
  | _ => false

end

section

variable {calls : String → List Word → Ran Word} {env env' : Env} {functions visible : List String}

mutual

theorem evalInt_congr (same : ∀ name ∈ visible, env' name = env name) (node : Node)
    (int : isInt functions visible node = true) :
    evalInt calls env' node = evalInt calls env node := by
  match node, int with
  | .name id, member =>
      rw [evalInt, evalInt, readInt, readInt, same id (List.contains_iff_mem.mp member)]
  | .constant (.int number), _ => rfl
  | .binOp left op right, both =>
      rw [isInt, Bool.and_eq_true_iff] at both
      rw [evalInt, evalInt, evalInt_congr same left both.1, evalInt_congr same right both.2]
  | .unaryOp op operand, inner => rw [evalInt, evalInt, evalInt_congr same operand inner]
  | .subscript (.name id) slice, both =>
      rw [isInt, Bool.and_eq_true_iff] at both
      have found := same id (List.contains_iff_mem.mp both.1)
      have cell (index : Word) : readCell env' id index = readCell env id index := by
        rw [readCell, readCell, found]
      simp only [evalInt, evalInt_congr same slice both.2, cell]
  | .call (.name func) args dropped, both =>
      rw [isInt, Bool.and_eq_true_iff] at both
      rw [evalInt, evalInt, evalArgs_congr same args both.2]

private theorem evalArgs_congr (same : ∀ name ∈ visible, env' name = env name) (args : List Node)
    (ints : areInts functions visible args = true) :
    evalArgs calls env' args = evalArgs calls env args := by
  match args, ints with
  | [], _ => rfl
  | arg :: rest, both =>
      rw [areInts, Bool.and_eq_true_iff] at both
      rw [evalArgs, evalArgs, evalInt_congr same arg both.1, evalArgs_congr same rest both.2]

end

end

mutual

/-- The variables that are declared on every path through the statement: those of
an arm count if no path goes on after the other one. -/
def introduces : Node → List String
  | .annAssign (.name id) _ _ => [id]
  | .ifStmt _ body orelse =>
      (if fallsThroughAll orelse then [] else introducesAll body) ++
        if fallsThroughAll body then [] else introducesAll orelse
  | _ => []

def introducesAll : List Node → List String
  | [] => []
  | stmt :: rest => introducesAll rest ++ introduces stmt

end

mutual

/-- The variables that are used in the node. -/
def mentions : Node → List String
  | .name id => [id]
  | .binOp left _ right => mentions left ++ mentions right
  | .unaryOp _ operand => mentions operand
  | .compare left [(_, right)] => mentions left ++ mentions right
  | .call _ args _ => mentionsAll args
  | .subscript value slice => mentions value ++ mentions slice
  | .return_ (some value) => mentions value
  | .assign target _ value => mentions target ++ mentions value
  | .annAssign _ _ (some value) => mentions value
  | .ifStmt test body orelse => mentions test ++ mentionsAll body ++ mentionsAll orelse
  | .whileStmt test body _ => mentions test ++ mentionsAll body
  | .expr value => mentions value
  | _ => []

def mentionsAll : List Node → List String
  | [] => []
  | node :: rest => mentions node ++ mentionsAll rest

end

/-- The variables that may be used after the statement: all of them where no path
leads. -/
def visibleAfter (visible : List String) (stmt : Node) (rest : List Node) : List String :=
  if fallsThrough stmt then introduces stmt ++ visible else mentionsAll rest

section

variable (functions : List String)

mutual

/-- A statement of the language, with every use of a variable after its
declaration on all paths. -/
def isIntStmt (visible : List String) : Node → Bool
  | .annAssign (.name _) (.name "int") (some value) => isInt functions visible value
  | .annAssign (.name _) annotation none => (declared annotation).isSome
  | .assign (.name id) [] value => visible.contains id && isInt functions visible value
  | .assign (.subscript (.name id) slice) [] value =>
      visible.contains id && isInt functions visible slice && isInt functions visible value
  | .ifStmt test body orelse =>
      isTest functions visible test && areIntStmts visible body && areIntStmts visible orelse
  | .whileStmt test body [] => isTest functions visible test && areIntStmts visible body
  | .return_ (some value) => isInt functions visible value
  | .expr value => isInt functions visible value
  | .pass => true
  | _ => false

def areIntStmts (visible : List String) : List Node → Bool
  | [] => true
  | stmt :: rest =>
      isIntStmt visible stmt && areIntStmts (visibleAfter visible stmt rest) rest

end

end

mutual

def declares : Node → List String
  | .annAssign (.name id) _ _ => [id]
  | .ifStmt _ body orelse => declaresAll body ++ declaresAll orelse
  | .whileStmt _ body _ => declaresAll body
  | _ => []

def declaresAll : List Node → List String
  | [] => []
  | stmt :: rest => declares stmt ++ declaresAll rest

end

/-- `def name(x: int, ...) -> int`, with every name declared once, calling
itself and the functions before it.  The compiler gives `self` no parameter, and
`handle` is its entry point. -/
def intFunction? (before : List String) : Node → Option IntFunction
  | .functionDef name args (some (.name "int")) body _ =>
      if name ≠ "handle" ∧ (args.all fun arg => arg.1 = "self" ∨ isIntName arg.2) ∧
        areIntStmts (name :: before) (paramNames args) body ∧
        (paramNames args ++ declaresAll body).Nodup
      then some { name, params := paramNames args, body } else none
  | _ => none
where
  isIntName : Option Node → Bool
    | some (.name "int") => true
    | _ => false

def intFunctions (before : List IntFunction) : List Node → List IntFunction
  | [] => before
  | stmt :: rest =>
      match intFunction? (before.map (·.name)) stmt with
      | some func => intFunctions (before ++ [func]) rest
      | none => intFunctions before rest

section

variable {calls : String → List Word → Ran Word} {fuel : Nat}

mutual

/-- What a statement leaves to the next one shows that a path goes on after it. -/
theorem fallsThrough_of_exec {env env' : Env} (node : Node)
    (ran : exec calls fuel node env = .done (.inl env')) : fallsThrough node = true := by
  match node with
  | .return_ (some value) =>
      rw [exec] at ran
      cases returned : evalInt calls env value with
      | done value => rw [returned] at ran; cases ran
      | stuck => rw [returned] at ran; cases ran
      | spent => rw [returned] at ran; cases ran
  | .return_ none => cases ran
  | .ifStmt test body orelse =>
      rw [exec] at ran
      rw [fallsThrough, Bool.or_eq_true]
      cases tested : evalTest calls env test with
      | stuck => rw [tested] at ran; cases ran
      | spent => rw [tested] at ran; cases ran
      | done holds =>
          rw [tested] at ran
          cases holds with
          | true => exact .inl (fallsThroughAll_of_exec body ran)
          | false => exact .inr (fallsThroughAll_of_exec orelse ran)
  | .functionDef .. | .classDef .. | .other .. => cases ran
  | .name _ | .constant _ | .binOp .. | .unaryOp .. | .compare .. | .call .. | .attribute .. |
    .subscript .. | .sliced .. | .assign .. | .annAssign .. | .whileStmt .. | .expr _ | .pass |
    .importFrom .. => rfl

theorem fallsThroughAll_of_exec {env env' : Env} (stmts : List Node)
    (ran : execAll calls fuel stmts env = .done (.inl env')) : fallsThroughAll stmts = true := by
  match stmts with
  | [] => rfl
  | stmt :: rest =>
      rw [execAll] at ran
      cases first : exec calls fuel stmt env with
      | stuck => rw [first] at ran; cases ran
      | spent => rw [first] at ran; cases ran
      | done result =>
          rw [first] at ran
          cases result with
          | inr value => cases ran
          | inl middle =>
              have ran : execAll calls fuel rest middle = .done (.inl env') := ran
              exact Bool.and_eq_true_iff.mpr
                ⟨fallsThrough_of_exec stmt first, fallsThroughAll_of_exec rest ran⟩

end

end

section

variable {calls more : String → List Word → Ran Word}

mutual

theorem evalInt_below (below : ∀ name args, Below (calls name args) (more name args))
    (env : Env) (node : Node) : Below (evalInt calls env node) (evalInt more env node) := by
  match node with
  | .binOp left op right =>
      rw [evalInt, evalInt]
      exact (evalInt_below below env left).bind fun _ =>
        (evalInt_below below env right).bind fun _ => .refl _
  | .unaryOp op operand =>
      rw [evalInt, evalInt]
      exact (evalInt_below below env operand).bind fun _ => .refl _
  | .subscript value slice =>
      cases value with
      | name id =>
          rw [evalInt, evalInt]
          exact (evalInt_below below env slice).bind fun _ => .refl _
      | _ => exact .refl _
  | .call func args _ =>
      cases func with
      | name func =>
          rw [evalInt, evalInt]
          exact (evalArgs_below below env args).bind fun values => below func values
      | _ => exact .refl _
  | .constant value => cases value <;> exact .refl _
  | .name _ | .compare .. | .attribute .. | .sliced .. | .return_ _ | .assign .. | .annAssign .. |
    .ifStmt .. | .whileStmt .. | .expr _ | .pass | .functionDef .. | .classDef .. | .importFrom .. |
    .other .. => exact .refl _

theorem evalArgs_below (below : ∀ name args, Below (calls name args) (more name args))
    (env : Env) (args : List Node) : Below (evalArgs calls env args) (evalArgs more env args) := by
  match args with
  | [] => exact .refl _
  | arg :: rest =>
      rw [evalArgs, evalArgs]
      exact (evalInt_below below env arg).bind fun _ =>
        (evalArgs_below below env rest).bind fun _ => .refl _

end

private theorem evalTest_below (below : ∀ name args, Below (calls name args) (more name args))
    (env : Env) (node : Node) : Below (evalTest calls env node) (evalTest more env node) := by
  unfold evalTest
  split
  · exact (evalInt_below below env _).bind fun _ =>
      (evalInt_below below env _).bind fun _ => .refl _
  · exact .refl _

mutual

private theorem exec_below (below : ∀ name args, Below (calls name args) (more name args))
    {fuel further : Nat} (fewer : fuel ≤ further) (node : Node) (env : Env) :
    Below (exec calls fuel node env) (exec more further node env) := by
  match node with
  | .annAssign target annotation value =>
      cases target with
      | name id =>
          cases value with
          | none => rw [exec, exec]; exact .refl _
          | some value =>
              rw [exec, exec]
              exact (evalInt_below below env value).bind fun _ => .refl _
      | _ => exact .refl _
  | .assign target _ value =>
      cases target with
      | name id =>
          rw [exec, exec]
          exact (evalInt_below below env value).bind fun _ => .refl _
      | subscript array slice =>
          cases array with
          | name id =>
              rw [exec, exec]
              exact (evalInt_below below env slice).bind fun _ =>
                (evalInt_below below env value).bind fun _ => .refl _
          | _ => exact .refl _
      | _ => exact .refl _
  | .ifStmt test body orelse =>
      rw [exec, exec]
      refine (evalTest_below below env test).bind fun holds => ?_
      cases holds with
      | true => exact execAll_below below fewer body env
      | false => exact execAll_below below fewer orelse env
  | .whileStmt test body _ =>
      rw [exec, exec]
      exact iterate_below (fun env => evalTest_below below env test)
        (fun env => execAll_below below fewer body env) fewer env
  | .return_ value =>
      cases value with
      | none => exact .refl _
      | some value =>
          rw [exec, exec]
          exact (evalInt_below below env value).bind fun _ => .refl _
  | .expr value =>
      rw [exec, exec]
      exact (evalInt_below below env value).bind fun _ => .refl _
  | .pass | .name _ | .constant _ | .binOp .. | .unaryOp .. | .compare .. | .call .. |
    .attribute .. | .subscript .. | .sliced .. | .functionDef .. | .classDef .. | .importFrom .. |
    .other .. => exact .refl _

private theorem execAll_below (below : ∀ name args, Below (calls name args) (more name args))
    {fuel further : Nat} (fewer : fuel ≤ further) (stmts : List Node) (env : Env) :
    Below (execAll calls fuel stmts env) (execAll more further stmts env) := by
  match stmts with
  | [] => exact .refl _
  | stmt :: rest =>
      rw [execAll, execAll]
      refine (exec_below below fewer stmt env).bind fun result => ?_
      cases result with
      | inl env => exact execAll_below below fewer rest env
      | inr value => exact .refl _

end

/-- With more fuel a call gives the same result. -/
theorem callInt_below (functions : List IntFunction) {less more : Nat} (fewer : less ≤ more)
    (name : String) (args : List Word) :
    Below (callInt functions less name args) (callInt functions more name args) := by
  induction less generalizing more name args with
  | zero => exact .inl rfl
  | succ less ih =>
      obtain ⟨more, rfl⟩ := Nat.exists_eq_succ_of_ne_zero (Nat.ne_zero_of_lt fewer)
      have fewer := Nat.le_of_succ_le_succ fewer
      rw [callInt, callInt]
      cases functions.find? (·.name = name) with
      | none => exact .refl _
      | some func =>
          dsimp only
          split
          · refine (execAll_below (fun name args => ih fewer name args) fewer func.body _).bind
              fun result => ?_
            cases result <;> exact .refl _
          · exact .refl _

/-- A call that returns with some fuel is stuck with none. -/
theorem notStuck_of_done {functions : List IntFunction} {enough : Nat} {name : String}
    {args : List Word} {number : Word} (done : callInt functions enough name args = .done number)
    (fuel : Nat) : callInt functions fuel name args ≠ .stuck := by
  intro stuck
  have fromStuck := callInt_below functions (Nat.le_max_left fuel enough) name args
  have fromDone := callInt_below functions (Nat.le_max_right fuel enough) name args
  rw [stuck] at fromStuck
  rw [done] at fromDone
  obtain spent | same := fromStuck
  · cases spent
  · obtain spent | other := fromDone
    · cases spent
    · cases same.symm.trans other

end

end Lambpie.Integers

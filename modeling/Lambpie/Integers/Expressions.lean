/-
Expressions of integers.

The code of an expression leaves its value in the operand that the visit
returned, and the variables as they are.
-/
import Lambpie.Integers.Storage
import Lambpie.Integers.Appends

namespace Lambpie.Integers

open Foundations
open Foundations.Comp
open Lambpie.Compiler
open Lambpie.Machine

variable {module : Module}

/-! ### What the compiler knows -/

/-- The scopes in which a statement of an integer function is visited. -/
structure Scoped (homes : Scope Value) (globals : Scope PyVal) (visible : List String)
    (state : CompilerState) : Prop where
  int : state.types "int" = some .i64
  globals : state.globalScope = globals
  locals : ∀ name value, state.localScope name = some value → homes name = some value
  visible : ∀ name ∈ visible, (state.localScope name).isSome

theorem Scoped.undisturbed {homes : Scope Value} {globals : Scope PyVal} {visible : List String}
    {state state' : CompilerState} (known : Scoped homes globals visible state)
    (same : Undisturbed state state') : Scoped homes globals visible state' where
  int := by rw [same.types]; exact known.int
  globals := same.globals.trans known.globals
  locals name value := by rw [same.locals]; exact known.locals name value
  visible name member := by rw [same.locals]; exact known.visible name member

mutual

theorem isExpression_of_isInt {functions visible : List String} (node : Node)
    (int : isInt functions visible node = true) : isExpression node = true := by
  match node, int with
  | .name id, _ => rfl
  | .constant literal, _ => rfl
  | .binOp left op right, both =>
      exact Bool.and_eq_true_iff.mpr ⟨isExpression_of_isInt left (and_left both),
        isExpression_of_isInt right (and_right both)⟩
  | .unaryOp op operand, inner => exact isExpression_of_isInt operand inner
  | .subscript (.name id) slice, both =>
      exact Bool.and_eq_true_iff.mpr ⟨rfl, isExpression_of_isInt slice (and_right both)⟩
  | .call (.name func) args dropped, both =>
      exact Bool.and_eq_true_iff.mpr ⟨rfl, areExpressions_of_areInts args (and_right both)⟩

private theorem areExpressions_of_areInts {functions visible : List String} (args : List Node)
    (ints : areInts functions visible args = true) : areExpressions args = true := by
  match args, ints with
  | [], _ => rfl
  | arg :: rest, both =>
      exact Bool.and_eq_true_iff.mpr ⟨isExpression_of_isInt arg (and_left both),
        areExpressions_of_areInts rest (and_right both)⟩

end

theorem isExpression_of_isTest {functions visible : List String} (node : Node)
    (test : isTest functions visible node = true) : isExpression node = true := by
  match node, test with
  | .compare left [(op, right)], both =>
      exact Bool.and_eq_true_iff.mpr ⟨isExpression_of_isInt left (and_left both),
        isExpression_of_isInt right (and_right both)⟩

/-! ### What a visit leaves -/

/-- A register of the code so far, a constant or an argument. -/
def Settled (limit : Nat) (value : Value) : Prop :=
  ∀ id, value.operand = .reg id → id < limit

private theorem eval_of_sameFrame {limit : Nat} {before after : Frame} {value : Value}
    (settled : Settled limit value) (same : SameFrame module limit before after) :
    eval after value = eval before value := by
  unfold eval
  cases isOperand : value.operand with
  | reg id => exact same.regs id (.inl (settled id isOperand))
  | arg index => rw [same.args]
  | _ => rfl

/-- The value of the type that the visit returned is the result in the frame. -/
def Operand (limit : Nat) (frame : Frame) (val : PyVal) (type : LType) (result : RtVal) : Prop :=
  ∃ value, val = .value value ∧ value.type = type ∧ eval frame value = result ∧
    Settled limit value

/-- An operand outlasts the code of another expression. -/
theorem Operand.keep {limit later : Nat} {before after : Frame} {val : PyVal} {type : LType}
    {result : RtVal} (operand : Operand limit before val type result)
    (same : SameFrame module limit before after) (more : limit ≤ later) :
    Operand later after val type result := by
  obtain ⟨value, isValue, hasType, evaluated, settled⟩ := operand
  refine ⟨value, isValue, hasType, ?_, fun id isReg => Nat.lt_of_lt_of_le (settled id isReg) more⟩
  rw [eval_of_sameFrame settled same, evaluated]

structure Leaves (module : Module) (base state : CompilerState) (before : MachineState)
    (val : PyVal) (type : LType) (result : RtVal) (after : MachineState) : Prop where
  stands : At module state after.frame
  evaluates : Evaluates module base.module.code.length before after
  operand : Operand state.module.code.length after.frame val type result

structure Passes (module : Module) (base state : CompilerState) (before : MachineState)
    (vals : List PyVal) (numbers : List Word) (after : MachineState) : Prop where
  stands : At module state after.frame
  evaluates : Evaluates module base.module.code.length before after
  operands : List.Forall₂ (fun val number =>
    Operand state.module.code.length after.frame val .i64 (.i64 number)) vals numbers

theorem Passes.evaluated {base state : CompilerState} {before after : MachineState}
    {vals : List PyVal} {numbers : List Word}
    (passes : Passes module base state before vals numbers after) :
    vals.map (evalPyVal after.frame) = numbers.map .i64 := by
  obtain ⟨-, -, operands⟩ := passes
  induction operands with
  | nil => rfl
  | cons head tail ih =>
      obtain ⟨value, rfl, -, evaluated, -⟩ := head
      rw [List.map_cons, List.map_cons, ih]
      congr 1

theorem Appends.undisturbed {base state state' : CompilerState} {instr : Instr} {type : LType}
    {value : Value} (appends : Appends state instr type value state')
    (same : Undisturbed base state) : Undisturbed base state' := by
  obtain ⟨block, -, -, rfl⟩ := appends
  exact same.append _

private theorem leaves_appends {base state state' : CompilerState} {before machine : MachineState}
    {instr : Instr} {type : LType} {value : Value} {result : RtVal}
    (appends : Appends state instr type value state')
    (included : state'.module.code <+: module.code)
    (evaluates : Evaluates module base.module.code.length before machine)
    (ordered : base.module.code.length ≤ state.module.code.length)
    (stands : At module state machine.frame) (noSlot : instr.isAlloca = false)
    (run : ∀ code, execute module (machine.fetched code) state.module.code.length instr =
      .ok ((machine.fetched code).assign state.module.code.length result)) :
    ∃ after, Reaches (step module) machine after ∧
      Leaves module base state' before (.value value) type result after := by
  obtain ⟨block, standing, rfl, rfl⟩ := appends
  obtain ⟨pending, next⟩ := stands.next standing included
  have computed : Evaluates module state.module.code.length machine
      ((machine.fetched (codeFrom module machine.frame.block
        (state.module.code.length + 1))).assign state.module.code.length result) := by
    refine ⟨⟨rfl, rfl, rfl, rfl, fun id kept => if_neg ?_⟩, rfl, .refl _ _⟩
    intro same
    subst same
    rcases kept with below | ⟨entry, found, isSlot⟩
    · exact Nat.lt_irrefl _ below
    · cases (getElem_of_included included).symm.trans found
      rw [noSlot] at isSlot
      cases isSlot
  refine ⟨_, .of_step (step_of_execute pending (run _)), (next _ rfl).change rfl rfl,
    evaluates.trans computed ordered, _, rfl, rfl, if_pos rfl, ?_⟩
  intro id isReg
  cases isReg
  simp [CompilerState.append]

private theorem binopValue_of_applied {op : BinaryOp} {opcode : BinOpcode} {left right value : Word}
    (compiled : binOpcode op = some opcode) (applied : applyBinary op left right = .done value) :
    binopValue opcode (.i64 left) (.i64 right) = some (.i64 value) := by
  cases op with
  | add | sub | mult | bitAnd | bitOr | bitXor =>
      cases compiled
      cases applied
      rfl
  | lShift | rShift =>
      cases compiled
      simp only [applyBinary] at applied
      split at applied
      · rename_i small
        cases applied
        exact if_pos small
      · cases applied
  | mod =>
      cases compiled
      unfold applyBinary at applied
      by_cases undefined : right = 0 ∨ (left = BitVec.intMin 64 ∧ right = -1)
      · rw [if_pos undefined] at applied
        cases applied
      · rw [if_neg undefined] at applied
        cases applied
        exact if_neg undefined
  | _ => cases compiled

private theorem applyBinary_ne_spent (op : BinaryOp) (left right : Word) :
    applyBinary op left right ≠ .spent := by
  intro applied
  cases op with
  | lShift | rShift | mod =>
      simp only [applyBinary] at applied
      split at applied <;> cases applied
  | _ => cases applied

private theorem applyCompare_ne_spent (op : CompareOp) (left right : Word) :
    applyCompare op left right ≠ .spent := by
  intro applied
  cases op <;> cases applied

private theorem icmpValue_of_applied {op : CompareOp} {predicate : Predicate} {left right : Word}
    {holds : Bool} (blocks : BlockMemory Block Cell)
    (compiled : comparePredicate op = some predicate)
    (applied : applyCompare op left right = .done holds) :
    icmpValue blocks predicate (.i64 left) (.i64 right) = .i1 holds := by
  cases op with
  | eq | notEq | lt | ltE | gt | gtE =>
      cases compiled
      cases applied
      rfl
  | _ => cases compiled

private theorem execute_binop {machine : MachineState} {opcode : BinOpcode} {lhs rhs : Value}
    {left right value : Word} {id : Nat} (code : List (Nat × Instr)) (type : lhs.type = .i64)
    (isLeft : eval machine.frame lhs = .i64 left) (isRight : eval machine.frame rhs = .i64 right)
    (computed : binopValue opcode (.i64 left) (.i64 right) = some (.i64 value)) :
    execute module (machine.fetched code) id (.binop opcode lhs rhs) =
      .ok ((machine.fetched code).assign id (.i64 value)) := by
  have isInt : isIntType lhs.type = true := by
    rw [type]
    rfl
  have front : eval (machine.fetched code).frame lhs = .i64 left := isLeft
  have back : eval (machine.fetched code).frame rhs = .i64 right := isRight
  simp only [execute, isInt, front, back, computed, if_pos]
  rfl

private theorem rightOperand_i64 {frame : Frame} {rhs : Value} {right : Word}
    (type : rhs.type = .i64) (isRight : eval frame rhs = .i64 right) :
    rightOperand .i64 (.value rhs) = some rhs := by
  obtain ⟨rhsType, operand⟩ := rhs
  cases type
  cases operand with
  | bool value => cases isRight
  | null => cases isRight
  | _ => rfl

private theorem execute_icmp {machine : MachineState} {predicate : Predicate} {lhs rhs : Value}
    {left right : Word} {holds : Bool} {id : Nat} (code : List (Nat × Instr))
    (leftType : lhs.type = .i64) (rightType : rhs.type = .i64)
    (isLeft : eval machine.frame lhs = .i64 left) (isRight : eval machine.frame rhs = .i64 right)
    (computed : icmpValue machine.memory.blocks predicate (.i64 left) (.i64 right) =
      .i1 holds) :
    execute module (machine.fetched code) id (.icmp predicate lhs (.value rhs)) =
      .ok ((machine.fetched code).assign id (.i1 holds)) := by
  have operand : rightOperand lhs.type (.value rhs) = some rhs := by
    rw [leftType]
    exact rightOperand_i64 rightType isRight
  have front : eval (machine.fetched code).frame lhs = .i64 left := isLeft
  have back : eval (machine.fetched code).frame rhs = .i64 right := isRight
  have computed : icmpValue (machine.fetched code).memory.blocks predicate (.i64 left)
      (.i64 right) = .i1 holds := computed
  simp only [execute, operand, front, back, computed]
  rfl

private theorem execute_load {machine : MachineState} {ptr : Value} {slot index : Nat}
    {content : Variable} {value : Word} {id : Nat} (code : List (Nat × Instr))
    (type : ptr.type = .ptr .i64)
    (address : eval machine.frame ptr = .ptr (.stack slot) ((8 * index : Nat) : Int))
    (holds : Holds machine.memory slot content)
    (found : content.cells[index]? = some (some value)) :
    execute module (machine.fetched code) id (.load ptr) =
      .ok ((machine.fetched code).assign id (.i64 value)) := by
  have from_ : eval (machine.fetched code).frame ptr = _ := address
  have loaded : loadCells (machine.fetched code).memory
      (.ptr (.stack slot) ((8 * index : Nat) : Int)) (sizeOf module .i64) =
        .ok (encode (.i64 value) 8) := holds.load found
  simp only [execute, type, from_, loaded, Outcome.ok_bind, decode_encode_word]
  rfl

private theorem execute_gep {machine : MachineState} {ptr index : Value} {slot count : Nat}
    {number : Word} {id : Nat} (code : List (Nat × Instr))
    (type : ptr.type = .ptr (.array .i64 count))
    (address : eval machine.frame ptr = .ptr (.stack slot) 0)
    (isIndex : eval machine.frame index = .i64 number) :
    execute module (machine.fetched code) id (.gep ptr [i64Const 0, index]) =
      .ok ((machine.fetched code).assign id (.ptr (.stack slot) (8 * number.toInt))) := by
  have from_ : eval (machine.fetched code).frame ptr = _ := address
  have distance : gepOffset module ptr.type
      ([i64Const 0, index].map (eval (machine.fetched code).frame)) =
        some (8 * number.toInt) := by
    have back : eval (machine.fetched code).frame index = .i64 number := isIndex
    have front : eval (machine.fetched code).frame (i64Const 0) = .i64 0 := rfl
    have size : sizeOf module .i64 = 8 := rfl
    have zero : (0 : BitVec 64).toInt = 0 := rfl
    rw [type, List.map_cons, List.map_cons, List.map_nil, front, back]
    simp only [gepOffset, indexValue, zero, size, Option.bind_eq_bind, Option.bind_some,
      Option.pure_def, Option.some.injEq]
    omega
  simp only [execute, from_, distance, Int.zero_add]
  rfl

/-! ### The setting of an expression -/

structure Returning (dst : Nat) (callers : List Frame) (memory : Memory) (number : Word)
    (machine : MachineState) : Prop where
  callers : machine.callers = callers
  dst : machine.frame.dst = dst
  slots : ∀ slot ∈ machine.frame.slots, memory.nextStack ≤ slot
  untouched : Untouched memory.nextStack memory machine.memory
  returns : ∃ id val code, machine.frame.code = (id, .ret val) :: code ∧
    evalPyVal machine.frame val = .i64 number

/-- The functions known by name compute what the calls do. -/
def Linked (module : Module) (calls : String → List Word → Ran Word) (fuel : Nat)
    (functions : List String) (globals : Scope PyVal) : Prop :=
  ∀ name ∈ functions, ∃ index params varArg func entry,
    globals name = some (.value
      { type := .ptr (.function .i64 params varArg), operand := .func index }) ∧
    module.functions[index]? = some func ∧ func.entry = some entry ∧
    ∀ numbers dst callers memory, Tracks (step module) fuel
      { frame := enter module entry (numbers.map .i64) dst, callers, memory }
      (calls name numbers) (Returning dst callers memory)

/-- The machine is where the compiler is, with the values of the variables. -/
structure Poised (module : Module) (homes : Scope Value) (globals : Scope PyVal)
    (visible : List String) (base : Nat) (env : Env) (slots : String → Nat)
    (state : CompilerState) (machine : MachineState) : Prop where
  known : Scoped homes globals visible state
  bound : ∀ name ∈ visible, ∃ content, env name = some content
  stands : At module state machine.frame
  stored : Stored homes base env slots machine.frame machine.memory

theorem Poised.evaluates {homes : Scope Value} {globals : Scope PyVal} {visible : List String}
    {base start : Nat} {env : Env} {slots : String → Nat} {state state' : CompilerState}
    {machine after : MachineState} (isHomes : Homes module homes)
    (poised : Poised module homes globals visible base env slots state machine)
    (same : Undisturbed state state') (stands : At module state' after.frame)
    (evaluates : Evaluates module start machine after) :
    Poised module homes globals visible base env slots state' after where
  known := poised.known.undisturbed same
  bound := poised.bound
  stands := stands
  stored := poised.stored.evaluates isHomes evaluates

theorem Poised.slot {homes : Scope Value} {globals : Scope PyVal} {visible : List String}
    {base : Nat} {env : Env} {slots : String → Nat} {state : CompilerState}
    {machine : MachineState}
    (poised : Poised module homes globals visible base env slots state machine) {name : String}
    (member : name ∈ visible) :
    ∃ content id, env name = some content ∧
      state.localScope name = some { type := .ptr content.type, operand := .reg id } ∧
      machine.frame.regs id = .ptr (.stack (slots name)) 0 ∧
      Holds machine.memory (slots name) content := by
  obtain ⟨content, found⟩ := poised.bound name member
  obtain ⟨alloc, isLocal⟩ := Option.isSome_iff_exists.mp (poised.known.visible name member)
  obtain ⟨id, isHome, address⟩ := poised.stored.home name content found
  cases (poised.known.locals name alloc isLocal).symm.trans isHome
  exact ⟨content, id, found, isLocal, address, poised.stored.content name content found⟩

section

variable {calls : String → List Word → Ran Word} {fuel : Nat} {functions visible : List String}
  {globals : Scope PyVal} {homes : Scope Value} {base : Nat} {env : Env} {slots : String → Nat}

/-- The code of the visit computes what the interpreter does and leaves the rest
as it is. -/
def Computes {α : Type} (module : Module) (fuel : Nat) (homes : Scope Value)
    (globals : Scope PyVal) (visible : List String) (base : Nat) (env : Env)
    (slots : String → Nat) (compile : Visit PyVal) (type : LType) (result : α → RtVal)
    (ran : Ran α) : Prop :=
  ∀ state val state', compile state = .ok (val, state') → Undisturbed state state' ∧
    (state'.module.code <+: module.code → ∀ machine,
      Poised module homes globals visible base env slots state machine →
      Tracks (step module) (fuel + 1) machine ran fun value after =>
        Leaves module state state' machine val type (result value) after)

private theorem tracks_operands {α : Type} {left right : Visit PyVal} {ranLeft ranRight : Ran Word}
    {lhs rhs : PyVal} {state middle state' : CompilerState} {machine : MachineState}
    {next : Word → Word → Ran α} {post : α → MachineState → Prop}
    (isHomes : Homes module homes)
    (computesLeft : Computes module fuel homes globals visible base env slots left .i64 .i64 ranLeft)
    (computesRight :
      Computes module fuel homes globals visible base env slots right .i64 .i64 ranRight)
    (leftRun : left state = .ok (lhs, middle)) (rightRun : right middle = .ok (rhs, state'))
    (included : state'.module.code <+: module.code)
    (poised : Poised module homes globals visible base env slots state machine)
    (onward : ∀ first second after, At module state' after.frame →
      Evaluates module state.module.code.length machine after →
      Operand state'.module.code.length after.frame lhs .i64 (.i64 first) →
      Operand state'.module.code.length after.frame rhs .i64 (.i64 second) →
      Tracks (step module) (fuel + 1) after (next first second) post) :
    Tracks (step module) (fuel + 1) machine
      (ranLeft >>= fun first => ranRight >>= fun second => next first second) post := by
  obtain ⟨same, tracks⟩ := computesLeft state lhs middle leftRun
  obtain ⟨same', tracks'⟩ := computesRight middle rhs state' rightRun
  have ordered : state.module.code.length ≤ middle.module.code.length := same.code.length_le
  have ordered' : middle.module.code.length ≤ state'.module.code.length := same'.code.length_le
  refine (tracks (same'.code.trans included) machine poised).bind fun first between leaves => ?_
  have poised' := poised.evaluates isHomes same leaves.stands leaves.evaluates
  refine (tracks' included between poised').bind fun second after leaves' => ?_
  apply onward first second after leaves'.stands
  · exact leaves.evaluates.trans leaves'.evaluates ordered
  · exact leaves.operand.keep leaves'.evaluates.frame ordered'
  · exact leaves'.operand

private theorem computes_binOp {left right : Visit PyVal} {ranLeft ranRight : Ran Word}
    (isHomes : Homes module homes) (op : BinaryOp)
    (computesLeft : Computes module fuel homes globals visible base env slots left .i64 .i64 ranLeft)
    (computesRight :
      Computes module fuel homes globals visible base env slots right .i64 .i64 ranRight) :
    Computes module fuel homes globals visible base env slots (visitBinOp left op right) .i64 .i64
      (ranLeft >>= fun first => ranRight >>= fun second => applyBinary op first second) := by
  intro state val state' run
  obtain ⟨lhs, middle, leftRun, rest⟩ := bind_ok_iff.mp run
  obtain ⟨rhs, last, rightRun, built⟩ := bind_ok_iff.mp rest
  cases compiled : binOpcode op with
  | none =>
      rw [compiled] at built
      exact (fail_ok_iff.mp built).elim
  | some opcode =>
      rw [compiled] at built
      obtain ⟨result, final, emitted, finished⟩ := bind_ok_iff.mp built
      obtain ⟨rfl, rfl⟩ := pure_ok_iff.mp finished
      obtain ⟨lhs, rhs, rfl, rfl, appends⟩ := binop_ok emitted
      have same := (computesLeft _ _ _ leftRun).1.trans (computesRight _ _ _ rightRun).1
      refine ⟨appends.undisturbed same, fun included machine poised => ?_⟩
      have inFront := (appends.undisturbed (.refl last)).code.trans included
      apply tracks_operands isHomes computesLeft computesRight leftRun rightRun inFront poised
      intro first second after stands evaluates isLeft isRight
      obtain ⟨lhs', isLhs, leftType, leftValue, -⟩ := isLeft
      obtain ⟨rhs', isRhs, rightType, rightValue, -⟩ := isRight
      cases isLhs
      cases isRhs
      cases applied : applyBinary op first second with
      | done value =>
          have computed := binopValue_of_applied compiled applied
          obtain ⟨final, reached, leaves⟩ := leaves_appends appends included evaluates
            same.code.length_le stands rfl
            fun code => execute_binop code leftType leftValue rightValue computed
          rw [leftType] at leaves
          exact .of_reaches reached (.done leaves)
      | stuck => trivial
      | spent => exact (applyBinary_ne_spent op first second applied).elim

private theorem computes_compare {left right : Visit PyVal} {ranLeft ranRight : Ran Word}
    (isHomes : Homes module homes) (op : CompareOp)
    (computesLeft : Computes module fuel homes globals visible base env slots left .i64 .i64 ranLeft)
    (computesRight :
      Computes module fuel homes globals visible base env slots right .i64 .i64 ranRight) :
    Computes module fuel homes globals visible base env slots
      (visitCompare left (some (op, right))) .i1 .i1
      (ranLeft >>= fun first => ranRight >>= fun second => applyCompare op first second) := by
  intro state val state' run
  obtain ⟨lhs, middle, leftRun, rest⟩ := bind_ok_iff.mp run
  obtain ⟨rhs, last, rightRun, built⟩ := bind_ok_iff.mp rest
  cases compiled : comparePredicate op with
  | none =>
      rw [compiled] at built
      exact (fail_ok_iff.mp built).elim
  | some predicate =>
      rw [compiled] at built
      obtain ⟨result, final, emitted, finished⟩ := bind_ok_iff.mp built
      obtain ⟨rfl, rfl⟩ := pure_ok_iff.mp finished
      obtain ⟨lhs, rfl, appends⟩ := icmp_ok emitted
      have same := (computesLeft _ _ _ leftRun).1.trans (computesRight _ _ _ rightRun).1
      refine ⟨appends.undisturbed same, fun included machine poised => ?_⟩
      have inFront := (appends.undisturbed (.refl last)).code.trans included
      apply tracks_operands isHomes computesLeft computesRight leftRun rightRun inFront poised
      intro first second after stands evaluates isLeft isRight
      obtain ⟨lhs', isLhs, leftType, leftValue, -⟩ := isLeft
      obtain ⟨rhs', rfl, rightType, rightValue, -⟩ := isRight
      cases isLhs
      cases applied : applyCompare op first second with
      | done holds =>
          have computed := icmpValue_of_applied after.memory.blocks compiled applied
          obtain ⟨final, reached, leaves⟩ := leaves_appends appends included evaluates
            same.code.length_le stands rfl
            fun code => execute_icmp code leftType rightType leftValue rightValue computed
          exact .of_reaches reached (.done leaves)
      | stuck => trivial
      | spent => exact (applyCompare_ne_spent op first second applied).elim

private theorem computes_constant (number : Int) :
    Computes module fuel homes globals visible base env slots (visitConstant (.int number))
      .i64 .i64 (.done (BitVec.ofInt 64 number)) := by
  intro state val state' run
  obtain ⟨type, middle, read, rest⟩ := bind_ok_iff.mp run
  obtain ⟨found, rfl⟩ := lookup_ok read
  obtain ⟨value, last, made, finished⟩ := bind_ok_iff.mp rest
  obtain ⟨rfl, rfl⟩ := constant_ok made
  obtain ⟨rfl, rfl⟩ := pure_ok_iff.mp finished
  refine ⟨.refl _, fun included machine poised => .done ⟨poised.stands, .refl _ _, ?_⟩⟩
  cases poised.known.int.symm.trans found
  refine ⟨_, rfl, rfl, rfl, fun id isReg => ?_⟩
  cases isReg

private theorem tracks_withConstant {ran : Ran Word} {state middle state' : CompilerState}
    {machine : MachineState} {opcode : BinOpcode} {value lhs rhs result : Value}
    {apply : Word → Word} (same : Undisturbed state middle)
    (appends : Appends middle (.binop opcode lhs rhs) lhs.type result state')
    (included : state'.module.code <+: module.code)
    (tracks : Tracks (step module) (fuel + 1) machine ran fun number after =>
      Leaves module state middle machine (.value value) .i64 (.i64 number) after)
    (computes : ∀ frame number, value.type = .i64 → eval frame value = .i64 number →
      lhs.type = .i64 ∧ ∃ left right, eval frame lhs = .i64 left ∧ eval frame rhs = .i64 right ∧
        binopValue opcode (.i64 left) (.i64 right) = some (.i64 (apply number))) :
    Tracks (step module) (fuel + 1) machine (ran >>= fun number => .done (apply number))
      fun number after => Leaves module state state' machine (.value result) .i64 (.i64 number)
        after := by
  refine tracks.bind fun number between leaves => ?_
  obtain ⟨value', isValue, type, evaluated, -⟩ := leaves.operand
  cases isValue
  obtain ⟨leftType, left, right, leftValue, rightValue, computed⟩ :=
    computes between.frame number type evaluated
  obtain ⟨after, reached, left⟩ := leaves_appends appends included leaves.evaluates
    same.code.length_le leaves.stands rfl
    fun code => execute_binop code leftType leftValue rightValue computed
  rw [leftType] at left
  exact .of_reaches reached (.done left)

private theorem computes_unaryOp {operand : Visit PyVal} {ran : Ran Word} (op : UnaryOp)
    (computes : Computes module fuel homes globals visible base env slots operand .i64 .i64 ran) :
    Computes module fuel homes globals visible base env slots (visitUnaryOp op operand) .i64 .i64
      (ran >>= fun value => applyUnary op value) := by
  intro state val state' run
  obtain ⟨inner, middle, innerRun, rest⟩ := bind_ok_iff.mp run
  obtain ⟨same, tracks⟩ := computes _ _ _ innerRun
  cases op with
  | invert =>
      obtain ⟨value, _, isValue, constants⟩ := bind_ok_iff.mp rest
      obtain ⟨rfl, rfl⟩ := asValue_ok isValue
      obtain ⟨ones, _, made, built⟩ := bind_ok_iff.mp constants
      obtain ⟨rfl, rfl⟩ := constant_ok made
      obtain ⟨result, _, emitted, finished⟩ := bind_ok_iff.mp built
      obtain ⟨rfl, rfl⟩ := pure_ok_iff.mp finished
      obtain ⟨lhs, rhs, isLeft, isRight, appends⟩ := binop_ok emitted
      cases isLeft
      cases isRight
      refine ⟨appends.undisturbed same, fun included machine poised => ?_⟩
      have before := (appends.undisturbed (.refl _)).code.trans included
      refine tracks_withConstant same appends included (tracks before machine poised) ?_
      intro frame number type evaluated
      refine ⟨type, number, BitVec.allOnes 64, evaluated, ?_, ?_⟩
      · unfold eval
        rw [type]
        rfl
      · rw [← BitVec.xor_allOnes]
        rfl
  | uSub =>
      obtain ⟨value, _, isValue, constants⟩ := bind_ok_iff.mp rest
      obtain ⟨rfl, rfl⟩ := asValue_ok isValue
      obtain ⟨zero, _, made, built⟩ := bind_ok_iff.mp constants
      obtain ⟨rfl, rfl⟩ := constant_ok made
      obtain ⟨result, _, emitted, finished⟩ := bind_ok_iff.mp built
      obtain ⟨rfl, rfl⟩ := pure_ok_iff.mp finished
      obtain ⟨lhs, rhs, isLeft, isRight, appends⟩ := binop_ok emitted
      cases isLeft
      cases isRight
      refine ⟨appends.undisturbed same, fun included machine poised => ?_⟩
      have before := (appends.undisturbed (.refl _)).code.trans included
      refine tracks_withConstant same appends included (tracks before machine poised) ?_
      intro frame number type evaluated
      refine ⟨type, 0, number, ?_, evaluated, ?_⟩
      · unfold eval
        rw [type]
        rfl
      · rw [← BitVec.zero_sub]
        rfl
  | uAdd =>
      obtain ⟨rfl, rfl⟩ := pure_ok_iff.mp rest
      refine ⟨same, fun included machine poised => ?_⟩
      exact (tracks included machine poised).bind fun value after leaves => .done leaves
  | not => exact (fail_ok_iff.mp rest).elim

private theorem computes_name {id : String} (member : id ∈ visible) :
    Computes module fuel homes globals visible base env slots (visitName id) .i64 .i64
      (readInt env id) := by
  intro state val state' run
  have same := keeps_visitName (quiet_undisturbed state) id state val state' (.refl state) run
  refine ⟨same, fun included machine poised => ?_⟩
  obtain ⟨content, slot, found, isLocal, address, holds⟩ := poised.slot member
  unfold readInt
  rw [found]
  cases content with
  | array cells => trivial
  | int value =>
      cases value with
      | none => trivial
      | some value =>
          obtain ⟨result, rfl, appends⟩ := visitName_int isLocal run
          have first : (Variable.int (some value)).cells[0]? = some (some value) := rfl
          have start : eval machine.frame { type := .ptr .i64, operand := .reg slot } =
              .ptr (.stack (slots id)) ((8 * 0 : Nat) : Int) := address
          obtain ⟨after, reached, leaves⟩ := leaves_appends appends included (.refl _ machine)
            (Nat.le_refl _) poised.stands rfl
            fun code => execute_load code rfl start holds first
          exact .of_reaches reached (.done leaves)

/-- The code of an address, for an index that may be out of bounds. -/
theorem tracks_subscriptPtr {slice : Visit PyVal} {ran : Ran Word} {id : String}
    {cells : List (Option Word)} {address : Value} {state state' : CompilerState}
    {machine : MachineState} (isHomes : Homes module homes)
    (computes : Computes module fuel homes globals visible base env slots slice .i64 .i64 ran)
    (member : id ∈ visible) (found : env id = some (.array cells))
    (run : subscriptPtr (visitName id) slice state = .ok (address, state'))
    (included : state'.module.code <+: module.code)
    (poised : Poised module homes globals visible base env slots state machine) :
    Tracks (step module) (fuel + 1) machine ran fun index after =>
      Leaves module state state' machine (.value address) (.ptr .i64)
        (.ptr (.stack (slots id)) (8 * index.toInt)) after := by
  obtain ⟨content, slot, bound, isLocal, isAddress, holds⟩ := poised.slot member
  cases found.symm.trans bound
  obtain ⟨middle, index, sliced, appends⟩ := subscriptPtr_ok isLocal run
  obtain ⟨same, tracks⟩ := computes _ _ _ sliced
  have before := (appends.undisturbed (.refl middle)).code.trans included
  refine (tracks before machine poised).advance fun number between leaves => ?_
  obtain ⟨value, isValue, type, evaluated, -⟩ := leaves.operand
  cases isValue
  have poised' := poised.evaluates isHomes same leaves.stands leaves.evaluates
  obtain ⟨content, id', bound, isLocal', isAddress, holds⟩ := poised'.slot member
  cases found.symm.trans bound
  rw [same.locals, isLocal] at isLocal'
  cases isLocal'
  exact leaves_appends appends included leaves.evaluates same.code.length_le leaves.stands rfl
    fun code => execute_gep code rfl isAddress evaluated

private theorem computes_subscript {slice : Visit PyVal} {ran : Ran Word} {id : String}
    (isHomes : Homes module homes)
    (computes : Computes module fuel homes globals visible base env slots slice .i64 .i64 ran)
    (quiet : ∀ {holds : CompilerState → Prop}, Quiet holds → Keeps holds slice)
    (member : id ∈ visible) :
    Computes module fuel homes globals visible base env slots
      (visitSubscript (visitName id) slice) .i64 .i64 (ran >>= fun index => readCell env id index) := by
  intro state val state' run
  have same := keeps_visitSubscript (quiet_undisturbed state)
    (keeps_visitName (quiet_undisturbed state) id) (quiet (quiet_undisturbed state))
    state val state' (.refl state) run
  refine ⟨same, fun included machine poised => ?_⟩
  obtain ⟨address, middle, addressed, rest⟩ := bind_ok_iff.mp run
  have ordered : state.module.code.length ≤ middle.module.code.length :=
    (keeps_subscriptPtr (quiet_undisturbed state) (keeps_visitName (quiet_undisturbed state) id)
      (quiet (quiet_undisturbed state)) state address middle (.refl state)
      addressed).code.length_le
  obtain ⟨loaded, _, isLoad, finished⟩ := bind_ok_iff.mp rest
  obtain ⟨rfl, rfl⟩ := pure_ok_iff.mp finished
  obtain ⟨ptr, type, isPtr, ptrType, appends⟩ := load_ok isLoad
  cases isPtr
  obtain ⟨content, slot, found, isLocal, -, -⟩ := poised.slot member
  cases content with
  | int value => exact absurd addressed (not_subscriptPtr_int isLocal)
  | array cells =>
      have before := (appends.undisturbed (.refl middle)).code.trans included
      have tracks := tracks_subscriptPtr isHomes computes member found addressed before poised
      refine tracks.bind fun index between leaves => ?_
      obtain ⟨_, isAddress, isInt, evaluated, -⟩ := leaves.operand
      cases isAddress
      cases isInt.symm.trans ptrType
      have holds := (poised.stored.evaluates isHomes leaves.evaluates).content id _ found
      unfold readCell
      rw [found]
      by_cases inside : 0 ≤ index.toInt
      · simp only [if_pos inside]
        cases cell : cells[index.toInt.toNat]? with
        | none => trivial
        | some value =>
            cases value with
            | none => trivial
            | some value =>
                have place : (8 * index.toInt : Int) = ((8 * index.toInt.toNat : Nat) : Int) := by
                  omega
                rw [place] at evaluated
                obtain ⟨after, reached, leaves⟩ := leaves_appends appends included
                  leaves.evaluates ordered leaves.stands rfl
                  fun code => execute_load code isInt evaluated holds cell
                exact .of_reaches reached (.done leaves)
      · simp only [if_neg inside]
        trivial

def ComputesArgs (module : Module) (fuel : Nat) (homes : Scope Value) (globals : Scope PyVal)
    (visible : List String) (base : Nat) (env : Env) (slots : String → Nat)
    (compile : Visit (List PyVal)) (ran : Ran (List Word)) : Prop :=
  ∀ state vals state', compile state = .ok (vals, state') → Undisturbed state state' ∧
    (state'.module.code <+: module.code → ∀ machine,
      Poised module homes globals visible base env slots state machine →
      Tracks (step module) (fuel + 1) machine ran fun numbers after =>
        Passes module state state' machine vals numbers after)

private theorem computesArgs_nil :
    ComputesArgs module fuel homes globals visible base env slots (visitArgs []) (.done []) := by
  intro state vals state' run
  obtain ⟨rfl, rfl⟩ := pure_ok_iff.mp run
  exact ⟨.refl _, fun included machine poised => .done ⟨poised.stands, .refl _ _, .nil⟩⟩

private theorem computesArgs_cons {arg : Node} {rest : List Node} {ran : Ran Word}
    {ranRest : Ran (List Word)} (isHomes : Homes module homes)
    (computes : Computes module fuel homes globals visible base env slots (visit arg) .i64 .i64 ran)
    (computesRest :
      ComputesArgs module fuel homes globals visible base env slots (visitArgs rest) ranRest) :
    ComputesArgs module fuel homes globals visible base env slots (visitArgs (arg :: rest))
      (ran >>= fun number => ranRest >>= fun numbers => .done (number :: numbers)) := by
  intro state vals state' run
  obtain ⟨val, middle, first, others⟩ := bind_ok_iff.mp run
  obtain ⟨tail, _, second, finished⟩ := bind_ok_iff.mp others
  obtain ⟨rfl, rfl⟩ := pure_ok_iff.mp finished
  obtain ⟨same, tracks⟩ := computes _ _ _ first
  obtain ⟨same', tracks'⟩ := computesRest _ _ _ second
  refine ⟨same.trans same', fun included machine poised => ?_⟩
  refine (tracks (same'.code.trans included) machine poised).bind fun number between leaves => ?_
  have poised' := poised.evaluates isHomes same leaves.stands leaves.evaluates
  refine (tracks' included between poised').bind fun numbers after passes => .done ?_
  refine ⟨passes.stands, leaves.evaluates.trans passes.evaluates same.code.length_le, ?_⟩
  exact .cons (leaves.operand.keep passes.evaluates.frame same'.code.length_le) passes.operands

private theorem leaves_return {state state' : CompilerState} {index : Nat} {args : List PyVal}
    {value : Value} {number : Word} {base : CompilerState} {before machine returning : MachineState}
    (appends : Appends state (.call index args) .i64 value state')
    (included : state'.module.code <+: module.code)
    (evaluates : Evaluates module base.module.code.length before machine)
    (ordered : base.module.code.length ≤ state.module.code.length)
    (stands : At module state machine.frame)
    (returns : Returning state.module.code.length
      ({ machine.frame with
        code := codeFrom module machine.frame.block (state.module.code.length + 1) } ::
          machine.callers)
      machine.memory number returning) :
    ∃ after, Reaches (step module) returning after ∧
      Leaves module base state' before (.value value) .i64 (.i64 number) after := by
  obtain ⟨block, standing, rfl, rfl⟩ := appends
  obtain ⟨pending, next⟩ := stands.next standing included
  obtain ⟨id, val, code, atReturn, isNumber⟩ := returns.returns
  let after : MachineState :=
    { frame := Frame.assign { machine.frame with
        code := codeFrom module machine.frame.block (state.module.code.length + 1) }
        state.module.code.length (.i64 number)
      callers := machine.callers
      memory := releaseSlots returning.memory returning.frame.slots }
  have returned : step module returning = .next after := by
    have evaluated : evalPyVal { returning.frame with code } val = .i64 number := isNumber
    unfold step
    rw [atReturn]
    change returnFrom (returning.fetched code) (evalPyVal { returning.frame with code } val) = _
    have waiting : (returning.fetched code).callers = _ := returns.callers
    have target : (returning.fetched code).frame.dst = _ := returns.dst
    simp only [returnFrom, waiting, target, evaluated]
    rfl
  have called : Evaluates module state.module.code.length machine after := by
    refine ⟨⟨rfl, rfl, rfl, rfl, fun id kept => if_neg ?_⟩, rfl, ?_⟩
    · intro same
      subst same
      rcases kept with below | ⟨entry, found, isSlot⟩
      · exact Nat.lt_irrefl _ below
      · cases (getElem_of_included included).symm.trans found
        cases isSlot
    · exact returns.untouched.trans (untouched_releaseSlots _ returns.slots) (Nat.le_refl _)
  refine ⟨after, .of_step returned, (next _ rfl).change rfl rfl,
    evaluates.trans called ordered, _, rfl, rfl, if_pos rfl, ?_⟩
  intro id isReg
  cases isReg
  simp [CompilerState.append]

private theorem computes_call {args : List Node} {ran : Ran (List Word)} {func : String}
    (isHomes : Homes module homes) (linked : Linked module calls fuel functions globals)
    (computes : ComputesArgs module fuel homes globals visible base env slots (visitArgs args) ran)
    (quiet : ∀ {holds : CompilerState → Prop}, Quiet holds → Keeps holds (visitArgs args))
    (member : func ∈ functions) :
    Computes module fuel homes globals visible base env slots
      (visitCall (visitName func) (visitArgs args)) .i64 .i64
      (ran >>= fun numbers => calls func numbers) := by
  intro state val state' run
  have same := keeps_visitCall (quiet_undisturbed state)
    (keeps_visitName (quiet_undisturbed state) func) (quiet (quiet_undisturbed state))
    state val state' (.refl state) run
  refine ⟨same, fun included machine poised => ?_⟩
  obtain ⟨index, params, varArg, callee, entry, isGlobal, found, defined, runs⟩ := linked func member
  obtain ⟨name, middle, named, rest⟩ := bind_ok_iff.mp run
  cases isLocal : state.localScope func with
  | some alloc =>
      -- a variable of that name would be called, which the builder rejects
      obtain ⟨type, slot, rfl, -⟩ := isHomes.slot func alloc (poised.known.locals _ _ isLocal)
      have isValue : ∃ value, name = .value value := by
        rcases visitName_ok isLocal named with ⟨elem, count, -, same, -⟩ | ⟨value, -, same⟩
        · exact ⟨_, same⟩
        · exact ⟨value, same⟩
      obtain ⟨value, rfl⟩ := isValue
      obtain ⟨vals, last, -, called⟩ := bind_ok_iff.mp rest
      obtain ⟨result, _, built, -⟩ := bind_ok_iff.mp called
      exact absurd built (not_call_local isLocal named last)
  | none =>
      rw [← poised.known.globals] at isGlobal
      rw [visitName_global isLocal isGlobal] at named
      cases named
      obtain ⟨vals, last, passed, called⟩ := bind_ok_iff.mp rest
      obtain ⟨result, _, built, finished⟩ := bind_ok_iff.mp called
      obtain ⟨rfl, rfl⟩ := pure_ok_iff.mp finished
      have appends := call_ok built
      obtain ⟨same, tracks⟩ := computes _ _ _ passed
      have before := (appends.undisturbed (.refl last)).code.trans included
      refine (tracks before machine poised).bind fun numbers between passes => ?_
      obtain ⟨block, standing, -, isLast⟩ := id appends
      rw [isLast] at included
      obtain ⟨pending, -⟩ := passes.stands.next standing included
      have entered : step module between = .next
          { frame := enter module entry (numbers.map .i64) last.module.code.length
            callers := { between.frame with
              code := codeFrom module between.frame.block (last.module.code.length + 1) } ::
                between.callers
            memory := between.memory } := by
        apply step_of_execute pending
        have values : vals.map (evalPyVal (between.fetched (codeFrom module between.frame.block
            (last.module.code.length + 1))).frame) = numbers.map .i64 := passes.evaluated
        simp only [execute, callFunction, values, found, defined]
        rfl
      apply Tracks.of_step entered
      refine (runs numbers _ _ _).advance fun number returning returns => ?_
      rw [← isLast] at included
      exact leaves_return appends included passes.evaluates same.code.length_le passes.stands
        returns

mutual

theorem computes_int (isHomes : Homes module homes)
    (linked : Linked module calls fuel functions globals)
    (node : Node) (int : isInt functions visible node = true) :
    Computes module fuel homes globals visible base env slots (visit node) .i64 .i64
      (evalInt calls env node) := by
  match node, int with
  | .name id, member => exact computes_name (List.contains_iff_mem.mp member)
  | .constant (.int number), _ => exact computes_constant number
  | .binOp left op right, both =>
      exact computes_binOp isHomes op (computes_int isHomes linked left (and_left both))
        (computes_int isHomes linked right (and_right both))
  | .unaryOp op operand, inner =>
      exact computes_unaryOp op (computes_int isHomes linked operand inner)
  | .subscript (.name id) slice, both =>
      exact computes_subscript isHomes (computes_int isHomes linked slice (and_right both))
        (fun quiet => keeps_expression quiet slice (isExpression_of_isInt slice (and_right both)))
        (List.contains_iff_mem.mp (and_left both))
  | .call (.name func) args dropped, both =>
      exact computes_call isHomes linked (computes_ints isHomes linked args (and_right both))
        (fun quiet => keeps_expressionArgs quiet args
          (areExpressions_of_areInts args (and_right both)))
        (List.contains_iff_mem.mp (and_left both))

private theorem computes_ints (isHomes : Homes module homes)
    (linked : Linked module calls fuel functions globals)
    (args : List Node) (ints : areInts functions visible args = true) :
    ComputesArgs module fuel homes globals visible base env slots (visitArgs args)
      (evalArgs calls env args) := by
  match args, ints with
  | [], _ => exact computesArgs_nil
  | arg :: rest, both =>
      exact computesArgs_cons isHomes (computes_int isHomes linked arg (and_left both))
        (computes_ints isHomes linked rest (and_right both))

end

theorem computes_test (isHomes : Homes module homes)
    (linked : Linked module calls fuel functions globals)
    (node : Node) (test : isTest functions visible node = true) :
    Computes module fuel homes globals visible base env slots (visit node) .i1 .i1
      (evalTest calls env node) := by
  match node, test with
  | .compare left [(op, right)], both =>
      exact computes_compare isHomes op
        (computes_int isHomes linked left (and_left both))
        (computes_int isHomes linked right (and_right both))

end

end Lambpie.Integers

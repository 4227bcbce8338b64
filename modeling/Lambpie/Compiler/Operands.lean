/-
What the operands of emitted instructions refer to.

A register is that of an earlier instruction, a global or a function one that
the module has.  Tables only grow, so what a visit returned stays good while
the compilation goes on.
-/
import Mathlib.Order.Basic
import Lambpie.Compiler.Definitions

namespace Lambpie.Compiler

open Foundations
open Foundations.Comp

structure TableSizes where
  code : Nat
  globals : Nat
  functions : Nat

instance : Preorder TableSizes :=
  Preorder.lift fun sizes => (sizes.code, sizes.globals, sizes.functions)

private theorem TableSizes.le_iff {least most : TableSizes} :
    least ≤ most ↔ least.code ≤ most.code ∧ least.globals ≤ most.globals ∧
      least.functions ≤ most.functions := Iff.rfl

def Module.sizes (module : Module) : TableSizes where
  code := module.code.length
  globals := module.globals.length
  functions := module.functions.length

def Operand.Within (sizes : TableSizes) : Operand → Prop
  | .reg id => id < sizes.code
  | .global index => index < sizes.globals
  | .func index => index < sizes.functions
  | _ => True

instance (sizes : TableSizes) : DecidablePred (Operand.Within sizes)
  | .reg id => inferInstanceAs (Decidable (id < sizes.code))
  | .global index => inferInstanceAs (Decidable (index < sizes.globals))
  | .func index => inferInstanceAs (Decidable (index < sizes.functions))
  | .arg _ | .int _ | .bool _ | .null => .isTrue trivial

def PyVal.operands : PyVal → List Operand
  | .value result => [result.operand]
  | .method receiver func => receiver.operand :: func.operands
  | _ => []

def PyVal.Within (sizes : TableSizes) (val : PyVal) : Prop :=
  ∀ operand ∈ val.operands, operand.Within sizes

def Instr.operands : Instr → List Operand
  | .alloca _ => []
  | .load ptr => [ptr.operand]
  | .store value ptr => [value.operand, ptr.operand]
  | .binop _ lhs rhs => [lhs.operand, rhs.operand]
  | .icmp _ lhs rhs => lhs.operand :: rhs.operands
  | .gep ptr indices => ptr.operand :: indices.map (·.operand)
  | .ptrtoint value _ => [value.operand]
  | .bitcast value _ => [value.operand]
  | .call func args => .func func :: args.flatMap PyVal.operands
  | .br _ => []
  | .cbr condition _ _ => condition.operands
  | .ret value => value.operands
  | .retVoid => []
  | .unreachable => []

section

variable {least most : TableSizes}

theorem Operand.Within.mono {operand : Operand} (within : operand.Within least)
    (more : least ≤ most) : operand.Within most := by
  obtain ⟨code, globals, functions⟩ := TableSizes.le_iff.mp more
  cases operand with
  | reg id => exact Nat.lt_of_lt_of_le within code
  | global index => exact Nat.lt_of_lt_of_le within globals
  | func index => exact Nat.lt_of_lt_of_le within functions
  | _ => trivial

theorem PyVal.Within.mono {val : PyVal} (within : val.Within least) (more : least ≤ most) :
    val.Within most :=
  fun operand member => (within operand member).mono more

@[simp] theorem within_value {value : Value} :
    (PyVal.value value).Within least ↔ value.operand.Within least := by
  simp [PyVal.Within, PyVal.operands]

@[simp] theorem within_none : PyVal.none.Within least := by
  simp [PyVal.Within, PyVal.operands]

@[simp] theorem within_type (type : LType) : (PyVal.type type).Within least := by
  simp [PyVal.Within, PyVal.operands]

theorem within_int (type : LType) (number : Int) :
    (PyVal.value { type, operand := .int number }).Within least :=
  within_value.mpr trivial

theorem within_arg (type : LType) (index : Nat) :
    (PyVal.value { type, operand := .arg index }).Within least :=
  within_value.mpr trivial

theorem within_method {receiver : Value} {func : PyVal} :
    (PyVal.method receiver func).Within least ↔
      receiver.operand.Within least ∧ func.Within least := by
  simp [PyVal.Within, PyVal.operands]

end

/-- Everything in the code and in the scopes refers to something that is there;
of each kind there is at least so much. -/
structure Referring (least : TableSizes) (state : CompilerState) : Prop where
  least : least ≤ state.module.sizes
  code : ∀ (id : Nat) (entry : Emitted), state.module.code[id]? = some entry →
    ∀ operand ∈ entry.instr.operands, operand.Within { state.module.sizes with code := id }
  locals : ∀ name value, state.localScope name = some value →
    value.operand.Within state.module.sizes
  globals : ∀ name val, state.globalScope name = some val → val.Within state.module.sizes

section

variable {least most : TableSizes} {state : CompilerState}

theorem Referring.here (referring : Referring least state) :
    Referring state.module.sizes state :=
  ⟨le_refl _, referring.code, referring.locals, referring.globals⟩

theorem Referring.lower (referring : Referring most state) (fewer : least ≤ most) :
    Referring least state :=
  ⟨fewer.trans referring.least, referring.code, referring.locals, referring.globals⟩

theorem Referring.grow (referring : Referring least state) (next : CompilerState)
    (code : next.module.code = state.module.code)
    (more : state.module.sizes ≤ next.module.sizes)
    (locals : ∀ name value, next.localScope name = some value →
      value.operand.Within next.module.sizes)
    (globals : ∀ name val, next.globalScope name = some val → val.Within next.module.sizes) :
    Referring least next where
  least := referring.least.trans more
  code := by
    rw [code]
    intro id entry found operand member
    have within := referring.code id entry found operand member
    exact within.mono ⟨Nat.le_refl _, more.2⟩
  locals := locals
  globals := globals

theorem Referring.update (referring : Referring least state) (next : CompilerState)
    (code : next.module.code = state.module.code)
    (more : state.module.sizes ≤ next.module.sizes)
    (locals : next.localScope = state.localScope)
    (globals : next.globalScope = state.globalScope) : Referring least next := by
  apply referring.grow next code more
  · rw [locals]
    exact fun name value bound => (referring.locals name value bound).mono more
  · rw [globals]
    exact fun name val bound => (referring.globals name val bound).mono more

theorem Referring.append (referring : Referring least state) {block : Label} {instr : Instr}
    (within : ∀ operand ∈ instr.operands, operand.Within state.module.sizes) :
    Referring least (state.append { block, instr }) := by
  have more : state.module.sizes ≤ (state.append { block, instr }).module.sizes := by
    refine TableSizes.le_iff.mpr ⟨?_, Nat.le_refl _, Nat.le_refl _⟩
    simp [Module.sizes, CompilerState.append]
  constructor
  · exact referring.least.trans more
  · intro id entry found operand member
    change (state.module.code ++ [(Emitted.mk block instr)])[id]? = some entry at found
    by_cases inside : id < state.module.code.length
    · rw [List.getElem?_append_left inside] at found
      exact referring.code id entry found operand member
    · have last := (List.getElem?_eq_some_iff.mp found).1
      rw [List.length_append, List.length_singleton] at last
      have here : id = state.module.code.length := by omega
      subst here
      rw [List.getElem?_concat_length] at found
      cases found
      exact within operand member
  · exact fun name value bound => (referring.locals name value bound).mono more
  · exact fun name val bound => (referring.globals name val bound).mono more

theorem Referring.bindLocal (referring : Referring least state) (name : String) {value : Value}
    (within : value.operand.Within state.module.sizes) :
    Referring least { state with localScope := state.localScope.set name value } := by
  refine referring.grow _ rfl (le_refl _) ?_ referring.globals
  intro other found bound
  by_cases same : other = name
  · cases (if_pos same).symm.trans bound
    exact within
  · exact referring.locals other found ((if_neg same).symm.trans bound)

theorem Referring.declare (referring : Referring least state) (func : Function) :
    Referring least (state.addFunction func) := by
  refine referring.update _ rfl (TableSizes.le_iff.mpr ⟨Nat.le_refl _, Nat.le_refl _, ?_⟩) rfl rfl
  simp [Module.sizes, CompilerState.addFunction]

theorem Referring.appendBlock (referring : Referring least state) (func : Nat) :
    Referring least (state.appendBlock func) := by
  refine referring.update _ rfl (TableSizes.le_iff.mpr ⟨Nat.le_refl _, Nat.le_refl _, ?_⟩) rfl rfl
  simp [Module.sizes, CompilerState.appendBlock]

private theorem Referring.bindGlobal (referring : Referring least state) (name : String)
    {val : PyVal}
    (within : val.Within state.module.sizes) :
    Referring least { state with globalScope := state.globalScope.set name val } := by
  refine referring.grow _ rfl (le_refl _) referring.locals ?_
  intro other found bound
  by_cases same : other = name
  · cases (if_pos same).symm.trans bound
    exact within
  · exact referring.globals other found ((if_neg same).symm.trans bound)

theorem Referring.declareNamed (referring : Referring least state) (func : Function)
    (name : String) :
    Referring least { state.addFunction func with
      globalScope := state.globalScope.set name
        (.value (functionValueOf func state.module.functions.length)) } := by
  apply (referring.declare func).bindGlobal name
  rw [within_value]
  change state.module.functions.length < (state.module.functions ++ [func]).length
  simp

theorem Referring.define (referring : Referring least state) (name : String) (ret : LType)
    (params : List LType) : Referring least (state.define name ret params) := by
  let func : Function := { name, ret, params, varArg := false, entry := none }
  have named := (referring.declareNamed func name).appendBlock state.module.functions.length
  exact named.update _ rfl (le_refl _) rfl rfl

theorem Referring.addGlobal (referring : Referring least state) (global : Global) :
    Referring least (state.addGlobal global) := by
  refine referring.update _ rfl (TableSizes.le_iff.mpr ⟨Nat.le_refl _, ?_, Nat.le_refl _⟩) rfl rfl
  simp [Module.sizes, CompilerState.addGlobal]

end

/-- The result is good for the tables as the computation leaves them. -/
def Yields {α : Type} (fact : TableSizes → α → Prop) (least : TableSizes) (visit : Visit α) : Prop :=
  Ensures (Referring least) visit fun result state =>
    fact state.module.sizes result ∧ Referring least state

section

variable {α β : Type} {fact : TableSizes → α → Prop} {later : TableSizes → β → Prop}
  {least : TableSizes} {visit : Visit α}

theorem Yields.bind {next : α → Visit β} (front : Yields fact least visit)
    (back : ∀ result more, least ≤ more → fact more result → Yields later more (next result)) :
    Yields later least (visit >>= next) := by
  intro state value state' before run
  obtain ⟨result, middle, firstRun, nextRun⟩ := bind_ok_iff.mp run
  obtain ⟨known, between⟩ := front _ _ _ before firstRun
  obtain ⟨known', after⟩ :=
    back result middle.module.sizes between.least known _ _ _ between.here nextRun
  exact ⟨known', after.lower between.least⟩

theorem Yields.pure {result : α} (known : fact least result)
    (mono : ∀ more, least ≤ more → fact least result → fact more result) :
    Yields fact least (Pure.pure result) :=
  Ensures.pure fun _ before => ⟨mono _ before.least known, before⟩

theorem Yields.fail (error : PyErr) : Yields fact least (Comp.fail error) := Ensures.fail error

theorem yields_of_ensures {shown : α → Prop}
    (ensured : Ensures (Referring least) visit fun result state =>
      shown result ∧ Referring least state) : Yields (fun _ => shown) least visit := ensured

theorem yields_of_keeps (keeps : Keeps (Referring least) visit) :
    Yields (fun _ _ => True) least visit :=
  keeps.weaken fun _ _ after => ⟨trivial, after⟩

theorem Yields.keeps (yields : Yields fact least visit) : Keeps (Referring least) visit :=
  yields.weaken fun _ _ after => after.2

end

abbrev YieldsVal (least : TableSizes) (visit : Visit PyVal) : Prop :=
  Yields (fun sizes val => val.Within sizes) least visit

abbrev YieldsValue (least : TableSizes) (visit : Visit Value) : Prop :=
  Yields (fun sizes value => value.operand.Within sizes) least visit

abbrev YieldsUnit (least : TableSizes) (visit : Visit Unit) : Prop :=
  Yields (fun _ _ => True) least visit

section

variable {least : TableSizes}

theorem yields_value {value : Value} (within : value.operand.Within least) :
    YieldsVal least (pure (.value value)) :=
  .pure (within_value.mpr within) fun _ more known => known.mono more

theorem yields_val {val : PyVal} (within : val.Within least) : YieldsVal least (pure val) :=
  .pure within fun _ more known => known.mono more

theorem yields_none : YieldsVal least (pure .none) := yields_val within_none

theorem yields_unit : YieldsUnit least (pure ()) := .pure trivial fun _ _ _ => trivial

theorem YieldsValue.toVal {visit : Visit Value} (yields : YieldsValue least visit) :
    YieldsVal least (visit >>= fun value => pure (.value value)) :=
  yields.bind fun _ _ _ within => yields_value within

theorem yields_asValue {val : PyVal} (within : val.Within least) :
    YieldsValue least (asValue val) := by
  refine (keeps_asValue val).weaken fun value state after => ⟨?_, after.2⟩
  rw [after.1, within_value] at within
  exact within.mono after.2.least

private theorem yields_asValues {vals : List PyVal} (within : ∀ val ∈ vals, val.Within least) :
    Yields (fun sizes values => ∀ value ∈ values, value.operand.Within sizes) least
      (asValues vals) := by
  induction vals generalizing least with
  | nil =>
      have none : ∀ value ∈ ([] : List Value), value.operand.Within least :=
        fun _ member => (List.not_mem_nil member).elim
      exact .pure none fun _ _ _ _ member => (List.not_mem_nil member).elim
  | cons val rest ih =>
      refine (yields_asValue (within val List.mem_cons_self)).bind fun value more grown known => ?_
      refine (ih fun other member =>
        (within other (List.mem_cons_of_mem _ member)).mono grown).bind
          fun values most grown' known' => ?_
      have all : ∀ other ∈ value :: values, other.operand.Within most := by
        intro other member
        rcases List.mem_cons.mp member with rfl | later
        · exact known.mono grown'
        · exact known' other later
      exact .pure all fun _ more known other member => (known other member).mono more

theorem yields_lookup_global (name : String) :
    YieldsVal least (lookup (·.globalScope) name) :=
  (keeps_lookup _ _).weaken fun _ _ after => ⟨after.2.globals _ _ after.1, after.2⟩

private theorem yields_emit {instr : Instr} (type : LType)
    (within : ∀ operand ∈ instr.operands, operand.Within least) :
    YieldsValue least (emit instr type) := by
  intro state value state' before run
  obtain ⟨block, -, rfl, rfl⟩ := emit_ok_iff.mp run
  refine ⟨?_, before.append fun operand member => (within operand member).mono before.least⟩
  change state.module.code.length < (state.module.code ++ [_]).length
  simp

theorem yields_alloca (type : LType) : YieldsValue least (alloca type) :=
  (yields_of_keeps ((keeps_asPointer type).weaken fun _ _ after => after.2)).bind
    fun _ _ _ _ => yields_emit _ fun _ member => (List.not_mem_nil member).elim

theorem yields_load {ptr : PyVal} (within : ptr.Within least) : YieldsValue least (load ptr) := by
  refine (yields_asValue within).bind fun ptr more _ known => ?_
  split
  · apply yields_emit
    simpa [Instr.operands] using known
  · exact .fail _

theorem yields_store {val ptr : PyVal} (withinVal : val.Within least)
    (withinPtr : ptr.Within least) : YieldsUnit least (store val ptr) := by
  refine (yields_asValue withinPtr).bind fun ptr more grown known => ?_
  split
  · refine (yields_asValue (withinVal.mono grown)).bind fun value most grown' known' => ?_
    split
    · have both : ∀ operand ∈ (Instr.store value ptr).operands, operand.Within most := by
        simpa [Instr.operands] using ⟨known', known.mono grown'⟩
      exact (yields_emit _ both).bind fun _ _ _ _ => yields_unit
    · exact .fail _
  · exact .fail _

theorem yields_binop {op : BinOpcode} {lhs rhs : PyVal} (left : lhs.Within least)
    (right : rhs.Within least) : YieldsValue least (binop op lhs rhs) := by
  refine (yields_asValue left).bind fun lhs more grown known => ?_
  refine (yields_asValue (right.mono grown)).bind fun rhs most grown' known' => ?_
  split
  · apply yields_emit
    simpa [Instr.operands] using ⟨known.mono grown', known'⟩
  · exact .fail _

theorem yields_icmpSigned {predicate : Predicate} {lhs rhs : PyVal} (left : lhs.Within least)
    (right : rhs.Within least) : YieldsValue least (icmpSigned predicate lhs rhs) := by
  refine (yields_asValue left).bind fun lhs more grown known => ?_
  apply yields_emit
  intro operand member
  rcases List.mem_cons.mp member with rfl | inRight
  · exact known
  · exact (right.mono grown) operand inRight

theorem yields_gep {ptr : PyVal} {indices : List PyVal} (withinPtr : ptr.Within least)
    (withinIndices : ∀ index ∈ indices, index.Within least) :
    YieldsValue least (gep ptr indices) := by
  refine (yields_asValue withinPtr).bind fun ptr more grown known => ?_
  refine (yields_asValues fun index member => (withinIndices index member).mono grown).bind
    fun indices most grown' known' => ?_
  split
  · refine (yields_of_keeps (keeps_gepType _ _)).bind fun inner last grown'' _ => ?_
    have pointed {holds : CompilerState → Prop} : Keeps holds (asPointer inner) :=
      (keeps_asPointer inner).weaken fun _ _ after => after.2
    refine (yields_of_keeps pointed).bind fun _ final grown''' _ => ?_
    apply yields_emit
    intro operand member
    rcases List.mem_cons.mp member with rfl | inIndices
    · exact known.mono (grown'.trans (grown''.trans grown'''))
    · obtain ⟨index, isIndex, rfl⟩ := List.mem_map.mp inIndices
      exact (known' index isIndex).mono (grown''.trans grown''')
  · exact .fail _

theorem yields_fieldPtr {ptr : PyVal} (within : ptr.Within least) (index : Nat) :
    YieldsValue least (fieldPtr ptr index) := by
  apply yields_gep within
  intro other member
  have constants : other = .value (i32Const 0) ∨ other = .value (i32Const index) := by
    simpa using member
  rcases constants with rfl | rfl
  · exact within_value.mpr trivial
  · exact within_value.mpr trivial

theorem yields_storeField {ptr : Value} {val : PyVal} (withinPtr : ptr.operand.Within least)
    (withinVal : val.Within least) (index : Nat) : YieldsUnit least (storeField ptr index val) :=
  (yields_fieldPtr (within_value.mpr withinPtr) index).bind fun _ _ grown known =>
    yields_store (withinVal.mono grown) (within_value.mpr known)

theorem yields_ptrtoint {value : Value} (within : value.operand.Within least) (type : LType) :
    YieldsValue least (ptrtoint value type) := by
  unfold ptrtoint
  split
  · exact .pure within fun _ more known => known.mono more
  · apply yields_emit
    simpa [Instr.operands] using within

theorem yields_bitcast {value : Value} (within : value.operand.Within least) (type : LType) :
    YieldsValue least (bitcast value type) := by
  unfold bitcast
  split
  · exact .pure within fun _ more known => known.mono more
  · apply yields_emit
    simpa [Instr.operands] using within

theorem yields_call {callee : PyVal} {args : List PyVal} (withinCallee : callee.Within least)
    (withinArgs : ∀ arg ∈ args, arg.Within least) : YieldsValue least (call callee args) := by
  unfold call
  split
  · refine (yields_of_keeps (keeps_checkArgs _ _)).bind fun _ more grown _ => ?_
    apply yields_emit
    intro operand member
    rcases List.mem_cons.mp member with rfl | inArgs
    · exact (within_value.mp withinCallee).mono grown
    · obtain ⟨arg, isArg, inArg⟩ := List.mem_flatMap.mp inArgs
      exact (withinArgs arg isArg operand inArg).mono grown
  · exact .fail _

theorem yields_terminate {instr : Instr}
    (within : ∀ operand ∈ instr.operands, operand.Within least) :
    YieldsUnit least (terminate instr) := by
  refine (yields_of_keeps keeps_isTerminated).bind fun terminated more grown _ => ?_
  cases terminated with
  | true => exact .fail _
  | false =>
      exact (yields_emit _ fun operand member => (within operand member).mono grown).bind
        fun _ _ _ _ => yields_unit

theorem yields_branch (target : Label) : YieldsUnit least (branch target) :=
  yields_terminate fun _ member => (List.not_mem_nil member).elim

theorem yields_cbranch {condition : PyVal} (within : condition.Within least)
    (thenTarget elseTarget : Label) : YieldsUnit least (cbranch condition thenTarget elseTarget) :=
  yields_terminate within

theorem yields_ret {val : PyVal} (within : val.Within least) : YieldsUnit least (ret val) :=
  yields_terminate within

theorem yields_addGlobal (name : String) (length : Nat) (bytes : List UInt8)
    (isConstant : Bool) : YieldsValue least (addGlobal name length bytes isConstant) := by
  refine (yields_of_keeps (keeps_reads _)).bind fun used more _ _ => ?_
  cases used with
  | true => exact .fail _
  | false =>
      rw [if_neg Bool.false_ne_true]
      intro state value state' before run
      simp only [bind_ok_iff, reads_ok_iff, modify_ok_iff, pure_ok_iff] at run
      obtain ⟨_, _, ⟨rfl, rfl⟩, _, _, rfl, rfl, rfl⟩ := run
      refine ⟨?_, before.addGlobal _⟩
      change state.module.globals.length < (state.module.globals ++ [_]).length
      simp

theorem yields_nextName : Yields (fun _ _ => True) least nextName :=
  yields_of_keeps (keeps_nextName fun _ before => before.update _ rfl (le_refl _) rfl rfl)

end

end Lambpie.Compiler

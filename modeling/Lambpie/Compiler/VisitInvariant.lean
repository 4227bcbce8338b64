/-
Invariants of the compiler's state over a whole visit.

An invariant that the builder calls keep is kept by every visitor whose
children keep it.  Along with the invariant goes a property of the values that
visits return, and for each child a fact that its success shows.
-/
import Lambpie.Compiler.Emits

namespace Lambpie.Compiler

open Foundations
open Foundations.Comp

/-! ### Invariants of a visit -/

/-- `value` is a property of the values visited, `func` of the functions that
the builder may stand in, and `ready` says that every class whose name gives a
type has its `__init__` in the global scope. -/
structure VisitInvariant (holds : CompilerState → Prop) (value : PyVal → Prop)
    (func : Nat → Prop) (ready : Prop) : Prop where
  ofNone : value .none
  ofType : ∀ type, value (.type type)
  ofReg : ∀ type id, value (.value { type, operand := .reg id })
  ofGlobal : ∀ index, value (.value { type := .ptr .i8, operand := .global index })
  ofMethod : ∀ object method, value (.method object method) ↔ value (.value object)
  ofLiteral : ∀ state type, holds state → state.types "int" = some type →
    (∀ number, value (.value { type, operand := .int number })) ∧
      ∀ bit, value (.value { type, operand := .bool bit })
  ofLocal : ∀ state name alloc, holds state →
    state.localScope name = some alloc → value (.value alloc)
  ofScope : ∀ state name val, holds state →
    state.globalScope name = some val → value val ∧ ∃ val', val = .value val'
  callable : ∀ state name className, holds state → ready →
    state.types name = some (.ptr (.struct className)) →
      (state.globalScope s!"{className}___init__").isSome
  keepsInstr : ∀ state block instr, holds state → state.builder = some block →
    instr.isCall = false → holds (state.append { block, instr })
  keepsCall : ∀ state block index args, (∀ arg ∈ args, value arg) →
    holds state → state.builder = some block →
      holds (state.append { block, instr := .call index args })
  keepsAlloc : ∀ ptrType sizeType tag,
    Ensures (fun state => state.currentArena = tag ∧ holds state)
      (allocStruct ptrType sizeType tag) (fun _ => holds)
  keepsGlobal : ∀ state global, holds state → holds (state.addGlobal global)
  keepsCounter : ∀ state, holds state →
    holds { state with nameCounter := state.nameCounter + 1 }
  keepsBlock : ∀ state index, func index → holds state →
    holds (state.appendBlock index)
  keepsPosition : ∀ state label, func label.func → holds state →
    holds { state with builder := some label }
  keepsLocal : ∀ state name alloc, value (.value alloc) → holds state →
    holds { state with localScope := state.localScope.set name alloc }
  keepsType : ∀ node, Keeps holds (getType node)

namespace VisitInvariant

variable {holds : CompilerState → Prop} {value : PyVal → Prop}
  {func : Nat → Prop} {ready : Prop} (inv : VisitInvariant holds value func ready)

include inv in
private theorem keeps_appendBlock {index : Nat} (inside : func index) :
    Ensures holds (appendBlock index) fun label state =>
      func label.func ∧ holds state := by
  have label : Ensures holds (Comp.reads (·.nextLabel index) : Visit _) fun label state =>
      label.func = index ∧ holds state :=
    .reads fun _ kept => ⟨rfl, kept⟩
  refine label.bind fun label => .assume fun sameFunc => ?_
  have appended : Ensures holds (Comp.modify (·.appendBlock index) : Visit _) (fun _ => holds) :=
    .modify fun state kept => inv.keepsBlock state index inside kept
  exact appended.bind fun _ => .pure fun _ kept => ⟨sameFunc ▸ inside, kept⟩

include inv in
private theorem keeps_positionAtEnd {label : Label} (inside : func label.func) :
    Ensures holds (positionAtEnd label) (fun _ => holds) :=
  .modify fun state kept => inv.keepsPosition state label inside kept

include inv in
theorem emits : Emits holds :=
  fun state block instr plain before standing =>
    inv.keepsInstr state block instr before standing plain

include inv in
private theorem ofIsReg {val : Value} (isReg : val.IsReg) : value (.value val) := by
  obtain ⟨type, operand⟩ := val
  obtain ⟨id, rfl⟩ := isReg
  exact inv.ofReg type id

include inv in
private theorem keeps_setLocal (name : String) {alloc : Value}
    (visited : value (.value alloc)) : Keeps holds (setLocal name alloc) :=
  .modify fun state kept => inv.keepsLocal state name alloc visited kept

include inv in
private theorem keeps_callTo (callee : PyVal) {args : List PyVal}
    (visited : ∀ arg ∈ args, value arg) :
    Ensures holds (call callee args) fun result state =>
      result.IsReg ∧ holds state :=
  keeps_call callee fun state block index before standing =>
    inv.keepsCall state block index args visited before standing

include inv in
private theorem keeps_allocObject (kept : CompilerState → Prop)
    (stable : ∀ state entry, kept state → kept (state.append entry))
    (ptrType sizeType : LType) (tag : ArenaTag) :
    Ensures (fun state => state.currentArena = tag ∧ kept state ∧ holds state)
      (allocStruct ptrType sizeType tag)
      fun result state => result.IsReg ∧ kept state ∧ holds state := by
  have isReg := keeps_allocStruct (fun state block instr _ _ _ before _ =>
    stable state { block, instr } before) ptrType sizeType tag
    fun state block _ _ _ _ before _ => stable state _ before
  exact ((isReg.and (inv.keepsAlloc ptrType sizeType tag)).strengthen
    fun _ before => ⟨⟨before.1, before.2.1⟩, before.1, before.2.2⟩).weaken
      fun _ _ after => ⟨after.1.1, after.1.2, after.2⟩

include inv in
private theorem gives_addGlobal (name : String) (length : Nat)
    (bytes : List UInt8) (isConstant : Bool) :
    Ensures holds (addGlobal name length bytes isConstant) fun result state =>
      value (.value result) ∧ holds state := by
  refine (keeps_addGlobal inv.keepsGlobal name length bytes isConstant).weaken
    fun result state after => ?_
  obtain ⟨⟨index, rfl⟩, kept⟩ := after
  exact ⟨inv.ofGlobal index, kept⟩

/-- A type that a visit returned may be called: its class is initialised. -/
def Callable (ready : Prop) (state : CompilerState) (val : PyVal) : Prop :=
  ready → ∀ className, val = .type (.ptr (.struct className)) →
    (state.globalScope s!"{className}___init__").isSome

private theorem callable_of_ne_type {state : CompilerState} {val : PyVal}
    (noType : ∀ type, val ≠ .type type) : Callable ready state val :=
  fun _ _ same => (noType _ same).elim

/-- The visit of a child keeps the invariant and shows the fact. -/
def Gives (holds : CompilerState → Prop) (value : PyVal → Prop) (ready fact : Prop)
    (visit : Visit PyVal) : Prop :=
  Ensures holds visit fun val state =>
    (fact ∧ value val) ∧ Callable ready state val ∧ holds state

def GivesAll (holds : CompilerState → Prop) (value : PyVal → Prop) (fact : Prop)
    (visit : Visit (List PyVal)) : Prop :=
  Ensures holds visit fun vals state =>
    (fact ∧ ∀ val ∈ vals, value val) ∧ holds state

def Does (holds : CompilerState → Prop) (fact : Prop) (visit : Visit Unit) : Prop :=
  Ensures holds visit fun _ state => fact ∧ holds state

theorem Gives.imp {holds : CompilerState → Prop} {value : PyVal → Prop}
    {ready fact shown : Prop} {visited : Visit PyVal}
    (gives : Gives holds value ready fact visited) (implies : fact → shown) :
    Gives holds value ready shown visited :=
  gives.weaken fun _ _ after => ⟨⟨implies after.1.1, after.1.2⟩, after.2⟩

section Visitors

variable {fact leftFact rightFact : Prop}

omit inv in
theorem Gives.plain {visit : Visit PyVal} (gives : Gives holds value ready fact visit) :
    Ensures holds visit fun val state => (fact ∧ value val) ∧ holds state :=
  gives.weaken fun _ _ after => ⟨after.1, after.2.2⟩

include inv

theorem gives_none (shown : fact) : Gives holds value ready fact (pure .none) :=
  .pure fun _ kept =>
    ⟨⟨shown, inv.ofNone⟩, callable_of_ne_type fun _ => PyVal.noConfusion, kept⟩

theorem gives_of_none {visited : Visit PyVal}
    (kept : Ensures holds visited fun val state =>
      (fact ∧ val = .none) ∧ holds state) :
    Gives holds value ready fact visited := by
  refine kept.weaken fun val state after => ?_
  obtain ⟨⟨shown, rfl⟩, before⟩ := after
  exact ⟨⟨shown, inv.ofNone⟩, callable_of_ne_type fun _ => PyVal.noConfusion, before⟩

omit inv in
private theorem gives_value {val : Value} (shown : fact) (visited : value (.value val)) :
    Gives holds value ready fact (pure (.value val)) :=
  .pure fun _ kept =>
    ⟨⟨shown, visited⟩, callable_of_ne_type fun _ => PyVal.noConfusion, kept⟩

private theorem gives_reg {computation : Visit Value} (shown : fact)
    (kept : Ensures holds computation fun result state =>
      result.IsReg ∧ holds state) :
    Gives holds value ready fact (do
      let result ← computation
      pure (.value result)) :=
  kept.bind fun _ => .assume fun isReg =>
    gives_value shown (inv.ofIsReg isReg)

theorem gives_constant (literal : Literal) :
    Gives holds value ready True (visitConstant literal) := by
  cases literal with
  | int number =>
      refine (keeps_lookup _ _).bind fun type => ?_
      refine .showing (fun state both => inv.ofLiteral state type both.2 both.1)
        fun visited => ?_
      refine ((keeps_constant _ _).strengthen fun _ both => both.2).bind
        fun const => .assume fun same => ?_
      subst same
      exact gives_value trivial (visited.1 number)
  | bool bit =>
      refine (keeps_lookup _ _).bind fun type => ?_
      refine .showing (fun state both => inv.ofLiteral state type both.2 both.1)
        fun visited => ?_
      refine ((keeps_constant _ _).strengthen fun _ both => both.2).bind
        fun const => .assume fun same => ?_
      subst same
      exact gives_value trivial (visited.2 bit)
  | str text =>
      exact (keeps_nextName inv.keepsCounter).bind fun _ =>
        (inv.gives_addGlobal _ _ _ _).bind fun _ => .assume fun visited =>
          gives_value trivial visited
  | bytes data =>
      exact (keeps_nextName inv.keepsCounter).bind fun _ =>
        (inv.gives_addGlobal _ _ _ _).bind fun _ => .assume fun visited =>
          gives_value trivial visited
  | none => exact inv.gives_none trivial
  | float => exact inv.gives_none trivial
  | complex => exact inv.gives_none trivial
  | ellipsis => exact inv.gives_none trivial

theorem gives_name (id : String) :
    Gives holds value ready True (visitName id) := by
  have readLocal : Ensures holds
      (Comp.reads fun state => state.localScope id : Visit _)
      fun alloc state => state.localScope id = alloc ∧ holds state :=
    .reads fun _ kept => ⟨rfl, kept⟩
  refine readLocal.bind fun found => ?_
  cases found with
  | some alloc =>
      refine .showing (fun state both => inv.ofLocal state id alloc both.2 both.1)
        fun visited => ?_
      refine Ensures.strengthen ?_ fun _ both => both.2
      dsimp only
      split
      · exact gives_value trivial visited
      · exact inv.gives_reg trivial (keeps_load inv.emits.operand _)
  | none =>
      have readGlobal : Ensures
          (fun state => state.localScope id = none ∧ holds state)
          (Comp.reads fun state => state.globalScope id : Visit _)
          fun val state => state.globalScope id = val ∧ holds state :=
        .reads fun _ both => ⟨rfl, both.2⟩
      refine readGlobal.bind fun found => ?_
      cases found with
      | some val =>
          refine .showing (fun state both => inv.ofScope state id val both.2 both.1)
            fun visited => ?_
          obtain ⟨visited, val, rfl⟩ := visited
          exact (gives_value trivial visited).strengthen fun _ both => both.2
      | none =>
          have readType : Ensures
              (fun state => state.globalScope id = none ∧ holds state)
              (Comp.reads fun state => state.types id : Visit _)
              fun type state => state.types id = type ∧ holds state :=
            .reads fun _ both => ⟨rfl, both.2⟩
          refine readType.bind fun found => ?_
          cases found with
          | some type =>
              refine .pure fun state both => ⟨⟨trivial, inv.ofType type⟩, ?_, both.2⟩
              intro isReady className same
              cases same
              exact inv.callable state id className both.2 isReady both.1
          | none => exact .fail _

theorem gives_binOp {left right : Visit PyVal} (op : BinaryOp)
    (givesLeft : Gives holds value ready leftFact left)
    (givesRight : Gives holds value ready rightFact right) :
    Gives holds value ready (leftFact ∧ rightFact ∧ (binOpcode op).isSome)
      (visitBinOp left op right) := by
  refine givesLeft.plain.bind fun lhs => .assume fun shownLeft => ?_
  refine givesRight.plain.bind fun rhs => .assume fun shownRight => ?_
  cases binOpcode op with
  | some opcode =>
      exact inv.gives_reg ⟨shownLeft.1, shownRight.1, rfl⟩
        (keeps_binop inv.emits.operand opcode lhs rhs)
  | none => exact .fail _

theorem gives_unaryOp {operand : Visit PyVal} (op : UnaryOp)
    (gives : Gives holds value ready fact operand) :
    Gives holds value ready (fact ∧ op ≠ .not) (visitUnaryOp op operand) := by
  cases op with
  | invert =>
      refine gives.plain.bind fun operand => .assume fun shown => ?_
      refine (keeps_asValue operand).bind fun val => .assume fun _ => ?_
      refine (keeps_constant _ _).bind fun allOnes => .assume fun _ => ?_
      exact inv.gives_reg ⟨shown.1, UnaryOp.noConfusion⟩
        (keeps_binop inv.emits.operand .xor operand _)
  | uSub =>
      refine gives.plain.bind fun operand => .assume fun shown => ?_
      refine (keeps_asValue operand).bind fun val => .assume fun _ => ?_
      refine (keeps_constant _ _).bind fun zero => .assume fun _ => ?_
      exact inv.gives_reg ⟨shown.1, UnaryOp.noConfusion⟩
        (keeps_binop inv.emits.operand .sub _ operand)
  | uAdd =>
      -- the operand itself, which may be a class
      refine gives.bind fun operand => .pure fun state after => ?_
      exact ⟨⟨⟨after.1.1, UnaryOp.noConfusion⟩, after.1.2⟩, after.2⟩
  | not => exact gives.bind fun _ => .fail _

theorem gives_compare {left right : Visit PyVal} (op : CompareOp)
    (givesLeft : Gives holds value ready leftFact left)
    (givesRight : Gives holds value ready rightFact right) :
    Gives holds value ready
      (leftFact ∧ rightFact ∧ (comparePredicate op).isSome)
      (visitCompare left (some (op, right))) := by
  refine givesLeft.plain.bind fun lhs => .assume fun shownLeft => ?_
  refine givesRight.plain.bind fun rhs => .assume fun shownRight => ?_
  cases comparePredicate op with
  | some predicate =>
      exact inv.gives_reg ⟨shownLeft.1, shownRight.1, rfl⟩
        (keeps_icmpSigned inv.emits.operand predicate lhs rhs)
  | none => exact .fail _

omit inv in
theorem gives_chain {left : Visit PyVal}
    (givesLeft : Gives holds value ready leftFact left) :
    Gives holds value ready False (visitCompare left none) :=
  givesLeft.bind fun _ => .fail _

theorem gives_attribute {object : Visit PyVal} (attr : String)
    (gives : Gives holds value ready fact object) :
    Gives holds value ready fact (visitAttribute object attr) := by
  refine gives.plain.bind fun object => .assume fun shown => ?_
  refine (keeps_asValue object).bind fun objPtr => .assume fun same => ?_
  subst same
  refine (keeps_structName objPtr).bind fun typeName => ?_
  refine (keeps_reads _).bind fun method => ?_
  cases method with
  | some method =>
      refine .pure fun state kept =>
        ⟨⟨shown.1, (inv.ofMethod objPtr method).mpr shown.2⟩, ?_, kept⟩
      exact callable_of_ne_type fun _ => PyVal.noConfusion
  | none =>
      refine (keeps_reads _).bind fun layout => ?_
      cases layout.bind fun layout => layout.lookup attr with
      | some field =>
          refine (keeps_fieldPtr inv.emits.operand _ _).bind fun ptr => .assume fun _ => ?_
          exact inv.gives_reg shown.1 (keeps_load inv.emits.operand _)
      | none => exact .fail _

private theorem gives_subscriptPtr {object slice : Visit PyVal}
    (givesObject : Gives holds value ready leftFact object)
    (givesSlice : Gives holds value ready rightFact slice) :
    Ensures holds (subscriptPtr object slice) fun result state =>
      (leftFact ∧ rightFact ∧ result.IsReg) ∧ holds state := by
  refine givesObject.plain.bind fun ptr => .assume fun shownObject => ?_
  refine givesSlice.plain.bind fun idx => .assume fun shownSlice => ?_
  refine (keeps_asValue ptr).bind fun ptrValue => .assume fun _ => ?_
  have gep (indices : List PyVal) : Ensures holds (gep ptr indices)
      fun result state => (leftFact ∧ rightFact ∧ result.IsReg) ∧ holds state :=
    (keeps_gep inv.emits.operand ptr indices).weaken fun _ _ both =>
      ⟨⟨shownObject.1, shownSlice.1, both.1⟩, both.2⟩
  split
  · exact gep _
  · exact gep _

theorem gives_subscript {object slice : Visit PyVal}
    (givesObject : Gives holds value ready leftFact object)
    (givesSlice : Gives holds value ready rightFact slice) :
    Gives holds value ready (leftFact ∧ rightFact) (visitSubscript object slice) :=
  (inv.gives_subscriptPtr givesObject givesSlice).bind fun _ => .assume fun shown =>
    inv.gives_reg ⟨shown.1, shown.2.1⟩ (keeps_load inv.emits.operand _)

private theorem keeps_wrapCstrToStr {i8Ptr : Value} (visited : value (.value i8Ptr)) :
    Ensures holds (wrapCstrToStr i8Ptr) fun result state =>
      value (.value result) ∧ holds state := by
  refine (keeps_lookup_only _ _).bind fun strPtrType => ?_
  refine (keeps_lookup_only _ _).bind fun sizeType => ?_
  refine keeps_currentArena.bind fun tag => ?_
  refine ((inv.keeps_allocObject (fun _ => True) (fun _ _ kept => kept)
    strPtrType sizeType tag).strengthen fun _ before =>
      ⟨before.1, trivial, before.2⟩).bind fun strPtr => .assume fun isReg =>
        .assume fun _ => ?_
  refine (keeps_lookup_only _ _).bind fun layout => ?_
  refine (keeps_layoutIndex _ _).bind fun refIdx => ?_
  refine (keeps_storeField inv.emits.operand _ _ _).bind fun _ => ?_
  refine (keeps_lookup_only _ _).bind fun strlenFn => ?_
  refine (inv.keeps_callTo strlenFn fun arg member => ?_).bind fun length =>
    .assume fun _ => ?_
  · rw [List.mem_singleton.mp member]
    exact visited
  refine (keeps_layoutIndex _ _).bind fun lenIdx => ?_
  refine (keeps_storeField inv.emits.operand _ _ _).bind fun _ => ?_
  refine (keeps_layoutIndex _ _).bind fun bufIdx => ?_
  refine (keeps_storeField inv.emits.operand _ _ _).bind fun _ => ?_
  exact .pure fun _ kept => ⟨inv.ofIsReg isReg, kept⟩

private theorem keeps_coerceArg {arg : PyVal} (expected : LType) (visited : value arg) :
    Ensures holds (coerceArg arg expected) fun result state =>
      value result ∧ holds state := by
  have same : Ensures holds (pure arg : Visit PyVal) fun result state =>
      value result ∧ holds state :=
    .pure fun _ kept => ⟨visited, kept⟩
  unfold coerceArg
  split
  · refine (keeps_asValue arg).bind fun val => .assume fun isValue => ?_
    split
    · subst isValue
      exact (inv.keeps_wrapCstrToStr visited).bind fun _ => .pure fun _ both => both
    · exact same
  · exact same

private theorem keeps_coerceArgs {args : List PyVal} (types : List LType)
    (visited : ∀ arg ∈ args, value arg) :
    Ensures holds (coerceArgs args types) fun results state =>
      (∀ result ∈ results, value result) ∧ holds state := by
  induction args generalizing types with
  | nil =>
      exact .pure fun _ kept => ⟨fun _ member => (List.not_mem_nil member).elim, kept⟩
  | cons arg args ih =>
      cases types with
      | nil => exact .fail _
      | cons expected types =>
          have argVisited := visited arg List.mem_cons_self
          have restVisited : ∀ other ∈ args, value other :=
            fun other member => visited other (List.mem_cons_of_mem _ member)
          refine (inv.keeps_coerceArg expected argVisited).bind fun coerced =>
            .assume fun coercedVisited => ?_
          refine (ih types restVisited).bind fun others =>
            .assume fun othersVisited => ?_
          exact .pure fun _ kept =>
            ⟨List.forall_mem_cons.mpr ⟨coercedVisited, othersVisited⟩, kept⟩

/-- The arguments are visited if the class has an `__init__`. -/
theorem gives_construct {args : Visit (List PyVal)} (className : String)
    (gives : GivesAll holds value fact args) :
    Ensures
      (fun state =>
        (ready → (state.globalScope s!"{className}___init__").isSome) ∧ holds state)
      (construct className args)
      fun val state =>
        ((ready → fact) ∧ value val) ∧ Callable ready state val ∧ holds state := by
  refine (keeps_lookup_only _ _).bind fun sizeType => ?_
  refine keeps_currentArena.bind fun tag => ?_
  refine (inv.keeps_allocObject _ (fun _ _ kept => kept) _ sizeType tag).bind
    fun objPtr => .assume fun isReg => ?_
  have visitedPtr := inv.ofIsReg isReg
  have readInit : Ensures
      (fun state =>
        (ready → (state.globalScope s!"{className}___init__").isSome) ∧ holds state)
      (Comp.reads fun state => state.globalScope s!"{className}___init__" : Visit _)
      fun init state => (ready → init.isSome) ∧ holds state :=
    .reads fun _ before => before
  refine readInit.bind fun init => .assume fun found => ?_
  cases init with
  | none =>
      exact gives_value (fun isReady => nomatch found isReady) visitedPtr
  | some initFunc =>
      refine gives.bind fun rawArgs => .assume fun shown => ?_
      refine (keeps_functionParams _).bind fun params => ?_
      refine (inv.keeps_coerceArgs _ shown.2).bind fun coerced =>
        .assume fun coercedVisited => ?_
      have argsVisited : ∀ arg ∈ .value objPtr :: coerced, value arg :=
        List.forall_mem_cons.mpr ⟨visitedPtr, coercedVisited⟩
      refine (inv.keeps_callTo initFunc argsVisited).bind fun _ =>
        .assume fun _ => ?_
      exact gives_value (fun _ => shown.1) visitedPtr

theorem gives_call {callee : Visit PyVal} {args : Visit (List PyVal)}
    (givesCallee : Gives holds value ready leftFact callee)
    (givesArgs : GivesAll holds value rightFact args) :
    Gives holds value ready (leftFact ∧ (ready → rightFact))
      (visitCall callee args) := by
  -- a call of the value with the arguments
  have plain (val : PyVal) (shown : leftFact) (front : List PyVal)
      (visited : ∀ arg ∈ front, value arg) :
      Gives holds value ready (leftFact ∧ (ready → rightFact)) (do
        let args ← args
        let result ← call val (front ++ args)
        pure (.value result)) := by
    refine givesArgs.bind fun args => .assume fun shownArgs => ?_
    refine inv.gives_reg ⟨shown, fun _ => shownArgs.1⟩ ?_
    refine inv.keeps_callTo val fun arg member => ?_
    obtain inFront | inArgs := List.mem_append.mp member
    · exact visited arg inFront
    · exact shownArgs.2 arg inArgs
  refine givesCallee.bind fun callee => .assume fun shown => ?_
  have noArgs : ∀ arg ∈ ([] : List PyVal), value arg := fun _ member => nomatch member
  have forget (state : CompilerState)
      (before : Callable ready state callee ∧ holds state) : holds state := before.2
  cases callee with
  | method receiver method =>
      have visited := (inv.ofMethod receiver method).mp shown.2
      exact (plain method shown.1 [.value receiver]
        fun arg member => List.mem_singleton.mp member ▸ visited).strengthen forget
  | none => exact (plain _ shown.1 [] noArgs).strengthen forget
  | value val => exact (plain _ shown.1 [] noArgs).strengthen forget
  | type type =>
      have other := (plain (.type type) shown.1 [] noArgs).strengthen forget
      cases type with
      | ptr pointee =>
          cases pointee with
          | struct className =>
              exact ((inv.gives_construct className givesArgs).strengthen
                fun _ before => ⟨fun isReady => before.1 isReady className rfl,
                  before.2⟩).weaken fun _ _ after =>
                    ⟨⟨⟨shown.1, after.1.1⟩, after.1.2⟩, after.2⟩
          | _ => exact other
      | _ => exact other

private theorem does_branchUnlessTerminated (target : Label) :
    Keeps holds (branchUnlessTerminated target) := by
  refine keeps_isTerminated.bind fun terminated => ?_
  cases terminated with
  | true => exact keeps_pure _
  | false => exact keeps_terminate inv.emits rfl

theorem gives_return {result : Visit PyVal}
    (gives : Gives holds value ready fact result) :
    Gives holds value ready fact (visitReturn (some result)) :=
  gives.plain.bind fun _ => .assume fun shown =>
    Ensures.bind (keeps_terminate inv.emits rfl) fun _ => inv.gives_none shown.1

theorem gives_returnNone : Gives holds value ready True (visitReturn none) :=
  Ensures.bind (keeps_terminate inv.emits rfl) fun _ => inv.gives_none trivial

theorem gives_declaration (target annotation : Node) :
    Gives holds value ready (∃ id, target = .name id)
      (visitAnnAssign target annotation none) := by
  refine (keeps_targetName target).bind fun varName => .assume fun isName => ?_
  refine (inv.keepsType annotation).bind fun varType => ?_
  refine (keeps_alloca inv.emits.plain varType).bind fun varAlloc => .assume fun isReg => ?_
  refine (inv.keeps_setLocal varName (inv.ofIsReg isReg)).bind fun _ => ?_
  exact inv.gives_none ⟨varName, isName⟩

theorem gives_annAssign {initial : Visit PyVal} (target annotation : Node)
    (gives : Gives holds value ready fact initial) :
    Gives holds value ready (fact ∧ ∃ id, target = .name id)
      (visitAnnAssign target annotation (some initial)) := by
  refine (keeps_targetName target).bind fun varName => .assume fun isName => ?_
  refine (inv.keepsType annotation).bind fun varType => ?_
  refine (keeps_alloca inv.emits.plain varType).bind fun varAlloc => .assume fun isReg => ?_
  refine (inv.keeps_setLocal varName (inv.ofIsReg isReg)).bind fun _ => ?_
  dsimp only
  by_cases isArray : isArrayType varType
  · rw [if_pos isArray]
    exact .fail _
  · rw [if_neg isArray]
    refine gives.plain.bind fun val => .assume fun shown => ?_
    exact (keeps_store inv.emits.operand _ _).bind fun _ =>
      inv.gives_none ⟨shown.1, varName, isName⟩

theorem gives_assignSubscript {target slice assigned : Visit PyVal}
    {targetFact sliceFact : Prop}
    (givesTarget : Gives holds value ready targetFact target)
    (givesSlice : Gives holds value ready sliceFact slice)
    (gives : Gives holds value ready fact assigned) :
    Gives holds value ready ((targetFact ∧ sliceFact) ∧ fact)
      (assignSubscript target slice assigned) := by
  refine (inv.gives_subscriptPtr givesTarget givesSlice).bind fun addr =>
    .assume fun shown => ?_
  refine gives.plain.bind fun val => .assume fun shownValue => ?_
  exact (keeps_store inv.emits.operand _ _).bind fun _ =>
    inv.gives_none ⟨⟨shown.1, shown.2.1⟩, shownValue.1⟩

theorem gives_assignName {assigned : Visit PyVal} (varName : String)
    (gives : Gives holds value ready fact assigned) :
    Gives holds value ready fact (assignName varName assigned) := by
  refine (keeps_reads _).bind fun alloc => ?_
  cases alloc with
  | none => exact .fail _
  | some varAlloc =>
      refine gives.plain.bind fun val => .assume fun shown => ?_
      exact (keeps_store inv.emits.operand _ _).bind fun _ => inv.gives_none shown.1

omit inv in
theorem fails_sliced {object : Visit PyVal} {bounds : Visit Unit} :
    Ensures holds (subscriptPtr object (visitNone bounds)) fun _ _ => False := by
  refine Ensures.any.bind fun ptr => ?_
  have noIndex : Ensures (fun _ : CompilerState => True) (visitNone bounds)
      fun idx _ => idx = .none ∧ True :=
    Ensures.any.bind fun _ => .pure fun _ _ => ⟨rfl, trivial⟩
  refine noIndex.bind fun idx => .assume fun isNone => ?_
  subst isNone
  refine (keeps_asValue ptr).bind fun ptrValue => .assume fun _ => ?_
  have fails (front : List PyVal) : Ensures (fun _ => True)
      (gep ptr (front ++ [.none])) fun _ _ => False := by
    refine (keeps_asValue ptr).bind fun ptr => .assume fun _ => ?_
    exact (fails_asValues front).bind_never
  split
  · exact fails [_]
  · exact fails []

theorem gives_generic {children : Visit Unit} (does : Does holds fact children) :
    Gives holds value ready fact (visitNone children) :=
  does.bind fun _ => .assume fun shown => inv.gives_none shown

end Visitors

end VisitInvariant

theorem VisitInvariant.or {left right : CompilerState → Prop} {value : PyVal → Prop}
    {func : Nat → Prop} {ready : Prop}
    (leftInv : VisitInvariant left value func ready)
    (rightInv : VisitInvariant right value func ready) :
    VisitInvariant (fun state => left state ∨ right state) value func ready where
  ofNone := leftInv.ofNone
  ofType := leftInv.ofType
  ofReg := leftInv.ofReg
  ofGlobal := leftInv.ofGlobal
  ofMethod := leftInv.ofMethod
  ofLiteral state type before isInt := before.elim
    (fun held => leftInv.ofLiteral state type held isInt)
    fun held => rightInv.ofLiteral state type held isInt
  ofLocal state name alloc before known := before.elim
    (fun held => leftInv.ofLocal state name alloc held known)
    fun held => rightInv.ofLocal state name alloc held known
  ofScope state name val before known := before.elim
    (fun held => leftInv.ofScope state name val held known)
    fun held => rightInv.ofScope state name val held known
  callable state name className before isReady isClass := before.elim
    (fun held => leftInv.callable state name className held isReady isClass)
    fun held => rightInv.callable state name className held isReady isClass
  keepsInstr state block instr before standing plain := before.imp
    (fun held => leftInv.keepsInstr state block instr held standing plain)
    fun held => rightInv.keepsInstr state block instr held standing plain
  keepsCall state block index args visited before standing := before.imp
    (fun held => leftInv.keepsCall state block index args visited held standing)
    fun held => rightInv.keepsCall state block index args visited held standing
  keepsAlloc ptrType sizeType tag :=
    (((leftInv.keepsAlloc ptrType sizeType tag).weaken fun _ _ => .inl).cases
      ((rightInv.keepsAlloc ptrType sizeType tag).weaken fun _ _ => .inr)).strengthen
        fun _ before => before.2.imp (fun held => ⟨before.1, held⟩)
          fun held => ⟨before.1, held⟩
  keepsGlobal state global := Or.imp (leftInv.keepsGlobal state global)
    (rightInv.keepsGlobal state global)
  keepsCounter state := Or.imp (leftInv.keepsCounter state) (rightInv.keepsCounter state)
  keepsBlock state index inside := Or.imp (leftInv.keepsBlock state index inside)
    (rightInv.keepsBlock state index inside)
  keepsPosition state label inside := Or.imp
    (leftInv.keepsPosition state label inside)
    (rightInv.keepsPosition state label inside)
  keepsLocal state name alloc visited := Or.imp
    (leftInv.keepsLocal state name alloc visited)
    (rightInv.keepsLocal state name alloc visited)
  keepsType node := ((leftInv.keepsType node).weaken fun _ _ => .inl).cases
    ((rightInv.keepsType node).weaken fun _ _ => .inr)

/-- A member of the family may say more about the function that the builder
stands in than another; what is kept by it is kept by the other too. -/
structure VisitFamily {ι : Type} (holds : ι → CompilerState → Prop)
    (value : PyVal → Prop) (func : ι → Nat → Prop) (ready : Prop) : Prop where
  invariant : ∀ index, VisitInvariant (holds index) value (func index) ready
  inFunction : ∀ index state label, holds index state →
    state.builder = some label →
      ∃ other, func other label.func ∧ holds other state ∧
        ∀ later, holds other later → holds index later

section

open VisitInvariant

variable {ι : Type} {holds : ι → CompilerState → Prop} {value : PyVal → Prop}
  {func : ι → Nat → Prop} {ready fact : Prop}
  (family : VisitFamily holds value func ready) (index : ι)

include family

/-- Within the current function the visit may go on under another member. -/
theorem VisitFamily.keeps_inFunction {next : Nat → Visit PyVal}
    (inside : ∀ current other, func other current →
      Gives (holds other) value ready fact (next current)) :
    Gives (holds index) value ready fact (currentFunction >>= next) := by
  intro state val state' before run
  obtain ⟨current, middle, found, run⟩ := bind_ok_iff.mp run
  obtain ⟨label, between, read, found⟩ := bind_ok_iff.mp found
  obtain ⟨standing, rfl⟩ := currentBlock_ok_iff.mp read
  obtain ⟨rfl, rfl⟩ := pure_ok_iff.mp found
  obtain ⟨other, isInside, held, implies⟩ :=
    family.inFunction index state label before standing
  have after := inside label.func other isInside state val state' held run
  exact ⟨after.1, after.2.1, implies _ after.2.2⟩

theorem VisitFamily.gives_if {test : Visit PyVal} {body : Visit Unit} {testFact : Prop}
    (givesTest : ∀ index, Gives (holds index) value ready testFact test)
    (doesBody : ∀ index, Does (holds index) fact body) :
    Gives (holds index) value ready (testFact ∧ fact) (visitIf test body none) := by
  refine family.keeps_inFunction index fun func other inside => ?_
  have inv := family.invariant other
  refine (inv.keeps_appendBlock inside).bind fun entryBlock => .assume fun entry => ?_
  refine (inv.keeps_appendBlock inside).bind fun thenBlock => .assume fun then_ => ?_
  refine (inv.keeps_appendBlock inside).bind fun mergeBlock => .assume fun merge => ?_
  refine Ensures.bind (keeps_terminate inv.emits rfl) fun _ => ?_
  refine (inv.keeps_positionAtEnd entry).bind fun _ => ?_
  refine (givesTest other).plain.bind fun condition => .assume fun shownTest => ?_
  refine Ensures.bind (keeps_terminate inv.emits rfl) fun _ => ?_
  refine (inv.keeps_positionAtEnd then_).bind fun _ => ?_
  refine (doesBody other).bind fun _ => .assume fun shownBody => ?_
  refine (inv.does_branchUnlessTerminated _).bind fun _ => ?_
  refine (inv.keeps_positionAtEnd merge).bind fun _ => ?_
  exact inv.gives_none ⟨shownTest.1, shownBody⟩

theorem VisitFamily.gives_ifElse {test : Visit PyVal} {body orelse : Visit Unit}
    {testFact elseFact : Prop}
    (givesTest : ∀ index, Gives (holds index) value ready testFact test)
    (doesBody : ∀ index, Does (holds index) fact body) (doesElse : ∀ index, Does (holds index) elseFact orelse) :
    Gives (holds index) value ready (testFact ∧ fact ∧ elseFact)
      (visitIf test body (some orelse)) := by
  refine family.keeps_inFunction index fun func other inside => ?_
  have inv := family.invariant other
  refine (inv.keeps_appendBlock inside).bind fun entryBlock => .assume fun entry => ?_
  refine (inv.keeps_appendBlock inside).bind fun thenBlock => .assume fun then_ => ?_
  refine (inv.keeps_appendBlock inside).bind fun elseBlock => .assume fun else_ => ?_
  refine (inv.keeps_appendBlock inside).bind fun mergeBlock => .assume fun merge => ?_
  refine Ensures.bind (keeps_terminate inv.emits rfl) fun _ => ?_
  refine (inv.keeps_positionAtEnd entry).bind fun _ => ?_
  refine (givesTest other).plain.bind fun condition => .assume fun shownTest => ?_
  refine Ensures.bind (keeps_terminate inv.emits rfl) fun _ => ?_
  refine (inv.keeps_positionAtEnd then_).bind fun _ => ?_
  refine (doesBody other).bind fun _ => .assume fun shownBody => ?_
  refine (inv.does_branchUnlessTerminated _).bind fun _ => ?_
  refine (inv.keeps_positionAtEnd else_).bind fun _ => ?_
  refine (doesElse other).bind fun _ => .assume fun shownElse => ?_
  refine (inv.does_branchUnlessTerminated _).bind fun _ => ?_
  refine (inv.keeps_positionAtEnd merge).bind fun _ => ?_
  exact inv.gives_none ⟨shownTest.1, shownBody, shownElse⟩

theorem VisitFamily.gives_while {test : Visit PyVal} {body : Visit Unit} {testFact : Prop}
    (givesTest : ∀ index, Gives (holds index) value ready testFact test)
    (doesBody : ∀ index, Does (holds index) fact body) :
    Gives (holds index) value ready (testFact ∧ fact) (visitWhile test body) := by
  refine family.keeps_inFunction index fun func other inside => ?_
  have inv := family.invariant other
  refine (inv.keeps_appendBlock inside).bind fun header => .assume fun atHeader => ?_
  refine (inv.keeps_appendBlock inside).bind fun bodyBlock => .assume fun atBody => ?_
  refine (inv.keeps_appendBlock inside).bind fun exitBlock => .assume fun atExit => ?_
  refine Ensures.bind (keeps_terminate inv.emits rfl) fun _ => ?_
  refine (inv.keeps_positionAtEnd atHeader).bind fun _ => ?_
  refine (givesTest other).plain.bind fun condition => .assume fun shownTest => ?_
  refine Ensures.bind (keeps_terminate inv.emits rfl) fun _ => ?_
  refine (inv.keeps_positionAtEnd atBody).bind fun _ => ?_
  refine (doesBody other).bind fun _ => .assume fun shownBody => ?_
  refine (inv.does_branchUnlessTerminated _).bind fun _ => ?_
  refine (inv.keeps_positionAtEnd atExit).bind fun _ => ?_
  exact inv.gives_none ⟨shownTest.1, shownBody⟩

end

end Lambpie.Compiler

/-
What the builder calls keep.

A property of the compiler's state that appending an instruction keeps is kept
by every builder call that appends one; the results of such calls are
registers.
-/
import Lambpie.Compiler.Visitor

namespace Lambpie.Compiler

open Foundations
open Foundations.Comp

/-- A computation from a state of the invariant ends in one. -/
abbrev Keeps {α : Type} (holds : CompilerState → Prop) (visit : Visit α) : Prop :=
  Ensures holds visit fun _ => holds

variable {holds : CompilerState → Prop}

theorem keeps_pure {α : Type} (result : α) :
    Ensures holds (pure result : Visit α) (fun _ => holds) :=
  .pure fun _ kept => kept

theorem keeps_reads {α : Type} (read : CompilerState → α) :
    Ensures holds (Comp.reads read : Visit α) (fun _ => holds) :=
  .reads fun _ kept => kept

theorem keeps_asValue (val : PyVal) :
    Ensures holds (asValue val) fun result state =>
      val = .value result ∧ holds state := by
  cases val with
  | value val => exact .pure fun _ kept => ⟨rfl, kept⟩
  | none => exact .fail _
  | type type => exact .fail _
  | method object method => exact .fail _

private theorem keeps_asValues (vals : List PyVal) :
    Ensures holds (asValues vals) (fun _ => holds) := by
  induction vals with
  | nil => exact keeps_pure _
  | cons val vals ih =>
      exact (keeps_asValue val).bind fun _ => .assume fun _ =>
        ih.bind fun _ => keeps_pure _

private theorem keeps_pointee (val : Value) :
    Ensures holds (pointee val) (fun _ => holds) := by
  unfold pointee
  cases val.type with
  | ptr pointee => exact keeps_pure _
  | _ => exact .fail _

theorem keeps_structName (val : Value) :
    Ensures holds (structName val) (fun _ => holds) := by
  refine (keeps_pointee val).bind fun type => ?_
  cases type with
  | struct name => exact keeps_pure _
  | _ => exact .fail _

theorem keeps_targetName (target : Node) :
    Ensures holds (targetName target) fun id state =>
      target = .name id ∧ holds state := by
  cases target with
  | name id => exact .pure fun _ kept => ⟨rfl, kept⟩
  | _ => exact .fail _

theorem fails_asValues (front : List PyVal) :
    Ensures holds (asValues (front ++ [.none])) fun _ _ => False := by
  induction front with
  | nil => exact Ensures.bind_never (.fail _)
  | cons val front ih =>
      exact (keeps_asValue val).bind fun _ => .assume fun _ => ih.bind_never

theorem keeps_functionParams (val : PyVal) :
    Keeps holds (functionParams val) := by
  refine (keeps_asValue val).bind fun val => .assume fun _ => ?_
  refine (keeps_pointee val).bind fun type => ?_
  cases type with
  | function ret params varArg => exact keeps_pure _
  | _ => exact .fail _

theorem keeps_lookup {α : Type} (scope : CompilerState → Scope α) (key : String) :
    Ensures holds (lookup scope key) fun result state =>
      scope state key = some result ∧ holds state := by
  have read : Ensures holds (Comp.reads fun state => scope state key : Visit _)
      fun result state => scope state key = result ∧ holds state :=
    .reads fun _ kept => ⟨rfl, kept⟩
  refine read.bind fun result => ?_
  cases result with
  | some result => exact .pure fun _ both => both
  | none => exact .fail _

theorem keeps_lookup_only {α : Type} (scope : CompilerState → Scope α)
    (key : String) : Ensures holds (lookup scope key) (fun _ => holds) :=
  (keeps_lookup scope key).weaken fun _ _ both => both.2

theorem keeps_constant (type : LType) (operand : Operand) :
    Ensures holds (constant type operand) fun result state =>
      result = { type, operand } ∧ holds state := by
  unfold constant
  by_cases void : type = .void
  · rw [if_pos void]
    exact .fail _
  · rw [if_neg void]
    exact .pure fun _ kept => ⟨rfl, kept⟩

theorem keeps_layoutIndex (layout : Layout) (name : String) :
    Ensures holds (layoutIndex layout name) (fun _ => holds) := by
  unfold layoutIndex
  cases layout.lookup name with
  | some field => exact keeps_pure _
  | none => exact .fail _

theorem keeps_nextName
    (counts : ∀ state, holds state →
      holds { state with nameCounter := state.nameCounter + 1 }) :
    Keeps holds nextName :=
  (Ensures.modify counts).bind fun _ => keeps_reads _

theorem keeps_addGlobal
    (added : ∀ state global, holds state → holds (state.addGlobal global))
    (name : String) (length : Nat) (bytes : List UInt8) (isConstant : Bool) :
    Ensures holds (addGlobal name length bytes isConstant) fun result state =>
      (∃ index, result = { type := .ptr .i8, operand := .global index }) ∧
        holds state := by
  refine (keeps_reads _).bind fun used => ?_
  cases used with
  | true => exact .fail _
  | false =>
      refine (keeps_reads _).bind fun index => ?_
      have changed : Keeps holds
          (Comp.modify (·.addGlobal { name, length, bytes, isConstant }) : Visit _) :=
        .modify fun state before => added state _ before
      exact changed.bind fun _ => .pure fun _ after => ⟨⟨index, rfl⟩, after⟩

theorem currentBlock_ok_iff {block : Label} {state state' : CompilerState} :
    currentBlock state = .ok (block, state') ↔
      state.builder = some block ∧ state = state' := by
  unfold currentBlock
  rw [bind_ok_iff]
  constructor
  · rintro ⟨builder, middle, read, run⟩
    obtain ⟨standing, rfl⟩ := reads_ok_iff.mp read
    cases builder with
    | some label =>
        obtain ⟨rfl, rfl⟩ := pure_ok_iff.mp run
        exact ⟨standing, rfl⟩
    | none => exact (fail_ok_iff.mp run).elim
  · rintro ⟨standing, rfl⟩
    exact ⟨some block, state, reads_ok_iff.mpr ⟨standing, rfl⟩, rfl⟩

theorem keeps_currentBlock :
    Ensures holds currentBlock fun label state =>
      state.builder = some label ∧ holds state := by
  have read : Ensures holds (Comp.reads (·.builder) : Visit _) fun builder state =>
      state.builder = builder ∧ holds state :=
    .reads fun _ kept => ⟨rfl, kept⟩
  refine read.bind fun builder => ?_
  cases builder with
  | some label => exact .pure fun _ both => both
  | none => exact .fail _

theorem keeps_isTerminated : Ensures holds isTerminated (fun _ => holds) :=
  keeps_currentBlock.bind fun _ => .reads fun _ both => both.2

theorem keeps_currentArena :
    Ensures holds (Comp.reads (·.currentArena) : Visit _) fun tag state =>
      state.currentArena = tag ∧ holds state :=
  .reads fun _ kept => ⟨rfl, kept⟩

private theorem keeps_gepInto (type : LType) (index : Value) :
    Ensures holds (gepInto type index) (fun _ => holds) := by
  unfold gepInto
  split
  · split
    · exact keeps_pure _
    · exact keeps_pure _
    · refine (keeps_reads _).bind fun struct => ?_
      split
      · split
        · exact keeps_pure _
        · exact .fail _
      · exact .fail _
    · exact .fail _
  · exact .fail _

theorem keeps_gepType (type : LType) (indices : List Value) :
    Ensures holds (gepType type indices) (fun _ => holds) := by
  induction indices generalizing type with
  | nil => exact keeps_pure _
  | cons index indices ih =>
      exact (keeps_gepInto type index).bind fun inner => ih inner

/-- What a builder call that is no function call may append. -/
def Emits (holds : CompilerState → Prop) : Prop :=
  ∀ state block instr, instr.isCall = false → holds state →
    state.builder = some block → holds (state.append { block, instr })

/-- The same without the terminators. -/
def EmitsPlain (holds : CompilerState → Prop) : Prop :=
  ∀ state block instr, instr.isCall = false → instr.isTerminator = false →
    holds state → state.builder = some block →
      holds (state.append { block, instr })

/-- The same without the allocations of stack slots. -/
def EmitsOperand (holds : CompilerState → Prop) : Prop :=
  ∀ state block instr, instr.isCall = false → instr.isTerminator = false →
    instr.isAlloca = false → holds state → state.builder = some block →
      holds (state.append { block, instr })

theorem Emits.plain (emits : Emits holds) : EmitsPlain holds :=
  fun state block instr noCall _ before standing =>
    emits state block instr noCall before standing

theorem EmitsPlain.operand (emits : EmitsPlain holds) : EmitsOperand holds :=
  fun state block instr noCall inBlock _ before standing =>
    emits state block instr noCall inBlock before standing

theorem Emits.operand (emits : Emits holds) : EmitsOperand holds :=
  emits.plain.operand

def Value.IsReg (val : Value) : Prop := ∃ id, val.operand = .reg id

theorem emit_ok_iff {instr : Instr} {type : LType} {result : Value}
    {state state' : CompilerState} :
    emit instr type state = .ok (result, state') ↔
      ∃ block, state.builder = some block ∧
        result = { type, operand := .reg state.module.code.length } ∧
        state' = state.append { block, instr } := by
  constructor
  · intro run
    obtain ⟨block, middle, current, run⟩ := bind_ok_iff.mp run
    obtain ⟨standing, rfl⟩ := currentBlock_ok_iff.mp current
    simp only [bind_ok_iff, reads_ok_iff, modify_ok_iff, pure_ok_iff] at run
    obtain ⟨id, _, ⟨rfl, rfl⟩, _, _, rfl, rfl, rfl⟩ := run
    exact ⟨block, standing, rfl, rfl⟩
  · rintro ⟨block, standing, rfl, rfl⟩
    refine bind_ok_iff.mpr ⟨block, state, currentBlock_ok_iff.mpr ⟨standing, rfl⟩, ?_⟩
    simp

private theorem keeps_emitOf {instr : Instr} (type : LType)
    (kept : ∀ state block, holds state → state.builder = some block →
      holds (state.append { block, instr })) :
    Ensures holds (emit instr type) fun result state =>
      result.IsReg ∧ holds state := by
  intro state result state' before run
  obtain ⟨block, standing, rfl, rfl⟩ := emit_ok_iff.mp run
  exact ⟨⟨_, rfl⟩, kept state block before standing⟩

def allocCall (index : Nat) (tag : ArenaTag) (size : Value) : Instr :=
  .call index [.value (i32Const tag.code), .value size]

theorem keeps_terminate {instr : Instr} (emits : Emits holds)
    (noCall : instr.isCall = false) : Keeps holds (terminate instr) := by
  refine keeps_isTerminated.bind fun terminated => ?_
  cases terminated with
  | true => exact .fail _
  | false =>
      have emitted := keeps_emitOf .void fun state block before standing =>
        emits state block instr noCall before standing
      exact emitted.bind fun _ => .pure fun _ both => both.2

private theorem keeps_emit {instr : Instr} (emits : EmitsPlain holds) (type : LType)
    (noCall : instr.isCall = false) (inBlock : instr.isTerminator = false) :
    Ensures holds (emit instr type) fun result state =>
      result.IsReg ∧ holds state :=
  keeps_emitOf type fun state block before standing =>
    emits state block instr noCall inBlock before standing

theorem keeps_asPointer (type : LType) :
    Ensures holds (asPointer type) fun ptrType state =>
      ptrType = .ptr type ∧ holds state := by
  unfold asPointer
  split
  · exact .fail _
  · exact .pure fun _ kept => ⟨rfl, kept⟩

theorem asPointer_ok {type ptrType : LType} {state state' : CompilerState}
    (run : asPointer type state = .ok (ptrType, state')) :
    ptrType = .ptr type ∧ state' = state := by
  have kept : Ensures (· = state) (asPointer type) _ := keeps_asPointer type
  exact kept _ _ _ rfl run

theorem alloca_ok {type : LType} {result : Value} {state state' : CompilerState}
    (run : alloca type state = .ok (result, state')) :
    ∃ block, state.builder = some block ∧
      result = { type := .ptr type, operand := .reg state.module.code.length } ∧
      state' = state.append { block, instr := .alloca type } := by
  obtain ⟨ptrType, middle, pointed, emitted⟩ := bind_ok_iff.mp run
  obtain ⟨rfl, rfl⟩ := asPointer_ok pointed
  exact emit_ok_iff.mp emitted

theorem keeps_alloca (emits : EmitsPlain holds) (type : LType) :
    Ensures holds (alloca type) fun result state =>
      result.IsReg ∧ holds state :=
  (keeps_asPointer type).bind fun ptrType => .assume fun _ =>
    keeps_emit emits ptrType rfl rfl

section Instructions

variable (emits : EmitsOperand holds)

include emits

private theorem keeps_compute {instr : Instr} (type : LType) (noCall : instr.isCall = false)
    (inBlock : instr.isTerminator = false) (noSlot : instr.isAlloca = false) :
    Ensures holds (emit instr type) fun result state =>
      result.IsReg ∧ holds state :=
  keeps_emitOf type fun state block before standing =>
    emits state block instr noCall inBlock noSlot before standing

theorem keeps_load (ptr : PyVal) :
    Ensures holds (load ptr) fun result state =>
      result.IsReg ∧ holds state := by
  refine (keeps_asValue ptr).bind fun ptr => .assume fun _ => ?_
  split
  · exact keeps_compute emits _ rfl rfl rfl
  · exact .fail _

theorem keeps_store (val ptr : PyVal) : Keeps holds (store val ptr) := by
  refine (keeps_asValue ptr).bind fun ptr => .assume fun _ => ?_
  split
  · refine (keeps_asValue val).bind fun val => .assume fun _ => ?_
    split
    · exact (keeps_compute emits .void rfl rfl rfl).bind fun _ => .pure fun _ both => both.2
    · exact .fail _
  · exact .fail _

theorem keeps_binop (op : BinOpcode) (lhs rhs : PyVal) :
    Ensures holds (binop op lhs rhs) fun result state =>
      result.IsReg ∧ holds state := by
  refine (keeps_asValue lhs).bind fun lhs => .assume fun _ => ?_
  refine (keeps_asValue rhs).bind fun rhs => .assume fun _ => ?_
  split
  · exact keeps_compute emits _ rfl rfl rfl
  · exact .fail _

theorem keeps_icmpSigned (predicate : Predicate) (lhs rhs : PyVal) :
    Ensures holds (icmpSigned predicate lhs rhs) fun result state =>
      result.IsReg ∧ holds state :=
  (keeps_asValue lhs).bind fun _ => .assume fun _ => keeps_compute emits _ rfl rfl rfl

theorem keeps_gep (ptr : PyVal) (indices : List PyVal) :
    Ensures holds (gep ptr indices) fun result state =>
      result.IsReg ∧ holds state := by
  refine (keeps_asValue ptr).bind fun ptr => .assume fun _ => ?_
  refine (keeps_asValues indices).bind fun indices => ?_
  split
  · refine (keeps_gepType _ _).bind fun inner => ?_
    exact (keeps_asPointer inner).bind fun ptrType => .assume fun _ =>
      keeps_compute emits ptrType rfl rfl rfl
  · exact .fail _

theorem keeps_fieldPtr (ptr : PyVal) (index : Nat) :
    Ensures holds (fieldPtr ptr index) fun result state =>
      result.IsReg ∧ holds state :=
  keeps_gep emits ptr _

theorem keeps_storeField (ptr : Value) (index : Nat) (val : PyVal) :
    Keeps holds (storeField ptr index val) :=
  (keeps_fieldPtr emits _ index).bind fun _ => .assume fun _ =>
    keeps_store emits _ _

private theorem keeps_ptrtoint {val : Value} (type : LType) (isReg : val.IsReg) :
    Ensures holds (ptrtoint val type) fun result state =>
      result.IsReg ∧ holds state := by
  unfold ptrtoint
  split
  · exact .pure fun _ kept => ⟨isReg, kept⟩
  · exact keeps_compute emits _ rfl rfl rfl

private theorem keeps_bitcast {val : Value} (type : LType) (isReg : val.IsReg) :
    Ensures holds (bitcast val type) fun result state =>
      result.IsReg ∧ holds state := by
  unfold bitcast
  split
  · exact .pure fun _ kept => ⟨isReg, kept⟩
  · exact keeps_compute emits _ rfl rfl rfl

omit emits in
theorem keeps_checkArgs (types : List LType) (args : List PyVal) :
    Keeps holds (checkArgs types args) := by
  induction types generalizing args with
  | nil => exact keeps_pure _
  | cons type types ih =>
      cases args with
      | nil => exact .fail _
      | cons arg args =>
          refine (keeps_asValue arg).bind fun arg => .assume fun _ => ?_
          split
          · exact ih args
          · exact .fail _

omit emits in
theorem keeps_call (callee : PyVal) {args : List PyVal}
    (kept : ∀ state block index, holds state → state.builder = some block →
      holds (state.append { block, instr := .call index args })) :
    Ensures holds (call callee args) fun result state =>
      result.IsReg ∧ holds state := by
  unfold call
  split
  · exact (keeps_checkArgs _ _).bind fun _ =>
      keeps_emitOf _ fun state block => kept state block _
  · exact .fail _

/-- The only operand known of the allocator's call is the tag. -/
theorem keeps_allocTagged (ptrType sizeType : LType) (tag : ArenaTag)
    (kept : ∀ state block index size, Value.IsReg size → holds state →
      state.builder = some block →
        holds (state.append { block, instr := allocCall index tag size })) :
    Ensures holds (allocStruct ptrType sizeType tag)
      fun result state => result.IsReg ∧ holds state := by
  refine (keeps_constant ptrType .null).bind fun nullPtr => .assume fun _ => ?_
  refine (keeps_gep emits _ _).bind fun sizePtr => .assume fun sizeIsReg => ?_
  refine (keeps_ptrtoint emits sizeType sizeIsReg).bind fun size =>
    .assume fun sizeIsReg => ?_
  refine (keeps_lookup_only _ _).bind fun arenaAlloc => ?_
  have called : Ensures holds
      (call arenaAlloc [.value (i32Const tag.code), .value size])
      fun result state => result.IsReg ∧ holds state :=
    keeps_call _ fun state block index before standing =>
      kept state block index size sizeIsReg before standing
  refine called.bind fun raw => .assume fun rawIsReg => ?_
  exact keeps_bitcast emits ptrType rawIsReg

theorem keeps_allocStruct (ptrType sizeType : LType) (tag : ArenaTag)
    (kept : ∀ state block index size, state.currentArena = tag →
      Value.IsReg size → holds state → state.builder = some block →
        holds (state.append { block, instr := allocCall index tag size })) :
    Ensures (fun state => state.currentArena = tag ∧ holds state)
      (allocStruct ptrType sizeType tag)
      fun result state => result.IsReg ∧ holds state := by
  have emits' : EmitsOperand fun state => state.currentArena = tag ∧ holds state :=
    fun state block instr noCall inBlock noSlot before standing =>
      ⟨before.1, emits state block instr noCall inBlock noSlot before.2 standing⟩
  refine (keeps_allocTagged emits' ptrType sizeType tag
    fun state block index size isReg before standing => ⟨before.1,
      kept state block index size before.1 isReg before.2 standing⟩).weaken
        fun _ _ after => ⟨after.1, after.2.2⟩

end Instructions

/-- The tag of an `i32` constant in the first argument of a call. -/
def Instr.tagLiteral : Instr → Option Int
  | .call _ (.value { type := .int 32, operand := .int tag } :: _) => some tag
  | _ => none

/-- No `i32` constant: the compiler writes these only as tags, reference counts
and field numbers, and returns none from a visit. -/
def Plain : PyVal → Prop
  | .value val => val.type = .i32 → ∀ number, val.operand ≠ .int number
  | .method receiver _ => receiver.type = .i32 → ∀ number, receiver.operand ≠ .int number
  | _ => True

theorem tagLiteral_of_plain {callee : Nat} {args : List PyVal}
    (plain : ∀ arg ∈ args, Plain arg) : (Instr.call callee args).tagLiteral = none := by
  unfold Instr.tagLiteral
  split
  · rename_i same
    cases same
    exact (plain _ List.mem_cons_self rfl _ rfl).elim
  · rfl

theorem tagLiteral_of_not_call {instr : Instr} (plain : instr.isCall = false) :
    instr.tagLiteral = none := by
  cases instr with
  | call => cases plain
  | _ => rfl

/-- Only the first argument counts. -/
theorem tagLiteral_of_first {callee : Nat} {first : PyVal} (rest : List PyVal)
    (plain : Plain first) : (Instr.call callee (first :: rest)).tagLiteral = none := by
  unfold Instr.tagLiteral
  split
  · rename_i same
    cases same
    exact (plain rfl _ rfl).elim
  · rfl

/-- What may be appended in a block where arenas are allocated from with one
tag. -/
def EmitsTagged (tag : ArenaTag) (holds : CompilerState → Prop) : Prop :=
  ∀ state block instr, instr.isTerminator = false →
    (∀ literal, instr.tagLiteral = some literal → literal = tag.code) →
      holds state → state.builder = some block →
        holds (state.append { block, instr })

section

variable {tag : ArenaTag} (emits : EmitsTagged tag holds)

include emits

theorem EmitsTagged.plain : EmitsPlain holds :=
  fun state block instr noCall inBlock before standing =>
    emits state block instr inBlock
      (fun _ literal => by rw [tagLiteral_of_not_call noCall] at literal; cases literal)
      before standing

theorem keeps_allocEntry (ptrType sizeType : LType) :
    Ensures holds (allocStruct ptrType sizeType tag) fun result state =>
      result.IsReg ∧ holds state :=
  keeps_allocTagged emits.plain.operand ptrType sizeType tag
    fun state block index size _ before standing =>
      emits state block _ rfl (fun _ literal => by cases literal; rfl) before
        standing

theorem keeps_callEntry (callee : PyVal) {first : PyVal} (rest : List PyVal)
    (plain : Plain first) :
    Ensures holds (call callee (first :: rest)) fun result state =>
      result.IsReg ∧ holds state :=
  keeps_call callee fun state block _ before standing =>
    emits state block _ rfl
      (fun _ literal => by rw [tagLiteral_of_first rest plain] at literal; cases literal)
      before standing

end

def EmitsInBlock (holds : CompilerState → Prop) : Prop :=
  ∀ state block instr, instr.isTerminator = false → holds state →
    state.builder = some block → holds (state.append { block, instr })

/-- The same without the allocations of stack slots. -/
def EmitsQuiet (holds : CompilerState → Prop) : Prop :=
  ∀ state block instr, instr.isTerminator = false → instr.isAlloca = false →
    holds state → state.builder = some block → holds (state.append { block, instr })

theorem EmitsInBlock.plain (emits : EmitsInBlock holds) : EmitsPlain holds :=
  fun state block instr _ inBlock before standing =>
    emits state block instr inBlock before standing

theorem EmitsInBlock.tagged (emits : EmitsInBlock holds) (tag : ArenaTag) :
    EmitsTagged tag holds :=
  fun state block instr inBlock _ before standing =>
    emits state block instr inBlock before standing

theorem EmitsInBlock.quiet (emits : EmitsInBlock holds) : EmitsQuiet holds :=
  fun state block instr inBlock _ before standing =>
    emits state block instr inBlock before standing

section

variable (emits : EmitsQuiet holds)

include emits

theorem EmitsQuiet.operand : EmitsOperand holds :=
  fun state block instr _ inBlock noSlot before standing =>
    emits state block instr inBlock noSlot before standing

theorem keeps_callInBlock (callee : PyVal) (args : List PyVal) :
    Keeps holds (call callee args) :=
  (keeps_call callee fun state block _ before standing =>
    emits state block _ rfl rfl before standing).weaken fun _ _ after => after.2

theorem keeps_allocInBlock (ptrType sizeType : LType) (tag : ArenaTag) :
    Keeps holds (allocStruct ptrType sizeType tag) :=
  (keeps_allocTagged emits.operand ptrType sizeType tag
    fun state block _ _ _ before standing =>
      emits state block _ rfl rfl before standing).weaken fun _ _ after => after.2

private theorem keeps_wrapInBlock (i8Ptr : Value) : Keeps holds (wrapCstrToStr i8Ptr) := by
  have stores := keeps_storeField emits.operand
  refine (keeps_lookup_only _ _).bind fun strPtrType => ?_
  refine (keeps_lookup_only _ _).bind fun sizeType => ?_
  refine (keeps_reads _).bind fun tag => ?_
  refine (keeps_allocInBlock emits strPtrType sizeType tag).bind fun strPtr => ?_
  refine (keeps_lookup_only _ _).bind fun layout => ?_
  refine (keeps_layoutIndex _ _).bind fun refIdx => ?_
  refine (stores _ _ _).bind fun _ => ?_
  refine (keeps_lookup_only _ _).bind fun strlenFn => ?_
  refine (keeps_callInBlock emits _ _).bind fun length => ?_
  refine (keeps_layoutIndex _ _).bind fun lenIdx => ?_
  refine (stores _ _ _).bind fun _ => ?_
  refine (keeps_layoutIndex _ _).bind fun bufIdx => ?_
  exact (stores _ _ _).bind fun _ => keeps_pure _

theorem keeps_coerceInBlock (args : List PyVal) (types : List LType) :
    Keeps holds (coerceArgs args types) := by
  induction args generalizing types with
  | nil => exact keeps_pure _
  | cons arg args ih =>
      cases types with
      | nil => exact .fail _
      | cons expected types =>
          have coerced : Keeps holds (coerceArg arg expected) := by
            unfold coerceArg
            split
            · refine (keeps_asValue arg).bind fun val => .assume fun _ => ?_
              split
              · exact (keeps_wrapInBlock emits val).bind fun _ => keeps_pure _
              · exact keeps_pure _
            · exact keeps_pure _
          exact coerced.bind fun _ => (ih types).bind fun _ => keeps_pure _

end

end Lambpie.Compiler

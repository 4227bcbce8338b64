/-
The operands of everything that a compilation emits.

Each visitor is followed once: where its children yield values that refer to
what is there, so does it.
-/
import Lambpie.Compiler.Operands
import Lambpie.Compiler.Ready

namespace Lambpie.Compiler

open Foundations
open Foundations.Comp

variable {least : TableSizes}

private theorem yields_visitConstant (literal : Literal) :
    YieldsVal least (visitConstant literal) := by
  have typed (operand : Operand) (within : operand.Within least) : YieldsVal least (do
      let type ← lookup (·.types) "int"
      let const ← constant type operand
      pure (.value const)) := by
    refine (yields_of_keeps (keeps_lookup_only _ _)).bind fun type more grown _ => ?_
    refine (yields_of_ensures (keeps_constant type operand)).bind fun const most grown' same => ?_
    rw [same]
    exact yields_value ((within.mono grown).mono grown')
  cases literal with
  | int value => exact typed _ trivial
  | bool value => exact typed _ trivial
  | str text => exact yields_nextName.bind fun _ _ _ _ => (yields_addGlobal _ _ _ _).toVal
  | bytes data => exact yields_nextName.bind fun _ _ _ _ => (yields_addGlobal _ _ _ _).toVal
  | _ => exact yields_none

private theorem yields_visitName (id : String) : YieldsVal least (visitName id) := by
  have readLocal : Yields (fun sizes found => ∀ alloc, found = some alloc →
      (Operand.Within sizes alloc.operand)) least
      (Comp.reads fun state => state.localScope id : Visit (Option Value)) :=
    .reads fun state before => ⟨fun alloc bound => before.locals id alloc bound, before⟩
  have readGlobal (more : TableSizes) : Yields (fun sizes found => ∀ val, found = some val →
      PyVal.Within sizes val) more
      (Comp.reads fun state => state.globalScope id : Visit (Option PyVal)) :=
    .reads fun state before => ⟨fun val bound => before.globals id val bound, before⟩
  refine readLocal.bind fun found more grown known => ?_
  cases found with
  | some alloc =>
      have within := known alloc rfl
      dsimp only
      split
      · exact yields_value within
      · exact (yields_load (within_value.mpr within)).toVal
  | none =>
      refine (readGlobal more).bind fun found most _ known' => ?_
      cases found with
      | some val => exact yields_val (known' val rfl)
      | none =>
          refine (yields_of_keeps (keeps_reads _)).bind fun type _ _ _ => ?_
          cases type with
          | some type => exact yields_val (within_type type)
          | none => exact .fail _

section

variable {left right operand object slice callee : Visit PyVal}

private theorem yields_visitBinOp (op : BinaryOp) (yieldsLeft : YieldsVal least left)
    (yieldsRight : ∀ more, YieldsVal more right) : YieldsVal least (visitBinOp left op right) := by
  refine yieldsLeft.bind fun lhs more _ known => ?_
  refine (yieldsRight more).bind fun rhs most grown known' => ?_
  cases binOpcode op with
  | some opcode => exact (yields_binop (known.mono grown) known').toVal
  | none => exact .fail _

private theorem yields_visitUnaryOp (op : UnaryOp) (yields : YieldsVal least operand) :
    YieldsVal least (visitUnaryOp op operand) := by
  refine yields.bind fun operand more _ known => ?_
  cases op with
  | invert =>
      refine (yields_asValue known).bind fun value most grown _ => ?_
      refine (yields_of_ensures (keeps_constant _ _)).bind fun ones last grown' same => ?_
      rw [same]
      exact (yields_binop ((known.mono grown).mono grown') (within_int _ _)).toVal
  | uSub =>
      refine (yields_asValue known).bind fun value most grown _ => ?_
      refine (yields_of_ensures (keeps_constant _ _)).bind fun zero last grown' same => ?_
      rw [same]
      exact (yields_binop (within_int _ _) ((known.mono grown).mono grown')).toVal
  | uAdd => exact yields_val known
  | not => exact .fail _

private theorem yields_visitCompare (op : CompareOp) (yieldsLeft : YieldsVal least left)
    (yieldsRight : ∀ more, YieldsVal more right) :
    YieldsVal least (visitCompare left (some (op, right))) := by
  refine yieldsLeft.bind fun lhs more _ known => ?_
  refine (yieldsRight more).bind fun rhs most grown known' => ?_
  cases comparePredicate op with
  | some predicate => exact (yields_icmpSigned (known.mono grown) known').toVal
  | none => exact .fail _

private theorem yields_visitChain (yieldsLeft : YieldsVal least left) :
    YieldsVal least (visitCompare left none) :=
  yieldsLeft.bind fun _ _ _ _ => .fail _

private theorem yields_visitAttribute (attr : String) (yields : YieldsVal least object) :
    YieldsVal least (visitAttribute object attr) := by
  have readGlobal (name : String) (more : TableSizes) : Yields (fun sizes found =>
      ∀ val, found = some val → PyVal.Within sizes val) more
      (Comp.reads fun state => state.globalScope name : Visit (Option PyVal)) :=
    .reads fun state before => ⟨fun val bound => before.globals name val bound, before⟩
  refine yields.bind fun object more _ known => ?_
  refine (yields_asValue known).bind fun objPtr most grown known' => ?_
  refine (yields_of_keeps (keeps_structName objPtr)).bind fun typeName last grown' _ => ?_
  refine (readGlobal _ last).bind fun found final grown'' isMethod => ?_
  cases found with
  | some method =>
      exact yields_val (within_method.mpr
        ⟨known'.mono (grown'.trans grown''), isMethod method rfl⟩)
  | none =>
      refine (yields_of_keeps (keeps_reads _)).bind fun layout further beyond _ => ?_
      split
      · have withinObject := known.mono (((grown.trans grown').trans grown'').trans beyond)
        exact (yields_fieldPtr withinObject _).bind fun ptr _ _ within =>
          (yields_load (within_value.mpr within)).toVal
      · exact .fail _

private theorem yields_subscriptPtr (yieldsObject : YieldsVal least object)
    (yieldsSlice : ∀ more, YieldsVal more slice) : YieldsValue least (subscriptPtr object slice) := by
  refine yieldsObject.bind fun ptr more _ known => ?_
  refine (yieldsSlice more).bind fun idx most grown known' => ?_
  refine (yields_asValue (known.mono grown)).bind fun ptrValue last grown' _ => ?_
  have withinPtr := known.mono (grown.trans grown')
  have withinIdx := known'.mono grown'
  split
  · apply yields_gep withinPtr
    intro index member
    rcases List.mem_cons.mp member with rfl | single
    · exact within_value.mpr trivial
    · exact List.mem_singleton.mp single ▸ withinIdx
  · apply yields_gep withinPtr
    intro index member
    exact List.mem_singleton.mp member ▸ withinIdx

private theorem yields_visitSubscript (yieldsObject : YieldsVal least object)
    (yieldsSlice : ∀ more, YieldsVal more slice) :
    YieldsVal least (visitSubscript object slice) :=
  (yields_subscriptPtr yieldsObject yieldsSlice).bind fun _ _ _ known =>
    (yields_load (within_value.mpr known)).toVal

theorem yields_allocStruct (ptrType sizeType : LType) (tag : ArenaTag) :
    YieldsValue least (allocStruct ptrType sizeType tag) := by
  refine (yields_of_ensures (keeps_constant _ _)).bind fun nullPtr more _ isNull => ?_
  have withinNull : (PyVal.value nullPtr).Within more := by
    rw [isNull, within_value]
    trivial
  have sized : YieldsValue more (gep (.value nullPtr) [.value (i32Const 1)]) :=
    yields_gep withinNull fun index member => by
      rw [List.mem_singleton.mp member, within_value]
      trivial
  refine sized.bind fun sizePtr _ _ known => ?_
  refine (yields_ptrtoint known sizeType).bind fun size most _ knownSize => ?_
  refine (yields_lookup_global "lambpie_arena_alloc").bind fun callee last grown knownCallee => ?_
  have called : YieldsValue last (call callee [.value (i32Const tag.code), .value size]) := by
    apply yields_call knownCallee
    intro arg member
    rcases List.mem_cons.mp member with rfl | single
    · exact within_value.mpr trivial
    · rw [List.mem_singleton.mp single]
      exact within_value.mpr (knownSize.mono grown)
  exact called.bind fun raw _ _ knownRaw => yields_bitcast knownRaw ptrType

private theorem yields_wrapCstrToStr {i8Ptr : Value} (within : i8Ptr.operand.Within least) :
    YieldsValue least (wrapCstrToStr i8Ptr) := by
  refine (yields_of_keeps (keeps_lookup_only _ _)).bind fun strPtrType m₁ g₁ _ => ?_
  refine (yields_of_keeps (keeps_lookup_only _ _)).bind fun sizeType m₂ g₂ _ => ?_
  refine (yields_of_keeps (keeps_reads _)).bind fun tag m₃ g₃ _ => ?_
  refine (yields_allocStruct strPtrType sizeType tag).bind fun strPtr m₄ g₄ known => ?_
  refine (yields_of_keeps (keeps_lookup_only _ _)).bind fun layout m₅ g₅ _ => ?_
  refine (yields_of_keeps (keeps_layoutIndex _ _)).bind fun refIdx m₆ g₆ _ => ?_
  have known := known.mono (g₅.trans g₆)
  refine (yields_storeField known (within_int _ _) refIdx).bind fun _ m₇ g₇ _ => ?_
  refine (yields_lookup_global "strlen").bind fun strlenFn m₈ g₈ knownFn => ?_
  have within := within.mono
    (g₁.trans (g₂.trans (g₃.trans (g₄.trans (g₅.trans (g₆.trans (g₇.trans g₈)))))))
  have called : YieldsValue m₈ (call strlenFn [.value i8Ptr]) :=
    yields_call knownFn fun arg member => by
      rw [List.mem_singleton.mp member]
      exact within_value.mpr within
  refine called.bind fun length m₉ g₉ knownLength => ?_
  refine (yields_of_keeps (keeps_layoutIndex _ _)).bind fun lenIdx m₁₀ g₁₀ _ => ?_
  have known := known.mono (g₇.trans (g₈.trans (g₉.trans g₁₀)))
  refine (yields_storeField known (within_value.mpr (knownLength.mono g₁₀)) lenIdx).bind
    fun _ m₁₁ g₁₁ _ => ?_
  refine (yields_of_keeps (keeps_layoutIndex _ _)).bind fun bufIdx m₁₂ g₁₂ _ => ?_
  have known := known.mono (g₁₁.trans g₁₂)
  have within := within.mono (g₉.trans (g₁₀.trans (g₁₁.trans g₁₂)))
  refine (yields_storeField known (within_value.mpr within) bufIdx).bind fun _ m₁₃ g₁₃ _ => ?_
  exact .pure (known.mono g₁₃) fun _ more within => within.mono more

private theorem yields_coerceArg {arg : PyVal} (within : arg.Within least) (expected : LType) :
    YieldsVal least (coerceArg arg expected) := by
  unfold coerceArg
  split
  · refine (yields_asValue within).bind fun value more grown known => ?_
    split
    · exact (yields_wrapCstrToStr known).toVal
    · exact yields_val (within.mono grown)
  · exact yields_val within

abbrev YieldsVals (least : TableSizes) (visit : Visit (List PyVal)) : Prop :=
  Yields (fun sizes vals => ∀ val ∈ vals, val.Within sizes) least visit

private theorem yields_nil : YieldsVals least (pure []) := by
  have none : ∀ val ∈ ([] : List PyVal), val.Within least :=
    fun _ member => (List.not_mem_nil member).elim
  exact .pure none fun _ _ _ _ member => (List.not_mem_nil member).elim

private theorem yields_cons {val : PyVal} {vals : List PyVal} (head : val.Within least)
    (tail : ∀ other ∈ vals, other.Within least) : YieldsVals least (pure (val :: vals)) := by
  have all : ∀ other ∈ val :: vals, other.Within least := by
    intro other member
    rcases List.mem_cons.mp member with rfl | later
    · exact head
    · exact tail other later
  exact .pure all fun _ more known other member => (known other member).mono more

private theorem yields_coerceArgs {args : List PyVal} (types : List LType)
    (within : ∀ arg ∈ args, arg.Within least) : YieldsVals least (coerceArgs args types) := by
  induction args generalizing types least with
  | nil => exact yields_nil
  | cons arg args ih =>
      cases types with
      | nil => exact .fail _
      | cons expected types =>
          refine (yields_coerceArg (within arg List.mem_cons_self) expected).bind
            fun coerced more grown known => ?_
          refine (ih types fun other member =>
            (within other (List.mem_cons_of_mem _ member)).mono grown).bind
              fun others most grown' known' => ?_
          exact yields_cons (known.mono grown') known'

private theorem yields_construct {args : Visit (List PyVal)} (name : String)
    (yieldsArgs : ∀ more, YieldsVals more args) : YieldsVal least (construct name args) := by
  refine (yields_of_keeps (keeps_lookup_only _ _)).bind fun sizeType _ _ _ => ?_
  refine (yields_of_keeps (keeps_reads _)).bind fun tag _ _ _ => ?_
  refine (yields_allocStruct _ sizeType tag).bind fun objPtr m₁ _ known => ?_
  have readGlobal : Yields (fun sizes found => ∀ val, found = some val →
      PyVal.Within sizes val) m₁
      (Comp.reads fun state => state.globalScope s!"{name}___init__" : Visit (Option PyVal)) :=
    .reads fun state before => ⟨fun val bound => before.globals _ val bound, before⟩
  refine readGlobal.bind fun found m₂ g₂ knownInit => ?_
  cases found with
  | none => exact yields_value (known.mono g₂)
  | some initFunc =>
      have knownInit := knownInit initFunc rfl
      refine (yieldsArgs m₂).bind fun rawArgs m₃ g₃ knownArgs => ?_
      refine (yields_of_keeps (keeps_functionParams initFunc)).bind fun params m₄ g₄ _ => ?_
      refine (yields_coerceArgs _ fun arg member => (knownArgs arg member).mono g₄).bind
        fun coerced m₅ g₅ knownCoerced => ?_
      have knownObj := known.mono (g₂.trans (g₃.trans (g₄.trans g₅)))
      have called : YieldsValue m₅ (call initFunc (.value objPtr :: coerced)) := by
        apply yields_call (knownInit.mono (g₃.trans (g₄.trans g₅)))
        intro arg member
        rcases List.mem_cons.mp member with rfl | later
        · exact within_value.mpr knownObj
        · exact knownCoerced arg later
      exact called.bind fun _ _ g₆ _ => yields_value (knownObj.mono g₆)

private theorem yields_visitCall {args : Visit (List PyVal)} (yieldsCallee : YieldsVal least callee)
    (yieldsArgs : ∀ more, YieldsVals more args) : YieldsVal least (visitCall callee args) := by
  refine yieldsCallee.bind fun callee more _ known => ?_
  have plain (callee : PyVal) (known : callee.Within more) : YieldsVal more (do
      let args ← args
      let result ← call callee args
      pure (.value result)) :=
    (yieldsArgs more).bind fun args most grown knownArgs =>
      (yields_call (known.mono grown) knownArgs).toVal
  split
  · rename_i receiver method
    obtain ⟨withinReceiver, withinMethod⟩ := within_method.mp known
    refine (yieldsArgs more).bind fun args most grown knownArgs => ?_
    have called : YieldsValue most (call method (.value receiver :: args)) := by
      apply yields_call (withinMethod.mono grown)
      intro arg member
      rcases List.mem_cons.mp member with rfl | later
      · exact within_value.mpr (withinReceiver.mono grown)
      · exact knownArgs arg later
    exact called.toVal
  · exact yields_construct _ yieldsArgs
  · exact plain _ known

theorem keeps_referring (change : CompilerState → CompilerState)
    (same : ∀ state, (change state).module.code = state.module.code ∧
      state.module.sizes ≤ (change state).module.sizes ∧
      (change state).localScope = state.localScope ∧
      (change state).globalScope = state.globalScope) :
    Keeps (Referring least) (Comp.modify change : Visit Unit) := by
  apply Ensures.modify
  intro state before
  obtain ⟨code, more, locals, globals⟩ := same state
  exact before.update _ code more locals globals

private theorem keeps_appendBlockReferring (func : Nat) :
    Keeps (Referring least) (appendBlock func) := by
  refine (keeps_reads _).bind fun label => ?_
  have appended : Keeps (Referring least) (Comp.modify (·.appendBlock func) : Visit Unit) :=
    .modify fun state before => before.appendBlock func
  exact appended.bind fun _ => keeps_pure _

private theorem keeps_positionReferring (label : Label) :
    Keeps (Referring least) (positionAtEnd label) :=
  keeps_referring _ fun _ => ⟨rfl, le_refl _, rfl, rfl⟩

private theorem keeps_currentFunctionReferring : Keeps (Referring least) currentFunction :=
  (keeps_currentBlock.weaken fun _ _ after => after.2).bind fun _ => keeps_pure _

private theorem yields_branchUnlessTerminated (target : Label) :
    YieldsUnit least (branchUnlessTerminated target) := by
  refine (yields_of_keeps keeps_isTerminated).bind fun terminated more _ _ => ?_
  cases terminated with
  | true => exact yields_unit
  | false => exact yields_branch target

private theorem yields_visitIf {body : Visit Unit} {orelse : Option (Visit Unit)}
    (yieldsTest : ∀ more, YieldsVal more operand) (yieldsBody : ∀ more, YieldsUnit more body)
    (yieldsElse : ∀ branch, orelse = some branch → ∀ more, YieldsUnit more branch) :
    YieldsVal least (visitIf operand body orelse) := by
  have block (func : Nat) (more : TableSizes) := yields_of_keeps
    (@keeps_appendBlockReferring more func)
  have position (label : Label) (more : TableSizes) := yields_of_keeps
    (@keeps_positionReferring more label)
  refine (yields_of_keeps keeps_currentFunctionReferring).bind fun func _ _ _ => ?_
  refine (block func _).bind fun entryBlock _ _ _ => ?_
  refine (block func _).bind fun thenBlock _ _ _ => ?_
  cases orelse with
  | some orelse =>
      refine (block func _).bind fun elseBlock _ _ _ => ?_
      refine (block func _).bind fun mergeBlock _ _ _ => ?_
      refine (yields_branch _).bind fun _ _ _ _ => (position _ _).bind fun _ _ _ _ => ?_
      refine (yieldsTest _).bind fun condition more _ known => ?_
      refine (yields_cbranch known _ _).bind fun _ _ _ _ => (position _ _).bind fun _ _ _ _ => ?_
      refine (yieldsBody _).bind fun _ _ _ _ => ?_
      refine (yields_branchUnlessTerminated _).bind fun _ _ _ _ => ?_
      refine (position _ _).bind fun _ _ _ _ => (yieldsElse orelse rfl _).bind fun _ _ _ _ => ?_
      refine (yields_branchUnlessTerminated _).bind fun _ _ _ _ => ?_
      exact (position _ _).bind fun _ _ _ _ => yields_none
  | none =>
      refine (block func _).bind fun mergeBlock _ _ _ => ?_
      refine (yields_branch _).bind fun _ _ _ _ => (position _ _).bind fun _ _ _ _ => ?_
      refine (yieldsTest _).bind fun condition more _ known => ?_
      refine (yields_cbranch known _ _).bind fun _ _ _ _ => (position _ _).bind fun _ _ _ _ => ?_
      refine (yieldsBody _).bind fun _ _ _ _ => ?_
      refine (yields_branchUnlessTerminated _).bind fun _ _ _ _ => ?_
      exact (position _ _).bind fun _ _ _ _ => yields_none

private theorem yields_visitWhile {body : Visit Unit} (yieldsTest : ∀ more, YieldsVal more operand)
    (yieldsBody : ∀ more, YieldsUnit more body) : YieldsVal least (visitWhile operand body) := by
  have block (func : Nat) (more : TableSizes) := yields_of_keeps
    (@keeps_appendBlockReferring more func)
  have position (label : Label) (more : TableSizes) := yields_of_keeps
    (@keeps_positionReferring more label)
  refine (yields_of_keeps keeps_currentFunctionReferring).bind fun func _ _ _ => ?_
  refine (block func _).bind fun headerBlock _ _ _ => ?_
  refine (block func _).bind fun bodyBlock _ _ _ => ?_
  refine (block func _).bind fun exitBlock _ _ _ => ?_
  refine (yields_branch _).bind fun _ _ _ _ => (position _ _).bind fun _ _ _ _ => ?_
  refine (yieldsTest _).bind fun condition more _ known => ?_
  refine (yields_cbranch known _ _).bind fun _ _ _ _ => (position _ _).bind fun _ _ _ _ => ?_
  refine (yieldsBody _).bind fun _ _ _ _ => ?_
  refine (yields_branchUnlessTerminated _).bind fun _ _ _ _ => ?_
  exact (position _ _).bind fun _ _ _ _ => yields_none

private theorem yields_visitReturn (yields : YieldsVal least operand) :
    YieldsVal least (visitReturn (some operand)) :=
  yields.bind fun _ _ _ known => (yields_ret known).bind fun _ _ _ _ => yields_none

private theorem yields_setLocal {alloc : Value} (name : String)
    (within : alloc.operand.Within least) :
    YieldsUnit least (setLocal name alloc) :=
  .modify fun _ before => ⟨trivial, before.bindLocal name (within.mono before.least)⟩

private theorem keeps_typeReferring (node : Node) : Keeps (Referring least) (getType node) :=
  keeps_getType_of (fun _ _ before _ _ => before.update _ rfl (le_refl _) rfl rfl) node

private theorem yields_visitAnnAssign {value : Option (Visit PyVal)} (target annotation : Node)
    (yieldsValue : ∀ visit, value = some visit → ∀ more, YieldsVal more visit) :
    YieldsVal least (visitAnnAssign target annotation value) := by
  have named := (@keeps_targetName (Referring least) target).weaken fun _ _ after => after.2
  refine (yields_of_keeps named).bind fun varName _ _ _ => ?_
  refine (yields_of_keeps (keeps_typeReferring annotation)).bind fun varType _ _ _ => ?_
  refine (yields_alloca varType).bind fun varAlloc more _ known => ?_
  refine (yields_setLocal varName known).bind fun _ most grown _ => ?_
  cases value with
  | none => exact yields_none
  | some value =>
      dsimp only
      split
      · exact .fail _
      · refine (yieldsValue value rfl _).bind fun value last grown' within => ?_
        have withinPtr := within_value.mpr (known.mono (grown.trans grown'))
        exact (yields_store within withinPtr).bind fun _ _ _ _ => yields_none

private theorem yields_assignSubscript (yieldsTarget : YieldsVal least object)
    (yieldsSlice : ∀ more, YieldsVal more slice) (yieldsValue : ∀ more, YieldsVal more operand) :
    YieldsVal least (assignSubscript object slice operand) := by
  refine (yields_subscriptPtr yieldsTarget yieldsSlice).bind fun addr more _ known => ?_
  refine (yieldsValue more).bind fun value most grown within => ?_
  exact (yields_store within (within_value.mpr (known.mono grown))).bind
    fun _ _ _ _ => yields_none

private theorem yields_assignName (varName : String)
    (yieldsValue : ∀ more, YieldsVal more operand) :
    YieldsVal least (assignName varName operand) := by
  have readLocal : Yields (fun sizes found => ∀ alloc, found = some alloc →
      (Operand.Within sizes alloc.operand)) least
      (Comp.reads fun state => state.localScope varName : Visit (Option Value)) :=
    .reads fun state before => ⟨fun alloc bound => before.locals varName alloc bound, before⟩
  refine readLocal.bind fun found more _ known => ?_
  cases found with
  | none => exact .fail _
  | some varAlloc =>
      refine (yieldsValue more).bind fun value most grown within => ?_
      have withinPtr := within_value.mpr ((known varAlloc rfl).mono grown)
      exact (yields_store within withinPtr).bind fun _ _ _ _ => yields_none

end

private theorem yields_storeParams (index : Nat) (params : List (String × LType)) :
    YieldsUnit least (storeParams index params) := by
  induction params generalizing index least with
  | nil => exact yields_unit
  | cons param rest ih =>
      obtain ⟨name, type⟩ := param
      refine (yields_alloca type).bind fun argAlloc more _ known => ?_
      refine (yields_store (within_arg _ _) (within_value.mpr known)).bind
        fun _ most grown _ => ?_
      exact (yields_setLocal name (known.mono grown)).bind fun _ _ _ _ => ih (index + 1)

private theorem yields_closeFunction (returnType : LType) :
    YieldsUnit least (closeFunction returnType) := by
  refine (yields_of_keeps keeps_isTerminated).bind fun terminated more _ _ => ?_
  cases terminated with
  | true => exact yields_unit
  | false =>
      rw [if_neg Bool.false_ne_true]
      split
      · exact yields_terminate fun _ member => (List.not_mem_nil member).elim
      · exact yields_terminate fun _ member => (List.not_mem_nil member).elim

theorem Referring.clearLocals {state : CompilerState} (referring : Referring least state) :
    Referring least { state with localScope := .empty } :=
  referring.grow _ rfl (le_refl _) (fun _ _ bound => nomatch bound) referring.globals

theorem yields_visitFunctionDef {className : Option String} {name : String} {body : Visit Unit}
    (args : List (String × Option Node)) (returns : Option Node)
    (yieldsBody : ∀ more, YieldsUnit more body) :
    YieldsVal least (visitFunctionDef className name args returns body) := by
  have opened (more : TableSizes) :
      Keeps (Referring more) (openFunction className name args returns) := by
    refine ensures_openFunctionOf ?_ (@keeps_typeReferring more)
      (fun state ret params before _ => (before.define _ ret params).clearLocals)
      (fun params _ => (@yields_storeParams more 0 params).keeps) returns
    intro state before
    split
    · exact before.update _ rfl (le_refl _) rfl rfl
    · exact before
  refine (yields_of_keeps (keeps_reads _)).bind fun saved _ _ _ => ?_
  refine (yields_of_keeps (opened _)).bind fun returnType _ _ _ => ?_
  refine (yieldsBody _).bind fun _ _ _ _ => ?_
  refine (yields_closeFunction returnType).bind fun _ more _ _ => ?_
  have restored : Keeps (Referring more)
      (Comp.modify fun state => { state with currentArena := saved } : Visit Unit) :=
    keeps_referring _ fun _ => ⟨rfl, le_refl _, rfl, rfl⟩
  exact (yields_of_keeps restored).bind fun _ _ _ _ => yields_none

private theorem yields_storeFields {selfPtr : Value} (within : selfPtr.operand.Within least)
    (arg : Nat)
    (fields : List LayoutField) : YieldsUnit least (storeFields selfPtr arg fields) := by
  induction fields generalizing arg least with
  | nil => exact yields_unit
  | cons field rest ih =>
      refine (yields_fieldPtr (within_value.mpr within) field.index).bind fun ptr _ g₁ known => ?_
      refine (yields_store (within_arg _ _) (within_value.mpr known)).bind
        fun _ _ g₂ _ => ?_
      exact ih (within.mono (g₁.trans g₂)) (arg + 1)

private theorem yields_generateAutoInit (className : String) (layout : Layout) :
    YieldsUnit least (generateAutoInit className layout) := by
  refine (yields_of_keeps (keeps_reads _)).bind fun saved more _ _ => ?_
  have begun (ret : LType) (params : List LType) (next : Visit Unit)
      (yieldsNext : ∀ later, YieldsUnit later next) : YieldsUnit more (do
        let func ← beginFunction s!"{className}___init__" ret params
        setGlobal s!"{className}___init__" (.value func)
        next) := by
    intro state value state' before run
    obtain ⟨func, _, begun, rest⟩ := bind_ok_iff.mp run
    obtain ⟨-, rfl, rfl⟩ := beginFunction_ok_iff.mp begun
    obtain ⟨_, _, named, finished⟩ := bind_ok_iff.mp rest
    obtain rfl := modify_ok_iff.mp named
    exact yieldsNext more _ _ _ (before.define _ ret params) finished
  apply begun
  intro later
  refine (yields_alloca _).bind fun selfAlloc m₁ _ known => ?_
  refine (yields_store (within_arg _ _) (within_value.mpr known)).bind fun _ m₂ g₂ _ => ?_
  refine (yields_load (within_value.mpr (known.mono g₂))).bind fun selfPtr m₃ _ knownSelf => ?_
  cases layout.lookup "__ref_count__" with
  | none => exact .fail _
  | some field =>
      refine (yields_storeField knownSelf (within_int _ _) field.index).bind fun _ m₄ g₄ _ => ?_
      refine (yields_storeFields (knownSelf.mono g₄) 1 _).bind fun _ m₅ _ _ => ?_
      refine (yields_terminate fun _ member => (List.not_mem_nil member).elim).bind
        fun _ m₆ _ _ => ?_
      exact yields_of_keeps (keeps_referring _ fun _ => ⟨rfl, le_refl _, rfl, rfl⟩)

private theorem keeps_declareClassReferring (className : String) (body : List Node) :
    Keeps (Referring least) (declareClass className body) := by
  have declared := @ensures_declareClass _ _ _ className body (@keeps_typeReferring least)
    (fun _ _ before => before.update _ rfl (le_refl _) rfl rfl)
    (fun _ layout before => before.update _ rfl (le_refl _) rfl rfl)
    (fun layout => (@yields_generateAutoInit least className layout).keeps)
  refine declared.weaken fun _ state after => ?_
  have settled := after.2
  split at settled
  · exact settled
  · exact settled

private theorem yields_visitImportFrom (module : Option String)
    (names : List (String × Option String)) :
    YieldsVal least (visitImportFrom module names) := by
  have imported := keeps_importFrom
    (fun (state : CompilerState) func (before : Referring least state) _ _ =>
      before.declareNamed func func.name) module names
  refine imported.weaken fun val _ after => ⟨?_, after.2⟩
  rw [after.1.2]
  exact within_none

mutual

theorem yields_visit (node : Node) (least : TableSizes) : YieldsVal least (visit node) := by
  match node with
  | .name id => exact yields_visitName id
  | .constant literal => exact yields_visitConstant literal
  | .binOp left op right =>
      exact yields_visitBinOp op (yields_visit left least) (yields_visit right)
  | .unaryOp op operand => exact yields_visitUnaryOp op (yields_visit operand least)
  | .compare left [(op, comparator)] =>
      exact yields_visitCompare op (yields_visit left least) (yields_visit comparator)
  | .compare left [] => exact yields_visitChain (yields_visit left least)
  | .compare left (_ :: _ :: _) => exact yields_visitChain (yields_visit left least)
  | .call callee args _ => exact yields_visitCall (yields_visit callee least) (yields_visitArgs args)
  | .attribute object attr => exact yields_visitAttribute attr (yields_visit object least)
  | .subscript object slice =>
      exact yields_visitSubscript (yields_visit object least) (yields_visit slice)
  | .sliced object bounds =>
      exact yields_visitSubscript (yields_visit object least) fun more =>
        (yields_visitBody bounds more).bind fun _ _ _ _ => yields_none
  | .return_ (some result) => exact yields_visitReturn (yields_visit result least)
  | .return_ none =>
      exact (yields_terminate fun _ member => (List.not_mem_nil member).elim).bind
        fun _ _ _ _ => yields_none
  | .assign target _ assigned =>
      cases target with
      | subscript object slice =>
          exact yields_assignSubscript (yields_visit object least) (yields_visit slice)
            (yields_visit assigned)
      | sliced object bounds =>
          refine yields_assignSubscript (yields_visit object least) (fun more => ?_)
            (yields_visit assigned)
          exact (yields_visitBody bounds more).bind fun _ _ _ _ => yields_none
      | name id => exact yields_assignName id (yields_visit assigned)
      | _ => exact .fail _
  | .annAssign target annotation (some initial) =>
      refine yields_visitAnnAssign target annotation fun visit isInitial more => ?_
      cases isInitial
      exact yields_visit initial more
  | .annAssign target annotation none =>
      exact yields_visitAnnAssign target annotation fun _ isNone => nomatch isNone
  | .ifStmt test body [] =>
      exact yields_visitIf (yields_visit test) (yields_visitBody body) fun _ isNone => nomatch isNone
  | .ifStmt test body (stmt :: orelse) =>
      refine yields_visitIf (yields_visit test) (yields_visitBody body) fun visit isElse more => ?_
      cases isElse
      exact yields_visitBody (stmt :: orelse) more
  | .whileStmt test body _ => exact yields_visitWhile (yields_visit test) (yields_visitBody body)
  | .expr inner => exact (yields_visit inner least).bind fun _ _ _ _ => yields_none
  | .pass => exact yields_none
  | .functionDef name args returns body _ =>
      exact yields_visitFunctionDef args returns (yields_visitBody body)
  | .classDef className body _ =>
      refine (yields_of_keeps (keeps_declareClassReferring className body)).bind
        fun _ more _ _ => ?_
      exact (yields_methods className body more).bind fun _ _ _ _ => yields_none
  | .importFrom module names _ => exact yields_visitImportFrom module names
  | .other kind children =>
      exact (yields_visitBody children least).bind fun _ _ _ _ => yields_none

theorem yields_visitBody (body : List Node) (least : TableSizes) :
    YieldsUnit least (visitBody body) := by
  match body with
  | [] => exact yields_unit
  | stmt :: rest =>
      exact (yields_visit stmt least).bind fun _ more _ _ => yields_visitBody rest more

private theorem yields_visitArgs (args : List Node) (least : TableSizes) :
    YieldsVals least (visitArgs args) := by
  match args with
  | [] => exact yields_nil
  | arg :: rest =>
      refine (yields_visit arg least).bind fun val more _ known => ?_
      refine (yields_visitArgs rest more).bind fun vals most grown knownRest => ?_
      exact yields_cons (known.mono grown) knownRest

private theorem yields_methods (className : String) (body : List Node) (least : TableSizes) :
    YieldsUnit least (visitMethods className body) := by
  match body with
  | [] => exact yields_unit
  | .functionDef name args returns body _ :: rest =>
      refine (yields_visitFunctionDef args returns (yields_visitBody body)).bind
        fun _ more _ _ => ?_
      exact yields_methods className rest more
  | .name _ :: rest | .constant _ :: rest | .binOp .. :: rest | .unaryOp .. :: rest
  | .compare .. :: rest | .call .. :: rest | .attribute .. :: rest | .subscript .. :: rest
  | .sliced .. :: rest | .return_ _ :: rest | .assign .. :: rest | .annAssign .. :: rest
  | .ifStmt .. :: rest | .whileStmt .. :: rest | .expr _ :: rest | .pass :: rest
  | .classDef .. :: rest | .importFrom .. :: rest | .other .. :: rest =>
      exact yields_methods className rest least

end

end Lambpie.Compiler

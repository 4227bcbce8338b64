/-
The survey follows the visitors.

For each visitor whose children are followed the survey of the same construct
succeeds where the visitor does, with the kind of the value that it returns.
-/
import Lambpie.Compiler.SurveySteps

namespace Lambpie.Compiler

open Foundations
open Foundations.Comp

private theorem follows_intConstant {operand : Operand}
    (plain : ∀ type, Value.kind { type, operand } = .value type) :
    Follows PyVal.kind
      (do
        let type ← lookup (·.types) "int"
        let const ← constant type operand
        pure (.value const))
      (do
        let type ← find (·.types) "int"
        surveyConst type) :=
  (follows_type "int").bind fun type =>
    (follows_constant (plain type)).result fun _ => rfl

private theorem follows_text (name : Nat → String) (length : Nat) (bytes : List UInt8)
    (isConstant : Bool) :
    Follows PyVal.kind
      (do
        let counter ← nextName
        let ptr ← addGlobal (name counter) length bytes isConstant
        pure (.value ptr))
      (surveyText name) :=
  follows_nextName.bind fun counter =>
    (follows_addGlobal (name counter) length bytes isConstant).result fun _ => rfl

theorem follows_literal (literal : Literal) :
    Follows PyVal.kind (visitConstant literal) (surveyConstant literal) := by
  cases literal with
  | int number => exact follows_intConstant fun _ => rfl
  | bool bit => exact follows_intConstant fun _ => rfl
  | str text => exact follows_text (fun counter => s!".str.{counter}") _ _ _
  | bytes data => exact follows_text (fun counter => s!".bytes.{counter}") _ _ _
  | _ => exact .pure rfl

theorem follows_name (id : String) :
    Follows PyVal.kind (visitName id) (surveyName id) := by
  refine (follows_local id).bind fun slot => ?_
  cases slot with
  | some slot =>
      have loaded : Follows PyVal.kind
          (do
            let loaded ← load (.value slot)
            pure (.value loaded)) (surveyLoad slot.kind) :=
        (follows_load (.value slot)).result fun _ => rfl
      dsimp only [Option.map_some]
      rw [Value.held_kind]
      cases slot.type with
      | ptr pointee =>
          cases pointee with
          | array elem count => exact .pure rfl
          | _ => exact loaded
      | _ => exact loaded
  | none =>
      refine (follows_global id).bind fun global => ?_
      cases global with
      | some global => exact .pure rfl
      | none =>
          refine (follows_types id).bind fun type => ?_
          cases type with
          | some type => exact .pure rfl
          | none => exact .fail _

theorem follows_binOp {left right : Visit PyVal} {surveyLeft surveyRight : Check Kind}
    (op : BinaryOp) (followsLeft : Follows PyVal.kind left surveyLeft)
    (followsRight : Follows PyVal.kind right surveyRight) :
    Follows PyVal.kind (visitBinOp left op right)
      (surveyBinOp surveyLeft op surveyRight) := by
  refine followsLeft.bind fun lhs => followsRight.bind fun rhs => ?_
  cases binOpcode op with
  | some opcode => exact (follows_binop opcode lhs rhs).result fun _ => rfl
  | none => exact .fail _

theorem follows_unaryOp {operand : Visit PyVal} {surveyOperand : Check Kind}
    (op : UnaryOp) (follows : Follows PyVal.kind operand surveyOperand) :
    Follows PyVal.kind (visitUnaryOp op operand) (surveyUnaryOp op surveyOperand) := by
  refine follows.bind fun operand => ?_
  cases op with
  | invert =>
      refine .ofValue fun value _ => ?_
      refine (follows_constant rfl).bind fun allOnes => ?_
      exact (follows_binop .xor operand (.value allOnes)).result fun _ => rfl
  | uSub =>
      refine .ofValue fun value _ => ?_
      refine (follows_constant rfl).bind fun zero => ?_
      exact (follows_binop .sub (.value zero) operand).result fun _ => rfl
  | uAdd => exact .pure rfl
  | not => exact .fail _

theorem follows_compare {left right : Visit PyVal}
    {surveyLeft surveyRight : Check Kind} (op : CompareOp)
    (followsLeft : Follows PyVal.kind left surveyLeft)
    (followsRight : Follows PyVal.kind right surveyRight) :
    Follows PyVal.kind (visitCompare left (some (op, right)))
      (surveyCompare surveyLeft op surveyRight) := by
  refine followsLeft.bind fun lhs => followsRight.bind fun rhs => ?_
  cases comparePredicate op with
  | some predicate => exact (follows_icmpSigned predicate lhs rhs).result fun _ => rfl
  | none => exact .fail _

private theorem follows_structName (value : Value) :
    Follows id (structName value) (found (pointedStruct value.type)) := by
  unfold structName pointee
  cases value.type with
  | ptr pointee =>
      cases pointee with
      | struct name => exact .pure rfl
      | _ => exact .fail _
  | _ => exact .fail _

theorem follows_attribute {object : Visit PyVal} {surveyObject : Check Kind}
    (attr : String) (follows : Follows PyVal.kind object surveyObject) :
    Follows PyVal.kind (visitAttribute object attr)
      (surveyAttribute surveyObject attr) := by
  refine follows.bind fun object => .ofValue fun objPtr isValue => ?_
  subst isValue
  refine (follows_structName objPtr).bind fun name => ?_
  refine (follows_global _).bind fun method => ?_
  cases method with
  | some method => exact .pure rfl
  | none =>
      refine (follows_layouts name).bind fun layout => ?_
      dsimp only [id]
      cases layout.bind fun layout => layout.lookup attr with
      | some field =>
          refine (follows_fieldPtr (.value objPtr) field.index).bind fun ptr => ?_
          exact (follows_load (.value ptr)).result fun _ => rfl
      | none => exact .fail _

private theorem follows_subscriptPtr {object slice : Visit PyVal}
    {surveyObject surveySlice : Check Kind}
    (followsObject : Follows PyVal.kind object surveyObject)
    (followsSlice : Follows PyVal.kind slice surveySlice) :
    Follows Value.kind (subscriptPtr object slice)
      (surveySubscriptPtr surveyObject surveySlice) := by
  refine followsObject.bind fun ptr => followsSlice.bind fun idx => ?_
  refine .ofValue fun value isValue => ?_
  subst isValue
  cases isPtr : value.type with
  | ptr pointee =>
      cases pointee with
      | array elem count => exact follows_elementOf isPtr idx
      | _ => exact follows_offset (.value value) idx
  | _ => exact follows_offset (.value value) idx

theorem follows_subscript {object slice : Visit PyVal}
    {surveyObject surveySlice : Check Kind}
    (followsObject : Follows PyVal.kind object surveyObject)
    (followsSlice : Follows PyVal.kind slice surveySlice) :
    Follows PyVal.kind (visitSubscript object slice)
      (surveySubscript surveyObject surveySlice) :=
  (follows_subscriptPtr followsObject followsSlice).bind fun addr =>
    (follows_load (.value addr)).result fun _ => rfl

theorem follows_allocStruct (ptrType sizeType : LType) (tag : ArenaTag) :
    Follows Value.kind (allocStruct ptrType sizeType tag)
      (surveyAlloc ptrType sizeType) := by
  refine (follows_constant rfl).bind fun nullPtr => ?_
  refine (follows_offset (.value nullPtr) (.value (i32Const 1))).bind fun sizePtr => ?_
  refine (follows_ptrtoint sizePtr sizeType).bind fun size => ?_
  refine (follows_function "lambpie_arena_alloc").bind fun arenaAlloc => ?_
  refine (follows_call arenaAlloc [.value (i32Const tag.code), .value size]).bind
    fun raw => ?_
  exact follows_bitcast raw ptrType

theorem follows_layoutIndex (layout : Layout) (name : String) :
    Follows id (layoutIndex layout name) (fieldIndex layout name) := by
  unfold layoutIndex fieldIndex
  cases layout.lookup name with
  | some field => exact .pure rfl
  | none => exact .fail _

theorem follows_arena :
    Follows (fun _ => PUnit.unit) (Comp.reads (·.currentArena) : Visit _) (pure .unit) :=
  follows_looking _

private theorem follows_wrapCstrToStr (i8Ptr : Value) :
    Follows Value.kind (wrapCstrToStr i8Ptr) (surveyWrap i8Ptr.kind) := by
  refine (follows_type "str").bind fun strPtrType => ?_
  refine (follows_type "int").bind fun sizeType => ?_
  refine follows_arena.before fun tag => ?_
  refine (follows_allocStruct strPtrType sizeType tag).bind fun strPtr => ?_
  refine (follows_layout "str").bind fun layout => ?_
  refine (follows_layoutIndex layout "__ref_count__").bind fun refIdx => ?_
  refine (follows_storeField strPtr refIdx (.value (i32Const 1))).bind fun _ => ?_
  refine (follows_function "strlen").bind fun strlenFn => ?_
  refine (follows_call strlenFn [.value i8Ptr]).bind fun length => ?_
  refine (follows_layoutIndex layout "len").bind fun lenIdx => ?_
  refine (follows_storeField strPtr lenIdx (.value length)).bind fun _ => ?_
  refine (follows_layoutIndex layout "buffer").bind fun bufIdx => ?_
  refine (follows_storeField strPtr bufIdx (.value i8Ptr)).bind fun _ => ?_
  exact .pure rfl

private theorem follows_coerceArg (arg : PyVal) (expected : LType) :
    Follows PyVal.kind (coerceArg arg expected) (surveyCoerce arg.kind expected) := by
  unfold coerceArg surveyCoerce
  split
  · refine .ofValue fun value isValue => ?_
    subst isValue
    split
    · exact (follows_wrapCstrToStr value).result fun _ => rfl
    · exact .pure rfl
  · exact .pure rfl

private theorem follows_coerceArgs (args : List PyVal) (types : List LType) :
    Follows (List.map PyVal.kind) (coerceArgs args types)
      (surveyCoerceAll (args.map PyVal.kind) types) := by
  induction args generalizing types with
  | nil => exact .pure rfl
  | cons arg args ih =>
      cases types with
      | nil => exact .fail _
      | cons expected rest =>
          refine (follows_coerceArg arg expected).bind fun coerced => ?_
          exact (ih rest).bind fun others => .pure rfl

private theorem follows_functionParams (callee : PyVal) :
    Follows id (functionParams callee) (paramKinds callee.kind) := by
  refine .ofValue fun value _ => ?_
  unfold pointee
  cases value.type with
  | ptr pointee =>
      cases pointee with
      | function ret params varArg => exact .pure rfl
      | _ => exact .fail _
  | _ => exact .fail _

private theorem follows_construct {args : Visit (List PyVal)} {surveyArgs : Check (List Kind)}
    (followsArgs : Follows (List.map PyVal.kind) args surveyArgs) (name : String) :
    Follows PyVal.kind (construct name args) (surveyConstruct name surveyArgs) := by
  refine (follows_type "int").bind fun sizeType => ?_
  refine follows_arena.before fun tag => ?_
  refine (follows_allocStruct (.ptr (.struct name)) sizeType tag).bind fun objPtr => ?_
  refine (follows_global _).bind fun init => ?_
  cases init with
  | none => exact .pure rfl
  | some initFunc =>
      refine followsArgs.bind fun rawArgs => ?_
      refine (follows_functionParams initFunc).bind fun params => ?_
      refine (follows_coerceArgs rawArgs (params.drop 1)).bind fun coerced => ?_
      exact (follows_call initFunc (.value objPtr :: coerced)).bind fun _ => .pure rfl

private theorem follows_callWith {args : Visit (List PyVal)} {surveyArgs : Check (List Kind)}
    (followsArgs : Follows (List.map PyVal.kind) args surveyArgs) (callee : PyVal)
    (front : List PyVal) :
    Follows PyVal.kind
      (do
        let args ← args
        let result ← call callee (front ++ args)
        pure (.value result))
      (do
        let args ← surveyArgs
        surveyCallee callee.kind (front.map PyVal.kind ++ args)) := by
  refine followsArgs.bind fun args => ?_
  rw [← List.map_append]
  exact (follows_call callee (front ++ args)).result fun _ => rfl

theorem follows_visitCall {callee : Visit PyVal} {args : Visit (List PyVal)}
    {surveyFunc : Check Kind} {surveyArgs : Check (List Kind)}
    (followsCallee : Follows PyVal.kind callee surveyFunc)
    (followsArgs : Follows (List.map PyVal.kind) args surveyArgs) :
    Follows PyVal.kind (visitCall callee args) (surveyCall surveyFunc surveyArgs) := by
  refine followsCallee.bind fun callee => ?_
  cases callee with
  | method receiver method =>
      exact follows_callWith followsArgs method [.value receiver]
  | none => exact follows_callWith followsArgs .none []
  | value value =>
      have called := follows_callWith followsArgs (.value value) []
      unfold PyVal.kind Value.kind at called ⊢
      split at called <;> exact called
  | type type =>
      have other := follows_callWith followsArgs (.type type) []
      cases type with
      | ptr pointee =>
          cases pointee with
          | struct name => exact follows_construct followsArgs name
          | _ => exact other
      | _ => exact other

section

variable {pending : List LiveBlock}

theorem tracks_none {pre : CompilerState → Survey → Prop}
    (agree : ∀ state survey, pre state survey → Agrees pending state survey) :
    Tracks pre (pure .none : Visit PyVal) (pure .none : Check Kind)
      fun result answer state survey =>
        result.kind = answer ∧ Agrees pending state survey :=
  .pure fun state survey before => ⟨rfl, agree state survey before⟩

private theorem tracks_branch (target : Label) :
    Tracks (Agrees pending) (branch target) (closeWith fun _ => true)
      fun _ _ => Ended pending :=
  tracks_terminate rfl fun _ => rfl

private theorem tracks_cbranch {condition : PyVal} {kind : Kind}
    (isKind : condition.kind = kind) (thenTarget elseTarget : Label) :
    Tracks (Agrees pending) (cbranch condition thenTarget elseTarget)
      (closeWith fun _ => kind.isTest) fun _ _ => Ended pending :=
  tracks_terminate rfl fun _ => by rw [← isKind]; rfl

private theorem tracks_branchUnless (target : Label) :
    Tracks (Agrees pending) (branchUnlessTerminated target)
      (closeIfOpen fun _ => true) fun _ _ => Ended pending :=
  tracks_terminateUnless rfl fun _ => rfl

private theorem surveyArm_then {α : Type} (ret : LType) (body : Check Unit)
    (next : Unit → Check α) :
    (surveyArm ret body >>= next) = (do
      stand ret
      body
      closeIfOpen fun _ => true
      next ()) := by
  unfold surveyArm
  simp only [then_assoc]

/-- New blocks are continued in the order in which they were added. -/
theorem tracks_inOrder (fresh : List LiveBlock) {func : Nat} {ret : LType}
    {α γ : Type} {left : Visit α} {right : Check γ}
    {post : α → γ → CompilerState → Survey → Prop}
    (tracks : Tracks (Agrees (fresh ++ pending)) left right post) :
    Tracks (fun state survey => state.module.rets[func]? = some ret ∧
      Agrees (fresh.reverse ++ pending) state survey) left right post :=
  tracks.strengthen fun _ _ before =>
    before.2.perm ((List.reverse_perm fresh).append_right pending)

section

variable {test : Visit PyVal} {body orelse : Visit Unit} {surveyTest : Check Kind}
  {checkBody checkElse : Check Unit} (followsTest : Follows PyVal.kind test surveyTest)
  (followsBody : Follows id body checkBody)

include followsTest followsBody

theorem follows_if :
    Follows PyVal.kind (visitIf test body none) (surveyIf surveyTest checkBody none) := by
  intro pending
  refine tracks_currentFunction.bind fun func ret => ?_
  refine .before tracks_appendBlock fun entryBlock => ?_
  refine .before tracks_appendBlock fun thenBlock => ?_
  refine .before tracks_appendBlock fun mergeBlock => ?_
  refine tracks_inOrder [(entryBlock, ret), (thenBlock, ret), (mergeBlock, ret)] ?_
  refine (tracks_branch entryBlock).bind fun _ _ => ?_
  refine tracks_positionAtEnd.bind fun _ _ => ?_
  refine (followsTest _).bind fun condition kind => .assume fun isKind => ?_
  refine (tracks_cbranch isKind _ _).bind fun _ _ => ?_
  rw [surveyArm_then, surveyElse, pure_then]
  refine tracks_positionAtEnd.bind fun _ _ => ?_
  refine (followsBody _).bind fun _ _ => .assume fun _ => ?_
  refine (tracks_branchUnless mergeBlock).bind fun _ _ => ?_
  refine tracks_positionAtEnd.bind fun _ _ => ?_
  exact tracks_none fun _ _ agrees => agrees

theorem follows_ifElse (followsElse : Follows id orelse checkElse) :
    Follows PyVal.kind (visitIf test body (some orelse))
      (surveyIf surveyTest checkBody (some checkElse)) := by
  intro pending
  refine tracks_currentFunction.bind fun func ret => ?_
  refine .before tracks_appendBlock fun entryBlock => ?_
  refine .before tracks_appendBlock fun thenBlock => ?_
  refine .before tracks_appendBlock fun elseBlock => ?_
  refine .before tracks_appendBlock fun mergeBlock => ?_
  refine tracks_inOrder [(entryBlock, ret), (thenBlock, ret), (elseBlock, ret),
    (mergeBlock, ret)] ?_
  refine (tracks_branch entryBlock).bind fun _ _ => ?_
  refine tracks_positionAtEnd.bind fun _ _ => ?_
  refine (followsTest _).bind fun condition kind => .assume fun isKind => ?_
  refine (tracks_cbranch isKind _ _).bind fun _ _ => ?_
  rw [surveyArm_then, surveyElse, surveyArm_then]
  refine tracks_positionAtEnd.bind fun _ _ => ?_
  refine (followsBody _).bind fun _ _ => .assume fun _ => ?_
  refine (tracks_branchUnless mergeBlock).bind fun _ _ => ?_
  refine tracks_positionAtEnd.bind fun _ _ => ?_
  refine (followsElse _).bind fun _ _ => .assume fun _ => ?_
  refine (tracks_branchUnless mergeBlock).bind fun _ _ => ?_
  refine tracks_positionAtEnd.bind fun _ _ => ?_
  exact tracks_none fun _ _ agrees => agrees

theorem follows_while :
    Follows PyVal.kind (visitWhile test body) (surveyWhile surveyTest checkBody) := by
  intro pending
  refine tracks_currentFunction.bind fun func ret => ?_
  refine .before tracks_appendBlock fun headerBlock => ?_
  refine .before tracks_appendBlock fun bodyBlock => ?_
  refine .before tracks_appendBlock fun exitBlock => ?_
  refine tracks_inOrder [(headerBlock, ret), (bodyBlock, ret), (exitBlock, ret)] ?_
  refine (tracks_branch headerBlock).bind fun _ _ => ?_
  refine tracks_positionAtEnd.bind fun _ _ => ?_
  refine (followsTest _).bind fun condition kind => .assume fun isKind => ?_
  refine (tracks_cbranch isKind _ _).bind fun _ _ => ?_
  rw [surveyArm_then]
  refine tracks_positionAtEnd.bind fun _ _ => ?_
  refine (followsBody _).bind fun _ _ => .assume fun _ => ?_
  refine (tracks_branchUnless headerBlock).bind fun _ _ => ?_
  refine tracks_positionAtEnd.bind fun _ _ => ?_
  exact tracks_none fun _ _ agrees => agrees

end

theorem follows_return {result : Visit PyVal} {surveyResult : Check Kind}
    (follows : Follows PyVal.kind result surveyResult) :
    Follows PyVal.kind (visitReturn (some result)) (surveyReturn (some surveyResult)) := by
  intro pending
  refine (follows pending).bind fun result kind => .assume fun isKind => ?_
  subst isKind
  have returned : Tracks (Agrees pending) (ret result)
      (closeWith result.kind.fitsReturn) fun _ _ => Ended pending :=
    tracks_terminate rfl fun _ => rfl
  exact returned.bind fun _ _ => tracks_none fun _ _ => Ended.agrees

theorem follows_returnNone : Follows PyVal.kind (visitReturn none) (surveyReturn none) := by
  intro pending
  have returned : Tracks (Agrees pending) retVoid (closeWith (· = .void))
      fun _ _ => Ended pending :=
    tracks_terminate rfl fun _ => rfl
  exact returned.bind fun _ _ => tracks_none fun _ _ => Ended.agrees

end

theorem follows_targetName (target : Node) :
    Follows id (targetName target) (surveyTarget target) := by
  cases target with
  | name id => exact .pure rfl
  | _ => exact .fail _

private theorem follows_namedType (name : String) :
    Follows id (namedType name) (annotated (.name name)) := by
  intro pending state survey agrees
  unfold namedType annotated annotationType
  rw [reads_then, reads_then]
  split
  · exact follows_type "__ptr__" pending state survey agrees
  · rw [agrees.types]
    cases named : survey.types name with
    | some type => exact .both ⟨rfl, agrees⟩
    | none =>
        -- a class with a layout has its type
        dsimp only
        rw [reads_then]
        cases laidOut : state.classLayouts name with
        | none => exact .neither
        | some layout =>
            have isSome := agrees.registered name (by rw [laidOut]; rfl)
            rw [agrees.types, named] at isSome
            cases isSome

private theorem annotated_none {node : Node} (none : ∀ types, annotationType types node = .none) :
    annotated node = Comp.fail () := by
  funext survey
  unfold annotated
  rw [reads_then, none]
  rfl

private theorem annotated_ptr (slice : Node) :
    annotated (.subscript (.name "ptr") slice) =
      (do
        let inner ← annotated slice
        found (pointerTo inner)) := by
  funext survey
  unfold annotated
  rw [then_assoc, reads_then, reads_then, annotationType]
  cases annotationType survey.types slice <;> rfl

private theorem annotated_array (elem count : Node) :
    annotated (.subscript (.name "array") (.other .tuple [elem, count])) =
      (do
        let elemType ← annotated elem
        match countLiteral count with
        | some count => pure (.array elemType count)
        | none => Comp.fail ()) := by
  funext survey
  unfold annotated
  rw [then_assoc, reads_then, reads_then, annotationType]
  cases annotationType survey.types elem with
  | none => rfl
  | some elemType => cases countLiteral count <;> rfl

theorem follows_getType (node : Node) : Follows id (getType node) (annotated node) := by
  fun_induction getType node with
  | case1 name => exact follows_namedType name
  | case2 => exact follows_type "None"
  | case3 slice ih =>
      rw [annotated_ptr]
      exact ih.bind fun inner => follows_asPointer inner
  | case4 elem count ih =>
      rw [annotated_array]
      refine ih.bind fun elemType => ?_
      cases countLiteral count with
      | some number => exact .pure rfl
      | none => exact .fail _
  | _ =>
      rw [annotated_none]
      · exact .fail _
      · intro types
        simp_all [annotationType]

theorem follows_getType? (node : Option Node) :
    Follows id (getType? node) (annotated? node) := by
  cases node with
  | some node => exact follows_getType node
  | none => exact .fail _

private theorem follows_declared {target annotation : Node} {follow : LType → Kind → Check Kind}
    {next : String → LType → Value → Visit PyVal}
    (follows : ∀ name type alloc,
      Follows PyVal.kind (next name type alloc) (follow type alloc.kind)) :
    Follows PyVal.kind
      (do
        let varName ← targetName target
        let varType ← getType annotation
        let varAlloc ← alloca varType
        setLocal varName varAlloc
        next varName varType varAlloc)
      (do
        let varName ← surveyTarget target
        let varType ← annotated annotation
        let slot ← surveyAddress varType
        surveyLocal varName slot
        follow varType slot) := by
  refine (follows_targetName target).bind fun varName => ?_
  refine (follows_getType annotation).bind fun varType => ?_
  refine (follows_alloca varType).bind fun varAlloc => ?_
  exact (follows_setLocal varName varAlloc).bind fun _ => follows varName varType varAlloc

theorem follows_declaration (target annotation : Node) :
    Follows PyVal.kind (visitAnnAssign target annotation none)
      (surveyAnnAssign target annotation none) :=
  follows_declared fun _ _ _ => .pure rfl

private theorem follows_assigned {value : Visit PyVal} {surveyValue : Check Kind}
    (follows : Follows PyVal.kind value surveyValue) (ptr : PyVal) :
    Follows PyVal.kind
      (do
        let value ← value
        store value ptr
        pure .none)
      (do
        let value ← surveyValue
        surveyStore value ptr.kind
        pure .none) :=
  follows.bind fun val => (follows_store val ptr).bind fun _ => .pure rfl

theorem follows_annAssign {value : Visit PyVal} {surveyValue : Check Kind}
    (target annotation : Node) (follows : Follows PyVal.kind value surveyValue) :
    Follows PyVal.kind (visitAnnAssign target annotation (some value))
      (surveyAnnAssign target annotation (some surveyValue)) := by
  refine follows_declared fun name type alloc => ?_
  dsimp only
  cases isArrayType type with
  | true => exact .fail _
  | false => exact follows_assigned follows (.value alloc)

theorem follows_assignSubscript {target slice value : Visit PyVal}
    {surveyObject surveySlice surveyValue : Check Kind}
    (followsTarget : Follows PyVal.kind target surveyObject)
    (followsSlice : Follows PyVal.kind slice surveySlice)
    (follows : Follows PyVal.kind value surveyValue) :
    Follows PyVal.kind (assignSubscript target slice value)
      (surveyAssignSubscript surveyObject surveySlice surveyValue) :=
  (follows_subscriptPtr followsTarget followsSlice).bind fun addr =>
    follows_assigned follows (.value addr)

theorem follows_assignName {value : Visit PyVal} {surveyValue : Check Kind}
    (varName : String) (follows : Follows PyVal.kind value surveyValue) :
    Follows PyVal.kind (assignName varName value)
      (surveyAssignName varName surveyValue) := by
  refine (follows_local varName).bind fun slot => ?_
  cases slot with
  | none => exact .fail _
  | some slot => exact follows_assigned follows (.value slot)

theorem follows_generic {children : Visit Unit} {surveyChildren : Check Unit}
    (follows : Follows id children surveyChildren) :
    Follows PyVal.kind (visitNone children) (surveyNone surveyChildren) :=
  follows.bind fun _ => .pure rfl

end Lambpie.Compiler

/-
The survey agrees with the builder, step by step.

An instruction, a call, a terminator and a new block of the survey beside those
of the builder.
-/
import Lambpie.Compiler.SurveyAgrees

namespace Lambpie.Compiler

open Foundations
open Foundations.Comp

private theorem Standing.somewhere {pending : List LiveBlock} {rets : List LType}
    {blockCount : Nat} {code : List Emitted} {tidy typed : Bool}
    {builder : Option Label} {place : Option Place}
    (stands : Standing pending rets blockCount code tidy typed builder place) :
    (builder = none ∧ place = none) ∨
      ∃ label at_, builder = some label ∧ place = some at_ := by
  cases stands with
  | nowhere => exact .inl ⟨rfl, rfl⟩
  | ended => exact .inr ⟨_, _, rfl, rfl⟩
  | continued => exact .inr ⟨_, _, rfl, rfl⟩

private theorem tracks_emit {pending : List LiveBlock} {instr : Instr}
    (inBlock : instr.isTerminator = false) (type : LType) :
    Tracks (Agrees pending) (emit instr type) emitted fun result _ state survey =>
      result.kind = .value type ∧ Agrees pending state survey := by
  intro state survey agrees
  unfold emitted
  obtain ⟨nowhere, noPlace⟩ | ⟨label, place, standing, isPlace⟩ := agrees.2.somewhere
  · unfold emit currentBlock
    rw [then_assoc, reads_then, reads_then, nowhere, noPlace]
    exact .neither
  · have written : emit instr type state = .ok (_, _) :=
      emit_ok_iff.mpr ⟨label, standing, rfl, rfl⟩
    rw [written, reads_then, isPlace]
    exact .both ⟨rfl, agrees.append standing inBlock⟩

private theorem follows_emit {instr : Instr} (inBlock : instr.isTerminator = false)
    (type : LType) : Follows Value.kind (emit instr type) (surveyEmit type) :=
  fun _ => (tracks_emit inBlock type).answers fun _ _ _ _ after => after

theorem follows_emitted {instr : Instr} (inBlock : instr.isTerminator = false) :
    Follows id
      (do
        let _ ← emit instr .void
        pure ()) emitted :=
  fun _ => (tracks_emit inBlock .void).packs fun _ _ _ _ after => ⟨rfl, after.2⟩

theorem Follows.ofValue {β η : Type} {view : β → η} {val : PyVal}
    {next : Value → Visit β} {follow : LType → Check η}
    (tail : ∀ value, val = .value value →
      Follows view (next value) (follow value.type)) :
    Follows view (asValue val >>= next) (heldType val.kind >>= follow) := by
  cases val with
  | value value =>
      unfold heldType
      rw [PyVal.kind, Value.held_kind]
      exact tail value rfl
  | none => exact .fail _
  | type => exact .fail _
  | method => exact .fail _

theorem follows_constant {type : LType} {operand : Operand}
    (plain : Value.kind { type, operand } = .value type) :
    Follows Value.kind (constant type operand) (surveyConst type) := by
  unfold constant surveyConst
  split
  · exact .fail _
  · exact .pure plain

theorem follows_asPointer (type : LType) :
    Follows id (asPointer type) (found (pointerTo type)) := by
  unfold asPointer pointerTo
  split
  · exact .fail _
  · exact .pure rfl

theorem follows_alloca (type : LType) :
    Follows Value.kind (alloca type) (surveyAddress type) :=
  (follows_asPointer type).bind fun _ => follows_emit rfl _

theorem follows_load (ptr : PyVal) :
    Follows Value.kind (load ptr) (surveyLoad ptr.kind) := by
  refine .ofValue fun ptr _ => ?_
  cases ptr.type with
  | ptr pointee => exact follows_emit rfl pointee
  | _ => exact .fail _

theorem follows_store (val ptr : PyVal) :
    Follows id (store val ptr) (surveyStore val.kind ptr.kind) := by
  refine .ofValue fun ptr _ => ?_
  cases ptr.type with
  | ptr pointee =>
      refine .ofValue fun val _ => ?_
      split
      · exact follows_emitted rfl
      · exact .fail _
  | _ => exact .fail _

theorem follows_binop (op : BinOpcode) (lhs rhs : PyVal) :
    Follows Value.kind (binop op lhs rhs) (surveyOp lhs.kind rhs.kind) := by
  refine .ofValue fun lhs _ => .ofValue fun rhs _ => ?_
  split
  · exact follows_emit rfl _
  · exact .fail _

theorem follows_icmpSigned (predicate : Predicate) (lhs rhs : PyVal) :
    Follows Value.kind (icmpSigned predicate lhs rhs) (surveyTest lhs.kind) :=
  .ofValue fun _ _ => follows_emit rfl _

private theorem follows_addressOf {ptr : Value} {indices : List Value} (type : LType) :
    Follows Value.kind
      (do
        let ptrType ← asPointer type
        emit (.gep ptr indices) ptrType)
      (surveyAddress type) :=
  (follows_asPointer type).bind fun _ => follows_emit rfl _

private theorem follows_gepIndex {pointee : LType} {ptr index : Value} :
    Follows Value.kind
      (do
        let inner ← gepInto (.ptr pointee) index
        let ptrType ← asPointer inner
        emit (.gep ptr [index]) ptrType)
      (surveyElement pointee index.type) := by
  unfold gepInto surveyElement
  split
  · exact follows_addressOf pointee
  · exact .fail _

theorem follows_offset (ptr index : PyVal) :
    Follows Value.kind (gep ptr [index]) (surveyOffset ptr.kind index.kind) := by
  unfold gep asValues asValues
  refine .ofValue fun ptr _ => ?_
  simp only [then_assoc, pure_then]
  refine .ofValue fun index _ => ?_
  cases ptr.type with
  | ptr pointee =>
      unfold gepType gepType
      simp only [then_assoc, pure_then]
      exact follows_gepIndex
  | _ => exact .fail _

private theorem follows_element {elem : LType} {count : Nat} {ptr zero index : Value}
    (isInt : isIntType zero.type = true) :
    Follows Value.kind
      (do
        let inner ← gepType (.ptr (.array elem count)) [zero, index]
        let ptrType ← asPointer inner
        emit (.gep ptr [zero, index]) ptrType)
      (surveyElement elem index.type) := by
  unfold gepType gepType gepType gepInto surveyElement
  rw [if_pos isInt]
  simp only [then_assoc, pure_then]
  split
  · exact follows_addressOf elem
  · exact .fail _

theorem follows_elementOf {array : Value} {elem : LType} {count : Nat}
    (isPtr : array.type = .ptr (.array elem count)) (index : PyVal) :
    Follows Value.kind (gep (.value array) [.value (i64Const 0), index])
      (do
        let indexType ← heldType index.kind
        surveyElement elem indexType) := by
  have object : (asValue (.value array) : Visit Value) = pure array := rfl
  have zero : (asValue (.value (i64Const 0)) : Visit Value) = pure (i64Const 0) := rfl
  unfold gep asValues asValues asValues
  rw [object, zero]
  simp only [then_assoc, pure_then]
  refine .ofValue fun index _ => ?_
  rw [isPtr]
  exact follows_element rfl

private theorem gepInto_field (name : String) (index : Nat) :
    gepInto (.struct name) (i32Const index) = (do
      match ← Comp.reads fun state => state.module.struct? name with
      | some { elements := some elements, .. } =>
          match elements[index]? with
          | some type => pure type
          | none => Comp.fail .indexError
      | _ => Comp.fail (.typeError "struct is opaque")) := rfl

private theorem follows_intoField (type : LType) (index : Nat) :
    Follows id (gepInto type (i32Const index))
      (do found (← Comp.reads fun survey => intoField survey.structs type index)) := by
  intro pending state survey agrees
  rw [reads_then]
  cases type with
  | ptr pointee => exact .both ⟨rfl, agrees⟩
  | array elem count => exact .both ⟨rfl, agrees⟩
  | struct name =>
      have isField : intoField survey.structs (.struct name) index =
          fieldType survey.structs name index := rfl
      rw [gepInto_field, reads_then, agrees.struct?, isField]
      unfold fieldType
      cases survey.structs.find? (·.name = name) with
      | none => exact .neither
      | some struct =>
          obtain ⟨_, elements⟩ := struct
          cases elements with
          | none => exact .neither
          | some elements =>
              cases atIndex : elements[index]? with
              | none =>
                  simp only [Option.bind_eq_bind, Option.bind_some, atIndex]
                  exact .neither
              | some type =>
                  simp only [Option.bind_eq_bind, Option.bind_some, atIndex]
                  exact .both ⟨rfl, agrees⟩
  | _ => exact .neither

theorem follows_fieldPtr (ptr : PyVal) (index : Nat) :
    Follows Value.kind (fieldPtr ptr index) (surveyFieldPtr ptr.kind index) := by
  unfold fieldPtr gep asValues asValues asValues
  refine .ofValue fun ptr _ => ?_
  have values : (asValue (.value (i32Const 0)) : Visit Value) = pure (i32Const 0) := rfl
  have field : (asValue (.value (i32Const index)) : Visit Value) =
      pure (i32Const index) := rfl
  rw [values, field]
  simp only [pure_then]
  cases ptr.type with
  | ptr pointee =>
      have zero : gepInto (.ptr pointee) (i32Const 0) = pure pointee := rfl
      unfold gepType gepType gepType
      rw [zero]
      simp only [then_assoc, pure_then]
      exact (follows_intoField pointee index).bind fun type => follows_addressOf type
  | _ => exact .fail _

theorem follows_storeField (ptr : Value) (index : Nat) (val : PyVal) :
    Follows id (storeField ptr index val)
      (surveyStoreField ptr.kind index val.kind) :=
  (follows_fieldPtr (.value ptr) index).bind fun field => follows_store val (.value field)

theorem follows_ptrtoint (val : Value) (type : LType) :
    Follows Value.kind (ptrtoint val type) (surveyCast val.kind type) := by
  unfold ptrtoint surveyCast heldType
  rw [Value.held_kind]
  change Follows _ _ (if val.type = type then pure val.kind else surveyEmit type)
  split
  · exact .pure rfl
  · exact follows_emit rfl type

theorem follows_bitcast (val : Value) (type : LType) :
    Follows Value.kind (bitcast val type) (surveyCast val.kind type) := by
  unfold bitcast surveyCast heldType
  rw [Value.held_kind]
  change Follows _ _ (if val.type = type then pure val.kind else surveyEmit type)
  split
  · exact .pure rfl
  · exact follows_emit rfl type

private theorem follows_checkArgs (types : List LType) (args : List PyVal) :
    Follows id (checkArgs types args) (checkKinds types (args.map PyVal.kind)) := by
  induction types generalizing args with
  | nil => exact .pure rfl
  | cons type types ih =>
      cases args with
      | nil => exact .fail _
      | cons arg args =>
          refine .ofValue fun arg _ => ?_
          split
          · exact ih args
          · exact .fail _

theorem follows_call (callee : PyVal) (args : List PyVal) :
    Follows Value.kind (call callee args)
      (surveyCallee callee.kind (args.map PyVal.kind)) := by
  cases callee with
  | value value =>
      obtain ⟨type, operand⟩ := value
      cases type with
      | ptr pointee =>
          cases pointee with
          | function ret params varArg =>
              cases operand with
              | func index =>
                  exact (follows_checkArgs params.toList args).bind fun _ =>
                    follows_emit rfl ret
              | _ => exact .fail _
          | _ => cases operand <;> exact .fail _
      | _ => cases operand <;> exact .fail _
  | none => exact .fail _
  | type => exact .fail _
  | method => exact .fail _

private theorem isTerminated_ok_iff {ended : Bool} {state state' : CompilerState} :
    isTerminated state = .ok (ended, state') ↔
      ∃ label, state.builder = some label ∧
        state.module.isTerminated label = ended ∧ state = state' := by
  unfold isTerminated
  simp only [bind_ok_iff, currentBlock_ok_iff, reads_ok_iff]
  constructor
  · rintro ⟨label, middle, ⟨standing, rfl⟩, isEnded, rfl⟩
    exact ⟨label, standing, isEnded, rfl⟩
  · rintro ⟨label, standing, isEnded, rfl⟩
    exact ⟨label, state, ⟨standing, rfl⟩, isEnded, rfl⟩

theorem terminate_ok_iff {instr : Instr} {result : Unit} {state state' : CompilerState} :
    terminate instr state = .ok (result, state') ↔
      ∃ label, state.builder = some label ∧
        state.module.isTerminated label = false ∧
        state' = state.append { block := label, instr } := by
  unfold terminate
  rw [bind_ok_iff]
  constructor
  · rintro ⟨ended, middle, read, run⟩
    obtain ⟨label, standing, isEnded, rfl⟩ := isTerminated_ok_iff.mp read
    cases ended with
    | true =>
        rw [if_pos rfl] at run
        exact (fail_ok_iff.mp run).elim
    | false =>
        rw [if_neg Bool.false_ne_true] at run
        obtain ⟨val, last, written, done⟩ := bind_ok_iff.mp run
        obtain ⟨other, same, -, rfl⟩ := emit_ok_iff.mp written
        obtain ⟨-, rfl⟩ := pure_ok_iff.mp done
        rw [standing] at same
        cases same
        exact ⟨label, standing, isEnded, rfl⟩
  · rintro ⟨label, standing, isEnded, rfl⟩
    refine ⟨false, state, isTerminated_ok_iff.mpr ⟨label, standing, isEnded, rfl⟩, ?_⟩
    exact bind_ok_iff.mpr ⟨_, _, emit_ok_iff.mpr ⟨label, standing, rfl, rfl⟩, rfl⟩

private theorem isTerminated_nowhere {state : CompilerState} (nowhere : state.builder = none) :
    isTerminated state = .error .attributeError := by
  unfold isTerminated currentBlock
  rw [then_assoc, reads_then, nowhere]
  rfl

private theorem isTerminated_eq_false {module : Module} {label : Label} :
    module.isTerminated label = false ↔ ∀ entry ∈ module.code, entry.block = label →
      entry.instr.isTerminator = false := by
  unfold Module.isTerminated
  rw [List.any_eq_false]
  refine forall_congr' fun entry => forall_congr' fun _ => ?_
  cases entry.instr.isTerminator <;> simp

private theorem isTerminated_eq_true {module : Module} {label : Label} :
    module.isTerminated label = true ↔ ∃ entry ∈ module.code, entry.block = label ∧
      entry.instr.isTerminator = true := by
  unfold Module.isTerminated
  rw [List.any_eq_true]
  simp

section

variable {pending : List LiveBlock} {state : CompilerState} {survey : Survey}

theorem Agrees.standing (agrees : Agrees pending state survey) :
    (state.builder = none ∧ survey.place = none) ∨
      ∃ label ret isOpen, state.builder = some label ∧
        survey.place = some { ret, isOpen } ∧
        state.module.isTerminated label = !isOpen := by
  have stands := agrees.2
  generalize isBuilder : state.builder = builder at stands
  generalize isPlace : survey.place = place at stands
  cases stands with
  | nowhere => exact .inl ⟨rfl, rfl⟩
  | ended member inBlock terminates =>
      exact .inr ⟨_, _, false, rfl, rfl,
        isTerminated_eq_true.mpr ⟨_, member, inBlock, terminates⟩⟩
  | continued facts =>
      refine .inr ⟨_, _, true, rfl, rfl, isTerminated_eq_false.mpr ?_⟩
      intro entry member inBlock
      exact (facts.unfinished _ List.mem_cons_self entry member
        (congrArg Label.index inBlock)).2

theorem Agrees.terminate {label : Label} {ret : LType} {instr : Instr}
    (agrees : Agrees pending state survey) (standing : state.builder = some label)
    (isPlace : survey.place = some { ret, isOpen := true })
    (terminates : instr.isTerminator = true) :
    Ended pending (state.append { block := label, instr })
      (survey.close ret (instr.fits ret)) := by
  refine ⟨fun other same => ?_, agrees.1, ?_⟩
  · cases same
  · exact agrees.2.terminate standing isPlace terminates

theorem tracks_terminate {instr : Instr} (terminates : instr.isTerminator = true)
    {fits : LType → Bool} (same : ∀ ret, fits ret = instr.fits ret) :
    Tracks (Agrees pending) (terminate instr) (closeWith fits)
      fun _ _ => Ended pending := by
  intro state survey agrees
  unfold closeWith
  rw [reads_then]
  obtain ⟨noBuilder, noPlace⟩ | ⟨label, ret, isOpen, standing, isPlace, isEnded⟩ :=
    agrees.standing
  · unfold terminate
    rw [bind_of_error (isTerminated_nowhere noBuilder), noPlace]
    exact .neither
  · cases isOpen with
    | true =>
        have ran : terminate instr state = .ok ((), _) :=
          terminate_ok_iff.mpr ⟨label, standing, isEnded, rfl⟩
        rw [ran, isPlace]
        have closed := agrees.terminate standing isPlace terminates
        rw [← same] at closed
        exact .both closed
    | false =>
        have read : isTerminated state = .ok (true, state) :=
          isTerminated_ok_iff.mpr ⟨label, standing, isEnded, rfl⟩
        unfold terminate
        rw [bind_of_ok read, isPlace]
        exact .neither

theorem tracks_terminateUnless {instr : Instr} (terminates : instr.isTerminator = true)
    {fits : LType → Bool} (same : ∀ ret, fits ret = instr.fits ret) :
    Tracks (Agrees pending)
      (do if ← isTerminated then pure () else terminate instr : Visit Unit)
      (closeIfOpen fits) fun _ _ => Ended pending := by
  intro state survey agrees
  unfold closeIfOpen
  rw [reads_then]
  obtain ⟨noBuilder, noPlace⟩ | ⟨label, ret, isOpen, standing, isPlace, isEnded⟩ :=
    agrees.standing
  · rw [bind_of_error (isTerminated_nowhere noBuilder), noPlace]
    exact .neither
  · have read : isTerminated state = .ok (!isOpen, state) :=
      isTerminated_ok_iff.mpr ⟨label, standing, isEnded, rfl⟩
    rw [bind_of_ok read, isPlace]
    cases isOpen with
    | true =>
        have ran : terminate instr state = .ok ((), _) :=
          terminate_ok_iff.mpr ⟨label, standing, isEnded, rfl⟩
        change Meets _ (terminate instr state) _
        rw [ran]
        have closed := agrees.terminate standing isPlace terminates
        rw [← same] at closed
        exact .both closed
    | false =>
        refine .both ⟨fun other isOpen => ?_, agrees⟩
        rw [isPlace] at isOpen
        cases isOpen

theorem tracks_currentFunction :
    Tracks (Agrees pending) currentFunction currentReturn
      fun func ret state survey =>
        state.module.rets[func]? = some ret ∧ Agrees pending state survey := by
  intro state survey agrees
  unfold currentFunction currentBlock currentReturn
  rw [then_assoc, reads_then, reads_then]
  have stands := agrees.2
  generalize isBuilder : state.builder = builder at stands
  generalize isPlace : survey.place = place at stands
  cases stands with
  | nowhere => exact .neither
  | ended _ _ _ known => exact .both ⟨known, agrees⟩
  | continued facts =>
      exact .both ⟨(facts.inside _ List.mem_cons_self).2, agrees⟩

theorem tracks_appendBlock {func : Nat} {ret : LType} :
    Tracks (fun state survey => state.module.rets[func]? = some ret ∧
        Agrees pending state survey)
      (appendBlock func) (pure .unit : Check PUnit) fun label _ state survey =>
        state.module.rets[func]? = some ret ∧
          Agrees ((label, ret) :: pending) state survey := by
  intro state survey before
  refine .both ⟨?_, ⟨?_, before.2.1.2⟩, ?_⟩
  · rw [rets_appendBlock]
    exact before.1
  · exact (tables_appendBlock state func).trans before.2.1.1
  · rw [rets_appendBlock]
    exact before.2.2.appendBlock rfl before.1

theorem tracks_positionAtEnd {label : Label} {ret : LType} :
    Tracks (Ended ((label, ret) :: pending)) (positionAtEnd label) (stand ret)
      fun _ _ => Agrees pending :=
  .modify fun _ _ ended =>
    ⟨ended.2.1, .continued (ended.2.2.facts_of_ended ended.1)⟩

end

end Lambpie.Compiler

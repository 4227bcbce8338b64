/-
The survey follows the whole compilation.

The recursion over the tree is followed once, then the module and the entry
functions; the survey of a program succeeds exactly if the program compiles,
and what it finds in the end is what the module has.
-/
import Lambpie.Compiler.SurveyDefinitions
import Lambpie.Compiler.Dropped

namespace Lambpie.Compiler

open Foundations
open Foundations.Comp

private theorem follows_chain {left : Visit PyVal} :
    Follows PyVal.kind (visitCompare left none) (Comp.fail ()) :=
  .never (Ensures.any.bind fun _ => .fail _)

mutual

private theorem follows_visit (node : Node) :
    Follows PyVal.kind (visit node) (surveyNode node) := by
  match node with
  | .name id => exact follows_name id
  | .constant literal => exact follows_literal literal
  | .binOp left op right => exact follows_binOp op (follows_visit left) (follows_visit right)
  | .unaryOp op operand => exact follows_unaryOp op (follows_visit operand)
  | .compare left [(op, comparator)] =>
      exact follows_compare op (follows_visit left) (follows_visit comparator)
  | .compare left [] => exact follows_chain
  | .compare left (_ :: _ :: _) => exact follows_chain
  | .call callee args dropped =>
      exact follows_visitCall (follows_visit callee) (follows_args args)
  | .attribute object attr => exact follows_attribute attr (follows_visit object)
  | .subscript object slice =>
      exact follows_subscript (follows_visit object) (follows_visit slice)
  | .sliced object bounds => exact .never VisitInvariant.fails_sliced.bind_never
  | .return_ (some result) => exact follows_return (follows_visit result)
  | .return_ none => exact follows_returnNone
  | .assign target moreTargets assigned =>
      cases target with
      | subscript object slice =>
          exact follows_assignSubscript (follows_visit object) (follows_visit slice)
            (follows_visit assigned)
      | sliced object bounds => exact .never VisitInvariant.fails_sliced.bind_never
      | name id => exact follows_assignName id (follows_visit assigned)
      | _ => exact .fail _
  | .annAssign target annotation (some initial) =>
      exact follows_annAssign target annotation (follows_visit initial)
  | .annAssign target annotation none => exact follows_declaration target annotation
  | .ifStmt test body [] => exact follows_if (follows_visit test) (follows_body body)
  | .ifStmt test body (stmt :: orelse) =>
      exact follows_ifElse (follows_visit test) (follows_body body)
        (follows_body (stmt :: orelse))
  | .whileStmt test body orelse =>
      exact follows_while (follows_visit test) (follows_body body)
  | .expr inner => exact (follows_visit inner).bind fun _ => .pure rfl
  | .pass => exact .pure rfl
  | .functionDef name args returns body dropped =>
      exact follows_functionDef none name args returns (follows_body body)
  | .classDef className body dropped =>
      refine (follows_declareClass className body).bind fun _ => ?_
      exact (follows_methodBodies className body).bind fun _ => .pure rfl
  | .importFrom module names _ => exact follows_importFrom module names
  | .other kind children => exact follows_generic (follows_body children)

private theorem follows_body (body : List Node) :
    Follows id (visitBody body) (surveyBody body) := by
  match body with
  | [] => exact .pure rfl
  | stmt :: rest => exact (follows_visit stmt).bind fun _ => follows_body rest

private theorem follows_args (args : List Node) :
    Follows (List.map PyVal.kind) (visitArgs args) (surveyArgs args) := by
  match args with
  | [] => exact .pure rfl
  | arg :: rest =>
      refine (follows_visit arg).bind fun value => ?_
      exact (follows_args rest).bind fun values => .pure rfl

private theorem follows_methodBodies (className : String) (body : List Node) :
    Follows id (visitMethods className body) (surveyMethods className body) := by
  match body with
  | [] => exact .pure rfl
  | stmt :: rest =>
      have later := follows_methodBodies className rest
      cases stmt with
      | functionDef name args returns methodBody dropped =>
          exact (follows_functionDef (some className) name args returns
            (follows_body methodBody)).bind fun _ => later
      | _ => exact later

end

section

variable {pending : List LiveBlock}

theorem Agrees.keepHandle {state : CompilerState} {survey : Survey}
    (agrees : Agrees pending state survey) (node : Option FunctionNode) :
    Agrees pending { state with handleNode := node }
      { survey with handleNode := node } := by
  refine ⟨⟨?_, agrees.1.2⟩, agrees.2⟩
  have same := agrees.1.1
  unfold CompilerState.tables at *
  rw [← same]

private theorem Agrees.keepStmt {state : CompilerState} {survey : Survey}
    (agrees : Agrees pending state survey) (stmt : Node) :
    Agrees pending { state with initStmts := state.initStmts ++ [stmt] }
      { survey with initStmts := survey.initStmts ++ [stmt] } := by
  refine ⟨⟨?_, agrees.1.2⟩, agrees.2⟩
  have same := agrees.1.1
  unfold CompilerState.tables at *
  rw [← same]

private theorem follows_topLevel (stmt : Node) :
    Follows id (visitTopLevel stmt) (surveyTopLevel stmt) := by
  have visited : Follows id
      (do
        let _ ← visit stmt
        pure () : Visit Unit)
      (do
        let _ ← surveyNode stmt
        pure () : Check Unit) :=
    (follows_visit stmt).bind fun _ => .pure rfl
  unfold visitTopLevel surveyTopLevel
  cases isMainBlock stmt with
  | true => exact .pure rfl
  | false =>
      rw [if_neg Bool.false_ne_true, if_neg Bool.false_ne_true]
      cases stmt with
      | functionDef name args returns body dropped =>
          dsimp only
          split
          · exact follows_modify fun _ _ _ agrees => agrees.keepHandle _
          · exact visited
      | annAssign => exact follows_modify fun _ _ _ agrees => agrees.keepStmt _
      | assign => exact follows_modify fun _ _ _ agrees => agrees.keepStmt _
      | expr => exact follows_modify fun _ _ _ agrees => agrees.keepStmt _
      | _ => exact visited

private theorem follows_module (tree : List Node) :
    Follows id (visitModule tree) (surveyModule tree) := by
  induction tree with
  | nil => exact .pure rfl
  | cons stmt rest ih => exact (follows_topLevel stmt).bind fun _ => ih

def JsonFunctions.kinds (json : JsonFunctions) : JsonKinds where
  getStr := json.getStr.kind
  getInt := json.getInt.kind
  open_ := json.open_.kind
  writeStr := json.writeStr.kind
  writeInt := json.writeInt.kind
  close := json.close.kind

def EntryContext.kinds (context : EntryContext) : EntryKinds where
  i64 := context.i64
  eventPtr := context.eventPtr.kind
  eventLen := context.eventLen.kind
  responsePtr := context.responsePtr.kind
  json := context.json.kinds

private theorem follows_declareJson (i8Ptr i64 : LType) :
    Follows JsonFunctions.kinds (declareJson i8Ptr i64) (surveyJson i8Ptr i64) := by
  have declared (name : String) (ret : LType) (params : List LType) :
      Follows PyVal.kind (declare name ret params)
        (surveyDeclare name { ret, params, varArg := false }) :=
    (follows_addFunction name ret params false).result fun _ => rfl
  refine (declared _ _ _).bind fun getStr => ?_
  refine (declared _ _ _).bind fun getInt => ?_
  refine (declared _ _ _).bind fun open_ => ?_
  refine (declared _ _ _).bind fun writeStr => ?_
  refine (declared _ _ _).bind fun writeInt => ?_
  refine (declared _ _ _).bind fun close => ?_
  exact .pure rfl

private theorem follows_keyGlobal (name : String) :
    Follows Value.kind (keyGlobal name) surveyKey :=
  follows_nextName.bind fun counter => follows_addGlobal s!".key.{counter}" _ _ false

private theorem follows_lengthConst (context : EntryContext) (number : Nat) :
    Follows PyVal.kind (lengthConst context number) (surveyConst context.i64) :=
  (follows_constant rfl).result fun _ => rfl

private theorem follows_decodeStr (context : EntryContext) (keyPtr : Value) (keyLen : PyVal)
    (fieldPtr : Value) :
    Follows id (decodeStr context keyPtr keyLen fieldPtr)
      (surveyDecodeStr context.kinds keyPtr.kind keyLen.kind fieldPtr.kind) := by
  refine (follows_alloca context.i64).bind fun outLen => ?_
  refine (follows_call context.json.getStr [context.eventPtr, context.eventLen,
    .value keyPtr, keyLen, .value outLen]).bind fun data => ?_
  refine (follows_load (.value outLen)).bind fun len => ?_
  refine (follows_type "str").bind fun strPtrType => ?_
  refine (follows_allocStruct strPtrType context.i64 .req).bind fun strStruct => ?_
  refine (follows_layout "str").bind fun layout => ?_
  refine (follows_layoutIndex layout "__ref_count__").bind fun refIdx => ?_
  refine (follows_storeField strStruct refIdx (.value (i32Const 1))).bind fun _ => ?_
  refine (follows_layoutIndex layout "len").bind fun lenIdx => ?_
  refine (follows_storeField strStruct lenIdx (.value len)).bind fun _ => ?_
  refine (follows_layoutIndex layout "buffer").bind fun bufIdx => ?_
  refine (follows_storeField strStruct bufIdx (.value data)).bind fun _ => ?_
  exact follows_store (.value strStruct) (.value fieldPtr)

private theorem follows_decodeInt (context : EntryContext) (keyPtr : Value) (keyLen : PyVal)
    (fieldPtr : Value) :
    Follows id (decodeInt context keyPtr keyLen fieldPtr)
      (surveyDecodeInt context.kinds keyPtr.kind keyLen.kind fieldPtr.kind) :=
  (follows_call context.json.getInt [context.eventPtr, context.eventLen, .value keyPtr,
    keyLen]).bind fun value => follows_store (.value value) (.value fieldPtr)

private theorem follows_decodeField (context : EntryContext) (eventStruct : Value)
    (field : LayoutField) :
    Follows id (decodeField context eventStruct field)
      (surveyDecodeField context.kinds eventStruct.kind field) := by
  refine (follows_keyGlobal field.name).bind fun keyPtr => ?_
  refine (follows_lengthConst context field.name.length).bind fun keyLen => ?_
  refine (follows_fieldPtr (.value eventStruct) field.index).bind fun ptr => ?_
  split
  · exact follows_decodeStr context keyPtr keyLen ptr
  · split
    · rename_i isInt
      have same : field.type = context.kinds.i64 := isInt
      rw [if_pos same]
      exact follows_decodeInt context keyPtr keyLen ptr
    · rename_i notInt
      have different : ¬field.type = context.kinds.i64 := notInt
      rw [if_neg different]
      exact .fail _

private theorem follows_decodeFields (context : EntryContext) (eventStruct : Value)
    (fields : List LayoutField) :
    Follows id (decodeFields context eventStruct fields)
      (surveyDecode context.kinds eventStruct.kind fields) := by
  induction fields with
  | nil => exact .pure rfl
  | cons field rest ih =>
      exact (follows_decodeField context eventStruct field).bind fun _ => ih

private theorem follows_encodeField (context : EntryContext) (responseStruct : Value)
    (pos : PyVal) (field : LayoutField) :
    Follows PyVal.kind (encodeField context responseStruct pos field)
      (surveyEncodeField context.kinds responseStruct.kind pos.kind field) := by
  refine (follows_keyGlobal field.name).bind fun keyPtr => ?_
  refine (follows_lengthConst context field.name.length).bind fun keyLen => ?_
  split
  · refine (follows_fieldPtr (.value responseStruct) field.index).bind fun strPtr => ?_
    refine (follows_load (.value strPtr)).bind fun strStruct => ?_
    refine (follows_layout "str").bind fun layout => ?_
    refine (follows_layoutIndex layout "buffer").bind fun bufIdx => ?_
    refine (follows_fieldPtr (.value strStruct) bufIdx).bind fun bufPtr => ?_
    refine (follows_load (.value bufPtr)).bind fun bufVal => ?_
    refine (follows_layoutIndex layout "len").bind fun lenIdx => ?_
    refine (follows_fieldPtr (.value strStruct) lenIdx).bind fun lenPtr => ?_
    refine (follows_load (.value lenPtr)).bind fun lenVal => ?_
    exact (follows_call context.json.writeStr [context.responsePtr, pos, .value keyPtr,
      keyLen, .value bufVal, .value lenVal]).result fun _ => rfl
  · split
    · rename_i isInt
      have same : field.type = context.kinds.i64 := isInt
      rw [if_pos same]
      refine (follows_fieldPtr (.value responseStruct) field.index).bind fun intPtr => ?_
      refine (follows_load (.value intPtr)).bind fun intVal => ?_
      exact (follows_call context.json.writeInt [context.responsePtr, pos, .value keyPtr,
        keyLen, .value intVal]).result fun _ => rfl
    · rename_i notInt
      have different : ¬field.type = context.kinds.i64 := notInt
      rw [if_neg different]
      exact .fail _

private theorem follows_encodeFields (context : EntryContext) (responseStruct : Value)
    (fields : List LayoutField) (pos : PyVal) :
    Follows PyVal.kind (encodeFields context responseStruct pos fields)
      (surveyEncode context.kinds responseStruct.kind pos.kind fields) := by
  induction fields generalizing pos with
  | nil => exact .pure rfl
  | cons field rest ih =>
      exact (follows_encodeField context responseStruct pos field).bind fun next => ih next

private theorem follows_annotationName (node : Node) :
    Follows id (annotationName node) (surveyTarget node) := by
  cases node with
  | name id => exact .pure rfl
  | _ => exact .fail _

private theorem follows_entryTypes (node : FunctionNode) :
    Follows id (entryTypes node) (surveyEntryTypes node) := by
  obtain ⟨name, args, returns, body⟩ := node
  unfold entryTypes surveyEntryTypes
  cases args with
  | nil => exact .fail _
  | cons first rest =>
      obtain ⟨arg, annotation⟩ := first
      cases annotation with
      | none => exact .fail _
      | some annotation =>
          cases returns with
          | none => exact .fail _
          | some returns =>
              refine (follows_annotationName annotation).bind fun eventType => ?_
              exact (follows_annotationName returns).bind fun responseType => .pure rfl

private theorem follows_entryLayout (role typeName : String) :
    Follows id (entryLayout role typeName) (find (·.layouts) typeName) := by
  refine (follows_layouts typeName).bind fun layout => ?_
  cases layout with
  | some layout => exact .pure rfl
  | none => exact .fail _

private theorem follows_enterArena (tag : ArenaTag) :
    Follows (fun _ => PUnit.unit)
      (Comp.modify fun state => { state with currentArena := tag } : Visit _)
      (pure .unit) :=
  follows_aside fun _ _ _ agrees => agrees

private theorem follows_init : Follows id synthesizeInit surveyInit := by
  refine (follows_beginFunction "lambpie_init" .void []).bind fun _ => ?_
  refine follows_clearLocals.bind fun _ => ?_
  refine (follows_enterArena .static).before fun _ => ?_
  refine (follows_reads id fun _ _ _ agrees =>
    congrArg Tables.initStmts agrees.1.1).bind fun stmts => ?_
  refine (follows_body stmts).bind fun _ pending => ?_
  exact (@tracks_terminateUnless pending .retVoid rfl _ fun _ => rfl).weaken
    fun _ _ _ _ ended => ⟨rfl, ended.agrees⟩

private theorem tracks_handle (i8Ptr i64 eventPtrType : LType) (json : JsonFunctions)
    (eventLayout responseLayout : Layout) :
    Tracks (Agrees pending)
      (synthesizeHandle i8Ptr i64 eventPtrType json eventLayout responseLayout)
      (surveyHandle i8Ptr i64 eventPtrType json.kinds eventLayout responseLayout)
      fun _ _ => Ended pending := by
  refine (follows_beginFunction "lambpie_handle" i64 _).andThen fun _ => ?_
  refine follows_clearLocals.andThen fun _ => ?_
  refine .before ((follows_enterArena .req pending).weaken fun _ _ _ _ after => after.2)
    fun _ => ?_
  let context : EntryContext := {
    i64
    eventPtr := .value { type := i8Ptr, operand := .arg 0 }
    eventLen := .value { type := i64, operand := .arg 1 }
    responsePtr := .value { type := i8Ptr, operand := .arg 2 }
    json }
  refine (follows_allocStruct eventPtrType i64 .req).andThen fun eventStruct => ?_
  refine (follows_storeField eventStruct 0 (.value (i32Const 1))).andThen fun _ => ?_
  refine (follows_decodeFields context eventStruct (dataFields eventLayout)).andThen
    fun _ => ?_
  refine (follows_function "handle").andThen fun userHandle => ?_
  refine (follows_call userHandle [.value eventStruct]).andThen fun responseStruct => ?_
  refine (follows_lengthConst context 0).andThen fun zero => ?_
  refine (follows_call json.open_ [context.responsePtr, zero]).andThen fun pos => ?_
  refine (follows_encodeFields context responseStruct (dataFields responseLayout)
    (.value pos)).andThen fun pos => ?_
  refine (follows_call json.close [context.responsePtr, pos]).andThen fun pos => ?_
  exact tracks_terminate rfl fun _ => rfl

private theorem tracks_entry : Tracks (Agrees pending) synthesizeLambdaEntry surveyEntry
    fun _ _ => Ended pending := by
  refine (follows_reads id fun _ _ _ agrees =>
    congrArg Tables.handleNode agrees.1.1).andThen fun node => ?_
  cases node with
  | none => exact .fail _ _
  | some node =>
      refine (follows_entryTypes node).andThen fun types => ?_
      obtain ⟨eventTypeName, responseTypeName⟩ := types
      refine (follows_entryLayout "Event" eventTypeName).andThen fun eventLayout => ?_
      refine (follows_entryLayout "Response" responseTypeName).andThen
        fun responseLayout => ?_
      refine (follows_type eventTypeName).andThen fun eventPtrType => ?_
      refine (follows_type responseTypeName).andThen fun _ => ?_
      refine (follows_type "__ptr__").andThen fun i8Ptr => ?_
      refine (follows_type "int").andThen fun i64 => ?_
      refine (follows_functionDef none node.name node.args node.returns
        (follows_body node.body)).andThen fun _ => ?_
      refine (follows_declareJson i8Ptr i64).andThen fun json => ?_
      refine follows_init.andThen fun _ => ?_
      exact tracks_handle i8Ptr i64 eventPtrType json eventLayout responseLayout

private theorem agrees_initial : Agrees [] CompilerState.initial Survey.initial := by
  refine ⟨⟨rfl, fun _ laidOut => nomatch laidOut⟩, ?_⟩
  exact .nowhere (.initial _)

end

private theorem tracks_program (tree : List Node) :
    Tracks (Agrees []) (do visitModule tree; synthesizeLambdaEntry : Visit Unit)
      (do surveyModule tree; surveyEntry : Check Unit) fun _ _ => Ended [] :=
  (follows_module tree).andThen fun _ => tracks_entry

/-- The survey succeeds where the compiler does, and then describes the
module. -/
theorem survey_meets (tree : List Node) :
    (∃ state result, compileState tree = .ok state ∧ survey tree = some result ∧
      Ended [] state result) ∨
    (∃ error, compileState tree = .error error) ∧ survey tree = none := by
  have met := tracks_program tree _ _ agrees_initial
  unfold compileState survey
  generalize (do visitModule tree; synthesizeLambdaEntry : Visit Unit)
    CompilerState.initial = compiled at met ⊢
  generalize (do surveyModule tree; surveyEntry : Check Unit) Survey.initial =
    surveyed at met ⊢
  cases met with
  | both ended => exact .inl ⟨_, _, rfl, rfl, ended⟩
  | neither => exact .inr ⟨⟨_, rfl⟩, rfl⟩

/-- Every compiled program has a survey, which describes the module. -/
theorem survey_of_compile {tree : List Node} {module : Module}
    (compiled : compile tree = .ok module) :
    ∃ result, survey tree = some result ∧
      CodeFacts [] module.rets module.blockCount module.code result.tidy result.typed := by
  obtain ⟨state, ran, rfl⟩ := compile_ok_iff.mp compiled
  obtain ⟨other, result, same, surveyed, ended⟩ | ⟨⟨error, failed⟩, -⟩ := survey_meets tree
  · rw [ran] at same
    cases same
    exact ⟨result, surveyed, ended.agrees.2.facts_of_ended ended.1⟩
  · rw [ran] at failed
    cases failed

/-- A program compiles exactly if its survey finds nothing to reject. -/
theorem compiles_iff_survey (tree : List Node) :
    (∃ module, compile tree = .ok module) ↔ survey tree ≠ none := by
  obtain ⟨state, result, ran, surveyed, -⟩ | ⟨⟨error, failed⟩, surveyed⟩ :=
    survey_meets tree
  · rw [surveyed]
    exact ⟨fun _ => nofun, fun _ => ⟨_, compile_ok_iff.mpr ⟨state, ran, rfl⟩⟩⟩
  · rw [surveyed]
    constructor
    · rintro ⟨module, compiled⟩
      obtain ⟨state, ran, -⟩ := compile_ok_iff.mp compiled
      rw [failed] at ran
      cases ran
    · exact fun found => (found rfl).elim

/-- The blocks are well formed exactly if the program is tidy. -/
theorem blocksWellFormed_iff {tree : List Node} {module : Module}
    (compiled : compile tree = .ok module) :
    module.BlocksWellFormed ↔ IsTidy tree := by
  obtain ⟨result, surveyed, facts⟩ := survey_of_compile compiled
  unfold Module.BlocksWellFormed IsTidy
  rw [surveyed, Option.any_some, facts.tidy_iff]
  simp

instance (tree : List Node) : Decidable (IsTidy tree) :=
  inferInstanceAs (Decidable (_ = true))

instance (tree : List Node) : Decidable (IsTyped tree) :=
  inferInstanceAs (Decidable (_ = true))

theorem blocksWellFormed_iff_example :
    ∃ module, compile (programWith [] [loop [.pass] []]) = .ok module ∧
      module.BlocksWellFormed := by
  have tidy : IsTidy (programWith [] [loop [.pass] []]) := by decide +kernel
  obtain ⟨module, compiled⟩ : ∃ module,
      compile (programWith [] [loop [.pass] []]) = .ok module :=
    exists_compiled (by decide +kernel)
  exact ⟨module, compiled, (blocksWellFormed_iff compiled).mpr tidy⟩

/-- A `handle` with a declaration after its `return`. -/
def afterReturnProgram : List Node :=
  [eventClass, responseClass,
    .functionDef "handle" [("event", some (.name "Request"))] (some (.name "Response"))
      [.return_ (some (.call (.name "Response") [one] [])),
        .annAssign nameN (.name "int") (some one)] []]

/-- The declaration goes to the block that the `return` ended. -/
theorem blocks_after_return :
    ¬∀ module, compile afterReturnProgram = .ok module → module.BlocksWellFormed := by
  intro always
  obtain ⟨module, compiled⟩ : ∃ module, compile afterReturnProgram = .ok module :=
    exists_compiled (by decide +kernel)
  have broken : (compile afterReturnProgram).toOption.all
      (fun module => ¬module.BlocksWellFormed) = true := by
    decide +kernel
  rw [compiled] at broken
  exact of_decide_eq_true broken (always module compiled)

private theorem entryFits_iff {module : Module} {entry : Emitted} :
    entryFits module.rets entry ↔ ∃ func,
      module.functions[entry.block.func]? = some func ∧
        entry.instr.fits func.ret = true := by
  unfold entryFits Module.rets
  rw [List.getElem?_map]
  cases module.functions[entry.block.func]? with
  | none => simp
  | some func => simp

/-- Returns and branches are well typed exactly if the program is typed. -/
theorem wellTyped_iff {tree : List Node} {module : Module}
    (compiled : compile tree = .ok module) :
    module.WellTyped ↔ IsTyped tree := by
  obtain ⟨result, surveyed, facts⟩ := survey_of_compile compiled
  unfold Module.WellTyped IsTyped
  rw [surveyed, Option.any_some, facts.typed_iff]
  simp only [entryFits_iff]

theorem wellTyped_iff_example :
    ∃ module, compile (programWith [] [loop [.pass] []]) = .ok module ∧
      module.WellTyped := by
  have typed : IsTyped (programWith [] [loop [.pass] []]) := by decide +kernel
  obtain ⟨module, compiled⟩ : ∃ module,
      compile (programWith [] [loop [.pass] []]) = .ok module :=
    exists_compiled (by decide +kernel)
  exact ⟨module, compiled, (wellTyped_iff compiled).mpr typed⟩

/-- `if n: pass` with the int `n`. -/
def intTestProgram : List Node := programWith [] [.ifStmt nameN [.pass] []]

/-- The branch is on an `i64`. -/
theorem branch_on_int :
    ¬∀ module, compile intTestProgram = .ok module → module.WellTyped := by
  intro always
  obtain ⟨module, compiled⟩ : ∃ module, compile intTestProgram = .ok module :=
    exists_compiled (by decide +kernel)
  have broken : (compile intTestProgram).toOption.all
      (fun module => ¬module.WellTyped) = true := by
    decide +kernel
  rw [compiled] at broken
  exact of_decide_eq_true broken (always module compiled)

end Lambpie.Compiler

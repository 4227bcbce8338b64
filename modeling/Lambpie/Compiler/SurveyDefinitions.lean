/-
The survey follows definitions.

A function takes the builder to a block of its own, from which it does not come
back; a generated `__init__` does.
-/
import Lambpie.Compiler.SurveyVisits

namespace Lambpie.Compiler

open Foundations
open Foundations.Comp

section

variable {pending : List LiveBlock}

theorem CodeFacts.begin {live : List LiveBlock} {state : CompilerState}
    {tidy typed : Bool}
    (facts : CodeFacts live state.module.rets state.module.blockCount
      state.module.code tidy typed)
    (func : Function) :
    CodeFacts ((state.nextLabel state.module.functions.length, func.ret) :: live)
      (state.begin func).module.rets (state.begin func).module.blockCount
      (state.begin func).module.code tidy typed := by
  rw [rets_begin]
  refine (facts.declare func.ret).appendBlock rfl ?_
  change (state.module.rets ++ [func.ret])[state.module.functions.length]? = _
  rw [← length_rets, List.getElem?_concat_length]

private theorem tables_begin (state : CompilerState) (func : Function) :
    (state.begin func).tables = (state.addFunction func).tables :=
  tables_appendBlock (state.addFunction func) state.module.functions.length

/-- The first block of a new function, apart from the block before it. -/
theorem tracks_enter {live : List LiveBlock} (name : String) (ret : LType)
    (params : List LType) :
    Tracks (fun state survey =>
        (state.tables = survey.toTables ∧
          ∀ name, (survey.layouts name).isSome → (survey.types name).isSome) ∧
        CodeFacts live state.module.rets state.module.blockCount state.module.code
          survey.tidy survey.typed)
      (beginFunction name ret params) (surveyEnter name ret params)
      fun func kind state survey => func.kind = kind ∧ Agrees live state survey := by
  intro state survey before
  have named : state.module.nameUsed name = survey.used name :=
    congrFun (congrArg Tables.used before.1.1) name
  unfold surveyEnter surveyUse
  rw [then_assoc, reads_then]
  cases isUsed : survey.used name with
  | true =>
      unfold beginFunction addFunction
      rw [then_assoc, reads_then, named, isUsed]
      exact .neither
  | false =>
      let func : Function := { name, ret, params, varArg := false, entry := none }
      have run : beginFunction name ret params state = .ok (_, state.begin func) :=
        beginFunction_ok_iff.mpr ⟨named.trans isUsed, rfl, rfl⟩
      rw [run]
      refine .both ⟨rfl, ⟨?_, before.1.2⟩, .continued (before.2.begin func)⟩
      rw [tables_begin]
      exact tables_addFunction before.1.1 func

theorem follows_beginFunction (name : String) (ret : LType) (params : List LType) :
    Follows Value.kind (beginFunction name ret params) (surveyBegin name ret params) :=
  fun _ state survey agrees =>
    tracks_enter name ret params state survey.leave ⟨agrees.1, agrees.2.leave⟩

private theorem follows_storeParams (params : List (String × LType)) (index : Nat) :
    Follows id (storeParams index params) (surveyParams params) := by
  induction params generalizing index with
  | nil => exact .pure rfl
  | cons param rest ih =>
      obtain ⟨name, type⟩ := param
      refine (follows_alloca type).bind fun argAlloc => ?_
      refine (follows_store _ (.value argAlloc)).bind fun _ => ?_
      exact (follows_setLocal name argAlloc).bind fun _ => ih (index + 1)

private theorem follows_paramTypes (args : List (String × Option Node)) :
    Follows id (paramTypes args) (surveyParamTypes args) := by
  induction args with
  | nil => exact .pure rfl
  | cons arg rest ih =>
      obtain ⟨arg, annotation⟩ := arg
      unfold paramTypes surveyParamTypes
      split
      · exact ih
      · refine (follows_getType? annotation).bind fun type => ?_
        exact ih.bind fun types => .pure rfl

private theorem follows_selfParam (className : Option String) :
    Follows id (selfParam className) (surveySelf className) := by
  cases className with
  | none => exact .pure rfl
  | some className => exact (follows_type className).bind fun type => .pure rfl

private theorem follows_switchArena (className : Option String) (name : String) :
    Follows (fun _ => PUnit.unit) (switchArena className name) (pure .unit) := by
  refine follows_aside fun _ state survey agrees => ?_
  split
  · exact agrees
  · exact agrees

private theorem follows_openFunction (className : Option String) (name : String)
    (args : List (String × Option Node)) (returns : Option Node) :
    Follows id (openFunction className name args returns)
      (surveyOpen className name args returns) := by
  refine (follows_switchArena className name).before fun _ => ?_
  refine (follows_getType? returns).bind fun ret => ?_
  refine (follows_selfParam className).bind fun self => ?_
  refine (follows_paramTypes args).bind fun types => ?_
  refine (follows_beginFunction _ _ _).bind fun func => ?_
  refine (follows_setGlobal _ (.value func)).bind fun _ => ?_
  refine follows_clearLocals.bind fun _ => ?_
  exact (follows_storeParams _ 0).bind fun _ => .pure rfl

private theorem tracks_closeFunction (returnType : LType) :
    Tracks (Agrees pending) (closeFunction returnType) (surveyClose returnType)
      fun _ _ => Ended pending := by
  unfold closeFunction surveyClose
  by_cases isVoid : returnType = .void
  · subst isVoid
    exact @tracks_terminateUnless pending .retVoid rfl _ fun _ => rfl
  · simp only [if_pos isVoid]
    exact @tracks_terminateUnless pending .unreachable rfl _ fun ret => by
      simp [isVoid, Instr.fits]

theorem follows_functionDef {body : Visit Unit} {checkBody : Check Unit}
    (className : Option String) (name : String) (args : List (String × Option Node))
    (returns : Option Node) (followsBody : Follows id body checkBody) :
    Follows PyVal.kind (visitFunctionDef className name args returns body)
      (surveyFunctionDef className name args returns checkBody) := by
  refine follows_arena.before fun savedArena => ?_
  refine (follows_openFunction className name args returns).bind fun ret => ?_
  refine followsBody.bind fun _ pending => ?_
  refine (tracks_closeFunction ret).bind fun _ _ => ?_
  exact .before (fun _ _ ended => .both ended.agrees) fun _ =>
    tracks_none fun _ _ agrees => agrees

/-- Where the builder comes back to, with the blocks that are live meanwhile. -/
inductive Paused (pending : List LiveBlock) (rets : List LType) (code : List Emitted) :
    Option Label → Option Place → List LiveBlock → Prop
  | nowhere : Paused pending rets code none none pending
  | ended {label : Label} {ret : LType} {last : Emitted} (member : last ∈ code)
      (inBlock : last.block = label) (terminates : last.instr.isTerminator = true)
      (known : rets[label.func]? = some ret) :
      Paused pending rets code (some label) (some { ret, isOpen := false }) pending
  | continued {label : Label} {ret : LType} :
      Paused pending rets code (some label) (some { ret, isOpen := true })
        ((label, ret) :: pending)

section

variable {rets : List LType} {blockCount : Nat} {code : List Emitted}
  {tidy typed : Bool} {builder : Option Label} {place : Option Place}
  {live : List LiveBlock}

private theorem Standing.pause
    (stands : Standing pending rets blockCount code tidy typed builder place) :
    ∃ live, Paused pending rets code builder place live ∧
      CodeFacts live rets blockCount code tidy typed := by
  cases stands with
  | nowhere facts => exact ⟨pending, .nowhere, facts⟩
  | ended member inBlock terminates known facts =>
      exact ⟨pending, .ended member inBlock terminates known, facts⟩
  | continued facts => exact ⟨_, .continued, facts⟩

private theorem Paused.resume (paused : Paused pending rets code builder place live)
    (facts : CodeFacts live rets blockCount code tidy typed) :
    Standing pending rets blockCount code tidy typed builder place := by
  cases paused with
  | nowhere => exact .nowhere facts
  | ended member inBlock terminates known =>
      exact .ended member inBlock terminates known facts
  | continued => exact .continued facts

theorem Paused.append (paused : Paused pending rets code builder place live)
    (entry : Emitted) : Paused pending rets (code ++ [entry]) builder place live := by
  cases paused with
  | nowhere => exact .nowhere
  | ended member inBlock terminates known =>
      exact .ended (List.mem_append_left _ member) inBlock terminates known
  | continued => exact .continued

theorem Paused.declare (paused : Paused pending rets code builder place live)
    (ret : LType) : Paused pending (rets ++ [ret]) code builder place live := by
  cases paused with
  | nowhere => exact .nowhere
  | ended member inBlock terminates known =>
      refine .ended member inBlock terminates ?_
      rw [List.getElem?_append_left (List.getElem?_eq_some_iff.mp known).1]
      exact known
  | continued => exact .continued

end

private theorem follows_storeFields (self : Value) (fields : List LayoutField) (arg : Nat) :
    Follows id (storeFields self arg fields) (surveyStoreFields self.kind fields) := by
  induction fields generalizing arg with
  | nil => exact .pure rfl
  | cons field rest ih =>
      refine (follows_fieldPtr (.value self) field.index).bind fun ptr => ?_
      exact (follows_store _ (.value ptr)).bind fun _ => ih (arg + 1)

/-- The blocks that were live before the constructor, and where the builder
comes back to. -/
structure Resumes (live : List LiveBlock) (saved : Option Label) (place : Option Place)
    (state : CompilerState) (survey : Survey) : Prop where
  tables : state.tables = survey.toTables ∧
    ∀ name, (survey.layouts name).isSome → (survey.types name).isSome
  builder : state.builder = saved
  place : survey.place = place
  facts : CodeFacts live state.module.rets state.module.blockCount state.module.code
    survey.tidy survey.typed

private theorem tracks_autoInit {live : List LiveBlock} {state : CompilerState} {survey : Survey}
    (tables : state.tables = survey.toTables ∧
      ∀ name, (survey.layouts name).isSome → (survey.types name).isSome)
    (facts : CodeFacts live state.module.rets state.module.blockCount state.module.code
      survey.tidy survey.typed)
    (className : String) (layout : Layout) :
    Tracks (fun before early => before = state ∧ early = survey)
      (generateAutoInit className layout) (surveyAutoInit className layout)
      fun _ _ => Resumes live state.builder survey.place := by
  rintro _ _ ⟨rfl, rfl⟩
  unfold generateAutoInit surveyAutoInit
  dsimp only
  rw [reads_then, reads_then]
  refine Tracks.bind (tracks_enter _ _ _) (fun func kind => .assume fun isKind => ?_)
    _ _ ⟨tables, facts⟩
  subst isKind
  refine (follows_setGlobal _ (.value func)).andThen fun _ => ?_
  refine (follows_alloca _).andThen fun slot => ?_
  refine (follows_store _ (.value slot)).andThen fun _ => ?_
  refine (follows_load (.value slot)).andThen fun self => ?_
  unfold fieldIndex
  cases layout.lookup "__ref_count__" with
  | none => exact fun _ _ _ => .neither
  | some field =>
      refine (follows_storeField self field.index (.value (i32Const 1))).andThen fun _ => ?_
      refine (follows_storeFields self (dataFields layout) 1).andThen fun _ => ?_
      have closed : Tracks (Agrees live) retVoid (closeWith (· = .void))
          fun _ _ => Ended live :=
        tracks_terminate rfl fun _ => rfl
      refine closed.bind fun _ _ => .modify fun _ _ ended => ?_
      exact ⟨ended.2.1, rfl, rfl, ended.2.2.facts_of_ended ended.1⟩

private theorem follows_autoInit (className : String) (layout : Layout) :
    Follows id (generateAutoInit className layout) (surveyAutoInit className layout) := by
  intro pending state survey agrees
  obtain ⟨live, paused, facts⟩ := agrees.2.pause
  have kept : Ensures (· = state) (generateAutoInit className layout) fun _ after =>
      Paused pending after.module.rets after.module.code state.builder survey.place live := by
    let holds (after : CompilerState) : Prop :=
      Paused pending after.module.rets after.module.code state.builder survey.place live
    have defines (before : CompilerState) (same : before = state)
        (_ : before.module.nameUsed s!"{className}___init__" = false) :
        holds (before.define s!"{className}___init__" .void
          (.ptr (.struct className) :: (dataFields layout).map (·.type))) := by
      subst same
      have declared := paused.declare .void
      rw [← rets_begin before { name := s!"{className}___init__", ret := .void
                                params := _, varArg := false, entry := none }] at declared
      exact declared
    have closes : Ensures holds retVoid fun _ => holds := by
      intro before _ after held run
      obtain ⟨label, -, -, rfl⟩ := terminate_ok_iff.mp run
      exact held.append _
    exact ensures_generateAutoInit (fun _ => holds) (fun _ => holds) defines
      (fun _ _ _ _ _ _ held _ => held.append _) (fun _ => closes) fun _ _ held => held
  have tracks := (tracks_autoInit agrees.1 facts className layout).ensuring kept
  refine tracks.weaken ?_ state survey ⟨rfl, rfl, rfl⟩
  rintro _ _ after late ⟨resumed, ends⟩
  have stands := resumed.resume ends.facts
  rw [← ends.builder, ← ends.place] at stands
  exact ⟨rfl, ends.tables, stands⟩

private theorem follows_getIdentifiedType (name : String) :
    Follows id (getIdentifiedType name) (surveyIdentify name) := by
  refine follows_modify fun _ state survey agrees => ?_
  have isStruct : state.module.struct? name = survey.structs.find? (·.name = name) := by
    rw [← agrees.structs]
    rfl
  have same := agrees.1.1
  dsimp only
  unfold identify
  rw [← isStruct]
  cases state.module.struct? name with
  | some struct => exact agrees
  | none =>
      refine ⟨⟨?_, agrees.1.2⟩, agrees.2⟩
      unfold CompilerState.tables at same ⊢
      rw [← same]
      rfl

private theorem follows_setBody (name : String) (elements : List LType) :
    Follows id (setBody name elements) (surveyStruct name elements) := by
  refine (follows_reads id fun _ _ _ agrees => agrees.struct? name).bind fun struct => ?_
  have sets : Follows id
      (Comp.modify fun state => { state with module :=
          { state.module with
            structs := state.module.structs.map fun struct =>
              if struct.name = name then { struct with elements := some elements }
              else struct } } : Visit _)
      (Comp.modify fun survey =>
        { survey with structs := withBody survey.structs name elements }) := by
    refine follows_modify fun _ state survey agrees => ⟨⟨?_, agrees.1.2⟩, agrees.2⟩
    have same := agrees.1.1
    unfold CompilerState.tables at same ⊢
    rw [← same]
    rfl
  cases struct with
  | none => exact sets
  | some struct =>
      obtain ⟨_, elements⟩ := struct
      cases elements with
      | none => exact sets
      | some elements => exact .fail _

private theorem follows_classFields (body : List Node) (index : Nat) :
    Follows id (classFields index body) (surveyFields index body) := by
  induction body generalizing index with
  | nil => exact .pure rfl
  | cons stmt rest ih =>
      cases stmt with
      | annAssign target annotation default =>
          refine (follows_targetName target).bind fun name => ?_
          refine (follows_getType annotation).bind fun type => ?_
          exact (ih (index + 1)).bind fun fields => .pure rfl
      | _ => exact ih index

theorem Agrees.setClass {state : CompilerState} {survey : Survey}
    (agrees : Agrees pending state survey) (className : String) (layout : Layout) :
    Agrees pending
      { state with
        types := state.types.set className (.ptr (.struct className))
        classLayouts := state.classLayouts.set className layout }
      (survey.setClass className layout) := by
  refine ⟨⟨?_, ?_⟩, agrees.2⟩
  · have same := agrees.1.1
    unfold CompilerState.tables Survey.setClass at *
    rw [← same]
  · intro name isSome
    change (survey.layouts.set className layout name).isSome at isSome
    change (survey.types.set className (.ptr (.struct className)) name).isSome
    by_cases same : name = className
    · rw [same, Scope.set_self]
      rfl
    · rw [Scope.set_of_ne _ _ same] at isSome ⊢
      exact agrees.1.2 name isSome

/-- The class is known by its type and its layout before its `__init__`. -/
theorem follows_registered {next : Visit Unit} {follow : Check Unit}
    (className : String) (layout : Layout) (follows : Follows id next follow) :
    Follows id
      (do
        setType className (.ptr (.struct className))
        Comp.modify fun state =>
          { state with classLayouts := state.classLayouts.set className layout }
        next)
      (do
        surveyClass className layout
        follow) := by
  intro pending state survey agrees
  exact follows pending _ _ (agrees.setClass className layout)

theorem follows_declareClass (className : String) (body : List Node) :
    Follows id (declareClass className body) (surveyDeclareClass className body) := by
  refine (follows_getIdentifiedType className).bind fun _ => ?_
  refine (follows_classFields body 1).bind fun fields => ?_
  refine (follows_setBody className _).bind fun _ => ?_
  refine follows_registered className _ ?_
  cases hasInit body with
  | true => exact .pure rfl
  | false => exact follows_autoInit className _

private theorem follows_signature (name : String) :
    Follows id (cSignature name) (surveySignature name) := by
  refine (follows_type "__ptr__").bind fun ptr => ?_
  refine (follows_type "int").bind fun int => ?_
  dsimp only [id]
  split
  · exact .pure rfl
  split
  · exact .pure rfl
  split
  · exact .pure rfl
  split
  · exact .pure rfl
  · exact .fail _

private theorem follows_imports (names : List (String × Option String)) :
    Follows id (importNames names) (surveyImports names) := by
  induction names with
  | nil => exact .pure rfl
  | cons entry rest ih =>
      obtain ⟨name, asname⟩ := entry
      refine (follows_global name).bind fun known => ?_
      cases known with
      | some val => exact ih
      | none =>
          refine (follows_signature name).bind fun signature => ?_
          refine (follows_addFunction _ _ _ _).bind fun func => ?_
          exact (follows_setGlobal name (.value func)).bind fun _ => ih

theorem follows_importFrom (module : Option String)
    (names : List (String × Option String)) :
    Follows PyVal.kind (visitImportFrom module names)
      (surveyImportFrom module names) := by
  unfold visitImportFrom surveyImportFrom
  split
  · exact (follows_imports names).bind fun _ => .pure rfl
  · exact .fail _

end

end Lambpie.Compiler

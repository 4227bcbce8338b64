/-
What the visitors of definitions keep.

Functions, classes and imports change the module's tables; each visitor is
followed once, for whatever the changes keep.
-/
import Lambpie.Compiler.Emits

namespace Lambpie.Compiler

open Foundations
open Foundations.Comp

section

variable {holds : CompilerState → Prop}

/-- An annotation may add the type of a class that has a layout and no type. -/
theorem keeps_namedType_of
    (registers : ∀ state name, holds state → state.types name = none →
      (state.classLayouts name).isSome →
        holds { state with types := state.types.set name (.ptr (.struct name)) })
    (name : String) : Keeps holds (namedType name) := by
  have readTypes : Ensures holds (Comp.reads (·.types) : Visit _)
      fun types state => types = state.types ∧ holds state :=
    .reads fun _ before => ⟨rfl, before⟩
  refine readTypes.bind fun types => ?_
  split
  · exact (keeps_lookup_only _ _).strengthen fun _ before => before.2
  · cases found : types name with
    | some type => exact .pure fun _ before => before.2
    | none =>
        have readLayout : Ensures (fun state => types = state.types ∧ holds state)
            (Comp.reads fun state => state.classLayouts name : Visit _)
            fun layout state => state.classLayouts name = layout ∧
              state.types name = none ∧ holds state :=
          .reads fun _ before => ⟨rfl, before.1 ▸ found, before.2⟩
        refine readLayout.bind fun layout => ?_
        cases layout with
        | none => exact .fail _
        | some layout =>
            have added : Ensures
                (fun state => state.classLayouts name = some layout ∧
                  state.types name = none ∧ holds state)
                (setType name (.ptr (.struct name))) (fun _ => holds) := by
              refine .modify fun state before => ?_
              apply registers state name before.2.2 before.2.1
              rw [before.1]
              rfl
            exact added.bind fun _ => keeps_pure _

theorem keeps_getType_of
    (registers : ∀ state name, holds state → state.types name = none →
      (state.classLayouts name).isSome →
        holds { state with types := state.types.set name (.ptr (.struct name)) })
    (node : Node) : Keeps holds (getType node) := by
  fun_induction getType node with
  | case1 name => exact keeps_namedType_of registers name
  | case2 => exact keeps_lookup_only _ _
  | case3 slice ih =>
      exact ih.bind fun inner =>
        (keeps_asPointer inner).weaken fun _ _ after => after.2
  | case4 elem count ih =>
      refine ih.bind fun elemType => ?_
      cases countLiteral count with
      | some count => exact keeps_pure _
      | none => exact .fail _
  | _ => exact .fail _

/-- A class has its type in `types` when it has a layout, so that no annotation
adds one. -/
theorem keeps_getType
    (registered : ∀ state, holds state → ∀ name,
      (state.classLayouts name).isSome → (state.types name).isSome)
    (node : Node) : Keeps holds (getType node) := by
  apply keeps_getType_of
  intro state name before absent laidOut
  have present := registered state before name laidOut
  rw [absent] at present
  cases present

end

theorem map_modify {α : Type} (read : Function → α) (functions : List Function)
    (index : Nat) (change : Function → Function)
    (keeps : ∀ func, read (change func) = read func) :
    (functions.modify index change).map read = functions.map read := by
  induction functions generalizing index with
  | nil => cases index <;> rfl
  | cons func rest ih =>
      cases index with
      | zero => simp [keeps]
      | succ index => simp [ih]

theorem nameUsed_eq (module : Module) (name : String) :
    module.nameUsed name =
      ((module.functions.map (·.name)).any (· = name) ||
        module.globals.any (·.name = name)) := by
  unfold Module.nameUsed
  rw [List.any_map]
  rfl

@[simp] theorem nameUsed_appendBlock (state : CompilerState) (index : Nat)
    (name : String) :
    (state.appendBlock index).module.nameUsed name = state.module.nameUsed name := by
  rw [nameUsed_eq, nameUsed_eq]
  simp only [CompilerState.appendBlock]
  rw [map_modify (·.name)]
  exact fun _ => rfl

theorem nameUsed_addFunction (state : CompilerState) (func : Function) (name : String) :
    (state.addFunction func).module.nameUsed name =
      (state.module.nameUsed name || func.name = name) := by
  simp only [nameUsed_eq, CompilerState.addFunction, List.map_append, List.any_append,
    List.map_cons, List.map_nil, List.any_cons, List.any_nil, Bool.or_false]
  cases (state.module.functions.map (·.name)).any (· = name) <;>
    cases decide (func.name = name) <;> simp

theorem nameUsed_addGlobal (state : CompilerState) (global : Global) (name : String) :
    (state.addGlobal global).module.nameUsed name =
      (state.module.nameUsed name || global.name = name) := by
  simp [Module.nameUsed, CompilerState.addGlobal, Bool.or_assoc]

def functionValueOf (func : Function) (index : Nat) : Value where
  type := .ptr func.type
  operand := .func index

theorem addFunction_ok_iff {name : String} {ret : LType} {params : List LType}
    {varArg : Bool} {result : Value} {state state' : CompilerState} :
    addFunction name ret params varArg state = .ok (result, state') ↔
      state.module.nameUsed name = false ∧
        result = functionValueOf { name, ret, params, varArg, entry := none }
          state.module.functions.length ∧
        state' = state.addFunction { name, ret, params, varArg, entry := none } := by
  unfold addFunction
  rw [bind_ok_iff]
  constructor
  · rintro ⟨used, middle, read, run⟩
    obtain ⟨rfl, rfl⟩ := reads_ok_iff.mp read
    cases used : state.module.nameUsed name with
    | true =>
        rw [used, if_pos rfl] at run
        exact (fail_ok_iff.mp run).elim
    | false =>
        rw [used, if_neg Bool.false_ne_true] at run
        simp only [bind_ok_iff, reads_ok_iff, modify_ok_iff, pure_ok_iff] at run
        obtain ⟨_, _, ⟨rfl, rfl⟩, _, _, rfl, rfl, rfl⟩ := run
        exact ⟨rfl, rfl, rfl⟩
  · rintro ⟨unused, rfl, rfl⟩
    refine ⟨false, state, reads_ok_iff.mpr ⟨unused, rfl⟩, ?_⟩
    rw [if_neg Bool.false_ne_true]
    simp [functionValueOf]

theorem beginFunction_ok_iff {name : String} {ret : LType} {params : List LType}
    {result : Value} {state state' : CompilerState} :
    beginFunction name ret params state = .ok (result, state') ↔
      state.module.nameUsed name = false ∧
        result = functionValueOf
          { name, ret, params, varArg := false, entry := none }
          state.module.functions.length ∧
        state' = state.begin
          { name, ret, params, varArg := false, entry := none } := by
  unfold beginFunction appendBlock positionAtEnd
  simp only [bind_ok_iff, reads_ok_iff, modify_ok_iff, pure_ok_iff, addFunction_ok_iff]
  constructor
  · rintro ⟨_, _, ⟨unused, rfl, rfl⟩, _, _, ⟨rfl, rfl⟩, _, _,
      ⟨_, _, ⟨rfl, rfl⟩, _, _, rfl, rfl, rfl⟩, _, _, rfl, rfl, rfl⟩
    refine ⟨unused, rfl, ?_⟩
    simp [CompilerState.begin, CompilerState.addFunction, CompilerState.nextLabel]
  · rintro ⟨unused, rfl, rfl⟩
    refine ⟨_, _, ⟨unused, rfl, rfl⟩, _, _, ⟨rfl, rfl⟩, _, _,
      ⟨_, _, ⟨rfl, rfl⟩, (), _, rfl, rfl, rfl⟩, (), _, rfl, rfl, ?_⟩
    simp [CompilerState.begin, CompilerState.addFunction, CompilerState.nextLabel]

def CompilerState.define (state : CompilerState) (name : String) (ret : LType)
    (params : List LType) : CompilerState :=
  let func : Function := { name, ret, params, varArg := false, entry := none }
  { state.begin func with
    globalScope := state.globalScope.set name
      (.value (functionValueOf func state.module.functions.length)) }

section

variable {pre mid post : CompilerState → Prop}

private theorem keeps_getType? (types : ∀ node, Keeps mid (getType node))
    ( annotation : Option Node) : Keeps mid (getType? annotation) := by
  cases annotation with
  | some annotation => exact types annotation
  | none => exact .fail _

private theorem ensures_paramTypes (types : ∀ node, Keeps mid (getType node))
    (args : List (String × Option Node)) :
    Ensures mid (paramTypes args) fun found state =>
      found.length = (paramNames args).length ∧ mid state := by
  induction args with
  | nil => exact .pure fun _ before => ⟨rfl, before⟩
  | cons arg rest ih =>
      obtain ⟨name, annotation⟩ := arg
      have names : paramNames ((name, annotation) :: rest) =
          if name = "self" then paramNames rest else name :: paramNames rest := by
        by_cases isSelf : name = "self"
        · simp [paramNames, isSelf]
        · simp [paramNames, isSelf]
      rw [paramTypes, names]
      split
      · exact ih
      · refine (keeps_getType? types annotation).bind fun type => ?_
        refine ih.bind fun found => .assume fun sameLength => .pure fun _ before => ⟨?_, before⟩
        rw [List.length_cons, List.length_cons, sameLength]

def paramCount (className : Option String) (args : List (String × Option Node)) : Nat :=
  className.toList.length + (paramNames args).length

theorem keeps_storeParams (emits : EmitsPlain post)
    (locals : ∀ state name alloc, Value.IsReg alloc → post state →
      post { state with localScope := state.localScope.set name alloc })
    (index : Nat) (params : List (String × LType)) :
    Keeps post (storeParams index params) := by
  induction params generalizing index with
  | nil => exact keeps_pure _
  | cons param rest ih =>
      obtain ⟨name, type⟩ := param
      refine (keeps_alloca emits type).bind fun argAlloc => .assume fun isReg => ?_
      refine (keeps_store emits.operand _ _).bind fun _ => ?_
      have added : Keeps post (setLocal name argAlloc) :=
        .modify fun state kept => locals state name argAlloc isReg kept
      exact added.bind fun _ => ih (index + 1)

/-- From the header of a function to its body, by way of the arena switch, the
definition and the slots of the parameters. -/
theorem ensures_openFunctionOf {entered : CompilerState → Prop}
    {className : Option String} {name : String} {args : List (String × Option Node)}
    (arena : ∀ state, pre state →
      mid (if className = none ∧ name = "handle" then
        { state with currentArena := .req } else state))
    (types : ∀ node, Keeps mid (getType node))
    (defines : ∀ state ret params, mid state →
      state.module.nameUsed (functionName className name) = false →
        entered { state.define (functionName className name) ret params with
          localScope := .empty })
    (stores : ∀ params, params.length = paramCount className args →
      Ensures entered (storeParams 0 params) (fun _ => post))
    (returns : Option Node) :
    Ensures pre (openFunction className name args returns) (fun _ => post) := by
  have switched : Ensures pre (switchArena className name) (fun _ => mid) :=
    .modify arena
  refine switched.bind fun _ => ?_
  refine (keeps_getType? types returns).bind fun returnType => ?_
  have self : Ensures mid (selfParam className) fun found state =>
      found.length = className.toList.length ∧ mid state := by
    cases className with
    | some className =>
        exact (keeps_lookup_only _ _).bind fun _ => .pure fun _ before => ⟨rfl, before⟩
    | none => exact .pure fun _ before => ⟨rfl, before⟩
  refine self.bind fun self => .assume fun selfLength => ?_
  refine (ensures_paramTypes types args).bind fun argTypes => .assume fun argLength => ?_
  have defined (params : List LType) : Ensures mid
      (beginFunction (functionName className name) returnType params)
      fun func state => entered { state with
        globalScope := state.globalScope.set (functionName className name)
          (.value func)
        localScope := .empty } := by
    intro state func state' before run
    obtain ⟨unused, rfl, rfl⟩ := beginFunction_ok_iff.mp run
    exact defines state _ _ before unused
  refine (defined _).bind fun func => ?_
  have registered : Ensures _ (setGlobal (functionName className name) (.value func))
      fun _ state => entered { state with localScope := .empty } :=
    .modify fun _ before => before
  have cleared : Ensures (fun state => entered { state with localScope := .empty })
      clearLocals (fun _ => entered) :=
    .modify fun _ before => before
  refine registered.bind fun _ => cleared.bind fun _ => ?_
  have stored : Ensures entered (storeParams 0 (self ++ (paramNames args).zip argTypes))
      (fun _ => post) := by
    apply stores
    rw [List.length_append, List.length_zip, argLength, Nat.min_self, selfLength, paramCount]
  exact stored.bind fun _ => keeps_pure _

theorem ensures_openFunction {className : Option String} {name : String}
    (arena : ∀ state, pre state →
      mid (if className = none ∧ name = "handle" then
        { state with currentArena := .req } else state))
    (types : ∀ node, Keeps mid (getType node))
    (defines : ∀ state ret params, mid state →
      state.module.nameUsed (functionName className name) = false →
        post { state.define (functionName className name) ret params with
          localScope := .empty })
    (emits : EmitsPlain post)
    (locals : ∀ state name alloc, Value.IsReg alloc → post state →
      post { state with localScope := state.localScope.set name alloc })
    (args : List (String × Option Node)) (returns : Option Node) :
    Ensures pre (openFunction className name args returns) (fun _ => post) :=
  ensures_openFunctionOf arena types defines
    (fun params _ => keeps_storeParams emits locals 0 params) returns

theorem keeps_closeFunction (emits : Emits post) (returnType : LType) :
    Keeps post (closeFunction returnType) := by
  refine keeps_isTerminated.bind fun terminated => ?_
  cases terminated with
  | true => exact keeps_pure _
  | false =>
      rw [if_neg Bool.false_ne_true]
      split
      · exact keeps_terminate emits rfl
      · exact keeps_terminate emits rfl

private theorem keeps_classFields (types : ∀ node, Keeps mid (getType node))
    (body : List Node) (index : Nat) :
    Ensures mid (classFields index body) fun _ state =>
      (∀ target annotation default, .annAssign target annotation default ∈ body →
        ∃ id, target = .name id) ∧ mid state := by
  have skip (stmt : Node) (rest : List Node) (index : Nat)
      (notField : ∀ target annotation default,
        stmt ≠ .annAssign target annotation default)
      (ih : Ensures mid (classFields index rest) fun _ state =>
        (∀ target annotation default, .annAssign target annotation default ∈ rest →
          ∃ id, target = .name id) ∧ mid state) :
      Ensures mid (classFields index rest) fun _ state =>
        (∀ target annotation default,
          .annAssign target annotation default ∈ stmt :: rest →
            ∃ id, target = .name id) ∧ mid state :=
    ih.weaken fun _ _ after => ⟨fun target annotation default member =>
      (List.mem_cons.mp member).elim
        (fun same => (notField target annotation default same.symm).elim)
        (after.1 target annotation default), after.2⟩
  induction body generalizing index with
  | nil =>
      exact .pure fun _ before => ⟨fun _ _ _ member => (List.not_mem_nil member).elim, before⟩
  | cons stmt rest ih =>
      cases stmt with
      | annAssign target annotation default =>
          refine (keeps_targetName target).bind fun name => .assume fun isName => ?_
          refine (types annotation).bind fun type => ?_
          refine (ih (index + 1)).bind fun fields => .assume fun named => ?_
          refine .pure fun _ before => ⟨fun other _ _ member => ?_, before⟩
          obtain same | later := List.mem_cons.mp member
          · cases same
            exact ⟨name, isName⟩
          · exact named other _ _ later
      | _ => exact skip _ rest index (fun _ _ _ => Node.noConfusion) (ih index)

private theorem keeps_storeFields (emits : EmitsOperand mid) (selfPtr : Value) (arg : Nat)
    (fields : List LayoutField) : Keeps mid (storeFields selfPtr arg fields) := by
  induction fields generalizing arg with
  | nil => exact keeps_pure _
  | cons field rest ih =>
      refine (keeps_fieldPtr emits _ _).bind fun ptr => .assume fun _ => ?_
      exact (keeps_store emits _ _).bind fun _ => ih (arg + 1)

theorem ensures_generateAutoInitOf {className : String} {layout : Layout}
    (entered inside closed : Option Label → CompilerState → Prop)
    (defines : ∀ state, pre state →
      state.module.nameUsed s!"{className}___init__" = false →
        entered state.builder (state.define s!"{className}___init__" .void
          (.ptr (.struct className) :: (dataFields layout).map (·.type))))
    (allocates : ∀ saved, Ensures (entered saved) (alloca (.ptr (.struct className)))
      (fun _ => inside saved))
    (emits : ∀ saved, EmitsOperand (inside saved))
    (closes : ∀ saved, Ensures (inside saved) retVoid (fun _ => closed saved))
    (restores : ∀ saved state, closed saved state →
      post { state with builder := saved }) :
    Ensures pre (generateAutoInit className layout) (fun _ => post) := by
  have read : Ensures pre (Comp.reads (·.builder) : Visit _) fun builder state =>
      state.builder = builder ∧ pre state :=
    .reads fun state before => ⟨rfl, before⟩
  refine read.bind fun saved => ?_
  have defined : Ensures (fun state => state.builder = saved ∧ pre state)
      (beginFunction s!"{className}___init__" .void
        (.ptr (.struct className) :: (dataFields layout).map (·.type)))
      fun func state => entered saved { state with
        globalScope := state.globalScope.set s!"{className}___init__"
          (.value func) } := by
    rintro state func state' ⟨rfl, before⟩ run
    obtain ⟨unused, rfl, rfl⟩ := beginFunction_ok_iff.mp run
    exact defines state before unused
  refine defined.bind fun func => ?_
  have registered : Ensures _
      (setGlobal s!"{className}___init__" (.value func)) (fun _ => entered saved) :=
    .modify fun _ before => before
  refine registered.bind fun _ => ?_
  refine (allocates saved).bind fun selfAlloc => ?_
  refine (keeps_store (emits saved) _ _).bind fun _ => ?_
  refine (keeps_load (emits saved) _).bind fun selfPtr => .assume fun _ => ?_
  have rest : Ensures (inside saved)
      (do
        storeFields selfPtr 1 (dataFields layout)
        retVoid
        Comp.modify fun state => { state with builder := saved } : Visit Unit)
      (fun _ => post) :=
    (keeps_storeFields (emits saved) _ _ _).bind fun _ =>
      (closes saved).bind fun _ => .modify (restores saved)
  cases layout.lookup "__ref_count__" with
  | none => exact .fail _
  | some field => exact (keeps_storeField (emits saved) _ _ _).bind fun _ => rest

theorem ensures_generateAutoInit {className : String} {layout : Layout}
    (inside closed : Option Label → CompilerState → Prop)
    (defines : ∀ state, pre state →
      state.module.nameUsed s!"{className}___init__" = false →
        inside state.builder (state.define s!"{className}___init__" .void
          (.ptr (.struct className) :: (dataFields layout).map (·.type))))
    (emits : ∀ saved, EmitsPlain (inside saved))
    (closes : ∀ saved, Ensures (inside saved) retVoid (fun _ => closed saved))
    (restores : ∀ saved state, closed saved state →
      post { state with builder := saved }) :
    Ensures pre (generateAutoInit className layout) (fun _ => post) :=
  ensures_generateAutoInitOf inside inside closed defines
    (fun saved => (keeps_alloca (emits saved) _).weaken fun _ _ after => after.2)
    (fun saved => (emits saved).operand) closes restores

/-- With an explicit `__init__` the class is only registered. -/
theorem ensures_declareClass {className : String} {body : List Node}
    (types : ∀ node, Keeps pre (getType node))
    (structs : ∀ state structs, pre state →
      pre { state with module := { state.module with structs } })
    (registers : ∀ state layout, pre state → mid { state with
      types := state.types.set className (.ptr (.struct className))
      classLayouts := state.classLayouts.set className layout })
    (autoInit : ∀ layout, Ensures mid (generateAutoInit className layout)
      (fun _ => post)) :
    Ensures pre (declareClass className body) fun _ state =>
      (∀ target annotation default, .annAssign target annotation default ∈ body →
        ∃ id, target = .name id) ∧
      if hasInit body then mid state else post state := by
  have identified : Keeps pre (getIdentifiedType className) := by
    refine .modify fun state before => ?_
    cases state.module.struct? className with
    | some struct => exact before
    | none => exact structs state _ before
  refine identified.bind fun _ => ?_
  refine (keeps_classFields types body 1).bind fun fields => .assume fun named => ?_
  have bodySet (elements : List LType) : Keeps pre (setBody className elements) := by
    refine (keeps_reads _).bind fun struct => ?_
    split
    · exact .fail _
    · exact .modify fun state before => structs state _ before
  refine (bodySet _).bind fun _ => ?_
  generalize (refCountField :: fields).foldl Layout.insert [] = layout
  have typed : Ensures pre (setType className (.ptr (.struct className)))
      fun _ state => mid { state with
        classLayouts := state.classLayouts.set className layout } :=
    .modify fun state before => registers state layout before
  have laidOut : Ensures
      (fun state => mid { state with
        classLayouts := state.classLayouts.set className layout })
      (Comp.modify fun state => { state with
        classLayouts := state.classLayouts.set className layout } : Visit _)
      (fun _ => mid) :=
    .modify fun _ before => before
  refine typed.bind fun _ => laidOut.bind fun _ => ?_
  cases hasInit body with
  | true => exact .pure fun _ before => ⟨named, before⟩
  | false => exact (autoInit layout).weaken fun _ _ after => ⟨named, after⟩

theorem ensures_functionDef {inside : ArenaTag → CompilerState → Prop}
    {fact : Prop} {body : Visit Unit} {className : Option String} {name : String}
    {args : List (String × Option Node)} {returns : Option Node}
    (opens : ∀ saved, Ensures
      (fun state => state.currentArena = saved ∧ pre state)
      (openFunction className name args returns) (fun _ => inside saved))
    (does : ∀ saved, Ensures (inside saved) body fun _ state =>
      fact ∧ inside saved state)
    (emits : ∀ saved, Emits (inside saved))
    (restores : ∀ saved state, inside saved state →
      post { state with currentArena := saved }) :
    Ensures pre (visitFunctionDef className name args returns body)
      fun val state => (fact ∧ val = .none) ∧ post state := by
  refine keeps_currentArena.bind fun saved => ?_
  refine (opens saved).bind fun returnType => ?_
  refine (does saved).bind fun _ => .assume fun shown => ?_
  refine (keeps_closeFunction (emits saved) returnType).bind fun _ => ?_
  have restored : Ensures (inside saved)
      (Comp.modify fun state => { state with currentArena := saved } : Visit _)
      (fun _ => post) :=
    .modify (restores saved)
  exact restored.bind fun _ => .pure fun _ after => ⟨⟨shown, rfl⟩, after⟩

theorem ensures_methods {className : String} {fact : List Node → Prop}
    {body : List Node}
    (methods : ∀ name args returns methodBody dropped,
      .functionDef name args returns methodBody dropped ∈ body →
        Ensures mid
          (visitFunctionDef (some className) name args returns (visitBody methodBody))
          fun _ state => fact methodBody ∧ mid state) :
    Ensures mid (visitMethods className body) fun _ state =>
      (∀ name args returns methodBody dropped,
        .functionDef name args returns methodBody dropped ∈ body →
          fact methodBody) ∧ mid state := by
  induction body with
  | nil => exact .pure fun _ before =>
      ⟨fun _ _ _ _ _ member => (List.not_mem_nil member).elim, before⟩
  | cons stmt rest ih =>
      have later := ih fun _ _ _ _ _ member =>
        methods _ _ _ _ _ (List.mem_cons_of_mem _ member)
      have skip (notMethod : ∀ name args returns methodBody dropped,
          stmt ≠ .functionDef name args returns methodBody dropped) :
          Ensures mid (visitMethods className rest) fun _ state =>
            (∀ name args returns methodBody dropped,
              .functionDef name args returns methodBody dropped ∈ stmt :: rest →
                fact methodBody) ∧ mid state :=
        later.weaken fun _ _ after => ⟨fun _ _ _ _ _ member =>
          (List.mem_cons.mp member).elim
            (fun same => (notMethod _ _ _ _ _ same.symm).elim)
            (after.1 _ _ _ _ _), after.2⟩
      cases stmt with
      | functionDef name args returns methodBody dropped =>
          refine (methods _ _ _ _ _ List.mem_cons_self).bind fun _ =>
            .assume fun shown => ?_
          refine later.weaken fun _ _ after =>
            ⟨fun _ _ _ otherBody _ member => ?_, after.2⟩
          obtain same | inRest := List.mem_cons.mp member
          · cases same
            exact shown
          · exact after.1 _ _ _ _ _ inRest
      | _ => exact skip fun _ _ _ _ _ => Node.noConfusion

theorem keeps_importFrom
    (declares : ∀ state func, mid state → state.module.nameUsed func.name = false →
      func.entry = none → mid { state.addFunction func with
        globalScope := state.globalScope.set func.name
          (.value (functionValueOf func state.module.functions.length)) })
    (module : Option String) (names : List (String × Option String)) :
    Ensures mid (visitImportFrom module names) fun val state =>
      (module = some "C" ∧ val = .none) ∧ mid state := by
  have signature (name : String) : Keeps mid (cSignature name) := by
    refine (keeps_lookup_only _ _).bind fun ptr => ?_
    refine (keeps_lookup_only _ _).bind fun int => ?_
    split
    · exact keeps_pure _
    split
    · exact keeps_pure _
    split
    · exact keeps_pure _
    split
    · exact keeps_pure _
    · exact .fail _
  have imported : Keeps mid (importNames names) := by
    induction names with
    | nil => exact keeps_pure _
    | cons entry rest ih =>
        obtain ⟨name, asname⟩ := entry
        refine (keeps_reads _).bind fun found => ?_
        cases found with
        | some val => exact ih
        | none =>
            refine (signature name).bind fun signature => ?_
            have added : Ensures mid
                (addFunction name signature.ret signature.params signature.varArg)
                fun func state => mid { state with
                  globalScope := state.globalScope.set name (.value func) } := by
              intro state func state' before run
              obtain ⟨unused, rfl, rfl⟩ := addFunction_ok_iff.mp run
              exact declares state _ before unused rfl
            refine added.bind fun func => ?_
            have registered : Ensures _ (setGlobal name (.value func))
                (fun _ => mid) :=
              .modify fun _ before => before
            exact registered.bind fun _ => ih
  unfold visitImportFrom
  split
  · rename_i isC
    exact imported.bind fun _ => .pure fun _ after => ⟨⟨isC, rfl⟩, after⟩
  · exact .fail _

end

end Lambpie.Compiler

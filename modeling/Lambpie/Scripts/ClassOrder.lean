/-
Registering the generated classes in the order they are written.

The generator sorts the classes by name and the compiler resolves a field's
annotation when it visits the class.  So the classes register exactly when each
one sorts after the classes its fields name.
-/
import Lambpie.Compiler.Definitions
import Lambpie.Compiler.Entry
import Lambpie.Scripts.Parsing

namespace Lambpie.Scripts

open Foundations
open Foundations.Comp
open Lambpie.Compiler

/-- `visit_ClassDef` up to the entry in `class_layouts`. -/
def registerClass (className : String) (body : List Node) : Visit Layout := do
  getIdentifiedType className
  let fields ← classFields 1 body
  let layout := (refCountField :: fields).foldl Layout.insert []
  setBody className (refCountField.type :: fields.map (·.type))
  setType className (.ptr (.struct className))
  Comp.modify fun state =>
    { state with classLayouts := state.classLayouts.set className layout }
  pure layout

def registerClasses : List (String × StructureDef) → Visit Unit
  | [] => pure ()
  | (className, definition) :: rest => do
      let _ ← registerClass className (classBody definition)
      registerClasses rest

/-- The generated classes behind the builtins. -/
def registerGenerated (parsed : List (String × ShapeDef)) : Visit Unit := do
  visitModule builtins
  registerClasses (generatePieClasses parsed)

private theorem declareClass_eq (className : String) (body : List Node) :
    declareClass className body = (do
      let layout ← registerClass className body
      if hasInit body then pure () else generateAutoInit className layout) := by
  unfold registerClass
  simp only [then_assoc, pure_then]
  rfl

/-! ### The tables of types -/

/-- The names that have a type are the known ones. -/
structure TypeTables (known : List String) (state : CompilerState) : Prop where
  present : ∀ name ∈ known, (state.types name).isSome
  types : ∀ name, name ∉ known → state.types name = none
  layouts : ∀ name, name ∉ known → state.classLayouts name = none

/-- And so are the names of the struct types. -/
structure ClassTables (known : List String) (state : CompilerState) : Prop extends
    TypeTables known state where
  structs : ∀ struct ∈ state.module.structs, struct.name ∈ known

theorem TypeTables.registered {known : List String} {state : CompilerState}
    (tables : TypeTables known state) (name : String)
    (laidOut : (state.classLayouts name).isSome) : (state.types name).isSome := by
  by_cases inside : name ∈ known
  · exact tables.present name inside
  · rw [tables.layouts name inside] at laidOut
    cases laidOut

private theorem namedType_known {known : List String} {state : CompilerState}
    (tables : TypeTables known state) {name : String} (notBytes : name ≠ "bytes")
    (inside : name ∈ known) :
    ∃ type, namedType name state = .ok (type, state) := by
  obtain ⟨type, found⟩ := Option.isSome_iff_exists.mp (tables.present name inside)
  refine ⟨type, ?_⟩
  unfold namedType
  rw [reads_then, if_neg notBytes, found]
  rfl

private theorem namedType_unknown {known : List String} {state : CompilerState}
    (tables : TypeTables known state) {name : String} (notBytes : name ≠ "bytes")
    (outside : name ∉ known) :
    namedType name state = .error (.typeError s!"Unknown type: {name}") := by
  unfold namedType
  rw [reads_then, if_neg notBytes, tables.types name outside]
  simp only
  rw [reads_then, tables.layouts name outside]
  rfl

/-! ### One class -/

def fieldNode (item : String × ParsedMember) : Node :=
  .annAssign (.name item.1) (.name item.2.pieType) none

private theorem classFields_known {known : List String} {state : CompilerState}
    (tables : TypeTables known state) (items : List (String × ParsedMember))
    (resolved : ∀ item ∈ items, item.2.pieType ≠ "bytes" ∧ item.2.pieType ∈ known)
    (index : Nat) :
    ∃ fields, classFields index (items.map fieldNode) state = .ok (fields, state) := by
  induction items generalizing index with
  | nil => exact ⟨[], rfl⟩
  | cons item rest ih =>
      obtain ⟨notBytes, inside⟩ := resolved item List.mem_cons_self
      obtain ⟨type, typed⟩ := namedType_known tables notBytes inside
      obtain ⟨fields, others⟩ := ih
        (fun other later => resolved other (List.mem_cons_of_mem item later)) (index + 1)
      refine ⟨{ name := item.1, index, type } :: fields, ?_⟩
      rw [List.map_cons, fieldNode, classFields, bind_of_ok rfl, getType,
        bind_of_ok typed, bind_of_ok others]
      rfl

private theorem classFields_unknown {known : List String} {state : CompilerState}
    (tables : TypeTables known state) (items : List (String × ParsedMember))
    (named : ∀ item ∈ items, item.2.pieType ≠ "bytes")
    (unresolved : ∃ item ∈ items, item.2.pieType ∉ known) (index : Nat) :
    ∃ type : String, classFields index (items.map fieldNode) state =
      .error (.typeError s!"Unknown type: {type}") := by
  induction items generalizing index with
  | nil =>
      obtain ⟨item, inside, -⟩ := unresolved
      exact absurd inside List.not_mem_nil
  | cons item rest ih =>
      have notBytes := named item List.mem_cons_self
      rw [List.map_cons, fieldNode, classFields, bind_of_ok rfl, getType]
      by_cases inside : item.2.pieType ∈ known
      · obtain ⟨type, typed⟩ := namedType_known tables notBytes inside
        obtain ⟨missing, failed⟩ := ih
          (fun other later => named other (List.mem_cons_of_mem item later))
          (by
            obtain ⟨other, member, outside⟩ := unresolved
            cases List.mem_cons.mp member with
            | inl same =>
                rw [same] at outside
                exact absurd inside outside
            | inr later => exact ⟨other, later, outside⟩) (index + 1)
        exact ⟨missing, by rw [bind_of_ok typed, bind_of_error failed]⟩
      · exact ⟨_, bind_of_error (namedType_unknown tables notBytes inside)⟩

private theorem struct?_new {known : List String} {state : CompilerState}
    (tables : ClassTables known state) {className : String}
    (fresh : className ∉ known) : state.module.struct? className = none := by
  rw [Module.struct?, List.find?_eq_none]
  intro struct inside
  simp only [decide_eq_true_eq]
  intro same
  rw [← same] at fresh
  exact fresh (tables.structs struct inside)

def identified (className : String) (state : CompilerState) : CompilerState :=
  { state with module :=
    { state.module with
      structs := state.module.structs ++ [{ name := className, elements := none }] } }

private theorem identified_tables {known : List String} {state : CompilerState}
    (tables : TypeTables known state) (className : String) :
    TypeTables known (identified className state) :=
  { present := tables.present, types := tables.types, layouts := tables.layouts }

private theorem getIdentifiedType_new {known : List String} {state : CompilerState}
    (tables : ClassTables known state) {className : String}
    (fresh : className ∉ known) :
    getIdentifiedType className state = .ok ((), identified className state) := by
  have absent := struct?_new tables fresh
  simp only [getIdentifiedType, Comp.modify, absent]
  rfl

private theorem setBody_identified {known : List String} {state : CompilerState}
    (tables : ClassTables known state) {className : String}
    (fresh : className ∉ known) (elements : List LType) :
    ∃ structs, setBody className elements (identified className state) =
        .ok ((), { state with module := { state.module with structs } }) ∧
      ∀ struct ∈ structs, struct.name ∈ className :: known := by
  have found : (identified className state).module.struct? className =
      some { name := className, elements := none } := by
    have absent := struct?_new tables fresh
    unfold Module.struct? at absent ⊢
    rw [identified, List.find?_append, absent]
    simp
  refine ⟨(identified className state).module.structs.map fun struct =>
    if struct.name = className then { struct with elements := some elements }
    else struct, ?_, ?_⟩
  · unfold setBody
    rw [reads_then, found]
    rfl
  · intro struct inside
    obtain ⟨before, member, rfl⟩ := List.mem_map.mp inside
    have named : before.name ∈ className :: known := by
      cases List.mem_append.mp member with
      | inl old => exact List.mem_cons_of_mem _ (tables.structs before old)
      | inr new =>
          rw [List.mem_singleton.mp new]
          exact List.mem_cons_self
    by_cases same : before.name = className
    · rw [if_pos same]
      exact named
    · rw [if_neg same]
      exact named

/-- A class whose field types are all known is registered under its name. -/
theorem registerClass_known {known : List String} {state : CompilerState}
    (tables : ClassTables known state) {className : String} {body : List Node}
    (fresh : className ∉ known) {fields : List LayoutField}
    (resolved : classFields 1 body (identified className state) =
      .ok (fields, identified className state)) :
    ∃ layout state', registerClass className body state = .ok (layout, state') ∧
      ClassTables (className :: known) state' := by
  obtain ⟨structs, bodySet, named⟩ := setBody_identified tables fresh
    (refCountField.type :: fields.map (·.type))
  let layout := (refCountField :: fields).foldl Layout.insert []
  refine ⟨layout, { state with
    module := { state.module with structs }
    types := state.types.set className (.ptr (.struct className))
    classLayouts := state.classLayouts.set className layout }, ?_, ?_⟩
  · unfold registerClass
    rw [bind_of_ok (getIdentifiedType_new tables fresh), bind_of_ok resolved,
      bind_of_ok bodySet, setType, modify_then, modify_then]
    rfl
  · refine { present := ?_, types := ?_, layouts := ?_, structs := named }
    · intro name inside
      by_cases same : name = className
      · subst same
        simp
      · simp only [Scope.set_of_ne _ _ same]
        refine tables.present name ?_
        exact (List.mem_cons.mp inside).resolve_left same
    · intro name outside
      rw [List.mem_cons, not_or] at outside
      simp only [Scope.set_of_ne _ _ outside.1]
      exact tables.types name outside.2
    · intro name outside
      rw [List.mem_cons, not_or] at outside
      simp only [Scope.set_of_ne _ _ outside.1]
      exact tables.layouts name outside.2

private theorem registerClass_unknown {known : List String} {state : CompilerState}
    (tables : ClassTables known state) {className : String} {body : List Node}
    (fresh : className ∉ known) {error : PyErr}
    (failed : classFields 1 body (identified className state) = .error error) :
    registerClass className body state = .error error := by
  unfold registerClass
  rw [bind_of_ok (getIdentifiedType_new tables fresh), bind_of_error failed]

theorem ClassTables.emits (known : List String) : Emits (ClassTables known) :=
  fun _ _ _ _ tables _ =>
    { present := tables.present, types := tables.types
      layouts := tables.layouts, structs := tables.structs }

theorem ClassTables.same {known : List String} {state state' : CompilerState}
    (tables : ClassTables known state) (types : state'.types = state.types)
    (layouts : state'.classLayouts = state.classLayouts)
    (structs : state'.module.structs = state.module.structs) :
    ClassTables known state' where
  present := by
    rw [types]
    exact tables.present
  types := by
    rw [types]
    exact tables.types
  layouts := by
    rw [layouts]
    exact tables.layouts
  structs := by
    rw [structs]
    exact tables.structs

private theorem ensures_emptyMethod (known : List String) (className name : String)
    (args : List (String × Option Node)) (returns : Option Node) :
    Ensures (ClassTables known)
      (visitFunctionDef (some className) name args returns (visitBody [.pass]))
      fun _ state => True ∧ ClassTables known state := by
  have types ( annotation : Node) :
      Keeps (ClassTables known) (getType annotation) :=
    keeps_getType (fun _ tables => tables.registered) annotation
  have body : Keeps (ClassTables known) (visitBody [.pass]) := by
    rw [visitBody, visitBody, visit]
    exact (keeps_pure _).bind fun _ => keeps_pure _
  have method : Ensures (ClassTables known)
      (visitFunctionDef (some className) name args returns (visitBody [.pass]))
      fun val state => (True ∧ val = .none) ∧ ClassTables known state := by
    refine ensures_functionDef (fun saved => ?_)
      (fun _ => body.weaken fun _ _ after => ⟨trivial, after⟩)
      (fun _ => ClassTables.emits known)
      (fun _ _ tables => tables.same rfl rfl rfl)
    refine ensures_openFunction (fun state before => ?_) types
      (fun state _ _ tables _ => tables.same rfl rfl rfl)
      (ClassTables.emits known).plain
      (fun _ _ _ _ tables => tables.same rfl rfl rfl) args returns
    split
    · exact before.2.same rfl rfl rfl
    · exact before.2
  exact method.weaken fun _ _ after => ⟨trivial, after.2⟩

private theorem ensures_builtinClass {known : List String} {className : String}
    {body : List Node} (fresh : className ∉ known) (explicit : hasInit body = true)
    (resolved : ∀ state, TypeTables known state →
      ∃ fields, classFields 1 body state = .ok (fields, state))
    (methods : ∀ name args returns methodBody dropped,
      .functionDef name args returns methodBody dropped ∈ body →
        methodBody = [.pass]) :
    Ensures (ClassTables known) (visit (.classDef className body []))
      fun _ => ClassTables (className :: known) := by
  have declared : Ensures (ClassTables known) (declareClass className body)
      fun _ => ClassTables (className :: known) := by
    intro state value state' tables run
    obtain ⟨fields, found⟩ :=
      resolved (identified className state) (identified_tables tables.toTypeTables _)
    obtain ⟨layout, after, registered, afterTables⟩ :=
      registerClass_known tables fresh found
    rw [declareClass_eq, bind_of_ok registered, if_pos explicit] at run
    obtain ⟨-, rfl⟩ := pure_ok_iff.mp run
    exact afterTables
  have visited : Ensures (ClassTables (className :: known))
      (visitMethods className body) fun _ => ClassTables (className :: known) := by
    have each := @ensures_methods (ClassTables (className :: known)) className
      (fun _ => True) body fun name args returns methodBody dropped inside => by
        rw [methods name args returns methodBody dropped inside]
        exact ensures_emptyMethod _ className name args returns
    exact each.weaken fun _ _ after => after.2
  rw [visit]
  exact declared.bind fun _ => visited.bind fun _ => keeps_pure _

/-- The names that have a type before the source file is compiled. -/
def builtinTypeNames : List String :=
  ["bytearray", "str", "int", "float", "None", "__ptr__"]

private theorem initial_tables :
    ClassTables ["int", "float", "None", "__ptr__"] CompilerState.initial where
  present := by decide +kernel
  types := by
    intro name outside
    simp only [List.mem_cons, List.not_mem_nil, or_false, not_or] at outside
    obtain ⟨notInt, notFloat, notNone, notPtr⟩ := outside
    simp only [CompilerState.initial, Scope.set_of_ne _ _ notPtr,
      Scope.set_of_ne _ _ notNone, Scope.set_of_ne _ _ notFloat,
      Scope.set_of_ne _ _ notInt, Scope.empty_apply]
  layouts := fun _ _ => rfl
  structs := fun _ inside => absurd inside List.not_mem_nil

private theorem bufferFields_known {known : List String} {state : CompilerState}
    (tables : TypeTables known state) (int : "int" ∈ known)
    (ptr : "__ptr__" ∈ known) {rest : List Node}
    (others : classFields 3 rest state = .ok ([], state)) :
    ∃ fields, classFields 1
      (.annAssign (.name "len") (.name "int") none ::
        .annAssign (.name "buffer") (.name "__ptr__") none :: rest) state =
      .ok (fields, state) := by
  obtain ⟨lenType, lenTyped⟩ := namedType_known tables (by decide) int
  obtain ⟨bufferType, bufferTyped⟩ := namedType_known tables (by decide) ptr
  refine ⟨[{ name := "len", index := 1, type := lenType },
    { name := "buffer", index := 2, type := bufferType }], ?_⟩
  rw [classFields, bind_of_ok rfl, getType, bind_of_ok lenTyped, classFields,
    then_assoc, bind_of_ok rfl, getType, then_assoc, bind_of_ok bufferTyped,
    then_assoc, bind_of_ok others]
  rfl

/-- The body that the two classes of `builtins.pie` share, up to the parameter
of `__init__`. -/
def bufferBody (param : String × Option Node) : List Node :=
  [.annAssign (.name "len") (.name "int") none,
    .annAssign (.name "buffer") (.name "__ptr__") none,
    .functionDef "__init__" [("self", none), param] (some (.constant .none))
      [.pass] [],
    .functionDef "__del__" [("self", none)] (some (.constant .none)) [.pass] []]

private theorem ensures_bufferClass {known : List String} {className : String}
    (fresh : className ∉ known) (int : "int" ∈ known) (ptr : "__ptr__" ∈ known)
    (param : String × Option Node) :
    Ensures (ClassTables known) (visit (.classDef className (bufferBody param) []))
      fun _ => ClassTables (className :: known) := by
  refine ensures_builtinClass fresh rfl
    (fun _ tables => bufferFields_known tables int ptr rfl) ?_
  intro name args returns methodBody dropped inside
  simp only [bufferBody, List.mem_cons, Node.functionDef.injEq, reduceCtorEq,
    List.not_mem_nil, or_false, false_or] at inside
  cases inside with
  | inl init => exact init.2.2.2.1
  | inr del => exact del.2.2.2.1

private theorem ensures_builtins :
    Ensures (ClassTables ["int", "float", "None", "__ptr__"])
      (visitModule builtins) fun _ => ClassTables builtinTypeNames := by
  have imported : Keeps (ClassTables ["int", "float", "None", "__ptr__"])
      (visitImportFrom (some "C")
        [("malloc", none), ("free", none), ("strlen", none), ("memcpy", none)]) :=
    (keeps_importFrom (fun _ _ tables _ _ => tables.same rfl rfl rfl) _ _).weaken
      fun _ _ after => after.2
  have strClass : Ensures (ClassTables ["int", "float", "None", "__ptr__"])
      (visit (.classDef "str" (bufferBody ("c_str", some (.name "__ptr__"))) []))
      fun _ => ClassTables ["str", "int", "float", "None", "__ptr__"] :=
    ensures_bufferClass (by decide) (by decide) (by decide) _
  have arrayClass : Ensures (ClassTables ["str", "int", "float", "None", "__ptr__"])
      (visit (.classDef "bytearray" (bufferBody ("size", some (.name "int"))) []))
      fun _ => ClassTables builtinTypeNames :=
    ensures_bufferClass (by decide) (by decide) (by decide) _
  rw [builtins, visitModule, visitModule, visitModule, visitModule]
  refine Ensures.bind (imported.bind fun _ => keeps_pure _) fun _ => ?_
  refine Ensures.bind (strClass.bind fun _ => keeps_pure _) fun _ => ?_
  refine Ensures.bind (arrayClass.bind fun _ => keeps_pure _) fun _ => ?_
  exact keeps_pure _

private theorem builtins_tables :
    ∃ state, visitModule builtins CompilerState.initial = .ok ((), state) ∧
      ClassTables builtinTypeNames state := by
  have accepted : (visitModule builtins CompilerState.initial).isOk = true := by
    decide +kernel
  cases visited : visitModule builtins CompilerState.initial with
  | error error =>
      rw [visited] at accepted
      cases accepted
  | ok result =>
      obtain ⟨value, state⟩ := result
      exact ⟨state, rfl, ensures_builtins _ _ _ initial_tables visited⟩

/-! ### The classes in order -/

/-- Every class sorts after the classes that its fields name. -/
def Ordered (classes : List (String × StructureDef)) : Prop :=
  ∀ cls ∈ classes, ∀ item ∈ cls.2.members,
    item.2.pieType ∈ classes.map Prod.fst → item.2.pieType < cls.1

/-- The fields name known types or classes of the list. -/
def Closed (known : List String) (classes : List (String × StructureDef)) : Prop :=
  ∀ cls ∈ classes, ∀ item ∈ cls.2.members, item.2.pieType ≠ "bytes" ∧
    (item.2.pieType ∈ known ∨ item.2.pieType ∈ classes.map Prod.fst)

theorem mem_orderedFields {definition : StructureDef}
    {item : String × ParsedMember} :
    item ∈ orderedFields definition ↔ item ∈ definition.members := by
  unfold orderedFields
  simp only [List.mem_append, List.mem_insertionSort, List.mem_filter]
  constructor
  · intro inside
    cases inside with
    | inl required => exact required.1
    | inr optional => exact optional.1
  · intro member
    by_cases required : item.1 ∈ definition.requiredMembers
    · exact Or.inl ⟨member, by simpa using required⟩
    · exact Or.inr ⟨member, by simpa using required⟩

private theorem classBody_fields (definition : StructureDef) (state : CompilerState) :
    classFields 1 (classBody definition) state =
      classFields 1 ((orderedFields definition).map fieldNode) state := by
  unfold classBody
  split
  · rename_i empty
    have none : orderedFields definition = [] := by
      rw [List.eq_nil_iff_forall_not_mem]
      intro item inside
      rw [mem_orderedFields, empty] at inside
      exact List.not_mem_nil inside
    rw [none]
    rfl
  · rfl

private theorem fresh_tail {cls : String × StructureDef}
    {rest : List (String × StructureDef)} {known : List String}
    (fresh : ∀ other ∈ cls :: rest, other.1 ∉ known)
    (first : ∀ name ∈ rest.map Prod.fst, cls.1 < name) :
    ∀ other ∈ rest, other.1 ∉ cls.1 :: known := by
  intro other inside
  rw [List.mem_cons, not_or]
  have different := first other.1 (List.mem_map_of_mem inside)
  exact ⟨different.ne', fresh other (List.mem_cons_of_mem _ inside)⟩

private theorem Closed.tail {cls : String × StructureDef}
    {rest : List (String × StructureDef)} {known : List String}
    (closed : Closed known (cls :: rest)) : Closed (cls.1 :: known) rest := by
  intro other inside item member
  obtain ⟨notBytes, place⟩ := closed other (List.mem_cons_of_mem _ inside) item member
  refine ⟨notBytes, ?_⟩
  cases place with
  | inl early => exact Or.inl (List.mem_cons_of_mem _ early)
  | inr listed =>
      rw [List.map_cons] at listed
      cases List.mem_cons.mp listed with
      | inl same =>
          rw [same]
          exact Or.inl List.mem_cons_self
      | inr inRest => exact Or.inr inRest

/-- A class that names known types only is ordered before all those behind it. -/
private theorem ordered_cons_iff {cls : String × StructureDef}
    {rest : List (String × StructureDef)} {known : List String}
    (fresh : ∀ other ∈ cls :: rest, other.1 ∉ known)
    (first : ∀ name ∈ rest.map Prod.fst, cls.1 < name)
    (resolved : ∀ item ∈ cls.2.members, item.2.pieType ∈ known) :
    Ordered (cls :: rest) ↔ Ordered rest := by
  constructor
  · intro ordered other inside item member listed
    exact ordered other (List.mem_cons_of_mem _ inside) item member
      (List.mem_cons_of_mem _ listed)
  · intro ordered other inside item member listed
    cases List.mem_cons.mp inside with
    | inl same =>
        rw [same] at member
        have early := resolved item member
        obtain ⟨found, foundIn, foundName⟩ := List.mem_map.mp listed
        exact absurd (foundName ▸ early) (fresh found foundIn)
    | inr inRest =>
        rw [List.map_cons] at listed
        cases List.mem_cons.mp listed with
        | inl same =>
            rw [same]
            exact first other.1 (List.mem_map_of_mem inRest)
        | inr laterName => exact ordered other inRest item member laterName

/-- The name is one of the list, and none of the list sorts earlier. -/
private theorem not_ordered_cons {cls : String × StructureDef}
    {rest : List (String × StructureDef)} {known : List String}
    (closed : Closed known (cls :: rest))
    (first : ∀ name ∈ rest.map Prod.fst, cls.1 < name)
    {item : String × ParsedMember} (member : item ∈ cls.2.members)
    (outside : item.2.pieType ∉ known) : ¬Ordered (cls :: rest) := by
  intro ordered
  have listed := (closed _ List.mem_cons_self item member).2.resolve_left outside
  have earlier := ordered _ List.mem_cons_self item member listed
  rw [List.map_cons] at listed
  cases List.mem_cons.mp listed with
  | inl same =>
      rw [same] at earlier
      exact absurd earlier (lt_irrefl cls.1)
  | inr inRest => exact absurd earlier (first _ inRest).asymm

private theorem registerClasses_iff (classes : List (String × StructureDef))
    {known : List String} {state : CompilerState} (tables : ClassTables known state)
    (fresh : ∀ cls ∈ classes, cls.1 ∉ known)
    (sorted : (classes.map Prod.fst).Pairwise (· < ·))
    (closed : Closed known classes) :
    (∀ type : String, registerClasses classes state ≠
        .error (.typeError s!"Unknown type: {type}")) ↔ Ordered classes := by
  induction classes generalizing known state with
  | nil =>
      constructor
      · intro _ cls inside
        exact absurd inside List.not_mem_nil
      · intro _ type same
        cases same
  | cons cls rest ih =>
      obtain ⟨className, definition⟩ := cls
      rw [List.map_cons, List.pairwise_cons] at sorted
      have freshHere := fresh _ List.mem_cons_self
      have names := closed _ List.mem_cons_self
      have tablesHere := identified_tables tables.toTypeTables className
      by_cases resolved : ∀ item ∈ definition.members, item.2.pieType ∈ known
      · obtain ⟨fields, found⟩ := classFields_known tablesHere
          (orderedFields definition)
          (fun item inside => ⟨(names item (mem_orderedFields.mp inside)).1,
            resolved item (mem_orderedFields.mp inside)⟩) 1
        rw [← classBody_fields] at found
        obtain ⟨layout, after, registered, afterTables⟩ :=
          registerClass_known tables freshHere found
        have later := ih afterTables (fresh_tail fresh sorted.1) sorted.2 closed.tail
        rw [registerClasses, bind_of_ok registered, later,
          ordered_cons_iff fresh sorted.1 resolved]
      · have unresolved : ∃ item ∈ definition.members, item.2.pieType ∉ known := by
          simpa using resolved
        obtain ⟨item, member, outside⟩ := unresolved
        obtain ⟨missing, failed⟩ := classFields_unknown tablesHere
          (orderedFields definition)
          (fun other inside => (names other (mem_orderedFields.mp inside)).1)
          ⟨item, mem_orderedFields.mpr member, outside⟩ 1
        rw [← classBody_fields] at failed
        have stopped := registerClass_unknown tables freshHere failed
        rw [registerClasses, bind_of_error stopped]
        constructor
        · intro never
          exact absurd rfl (never missing)
        · intro ordered
          exact absurd ordered (not_ordered_cons closed sorted.1 member outside)

/-! ### What the parser emits -/

theorem mem_generatePieClasses {parsed : List (String × ShapeDef)} {name : String}
    {definition : StructureDef} :
    (name, definition) ∈ generatePieClasses parsed ↔
      (name, .structure definition) ∈ parsed := by
  unfold generatePieClasses
  simp only [List.mem_filterMap, List.mem_insertionSort]
  constructor
  · rintro ⟨⟨other, shapeDef⟩, inside, found⟩
    cases shapeDef with
    | «structure» found' =>
        cases found
        exact inside
    | scalar pieType => cases found
  · intro inside
    exact ⟨_, inside, rfl⟩

private theorem generatePieClasses_sorted {parsed : List (String × ShapeDef)}
    (distinct : (parsed.map Prod.fst).Nodup) :
    ((generatePieClasses parsed).map Prod.fst).Pairwise (· < ·) := by
  have names : (parsed.insertionSort (·.1 ≤ ·.1)).map Prod.fst =
      (parsed.map Prod.fst).insertionSort (· ≤ ·) :=
    List.map_insertionSort _ _ Prod.fst parsed fun _ _ _ _ => Iff.rfl
  have kept : ((generatePieClasses parsed).map Prod.fst).Sublist
      ((parsed.map Prod.fst).insertionSort (· ≤ ·)) := by
    rw [← names]
    unfold generatePieClasses
    generalize parsed.insertionSort (·.1 ≤ ·.1) = items
    induction items with
    | nil => exact List.Sublist.refl _
    | cons item rest ih =>
        obtain ⟨name, shapeDef⟩ := item
        cases shapeDef with
        | «structure» definition => exact ih.cons_cons name
        | scalar pieType => exact ih.cons name
  have ordered : ((parsed.map Prod.fst).insertionSort (· ≤ ·)).Pairwise (· ≤ ·) :=
    List.pairwise_insertionSort _ _
  have nodup : ((parsed.map Prod.fst).insertionSort (· ≤ ·)).Nodup :=
    (List.perm_insertionSort _ _).nodup_iff.mpr distinct
  exact ((ordered.and nodup).imp fun both => lt_of_le_of_ne both.1 both.2).sublist
    kept

/-- The names the compiler gives a meaning of its own. -/
def compilerTypeNames : List String := "bytes" :: builtinTypeNames

private theorem parse_closed {model : ServiceModel} {operationNames : Option (List String)}
    {skip : Bool} {parsed : List (String × ShapeDef)}
    (named : ∀ item ∈ model.shapes, item.1 ∉ compilerTypeNames)
    (parses : parse model operationNames skip = .ok parsed) :
    ((generatePieClasses parsed).map Prod.fst).Pairwise (· < ·) ∧
      (∀ cls ∈ generatePieClasses parsed, cls.1 ∉ builtinTypeNames) ∧
      Closed builtinTypeNames (generatePieClasses parsed) := by
  obtain ⟨reachable, collected, ran⟩ := except_bind_ok parses
  obtain ⟨nodup, -⟩ := reachable_closed collected
  have shapes := parseShapes_parsed ran
  have sortedNodup : (reachable.insertionSort (· ≤ ·)).Nodup :=
    (List.perm_insertionSort _ _).nodup_iff.mpr nodup
  have fresh (name : String) (shape : Shape)
      (found : model.shapes.lookup name = some shape) :
      name ∉ compilerTypeNames := by
    exact named (name, shape) (mem_of_lookup found)
  refine ⟨generatePieClasses_sorted (sortedNodup.sublist shapes.sublist), ?_, ?_⟩
  · intro cls inside known
    obtain ⟨shape, found, -, -⟩ :=
      shapes.parsedFrom cls.1 cls.2 (mem_generatePieClasses.mp inside)
    exact fresh cls.1 shape found (List.mem_cons_of_mem _ known)
  · intro cls inside item member
    have listed := mem_generatePieClasses.mp inside
    rcases parsed_member_class collected shapes listed member with
      primitive | ⟨inner, innerListed⟩
    · rcases primitive with isStr | isInt
      · rw [isStr]
        exact ⟨by decide, Or.inl (by decide)⟩
      · rw [isInt]
        exact ⟨by decide, Or.inl (by decide)⟩
    · refine ⟨fun isBytes => ?_, Or.inr ?_⟩
      · obtain ⟨shape, found, -, -⟩ :=
          shapes.parsedFrom item.2.pieType inner innerListed
        apply fresh item.2.pieType shape found
        rw [isBytes]
        exact List.mem_cons_self
      · exact List.mem_map_of_mem (mem_generatePieClasses.mpr innerListed)

/-- The generated classes register without an unknown type exactly when every
class sorts after the classes its fields name. -/
theorem registerGenerated_iff (model : ServiceModel)
    (operationNames : Option (List String)) (skip : Bool)
    (parsed : List (String × ShapeDef))
    (named : ∀ item ∈ model.shapes, item.1 ∉ compilerTypeNames)
    (parses : parse model operationNames skip = .ok parsed) :
    (∀ type : String, registerGenerated parsed CompilerState.initial ≠
        .error (.typeError s!"Unknown type: {type}")) ↔
      Ordered (generatePieClasses parsed) := by
  obtain ⟨sorted, fresh, closed⟩ := parse_closed named parses
  obtain ⟨state, visited, tables⟩ := builtins_tables
  rw [registerGenerated, bind_of_ok visited]
  exact registerClasses_iff _ tables fresh sorted closed

/-- A structure with one member, required, of the shape named. -/
def singleMember (fieldName shape : String) : Shape :=
  { plainShape "structure" with
    members := [(fieldName, memberOf shape)]
    required := [fieldName] }

/-- One operation whose input is the outer of two nested structures. -/
def nestedModel (outer inner : String) : ServiceModel where
  operations := [("AssumeRole",
    { input := some outer, output := none, errors := [] })]
  shapes := [(outer, singleMember "Credentials" inner),
    (inner, singleMember "Token" "tokenType"), ("tokenType", plainShape "string")]

theorem registerGenerated_iff_example :
    ∃ parsed, parse (nestedModel "Session" "Credentials") none false = .ok parsed ∧
      ((∀ type : String, registerGenerated parsed CompilerState.initial ≠
          .error (.typeError s!"Unknown type: {type}")) ↔
        Ordered (generatePieClasses parsed)) :=
  ⟨_, rfl, registerGenerated_iff (nestedModel "Session" "Credentials") none false _
    (by decide +kernel) rfl⟩

/-- An outer structure that sorts before the inner one is written first. -/
theorem registerGenerated_forward_reference :
    ∃ parsed, parse (nestedModel "AssumedRole" "Credentials") none false =
        .ok parsed ∧
      ∃ type : String, registerGenerated parsed CompilerState.initial =
        .error (.typeError s!"Unknown type: {type}") := by
  refine ⟨_, rfl, "Credentials", ?_⟩
  generalize isParsed : [("AssumedRole", _), _, _] = parsed
  have failed : (match registerGenerated parsed CompilerState.initial with
      | .error (.typeError message) => decide (message = "Unknown type: Credentials")
      | _ => false) = true := by
    rw [← isParsed]
    decide +kernel
  split at failed
  · rename_i message ran
    rw [ran, of_decide_eq_true failed]
    rfl
  · cases failed

end Lambpie.Scripts

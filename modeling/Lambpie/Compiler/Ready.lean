/-
No form that raises gets through, wherever it stands.

While a function's body is visited every class is initialised, so that a
constructor call visits its arguments; and every function's body is visited,
that of `handle` and the init statements later than the others.
-/
import Lambpie.Compiler.Definitions
import Lambpie.Compiler.VisitRecursion

namespace Lambpie.Compiler

open Foundations
open Foundations.Comp
open VisitInvariant

/-! ### Initialised classes -/

/-- Every class but the late one has its `__init__` in the global scope, and
every layout its type. -/
structure ReadyTables (late : Option String) (types : Scope LType)
    (globalScope : Scope PyVal) (classLayouts : Scope Layout) : Prop where
  initialised : ∀ name className, types name = some (.ptr (.struct className)) →
    some className ≠ late → (globalScope s!"{className}___init__").isSome
  registered : ∀ name, (classLayouts name).isSome → (types name).isSome
  values : ∀ name val, globalScope name = some val → ∃ val', val = .value val'

/-- What is kept for later stays as it is. -/
def Ready (node : Option FunctionNode) (stmts : List Node) (late : Option String)
    (state : CompilerState) : Prop :=
  (state.handleNode = node ∧ state.initStmts = stmts) ∧
    ReadyTables late state.types state.globalScope state.classLayouts

section

variable {node : Option FunctionNode} {stmts : List Node} {late : Option String}

theorem Ready.keepsType ( annotation : Node) :
    Keeps (Ready node stmts late) (getType annotation) :=
  keeps_getType (fun _ before => before.2.registered) annotation

theorem Ready.emits : Emits (Ready node stmts late) :=
  fun _ _ _ _ before _ => before

theorem ReadyTables.setGlobal {types : Scope LType} {globalScope : Scope PyVal}
    {classLayouts : Scope Layout} {before after : Option String}
    (ready : ReadyTables before types globalScope classLayouts) (name : String)
    (val : Value)
    (settled : ∀ className, some className ≠ after → some className ≠ before ∨
      name = s!"{className}___init__") :
    ReadyTables after types (globalScope.set name (.value val)) classLayouts where
  initialised := by
    intro typeName className isClass onTime
    by_cases same : s!"{className}___init__" = name
    · rw [same, Scope.set_self]
      rfl
    · rw [Scope.set_of_ne _ _ same]
      obtain notLate | isInit := settled className onTime
      · exact ready.initialised typeName className isClass notLate
      · exact (same isInit.symm).elim
  registered := ready.registered
  values := by
    intro other found known
    by_cases same : other = name
    · rw [same, Scope.set_self] at known
      cases known
      exact ⟨val, rfl⟩
    · rw [Scope.set_of_ne _ _ same] at known
      exact ready.values other found known

theorem Ready.invariant :
    VisitInvariant (Ready node stmts none) (fun _ => True) (fun _ => True) True where
  ofNone := trivial
  ofType _ := trivial
  ofReg _ _ := trivial
  ofGlobal _ := trivial
  ofMethod _ _ := Iff.rfl
  ofLiteral _ _ _ _ := ⟨fun _ => trivial, fun _ => trivial⟩
  ofLocal _ _ _ _ _ := trivial
  ofScope _ name val before known := ⟨trivial, before.2.values name val known⟩
  callable _ name className before _ isClass :=
    before.2.initialised name className isClass (Option.some_ne_none className)
  keepsInstr _ _ _ before _ _ := before
  keepsCall _ _ _ _ _ before _ := before
  keepsAlloc ptrType sizeType tag :=
    (keeps_allocStruct Ready.emits.plain.operand ptrType sizeType tag
      fun _ _ _ _ _ _ before _ => before).weaken fun _ _ after => after.2
  keepsGlobal _ _ before := before
  keepsCounter _ before := before
  keepsBlock _ _ _ before := before
  keepsPosition _ _ _ before := before
  keepsLocal _ _ _ _ before := before
  keepsType := Ready.keepsType

theorem Ready.family :
    VisitFamily (fun _ : Unit => Ready node stmts none) (fun _ => True)
      (fun _ _ => True) True where
  invariant _ := Ready.invariant
  inFunction index _ _ before _ := ⟨index, trivial, before, fun _ => id⟩

/-- The header of a function; that of the late `__init__` makes up for it. -/
theorem Ready.opens {className : Option String} {name : String} {after : Option String}
    (settled : ∀ other, some other ≠ after → some other ≠ late ∨
      functionName className name = s!"{other}___init__")
    (args : List (String × Option Node)) (returns : Option Node) :
    Ensures (Ready node stmts late) (openFunction className name args returns)
      (fun _ => Ready node stmts after) := by
  have switched (state : CompilerState) (before : Ready node stmts late state) :
      Ready node stmts late (if className = none ∧ name = "handle" then
        { state with currentArena := .req } else state) := by
    split
    · exact before
    · exact before
  exact ensures_openFunction switched Ready.keepsType
    (fun _ _ _ before _ => ⟨before.1, before.2.setGlobal _ _ settled⟩)
    Ready.emits.plain (fun _ _ _ _ before => before) args returns

theorem Ready.functionDef {className : Option String} {name : String}
    {args : List (String × Option Node)} {returns : Option Node} {fact : Prop}
    {body : Visit Unit}
    (settled : ∀ other : String, some other ≠ late ∨
      functionName className name = s!"{other}___init__")
    (does : Does (Ready node stmts none) fact body) :
    Ensures (Ready node stmts late) (visitFunctionDef className name args returns body)
      fun val state => (fact ∧ val = .none) ∧ Ready node stmts none state :=
  ensures_functionDef
    (fun _ => (Ready.opens (fun other _ => settled other) args returns).strengthen
      fun _ both => both.2)
    (fun _ => does) (fun _ => Ready.emits) (fun _ _ after => after)

theorem ReadyTables.register {types : Scope LType} {globalScope : Scope PyVal}
    {classLayouts : Scope Layout}
    (ready : ReadyTables none types globalScope classLayouts) (className : String)
    (layout : Layout) :
    ReadyTables (some className) (types.set className (.ptr (.struct className)))
      globalScope (classLayouts.set className layout) where
  initialised := by
    intro name other isClass onTime
    by_cases same : name = className
    · rw [same, Scope.set_self] at isClass
      cases isClass
      exact (onTime rfl).elim
    · rw [Scope.set_of_ne _ _ same] at isClass
      exact ready.initialised name other isClass (Option.some_ne_none other)
  registered := by
    intro name laidOut
    by_cases same : name = className
    · rw [same, Scope.set_self]
      rfl
    · rw [Scope.set_of_ne _ _ same] at laidOut ⊢
      exact ready.registered name laidOut
  values := ready.values

theorem Ready.generateAutoInit (className : String) (layout : Layout) :
    Ensures (Ready node stmts (some className)) (generateAutoInit className layout)
      (fun _ => Ready node stmts none) := by
  refine ensures_generateAutoInit (fun _ => Ready node stmts none)
    (fun _ => Ready node stmts none) ?_ (fun _ => Ready.emits.plain)
    (fun _ => keeps_terminate Ready.emits rfl) (fun _ _ after => after)
  intro state before _
  refine ⟨before.1, before.2.setGlobal _ _ fun other _ => ?_⟩
  by_cases same : other = className
  · exact .inr (same ▸ rfl)
  · exact .inl fun equal => same (Option.some.inj equal)

/-- With an explicit `__init__` the class is late until its method is met. -/
theorem Ready.declareClass (className : String) (body : List Node) :
    Ensures (Ready node stmts none) (declareClass className body) fun _ state =>
      (∀ target annotation default, .annAssign target annotation default ∈ body →
        ∃ id, target = .name id) ∧
      Ready node stmts (if hasInit body then some className else none) state := by
  refine (ensures_declareClass Ready.keepsType (fun _ _ before => before)
    (fun _ layout before => ⟨before.1, before.2.register className layout⟩)
    (Ready.generateAutoInit className)).weaken fun _ state after => ⟨after.1, ?_⟩
  have settled := after.2
  cases explicit : hasInit body with
  | true =>
      rw [explicit, if_pos rfl] at settled
      exact settled
  | false =>
      rw [explicit, if_neg Bool.false_ne_true] at settled
      exact settled

theorem Ready.methods {fact : List Node → Prop} {className : String}
    {body : List Node}
    (does : MethodsDo (fun _ : Unit => Ready node stmts none) fact body) :
    Ensures (Ready node stmts none) (visitMethods className body)
      fun _ state => (∀ name args returns methodBody dropped,
        .functionDef name args returns methodBody dropped ∈ body →
          fact methodBody) ∧ Ready node stmts none state := by
  refine ensures_methods fun name args returns methodBody dropped member => ?_
  have visited := does name args returns methodBody dropped member ()
  exact (Ready.functionDef (fun other => .inl (Option.some_ne_none other))
    visited).weaken fun _ _ after => ⟨after.1.1, after.2⟩

private theorem hasInit_eq_contains (body : List Node) :
    hasInit body = (body.filterMap isMethod).contains "__init__" := by
  induction body with
  | nil => rfl
  | cons stmt rest ih =>
      unfold hasInit at ih ⊢
      rw [List.any_cons, ih]
      cases named : isMethod stmt with
      | none => rw [List.filterMap_cons_none named]; rfl
      | some name =>
          rw [List.filterMap_cons_some named, List.contains_cons]
          congr 1
          rw [Bool.eq_iff_iff, beq_iff_eq, decide_eq_true_iff]
          simp [eq_comm]

private theorem functionName_init (className : String) :
    functionName (some className) "__init__" = s!"{className}___init__" := by
  simp [functionName, toString, String.append_assoc]

private theorem Ready.methodsAfterInit {fact : List Node → Prop} {className : String}
    {body : List Node} (explicit : hasInit body = true)
    (inTime : isLateInit body = false)
    (does : MethodsDo (fun _ : Unit => Ready node stmts none) fact body) :
    Ensures (Ready node stmts (some className)) (visitMethods className body)
      fun _ state => (∀ name args returns methodBody dropped,
        .functionDef name args returns methodBody dropped ∈ body →
          fact methodBody) ∧ Ready node stmts none state := by
  induction body with
  | nil => cases explicit
  | cons stmt rest ih =>
      have restDo : MethodsDo (fun _ : Unit => Ready node stmts none) fact rest :=
        fun _ _ _ _ _ member => does _ _ _ _ _ (List.mem_cons_of_mem _ member)
      have skip (noMethod : isMethod stmt = none) :
          Ensures (Ready node stmts (some className)) (visitMethods className rest)
            fun _ state => (∀ name args returns methodBody dropped,
              .functionDef name args returns methodBody dropped ∈ stmt :: rest →
                fact methodBody) ∧ Ready node stmts none state := by
        rw [hasInit_eq_contains, List.filterMap_cons_none noMethod,
          ← hasInit_eq_contains] at explicit
        unfold isLateInit at inTime
        rw [List.filterMap_cons_none noMethod] at inTime
        refine (ih explicit inTime restDo).weaken fun _ _ after => ⟨?_, after.2⟩
        intro name args returns methodBody dropped member
        obtain same | later := List.mem_cons.mp member
        · rw [← same] at noMethod
          cases noMethod
        · exact after.1 _ _ _ _ _ later
      cases stmt with
      | functionDef name args returns methodBody dropped =>
          have isInit : name = "__init__" := by
            rw [hasInit_eq_contains] at explicit
            change (name :: rest.filterMap isMethod).contains "__init__" = true
              at explicit
            change (decide (name ≠ "__init__") &&
              (rest.filterMap isMethod).contains "__init__") = false at inTime
            by_contra other
            have inRest : (rest.filterMap isMethod).contains "__init__" = true := by
              simpa [Ne.symm other] using explicit
            rw [inRest, decide_eq_true other] at inTime
            cases inTime
          subst isInit
          have visited := does _ _ _ _ _ List.mem_cons_self ()
          have settled (other : String) : some other ≠ some className ∨
              functionName (some className) "__init__" = s!"{other}___init__" := by
            by_cases same : other = className
            · exact .inr (same ▸ functionName_init className)
            · exact .inl fun equal => same (Option.some.inj equal)
          refine (Ready.functionDef settled visited).bind fun _ =>
            .assume fun shown => ?_
          refine (Ready.methods restDo).weaken fun _ _ after => ⟨?_, after.2⟩
          intro name args returns otherBody dropped member
          obtain same | later := List.mem_cons.mp member
          · cases same
            exact shown.1
          · exact after.1 _ _ _ _ _ later
      | _ => exact skip rfl

theorem Ready.classDef {fact : List Node → Prop} (className : String)
    (body : List Node) (inTime : isLateInit body = false)
    (does : MethodsDo (fun _ : Unit => Ready node stmts none) fact body) :
    Ensures (Ready node stmts none)
      (visitClassDef className body (visitMethods className body))
      fun val state => (ClassShape fact body ∧ val = .none) ∧
        Ready node stmts none state := by
  refine (Ready.declareClass className body).bind fun _ => .assume fun named => ?_
  have methods : Ensures
      (Ready node stmts (if hasInit body then some className else none))
      (visitMethods className body)
      fun _ state => (∀ name args returns methodBody dropped,
        .functionDef name args returns methodBody dropped ∈ body →
          fact methodBody) ∧ Ready node stmts none state := by
    cases explicit : hasInit body with
    | true => exact Ready.methodsAfterInit explicit inTime does
    | false => exact Ready.methods does
  exact methods.bind fun _ => .assume fun shown =>
    .pure fun _ after => ⟨⟨⟨named, shown⟩, rfl⟩, after⟩

theorem Ready.definitionsKept :
    DefinitionsKept (fun _ : Unit => Ready node stmts none) (fun _ => True) True where
  functionDef _ _ _ _ _ does index :=
    Ready.invariant.gives_of_none
      (Ready.functionDef (fun other => .inl (Option.some_ne_none other)) (does index))
  classDef className body _ inTime does _ :=
    Ready.invariant.gives_of_none
      (Ready.classDef className body (inTime trivial) does)
  importFrom module names _ :=
    Ready.invariant.gives_of_none (keeps_importFrom
      (fun _ _ before _ _ => ⟨before.1, before.2.setGlobal _ _ fun other _ =>
        .inl (Option.some_ne_none other)⟩) module names)

/-- What was visited without an error has no form that raises. -/
theorem Ready.ofVisit {stmt : Node} (raising : ∀ form ∈ forms stmt, form.rejected = true) :
    Ensures (Ready node stmts none) (visit stmt) fun _ state =>
      forms stmt = [] ∧ Ready node stmts none state :=
  (gives_visit Ready.family Ready.definitionsKept stmt
    (fun _ => raising) ()).plain.weaken fun _ _ after =>
      ⟨after.1.1 trivial, after.2⟩

private theorem Ready.ofBody {body : List Node}
    (raising : ∀ form ∈ formsAll body, form.rejected = true) :
    Does (Ready node stmts none) (formsAll body = []) (visitBody body) :=
  (does_visitBody Ready.family Ready.definitionsKept body
    (fun _ => raising) ()).weaken fun _ _ after => ⟨after.1 trivial, after.2⟩

end

def keptHandle (node : Option FunctionNode) : Node → Option FunctionNode
  | .functionDef name args returns body _ =>
      if name = "handle" then some { name, args, returns, body } else node
  | _ => node

def isDeferred : Node → Bool
  | .annAssign .. => true
  | .assign .. => true
  | .expr _ => true
  | _ => false

def keptStmts (stmts : List Node) (stmt : Node) : List Node :=
  if isDeferred stmt then stmts ++ [stmt] else stmts

private theorem Ready.ofTopLevel {node : Option FunctionNode} {stmts : List Node}
    {stmt : Node} (raising : isMainBlock stmt = false →
      ∀ form ∈ forms stmt, form.rejected = true) :
    Ensures (Ready node stmts none) (visitTopLevel stmt) fun _ state =>
      (isMainBlock stmt = false → isHandle stmt = false → isDeferred stmt = false →
        forms stmt = []) ∧
      Ready (keptHandle node stmt) (keptStmts stmts stmt) none state := by
  unfold visitTopLevel
  cases main : isMainBlock stmt with
  | true =>
      rw [if_pos rfl]
      refine .pure fun state before => ⟨fun never => Bool.noConfusion never, ?_⟩
      cases stmt with
      | ifStmt test body orelse => exact before
      | _ => cases main
  | false =>
      rw [if_neg Bool.false_ne_true]
      have visited : Ensures (Ready node stmts none)
          (do
            let _ ← visit stmt
            Pure.pure () : Visit Unit)
          fun _ state => forms stmt = [] ∧ Ready node stmts none state :=
        (Ready.ofVisit (raising main)).bind fun _ => .pure fun _ after => after
      have shown := visited.weaken fun _ _ after =>
        (⟨fun _ _ _ => after.1, after.2⟩ :
          (false = false → isHandle stmt = false → isDeferred stmt = false →
            forms stmt = []) ∧ _)
      cases stmt with
      | functionDef name args returns body dropped =>
          by_cases isEntry : name = "handle"
          · subst isEntry
            exact .modify fun state before =>
              ⟨fun _ other _ => Bool.noConfusion other, ⟨rfl, before.1.2⟩, before.2⟩
          · have kept : keptHandle node (.functionDef name args returns body dropped) =
                node := if_neg isEntry
            rw [kept]
            dsimp only
            rw [if_neg isEntry]
            exact shown
      | annAssign target annotation value =>
          exact .modify fun state before =>
            ⟨fun _ _ deferred => Bool.noConfusion deferred,
              ⟨before.1.1, congrArg (· ++ _) before.1.2⟩, before.2⟩
      | assign target moreTargets value =>
          exact .modify fun state before =>
            ⟨fun _ _ deferred => Bool.noConfusion deferred,
              ⟨before.1.1, congrArg (· ++ _) before.1.2⟩, before.2⟩
      | expr value =>
          exact .modify fun state before =>
            ⟨fun _ _ deferred => Bool.noConfusion deferred,
              ⟨before.1.1, congrArg (· ++ _) before.1.2⟩, before.2⟩
      | _ => exact shown

private theorem Ready.ofModule {node : Option FunctionNode} {stmts tree : List Node}
    (raising : ∀ stmt ∈ tree, isMainBlock stmt = false →
      ∀ form ∈ forms stmt, form.rejected = true) :
    Ensures (Ready node stmts none) (visitModule tree) fun _ state =>
      (∀ stmt ∈ tree, isMainBlock stmt = false → isHandle stmt = false →
        isDeferred stmt = false → forms stmt = []) ∧
      Ready (tree.foldl keptHandle node) (stmts ++ tree.filter isDeferred) none
        state := by
  induction tree generalizing node stmts with
  | nil =>
      rw [List.filter_nil, List.append_nil]
      exact .pure fun _ before =>
        ⟨fun _ member => (List.not_mem_nil member).elim, before⟩
  | cons stmt rest ih =>
      refine (Ready.ofTopLevel (raising stmt List.mem_cons_self)).bind fun _ =>
        .assume fun shown => ?_
      refine (ih fun other member =>
        raising other (List.mem_cons_of_mem _ member)).weaken
          fun _ state after => ⟨?_, ?_⟩
      · exact List.forall_mem_cons.mpr ⟨shown, after.1⟩
      · have same : keptStmts stmts stmt ++ rest.filter isDeferred =
            stmts ++ (stmt :: rest).filter isDeferred := by
          unfold keptStmts
          cases deferred : isDeferred stmt with
          | true => rw [List.filter_cons_of_pos deferred]; simp
          | false =>
              rw [List.filter_cons_of_neg (by rw [deferred]; exact Bool.false_ne_true)]
              simp
        rw [← same]
        exact after.2

private theorem foldl_keptHandle (node : Option FunctionNode) (tree : List Node) :
    tree.foldl keptHandle node = (tree.filter isHandle).foldl keptHandle node := by
  rw [List.foldl_filter]
  congr 1
  funext kept stmt
  cases stmt with
  | functionDef name args returns body dropped =>
      by_cases isEntry : name = "handle"
      · simp [keptHandle, isHandle, isEntry]
      · simp [keptHandle, isHandle, isEntry]
  | _ => rfl

/-! ### The entry functions -/

theorem keeps_declare {holds : CompilerState → Prop}
    (declares : ∀ state func, holds state → holds (state.addFunction func))
    (name : String) (ret : LType) (params : List LType) :
    Keeps holds (declare name ret params) := by
  have added : Keeps holds (addFunction name ret params false) := by
    intro state result state' before run
    obtain ⟨-, -, rfl⟩ := addFunction_ok_iff.mp run
    exact declares state _ before
  exact added.bind fun _ => keeps_pure _

theorem keeps_declareJson {holds : CompilerState → Prop}
    (declares : ∀ state func, holds state → holds (state.addFunction func))
    (i8Ptr i64 : LType) : Keeps holds (declareJson i8Ptr i64) := by
  have declared := keeps_declare declares
  exact (declared _ _ _).bind fun _ => (declared _ _ _).bind fun _ =>
    (declared _ _ _).bind fun _ => (declared _ _ _).bind fun _ =>
      (declared _ _ _).bind fun _ => (declared _ _ _).bind fun _ => keeps_pure _

theorem keeps_entryTypes {holds : CompilerState → Prop} (node : FunctionNode) :
    Keeps holds (entryTypes node) := by
  have named ( annotation : Node) : Keeps holds (annotationName annotation) := by
    cases annotation with
    | name id => exact keeps_pure _
    | _ => exact .fail _
  unfold entryTypes
  split
  · exact (named _).bind fun _ => (named _).bind fun _ => keeps_pure _
  · exact .fail _
  · exact .fail _

theorem keeps_entryLayout {holds : CompilerState → Prop} (role typeName : String) :
    Keeps holds (entryLayout role typeName) := by
  refine (keeps_reads _).bind fun layout => ?_
  cases layout with
  | some layout => exact keeps_pure _
  | none => exact .fail _

section

variable {holds : CompilerState → Prop}
  (emits : EmitsTagged .req holds)
  (added : ∀ state global, holds state → holds (state.addGlobal global))
  (counts : ∀ state, holds state →
    holds { state with nameCounter := state.nameCounter + 1 })

theorem keeps_lengthConst (context : EntryContext) (number : Nat) :
    Ensures holds (lengthConst context number) fun _ state =>
      context.i64 ≠ .void ∧ holds state := by
  unfold lengthConst constant
  split
  · exact .fail _
  · rename_i notVoid
    exact .pure fun _ kept => ⟨notVoid, kept⟩

include added counts in
private theorem keeps_keyGlobal (name : String) : Keeps holds (keyGlobal name) :=
  (keeps_nextName counts).bind fun _ =>
    (keeps_addGlobal added _ _ _ _).weaken fun _ _ after => after.2

include emits in
private theorem keeps_decodeStr (context : EntryContext) (keyPtr : Value) (keyLen : PyVal)
    (fieldPtr : Value) (plain : Plain context.eventPtr) :
    Keeps holds (decodeStr context keyPtr keyLen fieldPtr) := by
  have stores := keeps_storeField emits.plain.operand
  refine (keeps_alloca emits.plain _).bind fun outLen => .assume fun _ => ?_
  refine (keeps_callEntry emits _ _ plain).bind fun data => .assume fun _ => ?_
  refine (keeps_load emits.plain.operand _).bind fun len => .assume fun _ => ?_
  refine (keeps_lookup_only _ _).bind fun strPtrType => ?_
  refine (keeps_allocEntry emits _ _).bind fun strStruct => .assume fun _ => ?_
  refine (keeps_lookup_only _ _).bind fun layout => ?_
  refine (keeps_layoutIndex _ _).bind fun refIdx => ?_
  refine (stores _ _ _).bind fun _ => ?_
  refine (keeps_layoutIndex _ _).bind fun lenIdx => ?_
  refine (stores _ _ _).bind fun _ => ?_
  refine (keeps_layoutIndex _ _).bind fun bufIdx => ?_
  refine (stores _ _ _).bind fun _ => ?_
  exact keeps_store emits.plain.operand _ _

include emits added counts in
theorem keeps_decodeFields (context : EntryContext) (eventStruct : Value)
    (fields : List LayoutField) (plain : Plain context.eventPtr) :
    Keeps holds (decodeFields context eventStruct fields) := by
  induction fields with
  | nil => exact keeps_pure _
  | cons field rest ih =>
      have decoded : Keeps holds (decodeField context eventStruct field) := by
        refine (keeps_keyGlobal added counts _).bind fun keyPtr => ?_
        refine (keeps_lengthConst context _).bind fun keyLen => .assume fun _ => ?_
        refine (keeps_fieldPtr emits.plain.operand _ _).bind fun ptr => .assume fun _ => ?_
        split
        · exact keeps_decodeStr emits _ _ _ _ plain
        split
        · exact (keeps_callEntry emits _ _ plain).bind fun _ => .assume fun _ =>
            keeps_store emits.plain.operand _ _
        · exact .fail _
      exact decoded.bind fun _ => ih

include emits added counts in
theorem keeps_encodeFields (context : EntryContext) (responseStruct : Value)
    (pos : PyVal) (fields : List LayoutField) (plain : Plain context.responsePtr) :
    Keeps holds (encodeFields context responseStruct pos fields) := by
  induction fields generalizing pos with
  | nil => exact keeps_pure _
  | cons field rest ih =>
      have encoded : Keeps holds (encodeField context responseStruct pos field) := by
        have addresses := keeps_fieldPtr emits.plain.operand
        have loads := keeps_load emits.plain.operand
        refine (keeps_keyGlobal added counts _).bind fun keyPtr => ?_
        refine (keeps_lengthConst context _).bind fun keyLen => .assume fun _ => ?_
        split
        · refine (addresses _ _).bind fun strFieldPtr => .assume fun _ => ?_
          refine (loads _).bind fun strStruct => .assume fun _ => ?_
          refine (keeps_lookup_only _ _).bind fun layout => ?_
          refine (keeps_layoutIndex _ _).bind fun bufIdx => ?_
          refine (addresses _ _).bind fun bufPtr => .assume fun _ => ?_
          refine (loads _).bind fun bufVal => .assume fun _ => ?_
          refine (keeps_layoutIndex _ _).bind fun lenIdx => ?_
          refine (addresses _ _).bind fun lenPtr => .assume fun _ => ?_
          refine (loads _).bind fun lenVal => .assume fun _ => ?_
          exact (keeps_callEntry emits _ _ plain).bind fun _ => .assume fun _ => keeps_pure _
        split
        · refine (addresses _ _).bind fun intFieldPtr => .assume fun _ => ?_
          refine (loads _).bind fun intVal => .assume fun _ => ?_
          exact (keeps_callEntry emits _ _ plain).bind fun _ => .assume fun _ => keeps_pure _
        · exact .fail _
      exact encoded.bind fun next => ih next

end

private theorem Ready.ofEntry {node : Option FunctionNode} {stmts : List Node}
    (raisingHandle : ∀ kept, node = some kept →
      ∀ form ∈ formsAll kept.body, form.rejected = true)
    (raisingStmts : ∀ form ∈ formsAll stmts, form.rejected = true) :
    Ensures (Ready node stmts none) synthesizeLambdaEntry fun _ _ =>
      ∃ kept, node = some kept ∧ formsAll kept.body = [] ∧ formsAll stmts = [] := by
  have readNode : Ensures (Ready node stmts none)
      (Comp.reads (·.handleNode) : Visit _)
      fun found state => found = node ∧ Ready node stmts none state :=
    .reads fun _ before => ⟨before.1.1, before⟩
  refine readNode.bind fun found => .assume fun isNode => ?_
  subst isNode
  cases found with
  | none => exact .fail _
  | some kept =>
      refine (keeps_entryTypes kept).bind fun types => ?_
      refine (keeps_entryLayout _ _).bind fun eventLayout => ?_
      refine (keeps_entryLayout _ _).bind fun responseLayout => ?_
      refine (keeps_lookup_only _ _).bind fun eventPtrType => ?_
      refine (keeps_lookup_only _ _).bind fun _ => ?_
      refine (keeps_lookup_only _ _).bind fun i8Ptr => ?_
      refine (keeps_lookup_only _ _).bind fun i64 => ?_
      refine (Ready.functionDef (fun other => .inl (Option.some_ne_none other))
        (Ready.ofBody (raisingHandle kept rfl))).bind fun _ => .assume fun shown => ?_
      refine (keeps_declareJson (fun _ _ before => before) _ _).bind fun json => ?_
      have init : Ensures (Ready (some kept) stmts none) synthesizeInit fun _ _ =>
          formsAll stmts = [] := by
        have begun : Keeps (Ready (some kept) stmts none)
            (beginFunction "lambpie_init" .void []) := by
          intro state result state' before run
          obtain ⟨-, -, rfl⟩ := beginFunction_ok_iff.mp run
          exact before
        refine begun.bind fun _ => ?_
        have cleared : Keeps (Ready (some kept) stmts none) clearLocals :=
          .modify fun _ before => before
        refine cleared.bind fun _ => ?_
        have static : Keeps (Ready (some kept) stmts none)
            (Comp.modify fun state => { state with currentArena := .static } : Visit _) :=
          .modify fun _ before => before
        refine static.bind fun _ => ?_
        have readStmts : Ensures (Ready (some kept) stmts none)
            (Comp.reads (·.initStmts) : Visit _)
            fun found state => found = stmts ∧ Ready (some kept) stmts none state :=
          .reads fun _ before => ⟨before.1.2, before⟩
        refine readStmts.bind fun found => .assume fun isStmts => ?_
        subst isStmts
        exact (Ready.ofBody raisingStmts).bind fun _ => .assume fun shown =>
          fun _ _ _ _ _ => shown
      exact init.bind fun _ _ _ _ stmtsLowered _ =>
        ⟨kept, rfl, shown.1, stmtsLowered⟩

theorem ready_initial : Ready none [] none CompilerState.initial := by
  refine ⟨⟨rfl, rfl⟩, ?_, ?_, ?_⟩
  · intro name className isClass
    simp only [CompilerState.initial, Scope.set, Scope.empty] at isClass
    split_ifs at isClass <;> cases isClass
  · intro name laidOut
    cases laidOut
  · intro name val known
    simp only [CompilerState.initial, Scope.set, Scope.empty, functionValue] at known
    split_ifs at known <;> cases known <;> exact ⟨_, rfl⟩

private theorem filter_isHandle {tree : List Node} {kept : FunctionNode}
    (single : (tree.filter isHandle).length ≤ 1)
    (isKept : tree.foldl keptHandle none = some kept) :
    ∃ dropped, tree.filter isHandle =
      [.functionDef "handle" kept.args kept.returns kept.body dropped] := by
  rw [foldl_keptHandle] at isKept
  cases handles : tree.filter isHandle with
  | nil =>
      rw [handles] at isKept
      cases isKept
  | cons first rest =>
      rw [handles] at isKept single
      have noRest : rest = [] :=
        List.eq_nil_of_length_eq_zero (by simp at single; simp [single])
      subst noRest
      have isFirst : isHandle first = true :=
        (List.mem_filter.mp (handles ▸ List.mem_cons_self)).2
      cases first with
      | functionDef name args returns body dropped =>
          have isEntry : name = "handle" := of_decide_eq_true isFirst
          subst isEntry
          cases isKept
          exact ⟨dropped, rfl⟩
      | _ => cases isFirst

/-- If every unlowered form is one for which a visitor raises, the program is
rejected as soon as it has one. -/
theorem moduleForms_eq_nil {tree : List Node} {state : CompilerState}
    (raising : ∀ form ∈ moduleForms tree, form.rejected = true)
    (compiled : compileState tree = .ok state) : moduleForms tree = [] := by
  have body {stmt : Node} (member : stmt ∈ tree) (notMain : isMainBlock stmt = false) :
      ∀ form ∈ forms stmt, form ∈ moduleForms tree := by
    intro form found
    refine List.mem_append_left _ ?_
    rw [formsAll_eq, List.mem_flatMap]
    exact ⟨stmt, List.mem_filter.mpr ⟨member, by rw [notMain]; rfl⟩, found⟩
  have raisingStmt : ∀ stmt ∈ tree, isMainBlock stmt = false →
      ∀ form ∈ forms stmt, form.rejected = true :=
    fun stmt member notMain form found =>
      raising form (body member notMain form found)
  have noShadow : formIf (1 < (tree.filter isHandle).length) .shadowedHandle = [] :=
    Raising.formIf_eq_nil (fun _ form found =>
      raising form (List.mem_append_right _ found)) rfl trivial
  have single : (tree.filter isHandle).length ≤ 1 := by
    by_contra several
    rw [decide_eq_true (by omega : 1 < (tree.filter isHandle).length)] at noShadow
    cases noShadow
  obtain ⟨middle, visited, synthesized⟩ := compileState_ok_iff.mp compiled
  obtain ⟨othersLowered, ready⟩ :=
    Ready.ofModule raisingStmt _ _ _ ready_initial visited
  have handleForms (kept : FunctionNode) (isKept : tree.foldl keptHandle none = some kept) :
      ∃ dropped, tree.filter isHandle =
          [.functionDef "handle" kept.args kept.returns kept.body dropped] ∧
        ∀ form ∈ formIf (!dropped.isEmpty) .functionExtras ++ formsAll kept.body,
          form.rejected = true := by
    obtain ⟨dropped, handles⟩ := filter_isHandle single isKept
    have member : Node.functionDef "handle" kept.args kept.returns kept.body dropped ∈
        tree.filter isHandle := by
      rw [handles]
      exact List.mem_cons_self
    exact ⟨dropped, handles, raisingStmt _ (List.mem_filter.mp member).1 rfl⟩
  have raisingHandle (kept : FunctionNode)
      (isKept : tree.foldl keptHandle none = some kept) :
      ∀ form ∈ formsAll kept.body, form.rejected = true := by
    obtain ⟨dropped, -, raises⟩ := handleForms kept isKept
    exact fun form found => raises form (List.mem_append_right _ found)
  have raisingDeferred : ∀ form ∈ formsAll ([] ++ tree.filter isDeferred),
      form.rejected = true := by
    intro form found
    rw [List.nil_append, formsAll_eq, List.mem_flatMap] at found
    obtain ⟨stmt, member, found⟩ := found
    obtain ⟨inTree, deferred⟩ := List.mem_filter.mp member
    refine raisingStmt stmt inTree ?_ form found
    cases stmt with
    | ifStmt => cases deferred
    | _ => rfl
  obtain ⟨kept, isKept, handleLowered, deferredLowered⟩ :=
    Ready.ofEntry raisingHandle raisingDeferred _ _ _ ready synthesized
  obtain ⟨dropped, handles, raises⟩ := handleForms kept isKept
  rw [List.nil_append, formsAll_eq, List.flatMap_eq_nil_iff] at deferredLowered
  unfold moduleForms
  rw [noShadow, List.append_nil, formsAll_eq, List.flatMap_eq_nil_iff]
  intro stmt member
  obtain ⟨inTree, notMain⟩ := List.mem_filter.mp member
  have notMain : isMainBlock stmt = false := by simpa using notMain
  cases isEntry : isHandle stmt with
  | true =>
      have isOnly : stmt ∈ tree.filter isHandle := List.mem_filter.mpr ⟨inTree, isEntry⟩
      rw [handles, List.mem_singleton] at isOnly
      subst isOnly
      have noExtras : formIf (!dropped.isEmpty) .functionExtras = [] :=
        Raising.formIf_eq_nil (fun _ form found =>
          raises form (List.mem_append_left _ found)) rfl trivial
      rw [forms, noExtras, handleLowered]
      rfl
  | false =>
      cases deferred : isDeferred stmt with
      | true => exact deferredLowered stmt (List.mem_filter.mpr ⟨inTree, deferred⟩)
      | false => exact othersLowered stmt inTree notMain isEntry deferred

end Lambpie.Compiler

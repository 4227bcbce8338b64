/-
What the rest of a compilation keeps.

Code is only added, a function with a body is not touched again, and a name that
is used in the module stays bound to what it was.
-/
import Lambpie.Compiler.ArenaTags
import Lambpie.Compiler.SlotCycles

namespace Lambpie.Compiler

open Foundations
open Foundations.Comp
open VisitInvariant

/-- The compilation may have gone on from the base to the state. -/
structure Later (base state : CompilerState) : Prop where
  code : base.module.code <+: state.module.code
  functions : ∀ (index : Nat) (func : Function), base.module.functions[index]? = some func →
    func.entry.isSome → state.module.functions[index]? = some func
  used : ∀ name, base.module.nameUsed name = true → state.module.nameUsed name = true
  globals : ∀ name, base.module.nameUsed name = true →
    state.globalScope name = base.globalScope name
  classes : ∀ name, (base.classLayouts name).isSome → (state.classLayouts name).isSome
  values : ∀ name val, state.globalScope name = some val → ∃ val', val = .value val'
  int : state.types "int" = some .i64 ∨ (state.classLayouts "int").isSome

section

variable {base middle state : CompilerState}

theorem Later.start (later : Later base state) : Later state state where
  code := List.prefix_rfl
  functions _ _ found _ := found
  used _ isUsed := isUsed
  globals _ _ := rfl
  classes _ laidOut := laidOut
  values := later.values
  int := later.int

theorem Later.trans (front : Later base middle) (back : Later middle state) :
    Later base state where
  code := front.code.trans back.code
  functions index func found defined :=
    back.functions index func (front.functions index func found defined) defined
  used name isUsed := back.used name (front.used name isUsed)
  globals name isUsed := (back.globals name (front.used name isUsed)).trans
    (front.globals name isUsed)
  classes name laidOut := back.classes name (front.classes name laidOut)
  values := back.values
  int := back.int

theorem Later.builtinInt (later : Later base state) (noClass : state.classLayouts "int" = none) :
    state.types "int" = some .i64 := by
  rcases later.int with builtin | laidOut
  · exact builtin
  · rw [noClass] at laidOut
    cases laidOut

theorem Later.noClass (later : Later base state) {name : String}
    (noClass : state.classLayouts name = none) : base.classLayouts name = none := by
  cases laidOut : base.classLayouts name with
  | none => rfl
  | some layout =>
      have still := later.classes name (by rw [laidOut]; rfl)
      rw [noClass] at still
      cases still

theorem Later.update (later : Later base state) (next : CompilerState)
    (code : next.module.code = state.module.code)
    (functions : next.module.functions = state.module.functions)
    (strings : next.module.globals = state.module.globals) (types : next.types = state.types)
    (globals : next.globalScope = state.globalScope)
    (layouts : next.classLayouts = state.classLayouts) : Later base next where
  code := by rw [code]; exact later.code
  functions := by rw [functions]; exact later.functions
  used name := by
    rw [nameUsed_eq next.module, functions, strings, ← nameUsed_eq]
    exact later.used name
  globals := by rw [globals]; exact later.globals
  classes := by rw [layouts]; exact later.classes
  values := by rw [globals]; exact later.values
  int := by rw [types, layouts]; exact later.int

theorem Later.append (later : Later base state) (entry : Emitted) :
    Later base (state.append entry) where
  code := later.code.trans (List.prefix_append _ _)
  functions := later.functions
  used := later.used
  globals := later.globals
  classes := later.classes
  values := later.values
  int := later.int

theorem Later.addGlobal (later : Later base state) (global : Global) :
    Later base (state.addGlobal global) where
  code := later.code
  functions := later.functions
  used name isUsed := by
    have before := later.used name isUsed
    rw [nameUsed_eq] at before ⊢
    simp only [CompilerState.addGlobal, List.any_append]
    rw [← Bool.or_assoc, before, Bool.true_or]
  globals := later.globals
  classes := later.classes
  values := later.values
  int := later.int

theorem Later.appendBlock (later : Later base state) (index : Nat) :
    Later base (state.appendBlock index) where
  code := later.code
  functions other func found defined := by
    have before := later.functions other func found defined
    obtain ⟨entry, isEntry⟩ := Option.isSome_iff_exists.mp defined
    have kept (label : Label) : { func with entry := some (func.entry.getD label) } = func := by
      rw [isEntry, Option.getD_some, ← isEntry]
    change (List.modify _ _ _)[other]? = _
    rw [List.getElem?_modify, before]
    change some (if index = other then _ else func) = some func
    rw [kept, ite_self]
  used name isUsed := by
    rw [nameUsed_appendBlock]
    exact later.used name isUsed
  globals := later.globals
  classes := later.classes
  values := later.values
  int := later.int

theorem Later.addFunction (later : Later base state) (func : Function) :
    Later base (state.addFunction func) where
  code := later.code
  functions index other found defined := by
    have before := later.functions index other found defined
    change (state.module.functions ++ [func])[index]? = some other
    rw [List.getElem?_append_left (List.getElem?_eq_some_iff.mp before).1, before]
  used name isUsed := by
    rw [nameUsed_addFunction, later.used name isUsed, Bool.true_or]
  globals := later.globals
  classes := later.classes
  values := later.values
  int := later.int

theorem Later.bind (later : Later base state) {name : String} (val : Value)
    (unused : base.module.nameUsed name = false) :
    Later base { state with globalScope := state.globalScope.set name (.value val) } where
  code := later.code
  functions := later.functions
  used := later.used
  globals other isUsed := by
    have different : other ≠ name := by
      intro same
      rw [same, unused] at isUsed
      cases isUsed
    exact (Scope.set_of_ne _ _ different).trans (later.globals other isUsed)
  classes := later.classes
  values other found bound := by
    by_cases same : other = name
    · rw [same] at bound
      cases (Scope.set_self _ _ _).symm.trans bound
      exact ⟨val, rfl⟩
    · exact later.values other found ((Scope.set_of_ne _ _ same).symm.trans bound)
  int := later.int

theorem Later.unused (later : Later base state) {name : String}
    (unused : state.module.nameUsed name = false) : base.module.nameUsed name = false := by
  cases isUsed : base.module.nameUsed name with
  | false => rfl
  | true => exact (later.used name isUsed).symm.trans unused

theorem Later.define (later : Later base state) {name : String}
    (unused : state.module.nameUsed name = false) (ret : LType) (params : List LType) :
    Later base (state.define name ret params) := by
  have defined := ((later.addFunction
    { name, ret, params, varArg := false, entry := none }).appendBlock
      state.module.functions.length).bind
        (functionValueOf { name, ret, params, varArg := false, entry := none }
          state.module.functions.length) (later.unused unused)
  exact defined.update _ rfl rfl rfl rfl rfl rfl

theorem Later.register (later : Later base state) (className : String) (layout : Layout) :
    Later base { state with
      types := state.types.set className (.ptr (.struct className))
      classLayouts := state.classLayouts.set className layout } where
  code := later.code
  functions := later.functions
  used := later.used
  globals := later.globals
  classes name laidOut := by
    by_cases same : name = className
    · change (state.classLayouts.set className layout name).isSome
      rw [same, Scope.set_self]
      rfl
    · change (state.classLayouts.set className layout name).isSome
      rw [Scope.set_of_ne _ _ same]
      exact later.classes name laidOut
  values := later.values
  int := by
    change state.types.set className (.ptr (.struct className)) "int" = _ ∨
      (state.classLayouts.set className layout "int").isSome
    by_cases same : "int" = className
    · rw [← same, Scope.set_self, Scope.set_self]
      exact .inr rfl
    · rw [Scope.set_of_ne _ _ same, Scope.set_of_ne _ _ same]
      exact later.int

theorem Later.emits : Emits (Later base) :=
  fun _ _ _ _ before _ => before.append _

theorem Later.keepsType ( annotation : Node) : Keeps (Later base) (getType annotation) := by
  apply keeps_getType_of
  intro state name before absent laidOut
  refine ⟨before.code, before.functions, before.used, before.globals, before.classes,
    before.values, ?_⟩
  by_cases same : "int" = name
  · exact .inr (same ▸ laidOut)
  · exact before.int.imp ((Scope.set_of_ne _ _ same).trans ·) fun laidOut => laidOut

theorem Later.invariant :
    VisitInvariant (Later base) (fun _ => True) (fun _ => True) False where
  ofNone := trivial
  ofType _ := trivial
  ofReg _ _ := trivial
  ofGlobal _ := trivial
  ofMethod _ _ := Iff.rfl
  ofLiteral _ _ _ _ := ⟨fun _ => trivial, fun _ => trivial⟩
  ofLocal _ _ _ _ _ := trivial
  ofScope _ name val before known := ⟨trivial, before.values name val known⟩
  callable _ _ _ _ ready _ := ready.elim
  keepsInstr _ _ _ before _ _ := before.append _
  keepsCall _ _ _ _ _ before _ := before.append _
  keepsAlloc ptrType sizeType tag :=
    (keeps_allocStruct Later.emits.plain.operand ptrType sizeType tag
      fun _ _ _ _ _ _ before _ => before.append _).weaken fun _ _ after => after.2
  keepsGlobal _ global before := before.addGlobal global
  keepsCounter _ before := before.update _ rfl rfl rfl rfl rfl rfl
  keepsBlock _ index _ before := before.appendBlock index
  keepsPosition _ _ _ before := before.update _ rfl rfl rfl rfl rfl rfl
  keepsLocal _ _ _ _ before := before.update _ rfl rfl rfl rfl rfl rfl
  keepsType := Later.keepsType

theorem Later.family :
    VisitFamily (fun _ : Unit => Later base) (fun _ => True) (fun _ _ => True) False where
  invariant _ := Later.invariant
  inFunction index _ _ before _ := ⟨index, trivial, before, fun _ => id⟩

theorem Later.opens {className : Option String} {name : String}
    (args : List (String × Option Node)) (returns : Option Node) :
    Ensures (Later base) (openFunction className name args returns) (fun _ => Later base) := by
  have switched (state : CompilerState) (before : Later base state) :
      Later base (if className = none ∧ name = "handle" then
        { state with currentArena := .req } else state) := by
    split
    · exact before.update _ rfl rfl rfl rfl rfl rfl
    · exact before
  exact ensures_openFunction switched Later.keepsType
    (fun _ ret params before unused =>
      (before.define unused ret params).update _ rfl rfl rfl rfl rfl rfl)
    Later.emits.plain (fun _ _ _ _ before => before.update _ rfl rfl rfl rfl rfl rfl) args returns

theorem Later.functionDef {className : Option String} {name : String}
    {args : List (String × Option Node)} {returns : Option Node} {fact : Prop}
    {body : Visit Unit} (does : Does (Later base) fact body) :
    Ensures (Later base) (visitFunctionDef className name args returns body)
      fun val state => (fact ∧ val = .none) ∧ Later base state :=
  ensures_functionDef
    (fun _ => (Later.opens args returns).strengthen fun _ both => both.2) (fun _ => does)
    (fun _ => Later.emits) fun _ _ after => after.update _ rfl rfl rfl rfl rfl rfl

theorem Later.declareClass (className : String) (body : List Node) :
    Ensures (Later base) (declareClass className body) fun _ state =>
      (∀ target annotation default, .annAssign target annotation default ∈ body →
        ∃ id, target = .name id) ∧ Later base state := by
  have autoInit (layout : Layout) : Keeps (Later base) (generateAutoInit className layout) := by
    refine ensures_generateAutoInit (fun _ => Later base) (fun _ => Later base) ?_
      (fun _ => Later.emits.plain) (fun _ => keeps_terminate Later.emits rfl) ?_
    · exact fun state before unused => before.define unused _ _
    · exact fun saved state after => after.update _ rfl rfl rfl rfl rfl rfl
  refine (ensures_declareClass Later.keepsType ?_
    (fun _ layout before => before.register className layout) autoInit).weaken
      fun _ _ after => ⟨after.1, ?_⟩
  · exact fun state structs before => before.update _ rfl rfl rfl rfl rfl rfl
  · have settled := after.2
    split at settled
    · exact settled
    · exact settled

theorem Later.classDef {fact : List Node → Prop} (className : String) (body : List Node)
    (does : MethodsDo (fun _ : Unit => Later base) fact body) :
    Ensures (Later base) (visitClassDef className body (visitMethods className body))
      fun val state => (ClassShape fact body ∧ val = .none) ∧ Later base state := by
  refine (Later.declareClass className body).bind fun _ => .assume fun named => ?_
  have method (name : String) (args : List (String × Option Node)) (returns : Option Node)
      (methodBody dropped : List Node)
      (member : .functionDef name args returns methodBody dropped ∈ body) :
      Ensures (Later base)
        (visitFunctionDef (some className) name args returns (Compiler.visitBody methodBody))
        fun _ state => fact methodBody ∧ Later base state :=
    (Later.functionDef (does _ _ _ _ _ member ())).weaken fun _ _ after => ⟨after.1.1, after.2⟩
  exact (ensures_methods method).bind fun _ => .assume fun shown =>
    .pure fun _ after => ⟨⟨⟨named, shown⟩, rfl⟩, after⟩

theorem Later.importFrom (module : Option String) (names : List (String × Option String)) :
    Ensures (Later base) (visitImportFrom module names)
      fun val state => (module = some "C" ∧ val = .none) ∧ Later base state := by
  apply keeps_importFrom
  intro state func before unused _
  exact (before.addFunction func).bind _ (before.unused unused)

theorem Later.definitionsKept : DefinitionsKept (fun _ : Unit => Later base) (fun _ => True) False
    where
  functionDef _ _ _ _ _ does index :=
    Later.invariant.gives_of_none (Later.functionDef (does index))
  classDef className body _ _ does _ :=
    Later.invariant.gives_of_none (Later.classDef className body does)
  importFrom module names _ := Later.invariant.gives_of_none (Later.importFrom module names)

theorem Later.visit (node : Node) : Keeps (Later base) (visit node) :=
  (gives_visit Later.family Later.definitionsKept node False.elim ()).plain.weaken
    fun _ _ after => after.2

theorem Later.visitBody (body : List Node) : Keeps (Later base) (visitBody body) :=
  (does_visitBody Later.family Later.definitionsKept body False.elim ()).weaken
    fun _ _ after => after.2

theorem Later.keeping (later : Later base state) (program : Program) :
    Later base (state.keeping program) :=
  later.update _ rfl rfl rfl rfl rfl rfl

theorem Later.visitTopLevel (stmt : Node) : Keeps (Later base) (visitTopLevel stmt) := by
  have visited : Keeps (Later base) (do
      let _ ← Compiler.visit stmt
      Pure.pure () : Visit Unit) :=
    (Later.visit stmt).bind fun _ => keeps_pure _
  have deferred : Keeps (Later base)
      (Comp.modify fun state => { state with initStmts := state.initStmts ++ [stmt] } :
        Visit Unit) :=
    .modify fun state before => before.keeping (state.handleNode, state.initStmts ++ [stmt])
  unfold Compiler.visitTopLevel
  split
  · exact keeps_pure _
  · cases stmt with
    | functionDef name args returns body dropped =>
        dsimp only
        split
        · exact .modify fun state before =>
            before.keeping (some { name, args, returns, body }, state.initStmts)
        · exact visited
    | annAssign | assign | expr => exact deferred
    | _ => exact visited

theorem Later.visitModule (tree : List Node) : Keeps (Later base) (visitModule tree) := by
  induction tree with
  | nil => exact keeps_pure _
  | cons stmt rest ih => exact (Later.visitTopLevel stmt).bind fun _ => ih

theorem Later.beginFunction (name : String) (ret : LType) (params : List LType) :
    Keeps (Later base) (beginFunction name ret params) := by
  intro state func state' before run
  obtain ⟨-, -, rfl⟩ := beginFunction_ok_iff.mp run
  exact ((before.addFunction _).appendBlock _).update _ rfl rfl rfl rfl rfl rfl

theorem Later.synthesizeInit : Keeps (Later base) synthesizeInit := by
  have cleared : Keeps (Later base) clearLocals :=
    .modify fun _ before => before.update _ rfl rfl rfl rfl rfl rfl
  have tagged : Keeps (Later base)
      (Comp.modify fun state => { state with currentArena := .static } : Visit _) :=
    .modify fun _ before => before.update _ rfl rfl rfl rfl rfl rfl
  refine (Later.beginFunction _ _ _).bind fun _ => cleared.bind fun _ => tagged.bind fun _ => ?_
  refine (keeps_reads _).bind fun stmts => (Later.visitBody stmts).bind fun _ => ?_
  refine keeps_isTerminated.bind fun terminated => ?_
  cases terminated with
  | true => exact keeps_pure _
  | false => exact keeps_terminate Later.emits rfl

theorem Later.synthesizeHandle (i8Ptr i64 eventPtrType : LType) (json : JsonFunctions)
    (eventLayout responseLayout : Layout) :
    Keeps (Later base)
      (synthesizeHandle i8Ptr i64 eventPtrType json eventLayout responseLayout) := by
  have emits : EmitsInBlock (Later base) := fun _ _ _ _ before _ => before.append _
  have entry := emits.tagged .req
  have calls := keeps_callInBlock emits.quiet
  have globals (state : CompilerState) (global : Global) (before : Later base state) :
      Later base (state.addGlobal global) := before.addGlobal global
  have counts (state : CompilerState) (before : Later base state) :
      Later base { state with nameCounter := state.nameCounter + 1 } :=
    before.update _ rfl rfl rfl rfl rfl rfl
  have cleared : Keeps (Later base) clearLocals :=
    .modify fun _ before => before.update _ rfl rfl rfl rfl rfl rfl
  have tagged : Keeps (Later base)
      (Comp.modify fun state => { state with currentArena := .req } : Visit _) :=
    .modify fun _ before => before.update _ rfl rfl rfl rfl rfl rfl
  have plain (type : LType) (index : Nat) : Plain (.value { type, operand := .arg index }) :=
    fun _ number => Operand.noConfusion
  refine (Later.beginFunction _ _ _).bind fun _ => cleared.bind fun _ => tagged.bind fun _ => ?_
  refine (keeps_allocEntry entry eventPtrType i64).bind fun eventStruct => .assume fun _ => ?_
  refine (keeps_storeField emits.plain.operand eventStruct 0 (.value (i32Const 1))).bind
    fun _ => ?_
  refine (keeps_decodeFields entry globals counts _ _ _ (plain i8Ptr 0)).bind fun _ => ?_
  refine (keeps_lookup_only _ _).bind fun userHandle => ?_
  refine (calls _ _).bind fun responseStruct => ?_
  refine (keeps_lengthConst _ 0).bind fun zero => .assume fun _ => ?_
  refine (calls _ _).bind fun pos => ?_
  refine (keeps_encodeFields entry globals counts _ _ _ _ (plain i8Ptr 2)).bind fun pos => ?_
  exact (calls _ _).bind fun pos => keeps_terminate Later.emits rfl

theorem Later.synthesizeLambdaEntry : Keeps (Later base) synthesizeLambdaEntry := by
  refine (keeps_reads _).bind fun found => ?_
  cases found with
  | none => exact .fail _
  | some node =>
      have body : Does (Later base) True (Compiler.visitBody node.body) :=
        (Later.visitBody node.body).weaken fun _ _ after => ⟨trivial, after⟩
      have handle := (@Later.functionDef base none node.name node.args node.returns _ _ body).weaken
        fun _ _ after => after.2
      refine (keeps_entryTypes node).bind fun types => ?_
      refine (keeps_entryLayout _ _).bind fun eventLayout => ?_
      refine (keeps_entryLayout _ _).bind fun responseLayout => ?_
      refine (keeps_lookup_only _ _).bind fun eventPtrType => ?_
      refine (keeps_lookup_only _ _).bind fun _ => ?_
      refine (keeps_lookup_only _ _).bind fun i8Ptr => ?_
      refine (keeps_lookup_only _ _).bind fun i64 => ?_
      refine handle.bind fun _ => ?_
      refine (keeps_declareJson (fun _ func before => before.addFunction func) _ _).bind
        fun json => ?_
      exact Later.synthesizeInit.bind fun _ => Later.synthesizeHandle _ _ _ _ _ _

end

theorem later_initial : Later CompilerState.initial CompilerState.initial where
  code := List.prefix_rfl
  functions _ _ found _ := found
  used _ isUsed := isUsed
  globals _ _ := rfl
  classes _ laidOut := laidOut
  values := ready_initial.2.values
  int := .inl rfl

end Lambpie.Compiler

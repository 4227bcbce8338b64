/-
The arena tags of compiled code.

The compiler compiles in phases, each with one current arena: the module's
statements, `handle`, the init statements and `lambpie_handle`.  What a phase
appends stands in functions of the phase and allocates with its tag.
-/
import Lambpie.Compiler.Definitions
import Lambpie.Compiler.VisitRecursion

namespace Lambpie.Compiler

open Foundations
open Foundations.Comp
open VisitInvariant

/-! ### Owned entries -/

/-- An entry of a phase: its function is one of the phase, and its tag, if it
has one, is the phase's. -/
structure Owned (tag : ArenaTag) (first count : Nat) (entry : Emitted) : Prop where
  lower : first ≤ entry.block.func
  upper : entry.block.func < count
  tagged : ∀ literal, entry.instr.tagLiteral = some literal → literal = tag.code

theorem Owned.grow {tag : ArenaTag} {first count more : Nat} {entry : Emitted}
    (owned : Owned tag first count entry) (grows : count ≤ more) :
    Owned tag first more entry :=
  { owned with upper := Nat.lt_of_lt_of_le owned.upper grows }

def HandleUsed (module : Module) : Prop := module.nameUsed "handle" = true

theorem HandleUsed.addFunction {state : CompilerState} (used : HandleUsed state.module)
    (func : Function) : HandleUsed (state.addFunction func).module := by
  unfold HandleUsed at used ⊢
  rw [nameUsed_addFunction, used, Bool.true_or]

theorem HandleUsed.addGlobal {state : CompilerState} (used : HandleUsed state.module)
    (global : Global) : HandleUsed (state.addGlobal global).module := by
  unfold HandleUsed at used ⊢
  rw [nameUsed_addGlobal, used, Bool.true_or]

theorem HandleUsed.appendBlock {state : CompilerState} (used : HandleUsed state.module)
    (index : Nat) : HandleUsed (state.appendBlock index).module := by
  unfold HandleUsed at used ⊢
  rw [nameUsed_appendBlock, used]

/-- The tables hold no `i32` constant, a layout comes with its type, and the
function kept for later is `handle`. -/
structure PlainScopes (types : Scope LType) (globalScope : Scope PyVal)
    (localScope : Scope Value) (classLayouts : Scope Layout)
    (handleNode : Option FunctionNode) : Prop where
  intType : types "int" ≠ some .i32
  registered : ∀ name, (classLayouts name).isSome → (types name).isSome
  globals : ∀ name val, globalScope name = some val →
    Plain val ∧ ∃ val', val = .value val'
  locals : ∀ name alloc, localScope name = some alloc → Plain (.value alloc)
  named : ∀ node, handleNode = some node → node.name = "handle"

def PlainState (state : CompilerState) : Prop :=
  PlainScopes state.types state.globalScope state.localScope state.classLayouts
    state.handleNode

theorem plain_of_isReg {val : Value} (isReg : val.IsReg) : Plain (.value val) := by
  obtain ⟨id, isReg⟩ := isReg
  intro _ number isInt
  rw [isReg] at isInt
  cases isInt

private theorem plain_function (func : Function) (index : Nat) :
    Plain (.value (functionValueOf func index)) :=
  fun isInt => nomatch isInt

section

variable {types : Scope LType} {globalScope : Scope PyVal} {localScope : Scope Value}
  {classLayouts : Scope Layout} {handleNode : Option FunctionNode}

theorem PlainScopes.setLocal
    (plain : PlainScopes types globalScope localScope classLayouts handleNode) (name : String)
    {alloc : Value} (isPlain : Plain (.value alloc)) :
    PlainScopes types globalScope (localScope.set name alloc) classLayouts
      handleNode :=
  { plain with
    locals := by
      intro other found known
      by_cases same : other = name
      · rw [same, Scope.set_self] at known
        cases known
        exact isPlain
      · rw [Scope.set_of_ne _ _ same] at known
        exact plain.locals other found known }

theorem PlainScopes.clearLocals
    (plain : PlainScopes types globalScope localScope classLayouts handleNode) :
    PlainScopes types globalScope .empty classLayouts handleNode :=
  { plain with locals := fun _ _ known => nomatch known }

private theorem PlainScopes.setFunction
    (plain : PlainScopes types globalScope localScope classLayouts handleNode) (name : String)
    (func : Function) (index : Nat) :
    PlainScopes types (globalScope.set name (.value (functionValueOf func index)))
      localScope classLayouts handleNode :=
  { plain with
    globals := by
      intro other found known
      by_cases same : other = name
      · rw [same, Scope.set_self] at known
        cases known
        exact ⟨plain_function func index, _, rfl⟩
      · rw [Scope.set_of_ne _ _ same] at known
        exact plain.globals other found known }

theorem PlainScopes.setClass
    (plain : PlainScopes types globalScope localScope classLayouts handleNode)
    (className : String) (layout : Layout) :
    PlainScopes (types.set className (.ptr (.struct className))) globalScope
      localScope (classLayouts.set className layout) handleNode :=
  { plain with
    intType := by
      by_cases same : "int" = className
      · rw [same, Scope.set_self]
        exact nofun
      · rw [Scope.set_of_ne _ _ same]
        exact plain.intType
    registered := by
      intro name laidOut
      by_cases same : name = className
      · rw [same, Scope.set_self]
        rfl
      · rw [Scope.set_of_ne _ _ same] at laidOut ⊢
        exact plain.registered name laidOut }

end

/-- The names of the functions and the code when a phase starts, and the names
that the phase is known to start with. -/
structure PhaseBase where
  names : List String
  code : List Emitted
  opened : List String

def Module.names (module : Module) : List String := module.functions.map (·.name)

def CompilerState.base (state : CompilerState) (opened : List String) :
    PhaseBase where
  names := state.module.names
  code := state.module.code
  opened := opened

/-- A phase with its tag: what it has added to its base.  There are at least
`least` functions now. -/
structure PhaseFacts (tag : ArenaTag) (base : PhaseBase) (least : Nat)
    (currentArena : ArenaTag) (names : List String) (code : List Emitted)
    (builder : Option Label) : Prop where
  arena : currentArena = tag
  started : ∃ more, names = base.names ++ base.opened ++ more
  grown : least ≤ names.length
  owned : ∃ added, code = base.code ++ added ∧
    ∀ entry ∈ added, Owned tag base.names.length names.length entry
  inside : ∀ label, builder = some label →
    base.names.length ≤ label.func ∧ label.func < names.length

/-- `used` says that `handle` is defined when the phase starts. -/
def Phase (used : Prop) (tag : ArenaTag) (base : PhaseBase) (least : Nat)
    (state : CompilerState) : Prop :=
  (PlainState state ∧ (used → HandleUsed state.module)) ∧
    PhaseFacts tag base least state.currentArena state.module.names
      state.module.code state.builder

section

variable {used : Prop} {tag : ArenaTag} {least : Nat} {base : PhaseBase}
  {names : List String} {code : List Emitted} {currentArena : ArenaTag}
  {builder : Option Label} {state : CompilerState}

theorem PhaseFacts.lower
    (facts : PhaseFacts tag base least currentArena names code builder) :
    base.names.length ≤ names.length := by
  obtain ⟨more, rfl⟩ := facts.started
  rw [List.append_assoc, List.length_append]
  exact Nat.le_add_right _ _

theorem PhaseFacts.append {label : Label} {instr : Instr}
    (facts : PhaseFacts tag base least currentArena names code builder)
    (standing : builder = some label)
    (tagged : ∀ literal, instr.tagLiteral = some literal → literal = tag.code) :
    PhaseFacts tag base least currentArena names
      (code ++ [{ block := label, instr }]) builder :=
  { facts with
    owned := by
      obtain ⟨added, rfl, owned⟩ := facts.owned
      refine ⟨added ++ [{ block := label, instr }], by rw [List.append_assoc], ?_⟩
      have inside := facts.inside label standing
      intro entry member
      obtain earlier | last := List.mem_append.mp member
      · exact owned entry earlier
      · rw [List.mem_singleton.mp last]
        exact ⟨inside.1, inside.2, tagged⟩ }

theorem PhaseFacts.declare
    (facts : PhaseFacts tag base least currentArena names code builder)
    (name : String) :
    PhaseFacts tag base least currentArena (names ++ [name]) code builder where
  arena := facts.arena
  started := by
    obtain ⟨more, rfl⟩ := facts.started
    exact ⟨more ++ [name], by rw [List.append_assoc]⟩
  grown := by
    rw [List.length_append]
    exact Nat.le_add_right_of_le facts.grown
  owned := by
    obtain ⟨added, same, owned⟩ := facts.owned
    refine ⟨added, same, fun entry member => (owned entry member).grow ?_⟩
    rw [List.length_append]
    exact Nat.le_add_right _ _
  inside := by
    intro label standing
    have inside := facts.inside label standing
    rw [List.length_append]
    exact ⟨inside.1, Nat.lt_add_right _ inside.2⟩

theorem PhaseFacts.begin {label : Label}
    (facts : PhaseFacts tag base least currentArena names code builder)
    (name : String) (isNew : label.func = names.length) :
    PhaseFacts tag base least currentArena (names ++ [name]) code (some label) :=
  { facts.declare name with
    inside := by
      intro other same
      cases same
      rw [isNew, List.length_append]
      exact ⟨facts.lower, Nat.lt_succ_self _⟩ }

theorem PhaseFacts.position {label : Label}
    (facts : PhaseFacts tag base least currentArena names code builder)
    (inside : base.names.length ≤ label.func ∧ label.func < least) :
    PhaseFacts tag base least currentArena names code (some label) :=
  { facts with
    inside := by
      intro other same
      cases same
      exact ⟨inside.1, Nat.lt_of_lt_of_le inside.2 facts.grown⟩ }

@[simp] theorem names_appendBlock (state : CompilerState) (index : Nat) :
    (state.appendBlock index).module.names = state.module.names :=
  map_modify (·.name) _ _ _ fun _ => rfl

@[simp] theorem names_addFunction (state : CompilerState) (func : Function) :
    (state.addFunction func).module.names = state.module.names ++ [func.name] := by
  simp [Module.names, CompilerState.addFunction]

@[simp] theorem names_begin (state : CompilerState) (func : Function) :
    (state.begin func).module.names = state.module.names ++ [func.name] := by
  unfold CompilerState.begin
  exact (names_appendBlock _ _).trans (names_addFunction state func)

private theorem length_names (module : Module) : module.names.length = module.functions.length :=
  List.length_map _

theorem Phase.emits : Emits (Phase used tag base least) :=
  fun _ _ _ plain before standing => ⟨before.1, before.2.append standing
    fun _ literal => by rw [tagLiteral_of_not_call plain] at literal; cases literal⟩

theorem Phase.keepsAlloc (ptrType sizeType : LType) (current : ArenaTag) :
    Ensures (fun state => state.currentArena = current ∧
        Phase used tag base least state)
      (allocStruct ptrType sizeType current)
      (fun _ => Phase used tag base least) := by
  refine (keeps_allocStruct Phase.emits.plain.operand ptrType sizeType current ?_).weaken
    fun _ _ after => after.2
  intro state block index size isCurrent _ before standing
  refine ⟨before.1, before.2.append standing fun literal isLiteral => ?_⟩
  have sameTag : current = tag := isCurrent.symm.trans before.2.arena
  cases isLiteral
  rw [sameTag]

theorem Phase.keepsType ( annotation : Node) :
    Keeps (Phase used tag base least) (getType annotation) :=
  keeps_getType (fun _ before => before.1.1.registered) annotation

private theorem plain_literal {type : LType} (notI32 : type ≠ .i32) (operand : Operand) :
    Plain (.value { type, operand }) :=
  fun isInt => (notI32 isInt).elim

theorem PlainState.literal {state : CompilerState} {type : LType}
    (plain : PlainState state) (isInt : state.types "int" = some type)
    (operand : Operand) : Plain (.value { type, operand }) :=
  plain_literal (fun same => plain.intType (same ▸ isInt)) operand

theorem Phase.invariant :
    VisitInvariant (Phase used tag base least) Plain
      (fun index => base.names.length ≤ index ∧ index < least) False where
  ofNone := trivial
  ofType _ := trivial
  ofReg _ _ := fun _ _ isInt => nomatch isInt
  ofGlobal _ := fun isInt => nomatch isInt
  ofMethod _ _ := Iff.rfl
  ofLiteral _ _ before isInt :=
    ⟨fun _ => before.1.1.literal isInt _, fun _ => before.1.1.literal isInt _⟩
  ofLocal _ name alloc before known := before.1.1.locals name alloc known
  ofScope _ name val before known := before.1.1.globals name val known
  callable _ _ _ _ ready _ := ready.elim
  keepsInstr _ _ _ before standing plain := Phase.emits _ _ _ plain before standing
  keepsCall _ _ _ _ plain before standing :=
    ⟨before.1, before.2.append standing fun _ isLiteral => by
      rw [tagLiteral_of_plain plain] at isLiteral
      cases isLiteral⟩
  keepsAlloc := Phase.keepsAlloc
  keepsGlobal _ global before :=
    ⟨⟨before.1.1, fun isUsed => (before.1.2 isUsed).addGlobal global⟩, before.2⟩
  keepsCounter _ before := before
  keepsBlock state index _ before :=
    ⟨⟨before.1.1, fun isUsed => (before.1.2 isUsed).appendBlock index⟩,
      by rw [names_appendBlock]; exact before.2⟩
  keepsPosition _ _ inside before := ⟨before.1, before.2.position inside⟩
  keepsLocal _ name _ plain before :=
    ⟨⟨before.1.1.setLocal name plain, before.1.2⟩, before.2⟩
  keepsType := Phase.keepsType

theorem Phase.inFunction {state : CompilerState} {label : Label}
    (phase : Phase used tag base least state)
    (standing : state.builder = some label) :
    ∃ more, (base.names.length ≤ label.func ∧ label.func < more) ∧
      Phase used tag base more state ∧
        ∀ later, Phase used tag base more later →
          Phase used tag base least later := by
  have inside := phase.2.inside label standing
  refine ⟨max least (label.func + 1), ⟨inside.1, by omega⟩,
    ⟨phase.1, { phase.2 with grown := ?_ }⟩, fun later after =>
      ⟨after.1, { after.2 with grown := ?_ }⟩⟩
  · exact Nat.max_le.mpr ⟨phase.2.grown, inside.2⟩
  · exact Nat.le_trans (Nat.le_max_left _ _) after.2.grown

/-! ### When `handle` is defined too early -/

/-- With `handle` defined a second one fails, so nothing else is known. -/
def Escaped (state : CompilerState) : Prop :=
  PlainState state ∧ HandleUsed state.module

theorem Escaped.emits : Emits Escaped := fun _ _ _ _ before _ => before

theorem Escaped.keepsType ( annotation : Node) : Keeps Escaped (getType annotation) :=
  keeps_getType (fun _ before => before.1.registered) annotation

theorem Escaped.invariant (func : Nat → Prop) :
    VisitInvariant Escaped Plain func False where
  ofNone := trivial
  ofType _ := trivial
  ofReg _ _ := fun _ _ isInt => nomatch isInt
  ofGlobal _ := fun isInt => nomatch isInt
  ofMethod _ _ := Iff.rfl
  ofLiteral _ _ before isInt :=
    ⟨fun _ => before.1.literal isInt _, fun _ => before.1.literal isInt _⟩
  ofLocal _ name alloc before known := before.1.locals name alloc known
  ofScope _ name val before known := before.1.globals name val known
  callable _ _ _ _ ready _ := ready.elim
  keepsInstr _ _ _ before _ _ := before
  keepsCall _ _ _ _ _ before _ := before
  keepsAlloc ptrType sizeType tag :=
    (keeps_allocStruct Escaped.emits.plain.operand ptrType sizeType tag
      fun _ _ _ _ _ _ before _ => before).weaken fun _ _ after => after.2
  keepsGlobal _ global before := ⟨before.1, before.2.addGlobal global⟩
  keepsCounter _ before := before
  keepsBlock _ index _ before := ⟨before.1, before.2.appendBlock index⟩
  keepsPosition _ _ _ before := before
  keepsLocal _ name _ plain before := ⟨before.1.setLocal name plain, before.2⟩
  keepsType := Escaped.keepsType

/-! ### Definitions within a phase -/

theorem HandleUsed.begin {state : CompilerState} (handleUsed : HandleUsed state.module)
    (func : Function) : HandleUsed (state.begin func).module :=
  (handleUsed.addFunction func).appendBlock _

theorem Phase.define (phase : Phase used tag base least state) (name : String)
    (ret : LType) (params : List LType) :
    Phase used tag base least (state.define name ret params) := by
  refine ⟨⟨phase.1.1.setFunction name _ _, fun isUsed => (phase.1.2 isUsed).begin _⟩, ?_⟩
  unfold CompilerState.define
  rw [names_begin]
  exact phase.2.begin _ (length_names _).symm

theorem Escaped.define {state : CompilerState} (plain : PlainState state)
    (name : String) (isHandle : HandleUsed state.module ∨ name = "handle")
    (ret : LType) (params : List LType) :
    Escaped (state.define name ret params) := by
  refine ⟨plain.setFunction name _ _, ?_⟩
  obtain handleUsed | rfl := isHandle
  · exact handleUsed.begin _
  · have added : HandleUsed (state.addFunction
        { name := "handle", ret, params, varArg := false, entry := none }).module := by
      unfold HandleUsed
      rw [nameUsed_addFunction]
      simp
    exact added.appendBlock _

theorem Phase.opens {className : Option String} {name : String}
    (allowed : used ∨ ¬(className = none ∧ name = "handle"))
    (args : List (String × Option Node)) (returns : Option Node) :
    Ensures (Phase used tag base least) (openFunction className name args returns)
      (fun _ => Phase used tag base least) := by
  have locals (state : CompilerState) (name : String) (alloc : Value)
      (isReg : alloc.IsReg) (after : Phase used tag base least state) :
      Phase used tag base least
        { state with localScope := state.localScope.set name alloc } :=
    ⟨⟨after.1.1.setLocal name (plain_of_isReg isReg), after.1.2⟩, after.2⟩
  by_cases isEntry : className = none ∧ name = "handle"
  · -- a second definition of `handle` fails
    obtain ⟨rfl, rfl⟩ := isEntry
    have isUsed : used := allowed.resolve_right fun no => no ⟨rfl, rfl⟩
    refine ensures_openFunction (fun state before => ?_) Escaped.keepsType
      (fun state ret params before unused => ?_) Phase.emits.plain locals args returns
    · rw [if_pos ⟨rfl, rfl⟩]
      exact ⟨before.1.1, before.1.2 isUsed⟩
    · have twice : true = false := before.2.symm.trans unused
      cases twice
  · have types : ∀ node, Keeps (Phase used tag base least) (getType node) :=
      Phase.keepsType
    refine ensures_openFunction (fun state before => ?_) types
      (fun state ret params before _ => ?_) Phase.emits.plain locals args returns
    · rw [if_neg isEntry]
      exact before
    · have defined := before.define (functionName className name) ret params
      exact ⟨⟨defined.1.1.clearLocals, defined.1.2⟩, defined.2⟩

theorem Phase.functionDef {className : Option String} {name : String}
    {args : List (String × Option Node)} {returns : Option Node} {fact : Prop}
    {body : Visit Unit} (allowed : used ∨ ¬(className = none ∧ name = "handle"))
    (does : Does (Phase used tag base least) fact body) :
    Ensures (Phase used tag base least)
      (visitFunctionDef className name args returns body)
      fun val state => (fact ∧ val = .none) ∧ Phase used tag base least state := by
  have opens (saved : ArenaTag) : Ensures
      (fun state => state.currentArena = saved ∧ Phase used tag base least state)
      (openFunction className name args returns)
      fun _ state => saved = tag ∧ Phase used tag base least state :=
    .showing (fun _ before => before.1.symm.trans before.2.2.arena) fun isTag =>
      ((Phase.opens allowed args returns).strengthen fun _ before => before.2).weaken
        fun _ _ after => ⟨isTag, after⟩
  refine ensures_functionDef opens (fun saved => ?_) (fun saved => ?_) ?_
  · exact .assume fun isTag => does.weaken fun _ _ after => ⟨after.1, isTag, after.2⟩
  · exact fun state block instr plain before standing =>
      ⟨before.1, Phase.emits state block instr plain before.2 standing⟩
  · exact fun saved state after => ⟨after.2.1, { after.2.2 with arena := after.1 }⟩

theorem Phase.declareClass (className : String) (body : List Node) :
    Ensures (Phase used tag base least) (declareClass className body)
      fun _ state =>
        (∀ target annotation default, .annAssign target annotation default ∈ body →
          ∃ id, target = .name id) ∧ Phase used tag base least state := by
  have autoInit (layout : Layout) : Keeps (Phase used tag base least)
      (generateAutoInit className layout) := by
    -- the builder comes back to a function of the phase
    let within (saved : Option Label) (state : CompilerState) : Prop :=
      (∀ label, saved = some label →
        base.names.length ≤ label.func ∧ label.func < state.module.names.length) ∧
      Phase used tag base least state
    have emits (saved : Option Label) : Emits (within saved) :=
      fun state block instr plain before standing =>
        ⟨before.1, Phase.emits state block instr plain before.2 standing⟩
    refine ensures_generateAutoInit within within ?_ (fun saved => (emits saved).plain)
      (fun saved => keeps_terminate (emits saved) rfl) ?_
    · intro state before _
      refine ⟨fun label standing => ?_, before.define _ _ _⟩
      have inside := before.2.inside label standing
      unfold CompilerState.define
      rw [names_begin, List.length_append]
      exact ⟨inside.1, Nat.lt_succ_of_lt inside.2⟩
    · exact fun saved state after => ⟨after.2.1, { after.2.2 with inside := after.1 }⟩
  have types : ∀ node, Keeps (Phase used tag base least) (getType node) :=
    Phase.keepsType
  refine (ensures_declareClass types (fun _ _ before => before)
    (fun _ layout before => ⟨⟨before.1.1.setClass className layout, before.1.2⟩,
      before.2⟩) autoInit).weaken fun _ _ after => ⟨after.1, ?_⟩
  have settled := after.2
  split at settled
  · exact settled
  · exact settled

theorem Phase.classDef {fact : List Node → Prop} (className : String) (body : List Node)
    (does : ∀ name args returns methodBody dropped,
      .functionDef name args returns methodBody dropped ∈ body →
        Does (Phase used tag base least) (fact methodBody) (visitBody methodBody)) :
    Ensures (Phase used tag base least)
      (visitClassDef className body (visitMethods className body))
      fun val state => (ClassShape fact body ∧ val = .none) ∧
        Phase used tag base least state := by
  refine (Phase.declareClass className body).bind fun _ => .assume fun named => ?_
  have method (name : String) (args : List (String × Option Node))
      (returns : Option Node) (methodBody dropped : List Node)
      (member : .functionDef name args returns methodBody dropped ∈ body) :
      Ensures (Phase used tag base least)
        (visitFunctionDef (some className) name args returns (visitBody methodBody))
        fun _ state => fact methodBody ∧ Phase used tag base least state :=
    (Phase.functionDef (.inr fun isEntry => Option.some_ne_none _ isEntry.1)
      (does _ _ _ _ _ member)).weaken fun _ _ after => ⟨after.1.1, after.2⟩
  exact (ensures_methods method).bind fun _ => .assume fun shown =>
    .pure fun _ after => ⟨⟨⟨named, shown⟩, rfl⟩, after⟩

theorem Phase.importFrom (module : Option String) (names : List (String × Option String)) :
    Ensures (Phase used tag base least) (visitImportFrom module names)
      fun val state => (module = some "C" ∧ val = .none) ∧
        Phase used tag base least state := by
  refine keeps_importFrom (fun state func before _ _ => ?_) module names
  refine ⟨⟨before.1.1.setFunction _ _ _, fun isUsed => (before.1.2 isUsed).addFunction func⟩, ?_⟩
  rw [names_addFunction]
  exact before.2.declare func.name

end

/-! ### Phases with `handle` defined -/

section

variable {tag : ArenaTag} {base : PhaseBase}

theorem Phase.family :
    VisitFamily (Phase True tag base) Plain
      (fun least index => base.names.length ≤ index ∧ index < least) False where
  invariant _ := Phase.invariant
  inFunction _ _ _ before standing := before.inFunction standing

theorem Phase.definitionsKept : DefinitionsKept (Phase True tag base) Plain False where
  functionDef _ _ _ _ _ does least :=
    Phase.invariant.gives_of_none (Phase.functionDef (.inl trivial) (does least))
  classDef className body _ _ does least :=
    Phase.invariant.gives_of_none (Phase.classDef className body
      fun _ _ _ _ _ member => does _ _ _ _ _ member least)
  importFrom module names _ := Phase.invariant.gives_of_none (Phase.importFrom module names)

theorem Phase.visitBody (least : Nat) (body : List Node) :
    Keeps (Phase True tag base least) (visitBody body) :=
  (does_visitBody Phase.family Phase.definitionsKept body False.elim least).weaken
    fun _ _ after => after.2

end

/-! ### The phase before `handle` is defined -/

theorem Escaped.opens {className : Option String} {name : String}
    (args : List (String × Option Node)) (returns : Option Node) :
    Ensures Escaped (openFunction className name args returns) (fun _ => Escaped) := by
  refine ensures_openFunction (fun state before => ?_) Escaped.keepsType
    (fun state ret params before _ => ?_) Escaped.emits.plain
    (fun _ name _ isReg after =>
      ⟨after.1.setLocal name (plain_of_isReg isReg), after.2⟩) args returns
  · split
    · exact before
    · exact before
  · have defined := Escaped.define before.1 (functionName className name) (.inl before.2) ret params
    exact ⟨defined.1.clearLocals, defined.2⟩

theorem Escaped.declareClass (className : String) (body : List Node) :
    Ensures Escaped (declareClass className body) fun _ state =>
      (∀ target annotation default, .annAssign target annotation default ∈ body →
        ∃ id, target = .name id) ∧ Escaped state := by
  have autoInit (layout : Layout) : Keeps Escaped (generateAutoInit className layout) :=
    ensures_generateAutoInit (fun _ => Escaped) (fun _ => Escaped)
      (fun _ before _ => Escaped.define before.1 _ (.inl before.2) _ _)
      (fun _ => Escaped.emits.plain) (fun _ => keeps_terminate Escaped.emits rfl)
      (fun _ _ after => after)
  refine (ensures_declareClass Escaped.keepsType (fun _ _ before => before)
    (fun _ layout before => ⟨before.1.setClass className layout, before.2⟩)
    autoInit).weaken fun _ _ after => ⟨after.1, ?_⟩
  have settled := after.2
  split at settled
  · exact settled
  · exact settled

theorem Escaped.importFrom (module : Option String)
    (names : List (String × Option String)) :
    Ensures Escaped (visitImportFrom module names) fun val state =>
      (module = some "C" ∧ val = .none) ∧ Escaped state :=
  keeps_importFrom (fun _ func before _ _ =>
    ⟨before.1.setFunction _ _ _, before.2.addFunction func⟩) module names

/-- Either `handle` is defined, which makes the compilation fail in the end, or
the code so far is that of a phase with the static tag. -/
def StaticPhase : Option Nat → CompilerState → Prop
  | none => Escaped
  | some least => fun state => Escaped state ∨ Phase False .static ⟨[], [], []⟩ least state

private theorem StaticPhase.of_escaped {index : Option Nat} {state : CompilerState}
    (escaped : Escaped state) : StaticPhase index state := by
  cases index with
  | none => exact escaped
  | some least => exact .inl escaped

theorem StaticPhase.family :
    VisitFamily StaticPhase Plain
      (fun index func => ∀ least, index = some least → 0 ≤ func ∧ func < least)
      False where
  invariant index := by
    cases index with
    | none => exact Escaped.invariant _
    | some least =>
        have inv := (Escaped.invariant fun func => 0 ≤ func ∧ func < least).or
          (Phase.invariant : VisitInvariant (Phase False .static ⟨[], [], []⟩ least) _ _ _)
        exact { inv with
          keepsBlock := fun state func inside => inv.keepsBlock state func (inside least rfl)
          keepsPosition := fun state label inside =>
            inv.keepsPosition state label (inside least rfl) }
  inFunction index state label before standing := by
    have ofEscaped (escaped : Escaped state) :
        ∃ other, (∀ least, other = some least → 0 ≤ label.func ∧ label.func < least) ∧
          StaticPhase other state ∧
            ∀ later, StaticPhase other later → StaticPhase index later :=
      ⟨none, fun _ isSome => (Option.some_ne_none _ isSome.symm).elim, escaped,
        fun _ => StaticPhase.of_escaped⟩
    cases index with
    | none => exact ofEscaped before
    | some least =>
        obtain escaped | phase := before
        · exact ofEscaped escaped
        · obtain ⟨more, inside, held, implies⟩ := phase.inFunction standing
          refine ⟨some more, fun _ same => ?_, .inr held, fun later => Or.imp_right (implies later)⟩
          cases same
          exact inside

theorem StaticPhase.emits (index : Option Nat) : Emits (StaticPhase index) :=
  fun state block instr plain before standing =>
    (StaticPhase.family.invariant index).keepsInstr state block instr before standing plain

theorem StaticPhase.functionDef {className : Option String} {name : String}
    {args : List (String × Option Node)} {returns : Option Node} {fact : Prop}
    {body : Visit Unit} (does : ∀ index, Does (StaticPhase index) fact body)
    (index : Option Nat) :
    Ensures (StaticPhase index) (visitFunctionDef className name args returns body)
      fun val state => (fact ∧ val = .none) ∧ StaticPhase index state := by
  have escape : Ensures Escaped (visitFunctionDef className name args returns body)
      fun val state => (fact ∧ val = .none) ∧ StaticPhase index state :=
    ensures_functionDef
      (fun _ => (Escaped.opens args returns).strengthen fun _ both => both.2)
      (fun _ => does none) (fun _ => Escaped.emits)
      (fun _ _ after => StaticPhase.of_escaped after)
  cases index with
  | none => exact escape
  | some least =>
      refine escape.cases ?_
      have opens : Ensures (Phase False .static ⟨[], [], []⟩ least)
          (openFunction className name args returns)
          (fun _ => StaticPhase (some least)) := by
        by_cases isEntry : className = none ∧ name = "handle"
        · obtain ⟨rfl, rfl⟩ := isEntry
          have types : ∀ node, Keeps PlainState (getType node) :=
            keeps_getType fun _ before => before.registered
          refine ensures_openFunction (fun state before => ?_) types
            (fun state ret params before _ => ?_) (StaticPhase.emits _).plain
            (fun state name alloc isReg after => ?_) args returns
          · rw [if_pos ⟨rfl, rfl⟩]
            exact before.1.1
          · have defined := Escaped.define before "handle" (.inr rfl) ret params
            exact .inl ⟨defined.1.clearLocals, defined.2⟩
          · exact (StaticPhase.family.invariant (some least)).keepsLocal state name alloc
              (plain_of_isReg isReg) after
        · exact (Phase.opens (.inr isEntry) args returns).weaken fun _ _ => .inr
      have opensWith (saved : ArenaTag) : Ensures
          (fun state => state.currentArena = saved ∧
            Phase False .static ⟨[], [], []⟩ least state)
          (openFunction className name args returns)
          fun _ state => saved = .static ∧ StaticPhase (some least) state :=
        .showing (fun _ before => before.1.symm.trans before.2.2.arena) fun isStatic =>
          (opens.strengthen fun _ before => before.2).weaken
            fun _ _ after => ⟨isStatic, after⟩
      refine ensures_functionDef opensWith (fun saved => ?_) (fun saved => ?_)
        (fun saved state after => ?_)
      · exact .assume fun isStatic => (does (some least)).weaken
          fun _ _ after => ⟨after.1, isStatic, after.2⟩
      · exact fun state block instr plain before standing =>
          ⟨before.1, StaticPhase.emits _ state block instr plain before.2 standing⟩
      · exact after.2.imp id fun phase => ⟨phase.1, { phase.2 with arena := after.1 }⟩

theorem StaticPhase.classDef {fact : List Node → Prop} (className : String)
    (body : List Node) (does : MethodsDo StaticPhase fact body) (index : Option Nat) :
    Ensures (StaticPhase index)
      (visitClassDef className body (visitMethods className body))
      fun val state => (ClassShape fact body ∧ val = .none) ∧ StaticPhase index state := by
  have declares : Ensures (StaticPhase index) (declareClass className body)
      fun _ state =>
        (∀ target annotation default, .annAssign target annotation default ∈ body →
          ∃ id, target = .name id) ∧ StaticPhase index state := by
    have escape := (Escaped.declareClass className body).weaken fun _ _ after =>
      (⟨after.1, StaticPhase.of_escaped after.2⟩ : _ ∧ StaticPhase index _)
    cases index with
    | none => exact escape
    | some least =>
        exact escape.cases ((Phase.declareClass className body).weaken
          fun _ _ after => ⟨after.1, .inr after.2⟩)
  refine declares.bind fun _ => .assume fun named => ?_
  have method (name : String) (args : List (String × Option Node))
      (returns : Option Node) (methodBody dropped : List Node)
      (member : .functionDef name args returns methodBody dropped ∈ body) :
      Ensures (StaticPhase index)
        (visitFunctionDef (some className) name args returns (visitBody methodBody))
        fun _ state => fact methodBody ∧ StaticPhase index state :=
    (StaticPhase.functionDef (does _ _ _ _ _ member) index).weaken
      fun _ _ after => ⟨after.1.1, after.2⟩
  exact (ensures_methods method).bind fun _ => .assume fun shown =>
    .pure fun _ after => ⟨⟨⟨named, shown⟩, rfl⟩, after⟩

theorem StaticPhase.importFrom (module : Option String)
    (names : List (String × Option String)) (index : Option Nat) :
    Ensures (StaticPhase index) (visitImportFrom module names) fun val state =>
      (module = some "C" ∧ val = .none) ∧ StaticPhase index state := by
  have escape := (Escaped.importFrom module names).weaken fun _ _ after =>
    (⟨after.1, StaticPhase.of_escaped after.2⟩ : _ ∧ StaticPhase index _)
  cases index with
  | none => exact escape
  | some least =>
      exact escape.cases ((Phase.importFrom module names).weaken
        fun _ _ after => ⟨after.1, .inr after.2⟩)

theorem StaticPhase.definitionsKept : DefinitionsKept StaticPhase Plain False where
  functionDef _ _ _ _ _ does index :=
    (StaticPhase.family.invariant index).gives_of_none (StaticPhase.functionDef does index)
  classDef className body _ _ does index :=
    (StaticPhase.family.invariant index).gives_of_none
      (StaticPhase.classDef className body does index)
  importFrom module names index :=
    (StaticPhase.family.invariant index).gives_of_none
      (StaticPhase.importFrom module names index)

theorem PlainState.keepHandle {state : CompilerState} (plain : PlainState state)
    {node : FunctionNode} (isEntry : node.name = "handle") :
    PlainState { state with handleNode := some node } :=
  { plain with
    named := by
      intro other same
      cases same
      exact isEntry }

theorem StaticPhase.keepHandle {index : Option Nat} {state : CompilerState}
    (before : StaticPhase index state) {node : FunctionNode}
    (isEntry : node.name = "handle") :
    StaticPhase index { state with handleNode := some node } := by
  cases index with
  | none => exact ⟨before.1.keepHandle isEntry, before.2⟩
  | some least =>
      exact before.imp (fun held => ⟨held.1.keepHandle isEntry, held.2⟩)
        fun held => ⟨⟨held.1.1.keepHandle isEntry, held.1.2⟩, held.2⟩

theorem StaticPhase.visitModule (tree : List Node) (index : Option Nat) :
    Keeps (StaticPhase index) (visitModule tree) := by
  induction tree with
  | nil => exact keeps_pure _
  | cons stmt rest ih =>
      have visited : Keeps (StaticPhase index) (do
          let _ ← visit stmt
          Pure.pure () : Visit Unit) :=
        (gives_visit StaticPhase.family StaticPhase.definitionsKept stmt False.elim
          index).bind fun _ => .pure fun _ after => after.2.2
      have deferred (change : CompilerState → CompilerState)
          (same : ∀ state, StaticPhase index state → StaticPhase index (change state)) :
          Keeps (StaticPhase index) (Comp.modify change : Visit _) :=
        .modify same
      have top : Keeps (StaticPhase index) (visitTopLevel stmt) := by
        unfold visitTopLevel
        split
        · exact keeps_pure _
        · split
          · split
            · rename_i isEntry
              exact deferred _ fun state before => before.keepHandle isEntry
            · exact visited
          · refine deferred _ fun state before => ?_
            cases index <;> exact before
          · refine deferred _ fun state before => ?_
            cases index <;> exact before
          · refine deferred _ fun state before => ?_
            cases index <;> exact before
          · exact visited
      exact top.bind fun _ => ih

/-! ### The entry functions -/

theorem Phase.start {state state' : CompilerState} {func : Function} {tag : ArenaTag}
    (sameModule : state'.module = (state.begin func).module)
    (sameBuilder : state'.builder = (state.begin func).builder)
    (plain : PlainState state') (handleUsed : HandleUsed state'.module)
    (isTag : state'.currentArena = tag) :
    Phase True tag (state.base [func.name]) 0 state' := by
  refine ⟨⟨plain, fun _ => handleUsed⟩, ?_⟩
  rw [sameModule, names_begin, sameBuilder]
  refine ⟨isTag, ⟨[], (List.append_nil _).symm⟩, Nat.zero_le _,
    ⟨[], (List.append_nil _).symm,
      fun _ member => (List.not_mem_nil member).elim⟩, ?_⟩
  intro label standing
  cases standing
  rw [List.length_append, ← length_names]
  exact ⟨Nat.le_refl _, Nat.lt_succ_self _⟩

structure PhaseResult (tag : ArenaTag) (base : PhaseBase) (state : CompilerState) :
    Prop where
  plain : PlainState state
  handleUsed : HandleUsed state.module
  names : ∃ more, state.module.names = base.names ++ base.opened ++ more
  code : ∃ added, state.module.code = base.code ++ added ∧
    ∀ entry ∈ added, Owned tag base.names.length state.module.names.length entry

theorem Phase.result {tag : ArenaTag} {base : PhaseBase} {least : Nat}
    {state : CompilerState} (phase : Phase True tag base least state) :
    PhaseResult tag base state where
  plain := phase.1.1
  handleUsed := phase.1.2 trivial
  names := phase.2.started
  code := phase.2.owned

end Lambpie.Compiler

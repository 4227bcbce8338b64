/-
Which functions allocate in the request arena.

The functions from `handle` to the first declaration of the JSON codec, which
are `handle` and the definitions nested in it, are compiled with the request
tag, and so is `lambpie_handle`, the last function.
-/
import Lambpie.Compiler.ArenaTags
import Lambpie.Compiler.Ready

namespace Lambpie.Compiler

open Foundations
open Foundations.Comp

/-- The functions from `first` to `second`, and those from `last` on. -/
def spanTag (first second last func : Nat) : ArenaTag :=
  if (first ≤ func ∧ func < second) ∨ last ≤ func then .req else .static

def Module.tagOf (module : Module) (func : Nat) : ArenaTag :=
  spanTag (module.names.idxOf "handle") (module.names.idxOf "json_get_str")
    (module.names.idxOf "lambpie_handle") func

/-- Every constant tag in the code is the one of its function. -/
def CodeTagged (tagAt : Nat → ArenaTag) (count : Nat) (code : List Emitted) : Prop :=
  ∀ entry ∈ code, entry.block.func < count ∧
    ∀ literal, entry.instr.tagLiteral = some literal →
      literal = (tagAt entry.block.func).code

theorem CodeTagged.append {tagAt : Nat → ArenaTag} {tag : ArenaTag}
    {first count : Nat} {code added : List Emitted}
    (tagged : CodeTagged tagAt first code) (grows : first ≤ count)
    (owned : ∀ entry ∈ added, Owned tag first count entry)
    (isTag : ∀ func, first ≤ func → func < count → tagAt func = tag) :
    CodeTagged tagAt count (code ++ added) := by
  intro entry member
  rcases List.mem_append.mp member with earlier | later
  · have before := tagged entry earlier
    exact ⟨Nat.lt_of_lt_of_le before.1 grows, before.2⟩
  · have after := owned entry later
    rw [isTag _ after.lower after.upper]
    exact ⟨after.upper, after.tagged⟩

private theorem PhaseResult.codeTagged {tag : ArenaTag} {base : PhaseBase}
    {state : CompilerState} {tagAt : Nat → ArenaTag}
    (result : PhaseResult tag base state)
    (tagged : CodeTagged tagAt base.names.length base.code)
    (isTag : ∀ func, base.names.length ≤ func →
      func < state.module.names.length → tagAt func = tag) :
    CodeTagged tagAt state.module.names.length state.module.code := by
  obtain ⟨more, named⟩ := result.names
  obtain ⟨added, appended, owned⟩ := result.code
  rw [appended]
  apply tagged.append _ owned isTag
  rw [named, List.append_assoc, List.length_append]
  exact Nat.le_add_right _ _

private theorem not_mem_names {module : Module} {name : String}
    (unused : module.nameUsed name = false) : name ∉ module.names := by
  intro member
  obtain ⟨func, inModule, rfl⟩ := List.mem_map.mp member
  have used : module.functions.any (·.name = func.name) = true :=
    List.any_eq_true.mpr ⟨func, inModule, by simp⟩
  rw [Module.nameUsed, used, Bool.true_or] at unused
  cases unused

private theorem idxOf_opened {before after : List String} {name : String}
    (isNew : name ∉ before) : (before ++ [name] ++ after).idxOf name = before.length := by
  rw [List.append_assoc, List.idxOf_append_of_notMem isNew]
  simp

private theorem ensures_handleDefinition {state₁ : CompilerState} (plain : PlainState state₁)
    (args : List (String × Option Node)) (returns : Option Node) (body : List Node) :
    Ensures (· = state₁) (visitFunctionDef none "handle" args returns (visitBody body))
      fun _ state => state₁.module.nameUsed "handle" = false ∧
        PhaseResult .req (state₁.base ["handle"]) state := by
  let inside (state : CompilerState) : Prop :=
    state₁.module.nameUsed "handle" = false ∧
      Phase True .req (state₁.base ["handle"]) 0 state
  have emits : Emits inside := fun state block instr noCall before standing =>
    ⟨before.1, Phase.emits state block instr noCall before.2 standing⟩
  have opens (saved : ArenaTag) : Ensures
      (fun state => state.currentArena = saved ∧ state = state₁)
      (openFunction none "handle" args returns) (fun _ => inside) := by
    refine @ensures_openFunction _ (· = { state₁ with currentArena := .req }) inside
      none "handle" (fun state before => ?_)
      (fun node => keeps_getType (fun state before => ?_) node)
      (fun state ret params before unused => ?_) emits.plain
      (fun state name alloc isReg after => ?_) args returns
    · rw [if_pos ⟨rfl, rfl⟩, before.2]
    · rw [before]
      exact plain.registered
    · subst before
      have defined := Escaped.define plain "handle" (.inr rfl) ret params
      let func : Function :=
        { name := "handle", ret, params, varArg := false, entry := none }
      exact ⟨unused, @Phase.start { state₁ with currentArena := .req } _ func .req
        rfl rfl defined.1.clearLocals defined.2 rfl⟩
    · exact ⟨after.1, Phase.invariant.keepsLocal state name alloc
        (plain_of_isReg isReg) after.2⟩
  have does : Keeps inside (visitBody body) :=
    fun state result state' before run =>
      ⟨before.1, Phase.visitBody 0 body state result state' before.2 run⟩
  have defines : Ensures (· = state₁)
      (visitFunctionDef none "handle" args returns (visitBody body))
      fun val state => (True ∧ val = .none) ∧
        state₁.module.nameUsed "handle" = false ∧
          PhaseResult .req (state₁.base ["handle"]) state :=
    ensures_functionDef opens
      (fun _ => does.weaken fun _ _ after => ⟨trivial, after⟩) (fun _ => emits)
      (fun _ state after => ⟨after.1, after.2.result.plain,
        after.2.result.handleUsed, after.2.result.names, after.2.result.code⟩)
  exact defines.weaken fun _ _ after => after.2

/-- What the functions of the codec leave of a state. -/
structure CodecDeclared (before state : CompilerState) : Prop where
  unused : before.module.nameUsed "json_get_str" = false
  names : ∃ more, state.module.names =
    before.module.names ++ ["json_get_str"] ++ more
  code : state.module.code = before.module.code
  plain : PlainState state
  handleUsed : HandleUsed state.module

private theorem ensures_declareJson {state₂ : CompilerState} (plain : PlainState state₂)
    (handleUsed : HandleUsed state₂.module) (i8Ptr i64 : LType) :
    Ensures (· = state₂) (declareJson i8Ptr i64) fun _ => CodecDeclared state₂ := by
  have first (params : List LType) : Ensures (· = state₂)
      (declare "json_get_str" i8Ptr params) fun _ => CodecDeclared state₂ := by
    have added : Ensures (· = state₂) (addFunction "json_get_str" i8Ptr params false)
        fun _ => CodecDeclared state₂ := by
      intro state result state' before run
      obtain ⟨unused, -, rfl⟩ := addFunction_ok_iff.mp run
      subst before
      exact { unused, code := rfl, plain
              names := ⟨[], by rw [names_addFunction, List.append_nil]⟩
              handleUsed := handleUsed.addFunction _ }
    exact added.bind fun _ => keeps_pure _
  have declared (name : String) (ret : LType) (params : List LType) :
      Keeps (CodecDeclared state₂) (declare name ret params) := by
    refine keeps_declare (fun state func before => ?_) name ret params
    obtain ⟨more, named⟩ := before.names
    have later : (state.addFunction func).module.names =
        state₂.module.names ++ ["json_get_str"] ++ (more ++ [func.name]) := by
      rw [names_addFunction, named, List.append_assoc]
    exact { before with
            names := ⟨_, later⟩
            handleUsed := before.handleUsed.addFunction _ }
  exact (first _).bind fun _ => (declared _ _ _).bind fun _ =>
    (declared _ _ _).bind fun _ => (declared _ _ _).bind fun _ =>
      (declared _ _ _).bind fun _ => (declared _ _ _).bind fun _ => keeps_pure _

private theorem ensures_beginPhase {before : CompilerState} (plain : PlainState before)
    (handleUsed : HandleUsed before.module) {name : String} {ret : LType}
    {params : List LType} {tag : ArenaTag} {next : Visit Unit}
    {post : Unit → CompilerState → Prop}
    (continues : before.module.nameUsed name = false →
      Ensures (Phase True tag (before.base [name]) 0) next post) :
    Ensures (· = before) (do
      let _ ← beginFunction name ret params
      clearLocals
      Comp.modify fun state => { state with currentArena := tag }
      next) post := by
  intro state result state' same run
  subst same
  obtain ⟨func, _, begun, run⟩ := bind_ok_iff.mp run
  obtain ⟨unused, -, rfl⟩ := beginFunction_ok_iff.mp begun
  obtain ⟨_, _, cleared, run⟩ := bind_ok_iff.mp run
  obtain ⟨_, middle, switched, run⟩ := bind_ok_iff.mp run
  obtain rfl := modify_ok_iff.mp cleared
  obtain rfl := modify_ok_iff.mp switched
  let func : Function := { name, ret, params, varArg := false, entry := none }
  let entered : CompilerState :=
    { state.begin func with localScope := .empty, currentArena := tag }
  have phase : Phase True tag (state.base [name]) 0 entered :=
    @Phase.start state entered func tag rfl rfl plain.clearLocals
      (handleUsed.begin func) rfl
  exact continues unused entered result state' phase run

private theorem ensures_synthesizeInit {state₃ : CompilerState} (plain : PlainState state₃)
    (handleUsed : HandleUsed state₃.module) :
    Ensures (· = state₃) synthesizeInit fun _ state =>
      PhaseResult .static (state₃.base ["lambpie_init"]) state := by
  refine ensures_beginPhase plain handleUsed fun _ => ?_
  refine (keeps_reads _).bind fun stmts => ?_
  refine (Phase.visitBody 0 stmts).bind fun _ => ?_
  refine keeps_isTerminated.bind fun terminated => ?_
  split
  · exact .pure fun _ phase => phase.result
  · exact (keeps_terminate Phase.emits rfl).weaken fun _ _ phase => phase.result

private theorem Phase.emitsTagged {used : Prop} {tag : ArenaTag} {base : PhaseBase}
    {least : Nat} : EmitsTagged tag (Phase used tag base least) :=
  fun _ _ _ _ tagged before standing =>
    ⟨before.1, before.2.append standing tagged⟩

private theorem ensures_synthesizeHandle {state₄ : CompilerState} (plain : PlainState state₄)
    (handleUsed : HandleUsed state₄.module) (i8Ptr i64 eventPtrType : LType)
    (json : JsonFunctions) (eventLayout responseLayout : Layout) :
    Ensures (· = state₄)
      (synthesizeHandle i8Ptr i64 eventPtrType json eventLayout responseLayout)
      fun _ state => state₄.module.nameUsed "lambpie_handle" = false ∧
        PhaseResult .req (state₄.base ["lambpie_handle"]) state := by
  refine ensures_beginPhase plain handleUsed fun unused => ?_
  let holds : CompilerState → Prop :=
    Phase True .req (state₄.base ["lambpie_handle"]) 0
  have emits : EmitsTagged .req holds := Phase.emitsTagged
  have added (state : CompilerState) (global : Global) (before : holds state) :
      holds (state.addGlobal global) := Phase.invariant.keepsGlobal state global before
  have counts (state : CompilerState) (before : holds state) :
      holds { state with nameCounter := state.nameCounter + 1 } := before
  have plainArg (type : LType) (index : Nat) :
      Plain (.value { type, operand := .arg index }) := fun _ _ => nofun
  refine (keeps_allocEntry emits _ _).bind fun eventStruct => .assume fun isReg => ?_
  refine (keeps_storeField emits.plain.operand _ _ _).bind fun _ => ?_
  refine (keeps_decodeFields emits added counts _ _ _ (plainArg i8Ptr 0)).bind
    fun _ => ?_
  refine (keeps_lookup_only _ _).bind fun userHandle => ?_
  refine (keeps_callEntry emits _ _ (plain_of_isReg isReg)).bind
    fun responseStruct => .assume fun _ => ?_
  refine (keeps_lengthConst _ _).bind fun zero => .assume fun _ => ?_
  refine (keeps_callEntry emits _ _ (plainArg i8Ptr 2)).bind fun pos =>
    .assume fun _ => ?_
  refine (keeps_encodeFields emits added counts _ _ _ _ (plainArg i8Ptr 2)).bind
    fun pos => ?_
  refine (keeps_callEntry emits _ _ (plainArg i8Ptr 2)).bind fun pos =>
    .assume fun _ => ?_
  exact (keeps_terminate Phase.emits rfl).weaken fun _ _ phase =>
    ⟨unused, phase.result⟩

private theorem plainState_initial : PlainState CompilerState.initial where
  intType := by decide
  registered := by
    intro name laidOut
    cases laidOut
  globals := by
    intro name val known
    simp only [CompilerState.initial, Scope.set, Scope.empty, functionValue] at known
    split_ifs at known <;> cases known <;>
      exact ⟨fun typed => absurd typed (by decide), _, rfl⟩
  locals := by
    intro name alloc known
    cases known
  named := by
    intro node known
    cases known

private theorem staticPhase_initial : StaticPhase (some 0) CompilerState.initial := by
  refine .inr ⟨⟨plainState_initial, False.elim⟩, rfl, ⟨_, rfl⟩, Nat.zero_le _,
    ⟨[], rfl, fun _ member => (List.not_mem_nil member).elim⟩, nofun⟩

theorem CodeTagged.mono {tagAt tagAt' : Nat → ArenaTag} {count count' : Nat}
    {code : List Emitted} (tagged : CodeTagged tagAt count code)
    (same : ∀ func, func < count → tagAt' func = tagAt func)
    (grows : count ≤ count') : CodeTagged tagAt' count' code := by
  intro entry member
  have before := tagged entry member
  rw [same _ before.1]
  exact ⟨Nat.lt_of_lt_of_le before.1 grows, before.2⟩

/-- The phases one after the other: the module's statements, `handle`, the init
statements and `lambpie_handle`. -/
theorem codeTagged_of_phases {state₁ state₂ state₃ state₄ state₅ : CompilerState}
    (static : CodeTagged (fun _ => .static) state₁.module.names.length
      state₁.module.code)
    (handleNew : state₁.module.nameUsed "handle" = false)
    (handleDone : PhaseResult .req (state₁.base ["handle"]) state₂)
    (codec : CodecDeclared state₂ state₃)
    (initDone : PhaseResult .static (state₃.base ["lambpie_init"]) state₄)
    (entryNew : state₄.module.nameUsed "lambpie_handle" = false)
    (entryDone : PhaseResult .req (state₄.base ["lambpie_handle"]) state₅) :
    CodeTagged state₅.module.tagOf state₅.module.names.length
      state₅.module.code := by
  obtain ⟨more₂, names₂⟩ := handleDone.names
  obtain ⟨more₃, names₃⟩ := codec.names
  obtain ⟨more₄, names₄⟩ := initDone.names
  obtain ⟨more₅, names₅⟩ := entryDone.names
  simp only [CompilerState.base] at names₂ names₃ names₄ names₅
  have isFirst : state₅.module.names.idxOf "handle" = state₁.module.names.length := by
    rw [names₅, names₄, names₃, names₂]
    simp only [List.append_assoc (state₁.module.names ++ ["handle"])]
    exact idxOf_opened (not_mem_names handleNew)
  have isSecond : state₅.module.names.idxOf "json_get_str" =
      state₂.module.names.length := by
    rw [names₅, names₄, names₃]
    simp only [List.append_assoc (state₂.module.names ++ ["json_get_str"])]
    exact idxOf_opened (not_mem_names codec.unused)
  have isLast : state₅.module.names.idxOf "lambpie_handle" =
      state₄.module.names.length := by
    rw [names₅]
    exact idxOf_opened (not_mem_names entryNew)
  have grown₂ := congrArg List.length names₂
  have grown₃ := congrArg List.length names₃
  have grown₄ := congrArg List.length names₄
  simp only [List.length_append, List.length_singleton] at grown₂ grown₃ grown₄
  have isTag (func : Nat) : state₅.module.tagOf func =
      spanTag state₁.module.names.length state₂.module.names.length
        state₄.module.names.length func := by
    rw [Module.tagOf, isFirst, isSecond, isLast]
  have tagged₁ : CodeTagged state₅.module.tagOf state₁.module.names.length
      state₁.module.code := by
    refine static.mono (fun func below => ?_) (le_refl _)
    rw [isTag, spanTag, if_neg (by omega)]
  have tagged₂ := handleDone.codeTagged tagged₁ fun func lower upper => by
    simp only [CompilerState.base] at lower
    rw [isTag, spanTag, if_pos (by omega)]
  have tagged₃ : CodeTagged state₅.module.tagOf state₃.module.names.length
      state₃.module.code := by
    rw [codec.code]
    exact tagged₂.mono (fun _ _ => rfl) (by omega)
  have tagged₄ := initDone.codeTagged tagged₃ fun func lower upper => by
    simp only [CompilerState.base] at lower
    rw [isTag, spanTag, if_neg (by omega)]
  exact entryDone.codeTagged tagged₄ fun func lower upper => by
    simp only [CompilerState.base] at lower
    rw [isTag, spanTag, if_pos (by omega)]

private theorem ensures_entryTagged {state₁ : CompilerState} (plain : PlainState state₁)
    (static : state₁.module.nameUsed "handle" = false →
      CodeTagged (fun _ => .static) state₁.module.names.length state₁.module.code) :
    Ensures (· = state₁) synthesizeLambdaEntry fun _ state =>
      CodeTagged state.module.tagOf state.module.names.length state.module.code := by
  have readNode : Ensures (· = state₁) (Comp.reads (·.handleNode) : Visit _)
      fun found state => found = state₁.handleNode ∧ state = state₁ :=
    .reads fun state before => ⟨before ▸ rfl, before⟩
  refine readNode.bind fun found => .assume fun isNode => ?_
  cases found with
  | none => exact .fail _
  | some node =>
      refine (keeps_entryTypes node).bind fun types => ?_
      refine (keeps_entryLayout _ _).bind fun eventLayout => ?_
      refine (keeps_entryLayout _ _).bind fun responseLayout => ?_
      refine (keeps_lookup_only _ _).bind fun eventPtrType => ?_
      refine (keeps_lookup_only _ _).bind fun _ => ?_
      refine (keeps_lookup_only _ _).bind fun i8Ptr => ?_
      refine (keeps_lookup_only _ _).bind fun i64 => ?_
      rw [plain.named node isNode.symm]
      refine (ensures_handleDefinition plain _ _ _).bind fun _ => .assume fun handleNew => ?_
      refine .each fun state₂ handleDone => ?_
      refine (ensures_declareJson handleDone.plain handleDone.handleUsed _ _).bind
        fun json => .each fun state₃ codec => ?_
      refine (ensures_synthesizeInit codec.plain codec.handleUsed).bind
        fun _ => .each fun state₄ initDone => ?_
      refine (ensures_synthesizeHandle initDone.plain initDone.handleUsed _ _ _ _ _
        _).weaken fun _ state₅ entry => ?_
      exact codeTagged_of_phases (static handleNew) handleNew handleDone codec initDone
        entry.1 entry.2

theorem codeTagged_of_compile {tree : List Node} {module : Module}
    (compiled : compile tree = .ok module) :
    CodeTagged module.tagOf module.names.length module.code := by
  obtain ⟨state, run, rfl⟩ := compile_ok_iff.mp compiled
  obtain ⟨state₁, visited, synthesized⟩ := compileState_ok_iff.mp run
  have visits := StaticPhase.visitModule tree (some 0) _ _ _ staticPhase_initial visited
  rcases visits with escaped | phase
  · refine ensures_entryTagged escaped.1 (fun unused => ?_) _ _ _ rfl synthesized
    have used := escaped.2
    rw [HandleUsed, unused] at used
    cases used
  · refine ensures_entryTagged phase.1.1 (fun _ => ?_) _ _ _ rfl synthesized
    obtain ⟨added, appended, owned⟩ := phase.2.owned
    rw [appended]
    intro entry member
    have isOwned := owned entry (by simpa using member)
    exact ⟨isOwned.upper, isOwned.tagged⟩

end Lambpie.Compiler

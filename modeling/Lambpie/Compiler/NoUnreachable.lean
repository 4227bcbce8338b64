/-
Compiled programs whose functions return on every path.

The `unreachable` of a function stands in a block that no walk from a
function's entry reaches.
-/
import Lambpie.Compiler.FallThrough
import Lambpie.Compiler.Ready

namespace Lambpie.Compiler

open Foundations
open Foundations.Comp

private theorem flows_modify {change : CompilerState → CompilerState}
    (graph : ∀ state, (change state).graph = state.graph)
    (known : ∀ program state, Knows program state → Knows program (change state)) :
    Flows true (Comp.modify change : Visit Unit) := by
  apply flows_of_keepsOnly
  intro program base
  refine .modify fun state reached => ⟨?_, known program state reached.2⟩
  rw [graph]
  exact reached.1

private theorem flows_clearLocals : Flows true clearLocals :=
  flows_modify (fun _ => rfl) fun _ _ known => known

private theorem flows_switch (tag : ArenaTag) :
    Flows true (Comp.modify fun state => { state with currentArena := tag } : Visit Unit) :=
  flows_modify (fun _ => rfl) fun _ _ known => known

private theorem flows_declare (name : String) (ret : LType) (params : List LType) :
    Flows true (declare name ret params) := by
  have added : Flows true (addFunction name ret params false) := by
    intro program state value state' sound known run
    obtain ⟨-, -, rfl⟩ := addFunction_ok_iff.mp run
    have graph := state.graph_addFunction
      { name, ret, params, varArg := false, entry := none } rfl
    exact ⟨graph ▸ (Graph.adds_declare sound).passes rfl, known⟩
  exact added.andThen fun _ => flows_pure _

private theorem flows_declareJson (i8Ptr i64 : LType) : Flows true (declareJson i8Ptr i64) :=
  (flows_declare _ _ _).andThen fun _ => (flows_declare _ _ _).andThen fun _ =>
    (flows_declare _ _ _).andThen fun _ => (flows_declare _ _ _).andThen fun _ =>
      (flows_declare _ _ _).andThen fun _ => (flows_declare _ _ _).andThen fun _ =>
        flows_pure _

private theorem flows_lengthConst (context : EntryContext) (number : Nat) :
    Flows true (lengthConst context number) :=
  (flows_constant _ _).andThen fun _ => flows_pure _

private theorem flows_keyGlobal (name : String) : Flows true (keyGlobal name) :=
  flows_nextName.andThen fun _ => flows_addGlobal _ _ _ _

private theorem flows_decodeStr (context : EntryContext) (keyPtr : Value) (keyLen : PyVal)
    (ptr : Value) : Flows true (decodeStr context keyPtr keyLen ptr) := by
  refine (flows_alloca _).andThen fun outLen => (flows_call _ _).andThen fun data => ?_
  refine (flows_load _).andThen fun len => (flows_lookup _ _).andThen fun strPtrType => ?_
  refine (flows_allocStruct _ _ _).andThen fun strStruct => ?_
  refine (flows_lookup _ _).andThen fun layout => ?_
  refine (flows_layoutIndex _ _).andThen fun _ => (flows_storeField _ _ _).andThen fun _ => ?_
  refine (flows_layoutIndex _ _).andThen fun _ => (flows_storeField _ _ _).andThen fun _ => ?_
  refine (flows_layoutIndex _ _).andThen fun _ => (flows_storeField _ _ _).andThen fun _ => ?_
  exact flows_store _ _

private theorem flows_decodeFields (context : EntryContext) (eventStruct : Value)
    (fields : List LayoutField) : Flows true (decodeFields context eventStruct fields) := by
  induction fields with
  | nil => exact flows_pure _
  | cons field rest ih =>
      have decoded : Flows true (decodeField context eventStruct field) := by
        refine (flows_keyGlobal _).andThen fun keyPtr => ?_
        refine (flows_lengthConst _ _).andThen fun keyLen => ?_
        refine (flows_fieldPtr _ _).andThen fun ptr => ?_
        split
        · exact flows_decodeStr _ _ _ _
        · split
          · exact (flows_call _ _).andThen fun _ => flows_store _ _
          · exact flows_fail _
      exact decoded.andThen fun _ => ih

private theorem flows_encodeFields (context : EntryContext) (responseStruct : Value)
    (pos : PyVal) (fields : List LayoutField) :
    Flows true (encodeFields context responseStruct pos fields) := by
  induction fields generalizing pos with
  | nil => exact flows_pure _
  | cons field rest ih =>
      have encoded : Flows true (encodeField context responseStruct pos field) := by
        refine (flows_keyGlobal _).andThen fun keyPtr => ?_
        refine (flows_lengthConst _ _).andThen fun keyLen => ?_
        split
        · refine (flows_fieldPtr _ _).andThen fun _ => (flows_load _).andThen fun _ => ?_
          refine (flows_lookup _ _).andThen fun layout => ?_
          refine (flows_layoutIndex _ _).andThen fun _ => (flows_fieldPtr _ _).andThen fun _ => ?_
          refine (flows_load _).andThen fun _ => (flows_layoutIndex _ _).andThen fun _ => ?_
          refine (flows_fieldPtr _ _).andThen fun _ => (flows_load _).andThen fun _ => ?_
          exact (flows_call _ _).andThen fun _ => flows_pure _
        · split
          · refine (flows_fieldPtr _ _).andThen fun _ => (flows_load _).andThen fun _ => ?_
            exact (flows_call _ _).andThen fun _ => flows_pure _
          · exact flows_fail _
      exact encoded.andThen fun next => ih next

private theorem flows_begin {name : String} {ret : LType} {params : List LType}
    {rest : Visit Unit} (flows : Flows false rest) :
    Flows false (do let _ ← beginFunction name ret params; rest) := by
  intro program state value state' sound known run
  obtain ⟨func, opened, begun, run⟩ := bind_ok_iff.mp run
  obtain ⟨-, -, rfl⟩ := beginFunction_ok_iff.mp begun
  have graph := state.graph_begin
    { name, ret, params, varArg := false, entry := none } rfl
  have opens := Graph.adds_begin sound
  rw [← graph] at opens
  obtain ⟨passes, known⟩ := flows program _ _ _ opens.sound known run
  exact ⟨opens.thenPasses passes, known⟩

private theorem flows_synthesizeHandle (i8Ptr i64 eventPtrType : LType) (json : JsonFunctions)
    (eventLayout responseLayout : Layout) :
    Flows false (synthesizeHandle i8Ptr i64 eventPtrType json eventLayout
      responseLayout) := by
  apply flows_begin
  refine flows_clearLocals.bind fun _ => (flows_switch _).bind fun _ => ?_
  refine (flows_allocStruct _ _ _).bind fun eventStruct => ?_
  refine (flows_storeField _ _ _).bind fun _ => (flows_decodeFields _ _ _).bind fun _ => ?_
  refine (flows_lookup _ _).bind fun userHandle => (flows_call _ _).bind fun response => ?_
  refine (flows_lengthConst _ _).bind fun zero => (flows_call _ _).bind fun pos => ?_
  refine (flows_encodeFields _ _ _ _).bind fun pos => (flows_call _ _).bind fun pos => ?_
  exact flows_terminate rfl rfl Instr.noConfusion

private theorem synthesizeInit_passes {program : Program} {state state' : CompilerState}
    (returns : allAlwaysReturn program.2 = true) (sound : state.graph.Sound)
    (known : Knows program state) (run : synthesizeInit state = .ok ((), state')) :
    Graph.Passes false state.graph state'.graph ∧ Knows program state' := by
  simp only [synthesizeInit, clearLocals, bind_ok_iff, modify_ok_iff, reads_ok_iff] at run
  obtain ⟨_, _, begun, _, cleared, isCleared, _, tagged, isTagged, stmts, _, ⟨rfl, rfl⟩,
    _, finished, bodyRun, terminated, _, ended, closeRun⟩ := run
  obtain ⟨-, -, rfl⟩ := beginFunction_ok_iff.mp begun
  have graph : tagged.graph = state.graph.begin := by
    subst isTagged isCleared
    exact state.graph_begin
      { name := "lambpie_init", ret := .void, params := [], varArg := false
        entry := none } rfl
  have opens : Graph.Adds state.graph tagged.graph := graph ▸ Graph.adds_begin sound
  have knownTagged : Knows program tagged := by
    subst isTagged isCleared
    exact known
  have stmts : tagged.initStmts = program.2 := congrArg Prod.snd knownTagged.2
  obtain ⟨passes, bodyKnown⟩ := flows_visitBody tagged.initStmts (stmts ▸ returns)
    program _ _ _ opens.sound knownTagged bodyRun
  have closed : closeFunction .void finished = .ok ((), state') := by
    refine bind_ok_iff.mpr ⟨terminated, _, ended, ?_⟩
    cases terminated with
    | true => exact closeRun
    | false => exact closeRun
  obtain ⟨closes, closedKnown⟩ := closes_of_run (.inl rfl) closed
  exact ⟨passes_closed opens passes closes, closedKnown bodyKnown⟩

def Returns (program : Program) : Prop :=
  (∀ node, program.1 = some node →
    returnsOnPaths node.returns node.body = true ∧ allAlwaysReturn node.body = true) ∧
  allAlwaysReturn program.2 = true

private theorem flows_entryTypes (node : FunctionNode) : Flows true (entryTypes node) := by
  have named ( annotation : Node) : Flows true (annotationName annotation) := by
    cases annotation with
    | name id => exact flows_pure _
    | _ => exact flows_fail _
  unfold entryTypes
  split
  · exact (named _).andThen fun _ => (named _).andThen fun _ => flows_pure _
  · exact flows_fail _
  · exact flows_fail _

private theorem flows_entryLayout (role typeName : String) :
    Flows true (entryLayout role typeName) := by
  refine (flows_reads _).andThen fun layout => ?_
  cases layout with
  | some layout => exact flows_pure _
  | none => exact flows_fail _

private theorem synthesizeLambdaEntry_passes {program : Program} {state state' : CompilerState}
    (returns : Returns program) (sound : state.graph.Sound) (known : Knows program state)
    (run : synthesizeLambdaEntry state = .ok ((), state')) :
    Graph.Passes true state.graph state'.graph := by
  simp only [synthesizeLambdaEntry, bind_ok_iff, reads_ok_iff] at run
  obtain ⟨found, _, ⟨rfl, rfl⟩, run⟩ := run
  cases isNode : state.handleNode with
  | none =>
      rw [isNode] at run
      cases run
  | some node =>
      rw [isNode] at run
      have kept := returns.1 node ((congrArg Prod.fst known.2).symm.trans isNode)
      have function : Flows false
          (visitFunctionDef none node.name node.args node.returns (visitBody node.body)) :=
        flows_visitFunctionDef (flows_visitBody node.body kept.2) kept.1
      simp only [bind_ok_iff] at run
      obtain ⟨types, _, named, eventLayout, _, laidOut, responseLayout, _, laidOut',
        eventPtrType, _, found, _, _, found', i8Ptr, _, found₁, i64, _, found₂, _, _,
        visited, json, _, declared, _, middle, initRun, handleRun⟩ := run
      obtain ⟨step₁, known⟩ := flows_entryTypes node program _ _ _ sound known named
      obtain ⟨step₂, known⟩ := flows_entryLayout _ _ program _ _ _ step₁.sound known laidOut
      obtain ⟨step₃, known⟩ := flows_entryLayout _ _ program _ _ _ step₂.sound known laidOut'
      obtain ⟨step₄, known⟩ := flows_lookup _ _ program _ _ _ step₃.sound known found
      obtain ⟨step₅, known⟩ := flows_lookup _ _ program _ _ _ step₄.sound known found'
      obtain ⟨step₆, known⟩ := flows_lookup _ _ program _ _ _ step₅.sound known found₁
      obtain ⟨step₇, known⟩ := flows_lookup _ _ program _ _ _ step₆.sound known found₂
      obtain ⟨step₈, known⟩ := function program _ _ _ step₇.sound known visited
      obtain ⟨step₉, known⟩ := flows_declareJson _ _ program _ _ _ step₈.sound known declared
      obtain ⟨init, known⟩ := synthesizeInit_passes returns.2 step₉.sound known initRun
      obtain ⟨handle, -⟩ := flows_synthesizeHandle _ _ _ _ _ _ program _ _ _ init.sound
        known handleRun
      exact ((((((((((step₁.trans step₂).trans step₃).trans step₄).trans step₅).trans
        step₆).trans step₇).trans step₈).trans step₉).trans init).trans handle).weaken

def FlowsTo {α : Type} (change : Program → Program) (visit : Visit α) : Prop :=
  ∀ program state value state', state.graph.Sound → Knows program state →
    visit state = .ok (value, state') →
      Graph.Passes true state.graph state'.graph ∧ Knows (change program) state'

/-- What a statement of the module leaves for the end. -/
def keptProgram (program : Program) (stmt : Node) : Program :=
  (keptHandle program.1 stmt, keptStmts program.2 stmt)

/-- The statement is left out or kept, or its functions return on every path. -/
def keptOrReturns (stmt : Node) : Bool :=
  isMainBlock stmt || isHandle stmt || alwaysReturns stmt

theorem FlowsTo.modify {change : Program → Program}
    {update : CompilerState → CompilerState}
    (graph : ∀ state, (update state).graph = state.graph)
    (known : ∀ program state, Knows program state →
      Knows (change program) (update state)) :
    FlowsTo change (Comp.modify update) := by
  intro program state value state' sound before run
  obtain ⟨-, rfl⟩ := modify_ok_iff.mp run
  refine ⟨?_, known program state before⟩
  rw [graph]
  exact .refl sound

theorem Flows.unchanged {α : Type} {falls : Bool} {visit : Visit α}
    {change : Program → Program} (flows : Flows falls visit)
    (same : ∀ program, change program = program) : FlowsTo change visit := by
  intro program state value state' sound known run
  rw [same]
  exact flows.weaken program state value state' sound known run

private theorem flows_visitTopLevel {stmt : Node} (returns : keptOrReturns stmt = true) :
    FlowsTo (keptProgram · stmt) (visitTopLevel stmt) := by
  have visited (returns : alwaysReturns stmt = true) :
      Flows true (do
        let _ ← visit stmt
        Pure.pure () : Visit Unit) :=
    (flows_visit stmt returns).weaken.andThen fun _ => flows_pure ()
  unfold keptOrReturns at returns
  unfold visitTopLevel
  cases main : isMainBlock stmt with
  | true =>
      rw [if_pos rfl]
      apply (flows_pure ()).unchanged
      intro program
      cases stmt with
      | ifStmt test body orelse => rfl
      | _ => cases main
  | false =>
      rw [if_neg Bool.false_ne_true]
      rw [main, Bool.false_or] at returns
      cases stmt with
      | functionDef name args declared body dropped =>
          dsimp only
          by_cases isEntry : name = "handle"
          · subst isEntry
            rw [if_pos rfl]
            exact .modify (fun _ => rfl) fun program state known =>
              ⟨known.1, congrArg (fun kept => (some _, kept.2)) known.2⟩
          · have notHandle :
                isHandle (.functionDef name args declared body dropped) = false :=
              decide_eq_false isEntry
            rw [notHandle, Bool.false_or] at returns
            rw [if_neg isEntry]
            apply (visited returns).unchanged
            intro program
            exact congrArg (·, program.2) (if_neg isEntry)
      | annAssign target annotation value =>
          exact .modify (fun _ => rfl) fun program state known =>
            ⟨known.1, congrArg (fun kept => (kept.1, kept.2 ++ _)) known.2⟩
      | assign target moreTargets value =>
          exact .modify (fun _ => rfl) fun program state known =>
            ⟨known.1, congrArg (fun kept => (kept.1, kept.2 ++ _)) known.2⟩
      | expr value =>
          exact .modify (fun _ => rfl) fun program state known =>
            ⟨known.1, congrArg (fun kept => (kept.1, kept.2 ++ _)) known.2⟩
      | _ => exact (visited returns).unchanged fun _ => rfl

private theorem flows_visitModule {tree : List Node} (returns : tree.all keptOrReturns = true) :
    FlowsTo (tree.foldl keptProgram ·) (visitModule tree) := by
  induction tree with
  | nil =>
      intro program state value state' sound known run
      obtain ⟨-, rfl⟩ := pure_ok_iff.mp run
      exact ⟨.refl sound, known⟩
  | cons stmt rest ih =>
      intro program state value state' sound known run
      rw [List.all_cons, Bool.and_eq_true_iff] at returns
      obtain ⟨_, middle, headRun, restRun⟩ := bind_ok_iff.mp run
      obtain ⟨head, known⟩ :=
        flows_visitTopLevel returns.1 program _ _ _ sound known headRun
      obtain ⟨tail, known⟩ := ih returns.2 _ _ _ _ head.sound known restRun
      exact ⟨head.trans tail, known⟩

/-- Each function that declares a value returns on every path: those of the
module, the last `handle` and those of the statements for `lambpie_init`. -/
def returnsEverywhere (tree : List Node) : Bool :=
  let (handle, stmts) := tree.foldl keptProgram (none, [])
  tree.all keptOrReturns &&
    (handle.all fun node =>
      returnsOnPaths node.returns node.body && allAlwaysReturn node.body) &&
    allAlwaysReturn stmts

private theorem sound_initial : CompilerState.initial.graph.Sound where
  targets entry member := (List.not_mem_nil member).elim
  entries index label found := by
    have isNone : ∀ entry ∈ CompilerState.initial.graph.entries, entry = none := by
      decide
    cases isNone _ (List.mem_of_getElem? found)
  builder label standing := nomatch standing

/-- The `unreachable` of a function is never branched to. -/
theorem unreachable_unwalked {tree : List Node} {state : CompilerState}
    (compiled : compileState tree = .ok state) (returns : returnsEverywhere tree = true)
    {entry : Emitted} (member : entry ∈ state.module.code)
    (isUnreachable : entry.instr = .unreachable) (count : Nat) :
    ¬state.graph.Walk count entry.block := by
  obtain ⟨middle, visited, synthesized⟩ := compileState_ok_iff.mp compiled
  obtain ⟨both, stmts⟩ := Bool.and_eq_true_iff.mp returns
  obtain ⟨all, handle⟩ := Bool.and_eq_true_iff.mp both
  obtain ⟨front, known⟩ := flows_visitModule all (none, []) _ _ _ sound_initial
    ⟨rfl, rfl⟩ visited
  have kept : Returns (tree.foldl keptProgram (none, [])) := by
    refine ⟨fun node isNode => ?_, stmts⟩
    rw [isNode] at handle
    exact Bool.and_eq_true_iff.mp handle
  have passes := front.trans (synthesizeLambdaEntry_passes kept front.sound known synthesized)
  rcases passes.unreachable _ (Graph.grounded_walk _ _) entry member isUnreachable with
    initially | unwalked
  · exact (List.not_mem_nil initially).elim
  · exact unwalked count

end Lambpie.Compiler

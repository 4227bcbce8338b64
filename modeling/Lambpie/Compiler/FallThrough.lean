/-
Where control can run off the end of a body.

Judging each test as able to go either way, the source shows which bodies have
a path to their end.  The builder agrees: after a body without such a path it
stands in a block that has its terminator or that no walk reaches, so that the
`unreachable` it may write there is never run.
-/
import Lambpie.Compiler.Constructs
import Lambpie.Compiler.Entry
import Lambpie.Compiler.Expressions

namespace Lambpie.Compiler

open Foundations
open Foundations.Comp

/-! ### Paths through the source -/

mutual

/-- Some path through the node goes on after it.  A function defined inside a
body takes the builder with it, and what follows is written after its end. -/
def fallsThrough : Node → Bool
  | .return_ _ => false
  | .ifStmt _ body orelse => fallsThroughAll body || fallsThroughAll orelse
  | .functionDef .. => false
  | .classDef _ body _ => body.all fun stmt => (isMethod stmt).isNone
  | .other _ children => fallsThroughAll children
  | _ => true

def fallsThroughAll : List Node → Bool
  | [] => true
  | stmt :: rest => fallsThrough stmt && fallsThroughAll rest

end

/-- `-> None`. -/
def declaresNone : Option Node → Bool
  | some (.constant .none) => true
  | _ => false

/-- A function returns on every path through its body, if it declares a
value. -/
def returnsOnPaths (returns : Option Node) (body : List Node) : Bool :=
  declaresNone returns || !fallsThroughAll body

mutual

/-- So does every function in the node.  `None` is a keyword, so no class has
its name. -/
def alwaysReturns : Node → Bool
  | .binOp left _ right => alwaysReturns left && alwaysReturns right
  | .unaryOp _ operand => alwaysReturns operand
  | .compare left [(_, comparator)] =>
      alwaysReturns left && alwaysReturns comparator
  | .compare left _ => alwaysReturns left
  | .call func args _ => alwaysReturns func && allAlwaysReturn args
  | .attribute value _ => alwaysReturns value
  | .subscript value slice => alwaysReturns value && alwaysReturns slice
  | .sliced value bounds => alwaysReturns value && allAlwaysReturn bounds
  | .return_ (some value) => alwaysReturns value
  | .assign (.subscript target slice) _ value =>
      alwaysReturns target && alwaysReturns slice && alwaysReturns value
  | .assign (.sliced target bounds) _ value =>
      alwaysReturns target && allAlwaysReturn bounds && alwaysReturns value
  | .assign _ _ value => alwaysReturns value
  | .annAssign _ _ (some value) => alwaysReturns value
  | .ifStmt test body orelse =>
      alwaysReturns test && allAlwaysReturn body && allAlwaysReturn orelse
  | .whileStmt test body _ => alwaysReturns test && allAlwaysReturn body
  | .expr value => alwaysReturns value
  | .functionDef _ _ returns body _ =>
      returnsOnPaths returns body && allAlwaysReturn body
  | .classDef name body _ => (name ≠ "None") && methodsAlwaysReturn body
  | .other _ children => allAlwaysReturn children
  | _ => true

def allAlwaysReturn : List Node → Bool
  | [] => true
  | node :: rest => alwaysReturns node && allAlwaysReturn rest

def methodsAlwaysReturn : List Node → Bool
  | [] => true
  | .functionDef _ _ returns body _ :: rest =>
      returnsOnPaths returns body && allAlwaysReturn body &&
        methodsAlwaysReturn rest
  | _ :: rest => methodsAlwaysReturn rest

end

/-- The definition of `handle` and the statements for `lambpie_init` so far. -/
abbrev Program := Option FunctionNode × List Node

/-- `None` is the type of functions that return nothing, and no visit changes
what is kept of the program. -/
def Knows (program : Program) (state : CompilerState) : Prop :=
  state.types "None" = some .void ∧ (state.handleNode, state.initStmts) = program

/-- A visit that control passes through only if the flag says so. -/
def Flows {α : Type} (falls : Bool) (visit : Visit α) : Prop :=
  ∀ program state value state', state.graph.Sound → Knows program state →
    visit state = .ok (value, state') →
      Graph.Passes falls state.graph state'.graph ∧ Knows program state'

/-- A state that control is passed to from the graph given. -/
def Reached (program : Program) (base : Graph) (state : CompilerState) : Prop :=
  Graph.Passes true base state.graph ∧ Knows program state

theorem Flows.weaken {α : Type} {falls : Bool} {visit : Visit α}
    (flows : Flows falls visit) : Flows true visit := by
  intro program state value state' sound none run
  obtain ⟨passes, none⟩ := flows program state value state' sound none run
  exact ⟨passes.weaken, none⟩

theorem Flows.bind {α β : Type} {first second : Bool} {visit : Visit α}
    {next : α → Visit β} (head : Flows first visit)
    (tail : ∀ value, Flows second (next value)) :
    Flows (first && second) (visit >>= next) := by
  intro program state value state' sound none run
  obtain ⟨middleValue, middle, headRun, tailRun⟩ := bind_ok_iff.mp run
  obtain ⟨headPasses, none⟩ := head program _ _ _ sound none headRun
  obtain ⟨tailPasses, none⟩ := tail _ program _ _ _ headPasses.sound none tailRun
  exact ⟨headPasses.trans tailPasses, none⟩

theorem Flows.andThen {α β : Type} {visit : Visit α} {next : α → Visit β}
    (head : Flows true visit) (tail : ∀ value, Flows true (next value)) :
    Flows true (visit >>= next) :=
  head.bind tail

private theorem flows_of_keeps {α : Type} {visit : Visit α} {fact : α → Prop}
    (kept : ∀ program base, Ensures (Reached program base) visit fun value state =>
      fact value ∧ Reached program base state) : Flows true visit := by
  intro program state value state' sound none run
  exact (kept program state.graph state value state' ⟨.refl sound, none⟩ run).2

theorem flows_of_keepsOnly {α : Type} {visit : Visit α}
    (kept : ∀ program base, Keeps (Reached program base) visit) : Flows true visit := by
  intro program state value state' sound none run
  exact kept program state.graph state value state' ⟨.refl sound, none⟩ run

theorem flows_pure {α : Type} (value : α) : Flows true (pure value : Visit α) :=
  flows_of_keepsOnly fun _ _ => keeps_pure value

theorem flows_reads {α : Type} (read : CompilerState → α) :
    Flows true (Comp.reads read : Visit α) :=
  flows_of_keepsOnly fun _ _ => keeps_reads read

theorem flows_fail {α : Type} {falls : Bool} (error : PyErr) :
    Flows falls (Comp.fail error : Visit α) := by
  intro _ state value state' _ _ run
  exact (fail_ok_iff.mp run).elim

private theorem emits_reached (program : Program) (base : Graph) :
    EmitsInBlock (Reached program base) := by
  intro state block instr inBlock reached standing
  refine ⟨?_, reached.2⟩
  rw [state.graph_append]
  have adds : Graph.Adds state.graph (state.graph.write { block, instr }) :=
    Graph.adds_write reached.1.sound (targets_of_inBlock inBlock)
      (Graph.ne_unreachable inBlock)
  exact reached.1.trans (adds.passes rfl)

private theorem quiet_reached (program : Program) (base : Graph) :
    Quiet (Reached program base) where
  emits := (emits_reached program base).quiet
  counter _ reached := reached
  global _ _ reached := reached

private theorem keeps_of_flows {α : Type} {visit : Visit α} (flows : Flows true visit)
    (program : Program) (base : Graph) : Keeps (Reached program base) visit := by
  intro state value state' reached run
  obtain ⟨passes, none⟩ := flows program state value state' reached.1.sound reached.2 run
  exact ⟨reached.1.trans passes, none⟩

theorem flows_lookup {α : Type} (scope : CompilerState → Scope α) (key : String) :
    Flows true (lookup scope key) :=
  flows_of_keepsOnly fun _ _ => keeps_lookup_only scope key

theorem flows_constant (type : LType) (operand : Operand) :
    Flows true (constant type operand) :=
  flows_of_keeps fun _ _ => keeps_constant type operand

theorem flows_load (ptr : PyVal) : Flows true (load ptr) :=
  flows_of_keeps fun program base => keeps_load (emits_reached program base).plain.operand ptr

theorem flows_store (val ptr : PyVal) : Flows true (store val ptr) :=
  flows_of_keepsOnly fun program base => keeps_store (emits_reached program base).plain.operand val ptr

theorem flows_alloca (type : LType) : Flows true (alloca type) :=
  flows_of_keeps fun program base => keeps_alloca (emits_reached program base).plain type

private theorem flows_gep (ptr : PyVal) (indices : List PyVal) : Flows true (gep ptr indices) :=
  flows_of_keeps fun program base => keeps_gep (emits_reached program base).plain.operand ptr indices

theorem flows_fieldPtr (ptr : PyVal) (index : Nat) : Flows true (fieldPtr ptr index) :=
  flows_gep ptr _

theorem flows_storeField (ptr : Value) (index : Nat) (val : PyVal) :
    Flows true (storeField ptr index val) :=
  flows_of_keepsOnly fun program base => keeps_storeField (emits_reached program base).plain.operand ptr index val

theorem flows_call (callee : PyVal) (args : List PyVal) : Flows true (call callee args) :=
  flows_of_keepsOnly fun program base => keeps_callInBlock (emits_reached program base).quiet callee args

theorem flows_allocStruct (ptrType sizeType : LType) (tag : ArenaTag) :
    Flows true (allocStruct ptrType sizeType tag) :=
  flows_of_keepsOnly fun program base =>
    keeps_allocInBlock (emits_reached program base).quiet ptrType sizeType tag

theorem flows_layoutIndex (layout : Layout) (name : String) :
    Flows true (layoutIndex layout name) :=
  flows_of_keepsOnly fun _ _ => keeps_layoutIndex layout name

theorem flows_nextName : Flows true nextName :=
  flows_of_keepsOnly fun _ _ => keeps_nextName fun _ reached => reached

theorem flows_addGlobal (name : String) (length : Nat) (bytes : List UInt8)
    (isConstant : Bool) : Flows true (addGlobal name length bytes isConstant) :=
  flows_of_keeps fun _ _ =>
    keeps_addGlobal (fun _ _ reached => reached) name length bytes isConstant

private theorem flows_targetName (target : Node) : Flows true (targetName target) :=
  flows_of_keeps fun _ _ => keeps_targetName target

private theorem flows_setLocal (name : String) (alloc : Value) : Flows true (setLocal name alloc) :=
  flows_of_keepsOnly fun _ _ => .modify fun _ reached => reached

private theorem keepsType_reached (program : Program) (base : Graph) (node : Node) :
    Keeps (Reached program base) (getType node) := by
  apply keeps_getType_of
  intro state name reached absent _
  have different : "None" ≠ name := by
    rintro rfl
    exact nomatch reached.2.1.symm.trans absent
  exact ⟨reached.1, (Scope.set_of_ne _ _ different).trans reached.2.1, reached.2.2⟩

private theorem flows_getType (node : Node) : Flows true (getType node) :=
  flows_of_keepsOnly fun program base => keepsType_reached program base node

section

variable {left right operand object slice callee : Visit PyVal}

private theorem flows_visitConstant (literal : Literal) : Flows true (visitConstant literal) :=
  flows_of_keepsOnly fun program base => keeps_visitConstant (quiet_reached program base) literal

private theorem flows_visitName (id : String) : Flows true (visitName id) :=
  flows_of_keepsOnly fun program base => keeps_visitName (quiet_reached program base) id

private theorem flows_visitBinOp (op : BinaryOp) (flowsLeft : Flows true left)
    (flowsRight : Flows true right) : Flows true (visitBinOp left op right) :=
  flows_of_keepsOnly fun program base => keeps_visitBinOp (quiet_reached program base) op
    (keeps_of_flows flowsLeft program base) (keeps_of_flows flowsRight program base)

private theorem flows_visitUnaryOp (op : UnaryOp) (flows : Flows true operand) :
    Flows true (visitUnaryOp op operand) :=
  flows_of_keepsOnly fun program base => keeps_visitUnaryOp (quiet_reached program base) op
    (keeps_of_flows flows program base)

private theorem flows_visitCompare (op : CompareOp) (flowsLeft : Flows true left)
    (flowsRight : Flows true right) :
    Flows true (visitCompare left (some (op, right))) :=
  flows_of_keepsOnly fun program base => keeps_visitCompare (quiet_reached program base) op
    (keeps_of_flows flowsLeft program base) (keeps_of_flows flowsRight program base)

private theorem flows_visitChain (flowsLeft : Flows true left) :
    Flows true (visitCompare left none) :=
  flows_of_keepsOnly fun program base => keeps_visitChain (keeps_of_flows flowsLeft program base)

private theorem flows_visitAttribute (attr : String) (flows : Flows true object) :
    Flows true (visitAttribute object attr) :=
  flows_of_keepsOnly fun program base => keeps_visitAttribute (quiet_reached program base) attr
    (keeps_of_flows flows program base)

private theorem flows_subscriptPtr (flowsObject : Flows true object)
    (flowsSlice : Flows true slice) : Flows true (subscriptPtr object slice) :=
  flows_of_keepsOnly fun program base => keeps_subscriptPtr (quiet_reached program base)
    (keeps_of_flows flowsObject program base) (keeps_of_flows flowsSlice program base)

private theorem flows_visitSubscript (flowsObject : Flows true object)
    (flowsSlice : Flows true slice) : Flows true (visitSubscript object slice) :=
  flows_of_keepsOnly fun program base => keeps_visitSubscript (quiet_reached program base)
    (keeps_of_flows flowsObject program base) (keeps_of_flows flowsSlice program base)

private theorem flows_visitCall {args : Visit (List PyVal)} (flowsCallee : Flows true callee)
    (flowsArgs : Flows true args) : Flows true (visitCall callee args) :=
  flows_of_keepsOnly fun program base => keeps_visitCall (quiet_reached program base)
    (keeps_of_flows flowsCallee program base) (keeps_of_flows flowsArgs program base)

end

theorem isTerminated_ok {terminated : Bool} {state state' : CompilerState}
    (run : isTerminated state = .ok (terminated, state')) :
    ∃ label, state.builder = some label ∧ state' = state ∧
      (terminated = true ↔ state.graph.Terminated label) := by
  obtain ⟨label, middle, current, run⟩ := bind_ok_iff.mp run
  obtain ⟨standing, rfl⟩ := currentBlock_ok_iff.mp current
  obtain ⟨rfl, rfl⟩ := reads_ok_iff.mp run
  refine ⟨label, standing, rfl, ?_⟩
  unfold Module.isTerminated Graph.Terminated
  simp [CompilerState.graph]

theorem terminate_ok {instr : Instr} {state state' : CompilerState}
    (run : terminate instr state = .ok ((), state')) :
    ∃ label, state.graph.OpenAt label ∧
      state' = state.append { block := label, instr } := by
  obtain ⟨terminated, middle, read, run⟩ := bind_ok_iff.mp run
  obtain ⟨label, standing, rfl, isTerminated⟩ := isTerminated_ok read
  cases terminated with
  | true => cases run
  | false =>
      obtain ⟨result, last, emitted, run⟩ := bind_ok_iff.mp run
      obtain ⟨-, rfl⟩ := pure_ok_iff.mp run
      obtain ⟨block, stands, -, rfl⟩ := emit_ok_iff.mp emitted
      rw [standing] at stands
      cases stands
      refine ⟨label, ⟨standing, fun ends => ?_⟩, rfl⟩
      cases isTerminated.mpr ends

private theorem leaves_of_terminate {program : Program} {instr : Instr}
    {state state' : CompilerState}
    (run : terminate instr state = .ok ((), state')) :
    Graph.Leaves instr state.graph state'.graph ∧
      (Knows program state → Knows program state') := by
  obtain ⟨label, isOpen, rfl⟩ := terminate_ok run
  exact ⟨⟨label, isOpen, rfl⟩, fun none => none⟩

private theorem joins_of_branch {program : Program} {target : Label} {state state' : CompilerState}
    (run : branchUnlessTerminated target state = .ok ((), state')) :
    Graph.Joins target state.graph state'.graph ∧
      (Knows program state → Knows program state') := by
  obtain ⟨terminated, middle, read, run⟩ := bind_ok_iff.mp run
  obtain ⟨label, standing, rfl, isTerminated⟩ := isTerminated_ok read
  cases terminated with
  | true =>
      obtain ⟨-, rfl⟩ := pure_ok_iff.mp run
      exact ⟨.inl ⟨label, standing, isTerminated.mp rfl, rfl⟩, fun none => none⟩
  | false =>
      obtain ⟨leaves, none⟩ := leaves_of_terminate run
      exact ⟨.inr leaves, none⟩

/-- A terminator without a target ends its block for good. -/
theorem flows_terminate {instr : Instr} (terminates : instr.isTerminator = true)
    (leaves : instr.targets = []) (plain : instr ≠ .unreachable) :
    Flows false (terminate instr) := by
  intro program state value state' sound none run
  obtain ⟨label, isOpen, rfl⟩ := terminate_ok run
  exact ⟨Graph.passes_terminate sound isOpen.1 terminates leaves plain, none⟩

theorem appendBlock_ok_iff {func : Nat} {label : Label} {state state' : CompilerState} :
    appendBlock func state = .ok (label, state') ↔
      label = state.nextLabel func ∧ state' = state.appendBlock func := by
  unfold appendBlock
  simp only [bind_ok_iff, reads_ok_iff, modify_ok_iff, pure_ok_iff]
  constructor
  · rintro ⟨_, _, ⟨rfl, rfl⟩, _, _, rfl, rfl, rfl⟩
    exact ⟨rfl, rfl⟩
  · rintro ⟨rfl, rfl⟩
    exact ⟨_, _, ⟨rfl, rfl⟩, (), _, rfl, rfl, rfl⟩

theorem currentFunction_ok {func : Nat} {state state' : CompilerState}
    (run : currentFunction state = .ok (func, state')) :
    ∃ label, state.builder = some label ∧ func = label.func ∧ state = state' := by
  obtain ⟨label, middle, current, run⟩ := bind_ok_iff.mp run
  obtain ⟨standing, rfl⟩ := currentBlock_ok_iff.mp current
  obtain ⟨rfl, rfl⟩ := pure_ok_iff.mp run
  exact ⟨label, standing, rfl, rfl⟩

theorem Flows.standing {α : Type} {falls : Bool} {visit : Visit α} {value : α}
    {program : Program}
    {state' : CompilerState} (flows : Flows falls visit) (state : CompilerState)
    (label : Label) (sound : (state.graph.standAt label).Sound)
    (none : Knows program state)
    (run : visit { state with builder := some label } = .ok (value, state')) :
    Graph.Passes falls (state.graph.standAt label) state'.graph ∧ Knows program state' :=
  flows program { state with builder := some label } value state' sound none run

private theorem flows_visitIfElse {test : Visit PyVal} {body orelse : Visit Unit}
    {bodyFalls elseFalls : Bool} (flowsTest : Flows true test)
    (flowsBody : Flows bodyFalls body) (flowsElse : Flows elseFalls orelse) :
    Flows (bodyFalls || elseFalls) (visitIf test body (some orelse)) := by
  intro program state value state' sound none run
  simp only [visitIf, positionAtEnd, branch, cbranch, bind_ok_iff, appendBlock_ok_iff,
    modify_ok_iff, pure_ok_iff] at run
  obtain ⟨func, _, current, _, _, ⟨rfl, rfl⟩, _, _, ⟨rfl, rfl⟩, _, _, ⟨rfl, rfl⟩, _, _,
    ⟨rfl, rfl⟩, _, opened, entered, _, _, rfl, condition, tested, testRun, _, chosen,
    chose, _, _, rfl, _, first, bodyRun, _, joined, firstJoined, _, _, rfl, _, second,
    elseRun, _, last, secondJoined, _, _, rfl, -, rfl⟩ := run
  obtain ⟨label, standing, rfl, rfl⟩ := currentFunction_ok current
  obtain ⟨entry, has⟩ := sound.builder label standing
  have two := state.graph_appendBlock_twice has
  have four := CompilerState.graph_appendBlock_twice
    ((state.appendBlock label.func).appendBlock label.func) (by rw [two]; exact has)
  obtain ⟨enters, enteredNone⟩ := leaves_of_terminate entered
  rw [four, two] at enters
  have openBlocks : opened.graph.blockCount = state.graph.blockCount + 4 := enters.blocks
  have openSound := enters.sound sound.addBlock.addBlock.addBlock.addBlock
    fun target member => by
      rw [List.mem_singleton.mp member]
      change state.graph.blockCount < state.graph.blockCount + 4
      omega
  have openHas := enters.extends_.entries _ _ has
  obtain ⟨testPasses, none⟩ := flowsTest.standing opened (state.graph.blockAfter label.func 0)
    (openSound.standAt openHas)
    (enteredNone none) testRun
  have testBlocks : opened.graph.blockCount ≤ tested.graph.blockCount :=
    testPasses.grows.blocks
  have testHas := testPasses.grows.entries _ _ openHas
  obtain ⟨chooses, chosenNone⟩ := leaves_of_terminate chose
  have chosenSound := chooses.sound testPasses.sound fun target member => by
    rcases List.mem_pair.mp member with rfl | rfl
    · change state.graph.blockCount + 1 < _
      omega
    · change state.graph.blockCount + 2 < _
      omega
  have chosenHas := chooses.extends_.entries _ _ testHas
  obtain ⟨bodyPasses, none⟩ := flowsBody.standing chosen (state.graph.blockAfter label.func 1)
    (chosenSound.standAt chosenHas)
    (chosenNone none) bodyRun
  have bodyBlocks : chosen.graph.blockCount ≤ first.graph.blockCount :=
    bodyPasses.grows.blocks
  have chosenBlocks := chooses.blocks
  obtain ⟨firstJoins, joinedNone⟩ := joins_of_branch firstJoined
  have joinedSound := firstJoins.sound bodyPasses.sound
    (by change state.graph.blockCount + 3 < _; omega)
  have joinedHas := firstJoins.extends_.entries _ _
    (bodyPasses.grows.entries _ _ chosenHas)
  obtain ⟨elsePasses, none⟩ := flowsElse.standing joined (state.graph.blockAfter label.func 2)
    (joinedSound.standAt joinedHas)
    (joinedNone none) elseRun
  obtain ⟨secondJoins, lastNone⟩ := joins_of_branch secondJoined
  have construct : Graph.IfElse label.func condition true bodyFalls elseFalls
      state.graph opened.graph tested.graph chosen.graph first.graph joined.graph
      second.graph last.graph :=
    { sound, inside := ⟨entry, has⟩, enters, test := testPasses, chooses
      firstArm := bodyPasses, firstJoins, secondArm := elsePasses, secondJoins }
  exact ⟨construct.passes, lastNone none⟩

private theorem passes_oneArm {test : Visit PyVal} {body : Visit Unit} {bodyFalls : Bool}
    {label : Label} {condition : PyVal} {back : Nat} {program : Program}
    {state opened tested chosen first last : CompilerState}
    (flowsTest : Flows true test) (flowsBody : Flows bodyFalls body)
    (isBack : back = 0 ∨ back = 2) (sound : state.graph.Sound) (none : Knows program state)
    (standing : state.builder = some label)
    (entered : branch (state.graph.blockAfter label.func 0)
      (((state.appendBlock label.func).appendBlock label.func).appendBlock label.func) =
        .ok ((), opened))
    (testRun : test { opened with builder := some (state.graph.blockAfter label.func 0) } =
      .ok (condition, tested))
    (chose : cbranch condition (state.graph.blockAfter label.func 1)
      (state.graph.blockAfter label.func 2) tested = .ok ((), chosen))
    (bodyRun : body { chosen with builder := some (state.graph.blockAfter label.func 1) } =
      .ok ((), first))
    (joined : branchUnlessTerminated (state.graph.blockAfter label.func back) first =
      .ok ((), last)) :
    Graph.Passes true state.graph
        (last.graph.standAt (state.graph.blockAfter label.func 2)) ∧ Knows program last := by
  obtain ⟨entry, has⟩ := sound.builder label standing
  have two := state.graph_appendBlock_twice has
  have three := CompilerState.graph_appendBlock
    ((state.appendBlock label.func).appendBlock label.func) (by rw [two]; exact has)
  obtain ⟨enters, enteredNone⟩ := leaves_of_terminate entered
  rw [three, two] at enters
  have openBlocks : opened.graph.blockCount = state.graph.blockCount + 3 := enters.blocks
  have openSound := enters.sound sound.addBlock.addBlock.addBlock
    fun target member => by
      rw [List.mem_singleton.mp member]
      change state.graph.blockCount < state.graph.blockCount + 3
      omega
  have openHas := enters.extends_.entries _ _ has
  obtain ⟨testPasses, none⟩ := flowsTest.standing opened
    (state.graph.blockAfter label.func 0) (openSound.standAt openHas)
    (enteredNone none) testRun
  have testBlocks : opened.graph.blockCount ≤ tested.graph.blockCount :=
    testPasses.grows.blocks
  have testHas := testPasses.grows.entries _ _ openHas
  obtain ⟨chooses, chosenNone⟩ := leaves_of_terminate chose
  have chosenSound := chooses.sound testPasses.sound fun target member => by
    rcases List.mem_pair.mp member with rfl | rfl
    · change state.graph.blockCount + 1 < _
      omega
    · change state.graph.blockCount + 2 < _
      omega
  have chosenHas := chooses.extends_.entries _ _ testHas
  obtain ⟨bodyPasses, none⟩ := flowsBody.standing chosen
    (state.graph.blockAfter label.func 1) (chosenSound.standAt chosenHas)
    (chosenNone none) bodyRun
  obtain ⟨joins, lastNone⟩ := joins_of_branch joined
  have construct : Graph.OneArm label.func condition true bodyFalls back state.graph
      opened.graph tested.graph chosen.graph first.graph last.graph :=
    { sound, inside := ⟨entry, has⟩, isBack, enters, test := testPasses, chooses
      arm := bodyPasses, joins }
  exact ⟨construct.passes, lastNone none⟩

private theorem flows_visitIf {test : Visit PyVal} {body : Visit Unit} {bodyFalls : Bool}
    (flowsTest : Flows true test) (flowsBody : Flows bodyFalls body) :
    Flows true (visitIf test body none) := by
  intro program state value state' sound none run
  simp only [visitIf, positionAtEnd, bind_ok_iff, appendBlock_ok_iff, modify_ok_iff,
    pure_ok_iff] at run
  obtain ⟨func, _, current, _, _, ⟨rfl, rfl⟩, _, _, ⟨rfl, rfl⟩, _, _, ⟨rfl, rfl⟩, _,
    opened, entered, _, _, rfl, condition, tested, testRun, _, chosen, chose, _, _, rfl,
    _, first, bodyRun, _, last, joined, _, _, rfl, -, rfl⟩ := run
  obtain ⟨label, standing, rfl, rfl⟩ := currentFunction_ok current
  have reached := passes_oneArm flowsTest flowsBody (.inr rfl) sound none standing entered
    testRun chose bodyRun joined
  exact reached

private theorem flows_visitWhile {test : Visit PyVal} {body : Visit Unit} {bodyFalls : Bool}
    (flowsTest : Flows true test) (flowsBody : Flows bodyFalls body) :
    Flows true (visitWhile test body) := by
  intro program state value state' sound none run
  simp only [visitWhile, positionAtEnd, bind_ok_iff, appendBlock_ok_iff, modify_ok_iff,
    pure_ok_iff] at run
  obtain ⟨func, _, current, _, _, ⟨rfl, rfl⟩, _, _, ⟨rfl, rfl⟩, _, _, ⟨rfl, rfl⟩, _,
    opened, entered, _, _, rfl, condition, tested, testRun, _, chosen, chose, _, _, rfl,
    _, first, bodyRun, _, last, joined, _, _, rfl, -, rfl⟩ := run
  obtain ⟨label, standing, rfl, rfl⟩ := currentFunction_ok current
  have reached := passes_oneArm flowsTest flowsBody (.inl rfl) sound none standing entered
    testRun chose bodyRun joined
  exact reached

private theorem flows_visitReturn {result : Visit PyVal} (flows : Flows true result) :
    Flows false (visitReturn (some result)) :=
  flows.bind fun _ => (flows_terminate rfl rfl Instr.noConfusion).bind fun _ => flows_pure _

private theorem flows_returnNone : Flows false (visitReturn none) := by
  have ends : Flows false retVoid := flows_terminate rfl rfl Instr.noConfusion
  exact ends.bind fun _ => flows_pure _

private theorem flows_visitAnnAssign {initial : Visit PyVal} (target annotation : Node)
    (flows : Flows true initial) :
    Flows true (visitAnnAssign target annotation (some initial)) := by
  refine (flows_targetName _).andThen fun varName => ?_
  refine (flows_getType _).andThen fun varType => (flows_alloca _).andThen fun alloc => ?_
  refine (flows_setLocal _ _).andThen fun _ => ?_
  dsimp only
  split
  · exact flows_fail _
  · exact flows.andThen fun _ => (flows_store _ _).andThen fun _ => flows_pure _

private theorem flows_declaration (target annotation : Node) :
    Flows true (visitAnnAssign target annotation none) := by
  refine (flows_targetName _).andThen fun varName => ?_
  refine (flows_getType _).andThen fun varType => (flows_alloca _).andThen fun alloc => ?_
  exact (flows_setLocal _ _).andThen fun _ => flows_pure _

private theorem flows_assignSubscript {object slice assigned : Visit PyVal}
    (flowsObject : Flows true object) (flowsSlice : Flows true slice)
    (flows : Flows true assigned) : Flows true (assignSubscript object slice assigned) :=
  (flows_subscriptPtr flowsObject flowsSlice).andThen fun _ =>
    flows.andThen fun _ => (flows_store _ _).andThen fun _ => flows_pure _

private theorem flows_assignName {assigned : Visit PyVal} (varName : String)
    (flows : Flows true assigned) : Flows true (assignName varName assigned) := by
  refine (flows_reads _).andThen fun alloc => ?_
  cases alloc with
  | none => exact flows_fail _
  | some alloc =>
      exact flows.andThen fun _ => (flows_store _ _).andThen fun _ => flows_pure _

private theorem flows_visitNone {children : Visit Unit} {falls : Bool}
    (flows : Flows falls children) : Flows falls (visitNone children) := by
  have both := flows.bind fun _ => flows_pure PyVal.none
  rwa [Bool.and_true] at both

/-- What the end of a body does to the graph: nothing if its block has its
terminator, and else it writes one, an `unreachable` only after a body that
control does not pass through. -/
def Closes (falls : Bool) (before after : Graph) : Prop :=
  (∃ label, before.builder = some label ∧ before.Terminated label ∧ after = before) ∨
    ∃ instr, Graph.Leaves instr before after ∧ instr.isTerminator = true ∧
      instr.targets = [] ∧ (instr = .unreachable → falls = false)

theorem Graph.Adds.thenPasses {base middle graph : Graph} (head : Graph.Adds base middle)
    (tail : Graph.Passes false middle graph) : Graph.Passes false base graph where
  toAdds := head.trans tail.toAdds
  done walks grounded bound _ :=
    tail.done walks (grounded.back head.grows.blocks) bound (.inl rfl)

theorem passes_closed {falls : Bool} {base opened finished closed : Graph}
    (opens : Graph.Adds base opened) (body : Graph.Passes falls opened finished)
    (closes : Closes falls finished closed) : Graph.Passes false base closed := by
  have added := opens.trans body.toAdds
  rcases closes with ⟨label, standing, ends, rfl⟩ | ⟨instr, leaves, ends, leads, plain⟩
  · refine { toAdds := added, done := ?_ }
    intro walks _ bound _ other stands
    rw [standing] at stands
    cases stands
    exact .inl ends
  · obtain ⟨label, isOpen, rfl⟩ := leaves
    have grows : Graph.Grows finished (finished.write { block := label, instr }) := by
      refine { toExtends := Graph.extends_write _ _, edges := ?_ }
      intro block target edge
      rcases edge.write with earlier | ⟨-, leadsTo⟩
      · exact .inl earlier
      · rw [leads] at leadsTo
        cases leadsTo
    refine { sound := ?_, grows := added.grows.trans grows, unreachable := ?_, done := ?_ }
    · apply body.sound.write
      rw [leads]
      intro target member
      cases member
    · intro walks grounded entry member isUnreachable
      have front := grounded.front grows
      rcases Graph.mem_write.mp member with earlier | rfl
      · exact added.unreachable walks front entry earlier isUnreachable
      · have neither := plain isUnreachable
        refine .inr fun count walk => ?_
        have done := body.done walks (front.back opens.grows.blocks) count (.inl neither)
        exact done.dead isOpen count (Nat.le_refl _) walk
    · intro walks _ bound _ other stands
      have same : label = other := Option.some.inj (isOpen.1.symm.trans stands)
      subst same
      exact .inl ⟨_, Graph.mem_write.mpr (.inr rfl), rfl, ends⟩

def AddedTo (program : Program) (base : Graph) (state : CompilerState) : Prop :=
  Graph.Adds base state.graph ∧ Knows program state

private theorem emits_addedTo (program : Program) (base : Graph) :
    EmitsPlain (AddedTo program base) := by
  intro state block instr _ inBlock added _
  refine ⟨?_, added.2⟩
  rw [state.graph_append]
  exact added.1.trans (Graph.adds_write added.1.sound (targets_of_inBlock inBlock)
    (Graph.ne_unreachable inBlock))

theorem AddedTo.define {program : Program} {base : Graph} {state : CompilerState}
    (added : AddedTo program base state) (name : String) (ret : LType) (params : List LType) :
    AddedTo program base (state.define name ret params) := by
  have graph : (state.define name ret params).graph = state.graph.begin :=
    state.graph_begin { name, ret, params, varArg := false, entry := none } rfl
  refine ⟨?_, added.2⟩
  rw [graph]
  exact added.1.trans (Graph.adds_begin added.1.sound)

private theorem opens_addedTo (program : Program) (base : Graph) (className : Option String)
    (name : String)
    (args : List (String × Option Node)) (returns : Option Node) :
    Ensures (Reached program base) (openFunction className name args returns)
      (fun _ => AddedTo program base) := by
  apply ensures_openFunction ?_ (keepsType_reached program base) ?_
    (emits_addedTo program base) ?_ args returns
  · intro state reached
    split
    · exact reached
    · exact reached
  · intro state ret params reached _
    exact AddedTo.define ⟨reached.1.toAdds, reached.2⟩ _ ret params
  · intro state name alloc _ added
    exact added

private theorem openFunction_void {program : Program} {className : Option String} {name : String}
    {args : List (String × Option Node)} {returns : Option Node}
    (none : declaresNone returns = true) :
    Ensures (Knows program) (openFunction className name args returns)
      fun returnType _ => returnType = .void := by
  have switched : Keeps (Knows program) (switchArena className name) := by
    refine .modify fun state known => ?_
    split
    · exact known
    · exact known
  refine switched.bind fun _ => ?_
  have read : Ensures (Knows program) (getType? returns) fun type _ => type = .void := by
    obtain _ | annotation := returns
    · cases none
    · unfold declaresNone at none
      split at none
      · rename_i same
        cases same
        have found : Ensures (Knows program) (lookup (·.types) "None")
            fun type state => state.types "None" = some type ∧ Knows program state :=
          keeps_lookup _ _
        refine found.weaken ?_
        rintro type state ⟨found, known⟩
        exact Option.some.inj (found.symm.trans known.1)
      · cases none
  refine read.bind fun type state result state' isVoid run => ?_
  subst isVoid
  have last : Ensures (fun _ => True)
      (do
        let self ← selfParam className
        let argTypes ← paramTypes args
        let params := self ++ (paramNames args).zip argTypes
        let func ← beginFunction (functionName className name) LType.void
          (params.map Prod.snd)
        setGlobal (functionName className name) (.value func)
        clearLocals
        storeParams 0 params
        pure LType.void : Visit LType)
      fun returnType _ => returnType = .void := by
    refine Ensures.any.bind fun self => Ensures.any.bind fun argTypes => ?_
    refine Ensures.any.bind fun func => Ensures.any.bind fun _ => ?_
    exact Ensures.any.bind fun _ => Ensures.any.bind fun _ => .pure fun _ _ => rfl
  exact last state result state' trivial run

theorem closes_of_run {program : Program} {falls : Bool} {returnType : LType} {state state' : CompilerState}
    (ends : returnType = .void ∨ falls = false)
    (run : closeFunction returnType state = .ok ((), state')) :
    Closes falls state.graph state'.graph ∧ (Knows program state → Knows program state') := by
  obtain ⟨terminated, middle, read, run⟩ := bind_ok_iff.mp run
  obtain ⟨label, standing, rfl, isTerminated⟩ := isTerminated_ok read
  cases terminated with
  | true =>
      obtain ⟨-, rfl⟩ := pure_ok_iff.mp run
      exact ⟨.inl ⟨label, standing, isTerminated.mp rfl, rfl⟩, fun none => none⟩
  | false =>
      rw [if_neg Bool.false_ne_true] at run
      split at run
      · rename_i different
        obtain ⟨leaves, none⟩ := leaves_of_terminate run
        exact ⟨.inr ⟨_, leaves, rfl, rfl, fun _ => ends.resolve_left different⟩, none⟩
      · obtain ⟨leaves, none⟩ := leaves_of_terminate run
        exact ⟨.inr ⟨_, leaves, rfl, rfl, fun same => nomatch same⟩, none⟩

theorem flows_visitFunctionDef {className : Option String} {name : String}
    {args : List (String × Option Node)} {returns : Option Node} {body : Visit Unit}
    {falls : Bool} (does : Flows falls body)
    (returned : (declaresNone returns || !falls) = true) :
    Flows false (visitFunctionDef className name args returns body) := by
  intro program state value state' sound none run
  simp only [visitFunctionDef, bind_ok_iff, reads_ok_iff, modify_ok_iff,
    pure_ok_iff] at run
  obtain ⟨_, _, ⟨rfl, rfl⟩, returnType, opened, openRun, _, finished, bodyRun, _, closed,
    closeRun, _, _, rfl, -, rfl⟩ := run
  obtain ⟨opens, openNone⟩ := opens_addedTo program state.graph className name args returns state
    returnType opened ⟨.refl sound, none⟩ openRun
  obtain ⟨passes, bodyNone⟩ := does program _ _ _ opens.sound openNone bodyRun
  have ends : returnType = .void ∨ falls = false := by
    rcases Bool.or_eq_true_iff.mp returned with isNone | returns
    · exact .inl (openFunction_void isNone state returnType opened none openRun)
    · exact .inr (Bool.not_eq_true' _ |>.mp returns)
  obtain ⟨closes, closedNone⟩ := closes_of_run ends closeRun
  exact ⟨passes_closed opens passes closes, closedNone bodyNone⟩

/-! ### Classes and imports -/

private theorem Graph.Adds.restore {base graph : Graph} (adds : Graph.Adds base graph)
    (sound : base.Sound) :
    Graph.Passes true base { graph with builder := base.builder } := by
  have restored : Graph.Adds base { graph with builder := base.builder } :=
    { sound :=
        { targets := adds.sound.targets
          entries := adds.sound.entries
          builder := fun label standing => by
            obtain ⟨entry, has⟩ := sound.builder label standing
            exact ⟨entry, adds.grows.entries _ _ has⟩ }
      grows :=
        { code := adds.grows.code
          blocks := adds.grows.blocks
          entries := adds.grows.entries
          fresh := adds.grows.fresh
          edges := adds.grows.edges }
      unreachable := adds.unreachable }
  exact restored.passes rfl

private theorem flows_generateAutoInit (className : String) (layout : Layout) :
    Flows true (generateAutoInit className layout) := by
  intro program state value state' sound none run
  have ensured : Ensures (· = state) (generateAutoInit className layout)
      fun _ after => Graph.Passes true state.graph after.graph ∧ Knows program after := by
    apply ensures_generateAutoInit
      (fun saved inner => saved = state.builder ∧ AddedTo program state.graph inner)
      (fun saved inner => saved = state.builder ∧ AddedTo program state.graph inner)
    · rintro inner rfl _
      exact ⟨rfl, AddedTo.define ⟨.refl sound, none⟩ _ _ _⟩
    · intro saved inner block instr noCall inBlock inside standing
      exact ⟨inside.1, emits_addedTo program state.graph inner block instr noCall inBlock
        inside.2 standing⟩
    · intro saved inner _ after inside ends
      obtain ⟨label, -, rfl⟩ := terminate_ok ends
      refine ⟨inside.1, ?_, inside.2.2⟩
      exact inside.2.1.trans (Graph.adds_write inside.2.1.sound rfl Instr.noConfusion)
    · rintro saved inner ⟨rfl, adds, known⟩
      exact ⟨adds.restore sound, known⟩
  exact ensured state value state' rfl run

private theorem flows_declareClass {className : String} (named : className ≠ "None")
    (body : List Node) : Flows true (declareClass className body) := by
  apply flows_of_keepsOnly
  intro program base
  have ensured : Ensures (Reached program base) (declareClass className body)
      fun _ state => _ ∧
        if hasInit body then Reached program base state
        else Reached program base state := ensures_declareClass
    (keepsType_reached program base) (fun _ _ reached => reached)
    (fun state layout reached => ⟨reached.1, by
      have other : "None" ≠ className := named.symm
      exact ⟨(Scope.set_of_ne _ _ other).trans reached.2.1, reached.2.2⟩⟩)
    fun layout => keeps_of_flows (flows_generateAutoInit className layout) program base
  refine ensured.weaken fun _ state after => ?_
  have kept := after.2
  split at kept
  · exact kept
  · exact kept

private theorem flows_visitImportFrom (module : Option String)
    (names : List (String × Option String)) : Flows true (visitImportFrom module names) := by
  apply flows_of_keeps
  intro program base
  apply keeps_importFrom
  intro state func reached _ declared
  refine ⟨?_, reached.2⟩
  have graph := state.graph_addFunction func declared
  exact reached.1.trans (graph ▸ (Graph.adds_declare reached.1.sound).passes rfl)

mutual

theorem flows_visit (node : Node) (returns : alwaysReturns node = true) :
    Flows (fallsThrough node) (visit node) := by
  match node, returns with
  | .name id, _ => exact flows_visitName id
  | .constant literal, _ => exact flows_visitConstant literal
  | .binOp left op right, returns =>
      exact flows_visitBinOp op (flows_visit left (and_left returns)).weaken
        (flows_visit right (and_right returns)).weaken
  | .unaryOp op operand, returns =>
      exact flows_visitUnaryOp op (flows_visit operand returns).weaken
  | .compare left [(op, comparator)], returns =>
      exact flows_visitCompare op (flows_visit left (and_left returns)).weaken
        (flows_visit comparator (and_right returns)).weaken
  | .compare left [], returns => exact flows_visitChain (flows_visit left returns).weaken
  | .compare left (_ :: _ :: _), returns =>
      exact flows_visitChain (flows_visit left returns).weaken
  | .call callee args dropped, returns =>
      exact flows_visitCall (flows_visit callee (and_left returns)).weaken
        (flows_visitArgs args (and_right returns))
  | .attribute object attr, returns =>
      exact flows_visitAttribute attr (flows_visit object returns).weaken
  | .subscript object slice, returns =>
      exact flows_visitSubscript (flows_visit object (and_left returns)).weaken
        (flows_visit slice (and_right returns)).weaken
  | .sliced object bounds, returns =>
      exact flows_visitSubscript (flows_visit object (and_left returns)).weaken
        (flows_visitNone (flows_visitBody bounds (and_right returns))).weaken
  | .return_ (some result), returns =>
      exact flows_visitReturn (flows_visit result returns).weaken
  | .return_ none, _ => exact flows_returnNone
  | .assign target moreTargets assigned, returns =>
      cases target with
      | subscript object slice =>
          exact flows_assignSubscript
            (flows_visit object (and_left (and_left returns))).weaken
            (flows_visit slice (and_right (and_left returns))).weaken
            (flows_visit assigned (and_right returns)).weaken
      | sliced object bounds =>
          exact flows_assignSubscript
            (flows_visit object (and_left (and_left returns))).weaken
            (flows_visitNone (flows_visitBody bounds (and_right (and_left returns)))).weaken
            (flows_visit assigned (and_right returns)).weaken
      | name id => exact flows_assignName id (flows_visit assigned returns).weaken
      | _ => exact flows_fail _
  | .annAssign target annotation (some initial), returns =>
      exact flows_visitAnnAssign target annotation (flows_visit initial returns).weaken
  | .annAssign target annotation none, _ => exact flows_declaration target annotation
  | .ifStmt test body [], returns =>
      have flows := flows_visitIf (flows_visit test (and_left (and_left returns))).weaken
        (flows_visitBody body (and_right (and_left returns)))
      rwa [fallsThrough, fallsThroughAll, Bool.or_true]
  | .ifStmt test body (stmt :: orelse), returns =>
      exact flows_visitIfElse (flows_visit test (and_left (and_left returns))).weaken
        (flows_visitBody body (and_right (and_left returns)))
        (flows_visitBody (stmt :: orelse) (and_right returns))
  | .whileStmt test body orelse, returns =>
      exact flows_visitWhile (flows_visit test (and_left returns)).weaken
        (flows_visitBody body (and_right returns))
  | .expr inner, returns =>
      exact (flows_visit inner returns).weaken.andThen fun _ => flows_pure _
  | .pass, _ => exact flows_pure _
  | .functionDef name args declared body dropped, returns =>
      exact flows_visitFunctionDef (flows_visitBody body (and_right returns))
        (and_left returns)
  | .classDef className body dropped, returns =>
      have named : className ≠ "None" := of_decide_eq_true (and_left returns)
      have flows := (flows_declareClass named body).bind fun _ =>
        (flows_visitMethods className body (and_right returns)).bind fun _ =>
          flows_pure PyVal.none
      rwa [Bool.true_and, Bool.and_true] at flows
  | .importFrom module names _, _ => exact flows_visitImportFrom module names
  | .other kind children, returns =>
      exact flows_visitNone (flows_visitBody children returns)

theorem flows_visitBody (body : List Node) (returns : allAlwaysReturn body = true) :
    Flows (fallsThroughAll body) (visitBody body) := by
  match body, returns with
  | [], _ => exact flows_pure _
  | stmt :: rest, returns =>
      exact (flows_visit stmt (and_left returns)).bind fun _ =>
        flows_visitBody rest (and_right returns)

private theorem flows_visitArgs (args : List Node) (returns : allAlwaysReturn args = true) :
    Flows true (visitArgs args) := by
  match args, returns with
  | [], _ => exact flows_pure _
  | arg :: rest, returns =>
      exact (flows_visit arg (and_left returns)).weaken.andThen fun _ =>
        (flows_visitArgs rest (and_right returns)).andThen fun _ => flows_pure _

private theorem flows_visitMethods (className : String) (body : List Node)
    (returns : methodsAlwaysReturn body = true) :
    Flows (body.all fun stmt => (isMethod stmt).isNone) (visitMethods className body) := by
  match body, returns with
  | [], _ => exact flows_pure _
  | stmt :: rest, returns =>
      cases stmt with
      | functionDef name args declared methodBody dropped =>
          have method : Flows false (visitFunctionDef (some className) name args declared
              (visitBody methodBody)) := flows_visitFunctionDef
            (flows_visitBody methodBody (and_right (and_left returns)))
            (and_left (and_left returns))
          exact method.bind fun _ => flows_visitMethods className rest (and_right returns)
      | _ => exact flows_visitMethods className rest returns

end

end Lambpie.Compiler

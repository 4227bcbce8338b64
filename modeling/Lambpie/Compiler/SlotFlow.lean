/-
The slots of a declaration and the ways through the source.

Judging each test as able to go either way, the source shows which declarations
lie on a way through the body of a loop.  The blocks of just those slots are on
a cycle of the branches.
-/
import Lambpie.Compiler.SlotBranches

namespace Lambpie.Compiler

open Foundations
open Foundations.Comp
open CompilerState

mutual

/-- The slots that visiting the node allocates, and the ways through the node.
A function defined inside a body takes the builder with it; the `__init__` of a
class gives it back. -/
def slotFlow : Node → Flow
  | .return_ _ => .halt
  | .annAssign .. => .straight 1
  | .ifStmt _ body orelse => (slotFlowAll body).either (slotFlowAll orelse)
  | .whileStmt _ body _ => (slotFlowAll body).loop
  | .functionDef _ args _ body _ =>
      ((Flow.straight (paramCount none args)).seq (slotFlowAll body)).apart
  | .classDef name body _ =>
      (if hasInit body then .straight 0 else (Flow.straight 1).aside).seq
        (slotFlowMethods name body)
  | .other _ children => slotFlowAll children
  | _ => .straight 0

def slotFlowAll : List Node → Flow
  | [] => .straight 0
  | stmt :: rest => (slotFlow stmt).seq (slotFlowAll rest)

def slotFlowMethods (className : String) : List Node → Flow
  | [] => .straight 0
  | .functionDef _ args _ body _ :: rest =>
      ((Flow.straight (paramCount (some className) args)).seq (slotFlowAll body)).apart.seq
        (slotFlowMethods className rest)
  | _ :: rest => slotFlowMethods className rest

end

mutual

/-- Expressions stand where Python's grammar asks for them. -/
def isWellFormed : Node → Bool
  | .return_ (some value) => isExpression value
  | .return_ none => true
  | .assign (.subscript target slice) _ value =>
      isExpression target && isExpression slice && isExpression value
  | .assign (.sliced target bounds) _ value =>
      isExpression target && areExpressions bounds && isExpression value
  | .assign _ _ value => isExpression value
  | .annAssign _ _ (some value) => isExpression value
  | .annAssign _ _ none => true
  | .ifStmt test body orelse =>
      isExpression test && areWellFormed body && areWellFormed orelse
  | .whileStmt test body _ => isExpression test && areWellFormed body
  | .expr value => isExpression value
  | .pass => true
  | .functionDef _ _ _ body _ => areWellFormed body
  | .classDef _ body _ => areMethodsWellFormed body
  | .importFrom _ _ _ => true
  | .other _ children => areWellFormed children
  | node => isExpression node

def areWellFormed : List Node → Bool
  | [] => true
  | node :: rest => isWellFormed node && areWellFormed rest

def areMethodsWellFormed : List Node → Bool
  | [] => true
  | .functionDef _ _ _ body _ :: rest => areWellFormed body && areMethodsWellFormed rest
  | _ :: rest => areMethodsWellFormed rest

end

private theorem lays_of_quiet {α : Type} {visit : Visit α}
    (keeps : ∀ {holds : CompilerState → Prop}, Quiet holds → Keeps holds visit) :
    Lays (.straight 0) visit :=
  lays_of_keeps fun count base => keeps (quiet_straight count base)

theorem lays_expression {node : Node} (expression : isExpression node = true) :
    Lays (.straight 0) (visit node) :=
  lays_of_quiet fun quiet => keeps_expression quiet node expression

theorem silent_expression {node : Node} (expression : isExpression node = true)
    (base : CompilerState) : Keeps (Straight 0 base) (visit node) :=
  keeps_expression (quiet_straight 0 base) node expression

private theorem lays_visitReturn {node : Node} (expression : isExpression node = true) :
    Lays .halt (visitReturn (some (visit node))) :=
  (lays_expression expression).before fun _ => (lays_terminate rfl rfl).after fun _ =>
    lays_pure _

private theorem lays_returnNone : Lays .halt (visitReturn none) := by
  have ends : Lays .halt retVoid := lays_terminate rfl rfl
  exact ends.after fun _ => lays_pure _

private theorem ensures_declare {α : Type} (base : CompilerState) (target annotation : Node)
    {next : String → LType → Value → Visit α}
    (rest : ∀ name type alloc, Keeps (Straight 1 base) (next name type alloc)) :
    Ensures (Straight 0 base)
      (do
        let varName ← targetName target
        let varType ← getType annotation
        let varAlloc ← alloca varType
        setLocal varName varAlloc
        next varName varType varAlloc : Visit α)
      fun _ => Straight 1 base := by
  refine (keeps_value (keeps_targetName target)).bind fun varName => ?_
  refine (keepsType_straight 0 base annotation).bind fun varType => ?_
  refine (ensures_alloca varType).bind fun varAlloc => ?_
  have added : Keeps (Straight 1 base) (setLocal varName varAlloc) :=
    .modify fun state straight => straight.update _ rfl rfl rfl rfl
  exact added.bind fun _ => rest varName varType varAlloc

private theorem lays_declaration (target annotation : Node) :
    Lays (.straight 1) (visitAnnAssign target annotation none) :=
  lays_of_straight fun base => ensures_declare base target annotation fun _ _ _ => keeps_pure _

theorem lays_visitAnnAssign {node : Node} (target annotation : Node)
    (expression : isExpression node = true) :
    Lays (.straight 1) (visitAnnAssign target annotation (some (visit node))) := by
  apply lays_of_straight
  intro base
  have quiet := quiet_straight 1 base
  refine ensures_declare base target annotation fun name type alloc => ?_
  dsimp only
  split
  · exact .fail _
  · exact (keeps_expression quiet node expression).bind fun _ =>
      (keeps_store quiet.emits.operand _ _).bind fun _ => keeps_pure _

theorem lays_assignSubscript {object slice assigned : Visit PyVal}
    (keepsObject : ∀ {holds : CompilerState → Prop}, Quiet holds → Keeps holds object)
    (keepsSlice : ∀ {holds : CompilerState → Prop}, Quiet holds → Keeps holds slice)
    (keeps : ∀ {holds : CompilerState → Prop}, Quiet holds → Keeps holds assigned) :
    Lays (.straight 0) (assignSubscript object slice assigned) := by
  apply lays_of_quiet
  intro holds quiet
  exact (keeps_subscriptPtr quiet (keepsObject quiet) (keepsSlice quiet)).bind fun _ =>
    (keeps quiet).bind fun _ => (keeps_store quiet.emits.operand _ _).bind fun _ => keeps_pure _

theorem lays_assignName {node : Node} (varName : String)
    (expression : isExpression node = true) :
    Lays (.straight 0) (assignName varName (visit node)) := by
  apply lays_of_quiet
  intro holds quiet
  refine (keeps_reads _).bind fun alloc => ?_
  cases alloc with
  | none => exact .fail _
  | some alloc =>
      exact (keeps_expression quiet node expression).bind fun _ =>
        (keeps_store quiet.emits.operand _ _).bind fun _ => keeps_pure _

structure Begun (base entered : CompilerState) : Prop where
  code : entered.module.code = base.module.code
  blocks : entered.module.blockCount = base.module.blockCount + 1
  builder : ∃ label, entered.builder = some label ∧ label.index = base.module.blockCount
  kept : entered.kept = base.kept

theorem begun_begin (state : CompilerState) (func : Function) : Begun state (state.begin func) where
  code := rfl
  blocks := rfl
  builder := ⟨_, rfl, rfl⟩
  kept := rfl

theorem Begun.update {base entered : CompilerState} (begun : Begun base entered)
    (next : CompilerState) (code : next.module.code = entered.module.code)
    (blocks : next.module.blockCount = entered.module.blockCount)
    (builder : next.builder = entered.builder) (kept : next.kept = entered.kept) :
    Begun base next where
  code := code.trans begun.code
  blocks := blocks.trans begun.blocks
  builder := by
    rw [builder]
    exact begun.builder
  kept := kept.trans begun.kept

theorem Begun.tidy {base entered : CompilerState} (begun : Begun base entered)
    (tidy : base.Tidy) : entered.Tidy where
  code := by
    intro entry member
    rw [begun.code] at member
    have below := tidy.code entry member
    have blocks := begun.blocks
    omega
  builder := by
    intro label standing
    obtain ⟨other, same, index⟩ := begun.builder
    cases standing.symm.trans same
    have blocks := begun.blocks
    omega

theorem Begun.made {flow : Flow} {base entered state : CompilerState} {added : List Emitted}
    (begun : Begun base entered) (segment : Segment flow entered state added)
    (node : Option Label) (inside : node = entered.builder ∨ Made entered state node) :
    Made base state node := by
  have blocks := begun.blocks
  have more := segment.blocks
  rcases inside with rfl | made
  · obtain ⟨label, same, index⟩ := begun.builder
    exact ⟨label, same, by omega, by omega⟩
  · exact made.mono (by omega) (Nat.le_refl _)

theorem ensures_storeParams (base : CompilerState) (params : List (String × LType))
    (count index : Nat) :
    Ensures (Straight count base) (storeParams index params)
      fun _ => Straight (count + params.length) base := by
  induction params generalizing count index with
  | nil => exact keeps_pure _
  | cons param rest ih =>
      obtain ⟨name, type⟩ := param
      have quiet := quiet_straight (count + 1) base
      have added (alloc : Value) : Keeps (Straight (count + 1) base) (setLocal name alloc) :=
        .modify fun state straight => straight.update _ rfl rfl rfl rfl
      have later := ih (count + 1) (index + 1)
      rw [Nat.add_assoc, Nat.add_comm 1] at later
      exact (ensures_alloca type).bind fun alloc =>
        (keeps_store quiet.emits.operand _ _).bind fun _ => (added alloc).bind fun _ => later

private theorem ensures_begins (base : CompilerState) (className : Option String) (name : String)
    (args : List (String × Option Node)) (returns : Option Node) :
    Ensures (Straight 0 base) (openFunction className name args returns) fun _ state =>
      ∃ entered, (∃ before, Straight 0 base before ∧ Begun before entered) ∧
        Straight (paramCount className args) entered state := by
  let entered (state : CompilerState) : Prop :=
    ∃ before, Straight 0 base before ∧ Begun before state
  apply @ensures_openFunctionOf _ _ _ entered
  · intro state straight
    split
    · exact straight.update _ rfl rfl rfl rfl
    · exact straight
  · exact keepsType_straight 0 base
  · intro state ret params straight _
    exact ⟨state, straight, (begun_begin state _).update _ rfl rfl rfl rfl⟩
  · intro params length
    apply Ensures.each
    intro state before
    have stored := ensures_storeParams state params 0 0
    rw [length, Nat.zero_add] at stored
    refine (stored.strengthen fun other same => ?_).weaken fun _ after straight =>
      ⟨state, before, straight⟩
    rw [same]
    exact .refl state

theorem Begun.apart {flow : Flow} {base entered state : CompilerState} {added : List Emitted}
    (begun : Begun base entered) (tidy : base.Tidy)
    (segment : Segment flow entered state added) (closed : ¬state.IsOpen) :
    Segment flow.apart base state added where
  code := by rw [segment.code, begun.code]
  blocks := by
    have blocks := begun.blocks
    have more := segment.blocks
    omega
  placed entry member := .inr (begun.made segment _ (segment.placed entry member))
  kept := segment.kept.trans begun.kept
  region := by
    rw [eq_false closed]
    exact segment.region.apart (begun.made segment) (not_made_builder tidy (Nat.le_refl _))

theorem Begun.aside {flow : Flow} {base entered state : CompilerState} {added : List Emitted}
    (begun : Begun base entered) (tidy : base.Tidy)
    (segment : Segment flow entered state added) :
    Segment flow.aside base { state with builder := base.builder } added where
  code := by
    change state.module.code = _
    rw [segment.code, begun.code]
  blocks := by
    have blocks := begun.blocks
    have more := segment.blocks
    change base.module.blockCount ≤ state.module.blockCount
    omega
  placed entry member := .inr (begun.made segment _ (segment.placed entry member))
  kept := segment.kept.trans begun.kept
  region := by
    have apart : ∀ entry ∈ added, ∀ label, base.builder = some label → entry.block ≠ label := by
      intro entry member label standing same
      obtain ⟨other, isBlock, above, -⟩ := begun.made segment _ (segment.placed entry member)
      have below := tidy.builder label standing
      cases isBlock
      rw [same] at above
      omega
    have open_ : CompilerState.IsOpen { state with builder := base.builder } ↔ base.IsOpen := by
      constructor
      · rintro ⟨label, standing, isOpen⟩
        refine ⟨label, standing, ?_⟩
        rintro ⟨entry, member, ends⟩
        refine isOpen ⟨entry, ?_, ends⟩
        change entry ∈ state.module.code
        rw [segment.code, begun.code]
        exact List.mem_append_left _ member
      · rintro ⟨label, standing, isOpen⟩
        refine ⟨label, standing, ?_⟩
        rintro ⟨entry, member, same, ends⟩
        change entry ∈ state.module.code at member
        rw [segment.code, begun.code] at member
        rcases List.mem_append.mp member with earlier | new
        · exact isOpen ⟨entry, earlier, same, ends⟩
        · exact apart entry new label standing same
    rw [propext open_]
    exact segment.region.aside (begun.made segment) (not_made_builder tidy (Nat.le_refl _))

theorem halts_of_close {returnType : LType} {state state' : CompilerState} (tidy : state.Tidy)
    (run : closeFunction returnType state = .ok ((), state')) : Halts state state' := by
  obtain ⟨terminated, middle, read, run⟩ := bind_ok_iff.mp run
  obtain ⟨label, standing, rfl, isTerminated⟩ := isTerminated_ok read
  cases terminated with
  | true =>
      obtain ⟨-, rfl⟩ := pure_ok_iff.mp run
      apply halts_of_closed tidy
      rintro ⟨other, stands, isOpen⟩
      cases standing.symm.trans stands
      exact isOpen (isTerminated.mp rfl)
  | false =>
      rw [if_neg Bool.false_ne_true] at run
      split at run
      · exact halts_of_terminate tidy rfl rfl run
      · exact halts_of_terminate tidy rfl rfl run

theorem Begun.function {flow : Flow} {count : Nat}
    {base entered opened finished closed : CompilerState} {added : List Emitted}
    (begun : Begun base entered) (tidy : base.Tidy) (slots : Straight count entered opened)
    (body : Segment flow opened finished added) (ends : Halts finished closed) :
    ∃ added, Segment ((Flow.straight count).seq flow).apart base closed added := by
  have tidyEntered := begun.tidy tidy
  obtain ⟨front, params⟩ := slots.segment tidyEntered
  obtain ⟨⟨back, close⟩, isClosed⟩ := ends
  have inner := (params.trans tidyEntered body).trans tidyEntered close
  have whole := begun.apart tidy inner isClosed
  rw [Flow.apart_seq_halt] at whole
  exact ⟨_, whole⟩

theorem lays_visitFunctionDef {flow : Flow} {className : Option String} {name : String}
    {args : List (String × Option Node)} {returns : Option Node} {body : Visit Unit}
    (lays : Lays flow body) :
    Lays ((Flow.straight (paramCount className args)).seq flow).apart
      (visitFunctionDef className name args returns body) := by
  intro state value state' tidy run
  simp only [visitFunctionDef, bind_ok_iff, reads_ok_iff, modify_ok_iff, pure_ok_iff] at run
  obtain ⟨_, _, ⟨rfl, rfl⟩, returnType, opened, openRun, _, finished, bodyRun, _, closed,
    closeRun, _, _, rfl, -, rfl⟩ := run
  obtain ⟨entered, ⟨before, straight, begun⟩, stored⟩ :=
    ensures_begins state className name args returns state returnType opened (.refl state) openRun
  obtain ⟨header, front⟩ := straight.segment tidy
  have tidyBefore := front.tidy tidy
  obtain ⟨slots, params⟩ := stored.segment (begun.tidy tidyBefore)
  have tidyOpened := params.tidy (begun.tidy tidyBefore)
  obtain ⟨added, segment⟩ := lays _ _ _ tidyOpened bodyRun
  have ends := halts_of_close (segment.tidy tidyOpened) closeRun
  obtain ⟨code, function⟩ := begun.function tidyBefore stored segment ends
  have whole := front.trans tidy function
  rw [Flow.straight_seq] at whole
  exact ⟨header ++ code, whole.code, whole.blocks, whole.placed, whole.kept, whole.region⟩

private theorem lays_generateAutoInit (className : String) (layout : Layout) :
    Lays (Flow.straight 1).aside (generateAutoInit className layout) := by
  intro state value state' tidy run
  let entered (saved : Option Label) (inner : CompilerState) : Prop :=
    saved = state.builder ∧ Begun state inner
  let inside (saved : Option Label) (inner : CompilerState) : Prop :=
    saved = state.builder ∧ ∃ begun, Begun state begun ∧ Straight 1 begun inner
  let closed (saved : Option Label) (inner : CompilerState) : Prop :=
    saved = state.builder ∧ ∃ begun middle, Begun state begun ∧ Straight 1 begun middle ∧
      Halts middle inner
  have ensured : Ensures (· = state) (generateAutoInit className layout) fun _ after =>
      ∃ added, Segment (Flow.straight 1).aside state after added := by
    apply ensures_generateAutoInitOf entered inside closed
    · rintro inner rfl _
      exact ⟨rfl, (begun_begin inner _).update _ rfl rfl rfl rfl⟩
    · intro saved inner result after before run
      exact ⟨before.1, inner, before.2, ensures_alloca _ inner _ _ (.refl inner) run⟩
    · rintro saved inner block instr _ inBlock noSlot ⟨isSaved, begun, isBegun, straight⟩ standing
      exact ⟨isSaved, begun, isBegun,
        (quiet_straight 1 begun).emits inner block instr inBlock noSlot straight standing⟩
    · rintro saved inner _ after ⟨isSaved, begun, isBegun, straight⟩ run
      obtain ⟨added, segment⟩ := straight.segment (isBegun.tidy tidy)
      have tidyInner := segment.tidy (isBegun.tidy tidy)
      exact ⟨isSaved, begun, inner, isBegun, straight, halts_of_terminate tidyInner rfl rfl run⟩
    · rintro saved inner ⟨rfl, begun, middle, isBegun, straight, ⟨back, close⟩, -⟩
      obtain ⟨added, segment⟩ := straight.segment (isBegun.tidy tidy)
      have whole := isBegun.aside tidy (segment.trans (isBegun.tidy tidy) close)
      rw [Flow.aside_seq_halt] at whole
      exact ⟨_, whole⟩
  exact ensured state value state' rfl run

private theorem lays_declareClass (className : String) (body : List Node) :
    Lays (if hasInit body then .straight 0 else (Flow.straight 1).aside)
      (declareClass className body) := by
  intro state value state' tidy run
  have ensured := @ensures_declareClass (Straight 0 state) (Straight 0 state)
    (fun after => ∃ added, Segment (Flow.straight 1).aside state after added) className body
    (keepsType_straight 0 state) (fun inner structs straight => straight.update _ rfl rfl rfl rfl)
    (fun inner layout straight => straight.update _ rfl rfl rfl rfl) <| by
      intro layout inner result after straight run
      obtain ⟨front, header⟩ := straight.segment tidy
      obtain ⟨back, init⟩ := lays_generateAutoInit className layout inner result after
        (header.tidy tidy) run
      have whole := header.trans tidy init
      rw [Flow.straight_seq] at whole
      exact ⟨front ++ back, whole⟩
  have after := (ensured state value state' (.refl state) run).2
  cases own : hasInit body with
  | true =>
      rw [own, if_pos rfl] at after
      exact after.segment tidy
  | false =>
      rw [own, if_neg Bool.false_ne_true] at after
      exact after

private theorem lays_visitImportFrom (module : Option String)
    (names : List (String × Option String)) :
    Lays (.straight 0) (visitImportFrom module names) := by
  apply lays_of_straight
  intro base
  have imported := @keeps_importFrom (Straight 0 base)
    (fun state func straight _ _ => straight.update _ rfl rfl rfl rfl) module names
  exact imported.weaken fun _ _ after => after.2

private theorem lays_visitNone {flow : Flow} {children : Visit Unit} (lays : Lays flow children) :
    Lays flow (visitNone children) :=
  lays.after fun _ => lays_pure _

mutual

theorem lays_visit (node : Node) (formed : isWellFormed node = true) :
    Lays (slotFlow node) (visit node) := by
  match node, formed with
  | .name id, _ => exact @lays_expression (.name id) rfl
  | .constant literal, _ => exact @lays_expression (.constant literal) rfl
  | .binOp left op right, formed => exact @lays_expression (.binOp left op right) formed
  | .unaryOp op operand, formed => exact @lays_expression (.unaryOp op operand) formed
  | .compare left comparisons, formed =>
      exact @lays_expression (.compare left comparisons) formed
  | .call callee args dropped, formed =>
      exact @lays_expression (.call callee args dropped) formed
  | .attribute object attr, formed => exact @lays_expression (.attribute object attr) formed
  | .subscript object slice, formed => exact @lays_expression (.subscript object slice) formed
  | .sliced object bounds, formed => exact @lays_expression (.sliced object bounds) formed
  | .return_ (some result), formed => exact lays_visitReturn formed
  | .return_ none, _ => exact lays_returnNone
  | .assign target moreTargets assigned, formed =>
      cases target with
      | subscript object slice =>
          have targets := and_left formed
          exact lays_assignSubscript
            (fun quiet => keeps_expression quiet object (and_left targets))
            (fun quiet => keeps_expression quiet slice (and_right targets))
            (fun quiet => keeps_expression quiet assigned (and_right formed))
      | sliced object bounds =>
          have targets := and_left formed
          exact lays_assignSubscript
            (fun quiet => keeps_expression quiet object (and_left targets))
            (fun quiet => (keeps_expressions quiet bounds (and_right targets)).bind fun _ =>
              keeps_pure _)
            (fun quiet => keeps_expression quiet assigned (and_right formed))
      | name id => exact lays_assignName id formed
      | _ => exact lays_fail _
  | .annAssign target annotation (some initial), formed =>
      exact lays_visitAnnAssign target annotation formed
  | .annAssign target annotation none, _ => exact lays_declaration target annotation
  | .ifStmt test body [], formed =>
      exact lays_visitIf (fun _ => silent_expression (and_left (and_left formed)) _)
        (lays_visitBody body (and_right (and_left formed)))
  | .ifStmt test body (stmt :: orelse), formed =>
      exact lays_visitIfElse (fun _ => silent_expression (and_left (and_left formed)) _)
        (lays_visitBody body (and_right (and_left formed)))
        (lays_visitBody (stmt :: orelse) (and_right formed))
  | .whileStmt test body orelse, formed =>
      exact lays_visitWhile (fun _ => silent_expression (and_left formed) _)
        (lays_visitBody body (and_right formed))
  | .expr inner, formed => exact (lays_expression formed).after fun _ => lays_pure _
  | .pass, _ => exact lays_pure _
  | .functionDef name args declared body dropped, formed =>
      exact lays_visitFunctionDef (lays_visitBody body formed)
  | .classDef className body dropped, formed =>
      exact (lays_declareClass className body).bind fun _ =>
        (lays_visitMethods className body formed).after fun _ => lays_pure _
  | .importFrom module names _, _ => exact lays_visitImportFrom module names
  | .other kind children, formed => exact lays_visitNone (lays_visitBody children formed)

theorem lays_visitBody (body : List Node) (formed : areWellFormed body = true) :
    Lays (slotFlowAll body) (visitBody body) := by
  match body, formed with
  | [], _ => exact lays_pure _
  | stmt :: rest, formed =>
      exact (lays_visit stmt (and_left formed)).bind fun _ =>
        lays_visitBody rest (and_right formed)

private theorem lays_visitMethods (className : String) (body : List Node)
    (formed : areMethodsWellFormed body = true) :
    Lays (slotFlowMethods className body) (visitMethods className body) := by
  match body, formed with
  | [], _ => exact lays_pure _
  | stmt :: rest, formed =>
      cases stmt with
      | functionDef name args declared methodBody dropped =>
          exact (lays_visitFunctionDef (lays_visitBody methodBody (and_left formed))).bind
            fun _ => lays_visitMethods className rest (and_right formed)
      | _ => exact lays_visitMethods className rest formed

end

end Lambpie.Compiler

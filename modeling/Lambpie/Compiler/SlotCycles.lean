/-
The slots of a whole module.

The segments of the statements of the module, of `handle` and of the two entry
functions follow each other, and together they are the code of the module.
-/
import Lambpie.Compiler.SlotFlow
import Lambpie.Compiler.NoUnreachable

namespace Lambpie.Compiler

open Foundations
open Foundations.Comp
open CompilerState
open Relation

def CompilerState.keeping (state : CompilerState) (program : Program) : CompilerState :=
  { state with handleNode := program.1, initStmts := program.2 }

theorem Segment.keeping {flow : Flow} {base state : CompilerState} {added : List Emitted}
    (segment : Segment flow base state added) (program : Program) :
    Segment flow (base.keeping program) (state.keeping program) added where
  code := segment.code
  blocks := segment.blocks
  placed := segment.placed
  kept := rfl
  region := segment.region

/-- A visit that adds a segment and changes what is kept of the program. -/
def LaysTo {α : Type} (flow : Flow) (change : Program → Program) (visit : Visit α) : Prop :=
  ∀ state value state', state.Tidy → visit state = .ok (value, state') →
    ∃ added, Segment flow (state.keeping (change state.kept)) state' added

theorem Lays.unchanged {α : Type} {flow : Flow} {change : Program → Program}
    {visit : Visit α} (lays : Lays flow visit) (same : ∀ program, change program = program) :
    LaysTo flow change visit := by
  intro state value state' tidy run
  rw [same]
  exact lays state value state' tidy run

theorem Tidy.keeping {state : CompilerState} (tidy : state.Tidy) (program : Program) :
    (state.keeping program).Tidy :=
  ⟨tidy.code, tidy.builder⟩

private theorem laysTo_modify {change : Program → Program} :
    LaysTo (.straight 0) change
      (Comp.modify fun state => state.keeping (change state.kept) : Visit Unit) := by
  intro state value state' tidy run
  obtain ⟨-, rfl⟩ := modify_ok_iff.mp run
  exact (Straight.refl _).segment (Tidy.keeping tidy _)

/-- What a statement of the module adds when it is visited. -/
def topSlotFlow (stmt : Node) : Flow :=
  if isMainBlock stmt || isHandle stmt || isDeferred stmt then .straight 0
  else slotFlow stmt

def moduleSlotFlow : List Node → Flow
  | [] => .straight 0
  | stmt :: rest => (topSlotFlow stmt).seq (moduleSlotFlow rest)

private theorem topSlotFlow_visited {stmt : Node} (main : isMainBlock stmt = false)
    (handle : isHandle stmt = false) (deferred : isDeferred stmt = false) :
    topSlotFlow stmt = slotFlow stmt := by
  rw [topSlotFlow, main, handle, deferred, Bool.or_false, Bool.or_false,
    if_neg Bool.false_ne_true]

private theorem topSlotFlow_deferred {stmt : Node} (deferred : isDeferred stmt = true) :
    topSlotFlow stmt = .straight 0 := by
  rw [topSlotFlow, deferred, Bool.or_true, if_pos rfl]

theorem laysTo_visitTopLevel {stmt : Node} (formed : isWellFormed stmt = true) :
    LaysTo (topSlotFlow stmt) (keptProgram · stmt) (visitTopLevel stmt) := by
  have visited : Lays (slotFlow stmt) (do
      let _ ← visit stmt
      Pure.pure () : Visit Unit) :=
    (lays_visit stmt formed).after fun _ => lays_pure ()
  unfold visitTopLevel
  cases main : isMainBlock stmt with
  | true =>
      have nothing : topSlotFlow stmt = .straight 0 := by
        rw [topSlotFlow, main, Bool.true_or, Bool.true_or, if_pos rfl]
      rw [if_pos rfl, nothing]
      apply (lays_pure ()).unchanged
      intro program
      cases stmt with
      | ifStmt test body orelse => rfl
      | _ => cases main
  | false =>
      rw [if_neg Bool.false_ne_true]
      cases stmt with
      | functionDef name args declared body dropped =>
          dsimp only
          by_cases isEntry : name = "handle"
          · subst isEntry
            have isKept : topSlotFlow (.functionDef "handle" args declared body dropped) =
                .straight 0 := by
              rw [topSlotFlow, isHandle, decide_eq_true rfl, Bool.or_true, Bool.true_or,
                if_pos rfl]
            rw [if_pos rfl, isKept]
            exact laysTo_modify
          · have notHandle :
                isHandle (.functionDef name args declared body dropped) = false :=
              decide_eq_false isEntry
            rw [if_neg isEntry, topSlotFlow_visited main notHandle rfl]
            apply visited.unchanged
            intro program
            exact congrArg (·, program.2) (if_neg isEntry)
      | annAssign target annotation value =>
          rw [topSlotFlow_deferred rfl]
          exact laysTo_modify
      | assign target moreTargets value =>
          rw [topSlotFlow_deferred rfl]
          exact laysTo_modify
      | expr value =>
          rw [topSlotFlow_deferred rfl]
          exact laysTo_modify
      | _ =>
          rw [topSlotFlow_visited main rfl rfl]
          exact visited.unchanged fun _ => rfl

private theorem laysTo_visitModule {tree : List Node} (formed : areWellFormed tree = true) :
    LaysTo (moduleSlotFlow tree) (tree.foldl keptProgram ·) (visitModule tree) := by
  induction tree with
  | nil => exact (lays_pure ()).unchanged fun _ => rfl
  | cons stmt rest ih =>
      intro state value state' tidy run
      obtain ⟨_, middle, headRun, restRun⟩ := bind_ok_iff.mp run
      obtain ⟨front, head⟩ := laysTo_visitTopLevel (and_left formed) _ _ _ tidy headRun
      have tidyMiddle := head.tidy (Tidy.keeping tidy _)
      obtain ⟨back, tail⟩ := ih (and_right formed) _ _ _ tidyMiddle restRun
      have isKept : middle.kept = keptProgram state.kept stmt := head.kept
      rw [isKept] at tail
      have whole := (head.keeping (rest.foldl keptProgram (keptProgram state.kept stmt))).trans
        (Tidy.keeping tidy _) tail
      exact ⟨front ++ back, whole⟩

def handleSlotFlow : Option FunctionNode → Flow
  | some node =>
      ((Flow.straight (paramCount none node.args)).seq (slotFlowAll node.body)).apart
  | none => .straight 0

/-- The functions compiled after the statements of the module. -/
def entrySlotFlow (program : Program) : Flow :=
  (handleSlotFlow program.1).seq (slotFlowAll program.2).apart

private theorem synthesizeInit_segment {state state' : CompilerState} (tidy : state.Tidy)
    (formed : areWellFormed state.initStmts = true)
    (run : synthesizeInit state = .ok ((), state')) :
    ∃ added, Segment (slotFlowAll state.initStmts).apart state state' added := by
  simp only [synthesizeInit, clearLocals, bind_ok_iff, modify_ok_iff, reads_ok_iff] at run
  obtain ⟨_, _, begun, _, cleared, isCleared, _, tagged, isTagged, stmts, _, ⟨rfl, rfl⟩,
    _, finished, bodyRun, terminated, _, ended, closeRun⟩ := run
  obtain ⟨-, -, rfl⟩ := beginFunction_ok_iff.mp begun
  have isBegun : Begun state tagged := by
    subst isTagged isCleared
    exact (begun_begin state _).update _ rfl rfl rfl rfl
  have stmts : tagged.initStmts = state.initStmts := congrArg Prod.snd isBegun.kept
  have tidyTagged := isBegun.tidy tidy
  obtain ⟨added, body⟩ := lays_visitBody tagged.initStmts (stmts ▸ formed) _ _ _ tidyTagged
    bodyRun
  have closed : closeFunction .void finished = .ok ((), state') := by
    refine bind_ok_iff.mpr ⟨terminated, _, ended, ?_⟩
    cases terminated with
    | true => exact closeRun
    | false => exact closeRun
  have ends := halts_of_close (body.tidy tidyTagged) closed
  obtain ⟨code, function⟩ := isBegun.function tidy (.refl tagged) body ends
  rw [Flow.straight_seq, stmts] at function
  exact ⟨code, function⟩

/-- So many slots are added as the event has texts. -/
def SomeStraight (base state : CompilerState) : Prop :=
  ∃ count, Straight count base state

theorem SomeStraight.update {base state : CompilerState} (straight : SomeStraight base state)
    (next : CompilerState) (code : next.module.code = state.module.code)
    (blocks : next.module.blockCount = state.module.blockCount)
    (builder : next.builder = state.builder) (kept : next.kept = state.kept) :
    SomeStraight base next := by
  obtain ⟨count, straight⟩ := straight
  exact ⟨count, straight.update next code blocks builder kept⟩

private theorem emits_someStraight (base : CompilerState) : EmitsInBlock (SomeStraight base) := by
  rintro state block instr inBlock ⟨count, straight⟩ standing
  exact ⟨_, straight.append standing inBlock⟩

private theorem ensures_handleSlots (base : CompilerState) (i8Ptr i64 eventPtrType : LType)
    (json : JsonFunctions) (eventLayout responseLayout : Layout) :
    Ensures (· = base)
      (synthesizeHandle i8Ptr i64 eventPtrType json eventLayout responseLayout)
      fun _ state => ∃ entered count middle, Begun base entered ∧
        Straight count entered middle ∧ (middle.Tidy → Halts middle state) := by
  have begins : Ensures (· = base) (beginFunction "lambpie_handle" i64 [i8Ptr, i64, i8Ptr, i64])
      fun _ => Begun base := by
    rintro state result state' rfl run
    obtain ⟨-, -, rfl⟩ := beginFunction_ok_iff.mp run
    exact begun_begin state _
  refine begins.bind fun _ => ?_
  have cleared : Keeps (Begun base) clearLocals :=
    .modify fun state begun => begun.update _ rfl rfl rfl rfl
  refine cleared.bind fun _ => ?_
  have tagged : Keeps (Begun base)
      (Comp.modify fun state => { state with currentArena := .req } : Visit _) :=
    .modify fun state begun => begun.update _ rfl rfl rfl rfl
  refine tagged.bind fun _ => ?_
  apply Ensures.each
  intro entered begun
  have emits := emits_someStraight entered
  have stores := keeps_storeField emits.plain.operand
  have globals (inner : CompilerState) (global : Global) (straight : SomeStraight entered inner) :
      SomeStraight entered (inner.addGlobal global) := straight.update _ rfl rfl rfl rfl
  have counts (inner : CompilerState) (straight : SomeStraight entered inner) :
      SomeStraight entered { inner with nameCounter := inner.nameCounter + 1 } :=
    straight.update _ rfl rfl rfl rfl
  have entry := emits.tagged .req
  have plain (type : LType) (index : Nat) : Plain (.value { type, operand := .arg index }) :=
    fun _ number => Operand.noConfusion
  have calls := keeps_callInBlock emits.quiet
  have ends (pos : Value) : Ensures (SomeStraight entered) (ret (.value pos)) fun _ state =>
      ∃ count middle, Straight count entered middle ∧ (middle.Tidy → Halts middle state) := by
    rintro state result state' ⟨count, straight⟩ run
    exact ⟨count, state, straight, fun tidy => halts_of_terminate tidy rfl rfl run⟩
  refine Ensures.strengthen (?_ : Ensures (SomeStraight entered) _ _) fun state same =>
    ⟨0, same ▸ .refl entered⟩
  refine (keeps_allocEntry entry eventPtrType i64).bind fun eventStruct => .assume fun _ => ?_
  refine (stores eventStruct 0 (.value (i32Const 1))).bind fun _ => ?_
  refine (keeps_decodeFields entry globals counts _ _ _ (plain i8Ptr 0)).bind fun _ => ?_
  refine (keeps_lookup_only _ _).bind fun userHandle => ?_
  refine (calls _ _).bind fun responseStruct => ?_
  refine (keeps_lengthConst _ 0).bind fun zero => .assume fun _ => ?_
  refine (calls _ _).bind fun pos => ?_
  refine (keeps_encodeFields entry globals counts _ _ _ _ (plain i8Ptr 2)).bind fun pos => ?_
  refine (calls _ _).bind fun pos => (ends pos).weaken ?_
  rintro _ state ⟨count, middle, straight, halts⟩
  exact ⟨entered, count, middle, begun, straight, halts⟩

private theorem synthesizeHandle_segment {i8Ptr i64 eventPtrType : LType} {json : JsonFunctions}
    {eventLayout responseLayout : Layout} {state state' : CompilerState} (tidy : state.Tidy)
    (run : synthesizeHandle i8Ptr i64 eventPtrType json eventLayout responseLayout state =
      .ok ((), state')) :
    ∃ count added, Segment (Flow.straight count).apart state state' added := by
  obtain ⟨entered, count, middle, begun, straight, halts⟩ :=
    ensures_handleSlots state i8Ptr i64 eventPtrType json eventLayout responseLayout
      state () state' rfl run
  have tidyEntered := begun.tidy tidy
  obtain ⟨front, slots⟩ := straight.segment tidyEntered
  obtain ⟨⟨back, close⟩, closed⟩ := halts (slots.tidy tidyEntered)
  have whole := begun.apart tidy (slots.trans tidyEntered close) closed
  rw [Flow.apart_seq_halt] at whole
  exact ⟨count, front ++ back, whole⟩

private theorem unchanged_of_keeps {α : Type} {visit : Visit α} {value : α}
    {state state' : CompilerState} (keeps : ∀ holds, Keeps holds visit)
    (run : visit state = .ok (value, state')) : state' = state :=
  keeps (· = state) state value state' rfl run

/-- What is kept of the program consists of statements. -/
def WellFormed (program : Program) : Prop :=
  (∀ node, program.1 = some node → areWellFormed node.body = true) ∧
    areWellFormed program.2 = true

private theorem synthesizeLambdaEntry_segment {state state' : CompilerState} (tidy : state.Tidy)
    (formed : WellFormed state.kept) (run : synthesizeLambdaEntry state = .ok ((), state')) :
    ∃ count added, Segment ((entrySlotFlow state.kept).seq (Flow.straight count).apart)
      state state' added := by
  simp only [synthesizeLambdaEntry, bind_ok_iff, reads_ok_iff] at run
  obtain ⟨found, _, ⟨rfl, rfl⟩, run⟩ := run
  cases isNode : state.handleNode with
  | none =>
      rw [isNode] at run
      cases run
  | some node =>
      rw [isNode] at run
      simp only [bind_ok_iff] at run
      obtain ⟨types, first, named, eventLayout, second, laidOut, responseLayout, third,
        laidOut', eventPtrType, fourth, found, _, fifth, found', i8Ptr, sixth, found₁, i64,
        seventh, found₂, _, visit, visited, json, declare, declared, _, inner, initRun,
        handleRun⟩ := run
      obtain rfl := unchanged_of_keeps (fun _ => keeps_entryTypes node) named
      obtain rfl := unchanged_of_keeps (fun _ => keeps_entryLayout _ _) laidOut
      obtain rfl := unchanged_of_keeps (fun _ => keeps_entryLayout _ _) laidOut'
      obtain rfl := unchanged_of_keeps (fun _ => keeps_lookup_only _ _) found
      obtain rfl := unchanged_of_keeps (fun _ => keeps_lookup_only _ _) found'
      obtain rfl := unchanged_of_keeps (fun _ => keeps_lookup_only _ _) found₁
      obtain rfl := unchanged_of_keeps (fun _ => keeps_lookup_only _ _) found₂
      obtain ⟨code₁, handle⟩ := lays_visitFunctionDef
        (lays_visitBody node.body (formed.1 node isNode)) _ _ _ tidy visited
      have tidyVisit := handle.tidy tidy
      have declares : Keeps (Straight 0 visit) (declareJson i8Ptr i64) :=
        keeps_declareJson (fun inner func straight => straight.update _ rfl rfl rfl rfl) _ _
      obtain ⟨code₂, declared⟩ :=
        (declares visit json declare (.refl visit) declared).segment tidyVisit
      have front := handle.trans tidy declared
      rw [Flow.seq_straight] at front
      have tidyDeclare := front.tidy tidy
      have isKept : declare.kept = seventh.kept := front.kept
      have stmts : declare.initStmts = seventh.initStmts := congrArg Prod.snd isKept
      obtain ⟨code₃, init⟩ := synthesizeInit_segment tidyDeclare (stmts ▸ formed.2) initRun
      obtain ⟨count, code₄, last⟩ := synthesizeHandle_segment (init.tidy tidyDeclare) handleRun
      have whole := (front.trans tidy init).trans tidy last
      rw [stmts] at whole
      have flow : entrySlotFlow seventh.kept =
          (handleSlotFlow (some node)).seq (slotFlowAll seventh.initStmts).apart := by
        rw [entrySlotFlow, CompilerState.kept, isNode]
      rw [flow]
      exact ⟨count, _, whole⟩

private theorem areWellFormed_append {front back : List Node}
    (formedFront : areWellFormed front = true)
    (formedBack : areWellFormed back = true) : areWellFormed (front ++ back) = true := by
  induction front with
  | nil => exact formedBack
  | cons node rest ih =>
      rw [List.cons_append, areWellFormed, ih (and_right formedFront), Bool.and_true]
      exact and_left formedFront

theorem WellFormed.keep {program : Program} (formed : WellFormed program) {stmt : Node}
    (formedStmt : isWellFormed stmt = true) : WellFormed (keptProgram program stmt) := by
  constructor
  · intro node isNode
    cases stmt with
    | functionDef name args declared body dropped =>
        by_cases isEntry : name = "handle"
        · have same : node = { name, args, returns := declared, body } := by
            rw [keptProgram, keptHandle, if_pos isEntry] at isNode
            exact (Option.some.inj isNode).symm
          rw [same]
          exact formedStmt
        · rw [keptProgram, keptHandle, if_neg isEntry] at isNode
          exact formed.1 node isNode
    | _ => exact formed.1 node isNode
  · change areWellFormed (keptStmts program.2 stmt) = true
    unfold keptStmts
    cases isDeferred stmt with
    | true => exact areWellFormed_append formed.2 (Bool.and_eq_true_iff.mpr ⟨formedStmt, rfl⟩)
    | false => exact formed.2

theorem WellFormed.foldl {program : Program} (formed : WellFormed program) {tree : List Node}
    (formedTree : areWellFormed tree = true) : WellFormed (tree.foldl keptProgram program) := by
  induction tree generalizing program with
  | nil => exact formed
  | cons stmt rest ih => exact ih (formed.keep (and_left formedTree)) (and_right formedTree)

private theorem tidy_initial : CompilerState.initial.Tidy where
  code entry member := (List.not_mem_nil member).elim
  builder label standing := by cases standing

/-- For each slot of the program whether a way through the body of a loop passes
its declaration, in the order in which the slots are compiled. -/
def repeatedSlots (tree : List Node) : List Bool :=
  ((moduleSlotFlow tree).seq
    (entrySlotFlow (tree.foldl keptProgram (none, [])))).marks.map Mark.cyclic

private theorem straight_apart_cyclic (count : Nat) :
    (Flow.straight count).apart.marks.map Mark.cyclic = List.replicate count false := by
  simp [Flow.straight, Flow.apart]

def Module.slots (module : Module) : List (Nat × Label) :=
  (module.code.zipIdx.filter (·.1.instr.isAlloca)).map fun (entry, id) => (id, entry.block)

def Module.Branches (module : Module) (source target : Label) : Prop :=
  ∃ entry ∈ module.code, entry.block = source ∧ target ∈ entry.instr.targets

def Module.OnCycle (module : Module) (label : Label) : Prop :=
  TransGen module.Branches label label

private theorem slots_blocks (module : Module) :
    module.slots.map (fun slot => some slot.2) = slotBlocks module.code := by
  unfold Module.slots slotBlocks
  rw [List.map_map]
  have plain : module.code = module.code.zipIdx.map Prod.fst := by simp
  conv_rhs => rw [plain, List.filter_map, List.map_map]
  rfl

private theorem onCycle_iff {module : Module} {label : Label} :
    module.OnCycle label ↔ TransGen (Leads module.code) (some label) (some label) := by
  constructor
  · intro cycle
    have lifted : ∀ source target, module.Branches source target →
        Leads module.code (some source) (some target) := by
      rintro source target ⟨entry, member, rfl, leads⟩
      exact ⟨entry, member, rfl, target, leads, rfl⟩
    exact TransGen.lift some lifted label label cycle
  · have ways {x y : Option Label} (way : TransGen (Leads module.code) x y) :
        ∀ source target, x = some source → y = some target →
          TransGen module.Branches source target := by
      induction way with
      | single edge =>
          rintro source target rfl rfl
          obtain ⟨entry, member, same, label, leads, isTarget⟩ := edge
          cases same
          cases isTarget
          exact .single ⟨entry, member, rfl, leads⟩
      | tail _ edge ih =>
          rintro source target rfl rfl
          obtain ⟨entry, member, same, label, leads, isTarget⟩ := edge
          cases isTarget
          exact (ih source entry.block rfl same).tail ⟨entry, member, rfl, leads⟩
    exact fun way => ways way label label rfl rfl

/-- The slots of just the declarations that a loop repeats are on cycles. -/
theorem slots_onCycle_iff {tree : List Node} {state : CompilerState}
    (compiled : compileState tree = .ok state) (formed : areWellFormed tree = true) :
    ∃ outLengths, List.Forall₂
      (fun slot repeats => repeats = true ↔ state.module.OnCycle slot.2)
      state.module.slots (repeatedSlots tree ++ List.replicate outLengths false) := by
  obtain ⟨middle, visited, synthesized⟩ := compileState_ok_iff.mp compiled
  obtain ⟨front, head⟩ := laysTo_visitModule formed _ _ _ tidy_initial visited
  have tidyBase := Tidy.keeping tidy_initial
    (tree.foldl keptProgram CompilerState.initial.kept)
  have isKept : middle.kept = tree.foldl keptProgram (none, []) := head.kept
  have nothing : WellFormed (none, []) := by
    refine ⟨fun node isNode => ?_, rfl⟩
    cases isNode
  obtain ⟨count, back, tail⟩ := synthesizeLambdaEntry_segment (head.tidy tidyBase)
    (isKept ▸ nothing.foldl formed) synthesized
  have whole := head.trans tidyBase tail
  have isCode : state.module.code = front ++ back := whole.code
  rw [← isCode, isKept] at whole
  refine ⟨count, ?_⟩
  have cyclic : repeatedSlots tree ++ List.replicate count false =
      ((moduleSlotFlow tree).seq ((entrySlotFlow (tree.foldl keptProgram (none, []))).seq
        (Flow.straight count).apart)).marks.map Mark.cyclic := by
    rw [repeatedSlots, Flow.seq_cyclic, Flow.seq_cyclic, Flow.seq_cyclic, straight_apart_cyclic,
      List.append_assoc]
  have marks := whole.region.marks
  rw [← slots_blocks] at marks
  rw [cyclic]
  apply List.forall₂_map_right_iff.mpr
  refine (List.forall₂_map_left_iff.mp marks).imp fun slot mark marked => ?_
  exact marked.cyclic.trans onCycle_iff.symm

end Lambpie.Compiler

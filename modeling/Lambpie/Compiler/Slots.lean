/-
The blocks in which stack slots are allocated.

A visit adds code to the block that the builder stands in and to blocks that it
makes.  So the code of one visit is a region of the branches between blocks,
from where the builder stood to where it stands after it, and its marks are the
slots.
-/
import Lambpie.Compiler.FallThrough
import Lambpie.Foundations.Branching

namespace Lambpie.Compiler

open Foundations
open Foundations.Comp
open Relation

/-- A branch of the code leads from one position of the builder to another. -/
def Leads (code : List Emitted) (x y : Option Label) : Prop :=
  ∃ entry ∈ code, x = some entry.block ∧ ∃ label ∈ entry.instr.targets, y = some label

def slotBlocks (code : List Emitted) : List (Option Label) :=
  (code.filter (·.instr.isAlloca)).map fun entry => some entry.block

theorem leads_append (front back : List Emitted) :
    Leads (front ++ back) = Either (Leads front) (Leads back) := by
  funext x y
  apply propext
  constructor
  · rintro ⟨entry, member, leads⟩
    rcases List.mem_append.mp member with inFront | inBack
    · exact .inl ⟨entry, inFront, leads⟩
    · exact .inr ⟨entry, inBack, leads⟩
  · rintro (⟨entry, member, leads⟩ | ⟨entry, member, leads⟩)
    · exact ⟨entry, List.mem_append_left _ member, leads⟩
    · exact ⟨entry, List.mem_append_right _ member, leads⟩

theorem not_leads {code : List Emitted} (none : ∀ entry ∈ code, entry.instr.targets = [])
    (x y : Option Label) : ¬Leads code x y := by
  rintro ⟨entry, member, -, label, target, -⟩
  rw [none entry member] at target
  cases target

theorem leads_singleton {entry : Emitted} {x y : Option Label} :
    Leads [entry] x y ↔
      x = some entry.block ∧ ∃ label ∈ entry.instr.targets, y = some label := by
  constructor
  · rintro ⟨other, member, leads⟩
    cases List.mem_singleton.mp member
    exact leads
  · intro leads
    exact ⟨entry, List.mem_singleton.mpr rfl, leads⟩

theorem slotBlocks_append (front back : List Emitted) :
    slotBlocks (front ++ back) = slotBlocks front ++ slotBlocks back := by
  rw [slotBlocks, List.filter_append, List.map_append]
  rfl

theorem slotBlocks_of_plain {code : List Emitted}
    (plain : ∀ entry ∈ code, entry.instr.isAlloca = false) : slotBlocks code = [] := by
  rw [slotBlocks, List.map_eq_nil_iff, List.filter_eq_nil_iff]
  intro entry member
  rw [plain entry member]
  exact Bool.false_ne_true

theorem isAlloca_of_isTerminator {instr : Instr} (terminates : instr.isTerminator = true) :
    instr.isAlloca = false := by
  cases instr with
  | alloca type => cases terminates
  | _ => rfl

namespace CompilerState

structure Tidy (state : CompilerState) : Prop where
  code : ∀ entry ∈ state.module.code, entry.block.index < state.module.blockCount
  builder : ∀ label, state.builder = some label → label.index < state.module.blockCount

def IsOpen (state : CompilerState) : Prop :=
  ∃ label, state.graph.OpenAt label

def Made (base state : CompilerState) (node : Option Label) : Prop :=
  ∃ label, node = some label ∧ base.module.blockCount ≤ label.index ∧
    label.index < state.module.blockCount

def kept (state : CompilerState) : Program := (state.handleNode, state.initStmts)

def standAt (state : CompilerState) (label : Label) : CompilerState :=
  { state with builder := some label }

@[simp] theorem standAt_builder (state : CompilerState) (label : Label) :
    (state.standAt label).builder = some label := rfl

@[simp] theorem standAt_code (state : CompilerState) (label : Label) :
    (state.standAt label).module.code = state.module.code := rfl

@[simp] theorem standAt_blockCount (state : CompilerState) (label : Label) :
    (state.standAt label).module.blockCount = state.module.blockCount := rfl

@[simp] theorem standAt_kept (state : CompilerState) (label : Label) :
    (state.standAt label).kept = state.kept := rfl

variable {base state : CompilerState}

theorem not_made_builder (tidy : base.Tidy) {later : CompilerState}
    (blocks : base.module.blockCount ≤ state.module.blockCount) :
    ¬Made state later base.builder := by
  rintro ⟨label, standing, above, -⟩
  have below := tidy.builder label standing
  omega

theorem Made.mono {node : Option Label} {first last : CompilerState}
    (made : Made base state node)
    (before : first.module.blockCount ≤ base.module.blockCount)
    (after : state.module.blockCount ≤ last.module.blockCount) : Made first last node := by
  obtain ⟨label, same, above, below⟩ := made
  exact ⟨label, same, before.trans above, Nat.lt_of_lt_of_le below after⟩

end CompilerState

open CompilerState

/-- The code that a visit adds, as a region of the branches. -/
structure Segment (flow : Flow) (base state : CompilerState) (added : List Emitted) :
    Prop where
  code : state.module.code = base.module.code ++ added
  blocks : base.module.blockCount ≤ state.module.blockCount
  placed : ∀ entry ∈ added, some entry.block = base.builder ∨ Made base state (some entry.block)
  kept : state.kept = base.kept
  region : Region flow (Leads added) base.builder state.builder (Made base state)
    (slotBlocks added) base.IsOpen state.IsOpen

theorem Segment.tidy {flow : Flow} {base state : CompilerState} {added : List Emitted}
    (segment : Segment flow base state added) (tidy : base.Tidy) : state.Tidy where
  code := by
    intro entry member
    rw [segment.code] at member
    rcases List.mem_append.mp member with earlier | new
    · exact Nat.lt_of_lt_of_le (tidy.code entry earlier) segment.blocks
    · rcases segment.placed entry new with standing | ⟨label, same, -, below⟩
      · exact Nat.lt_of_lt_of_le (tidy.builder entry.block standing.symm) segment.blocks
      · cases same
        exact below
  builder := by
    intro label standing
    rcases segment.region.inside with same | ⟨other, same, -, below⟩
    · exact Nat.lt_of_lt_of_le (tidy.builder label (same.symm.trans standing)) segment.blocks
    · cases standing.symm.trans same
      exact below

theorem Segment.trans {first second : Flow} {base middle state : CompilerState}
    {front back : List Emitted} (tidy : base.Tidy) (head : Segment first base middle front)
    (tail : Segment second middle state back) :
    Segment (first.seq second) base state (front ++ back) where
  code := by rw [tail.code, head.code, List.append_assoc]
  blocks := head.blocks.trans tail.blocks
  placed := by
    intro entry member
    rcases List.mem_append.mp member with inFront | inBack
    · exact (head.placed entry inFront).imp id fun made =>
        made.mono (Nat.le_refl _) tail.blocks
    · rcases tail.placed entry inBack with standing | made
      · rcases head.region.inside with same | made
        · exact .inl (standing.trans same)
        · exact .inr (standing ▸ made.mono (Nat.le_refl _) tail.blocks)
      · exact .inr (made.mono head.blocks (Nat.le_refl _))
  kept := tail.kept.trans head.kept
  region := by
    have apart : ∀ node, Made base middle node → ¬Made middle state node := by
      rintro node ⟨label, same, -, below⟩ ⟨other, again, above, -⟩
      cases same.symm.trans again
      omega
    have new : ¬Made middle state base.builder := not_made_builder tidy head.blocks
    rw [leads_append, slotBlocks_append]
    have both := Region.seq head.region tail.region apart new
    refine both.widen ?_ (not_made_builder tidy (Nat.le_refl _))
    rintro node (made | made)
    · exact made.mono (Nat.le_refl _) tail.blocks
    · exact made.mono head.blocks (Nat.le_refl _)

/-- So many slots and no terminators are added to the block written to. -/
structure Straight (count : Nat) (base state : CompilerState) : Prop where
  code : ∃ added, state.module.code = base.module.code ++ added ∧
    (∀ entry ∈ added, some entry.block = base.builder ∧ entry.instr.isTerminator = false) ∧
    slotBlocks added = List.replicate count base.builder
  blocks : state.module.blockCount = base.module.blockCount
  builder : state.builder = base.builder
  kept : state.kept = base.kept

theorem Straight.refl (state : CompilerState) : Straight 0 state state where
  code := ⟨[], (List.append_nil _).symm, fun _ member => (List.not_mem_nil member).elim, rfl⟩
  blocks := rfl
  builder := rfl
  kept := rfl

theorem Straight.update {count : Nat} {base state : CompilerState}
    (straight : Straight count base state) (next : CompilerState)
    (code : next.module.code = state.module.code)
    (blocks : next.module.blockCount = state.module.blockCount)
    (builder : next.builder = state.builder) (kept : next.kept = state.kept) :
    Straight count base next where
  code := by
    rw [code]
    exact straight.code
  blocks := blocks.trans straight.blocks
  builder := builder.trans straight.builder
  kept := kept.trans straight.kept

theorem Straight.append {count : Nat} {base state : CompilerState}
    (straight : Straight count base state) {block : Label} {instr : Instr}
    (standing : state.builder = some block) (inBlock : instr.isTerminator = false) :
    Straight (count + if instr.isAlloca then 1 else 0) base
      (state.append { block, instr }) where
  code := by
    obtain ⟨added, code, plain, slots⟩ := straight.code
    have position : some block = base.builder := standing.symm.trans straight.builder
    refine ⟨added ++ [⟨block, instr⟩], ?_, ?_, ?_⟩
    · rw [← List.append_assoc, ← code]
      rfl
    · intro entry member
      rcases List.mem_append.mp member with earlier | last
      · exact plain entry earlier
      · cases List.mem_singleton.mp last
        exact ⟨position, inBlock⟩
    · rw [slotBlocks_append, slots]
      cases slot : instr.isAlloca with
      | true =>
          have last : slotBlocks [⟨block, instr⟩] = [base.builder] := by
            rw [slotBlocks, List.filter_singleton, slot, ← position]
            rfl
          rw [last, if_pos rfl, List.replicate_succ']
      | false =>
          have last : slotBlocks [⟨block, instr⟩] = [] := by
            rw [slotBlocks, List.filter_singleton, slot]
            rfl
          rw [last, if_neg Bool.false_ne_true, List.append_nil, Nat.add_zero]
  blocks := straight.blocks
  builder := straight.builder
  kept := straight.kept

theorem quiet_straight (count : Nat) (base : CompilerState) : Quiet (Straight count base) where
  emits state block instr inBlock noSlot straight standing := by
    have after := straight.append standing inBlock
    rw [noSlot] at after
    exact after
  counter state straight := straight.update _ rfl rfl rfl rfl
  global state global straight := straight.update _ rfl rfl rfl rfl

theorem ensures_alloca {count : Nat} {base : CompilerState} (type : LType) :
    Ensures (Straight count base) (alloca type) fun _ => Straight (count + 1) base := by
  intro state result state' straight run
  obtain ⟨block, standing, rfl, rfl⟩ := alloca_ok run
  have inBlock : (Instr.alloca type).isTerminator = false := rfl
  exact straight.append standing inBlock

theorem keepsType_straight (count : Nat) (base : CompilerState) (node : Node) :
    Keeps (Straight count base) (getType node) := by
  apply keeps_getType_of
  intro state name straight _ _
  exact straight.update _ rfl rfl rfl rfl

theorem Straight.segment {count : Nat} {base state : CompilerState}
    (straight : Straight count base state) (tidy : base.Tidy) :
    ∃ added, Segment (.straight count) base state added := by
  obtain ⟨added, code, plain, slots⟩ := straight.code
  have blocks : base.module.blockCount ≤ state.module.blockCount := straight.blocks.symm.le
  have open_ : state.IsOpen ↔ base.IsOpen := by
    constructor
    · rintro ⟨label, standing, isOpen⟩
      refine ⟨label, straight.builder.symm.trans standing, ?_⟩
      rintro ⟨entry, member, ends⟩
      refine isOpen ⟨entry, ?_, ends⟩
      rw [graph, code]
      exact List.mem_append_left _ member
    · rintro ⟨label, standing, isOpen⟩
      refine ⟨label, straight.builder.trans standing, ?_⟩
      rintro ⟨entry, member, same, ends⟩
      rw [graph, code] at member
      rcases List.mem_append.mp member with earlier | new
      · exact isOpen ⟨entry, earlier, same, ends⟩
      · rw [(plain entry new).2] at ends
        cases ends
  have none := not_leads fun entry member => targets_of_inBlock (plain entry member).2
  refine ⟨added, code, blocks, fun entry member => .inl (plain entry member).1,
    straight.kept, ?_⟩
  rw [straight.builder, slots]
  exact Region.straight none (not_made_builder tidy (Nat.le_refl _)) count open_

/-- A visit that adds a segment with the flow given. -/
def Lays {α : Type} (flow : Flow) (visit : Visit α) : Prop :=
  ∀ state value state', state.Tidy → visit state = .ok (value, state') →
    ∃ added, Segment flow state state' added

theorem Lays.bind {α β : Type} {first second : Flow} {visit : Visit α}
    {next : α → Visit β} (head : Lays first visit)
    (tail : ∀ value, Lays second (next value)) :
    Lays (first.seq second) (visit >>= next) := by
  intro state value state' tidy run
  obtain ⟨middleValue, middle, headRun, tailRun⟩ := bind_ok_iff.mp run
  obtain ⟨front, segment⟩ := head _ _ _ tidy headRun
  obtain ⟨back, rest⟩ := tail _ _ _ _ (segment.tidy tidy) tailRun
  exact ⟨front ++ back, segment.trans tidy rest⟩

theorem lays_fail {α : Type} {flow : Flow} (error : PyErr) :
    Lays flow (Comp.fail error : Visit α) := by
  intro state value state' _ run
  exact (fail_ok_iff.mp run).elim

theorem lays_of_straight {α : Type} {count : Nat} {visit : Visit α}
    (straight : ∀ base, Ensures (Straight 0 base) visit fun _ => Straight count base) :
    Lays (.straight count) visit := by
  intro state value state' tidy run
  exact (straight state state value state' (.refl state) run).segment tidy

theorem lays_of_keeps {α : Type} {visit : Visit α}
    (kept : ∀ count base, Keeps (Straight count base) visit) : Lays (.straight 0) visit :=
  lays_of_straight fun base => kept 0 base

theorem lays_pure {α : Type} (value : α) : Lays (.straight 0) (pure value : Visit α) :=
  lays_of_keeps fun _ _ => keeps_pure value

theorem Lays.before {α β : Type} {flow : Flow} {visit : Visit α} {next : α → Visit β}
    (head : Lays (.straight 0) visit) (tail : ∀ value, Lays flow (next value)) :
    Lays flow (visit >>= next) := by
  have both := head.bind tail
  rwa [Flow.straight_seq] at both

theorem Lays.after {α β : Type} {flow : Flow} {visit : Visit α} {next : α → Visit β}
    (head : Lays flow visit) (tail : ∀ value, Lays (.straight 0) (next value)) :
    Lays flow (visit >>= next) := by
  have both := head.bind tail
  rwa [Flow.seq_straight] at both

def Halts (base state : CompilerState) : Prop :=
  (∃ added, Segment .halt base state added) ∧ ¬state.IsOpen

theorem halts_of_closed {state : CompilerState} (tidy : state.Tidy) (closed : ¬state.IsOpen) :
    Halts state state := by
  refine ⟨⟨[], (List.append_nil _).symm, Nat.le_refl _, ?_, rfl, ?_⟩, closed⟩
  · intro entry member
    exact (List.not_mem_nil member).elim
  · have none := @not_leads [] fun entry member => (List.not_mem_nil member).elim
    exact Region.halt none (not_made_builder tidy (Nat.le_refl _)) closed

theorem halts_of_terminate {instr : Instr} {state state' : CompilerState} (tidy : state.Tidy)
    (terminates : instr.isTerminator = true) (leaves : instr.targets = [])
    (run : terminate instr state = .ok ((), state')) : Halts state state' := by
  obtain ⟨label, isOpen, rfl⟩ := terminate_ok run
  have only {entry : Emitted} (member : entry ∈ [⟨label, instr⟩]) : entry = ⟨label, instr⟩ :=
    List.mem_singleton.mp member
  have none := @not_leads [⟨label, instr⟩] fun entry member => by
    rw [only member]
    exact leaves
  have noSlots : slotBlocks [⟨label, instr⟩] = [] := slotBlocks_of_plain fun entry member => by
    rw [only member]
    exact isAlloca_of_isTerminator terminates
  have closed : ¬(state.append ⟨label, instr⟩).IsOpen := by
    rintro ⟨other, standing, stillOpen⟩
    cases isOpen.1.symm.trans standing
    exact stillOpen ⟨⟨label, instr⟩, List.mem_concat_self, rfl, terminates⟩
  refine ⟨⟨[⟨label, instr⟩], rfl, Nat.le_refl _, ?_, rfl, ?_⟩, closed⟩
  · intro entry member
    rw [only member]
    exact .inl isOpen.1.symm
  · rw [noSlots]
    exact Region.halt none (not_made_builder tidy (Nat.le_refl _)) closed

theorem lays_terminate {instr : Instr} (terminates : instr.isTerminator = true)
    (leaves : instr.targets = []) : Lays .halt (terminate instr) := by
  intro state value state' tidy run
  exact (halts_of_terminate tidy terminates leaves run).1

end Lambpie.Compiler

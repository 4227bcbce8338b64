/-
The variables of an activation in the machine's memory.

Each variable is in a stack slot of its own, whose address is in the register
of the declaration.  Evaluating an expression leaves these registers and slots
as they are.
-/
import Lambpie.Integers.Language
import Lambpie.Integers.Positions

namespace Lambpie.Integers

open Foundations
open Lambpie.Compiler
open Lambpie.Machine

variable {module : Module}

def Below (limit : Nat) : Block → Prop
  | .stack slot => slot < limit
  | _ => True

/-- Only stack slots from the limit on have changed. -/
structure Untouched (limit : Nat) (before after : Memory) : Prop where
  rest : after = { before with blocks := after.blocks, nextStack := after.nextStack }
  grown : before.nextStack ≤ after.nextStack
  size : ∀ block, Below limit block → after.blocks.size block = before.blocks.size block
  cells : ∀ block, Below limit block → after.blocks.cells block = before.blocks.cells block

theorem Below.mono {limit wider : Nat} (more : limit ≤ wider) {block : Block}
    (below : Below limit block) : Below wider block := by
  cases block with
  | stack slot => exact Nat.lt_of_lt_of_le below more
  | _ => trivial

theorem Untouched.refl (limit : Nat) (memory : Memory) : Untouched limit memory memory :=
  ⟨rfl, Nat.le_refl _, fun _ _ => rfl, fun _ _ => rfl⟩

theorem Untouched.trans {limit later : Nat} {first second third : Memory}
    (front : Untouched limit first second) (back : Untouched later second third)
    (ordered : limit ≤ later) : Untouched limit first third where
  rest := by rw [back.rest, front.rest]
  grown := Nat.le_trans front.grown back.grown
  size block below := (back.size block (below.mono ordered)).trans (front.size block below)
  cells block below := (back.cells block (below.mono ordered)).trans (front.cells block below)

theorem Untouched.range {limit : Nat} {before after : Memory}
    (untouched : Untouched limit before after) {block : Block} (below : Below limit block)
    (start count : Nat) :
    after.blocks.range block start count = before.blocks.range block start count := by
  unfold BlockMemory.range
  rw [untouched.cells block below]

theorem untouched_pushSlot (memory : Memory) (size : Nat) :
    Untouched memory.nextStack memory (pushSlot memory size) where
  rest := rfl
  grown := Nat.le_succ _
  size := by
    intro block below
    refine if_neg ?_
    rintro rfl
    exact Nat.lt_irrefl _ below
  cells := by
    intro block below
    funext index
    refine if_neg ?_
    rintro rfl
    exact Nat.lt_irrefl _ below

private theorem releaseSlots_blocks (memory : Memory) (slots : List Nat) (block : Block) :
    (releaseSlots memory slots).blocks.cells block = memory.blocks.cells block ∧
      ((∀ slot ∈ slots, block ≠ .stack slot) →
        (releaseSlots memory slots).blocks.size block = memory.blocks.size block) := by
  unfold releaseSlots
  dsimp only
  induction slots generalizing memory with
  | nil => exact ⟨rfl, fun _ => rfl⟩
  | cons slot rest ih =>
      obtain ⟨cells, size⟩ := ih { memory with blocks := memory.blocks.release (.stack slot) }
      refine ⟨cells, fun apart => ?_⟩
      rw [List.foldl_cons, size fun other member => apart other (List.mem_cons_of_mem _ member)]
      exact if_neg (apart slot List.mem_cons_self)

theorem untouched_releaseSlots {limit : Nat} (memory : Memory) {slots : List Nat}
    (above : ∀ slot ∈ slots, limit ≤ slot) :
    Untouched limit memory (releaseSlots memory slots) where
  rest := rfl
  grown := Nat.le_refl _
  size := by
    intro block below
    apply (releaseSlots_blocks memory slots block).2
    rintro slot member rfl
    exact Nat.lt_irrefl _ (Nat.lt_of_lt_of_le below (above slot member))
  cells block _ := (releaseSlots_blocks memory slots block).1

def Variable.type : Variable → LType
  | .int _ => .i64
  | .array cells => .array .i64 cells.length

def Variable.cells : Variable → List (Option Word)
  | .int value => [value]
  | .array cells => cells

private theorem sizeOf_variable (module : Module) (content : Variable) :
    sizeOf module content.type = 8 * content.cells.length := by
  cases content with
  | int value => rfl
  | array cells => rfl

structure Holds (memory : Memory) (slot : Nat) (content : Variable) : Prop where
  size : memory.blocks.size (.stack slot) = 8 * content.cells.length
  written : ∀ index value, content.cells[index]? = some (some value) →
    memory.blocks.range (.stack slot) (8 * index) 8 = encode (.i64 value) 8

theorem Holds.untouched {limit slot : Nat} {before after : Memory} {content : Variable}
    (holds : Holds before slot content) (untouched : Untouched limit before after)
    (below : slot < limit) : Holds after slot content where
  size := (untouched.size (.stack slot) below).trans holds.size
  written index value found :=
    (@Untouched.range _ _ _ untouched (.stack slot) below _ _).trans (holds.written index value found)

private theorem cellBytes_map (bytes : List UInt8) : cellBytes (bytes.map .byte) = some bytes := by
  induction bytes with
  | nil => rfl
  | cons byte rest ih =>
      rw [List.map_cons, cellBytes, ih]
      rfl

theorem decode_encode_word (value : Word) (size : Nat) :
    decode .i64 (encode (.i64 value) size) = .i64 value := by
  have bytes : LittleEndian.decode (LittleEndian.encode 8 value.toNat) = value.toNat := by
    have bytes : (256 : Nat) ^ 8 = 2 ^ 64 := by decide
    rw [LittleEndian.decode_encode, bytes, Nat.mod_eq_of_lt value.isLt]
  simp only [decode, encode, Machine.decodeInt, cellBytes_map, bytes, BitVec.ofNat_toNat,
    BitVec.setWidth_eq]

private theorem encode_word_length (value : Word) (size : Nat) :
    (encode (.i64 value) size).length = 8 := by
  change ((LittleEndian.encode 8 value.toNat).map Cell.byte).length = 8
  rw [List.length_map, LittleEndian.encode_length]

theorem Holds.load {memory : Memory} {slot index : Nat} {content : Variable} {value : Word}
    (holds : Holds memory slot content) (found : content.cells[index]? = some (some value)) :
    loadCells memory (.ptr (.stack slot) ((8 * index : Nat) : Int)) 8 =
      .ok (encode (.i64 value) 8) := by
  have inside : index < content.cells.length := (List.getElem?_eq_some_iff.mp found).1
  have bounds : memory.blocks.InBounds (.stack slot) ((8 * index : Nat) : Int) 8 := by
    unfold BlockMemory.InBounds
    rw [holds.size]
    omega
  have loaded : memory.blocks.load (.stack slot) ((8 * index : Nat) : Int) 8 =
      some (encode (.i64 value) 8) := by
    rw [BlockMemory.load_eq_some_iff]
    exact ⟨bounds, (holds.written index value found).symm⟩
  simp only [loadCells, loaded]

def Variable.write (content : Variable) (index : Nat) (value : Word) : Variable :=
  match content with
  | .int _ => .int (some value)
  | .array cells => .array (cells.set index (some value))

theorem Variable.write_type (content : Variable) (index : Nat) (value : Word) :
    (content.write index value).type = content.type := by
  cases content with
  | int _ => rfl
  | array cells => simp [Variable.write, Variable.type]

private theorem Variable.write_cells (content : Variable) {index : Nat} (value : Word)
    (inside : index < content.cells.length) :
    (content.write index value).cells = content.cells.set index (some value) := by
  cases content with
  | int old =>
      have first : index = 0 := by
        change index < 1 at inside
        omega
      rw [first]
      rfl
  | array cells => rfl

theorem Holds.store {memory : Memory} {slot index : Nat} {content : Variable}
    (holds : Holds memory slot content) (value : Word) (size : Nat)
    (inside : index < content.cells.length) :
    ∃ memory', storeCells module memory (.ptr (.stack slot) ((8 * index : Nat) : Int))
        (encode (.i64 value) size) = .ok memory' ∧
      Holds memory' slot (content.write index value) ∧
      memory'.nextStack = memory.nextStack ∧
      memory' = { memory with blocks := memory'.blocks } ∧
      ∀ block, block ≠ .stack slot → memory'.blocks.size block = memory.blocks.size block ∧
        memory'.blocks.cells block = memory.blocks.cells block := by
  have length := encode_word_length value size
  have bounds : memory.blocks.InBounds (.stack slot) ((8 * index : Nat) : Int)
      (encode (.i64 value) size).length := by
    unfold BlockMemory.InBounds
    rw [holds.size, length]
    omega
  have stored := BlockMemory.store_eq_some_iff.mpr ⟨bounds, rfl⟩
  rw [Int.toNat_natCast] at stored
  refine ⟨{ memory with
    blocks := memory.blocks.put (.stack slot) (8 * index) (encode (.i64 value) size) },
    ?_, ⟨?_, ?_⟩, rfl, rfl, ?_⟩
  · simp only [storeCells, readOnly, stored, if_neg Bool.false_ne_true]
  · rw [Variable.write_cells content value inside, List.length_set]
    exact holds.size
  · intro other written found
    rw [Variable.write_cells content value inside, List.getElem?_set] at found
    by_cases same : index = other
    · subst same
      rw [if_pos rfl, if_pos inside] at found
      cases found
      have whole := memory.blocks.range_put_same (.stack slot) (8 * index)
        (encode (.i64 value) size)
      rwa [length] at whole
    · rw [if_neg same] at found
      rw [← holds.written other written found]
      apply BlockMemory.range_put_disjoint
      rw [length]
      omega
  · intro block other
    refine ⟨rfl, ?_⟩
    funext start
    exact BlockMemory.put_cells_outside _ (.inl other)

def IsSlot (module : Module) (id : Nat) : Prop :=
  ∃ entry, module.code[id]? = some entry ∧ entry.instr.isAlloca = true

structure SameFrame (module : Module) (limit : Nat) (before after : Frame) : Prop where
  block : after.block = before.block
  args : after.args = before.args
  slots : after.slots = before.slots
  dst : after.dst = before.dst
  regs : ∀ id, id < limit ∨ IsSlot module id → after.regs id = before.regs id

theorem SameFrame.refl (limit : Nat) (frame : Frame) : SameFrame module limit frame frame :=
  ⟨rfl, rfl, rfl, rfl, fun _ _ => rfl⟩

theorem SameFrame.trans {limit later : Nat} {first second third : Frame}
    (front : SameFrame module limit first second) (back : SameFrame module later second third)
    (ordered : limit ≤ later) : SameFrame module limit first third where
  block := back.block.trans front.block
  args := back.args.trans front.args
  slots := back.slots.trans front.slots
  dst := back.dst.trans front.dst
  regs id kept := (back.regs id 
    (kept.imp (fun below => Nat.lt_of_lt_of_le below ordered) fun isSlot => isSlot)).trans
      (front.regs id kept)

structure Evaluates (module : Module) (start : Nat) (before after : MachineState) :
    Prop where
  frame : SameFrame module start before.frame after.frame
  callers : after.callers = before.callers
  memory : Untouched before.memory.nextStack before.memory after.memory

theorem Evaluates.refl (start : Nat) (machine : MachineState) :
    Evaluates module start machine machine :=
  ⟨.refl _ _, rfl, .refl _ _⟩

theorem Evaluates.trans {start later : Nat} {first second third : MachineState}
    (front : Evaluates module start first second) (back : Evaluates module later second third)
    (ordered : start ≤ later) : Evaluates module start first third where
  frame := front.frame.trans back.frame ordered
  callers := back.callers.trans front.callers
  memory := front.memory.trans back.memory front.memory.grown

/-- Where the variables of a function are: the register of each declaration. -/
structure Homes (module : Module) (homes : Scope Value) : Prop where
  slot : ∀ name value, homes name = some value →
    ∃ type id, value = { type := .ptr type, operand := .reg id } ∧ IsSlot module id
  injective : ∀ name other value value', homes name = some value →
    homes other = some value' → value.operand = value'.operand → name = other

/-- The machine has the values of the variables, in slots allocated since the
base. -/
structure Stored (homes : Scope Value) (base : Nat) (env : Env) (slots : String → Nat)
    (frame : Frame) (memory : Memory) : Prop where
  home : ∀ name content, env name = some content →
    ∃ id, homes name = some { type := .ptr content.type, operand := .reg id } ∧
      frame.regs id = .ptr (.stack (slots name)) 0
  allocated : ∀ name content, env name = some content →
    base ≤ slots name ∧ slots name < memory.nextStack
  content : ∀ name content, env name = some content → Holds memory (slots name) content
  apart : ∀ name other content content', env name = some content →
    env other = some content' → slots name = slots other → name = other

section

variable {homes : Scope Value} {base limit : Nat} {env : Env} {slots : String → Nat}
  {frame frame' : Frame} {memory memory' : Memory}

theorem stored_empty (homes : Scope Value) (base : Nat) (slots : String → Nat) (frame : Frame)
    (memory : Memory) : Stored homes base .empty slots frame memory where
  home name content found := by cases found
  allocated name content found := by cases found
  content name content found := by cases found
  apart name other content content' found := by cases found

theorem Stored.evaluates {start : Nat} {before after : MachineState}
    (isHomes : Homes module homes)
    (stored : Stored homes base env slots before.frame before.memory)
    (evaluates : Evaluates module start before after) :
    Stored homes base env slots after.frame after.memory where
  home := by
    intro name content found
    obtain ⟨id, isHome, address⟩ := stored.home name content found
    obtain ⟨type, id', same, isSlot⟩ := isHomes.slot name _ isHome
    cases same
    exact ⟨id, isHome, (evaluates.frame.regs id (.inr isSlot)).trans address⟩
  allocated := by
    intro name content found
    obtain ⟨above, below⟩ := stored.allocated name content found
    exact ⟨above, Nat.lt_of_lt_of_le below evaluates.memory.grown⟩
  content name content found := (stored.content name content found).untouched evaluates.memory
    (stored.allocated name content found).2
  apart := stored.apart

theorem Stored.change {other : Frame} (stored : Stored homes base env slots frame memory)
    (regs : other.regs = frame.regs) : Stored homes base env slots other memory where
  home := by rw [regs]; exact stored.home
  allocated := stored.allocated
  content := stored.content
  apart := stored.apart

theorem Stored.write (stored : Stored homes base env slots frame memory) {name : String}
    {content written : Variable} (found : env name = some content)
    (sameType : written.type = content.type)
    (holds : Holds memory' (slots name) written)
    (sameStack : memory'.nextStack = memory.nextStack)
    (others : ∀ block, block ≠ .stack (slots name) →
      memory'.blocks.size block = memory.blocks.size block ∧
        memory'.blocks.cells block = memory.blocks.cells block) :
    Stored homes base (env.set name written) slots frame memory' := by
  have old {other : String} {content' : Variable} (different : other ≠ name)
      (isSet : (env.set name written) other = some content') : env other = some content' := by
    rwa [Scope.set_of_ne _ _ different] at isSet
  have bound {other : String} {content' : Variable}
      (isSet : (env.set name written) other = some content') : ∃ before, env other = some before := by
    by_cases same : other = name
    · exact ⟨content, same ▸ found⟩
    · exact ⟨content', old same isSet⟩
  constructor
  · intro other content' isSet
    by_cases same : other = name
    · subst same
      rw [Scope.set_self] at isSet
      cases isSet
      rw [sameType]
      exact stored.home other content found
    · exact stored.home other content' (old same isSet)
  · intro other content' isSet
    obtain ⟨before, isBound⟩ := bound isSet
    rw [sameStack]
    exact stored.allocated other before isBound
  · intro other content' isSet
    by_cases same : other = name
    · subst same
      rw [Scope.set_self] at isSet
      cases isSet
      exact holds
    · have before := old same isSet
      have kept := stored.content other content' before
      have different : Block.stack (slots other) ≠ .stack (slots name) := by
        intro equal
        exact same (stored.apart other name _ _ before found (Block.stack.inj equal))
      obtain ⟨size, cells⟩ := others _ different
      refine ⟨size.trans kept.size, fun index value at_ => ?_⟩
      unfold BlockMemory.range
      rw [cells]
      exact kept.written index value at_
  · intro other third content' content'' isSet isSet' equal
    obtain ⟨before, isBound⟩ := bound isSet
    obtain ⟨before', isBound'⟩ := bound isSet'
    exact stored.apart other third _ _ isBound isBound' equal

theorem Stored.declare (stored : Stored homes base env slots frame memory)
    (isHomes : Homes module homes) (above : base ≤ memory.nextStack) {name : String} {id : Nat}
    {fresh : Variable}
    (isHome : homes name = some { type := .ptr fresh.type, operand := .reg id })
    (nothing : ∀ (index : Nat) (value : Word), fresh.cells[index]? ≠ some (some value)) :
    Stored homes base (env.set name fresh)
      (fun other => if other = name then memory.nextStack else slots other)
      (frame.assign id (.ptr (.stack memory.nextStack) 0))
      (pushSlot memory (sizeOf module fresh.type)) := by
  have old {other : String} {content : Variable} (different : other ≠ name)
      (isSet : (env.set name fresh) other = some content) : env other = some content := by
    rwa [Scope.set_of_ne _ _ different] at isSet
  constructor
  · intro other content isSet
    by_cases same : other = name
    · subst same
      rw [Scope.set_self] at isSet
      cases isSet
      exact ⟨id, isHome, by rw [if_pos rfl]; exact if_pos rfl⟩
    · obtain ⟨id', isHome', address⟩ := stored.home other content (old same isSet)
      refine ⟨id', isHome', ?_⟩
      have different : id' ≠ id := by
        rintro rfl
        exact same (isHomes.injective other name _ _ isHome' isHome rfl)
      rw [if_neg same, ← address]
      exact if_neg different
  · intro other content isSet
    by_cases same : other = name
    · rw [if_pos same]
      exact ⟨above, Nat.lt_succ_self _⟩
    · rw [if_neg same]
      obtain ⟨low, high⟩ := stored.allocated other content (old same isSet)
      exact ⟨low, Nat.lt_succ_of_lt high⟩
  · intro other content isSet
    by_cases same : other = name
    · subst same
      rw [Scope.set_self] at isSet
      cases isSet
      rw [if_pos rfl]
      refine ⟨?_, fun index value found => absurd found (nothing index value)⟩
      rw [← sizeOf_variable module]
      exact if_pos rfl
    · rw [if_neg same]
      have before := old same isSet
      exact (stored.content other content before).untouched (untouched_pushSlot memory _)
        (stored.allocated other content before).2
  · intro other third content content' isSet isSet' equal
    by_cases same : other = name
    · by_cases same' : third = name
      · rw [same, same']
      · rw [if_pos same, if_neg same'] at equal
        have below := (stored.allocated third content' (old same' isSet')).2
        omega
    · rw [if_neg same] at equal
      have before := old same isSet
      by_cases same' : third = name
      · rw [if_pos same'] at equal
        have below := (stored.allocated other content before).2
        omega
      · rw [if_neg same'] at equal
        exact stored.apart other third _ _ before (old same' isSet') equal

end

end Lambpie.Integers

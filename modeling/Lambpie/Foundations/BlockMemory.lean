/-
Memory made of blocks.

A block has a size and a cell at every index; an access is a range of one
block and fails unless the range lies inside it.  A size of zero stands for a
block that does not exist.
-/
import Mathlib.Algebra.Order.Ring.Int
import Mathlib.Data.List.Basic

namespace Foundations

universe u v

structure BlockMemory (β : Type u) (γ : Type v) where
  size : β → Nat
  cells : β → Nat → γ

namespace BlockMemory

variable {β : Type u} {γ : Type v}

def InBounds (memory : BlockMemory β γ) (block : β) (start : Int)
    (count : Nat) : Prop :=
  0 ≤ start ∧ start + count ≤ memory.size block

instance (memory : BlockMemory β γ) (block : β) (start : Int) (count : Nat) :
    Decidable (memory.InBounds block start count) :=
  inferInstanceAs (Decidable (_ ∧ _))

/-- The cells of a range, whether or not it lies inside the block. -/
def range (memory : BlockMemory β γ) (block : β) (start count : Nat) : List γ :=
  (List.range count).map fun index => memory.cells block (start + index)

def load (memory : BlockMemory β γ) (block : β) (start : Int) (count : Nat) :
    Option (List γ) :=
  if memory.InBounds block start count then
    some (memory.range block start.toNat count)
  else none

@[simp] theorem range_length (memory : BlockMemory β γ) (block : β)
    (start count : Nat) : (memory.range block start count).length = count := by
  simp [range]

theorem load_eq_some_iff {memory : BlockMemory β γ} {block : β}
    {start : Int} {count : Nat} {content : List γ} :
    memory.load block start count = some content ↔
      memory.InBounds block start count ∧
        content = memory.range block start.toNat count := by
  unfold load
  by_cases inside : memory.InBounds block start count
  · simp [inside, eq_comm]
  · simp [inside]

variable [DecidableEq β]

def put (memory : BlockMemory β γ) (block : β) (start : Nat)
    (content : List γ) : BlockMemory β γ where
  size := memory.size
  cells := fun other index =>
    if other = block ∧ start ≤ index then
      (content[index - start]?).getD (memory.cells other index)
    else memory.cells other index

def store (memory : BlockMemory β γ) (block : β) (start : Int)
    (content : List γ) : Option (BlockMemory β γ) :=
  if memory.InBounds block start content.length then
    some (memory.put block start.toNat content)
  else none

def allocate (memory : BlockMemory β γ) (block : β) (size : Nat) (fill : Nat → γ) :
    BlockMemory β γ where
  size := fun other => if other = block then size else memory.size other
  cells := fun other index =>
    if other = block then fill index else memory.cells other index

def release (memory : BlockMemory β γ) (block : β) : BlockMemory β γ where
  size := fun other => if other = block then 0 else memory.size other
  cells := memory.cells

@[simp] theorem put_size (memory : BlockMemory β γ) (block : β) (start : Nat)
    (content : List γ) : (memory.put block start content).size = memory.size :=
  rfl

private theorem put_cells_inside (memory : BlockMemory β γ) (block : β) (start : Nat)
    {content : List γ} {index : Nat} (inside : index < content.length) :
    (memory.put block start content).cells block (start + index) =
      content[index] := by
  simp [put, inside]

theorem put_cells_outside (memory : BlockMemory β γ) {block other : β}
    {start index : Nat} {content : List γ}
    (outside : other ≠ block ∨ index < start ∨ start + content.length ≤ index) :
    (memory.put block start content).cells other index =
      memory.cells other index := by
  unfold put
  by_cases inside : other = block ∧ start ≤ index
  · have beyond : content.length ≤ index - start := by
      obtain elsewhere | before | after := outside
      · exact absurd inside.1 elsewhere
      · omega
      · omega
    simp [inside, beyond]
  · simp [inside]

theorem range_put_same (memory : BlockMemory β γ) (block : β) (start : Nat)
    (content : List γ) :
    (memory.put block start content).range block start content.length =
      content := by
  apply List.ext_getElem
  · simp
  · intro index inRange inContent
    simp only [range, List.getElem_map, List.getElem_range]
    exact memory.put_cells_inside block start inContent

theorem range_put_disjoint (memory : BlockMemory β γ) {block other : β}
    {start from_ count : Nat} {content : List γ}
    (disjoint : other ≠ block ∨ from_ + count ≤ start ∨
      start + content.length ≤ from_) :
    (memory.put block start content).range other from_ count =
      memory.range other from_ count := by
  apply List.map_congr_left
  intro index member
  have small := List.mem_range.mp member
  apply memory.put_cells_outside
  obtain elsewhere | before | after := disjoint
  · exact .inl elsewhere
  · exact .inr (.inl (by omega))
  · exact .inr (.inr (by omega))

theorem store_eq_some_iff {memory memory' : BlockMemory β γ} {block : β}
    {start : Int} {content : List γ} :
    memory.store block start content = some memory' ↔
      memory.InBounds block start content.length ∧
        memory' = memory.put block start.toNat content := by
  unfold store
  by_cases inside : memory.InBounds block start content.length
  · simp [inside, eq_comm]
  · simp [inside]

end BlockMemory

end Foundations

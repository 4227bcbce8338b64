/-
Bump allocation over natural-number addresses.

A pool hands out consecutive extents below a fixed limit and can be emptied as
a whole.  The development is about the extents that are still live: they lie
between the base and the cursor and no address belongs to two of them.
-/
import Mathlib

namespace Foundations

structure Extent where
  start : Nat
  length : Nat

def Extent.addresses (extent : Extent) : Set Nat :=
  Set.Ico extent.start (extent.start + extent.length)

def Extent.Apart (left right : Extent) : Prop :=
  Disjoint left.addresses right.addresses

private theorem Extent.apart_comm {left right : Extent} :
    left.Apart right ↔ right.Apart left :=
  disjoint_comm

private theorem Extent.apart_of_before {left right : Extent}
    (before : left.start + left.length ≤ right.start) : left.Apart right := by
  unfold Extent.Apart Extent.addresses
  rw [Set.disjoint_left]
  intro address inLeft inRight
  have upper := inLeft.2
  have lower := inRight.1
  omega

/-- A pool cannot be built with its cursor outside its own bounds. -/
structure BumpPool where
  base : Nat
  cursor : Nat
  limit : Nat
  base_le_cursor : base ≤ cursor
  cursor_le_limit : cursor ≤ limit

namespace BumpPool

def fresh (base capacity : Nat) : BumpPool :=
  { base := base
    cursor := base
    limit := base + capacity
    base_le_cursor := Nat.le_refl base
    cursor_le_limit := Nat.le_add_right base capacity }

def take (pool : BumpPool) (amount : Nat)
    (room : pool.cursor + amount ≤ pool.limit) : BumpPool :=
  { pool with
    cursor := pool.cursor + amount
    base_le_cursor := Nat.le_trans pool.base_le_cursor (Nat.le_add_right _ _)
    cursor_le_limit := room }

def clear (pool : BumpPool) : BumpPool :=
  { pool with
    cursor := pool.base
    base_le_cursor := Nat.le_refl _
    cursor_le_limit :=
      Nat.le_trans pool.base_le_cursor pool.cursor_le_limit }

/-- Everything handed out lies below the cursor, at multiples of `grain` from
the base, and no two live extents share an address. -/
structure Owns (pool : BumpPool) (grain : Nat) (live : List Extent) : Prop where
  inside : ∀ extent ∈ live,
    pool.base ≤ extent.start ∧ extent.start + extent.length ≤ pool.cursor
  aligned : ∀ extent ∈ live, grain ∣ extent.start - pool.base
  cursorAligned : grain ∣ pool.cursor - pool.base
  apart : live.Pairwise Extent.Apart

theorem owns_fresh (base capacity grain : Nat) :
    (fresh base capacity).Owns grain [] := by
  refine ⟨?_, ?_, ?_, List.Pairwise.nil⟩
  · intro extent member
    cases member
  · intro extent member
    cases member
  · simp [fresh]

/-- Taking a multiple of the grain and handing out any part of it from the old
cursor on keeps the pool's ownership. -/
theorem Owns.take {pool : BumpPool} {grain : Nat} {live : List Extent}
    (owns : pool.Owns grain live) {amount length : Nat}
    (room : pool.cursor + amount ≤ pool.limit)
    (whole : grain ∣ amount) (part : length ≤ amount) :
    (pool.take amount room).Owns grain (⟨pool.cursor, length⟩ :: live) := by
  have ordered := pool.base_le_cursor
  refine ⟨?_, ?_, ?_, ?_⟩
  · intro extent member
    rcases List.mem_cons.mp member with rfl | older
    · exact ⟨ordered, Nat.add_le_add_left part _⟩
    · have bounds := owns.inside extent older
      exact ⟨bounds.1, Nat.le_trans bounds.2 (Nat.le_add_right _ _)⟩
  · intro extent member
    rcases List.mem_cons.mp member with rfl | older
    · exact owns.cursorAligned
    · exact owns.aligned extent older
  · have split : pool.cursor + amount - pool.base =
        (pool.cursor - pool.base) + amount := by
      omega
    change grain ∣ pool.cursor + amount - pool.base
    rw [split]
    exact Nat.dvd_add owns.cursorAligned whole
  · refine List.pairwise_cons.mpr ⟨?_, owns.apart⟩
    intro extent older
    rw [Extent.apart_comm]
    exact Extent.apart_of_before (owns.inside extent older).2

theorem owns_clear (pool : BumpPool) (grain : Nat) :
    pool.clear.Owns grain [] := by
  refine ⟨?_, ?_, ?_, List.Pairwise.nil⟩
  · intro extent member
    cases member
  · intro extent member
    cases member
  · simp [clear]

/-- Two pools with separated address ranges never hand out a common address. -/
theorem Owns.apart_of_separated {left right : BumpPool} {grain grain' : Nat}
    {live live' : List Extent}
    (owns : left.Owns grain live) (owns' : right.Owns grain' live')
    (separated : left.limit ≤ right.base ∨ right.limit ≤ left.base)
    {extent extent' : Extent} (member : extent ∈ live)
    (member' : extent' ∈ live') : extent.Apart extent' := by
  have bounds := owns.inside extent member
  have bounds' := owns'.inside extent' member'
  have capped := left.cursor_le_limit
  have capped' := right.cursor_le_limit
  rcases separated with leftFirst | rightFirst
  · exact Extent.apart_of_before (by omega)
  · rw [Extent.apart_comm]
    exact Extent.apart_of_before (by omega)

end BumpPool

end Foundations

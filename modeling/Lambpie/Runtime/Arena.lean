/-
The dual arenas of the C runtime.

`arena.c` keeps two bump arenas over anonymous mappings.  Addresses and sizes
are 64-bit words, so the rounding of a request and the exhaustion check are
both computed modulo 2^64, exactly as the C text computes them.
-/
import Mathlib.Data.Nat.Bitwise
import Lambpie.Foundations.Outcome

namespace Lambpie.Runtime

open Foundations

/-- `char *` and `size_t` of the x86-64 target. -/
abbrev Word := BitVec 64

structure Arena where
  base : Word
  cursor : Word
  limit : Word
deriving DecidableEq, Repr

def arenaStatic : BitVec 32 := 0

/-- `mapped` is what `mmap` returned, `none` standing for `MAP_FAILED`. -/
def arenaInit (mapped : Option Word) (capacity : Word) : Outcome Arena :=
  match mapped with
  | none => .exit 1 "arena_init: mmap failed\n"
  | some base =>
      .ok { base := base, cursor := base, limit := base + capacity }

/-- `(size + 7) & ~7`, with the wrap of `size_t` addition. -/
def alignUp (size : Word) : Word := (size + 7) &&& ~~~7

def arenaAlloc (a : Arena) (size : Word) : Outcome (Arena × Word) :=
  let size := alignUp size
  if a.cursor + size > a.limit then
    let requested := size.toNat
    let available := (a.limit - a.cursor).toInt
    .exit 1 s!"arena_alloc: arena exhausted (requested {requested} bytes, {available} available)\n"
  else
    .ok ({ a with cursor := a.cursor + size }, a.cursor)

def arenaReset (a : Arena) : Arena := { a with cursor := a.base }

structure Arenas where
  staticArena : Arena
  reqArena : Arena
deriving DecidableEq, Repr

def lambpieArenaAlloc (arenas : Arenas) (tag : BitVec 32) (size : Word) :
    Outcome (Arenas × Word) :=
  if tag = arenaStatic then do
    let (arena, ptr) ← arenaAlloc arenas.staticArena size
    pure ({ arenas with staticArena := arena }, ptr)
  else do
    let (arena, ptr) ← arenaAlloc arenas.reqArena size
    pure ({ arenas with reqArena := arena }, ptr)

def roundUp8 (size : Nat) : Nat := (size + 7) / 8 * 8

theorem le_roundUp8 (size : Nat) : size ≤ roundUp8 size := by
  unfold roundUp8
  omega

theorem eight_dvd_roundUp8 (size : Nat) : 8 ∣ roundUp8 size :=
  Nat.dvd_mul_left 8 _

private theorem mask_eq_shift (word : Word) :
    word &&& ~~~7#64 = (word >>> 3) <<< 3 := by
  ext index inRange
  simp only [BitVec.getElem_and, BitVec.getElem_not,
    BitVec.getElem_shiftLeft]
  by_cases low : index < 3
  · have cases3 : index = 0 ∨ index = 1 ∨ index = 2 := by
      omega
    rcases cases3 with rfl | rfl | rfl <;> simp
  · have clear : (7#64)[index] = false := by
      rw [← BitVec.getLsbD_eq_getElem]
      simp only [BitVec.getLsbD_ofNat, Bool.and_eq_false_imp,
        decide_eq_true_eq]
      intro _inRange
      apply Nat.testBit_lt_two_pow
      exact Nat.lt_of_lt_of_le (by decide : 7 < 2 ^ 3)
        (Nat.pow_le_pow_right (by decide) (by omega))
    simp only [low, clear, decide_false, Bool.not_false, Bool.and_true,
      Bool.true_and]
    rw [BitVec.getElem_ushiftRight, ← BitVec.getLsbD_eq_getElem]
    congr 1
    omega

theorem mask_toNat (word : Word) :
    (word &&& ~~~7).toNat = word.toNat / 8 * 8 := by
  have bound := word.isLt
  change (word &&& ~~~7#64).toNat = word.toNat / 8 * 8
  rw [mask_eq_shift, BitVec.toNat_shiftLeft, BitVec.toNat_ushiftRight,
    Nat.shiftRight_eq_div_pow, Nat.shiftLeft_eq]
  rw [Nat.mod_eq_of_lt (by omega)]

theorem alignUp_toNat (size : Word) (noWrap : size.toNat + 7 < 2 ^ 64) :
    (alignUp size).toNat = roundUp8 size.toNat := by
  unfold alignUp roundUp8
  rw [mask_toNat, BitVec.toNat_add]
  rw [Nat.mod_eq_of_lt (by simpa using noWrap)]
  rfl

/-- A returning allocation hands out the old cursor and moves only the cursor. -/
theorem arenaAlloc_ok_iff (a a' : Arena) (size ptr : Word) :
    arenaAlloc a size = .ok (a', ptr) ↔
      a.cursor + alignUp size ≤ a.limit ∧ ptr = a.cursor ∧
        a' = { a with cursor := a.cursor + alignUp size } := by
  unfold arenaAlloc
  by_cases exhausted : a.cursor + alignUp size > a.limit
  · simp only [exhausted, if_true]
    constructor
    · intro impossible
      cases impossible
    · intro returned
      exact absurd returned.1 (by simpa using exhausted)
  · simp only [exhausted, if_false, Outcome.ok.injEq, Prod.mk.injEq]
    constructor
    · rintro ⟨rfl, rfl⟩
      exact ⟨by simpa using exhausted, rfl, rfl⟩
    · rintro ⟨_, rfl, rfl⟩
      exact ⟨rfl, rfl⟩

/-- The tag selects the arena; the other arena is untouched. -/
theorem lambpieArenaAlloc_ok_iff (arenas arenas' : Arenas)
    (tag : BitVec 32) (size ptr : Word) :
    lambpieArenaAlloc arenas tag size = .ok (arenas', ptr) ↔
      (tag = arenaStatic ∧ ∃ arena,
        arenaAlloc arenas.staticArena size = .ok (arena, ptr) ∧
          arenas' = { arenas with staticArena := arena }) ∨
      (tag ≠ arenaStatic ∧ ∃ arena,
        arenaAlloc arenas.reqArena size = .ok (arena, ptr) ∧
          arenas' = { arenas with reqArena := arena }) := by
  unfold lambpieArenaAlloc
  by_cases isStatic : tag = arenaStatic
  · rw [if_pos isStatic, Outcome.bind_eq_ok_iff]
    constructor
    · rintro ⟨⟨arena, ptr'⟩, allocated, returned⟩
      cases returned
      exact Or.inl ⟨isStatic, arena, allocated, rfl⟩
    · rintro (⟨_, arena, allocated, rfl⟩ | ⟨impossible, _⟩)
      · exact ⟨(arena, ptr), allocated, rfl⟩
      · exact absurd isStatic impossible
  · rw [if_neg isStatic, Outcome.bind_eq_ok_iff]
    constructor
    · rintro ⟨⟨arena, ptr'⟩, allocated, returned⟩
      cases returned
      exact Or.inr ⟨isStatic, arena, allocated, rfl⟩
    · rintro (⟨impossible, _⟩ | ⟨_, arena, allocated, rfl⟩)
      · exact absurd impossible isStatic
      · exact ⟨(arena, ptr), allocated, rfl⟩

end Lambpie.Runtime

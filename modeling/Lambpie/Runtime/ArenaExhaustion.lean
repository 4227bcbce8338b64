/-
The exhaustion check of `arena_alloc` over the whole 64-bit range.

Both the rounding of the request and the sum that is compared with the limit
are computed modulo 2^64.  The check decides the request exactly as long as the
old cursor and the rounded request add up below 2^64; past that point the sum
has wrapped below the limit and the request is granted.
-/
import Lambpie.Runtime.ArenaHistory

namespace Lambpie.Runtime

open Foundations

/-- `arena_alloc` together with the arena it leaves in memory, on the way out
through `exit` as well. -/
def arenaAllocIn (a : Arena) (size : Word) : Arena × Outcome Word :=
  let size := alignUp size
  if a.cursor + size > a.limit then
    let requested := size.toNat
    let available := (a.limit - a.cursor).toInt
    (a, .exit 1 s!"arena_alloc: arena exhausted (requested {requested} bytes, {available} available)\n")
  else
    ({ a with cursor := a.cursor + size }, .ok a.cursor)

theorem arenaAlloc_eq_in (a : Arena) (size : Word) :
    arenaAlloc a size =
      (fun ptr => ((arenaAllocIn a size).1, ptr)) <$>
        (arenaAllocIn a size).2 := by
  unfold arenaAlloc arenaAllocIn
  by_cases exhausted : a.cursor + alignUp size > a.limit
  · simp only [exhausted, if_true]
    rfl
  · simp only [exhausted, if_false]
    rfl

private theorem alignUp_wrapped (size : Word) (wraps : 2 ^ 64 ≤ size.toNat + 7) :
    (alignUp size).toNat = 0 := by
  have bound := size.isLt
  unfold alignUp
  rw [mask_toNat, BitVec.toNat_add]
  change (size.toNat + 7) % 2 ^ 64 / 8 * 8 = 0
  omega

/-- The sum of the check is the integer sum, less 2^64 once it has wrapped. -/
theorem cursor_add_alignUp_toNat (a : Arena) (size : Word) :
    (a.cursor + alignUp size).toNat =
      (a.cursor.toNat + roundUp8 size.toNat) % 2 ^ 64 := by
  have sizeBound := size.isLt
  rw [BitVec.toNat_add]
  by_cases fits : size.toNat + 7 < 2 ^ 64
  · rw [alignUp_toNat size fits]
  · have wrapped := alignUp_wrapped size (by omega)
    have rounded : roundUp8 size.toNat = 2 ^ 64 := by
      unfold roundUp8
      omega
    rw [wrapped, rounded, Nat.add_mod_right, Nat.add_zero]

/-- The rounded request, as an integer, is at most the room that is left. -/
def Arena.Fits (a : Arena) (size : Word) : Prop :=
  roundUp8 size.toNat ≤ a.limit.toNat - a.cursor.toNat

instance (a : Arena) (size : Word) : Decidable (a.Fits size) :=
  inferInstanceAs (Decidable (_ ≤ _))

/-- The block lies in the room that was left, or is empty, and the cursor does
not move back. -/
structure Arena.Grants (a after : Arena) (size ptr : Word) : Prop where
  inside : size = 0 ∨
    a.cursor.toNat ≤ ptr.toNat ∧ ptr.toNat + size.toNat ≤ a.limit.toNat
  forward : a.cursor.toNat ≤ after.cursor.toNat

/-- A request is granted exactly when it fits, and an ungranted one aborts with
the arena as it was. -/
structure Arena.DecidesExactly (a : Arena) (size : Word) : Prop where
  granted_iff : (∃ ptr, (arenaAllocIn a size).2 = .ok ptr) ↔ a.Fits size
  grants : ∀ ptr, (arenaAllocIn a size).2 = .ok ptr →
    a.Grants (arenaAllocIn a size).1 size ptr
  aborts : (∀ ptr, (arenaAllocIn a size).2 ≠ .ok ptr) →
    (arenaAllocIn a size).1 = a ∧
      ∃ status message, (arenaAllocIn a size).2 = .exit status message

private theorem arenaAllocIn_granted (a : Arena) (size : Word)
    (room : (a.cursor.toNat + roundUp8 size.toNat) % 2 ^ 64 ≤ a.limit.toNat) :
    arenaAllocIn a size =
      ({ a with cursor := a.cursor + alignUp size }, .ok a.cursor) := by
  have notOver : ¬ a.cursor + alignUp size > a.limit := by
    change ¬ a.limit < a.cursor + alignUp size
    rw [BitVec.lt_def, cursor_add_alignUp_toNat]
    omega
  unfold arenaAllocIn
  simp only [notOver, if_false]

private theorem arenaAllocIn_aborted (a : Arena) (size : Word)
    (exceeds : a.limit.toNat < (a.cursor.toNat + roundUp8 size.toNat) % 2 ^ 64) :
    ∃ message, arenaAllocIn a size = (a, .exit 1 message) := by
  have isOver : a.cursor + alignUp size > a.limit := by
    change a.limit < a.cursor + alignUp size
    rw [BitVec.lt_def, cursor_add_alignUp_toNat]
    exact exceeds
  unfold arenaAllocIn
  simp only [isOver, if_true]
  exact ⟨_, rfl⟩

private theorem Arena.decidesExactly_of_noWrap (a : Arena) (size : Word)
    (ordered : a.cursor ≤ a.limit)
    (noWrap : a.cursor.toNat + roundUp8 size.toNat < 2 ^ 64) :
    a.DecidesExactly size := by
  have sumEq := Nat.mod_eq_of_lt noWrap
  have cursorLe : a.cursor.toNat ≤ a.limit.toNat := ordered
  by_cases fits : a.Fits size
  · have room : a.cursor.toNat + roundUp8 size.toNat ≤ a.limit.toNat := by
      unfold Arena.Fits at fits
      omega
    have granted := arenaAllocIn_granted a size (by rw [sumEq]; exact room)
    have sizeLe := le_roundUp8 size.toNat
    constructor
    · exact ⟨fun _ => fits, fun _ => ⟨a.cursor, by rw [granted]⟩⟩
    · intro ptr returned
      rw [granted] at returned ⊢
      cases returned
      constructor
      · exact Or.inr ⟨Nat.le_refl _, by omega⟩
      · change a.cursor.toNat ≤ (a.cursor + alignUp size).toNat
        rw [cursor_add_alignUp_toNat, sumEq]
        omega
    · intro refused
      exact absurd (by rw [granted]) (refused a.cursor)
  · have exceeds : a.limit.toNat <
        a.cursor.toNat + roundUp8 size.toNat := by
      unfold Arena.Fits at fits
      omega
    obtain ⟨message, aborted⟩ :=
      arenaAllocIn_aborted a size (by rw [sumEq]; exact exceeds)
    constructor
    · constructor
      · intro returned
        obtain ⟨ptr, returned⟩ := returned
        rw [aborted] at returned
        cases returned
      · intro impossible
        exact absurd impossible fits
    · intro ptr returned
      rw [aborted] at returned
      cases returned
    · intro _refused
      rw [aborted]
      exact ⟨rfl, 1, message, rfl⟩

/-- A wrapped sum is below the old cursor, so the check lets it pass. -/
theorem Arena.granted_of_wrap (a : Arena) (size : Word)
    (ordered : a.cursor ≤ a.limit)
    (wraps : 2 ^ 64 ≤ a.cursor.toNat + roundUp8 size.toNat) :
    (arenaAllocIn a size).2 = .ok a.cursor ∧ ¬ a.Fits size := by
  have cursorLe : a.cursor.toNat ≤ a.limit.toNat := ordered
  have limitBound := a.limit.isLt
  have roundedBound : roundUp8 size.toNat ≤ 2 ^ 64 := by
    have sizeBound := size.isLt
    unfold roundUp8
    omega
  constructor
  · rw [arenaAllocIn_granted a size (by omega)]
  · unfold Arena.Fits
    omega

/-- The check is exact for a request if and only if the rounded request does
not carry the cursor past the end of the address space. -/
theorem exhaustion_exact_iff (a : Arena) (size : Word)
    (ordered : a.base ≤ a.cursor ∧ a.cursor ≤ a.limit) :
    a.DecidesExactly size ↔
      a.cursor.toNat + roundUp8 size.toNat < 2 ^ 64 := by
  constructor
  · intro exact
    by_contra wraps
    obtain ⟨returned, tooBig⟩ :=
      a.granted_of_wrap size ordered.2 (Nat.le_of_not_lt wraps)
    exact tooBig (exact.granted_iff.mp ⟨a.cursor, returned⟩)
  · intro noWrap
    exact a.decidesExactly_of_noWrap size ordered.2 noWrap

def pageArena : Arena := { base := 4096, cursor := 4104, limit := 8192 }

theorem exhaustion_exact_page :
    pageArena.DecidesExactly 4088 ∧ pageArena.DecidesExactly 4089 :=
  ⟨(exhaustion_exact_iff pageArena 4088 (by decide)).mpr (by decide),
    (exhaustion_exact_iff pageArena 4089 (by decide)).mpr (by decide)⟩

/-- A request for every byte of the address space rounds to zero, and one that
reaches around the end of it moves the cursor back. -/
theorem exhaustion_wraps_page :
    (pageArena.base ≤ pageArena.cursor ∧ pageArena.cursor ≤ pageArena.limit ∧
      8 ∣ pageArena.cursor.toNat) ∧
    ¬ pageArena.DecidesExactly (-1) ∧ ¬ pageArena.DecidesExactly (-4096) := by
  refine ⟨by decide, ?_, ?_⟩
  · intro exact
    have fits := exact.granted_iff.mp ⟨4104, by decide⟩
    exact absurd fits (by decide)
  · intro exact
    have fits := exact.granted_iff.mp ⟨4104, by decide⟩
    exact absurd fits (by decide)

end Lambpie.Runtime

/-
Decimal numerals as lists of digits, most significant first.

The numeral of a number is the reversal of Mathlib's digit list.  Reading a
numeral accumulates from the left, so reading undoes writing.
-/
import Mathlib.Data.Nat.Digits.Lemmas

namespace Foundations.Decimal

/-- The digits of a number, most significant first; zero has none. -/
def digits (n : Nat) : List Nat := (Nat.digits 10 n).reverse

def value (ds : List Nat) : Nat := ds.foldl (fun acc d => acc * 10 + d) 0

private theorem foldl_reverse_eq_ofDigits (ds : List Nat) :
    ds.reverse.foldl (fun acc d => acc * 10 + d) 0 = Nat.ofDigits 10 ds := by
  induction ds with
  | nil => rfl
  | cons d rest ih =>
      rw [List.reverse_cons, List.foldl_append, ih, Nat.ofDigits_cons]
      simp only [List.foldl_cons, List.foldl_nil]
      omega

theorem value_digits (n : Nat) : value (digits n) = n := by
  unfold value digits
  rw [foldl_reverse_eq_ofDigits, Nat.ofDigits_digits]

theorem digits_lt {n d : Nat} (member : d ∈ digits n) : d < 10 :=
  Nat.digits_lt_base (by decide) (List.mem_reverse.mp member)

theorem digits_ne_nil {n : Nat} (positive : 0 < n) : digits n ≠ [] := by
  unfold digits
  rw [ne_eq, List.reverse_eq_nil_iff]
  exact Nat.digits_ne_nil_iff_ne_zero.mpr (by omega)

theorem head_digits_ne_zero {n : Nat} (nonempty : digits n ≠ []) :
    (digits n).head nonempty ≠ 0 := by
  unfold digits at nonempty ⊢
  have nonzero : n ≠ 0 := by
    rintro rfl
    exact nonempty (by simp)
  rw [List.head_reverse]
  exact Nat.getLast_digit_ne_zero 10 nonzero

/-- Digits that do not start with a zero are the numeral of their value. -/
theorem digits_value {ds : List Nat} (small : ∀ d ∈ ds, d < 10)
    (headed : ∀ d ∈ ds.head?, d ≠ 0) : digits (value ds) = ds := by
  have reversed : value ds = Nat.ofDigits 10 ds.reverse := by
    rw [← foldl_reverse_eq_ofDigits, List.reverse_reverse]
    rfl
  unfold digits
  rw [reversed, Nat.digits_ofDigits 10 (by decide), List.reverse_reverse]
  · intro d member
    exact small d (List.mem_reverse.mp member)
  · intro nonempty
    rw [List.getLast_reverse]
    exact headed _ (List.head_mem_head? _)

theorem length_digits_le {n k : Nat} (bound : n < 10 ^ k) :
    (Nat.digits 10 n).length ≤ k :=
  (Nat.digits_length_le_iff (by decide) n).mpr bound

end Foundations.Decimal

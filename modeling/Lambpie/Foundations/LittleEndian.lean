/-
Numbers as bytes, least significant first.
-/
import Mathlib.Algebra.Order.Ring.Int

namespace Foundations.LittleEndian

/-- The lowest `count` bytes of a number. -/
def encode : Nat → Nat → List UInt8
  | 0, _ => []
  | count + 1, number =>
      UInt8.ofNat number :: encode count (number / 256)

def decode : List UInt8 → Nat
  | [] => 0
  | byte :: rest => byte.toNat + 256 * decode rest

@[simp] theorem encode_length (count number : Nat) :
    (encode count number).length = count := by
  induction count generalizing number with
  | zero => rfl
  | succ count ih => rw [encode, List.length_cons, ih]

theorem decode_encode (count number : Nat) :
    decode (encode count number) = number % 256 ^ count := by
  induction count generalizing number with
  | zero =>
      rw [encode, decode, Nat.pow_zero, Nat.mod_one]
  | succ count ih =>
      have low : (UInt8.ofNat number).toNat = number % 256 := by simp
      rw [encode, decode, ih, low, Nat.pow_succ, Nat.mul_comm (256 ^ count),
        Nat.mod_mul]

end Foundations.LittleEndian

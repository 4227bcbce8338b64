/-
The JSON writer against its reference serialiser.

The numeral the writer leaves for an integer is the canonical one, and a whole
object leaves its reference text at the start of the buffer and nothing
elsewhere.
-/
import Lambpie.Runtime.JsonRoundTrip

namespace Lambpie.Runtime

open Foundations

/-- A minus sign for the negatives only, then the magnitude in decimal digits,
with no leading zero unless it is zero. -/
def CanonicalDecimal (value : Int) (text : Bytes) : Prop :=
  ∃ digits, text = (if value < 0 then [minusChar] else []) ++ digits ∧
    digits ≠ [] ∧ (∀ c ∈ digits, isDigit c) ∧
    (digits.head? = some zeroChar → digits = [zeroChar]) ∧
    Decimal.value (digits.map digitValue) = value.natAbs

private theorem decimalText_ne_nil {n : Nat} (positive : 0 < n) :
    decimalText n ≠ [] := by
  unfold decimalText
  rw [ne_eq, List.map_eq_nil_iff]
  exact Decimal.digits_ne_nil positive

private theorem value_decimalText (n : Nat) :
    Decimal.value ((decimalText n).map digitValue) = n := by
  have same : (decimalText n).map digitValue = Decimal.digits n := by
    unfold decimalText
    rw [List.map_map]
    calc (Decimal.digits n).map (digitValue ∘ digitChar)
        = (Decimal.digits n).map id := List.map_congr_left
          fun d member => digitValue_digitChar (Decimal.digits_lt member)
      _ = Decimal.digits n := List.map_id _
  rw [same, Decimal.value_digits]

private theorem head_decimalText {n : Nat} (positive : 0 < n) :
    (decimalText n).head? ≠ some zeroChar := by
  have nonempty := Decimal.digits_ne_nil positive
  have leads := Decimal.head_digits_ne_zero nonempty
  have small := Decimal.digits_lt (List.head_mem nonempty)
  intro zero
  unfold decimalText at zero
  rw [List.head?_map, List.head?_eq_some_head nonempty, Option.map_some,
    Option.some.injEq] at zero
  have value := digitValue_digitChar small
  rw [zero] at value
  exact leads value.symm

private theorem decimalText_canonical {n : Nat} (positive : 0 < n) :
    decimalText n ≠ [] ∧ (∀ c ∈ decimalText n, isDigit c) ∧
      ((decimalText n).head? = some zeroChar → decimalText n = [zeroChar]) ∧
      Decimal.value ((decimalText n).map digitValue) = n :=
  ⟨decimalText_ne_nil positive, fun _ member => decimalText_isDigit member,
    fun zero => absurd zero (head_decimalText positive), value_decimalText n⟩

private theorem intText_canonical (value : Int64T) :
    CanonicalDecimal value.toInt (intText value) := by
  unfold intText
  by_cases zero : value.toInt = 0
  · rw [if_pos zero, zero]
    exact ⟨[zeroChar], rfl, by decide, List.forall_mem_singleton.mpr (by decide),
      fun _ => rfl, by decide⟩
  · have positive : 0 < value.toInt.natAbs := Int.natAbs_pos.mpr zero
    rw [if_neg zero]
    by_cases negative : value.toInt < 0
    · rw [if_pos negative]
      refine ⟨decimalText value.toInt.natAbs, ?_, decimalText_canonical positive⟩
      rw [if_pos negative]
      rfl
    · rw [if_neg negative]
      refine ⟨decimalText value.toInt.natAbs, ?_, decimalText_canonical positive⟩
      rw [if_neg negative]
      rfl

private theorem digitLoop_fits (uval : BitVec 64) :
    ∃ tmp, digitLoop (tmpSize + 1) uval [] = .ok tmp ∧
      tmp.length ≤ tmpSize := by
  have bound : uval.toNat < 10 ^ 20 :=
    Nat.lt_trans uval.isLt (by decide)
  refine ⟨_, digitLoop_eq (tmpSize + 1) uval [] 20 bound (by decide)
    (by decide), ?_⟩
  rw [List.nil_append, List.length_map]
  exact Decimal.length_digits_le bound

/-- For every list of fields and every buffer with room for their text, the
writer returns the length of the text, leaves the text at the start of the
buffer and every other byte as it was.  Every integer in the text is the
canonical decimal of its value, and its digits fit the digit buffer. -/
theorem writer_serialises (fields : List JsonField) (buf : Bytes)
    (room : (objectText fields).length ≤ buf.length) :
    (∃ w, writeObject buf fields = .ok w ∧
      w.pos = (objectText fields).length ∧
      w.buf.take w.pos = objectText fields ∧
      w.buf.length = buf.length ∧
      ∀ i, w.pos ≤ i → w.buf[i]? = buf[i]?) ∧
    (∀ value : Int64T, CanonicalDecimal value.toInt (intText value)) ∧
    ∀ uval : BitVec 64, ∃ tmp,
      digitLoop (tmpSize + 1) uval [] = .ok tmp ∧ tmp.length ≤ tmpSize := by
  refine ⟨?_, intText_canonical, digitLoop_fits⟩
  refine ⟨written buf (objectText fields), ?_, rfl, ?_,
    written_buf_length room, ?_⟩
  · rw [writeObject_eq, writeText, if_pos room]
  · exact List.take_left
  · intro i outside
    have outside : (objectText fields).length ≤ i := outside
    change (objectText fields ++ buf.drop (objectText fields).length)[i]? = _
    rw [List.getElem?_append_right outside, List.getElem?_drop]
    congr 1
    omega

/-- `{"a":-10,"b":"x"}` in a buffer of twenty bytes. -/
theorem writer_serialises_two :
    let fields : List JsonField :=
      [⟨[0x61], .int (-10)⟩, ⟨[0x62], .str [0x78]⟩]
    ∃ w, writeObject (List.replicate 20 0) fields = .ok w ∧ w.pos = 17 ∧
      w.buf.take 17 = [0x7B, 0x22, 0x61, 0x22, 0x3A, 0x2D, 0x31, 0x30, 0x2C,
        0x22, 0x62, 0x22, 0x3A, 0x22, 0x78, 0x22, 0x7D] ∧
      w.buf[17]? = some 0 := by
  intro fields
  have text : objectText fields = [0x7B, 0x22, 0x61, 0x22, 0x3A, 0x2D, 0x31,
      0x30, 0x2C, 0x22, 0x62, 0x22, 0x3A, 0x22, 0x78, 0x22, 0x7D] := by
    simp [fields, objectText, membersText, JsonField.text, JsonField.keyText,
      FieldValue.text, intText, decimalText, Decimal.digits]
    decide
  obtain ⟨⟨w, ran, pos, content, -, frame⟩, -⟩ :=
    writer_serialises fields (List.replicate 20 0) (by rw [text]; decide)
  rw [text] at pos content
  have pos : w.pos = 17 := pos
  rw [pos] at content frame
  exact ⟨w, ran, pos, content, frame 17 (Nat.le_refl _)⟩

end Lambpie.Runtime

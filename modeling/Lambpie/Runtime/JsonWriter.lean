/-
The JSON writer against its reference text.

`writeText` is the state of the output buffer after a given text has been
written from position zero, or `fault` when the text is longer than the
buffer.  Every writer function extends that text, so a whole object is written
exactly when its reference text fits.
-/
import Lambpie.Foundations.Decimal
import Lambpie.Runtime.Json

namespace Lambpie.Runtime

open Foundations

def digitChar (d : Nat) : UInt8 := zeroChar + UInt8.ofNat d

def decimalText (n : Nat) : Bytes := (Decimal.digits n).map digitChar

/-- The canonical decimal numeral of a signed 64-bit value. -/
def intText (v : Int64T) : Bytes :=
  if v.toInt = 0 then [zeroChar]
  else if v.toInt < 0 then minusChar :: decimalText v.toInt.natAbs
  else decimalText v.toInt.natAbs

inductive FieldValue where
  | str (bytes : Bytes)
  | int (value : Int64T)
deriving DecidableEq, Repr

structure JsonField where
  name : Bytes
  value : FieldValue
deriving DecidableEq, Repr

def FieldValue.text : FieldValue → Bytes
  | .str bytes => quoteChar :: (bytes ++ [quoteChar])
  | .int value => intText value

def JsonField.keyText (name : Bytes) : Bytes :=
  quoteChar :: (name ++ [quoteChar, colonChar])

def JsonField.text (field : JsonField) : Bytes :=
  JsonField.keyText field.name ++ field.value.text

def membersText : List JsonField → Bytes
  | [] => []
  | [field] => field.text
  | field :: rest => field.text ++ commaChar :: membersText rest

def objectText (fields : List JsonField) : Bytes :=
  openBrace :: (membersText fields ++ [closeBrace])

def writeField (w : Writer) (field : JsonField) : Outcome Writer :=
  match field.value with
  | .str bytes => jsonWriteStr w field.name bytes
  | .int value => jsonWriteInt w field.name value

def writeFields (w : Writer) : List JsonField → Outcome Writer
  | [] => .ok w
  | field :: rest => do
      let w ← writeField w field
      writeFields w rest

/-- `json_open` at position zero, one writer call per field in layout order,
and `json_close`. -/
def writeObject (buf : Bytes) (fields : List JsonField) : Outcome Writer := do
  let w ← jsonOpen { buf := buf, pos := 0 }
  let w ← writeFields w fields
  jsonClose w

def written (initial text : Bytes) : Writer :=
  { buf := text ++ initial.drop text.length, pos := text.length }

def writeText (initial text : Bytes) : Outcome Writer :=
  if text.length ≤ initial.length then .ok (written initial text)
  else .fault

private theorem writeText_nil (initial : Bytes) :
    writeText initial [] = .ok { buf := initial, pos := 0 } := by
  simp [writeText, written]

theorem written_buf_length {initial text : Bytes}
    (fits : text.length ≤ initial.length) :
    (written initial text).buf.length = initial.length := by
  simp only [written, List.length_append, List.length_drop]
  omega

private theorem writeText_put (initial text : Bytes) (c : UInt8) :
    (writeText initial text >>= fun w => w.put c) =
      writeText initial (text ++ [c]) := by
  by_cases fits : text.length < initial.length
  · have fitsNow : text.length ≤ initial.length := Nat.le_of_lt fits
    have fitsNext : (text ++ [c]).length ≤ initial.length := by
      simpa using fits
    rw [writeText, if_pos fitsNow, writeText, if_pos fitsNext,
      Outcome.ok_bind, Writer.put, written_buf_length fitsNow]
    have step : (written initial text).buf.set text.length c =
        (written initial (text ++ [c])).buf := by
      simp only [written, List.length_append, List.length_singleton]
      rw [List.set_append_right _ _ (Nat.le_refl _), Nat.sub_self,
        List.append_assoc]
      rw [List.drop_eq_getElem_cons fits]
      rfl
    rw [if_pos (by simpa [written] using fits)]
    simp only [Outcome.ok.injEq]
    change Writer.mk ((written initial text).buf.set text.length c) _ = _
    rw [step]
    simp [written]
  · have tooLong : ¬(text ++ [c]).length ≤ initial.length := by
      simpa using fits
    rw [writeText, writeText, if_neg tooLong]
    by_cases fitsNow : text.length ≤ initial.length
    · rw [if_pos fitsNow, Outcome.ok_bind, Writer.put,
        written_buf_length fitsNow, if_neg (by simpa [written] using fits)]
    · rw [if_neg fitsNow, Outcome.fault_bind]

theorem writeText_copy (initial text src : Bytes) :
    (writeText initial text >>= fun w => w.copy src) =
      writeText initial (text ++ src) := by
  by_cases fits : text.length + src.length ≤ initial.length
  · have fitsNow : text.length ≤ initial.length := by omega
    have fitsNext : (text ++ src).length ≤ initial.length := by
      simpa using fits
    rw [writeText, if_pos fitsNow, writeText, if_pos fitsNext,
      Outcome.ok_bind, Writer.copy, written_buf_length fitsNow,
      if_pos (by simpa [written] using fits)]
    simp [written, List.append_assoc, List.drop_append, List.drop_drop]
  · have tooLong : ¬(text ++ src).length ≤ initial.length := by
      simpa using fits
    rw [writeText, writeText, if_neg tooLong]
    by_cases fitsNow : text.length ≤ initial.length
    · rw [if_pos fitsNow, Outcome.ok_bind, Writer.copy,
        written_buf_length fitsNow, if_neg (by simpa [written] using fits)]
    · rw [if_neg fitsNow, Outcome.fault_bind]

def separator (text : Bytes) : Bytes :=
  if text.length > 1 then [commaChar] else []

private theorem writeText_comma (initial text : Bytes) :
    (writeText initial text >>= writeComma) =
      writeText initial (text ++ separator text) := by
  by_cases fits : text.length ≤ initial.length
  · rw [writeText, if_pos fits, Outcome.ok_bind]
    by_cases later : text.length > 1
    · have asPut := writeText_put initial text commaChar
      rw [writeText, if_pos fits, Outcome.ok_bind] at asPut
      have posGt : (written initial text).pos > 1 := later
      rw [writeComma, if_pos posGt, asPut, separator, if_pos later]
    · have posLe : ¬(written initial text).pos > 1 := later
      rw [separator, if_neg later, List.append_nil, writeComma,
        if_neg posLe, writeText, if_pos fits]
  · have tooLong : ¬(text ++ separator text).length ≤ initial.length := by
      rw [List.length_append]
      omega
    rw [writeText, if_neg fits, Outcome.fault_bind, writeText,
      if_neg tooLong]

private theorem writeText_key (initial text key : Bytes) :
    (writeText initial text >>= fun w => writeKey w key) =
      writeText initial (text ++ separator text ++ JsonField.keyText key) := by
  unfold writeKey
  rw [← bind_assoc, writeText_comma, ← bind_assoc, writeText_put, ← bind_assoc,
    writeText_copy, ← bind_assoc, writeText_put, writeText_put]
  simp [JsonField.keyText, List.append_assoc]

theorem writeText_str (initial text key val : Bytes) :
    (writeText initial text >>= fun w => jsonWriteStr w key val) =
      writeText initial
        (text ++ separator text ++ JsonField.text ⟨key, .str val⟩) := by
  unfold jsonWriteStr
  rw [← bind_assoc, writeText_key, ← bind_assoc, writeText_put, ← bind_assoc,
    writeText_copy, writeText_put]
  simp [JsonField.text, FieldValue.text, List.append_assoc]

theorem digitLoop_eq (fuel : Nat) (uval : BitVec 64) (tmp : Bytes) (room : Nat)
    (bound : uval.toNat < 10 ^ room) (fits : tmp.length + room ≤ tmpSize)
    (enough : room < fuel) :
    digitLoop fuel uval tmp =
      .ok (tmp ++ (Nat.digits 10 uval.toNat).map digitChar) := by
  induction fuel generalizing uval tmp room with
  | zero => omega
  | succ fuel ih =>
      unfold digitLoop
      by_cases positive : uval > 0
      · have positiveNat : 0 < uval.toNat := by
          simpa [BitVec.lt_def] using positive
        cases room with
        | zero => omega
        | succ room =>
            have quotient : (uval / 10).toNat = uval.toNat / 10 := by
              simp [BitVec.toNat_udiv]
            have remainder : (uval % 10).toNat = uval.toNat % 10 := by
              simp [BitVec.toNat_umod]
            rw [if_pos positive, if_pos (by omega)]
            rw [ih (uval / 10) _ room (by rw [quotient]; omega)
              (by rw [List.length_append, List.length_singleton]; omega)
              (by omega)]
            rw [Nat.digits_def' (by decide) positiveNat, quotient, remainder]
            simp [digitChar]
      · have zero : uval.toNat = 0 := by
          have notLt : ¬0 < uval.toNat := by
            simpa [BitVec.lt_def] using positive
          omega
        rw [if_neg positive, zero]
        simp

private theorem reverseLoop_eq (initial text tmp : Bytes) (count : Nat)
    (inRange : count ≤ tmp.length) :
    (writeText initial text >>= fun w => reverseLoop tmp count w) =
      writeText initial (text ++ (tmp.take count).reverse) := by
  induction count generalizing text with
  | zero =>
      simp only [reverseLoop, List.take_zero, List.reverse_nil,
        List.append_nil]
      exact bind_pure _
  | succ count ih =>
      have here : charAt tmp count = .ok tmp[count] := by
        simp [charAt, List.getElem?_eq_getElem (show count < tmp.length by omega)]
      simp only [reverseLoop, here, Outcome.ok_bind]
      rw [← bind_assoc, writeText_put, ih _ (by omega)]
      rw [List.take_succ_eq_append_getElem (by omega : count < tmp.length),
        List.reverse_append, List.append_assoc]
      rfl

private theorem writeText_digits (initial text : Bytes) (uval : BitVec 64) :
    (writeText initial text >>= fun w => writeDigits w uval) =
      writeText initial (text ++ decimalText uval.toNat) := by
  have bound : uval.toNat < 10 ^ 20 :=
    Nat.lt_trans uval.isLt (by decide)
  have loop := digitLoop_eq (tmpSize + 1) uval [] 20 bound (by decide)
    (by decide)
  unfold writeDigits
  simp only [loop, Outcome.ok_bind]
  rw [reverseLoop_eq _ _ _ _ (Nat.le_refl _), List.take_length]
  simp [decimalText, Decimal.digits, List.map_reverse]

/-- The magnitude the negative branch works with is the absolute value, also
for the value that has no positive counterpart. -/
theorem negated_toNat (val : Int64T) (negative : val.toInt < 0) :
    (if val = int64Min then int64Max + 1 else -val).toNat =
      val.toInt.natAbs := by
  by_cases least : val = int64Min
  · subst least
    rfl
  · rw [if_neg least]
    have bound := val.isLt
    rw [BitVec.toInt_eq_toNat_cond] at negative ⊢
    rw [BitVec.toNat_neg]
    split at negative
    · omega
    · rename_i upper
      rw [if_neg upper]
      have valNe : val.toNat ≠ 0 := by omega
      rw [Nat.mod_eq_of_lt (by omega)]
      omega

/-- The bytes that `json_write_int` writes after the colon. -/
def writeNumber (val : Int64T) (w : Writer) : Outcome Writer :=
  if val = 0 then w.put zeroChar
  else if val.slt 0 then do
    let w ← w.put minusChar
    let uval := if val = int64Min then int64Max + 1 else -val
    writeDigits w uval
  else writeDigits w val

theorem jsonWriteInt_eq (w : Writer) (key : Bytes) (val : Int64T) :
    jsonWriteInt w key val = writeKey w key >>= writeNumber val := rfl

theorem writeText_number (initial text : Bytes) (val : Int64T) :
    (writeText initial text >>= writeNumber val) =
      writeText initial (text ++ intText val) := by
  unfold writeNumber intText
  by_cases zero : val = 0
  · subst zero
    simp only [if_true, BitVec.toInt_ofNat]
    rw [writeText_put]
    rfl
  · have toIntNe : val.toInt ≠ 0 := by
      intro equal
      exact zero (BitVec.eq_of_toInt_eq (by simpa using equal))
    simp only [zero, if_false, toIntNe]
    by_cases negative : val.toInt < 0
    · have sltTrue : val.slt 0 = true := by
        simpa [BitVec.slt] using negative
      simp only [sltTrue, if_true, negative]
      rw [← bind_assoc, writeText_put, writeText_digits,
        negated_toNat val negative]
      simp [List.append_assoc]
    · have sltFalse : val.slt 0 = false := by
        simpa [BitVec.slt] using negative
      have magnitude : val.toNat = val.toInt.natAbs := by
        rw [BitVec.toInt_eq_toNat_cond] at negative ⊢
        have bound := val.isLt
        split at negative
        · rename_i lower
          rw [if_pos lower]
          rfl
        · omega
      simp only [sltFalse, negative, if_false, Bool.false_eq_true]
      rw [writeText_digits, magnitude]

private theorem writeText_int (initial text key : Bytes) (val : Int64T) :
    (writeText initial text >>= fun w => jsonWriteInt w key val) =
      writeText initial
        (text ++ separator text ++ JsonField.text ⟨key, .int val⟩) := by
  simp only [jsonWriteInt_eq]
  rw [← bind_assoc, writeText_key, writeText_number, List.append_assoc]
  rfl

private theorem writeText_field (initial text : Bytes) (field : JsonField) :
    (writeText initial text >>= fun w => writeField w field) =
      writeText initial (text ++ separator text ++ field.text) := by
  obtain ⟨name, value⟩ := field
  cases value with
  | str bytes => exact writeText_str initial text name bytes
  | int value => exact writeText_int initial text name value

theorem JsonField.text_ne_nil (field : JsonField) : field.text ≠ [] := by
  simp [JsonField.text, JsonField.keyText]

private theorem writeText_fields (initial text : Bytes) (fields : List JsonField)
    (opened : text ≠ []) :
    (writeText initial text >>= fun w => writeFields w fields) =
      writeText initial
        (text ++ (match fields with
          | [] => []
          | _ :: _ => separator text ++ membersText fields)) := by
  induction fields generalizing text with
  | nil =>
      simp only [writeFields, List.append_nil]
      exact bind_pure _
  | cons field rest ih =>
      have longer : (text ++ separator text ++ field.text).length > 1 := by
        have first := List.length_pos_iff.mpr opened
        have second := List.length_pos_iff.mpr field.text_ne_nil
        simp only [List.length_append]
        omega
      simp only [writeFields]
      rw [← bind_assoc, writeText_field, ih _ (by simp [opened])]
      cases rest with
      | nil => simp [membersText]
      | cons next others =>
          have comma : separator (text ++ separator text ++ field.text) =
              [commaChar] := if_pos longer
          simp only [membersText, comma]
          simp [List.append_assoc]

/-- Writing an object leaves exactly its reference text at the start of the
buffer and every later byte alone; it faults exactly when the text is longer
than the buffer. -/
theorem writeObject_eq (buf : Bytes) (fields : List JsonField) :
    writeObject buf fields = writeText buf (objectText fields) := by
  have opened : jsonOpen { buf := buf, pos := 0 } =
      writeText buf [openBrace] := by
    have asPut := writeText_put buf [] openBrace
    rw [writeText_nil, Outcome.ok_bind] at asPut
    exact asPut
  unfold writeObject
  rw [opened, ← bind_assoc, writeText_fields _ _ _ (by simp)]
  change (writeText buf _ >>= fun w => w.put closeBrace) = _
  rw [writeText_put]
  cases fields <;> simp [objectText, membersText, separator]

end Lambpie.Runtime

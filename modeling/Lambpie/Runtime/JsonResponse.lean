/-
The written object as an RFC 8259 text.

The writer copies the bytes of a str value between two quotation marks, and of
a key as many bytes as the name has characters.  The text it leaves is read back
by a JSON parser as the same members exactly when no str value needs an escape
and every name is ASCII.
-/
import Lambpie.Foundations.Rfc8259
import Lambpie.Runtime.JsonWriter

namespace Lambpie.Runtime

open Foundations
open Foundations.Rfc8259 (Json Reader utf8 quotationMark isUnescaped utf8_append
  utf8_cons)

/-! ### Response structs as texts -/

inductive TextValue where
  | str (text : List Char)
  | int (value : Int64T)

/-- A response field whose str value is a Unicode text. -/
structure TextField where
  name : List Char
  value : TextValue

def TextValue.encode : TextValue → FieldValue
  | .str text => .str (utf8 text)
  | .int value => .int value

/-- The `key_len` bytes at the key pointer: `len(field_name)`, the characters of
the name, of its UTF-8 bytes. -/
def serializedKey (name : List Char) : Bytes := (utf8 name).take name.length

/-- The field as the serializer hands it to the writer. -/
def TextField.encode (field : TextField) : JsonField :=
  { name := serializedKey field.name, value := field.value.encode }

def TextValue.json : TextValue → Json
  | .str text => .string text
  | .int value => .number value.toInt 0

def TextField.member (field : TextField) : List Char × Json :=
  (field.name, field.value.json)

/-- A character that may stand in an identifier: of ASCII the letters, the
digits and the underscore. -/
def isIdentifierChar (c : Char) : Bool :=
  c.isAlphanum || c = '_' || 0x80 ≤ c.toNat

def isAscii (c : Char) : Bool := c.toNat ≤ 0x7F

/-- The value is written without a character that JSON would escape. -/
def TextValue.Unescaped : TextValue → Prop
  | .str text => text.all isUnescaped
  | .int _ => True

instance (value : TextValue) : Decidable value.Unescaped :=
  match value with
  | .str text => inferInstanceAs (Decidable (text.all isUnescaped = true))
  | .int _ => .isTrue trivial

/-! ### The written characters -/

def decimalChars (n : Nat) : List Char :=
  (Decimal.digits n).map fun d => Char.ofNat (0x30 + d)

def intChars (value : Int64T) : List Char :=
  if value.toInt = 0 then ['0']
  else if value.toInt < 0 then '-' :: decimalChars value.toInt.natAbs
  else decimalChars value.toInt.natAbs

def TextValue.chars : TextValue → List Char
  | .str text => quotationMark :: (text ++ [quotationMark])
  | .int value => intChars value

def TextField.chars (field : TextField) : List Char :=
  quotationMark :: (field.name ++ [quotationMark, ':']) ++ field.value.chars

def memberChars : List TextField → List Char
  | [] => []
  | [field] => field.chars
  | field :: rest => field.chars ++ ',' :: memberChars rest

def objectChars (fields : List TextField) : List Char :=
  '\x7b' :: (memberChars fields ++ ['\x7d'])

theorem utf8_digits (ds : List Nat) (small : ∀ d ∈ ds, d < 10) :
    utf8 (ds.map fun d => Char.ofNat (0x30 + d)) = ds.map digitChar := by
  induction ds with
  | nil => rfl
  | cons d rest ih =>
      rw [List.map_cons, utf8_cons, ih (fun x inside => small x (List.mem_cons_of_mem d inside)),
        List.map_cons]
      have bound : d < 10 := small d List.mem_cons_self
      have encoded : ∀ d < 10,
          String.utf8EncodeChar (Char.ofNat (0x30 + d)) = [digitChar d] := by
        decide
      rw [encoded d bound]
      rfl

private theorem utf8_decimalChars (n : Nat) : utf8 (decimalChars n) = decimalText n :=
  utf8_digits _ fun _ inside => Decimal.digits_lt inside

private theorem utf8_intChars (value : Int64T) : utf8 (intChars value) = intText value := by
  unfold intChars intText
  split
  · rfl
  · split
    · rw [utf8_cons, utf8_decimalChars]
      rfl
    · exact utf8_decimalChars _

def TextField.whole (field : TextField) : JsonField :=
  { name := utf8 field.name, value := field.value.encode }

private theorem utf8_fieldChars (field : TextField) :
    utf8 field.chars = field.whole.text := by
  obtain ⟨name, value⟩ := field
  cases value with
  | str text =>
      simp only [TextField.chars, TextField.whole, TextValue.chars,
        TextValue.encode, JsonField.text, JsonField.keyText, FieldValue.text,
        utf8_append, utf8_cons]
      rfl
  | int value =>
      simp only [TextField.chars, TextField.whole, TextValue.chars,
        TextValue.encode, JsonField.text, JsonField.keyText, FieldValue.text,
        utf8_append, utf8_cons, utf8_intChars]
      rfl

private theorem utf8_memberChars (fields : List TextField) :
    utf8 (memberChars fields) = membersText (fields.map TextField.whole) := by
  fun_induction memberChars fields with
  | case1 => rfl
  | case2 field => exact utf8_fieldChars field
  | case3 field rest more ih =>
      cases rest with
      | nil => exact absurd rfl more
      | cons next others =>
          rw [utf8_append, utf8_cons, utf8_fieldChars, ih]
          rfl

private theorem utf8_objectChars (fields : List TextField) :
    utf8 (objectChars fields) = objectText (fields.map TextField.whole) := by
  rw [objectChars, utf8_cons, utf8_append, utf8_memberChars]
  rfl

/-! ### The written keys -/

private theorem TextField.encode_eq_whole {field : TextField} (ascii : field.name.all isAscii) :
    field.encode = field.whole := by
  have short : (utf8 field.name).length ≤ field.name.length :=
    (Rfc8259.utf8_length_le_iff field.name).mpr ascii
  rw [TextField.encode, serializedKey, List.take_of_length_le short]
  rfl

theorem quoted_key_of_mem {fields : List JsonField} {field : JsonField}
    (member : field ∈ fields) :
    ∃ front back, membersText fields =
      front ++ quoteChar :: (field.name ++ quoteChar :: back) := by
  fun_induction membersText fields with
  | case1 => cases member
  | case2 only =>
      obtain rfl := List.mem_singleton.mp member
      exact ⟨[], _, by simp [JsonField.text, JsonField.keyText]; rfl⟩
  | case3 first rest more ih =>
      rcases List.mem_cons.mp member with rfl | later
      · exact ⟨[], _, by simp [JsonField.text, JsonField.keyText]; rfl⟩
      · obtain ⟨front, back, split⟩ := ih later
        exact ⟨first.text ++ commaChar :: front, back, by rw [split]; simp⟩

private theorem encode_eq_whole_of_written {written fields : List TextField}
    (all : List.Forall₂ (fun (written field : TextField) =>
        utf8 written.name = serializedKey field.name ∧ written.value = field.value)
      written fields) :
    fields.map TextField.encode = written.map TextField.whole := by
  induction all with
  | nil => rfl
  | cons same _ ih =>
      rw [List.map_cons, List.map_cons, ih, TextField.encode, TextField.whole, same.1, same.2]

/-! ### Reading the members back -/

private theorem isUnescaped_of_identifier {c : Char} (plain : isIdentifierChar c) :
    isUnescaped c := by
  by_cases high : 0x80 ≤ c.toNat
  · have quoteNe : c ≠ quotationMark := by
      intro same
      rw [same] at high
      exact absurd high (by decide)
    have escapeNe : c ≠ Rfc8259.escape := by
      intro same
      rw [same] at high
      exact absurd high (by decide)
    simp only [isUnescaped, Bool.and_eq_true, bne_iff_ne, decide_eq_true_eq]
    exact ⟨⟨by omega, quoteNe⟩, escapeNe⟩
  · have ascii : ∀ n < 0x80,
        isIdentifierChar (Char.ofNat n) → isUnescaped (Char.ofNat n) := by
      decide
    have here := ascii c.toNat (by omega)
    rw [Char.ofNat_toNat] at here
    exact here plain

private theorem unescaped_of_written {key name : List Char} (named : name.all isIdentifierChar)
    (written : utf8 key = serializedKey name) : key.all isUnescaped := by
  rw [List.all_eq_true] at named ⊢
  intro c inside
  by_contra escaped
  have ascii : c.toNat ≤ 0x7F := by
    by_contra high
    have plain : isIdentifierChar c = true := by
      simp only [isIdentifierChar, Bool.or_eq_true, decide_eq_true_eq]
      omega
    exact escaped (isUnescaped_of_identifier plain)
  have byte : (UInt8.ofNat c.toNat).toNat = c.toNat := by
    rw [UInt8.toNat_ofNat']
    omega
  have inKey : UInt8.ofNat c.toNat ∈ utf8 key :=
    (Rfc8259.ascii_mem_utf8 (by omega)).mpr ⟨c, inside, byte.symm⟩
  rw [written] at inKey
  obtain ⟨d, inName, same⟩ :=
    (Rfc8259.ascii_mem_utf8 (by omega)).mp (List.mem_of_mem_take inKey)
  rw [byte] at same
  rw [Char.toNat_inj.mp same] at inName
  exact escaped (isUnescaped_of_identifier (named c inName))

/-- The bytes of a whole object come from a text only if those of each key do. -/
theorem exists_written {fields : List TextField} {text : List Char}
    (named : ∀ field ∈ fields, field.name.all isIdentifierChar)
    (encoded : utf8 text = objectText (fields.map TextField.encode)) :
    ∃ written, (∀ field ∈ written, field.name.all isUnescaped) ∧
      List.Forall₂ (fun (written field : TextField) =>
        utf8 written.name = serializedKey field.name ∧ written.value = field.value)
        written fields := by
  have keys (field : TextField) (member : field ∈ fields) :
      ∃ key, utf8 key = serializedKey field.name := by
    have encodes : TextField.encode field ∈ fields.map TextField.encode :=
      List.mem_map_of_mem member
    obtain ⟨front, back, split⟩ := quoted_key_of_mem encodes
    rw [objectText, split] at encoded
    have opened : utf8 text = (openBrace :: front) ++ quoteChar ::
        (serializedKey field.name ++ quoteChar :: (back ++ [closeBrace])) := by
      rw [encoded]
      simp [TextField.encode]
    obtain ⟨-, -, after, -, -, rest⟩ := Rfc8259.utf8_eq_append_ascii (by decide) opened
    obtain ⟨key, -, -, -, isKey, -⟩ := Rfc8259.utf8_eq_append_ascii (by decide) rest
    exact ⟨key, isKey⟩
  clear encoded
  induction fields with
  | nil => exact ⟨[], fun _ member => (List.not_mem_nil member).elim, .nil⟩
  | cons field rest ih =>
      obtain ⟨key, isKey⟩ := keys field List.mem_cons_self
      obtain ⟨written, plain, all⟩ :=
        ih (fun other member => named other (List.mem_cons_of_mem _ member))
          fun other member => keys other (List.mem_cons_of_mem _ member)
      refine ⟨{ field with name := key } :: written, ?_, .cons ⟨isKey, rfl⟩ all⟩
      rw [List.forall_mem_cons]
      exact ⟨unescaped_of_written (named field List.mem_cons_self) isKey, plain⟩

def Ends (rest : List Char) : Prop := ∃ c tail, rest = c :: tail ∧ (c = ',' ∨ c = '\x7d')

private theorem isDigit_ofNat {d : Nat} (small : d < 10) :
    (Char.ofNat (0x30 + d)).isDigit ∧
      Rfc8259.digitValue (Char.ofNat (0x30 + d)) = d := by
  have all : ∀ d < 10, (Char.ofNat (0x30 + d)).isDigit = true ∧
      Rfc8259.digitValue (Char.ofNat (0x30 + d)) = d := by
    decide
  exact all d small

private theorem takeWhile_digits {ds rest : List Char} (digits : ds.all Char.isDigit)
    (ends : Ends rest) :
    (ds ++ rest).takeWhile Char.isDigit = ds ∧
      (ds ++ rest).dropWhile Char.isDigit = rest := by
  obtain ⟨c, tail, rfl, delimiter⟩ := ends
  have stops : ¬c.isDigit = true := by
    rcases delimiter with rfl | rfl <;> decide
  rw [List.all_eq_true] at digits
  rw [List.takeWhile_append_of_pos digits, List.dropWhile_append_of_pos digits,
    List.takeWhile_cons_of_neg stops, List.dropWhile_cons_of_neg stops,
    List.append_nil]
  exact ⟨rfl, rfl⟩

private theorem fraction_ends {rest : List Char} (ends : Ends rest) :
    Rfc8259.fraction rest = some ([], rest) := by
  obtain ⟨c, tail, rfl, rfl | rfl⟩ := ends <;> rfl

private theorem exponent_ends {rest : List Char} (ends : Ends rest) :
    Rfc8259.exponent rest = some (0, rest) := by
  obtain ⟨c, tail, rfl, rfl | rfl⟩ := ends <;> rfl

private theorem decimalChars_digits (n : Nat) : (decimalChars n).all Char.isDigit := by
  rw [List.all_eq_true]
  intro c inside
  obtain ⟨d, digit, rfl⟩ := List.mem_map.mp inside
  exact (isDigit_ofNat (Decimal.digits_lt digit)).1

private theorem decimal_decimalChars (n : Nat) : Rfc8259.decimal (decimalChars n) = n := by
  have values : (decimalChars n).map Rfc8259.digitValue = Decimal.digits n := by
    rw [decimalChars, List.map_map]
    conv => rhs; rw [← List.map_id (Decimal.digits n)]
    refine List.map_congr_left fun d inside => ?_
    exact (isDigit_ofNat (Decimal.digits_lt inside)).2
  rw [Rfc8259.decimal, values, Decimal.value_digits]

private theorem isInt_decimalChars {n : Nat} (positive : 0 < n) :
    Rfc8259.isInt (decimalChars n) := by
  have notNil : Nat.digits 10 n ≠ [] := Nat.digits_ne_nil_iff_ne_zero.mpr (by omega)
  have leading := Nat.getLast_digit_ne_zero 10 (by omega : n ≠ 0)
  have shape : Decimal.digits n ≠ [] := Decimal.digits_ne_nil positive
  have headDigit : (Decimal.digits n).head? =
      some ((Nat.digits 10 n).getLast notNil) := by
    rw [Decimal.digits, List.head?_reverse, List.getLast?_eq_getLast_of_ne_nil notNil]
  have small : (Nat.digits 10 n).getLast notNil < 10 :=
    Nat.digits_lt_base (by decide) (List.getLast_mem notNil)
  have headNe : ∀ d < 10, d ≠ 0 → Char.ofNat (0x30 + d) ≠ '0' := by decide
  have charsNe : decimalChars n ≠ [] := by simpa [decimalChars] using shape
  have headChar : (decimalChars n).head? ≠ some '0' := by
    rw [decimalChars, List.head?_map, headDigit]
    simpa using headNe _ small leading
  simp [Rfc8259.isInt, charsNe, headChar]

private theorem minus_digit {c : Char} (digit : c.isDigit) (rest : List Char) :
    Rfc8259.minus (c :: rest) = (1, c :: rest) := by
  have notMinus : c ≠ '-' := by
    rintro rfl
    exact absurd digit (by decide)
  unfold Rfc8259.minus
  split
  · rename_i same
    exact absurd (List.cons.inj same).1 notMinus
  · rfl

private theorem decimalChars_cons {n : Nat} (positive : 0 < n) :
    ∃ c rest, decimalChars n = c :: rest ∧ c.isDigit := by
  cases chars : decimalChars n with
  | nil =>
      have shape := Decimal.digits_ne_nil positive
      simp [decimalChars] at chars
      exact absurd chars shape
  | cons c rest =>
      have all := decimalChars_digits n
      rw [chars, List.all_cons, Bool.and_eq_true] at all
      exact ⟨c, rest, rfl, all.1⟩

private theorem number_signed {sign : Int} {front rest : List Char} {n : Nat}
    (positive : 0 < n) (ends : Ends rest)
    (signed : Rfc8259.minus (front ++ (decimalChars n ++ rest)) =
      (sign, decimalChars n ++ rest)) :
    Rfc8259.number (front ++ (decimalChars n ++ rest)) =
      some (.number (sign * n) 0, rest) := by
  have split := takeWhile_digits (decimalChars_digits n) ends
  simp only [Rfc8259.number, signed, split.1, split.2,
    isInt_decimalChars positive, if_true, fraction_ends ends, exponent_ends ends,
    List.append_nil, decimal_decimalChars, List.length_nil]
  rfl

private theorem number_intChars (value : Int64T) {rest : List Char} (ends : Ends rest) :
    Rfc8259.number (intChars value ++ rest) =
      some (.number value.toInt 0, rest) := by
  unfold intChars
  split
  · rename_i zero
    rw [zero]
    obtain ⟨c, tail, rfl, rfl | rfl⟩ := ends <;> rfl
  · rename_i nonzero
    have positive : 0 < value.toInt.natAbs := Int.natAbs_pos.mpr nonzero
    split
    · rename_i negative
      have read := @number_signed (-1) ['-'] rest _ positive ends rfl
      rw [List.cons_append]
      rw [List.singleton_append] at read
      rw [read]
      congr 3
      omega
    · rename_i nonnegative
      obtain ⟨c, digits, shape, digit⟩ := decimalChars_cons positive
      have signed : Rfc8259.minus ([] ++ (decimalChars value.toInt.natAbs ++ rest)) =
          (1, decimalChars value.toInt.natAbs ++ rest) := by
        rw [List.nil_append, shape, List.cons_append]
        exact minus_digit digit _
      have read := number_signed positive ends signed
      rw [List.nil_append] at read
      rw [read]
      congr 3
      omega

private theorem intChars_cons (value : Int64T) :
    ∃ c rest, intChars value = c :: rest ∧ (c = '-' ∨ c.isDigit) := by
  unfold intChars
  split
  · exact ⟨'0', [], rfl, Or.inr rfl⟩
  · rename_i nonzero
    split
    · exact ⟨'-', _, rfl, Or.inl rfl⟩
    · obtain ⟨c, rest, shape, digit⟩ :=
        decimalChars_cons (Int.natAbs_pos.mpr nonzero)
      exact ⟨c, rest, shape, Or.inr digit⟩

private theorem value_number (room : Nat) {c : Char} (rest : List Char)
    (leading : c = '-' ∨ c.isDigit) :
    Rfc8259.value (room + 1) (c :: rest) = Rfc8259.number (c :: rest) := by
  have range : c.toNat = 0x2D ∨ (0x30 ≤ c.toNat ∧ c.toNat ≤ 0x39) := by
    rcases leading with rfl | digit
    · exact Or.inl rfl
    · simp only [Char.isDigit, Bool.and_eq_true, decide_eq_true_eq,
        UInt32.le_iff_toNat_le] at digit
      exact Or.inr digit
  have differs (d : Char) (outside : d.toNat ≠ 0x2D ∧
      (d.toNat < 0x30 ∨ 0x39 < d.toNat)) : c ≠ d := by
    rintro rfl
    omega
  have visible : Rfc8259.isWhitespace c = false := by
    simp only [Rfc8259.isWhitespace, Bool.or_eq_false_iff,
      decide_eq_false_iff_not]
    omega
  rw [Rfc8259.value, Rfc8259.skipWhitespace_cons visible]
  simp only [if_neg (differs quotationMark (by decide)),
    if_neg (differs '\x7b' (by decide)), if_neg (differs '[' (by decide))]
  split
  · rename_i same
    exact absurd (List.cons.inj same).1 (differs 'n' (by decide))
  · rename_i same
    exact absurd (List.cons.inj same).1 (differs 't' (by decide))
  · rename_i same
    exact absurd (List.cons.inj same).1 (differs 'f' (by decide))
  · rfl

private theorem value_chars_iff (room : Nat) (value : TextValue) {tail : List Char}
    (ends : Ends tail) (rest : List Char) :
    Rfc8259.value (room + 1) (value.chars ++ tail) = some (value.json, rest) ↔
      value.Unescaped ∧ rest = tail := by
  cases value with
  | str text =>
      have shape : TextValue.chars (.str text) ++ tail =
          quotationMark :: (text ++ quotationMark :: tail) := by
        simp [TextValue.chars]
      rw [shape, Rfc8259.value_string, Option.map_eq_some_iff]
      have reads := Rfc8259.string_eq_iff text tail rest
      constructor
      · rintro ⟨⟨read, after⟩, scanned, same⟩
        simp only [Prod.mk.injEq, TextValue.json, Json.string.injEq] at same
        obtain ⟨rfl, rfl⟩ := same
        exact reads.mp scanned
      · intro plain
        exact ⟨_, reads.mpr plain, rfl⟩
  | int value =>
      obtain ⟨c, digits, shape, leading⟩ := intChars_cons value
      have asNumber : Rfc8259.value (room + 1) (intChars value ++ tail) =
          Rfc8259.number (intChars value ++ tail) := by
        rw [shape, List.cons_append]
        exact value_number room _ leading
      change Rfc8259.value (room + 1) (intChars value ++ tail) = _ ↔ _
      rw [asNumber, number_intChars value ends]
      simp [TextValue.json, TextValue.Unescaped, eq_comm]

private theorem member_chars_iff (room : Nat) (field : TextField) {tail : List Char}
    (ends : Ends tail) (plainName : field.name.all isUnescaped)
    (name rest : List Char) :
    Rfc8259.member (Rfc8259.value (room + 1)) (field.chars ++ tail) =
        some ((name, field.value.json), rest) ↔
      name = field.name ∧ field.value.Unescaped ∧ rest = tail := by
  have shape : field.chars ++ tail = quotationMark ::
      (field.name ++ quotationMark :: (':' :: (field.value.chars ++ tail))) := by
    simp [TextField.chars]
  have nameRead := (Rfc8259.string_eq_iff field.name
    (':' :: (field.value.chars ++ tail)) _).mpr ⟨plainName, rfl⟩
  rw [shape, Rfc8259.member, Rfc8259.skipWhitespace_cons (by decide)]
  simp only [if_true, nameRead]
  rw [Rfc8259.skipWhitespace_cons (by decide)]
  simp only
  rw [← value_chars_iff room field.value ends rest]
  constructor
  · intro ran
    split at ran
    · rename_i read after valueRead
      rw [valueRead]
      simp only [Option.some.injEq, Prod.mk.injEq] at ran
      rw [ran.1.1, ran.1.2, ran.2]
      exact ⟨rfl, rfl⟩
    · cases ran
  · rintro ⟨rfl, valueRead⟩
    rw [valueRead]

theorem Ends.comma (rest : List Char) : Ends (',' :: rest) :=
  ⟨',', rest, rfl, Or.inl rfl⟩

theorem Ends.close (rest : List Char) : Ends ('\x7d' :: rest) :=
  ⟨'\x7d', rest, rfl, Or.inr rfl⟩

/-- The members of the object read back in order exactly when they are those
written and each value is unescaped. -/
theorem sequence_memberChars_iff (depth : Nat) {written fields : List TextField}
    (values : List.Forall₂ (fun written field => written.value = field.value) written fields)
    (room : Nat) (enough : written.length ≤ room) (someField : written ≠ [])
    (named : ∀ field ∈ written, field.name.all isUnescaped)
    (tail rest : List Char) :
    Rfc8259.sequence '\x7d' (Rfc8259.member (Rfc8259.value (depth + 1))) room
        (memberChars written ++ '\x7d' :: tail) =
        some (fields.map TextField.member, rest) ↔
      fields = written ∧ (∀ field ∈ written, field.value.Unescaped) ∧ rest = tail := by
  induction values generalizing room with
  | nil => exact absurd rfl someField
  | @cons field original others originals same values ih =>
      cases room with
      | zero => simp at enough
      | succ room =>
          have here := named field List.mem_cons_self
          have isMember : original.member = (original.name, field.value.json) := by
            rw [TextField.member, same]
          have isField : original.name = field.name ↔ original = field := by
            constructor
            · intro sameName
              obtain ⟨name, value⟩ := original
              cases same
              cases sameName
              rfl
            · rintro rfl
              rfl
          rw [List.map_cons, Rfc8259.sequence_cons_iff (by decide), isMember]
          cases values with
          | nil =>
              have first := member_chars_iff depth field (Ends.close tail) here original.name
              simp only [memberChars, List.map_nil, true_and,
                List.mem_singleton, forall_eq, List.cons.injEq, and_true]
              rw [← isField]
              constructor
              · rintro ⟨after, read, choice⟩
                obtain ⟨sameName, plain, rfl⟩ := (first after).mp read
                rw [Rfc8259.skipWhitespace_cons (by decide)] at choice
                rcases choice with same | ⟨more, same, -⟩
                · exact ⟨sameName, plain, (List.cons.inj same).2.symm⟩
                · exact absurd (List.cons.inj same).1 (by decide)
              · rintro ⟨sameName, plain, rfl⟩
                exact ⟨_, (first _).mpr ⟨sameName, plain, rfl⟩,
                  Or.inl (Rfc8259.skipWhitespace_cons (by decide) _)⟩
          | @cons next nextOriginal more moreOriginals sameNext values =>
              have shape : memberChars (field :: next :: more) ++ '\x7d' :: tail =
                  field.chars ++
                    ',' :: (memberChars (next :: more) ++ '\x7d' :: tail) := by
                simp [memberChars]
              have first := member_chars_iff depth field
                (Ends.comma (memberChars (next :: more) ++ '\x7d' :: tail)) here original.name
              have others := ih room (Nat.le_of_succ_le_succ enough)
                (List.cons_ne_nil next more)
                (fun f inside => named f (List.mem_cons_of_mem field inside))
              rw [shape, List.forall_mem_cons, List.cons_eq_cons, ← isField]
              constructor
              · rintro ⟨after, read, choice⟩
                obtain ⟨sameName, plain, rfl⟩ := (first after).mp read
                rw [Rfc8259.skipWhitespace_cons (by decide)] at choice
                rcases choice with ⟨none, -⟩ | ⟨after, same, found⟩
                · cases none
                · rw [← (List.cons.inj same).2] at found
                  obtain ⟨sameOthers, plainOthers, ended⟩ := others.mp found
                  exact ⟨⟨sameName, sameOthers⟩, ⟨plain, plainOthers⟩, ended⟩
              · rintro ⟨⟨sameName, sameOthers⟩, ⟨plain, plainOthers⟩, ended⟩
                exact ⟨_, (first _).mpr ⟨sameName, plain, rfl⟩,
                  Or.inr ⟨_, Rfc8259.skipWhitespace_cons (by decide) _,
                    others.mpr ⟨sameOthers, plainOthers, ended⟩⟩⟩

private theorem memberChars_length (fields : List TextField) :
    fields.length ≤ (memberChars fields).length := by
  fun_induction memberChars fields with
  | case1 => exact Nat.le_refl _
  | case2 field => simp [TextField.chars]
  | case3 field rest more ih =>
      simp only [List.length_cons, List.length_append]
      omega

/-! ### Whole objects -/

private theorem parse_objectChars_iff {written fields : List TextField}
    (values : List.Forall₂ (fun written field => written.value = field.value) written fields)
    (named : ∀ field ∈ written, field.name.all isUnescaped) :
    Rfc8259.parse (objectChars written) =
        some (.object (fields.map TextField.member)) ↔
      fields = written ∧ ∀ field ∈ written, field.value.Unescaped := by
  cases written with
  | nil =>
      cases values
      simp only [List.not_mem_nil, false_implies, implies_true, and_true, iff_true]
      rfl
  | cons field others =>
      obtain ⟨front, inner⟩ : ∃ front, memberChars (field :: others) =
          quotationMark :: front := by
        cases others <;> exact ⟨_, rfl⟩
      have bound := memberChars_length (field :: others)
      have reads := sequence_memberChars_iff
        ((memberChars (field :: others)).length + 1) values
        ((memberChars (field :: others)).length + 2) (by omega)
        (List.cons_ne_nil _ _) named []
      have asSequence : Rfc8259.enclosed '\x7d'
          (Rfc8259.member
            (Rfc8259.value ((memberChars (field :: others)).length + 1 + 1)))
          ((memberChars (field :: others)).length + 2)
          (memberChars (field :: others) ++ ['\x7d']) =
          Rfc8259.sequence '\x7d'
          (Rfc8259.member
            (Rfc8259.value ((memberChars (field :: others)).length + 1 + 1)))
          ((memberChars (field :: others)).length + 2)
          (memberChars (field :: others) ++ ['\x7d']) := by
        rw [Rfc8259.enclosed, inner, List.cons_append,
          Rfc8259.skipWhitespace_cons (by decide)]
        rfl
      have length : (objectChars (field :: others)).length =
          (memberChars (field :: others)).length + 2 := by
        simp [objectChars]
      rw [Rfc8259.parse, length, objectChars, Rfc8259.value_object, asSequence]
      constructor
      · intro ran
        split at ran
        · rename_i read rest found
          split at ran
          · cases ran
            obtain ⟨⟨members, after⟩, sequenceRead, same⟩ :=
              Option.map_eq_some_iff.mp found
            simp only [Prod.mk.injEq, Json.object.injEq] at same
            rw [same.1] at sequenceRead
            obtain ⟨sameFields, plain, -⟩ := (reads after).mp sequenceRead
            exact ⟨sameFields, plain⟩
          · cases ran
        · cases ran
      · rintro ⟨sameFields, plain⟩
        rw [(reads []).mpr ⟨sameFields, plain, rfl⟩]
        rfl

private theorem utf8_injective {first second : List Char} (same : utf8 first = utf8 second) :
    first = second := by
  have encoded : first.utf8Encode = second.utf8Encode := by
    rw [List.utf8Encode, List.utf8Encode]
    exact congrArg List.toByteArray same
  have decoded := congrArg ByteArray.utf8Decode? encoded
  simpa using decoded

private theorem parseBytes_utf8 (text : List Char) :
    Rfc8259.parseBytes (utf8 text) = Rfc8259.parse text := by
  have encoded : ByteArray.mk (utf8 text).toArray = text.utf8Encode := by
    apply ByteArray.ext
    rw [List.utf8Encode, List.data_toByteArray]
    rfl
  rw [Rfc8259.parseBytes, encoded, List.utf8Decode?_utf8Encode]

private theorem ascii_of_written {field : TextField}
    (written : utf8 field.name = serializedKey field.name) :
    field.name.all isAscii := by
  apply (Rfc8259.utf8_length_le_iff field.name).mp
  rw [written, serializedKey]
  exact List.length_take_le _ _

def lineBreakField : TextField := { name := ['a'], value := .str [Char.ofNat 0x0A] }

/-- The members of `{"id":-7,"text":"hé","note":"ok"}`. -/
def greetingFields : List TextField :=
  [{ name := ['i', 'd'], value := .int (-7) },
    { name := ['t', 'e', 'x', 't'], value := .str ['h', 'é'] },
    { name := ['n', 'o', 't', 'e'], value := .str ['o', 'k'] }]

/-- Of the name `é` one byte is written, which is no UTF-8. -/
example : serializedKey ['é'] = [0xC3] := by decide

end Lambpie.Runtime

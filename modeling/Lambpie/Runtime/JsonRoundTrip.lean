/-
Round trip of the JSON codec over whole objects.

The reader slides the quoted key over the whole object, so a lookup is decided
by every segment between two quotes: member names, string values, and the
punctuation between them.  For identifier names the punctuation never matches;
an earlier string value does exactly when it equals the name looked for.
-/
import Lambpie.Runtime.JsonReader
import Lambpie.Runtime.JsonWriter

namespace Lambpie.Runtime

open Foundations

def isIdentStart (c : UInt8) : Bool :=
  (0x41 ≤ c && c ≤ 0x5A) || (0x61 ≤ c && c ≤ 0x7A) || c = 0x5F

def isIdentChar (c : UInt8) : Bool :=
  isIdentStart c || isDigit c

def IsIdentifier : Bytes → Prop
  | [] => False
  | c :: rest => isIdentStart c = true ∧ ∀ d ∈ rest, isIdentChar d = true

instance : (name : Bytes) → Decidable (IsIdentifier name)
  | [] => inferInstanceAs (Decidable False)
  | _ :: _ => inferInstanceAs (Decidable (_ ∧ _))

structure CodecLayout (fields : List JsonField) : Prop where
  identifiers : ∀ field ∈ fields, IsIdentifier field.name
  distinct : fields.Pairwise (fun left right => left.name ≠ right.name)
  quoteFree : ∀ field ∈ fields, ∀ bytes, field.value = .str bytes →
    quoteChar ∉ bytes

def valueStart (before : List JsonField) (field : JsonField) : Nat :=
  1 + (before.flatMap (fun earlier => earlier.text ++ [commaChar])).length +
    (JsonField.keyText field.name).length

/-- Every member of the object reads back as what was written for it. -/
def RoundTrips (text : Bytes) (fields : List JsonField) : Prop :=
  ∀ before field after, fields = before ++ field :: after →
    match field.value with
    | .str bytes =>
        jsonGetStr text field.name = .ok (some
            { start := valueStart before field + 1, len := bytes.length }) ∧
          Slice.bytes
            { start := valueStart before field + 1, len := bytes.length }
            text = bytes
    | .int value => jsonGetInt text field.name = .ok value

/-- No string value equals the name of a later member. -/
def NoValueShadows (fields : List JsonField) : Prop :=
  fields.Pairwise (fun earlier later => earlier.value ≠ .str later.name)

/-! ### Segments that cannot be a key -/

private theorem IsIdentifier.ne_nil {name : Bytes} (ident : IsIdentifier name) :
    name ≠ [] := by
  rintro rfl
  exact ident

theorem IsIdentifier.not_mem {name : Bytes} (ident : IsIdentifier name)
    {c : UInt8} (outside : isIdentChar c = false) : c ∉ name := by
  cases name with
  | nil => exact List.not_mem_nil
  | cons head rest =>
      intro member
      rcases List.mem_cons.mp member with rfl | later
      · have inside : isIdentChar c = true := by
          simp [isIdentChar, ident.1]
        rw [outside] at inside
        cases inside
      · have inside := ident.2 c later
        rw [outside] at inside
        cases inside

private theorem IsIdentifier.ne_cons {name : Bytes} (ident : IsIdentifier name)
    {c : UInt8} (outside : isIdentChar c = false) (rest : Bytes) :
    c :: rest ≠ name := by
  rintro rfl
  exact ident.not_mem outside List.mem_cons_self

private theorem quote_outside : isIdentChar quoteChar = false := by decide
private theorem colon_outside : isIdentChar colonChar = false := by decide
private theorem comma_outside : isIdentChar commaChar = false := by decide

theorem digitChar_isDigit {d : Nat} (small : d < 10) :
    isDigit (digitChar d) = true := by
  interval_cases d <;> decide

theorem decimalText_isDigit {n : Nat} {c : UInt8}
    (member : c ∈ decimalText n) : isDigit c = true := by
  obtain ⟨d, inDigits, rfl⟩ := List.mem_map.mp member
  exact digitChar_isDigit (Decimal.digits_lt inDigits)

private theorem quote_not_mem_intText (value : Int64T) :
    quoteChar ∉ intText value := by
  have digitsClean : ∀ n, quoteChar ∉ decimalText n := by
    intro n member
    have digit := decimalText_isDigit member
    revert digit
    decide
  unfold intText
  split
  · decide
  · split
    · intro member
      rcases List.mem_cons.mp member with impossible | inDigits
      · revert impossible
        decide
      · exact digitsClean _ inDigits
    · exact digitsClean _

/-! ### Searching past whole members -/

private theorem firstOccurrence_skip_member {name : Bytes} {field : JsonField}
    (rest : Bytes)
    (ident : IsIdentifier name) (nameClean : quoteChar ∉ field.name)
    (valueClean : ∀ bytes, field.value = .str bytes → quoteChar ∉ bytes)
    (otherName : field.name ≠ name) (otherValue : field.value ≠ .str name) :
    firstOccurrence (quotedKey name)
        (field.text ++ commaChar :: quoteChar :: rest) =
      (firstOccurrence (quotedKey name) (quoteChar :: rest)).map
        ((field.text ++ [commaChar]).length + ·) := by
  have keyClean := ident.not_mem quote_outside
  obtain ⟨fieldName, value⟩ := field
  unfold quotedKey
  cases value with
  | str bytes =>
      have bytesClean := valueClean bytes rfl
      have bytesNe : bytes ≠ name := by
        rintro rfl
        exact otherValue rfl
      have shape : JsonField.text ⟨fieldName, .str bytes⟩ ++
          commaChar :: quoteChar :: rest =
          quoteChar :: (fieldName ++ quoteChar :: ([colonChar] ++
            quoteChar :: (bytes ++ quoteChar :: ([commaChar] ++
              quoteChar :: rest)))) := by
        simp [JsonField.text, JsonField.keyText, FieldValue.text]
      rw [shape, firstOccurrence_skip_segment keyClean nameClean otherName,
        firstOccurrence_skip_segment keyClean (by decide)
          (ident.ne_cons colon_outside _),
        firstOccurrence_skip_segment keyClean bytesClean bytesNe,
        firstOccurrence_skip_segment keyClean (by decide)
          (ident.ne_cons comma_outside _)]
      simp only [Option.map_map]
      congr 1
      funext found
      simp [JsonField.text, JsonField.keyText, FieldValue.text]
      omega
  | int value =>
      have middleClean : quoteChar ∉ colonChar :: (intText value ++ [commaChar]) := by
        simp only [List.mem_cons, List.mem_append, List.not_mem_nil, or_false]
        rintro (impossible | inNumber | impossible)
        · revert impossible
          decide
        · exact quote_not_mem_intText value inNumber
        · revert impossible
          decide
      have shape : JsonField.text ⟨fieldName, .int value⟩ ++
          commaChar :: quoteChar :: rest =
          quoteChar :: (fieldName ++ quoteChar ::
            ((colonChar :: (intText value ++ [commaChar])) ++
              quoteChar :: rest)) := by
        simp [JsonField.text, JsonField.keyText, FieldValue.text]
      rw [shape, firstOccurrence_skip_segment keyClean nameClean otherName,
        firstOccurrence_skip_segment keyClean middleClean
          (ident.ne_cons colon_outside _)]
      simp only [Option.map_map]
      congr 1
      funext found
      simp [JsonField.text, JsonField.keyText, FieldValue.text]
      omega

def memberFront (before : List JsonField) : Bytes :=
  openBrace :: before.flatMap (fun field => field.text ++ [commaChar])

def memberTail : List JsonField → Bytes
  | [] => [closeBrace]
  | after => commaChar :: (membersText after ++ [closeBrace])

private theorem membersText_split (before after : List JsonField) (field : JsonField) :
    membersText (before ++ field :: after) ++ [closeBrace] =
      before.flatMap (fun earlier => earlier.text ++ [commaChar]) ++
        (field.text ++ memberTail after) := by
  induction before with
  | nil => cases after <;> simp [membersText, memberTail]
  | cons head rest ih =>
      have step : membersText (head :: (rest ++ field :: after)) =
          head.text ++ commaChar :: membersText (rest ++ field :: after) := by
        cases rest <;> rfl
      rw [List.cons_append, step, List.append_assoc, List.cons_append, ih]
      simp [List.append_assoc]

private theorem objectText_split (before after : List JsonField) (field : JsonField) :
    objectText (before ++ field :: after) =
      memberFront before ++ (field.text ++ memberTail after) := by
  unfold objectText memberFront
  rw [membersText_split, List.cons_append]

private theorem JsonField.text_eq_cons (field : JsonField) :
    field.text =
      quoteChar :: (field.name ++ quoteChar :: colonChar :: field.value.text) := by
  simp [JsonField.text, JsonField.keyText]

private theorem firstOccurrence_skip_front {name rest : Bytes}
    (before : List JsonField) (ident : IsIdentifier name)
    (nameClean : ∀ field ∈ before, quoteChar ∉ field.name)
    (valueClean : ∀ field ∈ before, ∀ bytes, field.value = .str bytes →
      quoteChar ∉ bytes)
    (otherName : ∀ field ∈ before, field.name ≠ name)
    (otherValue : ∀ field ∈ before, field.value ≠ .str name) :
    firstOccurrence (quotedKey name) (memberFront before ++ quoteChar :: rest) =
      (firstOccurrence (quotedKey name) (quoteChar :: rest)).map
        ((memberFront before).length + ·) := by
  have members : firstOccurrence (quotedKey name)
      (before.flatMap (fun field => field.text ++ [commaChar]) ++
        quoteChar :: rest) =
      (firstOccurrence (quotedKey name) (quoteChar :: rest)).map
        ((before.flatMap (fun field => field.text ++ [commaChar])).length +
          ·) := by
    induction before with
    | nil => simp
    | cons head tail ih =>
        have inner := ih
          (fun field member => nameClean field (List.mem_cons_of_mem _ member))
          (fun field member => valueClean field (List.mem_cons_of_mem _ member))
          (fun field member => otherName field (List.mem_cons_of_mem _ member))
          (fun field member => otherValue field (List.mem_cons_of_mem _ member))
        have here (rest' : Bytes) := firstOccurrence_skip_member rest' ident
          (nameClean head List.mem_cons_self)
          (valueClean head List.mem_cons_self)
          (otherName head List.mem_cons_self)
          (otherValue head List.mem_cons_self)
        have startsQuoted : ∃ rest', tail.flatMap
            (fun field => field.text ++ [commaChar]) ++ quoteChar :: rest =
              quoteChar :: rest' := by
          cases tail with
          | nil => exact ⟨rest, rfl⟩
          | cons next others =>
              rw [List.flatMap_cons, JsonField.text_eq_cons]
              exact ⟨_, rfl⟩
        obtain ⟨rest', startEq⟩ := startsQuoted
        rw [List.flatMap_cons, List.append_assoc, startEq, List.append_assoc,
          List.singleton_append, here rest', ← startEq, inner, Option.map_map]
        congr 1
        funext found
        simp only [Function.comp_apply, List.length_append]
        omega
  have brace : quoteChar ∉ [openBrace] := by decide
  have skipped : firstOccurrence (quoteChar :: (name ++ [quoteChar]))
      ([openBrace] ++ (before.flatMap
        (fun field => field.text ++ [commaChar]) ++ quoteChar :: rest)) = _ :=
    firstOccurrence_skip brace
  have shape : memberFront before ++ quoteChar :: rest =
      [openBrace] ++ (before.flatMap
        (fun field => field.text ++ [commaChar]) ++ quoteChar :: rest) := by
    simp [memberFront]
  rw [shape, quotedKey, skipped, ← quotedKey, members, Option.map_map]
  congr 1
  funext found
  simp only [Function.comp_apply, memberFront, List.length_cons,
    List.length_nil]
  omega

/-! ### Reading the member that was found -/

private theorem keyPosition_of_name {name : Bytes} (ident : IsIdentifier name)
    (text : Bytes) :
    keyPosition text name = firstOccurrence (quotedKey name) text :=
  if_neg ident.ne_nil

private theorem keyPosition_member {before : List JsonField} {field : JsonField}
    (after : List JsonField)
    (ident : IsIdentifier field.name)
    (nameClean : ∀ earlier ∈ before, quoteChar ∉ earlier.name)
    (valueClean : ∀ earlier ∈ before, ∀ bytes, earlier.value = .str bytes →
      quoteChar ∉ bytes)
    (otherName : ∀ earlier ∈ before, earlier.name ≠ field.name)
    (otherValue : ∀ earlier ∈ before, earlier.value ≠ .str field.name) :
    keyPosition (objectText (before ++ field :: after)) field.name =
      some (memberFront before).length := by
  rw [keyPosition_of_name ident, objectText_split, JsonField.text_eq_cons,
    List.cons_append, firstOccurrence_skip_front before ident nameClean
      valueClean otherName otherValue,
    firstOccurrence_at_start]
  · rfl
  · refine ⟨colonChar :: (field.value.text ++ memberTail after), ?_⟩
    simp [quotedKey]

private theorem drop_append_length (front rest : Bytes) (count : Nat) :
    (front ++ rest).drop (front.length + count) = rest.drop count := by
  rw [← List.drop_drop, List.drop_left]

private theorem FieldValue.text_head (value : FieldValue) :
    ∃ c rest, value.text = c :: rest ∧ isWs c = false := by
  cases value with
  | str bytes => exact ⟨_, _, rfl, by decide⟩
  | int value =>
      have digitHead : ∀ n, n ≠ 0 →
          ∃ c rest, decimalText n = c :: rest ∧ isWs c = false := by
        intro n nonzero
        cases digitsEq : decimalText n with
        | nil =>
            have noDigits := List.map_eq_nil_iff.mp digitsEq
            exact absurd noDigits (Decimal.digits_ne_nil (by omega))
        | cons c rest =>
            have digit : isDigit c = true := by
              apply decimalText_isDigit (n := n)
              rw [digitsEq]
              exact List.mem_cons_self
            refine ⟨c, rest, rfl, ?_⟩
            revert digit
            unfold isDigit isWs zeroChar nineChar
            simp only [Bool.and_eq_true, decide_eq_true_eq,
              Bool.or_eq_false_iff, decide_eq_false_iff_not,
              UInt8.le_iff_toNat_le, ← UInt8.toNat_inj]
            simp only [UInt8.toNat_ofNat]
            omega
      change ∃ c rest, intText value = c :: rest ∧ isWs c = false
      unfold intText
      by_cases zero : value.toInt = 0
      · rw [if_pos zero]
        exact ⟨_, _, rfl, by decide⟩
      · rw [if_neg zero]
        by_cases negative : value.toInt < 0
        · rw [if_pos negative]
          exact ⟨_, _, rfl, by decide⟩
        · rw [if_neg negative]
          exact digitHead _ (by omega)

private theorem valuePosition_member {before after : List JsonField}
    {field : JsonField}
    (found : keyPosition (objectText (before ++ field :: after)) field.name =
      some (memberFront before).length) :
    valuePosition (objectText (before ++ field :: after)) field.name =
        some (valueStart before field) ∧
      (objectText (before ++ field :: after)).drop (valueStart before field) =
        field.value.text ++ memberTail after := by
  have suffix : (objectText (before ++ field :: after)).drop
      ((memberFront before).length + 1 + field.name.length + 1) =
        colonChar :: (field.value.text ++ memberTail after) := by
    have split : (memberFront before).length + 1 + field.name.length + 1 =
        (memberFront before).length + (field.name.length + 2) := by
      omega
    rw [split, objectText_split, drop_append_length, JsonField.text_eq_cons]
    have rearranged : quoteChar :: (field.name ++ quoteChar :: colonChar ::
        field.value.text) ++ memberTail after =
        (quoteChar :: (field.name ++ [quoteChar])) ++
          (colonChar :: (field.value.text ++ memberTail after)) := by
      simp
    rw [rearranged]
    have frontLength : field.name.length + 2 =
        (quoteChar :: (field.name ++ [quoteChar])).length + 0 := by
      simp
    rw [frontLength, drop_append_length, List.drop_zero]
  obtain ⟨c, rest, valueEq, notBlank⟩ := field.value.text_head
  have gap : valueOffset (colonChar :: (field.value.text ++ memberTail after)) =
      some 1 := by
    have colonNotBlank : ¬isWs colonChar = true := by decide
    have headNotBlank : ¬isWs c = true := by simp [notBlank]
    simp only [valueOffset, valueEq, List.cons_append,
      List.dropWhile_cons_of_neg colonNotBlank,
      List.takeWhile_cons_of_neg colonNotBlank,
      List.takeWhile_cons_of_neg headNotBlank, if_true]
    rfl
  have startEq : valueStart before field =
      (memberFront before).length + 1 + field.name.length + 1 + 1 := by
    simp [valueStart, memberFront, JsonField.keyText]
    omega
  constructor
  · unfold valuePosition
    rw [found]
    simp only [Option.bind_eq_bind, Option.bind_some, suffix, gap, startEq,
      Option.pure_def]
  · rw [startEq]
    exact drop_succ_of_drop suffix

private theorem stringToken_text {bytes : Bytes} (rest : Bytes)
    (clean : quoteChar ∉ bytes) :
    stringToken (quoteChar :: (bytes ++ quoteChar :: rest)) = some bytes := by
  have taken : (bytes ++ quoteChar :: rest).takeWhile (· ≠ quoteChar) =
      bytes := by
    rw [List.takeWhile_append_of_pos]
    · simp
    · intro c member
      have different : c ≠ quoteChar := fun equal => clean (equal ▸ member)
      simpa using different
  simp only [stringToken, taken]
  simp

/-! ### Reading a numeral back -/

theorem digitValue_digitChar {d : Nat} (small : d < 10) :
    digitValue (digitChar d) = d := by
  interval_cases d <;> rfl

/-- Accumulating in 64-bit arithmetic is accumulating in the naturals, read
modulo 2^64. -/
theorem accumulate_digits (start : Nat) (ds : List Nat)
    (small : ∀ d ∈ ds, d < 10) :
    accumulate (BitVec.ofNat 64 start) (ds.map digitChar) =
      BitVec.ofNat 64 (ds.foldl (fun acc d => acc * 10 + d) start) := by
  induction ds generalizing start with
  | nil => rfl
  | cons d rest ih =>
      have step : BitVec.ofNat 64 start * 10 +
          BitVec.ofNat 64 (digitValue (digitChar d)) =
          BitVec.ofNat 64 (start * 10 + d) := by
        rw [digitValue_digitChar (small d List.mem_cons_self),
          BitVec.ofNat_add, BitVec.ofNat_mul]
        rfl
      have later := ih (start * 10 + d)
        (fun e member => small e (List.mem_cons_of_mem _ member))
      simp only [accumulate, List.map_cons, List.foldl_cons] at later ⊢
      rw [step]
      exact later

private theorem accumulate_decimalText (n : Nat) :
    accumulate 0 (decimalText n) = BitVec.ofNat 64 n := by
  have asNat := accumulate_digits 0 (Decimal.digits n)
    (fun d member => Decimal.digits_lt member)
  have value := Decimal.value_digits n
  unfold Decimal.value at value
  rw [value] at asNat
  exact asNat

private theorem takeWhile_decimalText (n : Nat) {c : UInt8} (rest : Bytes)
    (stop : isDigit c = false) :
    (decimalText n ++ c :: rest).takeWhile isDigit = decimalText n := by
  rw [List.takeWhile_append_of_pos]
  · simp [stop]
  · intro d member
    exact decimalText_isDigit member

/-- The reader's sign and digit loop undoes the writer's, up to the first byte
that is not a digit. -/
theorem intToken_intText (value : Int64T) {c : UInt8} (rest : Bytes)
    (stop : isDigit c = false) :
    intToken (intText value ++ c :: rest) = some value := by
  have digitNotMinus : ∀ d : UInt8, isDigit d = true → d ≠ minusChar := by
    rintro d digit rfl
    revert digit
    decide
  have headed : ∀ n, n ≠ 0 → ∃ d more, decimalText n = d :: more ∧
      isDigit d = true := by
    intro n nonzero
    cases digitsEq : decimalText n with
    | nil =>
        have noDigits := List.map_eq_nil_iff.mp digitsEq
        exact absurd noDigits (Decimal.digits_ne_nil (by omega))
    | cons d more =>
        refine ⟨d, more, rfl, decimalText_isDigit (n := n) ?_⟩
        rw [digitsEq]
        exact List.mem_cons_self
  unfold intText
  by_cases zero : value.toInt = 0
  · have valueZero : value = 0 := BitVec.eq_of_toInt_eq (by simpa using zero)
    subst valueZero
    have zeroNotMinus : zeroChar ≠ minusChar := by decide
    have zeroDigit : isDigit zeroChar = true := by decide
    simp [intToken, zeroNotMinus, zeroDigit, stop, accumulate, digitValue]
  · rw [if_neg zero]
    obtain ⟨d, more, digitsEq, digit⟩ := headed value.toInt.natAbs (by omega)
    have run := takeWhile_decimalText value.toInt.natAbs rest stop
    have magnitude := accumulate_decimalText value.toInt.natAbs
    by_cases negative : value.toInt < 0
    · rw [if_pos negative]
      rw [digitsEq] at run ⊢
      rw [List.cons_append] at run
      simp only [intToken, List.cons_append, if_true, digit, run]
      rw [← digitsEq, magnitude, Option.some.injEq]
      apply BitVec.eq_of_toInt_eq
      have asInt : -BitVec.ofNat 64 value.toInt.natAbs =
          BitVec.ofInt 64 value.toInt := by
        rw [← BitVec.ofInt_natCast, ← BitVec.ofInt_neg]
        congr 1
        omega
      rw [asInt, BitVec.ofInt_toInt]
    · rw [if_neg negative]
      rw [digitsEq] at run ⊢
      rw [List.cons_append] at run
      simp only [intToken, List.cons_append, digitNotMinus d digit, if_false,
        digit, if_true, run]
      rw [← digitsEq, magnitude, Option.some.injEq]
      have asInt : BitVec.ofNat 64 value.toInt.natAbs =
          BitVec.ofInt 64 value.toInt := by
        rw [← BitVec.ofInt_natCast]
        congr 1
        omega
      rw [asInt, BitVec.ofInt_toInt]

private theorem memberTail_head (after : List JsonField) :
    ∃ c rest, memberTail after = c :: rest ∧ isDigit c = false := by
  cases after with
  | nil => exact ⟨_, _, rfl, by decide⟩
  | cons field rest => exact ⟨_, _, rfl, by decide⟩

/-! ### The whole object -/

/-- A member reads back as written when no earlier string value equals its
name. -/
theorem member_reads_back {before after : List JsonField} {field : JsonField}
    (layout : CodecLayout (before ++ field :: after))
    (otherValue : ∀ earlier ∈ before, earlier.value ≠ .str field.name) :
    match field.value with
    | .str bytes =>
        jsonGetStr (objectText (before ++ field :: after)) field.name =
          .ok (some
            { start := valueStart before field + 1, len := bytes.length }) ∧
          Slice.bytes
            { start := valueStart before field + 1, len := bytes.length }
            (objectText (before ++ field :: after)) = bytes
    | .int value =>
        jsonGetInt (objectText (before ++ field :: after)) field.name =
          .ok value := by
  have here : field ∈ before ++ field :: after := by simp
  have earlierMember : ∀ earlier ∈ before,
      earlier ∈ before ++ field :: after :=
    fun earlier member => List.mem_append_left _ member
  have found := keyPosition_member after
    (layout.identifiers field here)
    (fun earlier member =>
      (layout.identifiers earlier (earlierMember earlier member)).not_mem
        quote_outside)
    (fun earlier member => layout.quoteFree earlier (earlierMember earlier member))
    (fun earlier member =>
      (List.pairwise_append.mp layout.distinct).2.2 earlier member field
        List.mem_cons_self)
    otherValue
  obtain ⟨position, suffix⟩ := valuePosition_member found
  cases valueEq : field.value with
  | str bytes =>
      have clean := layout.quoteFree field here bytes valueEq
      have textEq : field.value.text ++ memberTail after =
          quoteChar :: (bytes ++ quoteChar :: memberTail after) := by
        simp [valueEq, FieldValue.text]
      rw [textEq] at suffix
      constructor
      · rw [jsonGetStr_eq, strMember, position]
        simp only [Option.bind_eq_bind, Option.bind_some, suffix,
          stringToken_text _ clean, Option.pure_def]
      · rw [Slice.bytes, drop_succ_of_drop suffix, List.take_left]
  | int value =>
      obtain ⟨c, rest, tailEq, stop⟩ := memberTail_head after
      rw [valueEq, FieldValue.text, tailEq] at suffix
      change jsonGetInt _ field.name = .ok value
      rw [jsonGetInt_eq_ok_iff, intMember, position]
      simp only [Option.bind_eq_bind, Option.bind_some, suffix]
      exact intToken_intText value rest stop

private theorem exists_first_hiding {before : List JsonField} {shadow : JsonField}
    {name : Bytes} (after : List JsonField) (hides : shadow.value = .str name) :
    ∃ front first middle,
      before ++ shadow :: after = front ++ first :: (middle ++ after) ∧
        first.value = .str name ∧
        ∀ earlier ∈ front, earlier.value ≠ .str name := by
  obtain ⟨first, found⟩ : ∃ first,
      (before ++ [shadow]).find? (fun f => f.value = .str name) =
        some first := by
    cases search : (before ++ [shadow]).find? (fun f => f.value = .str name) with
    | some first => exact ⟨first, rfl⟩
    | none =>
        have never := List.find?_eq_none.mp search shadow (by simp)
        exact absurd hides (by simpa using never)
  obtain ⟨firstHides, front, middle, split, clean⟩ :=
    List.find?_eq_some_iff_append.mp found
  have regroup : before ++ shadow :: after = (before ++ [shadow]) ++ after := by
    simp
  refine ⟨front, first, middle, ?_, by simpa using firstHides, ?_⟩
  · rw [regroup, split]
    simp
  · intro earlier member
    simpa using clean earlier member

/-- The search passes the first name and the colon and stops at the value. -/
private theorem firstOccurrence_hiding_value {first : JsonField} {name : Bytes}
    (rest : Bytes) (ident : IsIdentifier name) (clean : quoteChar ∉ first.name)
    (differs : first.name ≠ name) (hides : first.value = .str name) :
    firstOccurrence (quotedKey name) (first.text ++ rest) =
      some (first.name.length + 3) := by
  have nameClean := ident.not_mem quote_outside
  have shape : first.text ++ rest =
      quoteChar :: (first.name ++ quoteChar :: ([colonChar] ++
        quoteChar :: (name ++ quoteChar :: rest))) := by
    simp [JsonField.text_eq_cons, hides, FieldValue.text]
  rw [shape, quotedKey, firstOccurrence_skip_segment nameClean clean differs,
    firstOccurrence_skip_segment nameClean (by decide)
      (ident.ne_cons colon_outside _),
    firstOccurrence_at_start ((marked_prefix_iff nameClean nameClean).mpr rfl)]
  simp

private theorem keyPosition_hidden {front others : List JsonField} {first field : JsonField}
    (layout : CodecLayout (front ++ first :: others)) (later : field ∈ others)
    (hides : first.value = .str field.name)
    (clean : ∀ earlier ∈ front, earlier.value ≠ .str field.name) :
    keyPosition (objectText (front ++ first :: others)) field.name =
      some ((memberFront front).length + (first.name.length + 3)) := by
  have ident := layout.identifiers field (by simp [later])
  have names := List.pairwise_append.mp layout.distinct
  have atValue := firstOccurrence_hiding_value (memberTail others) ident
    ((layout.identifiers first (by simp)).not_mem quote_outside)
    ((List.pairwise_cons.mp names.2.1).1 field later) hides
  rw [keyPosition_of_name ident, objectText_split,
    JsonField.text_eq_cons, List.cons_append,
    firstOccurrence_skip_front front ident
      (fun earlier member =>
        (layout.identifiers earlier (by simp [member])).not_mem quote_outside)
      (fun earlier member => layout.quoteFree earlier (by simp [member]))
      (fun earlier member =>
        names.2.2 earlier member field (List.mem_cons_of_mem _ later))
      clean,
    ← List.cons_append, ← JsonField.text_eq_cons, atValue]
  rfl

/-- What stands behind the value found is the comma before the next member. -/
private theorem valuePosition_hidden {front others : List JsonField}
    {first field : JsonField}
    (layout : CodecLayout (front ++ first :: others)) (later : field ∈ others)
    (hides : first.value = .str field.name)
    (clean : ∀ earlier ∈ front, earlier.value ≠ .str field.name) :
    valuePosition (objectText (front ++ first :: others)) field.name = none := by
  obtain ⟨rest, tailEq⟩ : ∃ rest, memberTail others = commaChar :: rest := by
    cases others with
    | nil => cases later
    | cons head others => exact ⟨_, rfl⟩
  have suffix : (objectText (front ++ first :: others)).drop
      ((memberFront front).length + (first.name.length + 3) + 1 +
        field.name.length + 1) = commaChar :: rest := by
    have split : (memberFront front).length + (first.name.length + 3) + 1 +
        field.name.length + 1 =
        (memberFront front).length + (first.text.length + 0) := by
      simp [JsonField.text_eq_cons, hides, FieldValue.text]
      omega
    rw [split, objectText_split, drop_append_length, drop_append_length,
      List.drop_zero, tailEq]
  have noColon : valueOffset (commaChar :: rest) = none := by
    have notBlank : ¬isWs commaChar = true := by decide
    have notColon : commaChar ≠ colonChar := by decide
    simp [valueOffset, List.dropWhile_cons_of_neg notBlank, notColon]
  unfold valuePosition
  rw [keyPosition_hidden layout later hides clean]
  simp only [Option.bind_eq_bind, Option.bind_some, suffix, noColon,
    Option.bind_none]

private theorem shadowed_member_not_found {before after : List JsonField}
    {shadow field : JsonField}
    (layout : CodecLayout (before ++ shadow :: after)) (later : field ∈ after)
    (hides : shadow.value = .str field.name) :
    strMember (objectText (before ++ shadow :: after)) field.name = none ∧
      intMember (objectText (before ++ shadow :: after)) field.name = none := by
  obtain ⟨front, first, middle, split, firstHides, clean⟩ :=
    exists_first_hiding after hides
  rw [split] at layout ⊢
  have position := valuePosition_hidden layout
    (List.mem_append_right middle later) firstHides clean
  constructor
  · rw [strMember, position]
    rfl
  · rw [intMember, position]
    rfl

/-- The written object reads back whole exactly when no string value equals the
name of a later member. -/
theorem object_roundTrip_iff (fields : List JsonField)
    (layout : CodecLayout fields) (buf : Bytes)
    (room : (objectText fields).length ≤ buf.length) :
    ∃ w, writeObject buf fields = .ok w ∧
      (RoundTrips (w.buf.take w.pos) fields ↔ NoValueShadows fields) := by
  refine ⟨written buf (objectText fields), ?_, ?_⟩
  · rw [writeObject_eq, writeText, if_pos room]
  have text : (written buf (objectText fields)).buf.take
      (written buf (objectText fields)).pos = objectText fields := by
    simp [written]
  rw [text]
  constructor
  · intro roundTrips
    unfold NoValueShadows
    rw [List.pairwise_iff_getElem]
    intro i j iBound jBound before hides
    have split : fields =
        fields.take i ++ fields[i] :: fields.drop (i + 1) := by
      rw [List.getElem_cons_drop, List.take_append_drop]
    have later : fields[j] ∈ fields.drop (i + 1) := by
      rw [List.mem_drop_iff_getElem]
      exact ⟨j - (i + 1), by omega, by congr 1; omega⟩
    have layout' := layout
    rw [split] at layout'
    have lost := shadowed_member_not_found layout' later hides
    rw [← split] at lost
    obtain ⟨front, tail, fieldSplit⟩ := List.append_of_mem
      (List.getElem_mem jBound)
    have reads := roundTrips front fields[j] tail fieldSplit
    cases valueEq : fields[j].value with
    | str bytes =>
        rw [valueEq] at reads
        have returned := reads.1
        rw [jsonGetStr_eq, lost.1] at returned
        cases returned
    | int value =>
        rw [valueEq] at reads
        have returned : jsonGetInt (objectText fields) fields[j].name =
          .ok value := reads
        rw [jsonGetInt_eq_ok_iff, lost.2] at returned
        cases returned
  · intro shadowFree before field after split
    subst split
    exact member_reads_back layout (fun earlier member =>
      (List.pairwise_append.mp shadowFree).2.2 earlier member field
        List.mem_cons_self)

/-- `{"a":"x","b":5}`: the string value is not the name of the later member. -/
theorem object_roundTrip_iff_example :
    ∃ w, writeObject (List.replicate 32 0)
        [⟨[0x61], .str [0x78]⟩, ⟨[0x62], .int 5⟩] = .ok w ∧
      (RoundTrips (w.buf.take w.pos)
          [⟨[0x61], .str [0x78]⟩, ⟨[0x62], .int 5⟩] ↔
        NoValueShadows [⟨[0x61], .str [0x78]⟩, ⟨[0x62], .int 5⟩]) :=
  object_roundTrip_iff _
    { identifiers := by decide +kernel
      distinct := by decide +kernel
      quoteFree := by
        intro field member bytes valueEq
        rcases List.mem_cons.mp member with rfl | member
        · cases valueEq
          decide
        · rcases List.mem_singleton.mp member with rfl
          cases valueEq }
    _ (by decide)

/-- `{"a":"b","b":5}`: looking up `b` stops at the value of `a`. -/
theorem object_roundTrip_shadowed :
    ¬∀ (fields : List JsonField) (buf : Bytes), CodecLayout fields →
      (objectText fields).length ≤ buf.length →
        ∃ w, writeObject buf fields = .ok w ∧
          RoundTrips (w.buf.take w.pos) fields := by
  intro always
  obtain ⟨w, writes, roundTrips⟩ := always
    [⟨[0x61], .str [0x62]⟩, ⟨[0x62], .int 5⟩] (List.replicate 32 0)
    { identifiers := by decide +kernel
      distinct := by decide +kernel
      quoteFree := by
        intro field member bytes valueEq
        rcases List.mem_cons.mp member with rfl | member
        · cases valueEq
          decide
        · rcases List.mem_singleton.mp member with rfl
          cases valueEq }
    (by decide)
  rw [writeObject_eq, writeText, if_pos (by decide)] at writes
  cases writes
  have reads : jsonGetInt _ [0x62] = .ok 5 :=
    roundTrips [⟨[0x61], .str [0x62]⟩] ⟨[0x62], .int 5⟩ [] rfl
  revert reads
  decide

end Lambpie.Runtime

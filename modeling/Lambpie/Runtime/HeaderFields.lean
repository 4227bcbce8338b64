/-
Which header lines the receive loop takes for which header.

The end of a line compares the name of a header with the line up to the last
colon of the line, and with no more than that.  So a line is taken for a header
when its value has no colon and its name is a prefix of the header's name,
which is not the same as having that name.
-/
import Lambpie.Runtime.HttpHeaders

namespace Lambpie.Runtime

open Foundations

structure HeaderField where
  name : Bytes
  value : Bytes
deriving DecidableEq, Repr

/-- `name: value`, without the line break. -/
def HeaderField.text (field : HeaderField) : Bytes :=
  field.name ++ colonChar :: spaceChar :: field.value

/-- A name without a colon, a value that may have some, and a number as the
value of Content-Length. -/
structure HeaderField.WellFormed (field : HeaderField) : Prop where
  nameNoColon : colonChar ∉ field.name
  nameNoLineFeed : lineFeed ∉ field.name
  valueNoLineFeed : lineFeed ∉ field.value
  number : field.name = contentLengthName →
    field.value ≠ [] ∧ ∀ c ∈ field.value, isDigit c

/-- The comparison at the end of the line finds the header. -/
def HeaderField.TakenFor (field : HeaderField) (header : Bytes) : Prop :=
  colonChar ∉ field.value ∧ field.name <+: header

instance (field : HeaderField) (header : Bytes) :
    Decidable (field.TakenFor header) :=
  inferInstanceAs (Decidable (_ ∧ _))

/-- The last colon of the line that starts at the position given. -/
structure HeaderField.Delimits (field : HeaderField) (lineStart colon : Nat) :
    Prop where
  ofName : colonChar ∉ field.value → colon = lineStart + field.name.length
  ofValue : colonChar ∈ field.value →
    lineStart + field.name.length + 2 ≤ colon

theorem HeaderField.text_length (field : HeaderField) :
    field.text.length = field.name.length + 2 + field.value.length := by
  rw [HeaderField.text, List.length_append, List.length_cons, List.length_cons]
  omega

theorem HeaderField.text_ne_nil (field : HeaderField) : field.text ≠ [] := by
  apply List.ne_nil_of_length_pos
  rw [field.text_length]
  omega

theorem HeaderField.WellFormed.noLineFeed {field : HeaderField}
    (wellFormed : field.WellFormed) : lineFeed ∉ field.text := by
  rw [HeaderField.text, List.mem_append, List.mem_cons, List.mem_cons]
  rintro (inName | isColon | isSpace | inValue)
  · exact wellFormed.nameNoLineFeed inName
  · exact absurd isColon (by decide)
  · exact absurd isSpace (by decide)
  · exact wellFormed.valueNoLineFeed inValue

theorem scanBytes_of_colon (parser : HeaderParser) (pos : Nat) {bytes : Bytes}
    (found : colonChar ∈ bytes) :
    ∃ colon, pos ≤ colon ∧
      scanBytes parser pos bytes = { parser with delimiter := some colon } := by
  induction bytes generalizing parser pos with
  | nil => cases found
  | cons c bytes ih =>
      rw [scanBytes]
      by_cases later : colonChar ∈ bytes
      · obtain ⟨colon, after, scanned⟩ := ih
          (if c = colonChar then { parser with delimiter := some pos }
            else parser) (pos + 1) later
        refine ⟨colon, by omega, ?_⟩
        rw [scanned]
        split <;> rfl
      · have here : c = colonChar := by
          rcases List.mem_cons.mp found with same | after
          · exact same.symm
          · exact absurd after later
        rw [if_pos here, scanBytes_of_noColon _ _ later]
        exact ⟨pos, Nat.le_refl pos, rfl⟩

theorem HeaderField.WellFormed.scanBytes {field : HeaderField}
    (wellFormed : field.WellFormed) (parser : HeaderParser) (lineStart : Nat) :
    ∃ colon, field.Delimits lineStart colon ∧
      scanBytes parser lineStart field.text =
        { parser with delimiter := some colon } := by
  have notColon : spaceChar ≠ colonChar := by decide
  rw [HeaderField.text, scanBytes_append,
    scanBytes_of_noColon parser lineStart wellFormed.nameNoColon,
    Runtime.scanBytes, if_pos rfl, Runtime.scanBytes, if_neg notColon]
  by_cases inValue : colonChar ∈ field.value
  · obtain ⟨colon, after, scanned⟩ := scanBytes_of_colon
      { parser with delimiter := some (lineStart + field.name.length) }
      (lineStart + field.name.length + 1 + 1) inValue
    exact ⟨colon, ⟨fun absent => absurd inValue absent, fun _ => after⟩, scanned⟩
  · exact ⟨lineStart + field.name.length,
      ⟨fun _ => rfl, fun found => absurd found inValue⟩,
      scanBytes_of_noColon _ _ inValue⟩

theorem drop_of_take_eq {memory text line rest : Bytes} {total pos : Nat}
    (stored : memory.take total = text.take total) (suffix : text.drop pos = line ++ rest)
    (within : pos + line.length ≤ total) : ∃ junk, memory.drop pos = line ++ junk := by
  refine ⟨(memory.drop pos).drop line.length, ?_⟩
  have inTotal (bytes : Bytes) : (bytes.drop pos).take line.length =
      ((bytes.take total).drop pos).take line.length := by
    rw [List.drop_take, List.take_take, Nat.min_eq_left (by omega)]
  have front : (memory.drop pos).take line.length = line := by
    rw [inTotal, stored, ← inTotal, suffix, List.take_left]
  conv_lhs => rw [← List.take_append_drop line.length (memory.drop pos)]
  rw [front]

private theorem HeaderField.drop_value {memory rest : Bytes} {lineStart : Nat}
    {field : HeaderField}
    (suffix : memory.drop lineStart = field.text ++ rest) :
    memory.drop (lineStart + field.name.length + 2) = field.value ++ rest := by
  have named : memory.drop lineStart =
      field.name ++ (colonChar :: spaceChar :: (field.value ++ rest)) := by
    rw [suffix, HeaderField.text, List.append_assoc]
    rfl
  exact drop_succ_of_drop (drop_succ_of_drop (drop_add_of_drop named))

private theorem strncmpEqual_end {memory common rest : Bytes} {pos count : Nat}
    {c : UInt8} (suffix : memory.drop pos = common ++ c :: rest)
    (within : common.length < count) :
    strncmpEqual memory pos common count = .ok (c = 0) := by
  induction common generalizing pos count with
  | nil =>
      cases count with
      | zero => exact absurd within (Nat.not_lt_zero _)
      | succ count =>
          rw [strncmpEqual, charAt_of_drop suffix, Outcome.ok_bind]
          rfl
  | cons d common ih =>
      cases count with
      | zero => exact absurd within (Nat.not_lt_zero _)
      | succ count =>
          rw [List.cons_append] at suffix
          rw [List.length_cons] at within
          rw [strncmpEqual, charAt_of_drop suffix, Outcome.ok_bind]
          simp only [if_true]
          exact ih (drop_succ_of_drop suffix) (by omega)

/-- Past the name and its colon a line differs from every header. -/
theorem strncmpEqual_past_name {memory rest : Bytes} {lineStart count : Nat}
    {field : HeaderField} {header : Bytes} (headerNoColon : colonChar ∉ header)
    (isPrefix : field.name <+: header)
    (suffix : memory.drop lineStart = field.text ++ rest)
    (past : field.name.length + 2 ≤ count) :
    strncmpEqual memory lineStart (header ++ [colonChar]) count =
      .ok false := by
  have named : memory.drop lineStart =
      field.name ++ colonChar :: (spaceChar :: field.value ++ rest) := by
    rw [suffix, HeaderField.text, List.append_assoc, List.cons_append]
  obtain ⟨tail, rfl⟩ := isPrefix
  cases tail with
  | nil =>
      have ended : memory.drop lineStart =
          (field.name ++ [colonChar]) ++ spaceChar :: (field.value ++ rest) := by
        rw [named, List.append_assoc]
        rfl
      rw [List.append_nil]
      apply strncmpEqual_end ended
      rw [List.length_append, List.length_singleton]
      omega
  | cons expected tail =>
      have differs : colonChar ≠ expected := by
        rintro rfl
        exact headerNoColon (List.mem_append_right _ List.mem_cons_self)
      rw [List.append_assoc, List.cons_append]
      exact strncmpEqual_mismatch named differs (by omega)

private theorem strncmpEqual_field {memory rest : Bytes} {lineStart colon : Nat}
    {field : HeaderField} {header : Bytes} (headerNoColon : colonChar ∉ header)
    (nameNoColon : colonChar ∉ field.name)
    (suffix : memory.drop lineStart = field.text ++ rest)
    (delimits : field.Delimits lineStart colon) :
    strncmpEqual memory lineStart (header ++ [colonChar]) (colon - lineStart) =
      .ok (decide (field.TakenFor header)) := by
  have named : memory.drop lineStart =
      field.name ++ (colonChar :: spaceChar :: field.value ++ rest) := by
    rw [suffix, HeaderField.text, List.append_assoc]
  by_cases inValue : colonChar ∈ field.value
  · have notTaken : ¬field.TakenFor header := fun taken => taken.1 inValue
    have past := delimits.ofValue inValue
    rw [decide_eq_false notTaken]
    by_cases isPrefix : field.name <+: header
    · exact strncmpEqual_past_name headerNoColon isPrefix suffix (by omega)
    · exact strncmpEqual_of_not_prefix header nameNoColon isPrefix named (by omega)
  · have atName := delimits.ofName inValue
    have count : colon - lineStart = field.name.length := by omega
    rw [count]
    by_cases isPrefix : field.name <+: header
    · have taken : field.TakenFor header := ⟨inValue, isPrefix⟩
      rw [decide_eq_true taken]
      obtain ⟨tail, rfl⟩ := isPrefix
      rw [List.append_assoc]
      exact strncmpEqual_same (tail ++ [colonChar]) field.name named
    · have notTaken : ¬field.TakenFor header := fun taken => isPrefix taken.2
      rw [decide_eq_false notTaken]
      exact strncmpEqual_of_not_prefix header nameNoColon isPrefix named
        (Nat.le_refl _)

private theorem requestIdSlice_value {lineStart nameLength valueLength : Nat}
    (short : valueLength + 1 < 2 ^ 64) :
    requestIdSlice (lineStart + nameLength)
        (lineStart + (nameLength + 2 + valueLength) + 1) =
      { start := lineStart + nameLength + 2, len := valueLength } := by
  unfold requestIdSlice
  have count : lineStart + (nameLength + 2 + valueLength) + 1 -
      (lineStart + nameLength + 2) = valueLength + 1 := by omega
  have wrapped : BitVec.ofNat 64 (valueLength + 1) - 1 =
      BitVec.ofNat 64 valueLength := by
    rw [BitVec.ofNat_add]
    exact BitVec.add_sub_cancel _ _
  rw [count, wrapped, BitVec.toNat_ofNat, Nat.mod_eq_of_lt (by omega)]

private theorem parseLine_field {memory rest : Bytes} {lineStart colon : Nat}
    {field : HeaderField} {parser : HeaderParser} (total : Nat)
    (wellFormed : field.WellFormed) (short : field.text.length < 2 ^ 64)
    (suffix : memory.drop lineStart = field.text ++ rest)
    (starts : parser.lineStart = lineStart)
    (ends : parser.delimiter = some colon)
    (delimits : field.Delimits lineStart colon) :
    parseLine memory total (lineStart + field.text.length + 1) parser =
      if field.TakenFor contentLengthName then do
        let contentLength ← atoi memory (lineStart + field.name.length + 2)
        pure { parser with contentLength }
      else if field.TakenFor requestIdName then
        pure { parser with
          awsRequestId := some
            { start := lineStart + field.name.length + 2
              len := field.value.length } }
      else pure parser := by
  have length : strncmpEqual memory lineStart contentLengthHeader
      (colon - lineStart) = .ok (decide (field.TakenFor contentLengthName)) := by
    rw [contentLengthHeader_eq]
    exact strncmpEqual_field contentLengthName_plain.1 wellFormed.nameNoColon
      suffix delimits
  have requestId : strncmpEqual memory lineStart requestIdHeader
      (colon - lineStart) = .ok (decide (field.TakenFor requestIdName)) := by
    rw [requestIdHeader_eq]
    exact strncmpEqual_field requestIdName_plain.1 wellFormed.nameNoColon suffix
      delimits
  simp only [parseLine, ends, starts, length, Outcome.ok_bind, decide_eq_true_eq]
  by_cases isLength : field.TakenFor contentLengthName
  · rw [if_pos isLength, if_pos isLength, delimits.ofName isLength.1]
  · rw [if_neg isLength, if_neg isLength, requestId, Outcome.ok_bind]
    simp only [decide_eq_true_eq]
    by_cases isId : field.TakenFor requestIdName
    · rw [field.text_length] at short ⊢
      rw [if_pos isId, if_pos isId, delimits.ofName isId.1,
        requestIdSlice_value (by omega)]
    · rw [if_neg isId, if_neg isId]

/-- What the line that starts at the position given should leave in the
parser. -/
def HeaderField.record (lineStart : Nat) (parser : HeaderParser)
    (field : HeaderField) : HeaderParser :=
  if field.name = contentLengthName then
    { parser with contentLength := numberOf field.value }
  else if field.name = requestIdName then
    { parser with
      awsRequestId := some
        { start := lineStart + field.name.length + 2
          len := field.value.length } }
  else parser

/-- The line is recognised: an announced length in `int` range, an id without
a colon, or a line that is taken for neither header, unless the number it
starts with is the length already recorded. -/
def HeaderField.ToldApart (memory : Bytes) (lineStart : Nat)
    (contentLength : Int) (field : HeaderField) : Prop :=
  if field.name = contentLengthName then numberOf field.value < 2 ^ 31
  else if field.name = requestIdName then colonChar ∉ field.value
  else if field.TakenFor contentLengthName then
    atoi memory (lineStart + field.name.length + 2) = .ok contentLength
  else ¬field.TakenFor requestIdName

/-- The id recorded so far is that of an earlier line. -/
def HeaderParser.IdBefore (parser : HeaderParser) (lineStart : Nat) : Prop :=
  ∀ slice ∈ parser.awsRequestId, slice.start < lineStart

private theorem requestIdName_not_prefix : ¬requestIdName <+: contentLengthName := by
  decide

/-- The end of a header line leaves what it should exactly when the line is
told apart. -/
theorem parseLine_eq_record_iff {memory rest : Bytes} {lineStart colon : Nat}
    {field : HeaderField} {parser after : HeaderParser} {total : Nat}
    (wellFormed : field.WellFormed) (short : field.text.length < 2 ^ 64)
    (suffix : memory.drop lineStart = field.text ++ carriageReturn :: rest)
    (starts : parser.lineStart = lineStart)
    (ends : parser.delimiter = some colon)
    (delimits : field.Delimits lineStart colon)
    (earlier : parser.IdBefore lineStart)
    (unset : field.name = requestIdName → parser.awsRequestId = none)
    (parsed : parseLine memory total (lineStart + field.text.length + 1) parser =
      .ok after) :
    after = field.record lineStart parser ↔
      field.ToldApart memory lineStart parser.contentLength := by
  rw [parseLine_field total wellFormed short suffix starts ends delimits]
    at parsed
  unfold HeaderField.record HeaderField.ToldApart
  by_cases isLength : field.name = contentLengthName
  · obtain ⟨nonempty, digits⟩ := wellFormed.number isLength
    have noColon : colonChar ∉ field.value := by
      intro member
      exact isDigit_ne (digits _ member) (by decide) rfl
    have taken : field.TakenFor contentLengthName :=
      ⟨noColon, isLength ▸ List.prefix_refl _⟩
    rw [if_pos taken,
      atoi_eq_digits nonempty digits (HeaderField.drop_value suffix) (by decide)]
      at parsed
    cases parsed
    rw [if_pos isLength, if_pos isLength, ← int32_clampLong_eq_iff,
      HeaderParser.mk.injEq]
    simp
  · rw [if_neg isLength, if_neg isLength]
    by_cases isId : field.name = requestIdName
    · have notLength : ¬field.TakenFor contentLengthName := by
        rintro ⟨-, isPrefix⟩
        rw [isId] at isPrefix
        exact requestIdName_not_prefix isPrefix
      rw [if_neg notLength] at parsed
      rw [if_pos isId, if_pos isId]
      by_cases inValue : colonChar ∈ field.value
      · have notTaken : ¬field.TakenFor requestIdName :=
          fun taken => taken.1 inValue
        rw [if_neg notTaken] at parsed
        cases parsed
        rw [HeaderParser.mk.injEq, unset isId]
        simp [inValue]
      · have taken : field.TakenFor requestIdName :=
          ⟨inValue, isId ▸ List.prefix_refl _⟩
        rw [if_pos taken] at parsed
        cases parsed
        simp [inValue]
    · rw [if_neg isId, if_neg isId]
      by_cases takenLength : field.TakenFor contentLengthName
      · rw [if_pos takenLength] at parsed ⊢
        obtain ⟨number, converted, built⟩ :=
          (Outcome.bind_eq_ok_iff _ _ _).mp parsed
        cases built
        rw [converted, HeaderParser.mk.injEq]
        simp
      · rw [if_neg takenLength] at parsed ⊢
        by_cases takenId : field.TakenFor requestIdName
        · rw [if_pos takenId] at parsed
          cases parsed
          have changed : ¬({ parser with
              awsRequestId := some
                { start := lineStart + field.name.length + 2
                  len := field.value.length } } : HeaderParser) = parser := by
            intro same
            have recorded := congrArg HeaderParser.awsRequestId same
            have before := earlier _ recorded.symm
            simp only at before
            omega
          simp [changed, takenId]
        · rw [if_neg takenId] at parsed
          cases parsed
          simp [takenId]

def HeaderLine.field (line : HeaderLine) : HeaderField where
  name := line.name
  value := line.value

private theorem requestIdName_ne : requestIdName ≠ contentLengthName := by decide

theorem HeaderLine.WellFormed.field {line : HeaderLine}
    (wellFormed : line.WellFormed) : line.field.WellFormed := by
  cases line with
  | contentLength digits =>
      exact
        { nameNoColon := contentLengthName_plain.1
          nameNoLineFeed := contentLengthName_plain.2.1
          valueNoLineFeed := fun member =>
            isDigit_ne (wellFormed.2.1 _ member) (by decide) rfl
          number := fun _ => ⟨wellFormed.1, wellFormed.2.1⟩ }
  | requestId id =>
      exact
        { nameNoColon := requestIdName_plain.1
          nameNoLineFeed := requestIdName_plain.2.1
          valueNoLineFeed := wellFormed.2.2
          number := fun same => absurd same requestIdName_ne }
  | other name value =>
      obtain ⟨noColon, nameNoLineFeed, valueNoLineFeed, notLength, -⟩ := wellFormed
      refine
        { nameNoColon := noColon, nameNoLineFeed := nameNoLineFeed
          valueNoLineFeed := valueNoLineFeed, number := ?_ }
      rintro (rfl : name = contentLengthName)
      exact absurd (List.prefix_refl _) notLength

theorem parseLine_header {memory rest : Bytes} {line : HeaderLine}
    {parser : HeaderParser} {pos colon : Nat} (total : Nat)
    (wellFormed : line.WellFormed) (short : line.text.length < 2 ^ 64)
    (suffix : memory.drop pos = line.text ++ carriageReturn :: rest)
    (starts : parser.lineStart = pos) (ends : parser.delimiter = some colon)
    (delimits : line.field.Delimits pos colon) :
    parseLine memory total (pos + line.text.length + 1) parser =
      .ok (line.record pos parser) := by
  have ended := parseLine_field total wellFormed.field short suffix starts ends
    delimits
  rw [show line.text = line.field.text from rfl, ended]
  cases line with
  | contentLength digits =>
      obtain ⟨nonempty, allDigits, intRange⟩ := wellFormed
      have noColon : colonChar ∉ digits := by
        intro member
        exact isDigit_ne (allDigits _ member) (by decide) rfl
      have taken : (HeaderLine.contentLength digits).field.TakenFor
          contentLengthName := ⟨noColon, List.prefix_refl _⟩
      have valued := (HeaderLine.contentLength digits).field.drop_value suffix
      rw [if_pos taken,
        atoi_digits nonempty allDigits intRange valued (by decide)]
      rfl
  | requestId id =>
      have notLength : ¬(HeaderLine.requestId id).field.TakenFor
          contentLengthName := fun taken => requestIdName_not_prefix taken.2
      have taken : (HeaderLine.requestId id).field.TakenFor requestIdName :=
        ⟨wellFormed.1, List.prefix_refl _⟩
      rw [if_neg notLength, if_pos taken]
      rfl
  | other name value =>
      obtain ⟨-, -, -, notLength, notRequestId⟩ := wellFormed
      have notTakenLength : ¬(HeaderLine.other name value).field.TakenFor
          contentLengthName := fun taken => notLength taken.2
      have notTakenId : ¬(HeaderLine.other name value).field.TakenFor
          requestIdName := fun taken => notRequestId taken.2
      rw [if_neg notTakenLength, if_neg notTakenId]
      rfl

end Lambpie.Runtime

/-
String members of flat RFC 8259 objects.

The reader is given the UTF-8 bytes of a well-formed flat object and the raw
bytes of a member's name.  When the quoted name occurs nowhere else, the reader
arrives at the member's value; a string value is read up to its first quote
byte, which is the closing quotation mark exactly when no quotation mark is
escaped in it.
-/
import Lambpie.Foundations.FlatJson
import Lambpie.Runtime.JsonMembers
import Lambpie.Runtime.JsonWriter

namespace Lambpie.Runtime

open Foundations
open Foundations.Rfc8259 (Blank StringChar FlatMember FlatObject FlatValue utf8
  utf8_append utf8_cons rawChars quoted quotationMark isWhitespace)

theorem utf8_whitespace {c : Char} (blank : isWhitespace c) :
    ∃ b, String.utf8EncodeChar c = [b] ∧ isWs b := by
  have codes : c.toNat = 0x20 ∨ c.toNat = 0x09 ∨ c.toNat = 0x0A ∨
      c.toNat = 0x0D := by
    simpa [isWhitespace, or_assoc] using blank
  refine ⟨_, Rfc8259.utf8EncodeChar_ascii (by omega), ?_⟩
  rcases codes with code | code | code | code <;> rw [code] <;> decide

private theorem isWs_utf8_blank (blank : Blank) :
    ∀ b ∈ utf8 blank.chars, isWs b := by
  intro b member
  obtain ⟨c, inside, encoded⟩ := List.mem_flatMap.mp member
  obtain ⟨b', single, blankByte⟩ := utf8_whitespace (blank.allBlank c inside)
  rw [single, List.mem_singleton] at encoded
  exact encoded ▸ blankByte

private theorem utf8_quoted (body : List StringChar) :
    utf8 (quoted body) = quotedKey (utf8 (rawChars body)) := by
  unfold quoted quotedKey
  rw [utf8_cons, utf8_append]
  rfl

private theorem separator_utf8 (member : FlatMember) :
    NameSeparator (utf8 member.separator) := by
  refine ⟨utf8 member.afterName.chars, utf8 member.beforeValue.chars, ?_,
    isWs_utf8_blank _, isWs_utf8_blank _⟩
  unfold FlatMember.separator
  rw [utf8_append, utf8_cons]
  rfl

private theorem rawChars_eq_nil_iff (body : List StringChar) :
    utf8 (rawChars body) = [] ↔ body = [] := by
  cases body with
  | nil => exact iff_of_true rfl rfl
  | cons c rest =>
      have nonempty : utf8 (rawChars (c :: rest)) ≠ [] := by
        unfold rawChars
        rw [List.flatMap_cons, utf8_append]
        intro empty
        have first := (List.append_eq_nil_iff.mp empty).1
        cases c <;> exact absurd (List.append_eq_nil_iff.mp first).1
          String.utf8EncodeChar_ne_nil
      exact iff_of_false nonempty (List.cons_ne_nil _ _)

def OccursOnce (pattern text : Bytes) : Prop :=
  ∀ i j, OccursAt pattern text i → OccursAt pattern text j → i = j

def valueIndex (object : FlatObject) (before : List FlatMember)
    (member : FlatMember) : Nat :=
  (utf8 (object.front before member ++
    (quoted member.name ++ member.separator))).length

/-- A member of the object whose quoted name occurs nowhere else in it. -/
structure UniqueMember (object : FlatObject) (before : List FlatMember)
    (member : FlatMember) (after : List FlatMember) : Prop where
  members : object.members = before ++ member :: after
  once : OccursOnce (quotedKey (utf8 (rawChars member.name)))
    (utf8 object.chars)

/-- An occurrence of the quoted key is inside the text, so uniqueness is a
check on finitely many indices. -/
theorem occursOnce_of_check {key text : Bytes}
    (check : ∀ i < text.length, ∀ j < text.length,
      OccursAt (quotedKey key) text i → OccursAt (quotedKey key) text j →
        i = j) : OccursOnce (quotedKey key) text := by
  have inside {i : Nat} (occurs : OccursAt (quotedKey key) text i) :
      i < text.length := by
    have lengths := occurs.length_le
    rw [quotedKey_length, List.length_drop] at lengths
    omega
  intro i j atI atJ
  exact check i (inside atI) j (inside atJ) atI atJ

namespace UniqueMember

variable {object : FlatObject} {before after : List FlatMember}
  {member : FlatMember}

private theorem bytes_split (found : UniqueMember object before member after) :
    utf8 object.chars = utf8 (object.front before member) ++
      (quotedKey (utf8 (rawChars member.name)) ++ (utf8 member.separator ++
        (utf8 member.value.chars ++ utf8 (object.tail member after)))) := by
  rw [Rfc8259.FlatObject.chars_split found.members]
  simp only [utf8_append, utf8_quoted]

theorem drop_valueIndex (found : UniqueMember object before member after) :
    (utf8 object.chars).drop (valueIndex object before member) =
      utf8 member.value.chars ++ utf8 (object.tail member after) := by
  have split := found.bytes_split
  have index : valueIndex object before member =
      (utf8 (object.front before member) ++
        (quotedKey (utf8 (rawChars member.name)) ++
          utf8 member.separator)).length := by
    unfold valueIndex
    simp only [utf8_append, utf8_quoted]
  rw [index, split]
  simp only [← List.append_assoc]
  rw [List.append_assoc _ (utf8 member.value.chars), List.drop_left]

private theorem leastQuoted (found : UniqueMember object before member after) :
    LeastQuoted (utf8 object.chars) (utf8 (rawChars member.name))
      (utf8 (object.front before member)).length := by
  have here : OccursAt (quotedKey (utf8 (rawChars member.name)))
      (utf8 object.chars) (utf8 (object.front before member)).length := by
    unfold OccursAt
    rw [found.bytes_split, List.drop_left]
    exact List.prefix_append _ _
  refine ⟨here, ?_⟩
  intro earlier before occurs
  have same := found.once earlier _ occurs here
  omega

theorem valuePosition (found : UniqueMember object before member after)
    (named : member.name ≠ []) {b : UInt8} {rest : Bytes}
    (visible : ¬isWs b)
    (value : utf8 member.value.chars ++ utf8 (object.tail member after) =
      b :: rest) :
    Lambpie.Runtime.valuePosition (utf8 object.chars)
        (utf8 (rawChars member.name)) =
      some (valueIndex object before member) := by
  have nonempty : utf8 (rawChars member.name) ≠ [] :=
    (rawChars_eq_nil_iff member.name).not.mpr named
  have atKey := (keyPosition_eq_some_iff nonempty _).mpr found.leastQuoted
  have rest : (utf8 object.chars).drop
      ((utf8 (object.front before member)).length + 1 +
        (utf8 (rawChars member.name)).length + 1) =
      utf8 member.separator ++ b :: rest := by
    have afterKey : (utf8 (object.front before member)).length + 1 +
        (utf8 (rawChars member.name)).length + 1 =
        (utf8 (object.front before member) ++
          quotedKey (utf8 (rawChars member.name))).length := by
      rw [List.length_append, quotedKey_length]
      omega
    rw [afterKey, found.bytes_split, ← List.append_assoc, List.drop_left, value]
  unfold Lambpie.Runtime.valuePosition
  simp only [atKey, Option.bind_eq_bind, Option.bind_some, rest,
    valueOffset_of_separator (separator_utf8 member) visible, Option.pure_def]
  unfold valueIndex
  rw [utf8_append, utf8_append, utf8_quoted, List.length_append,
    List.length_append, quotedKey_length]
  congr 1
  omega

theorem valuePosition_unnamed (unnamed : member.name = []) (json : Bytes) :
    Lambpie.Runtime.valuePosition json (utf8 (rawChars member.name)) = none := by
  have empty := (rawChars_eq_nil_iff member.name).mpr unnamed
  unfold Lambpie.Runtime.valuePosition keyPosition
  rw [if_pos empty]
  rfl

end UniqueMember

private theorem takeWhile_to_quote (raw rest : Bytes) :
    (raw ++ quoteChar :: rest).takeWhile (· ≠ quoteChar) =
      raw.takeWhile (· ≠ quoteChar) := by
  induction raw with
  | nil => exact List.takeWhile_cons_of_neg (by simp)
  | cons c raw ih =>
      rw [List.cons_append]
      by_cases quote : c = quoteChar
      · rw [List.takeWhile_cons_of_neg (by simpa using quote),
          List.takeWhile_cons_of_neg (by simpa using quote)]
      · rw [List.takeWhile_cons_of_pos (by simpa using quote),
          List.takeWhile_cons_of_pos (by simpa using quote), ih]

private theorem stringToken_quoted (raw rest : Bytes) :
    stringToken (quotedKey raw ++ rest) =
      some (raw.takeWhile (· ≠ quoteChar)) := by
  have shape : quotedKey raw ++ rest =
      quoteChar :: (raw ++ quoteChar :: rest) := by
    simp [quotedKey]
  have shorter := (List.takeWhile_sublist (l := raw) (· ≠ quoteChar)).length_le
  rw [shape]
  simp only [stringToken, takeWhile_to_quote, true_and]
  rw [if_pos]
  rw [List.length_append, List.length_cons]
  omega

/-- What `json_get_str` finds for a string member: the raw characters up to
the first quote byte, and nothing for an empty name. -/
theorem strMember_of_string {object : FlatObject}
    {before after : List FlatMember} {member : FlatMember}
    (found : UniqueMember object before member after)
    {body : List StringChar} (isString : member.value = .string body) :
    strMember (utf8 object.chars) (utf8 (rawChars member.name)) =
      if member.name = [] then none
      else some
        { start := valueIndex object before member + 1
          len := ((utf8 (rawChars body)).takeWhile (· ≠ quoteChar)).length } := by
  have value : utf8 member.value.chars = quotedKey (utf8 (rawChars body)) := by
    rw [isString]
    exact utf8_quoted body
  unfold strMember
  by_cases unnamed : member.name = []
  · rw [UniqueMember.valuePosition_unnamed unnamed, if_pos unnamed]
    rfl
  · have opens : utf8 member.value.chars ++ utf8 (object.tail member after) =
        quoteChar :: (utf8 (rawChars body) ++ [quoteChar] ++
          utf8 (object.tail member after)) := by
      rw [value]
      rfl
    have arrived := found.valuePosition unnamed not_isWs_quote opens
    rw [arrived, if_neg unnamed]
    simp only [Option.bind_eq_bind, Option.bind_some, found.drop_valueIndex,
      value, stringToken_quoted, Option.pure_def]

private theorem takeWhile_length_eq_iff (raw : Bytes) :
    (raw.takeWhile (· ≠ quoteChar)).length = raw.length ↔
      quoteChar ∉ raw := by
  constructor
  · intro same inside
    have whole := (List.takeWhile_sublist (l := raw)
      (· ≠ quoteChar)).eq_of_length same
    rw [← whole] at inside
    have passed := List.mem_takeWhile_imp inside
    simp at passed
  · intro clean
    have whole := takeWhile_not_quote clean []
    rw [takeWhile_to_quote] at whole
    rw [whole]

private theorem isUnescaped_quotationMark : Rfc8259.isUnescaped quotationMark = false := by
  decide

/-- The only legal character with a quote byte in it is the escaped quotation
mark. -/
theorem quote_mem_stringChar (c : StringChar) :
    quotationMark ∈ c.chars ↔ c.chars = [Rfc8259.escape, quotationMark] := by
  have escapeNe : quotationMark ≠ Rfc8259.escape := by decide
  cases c with
  | unescaped c plain =>
      constructor
      · intro inside
        have same : quotationMark = c := List.mem_singleton.mp inside
        rw [← same, isUnescaped_quotationMark] at plain
        cases plain
      · intro impossible
        exact absurd (congrArg List.length impossible) (by simp [StringChar.chars])
  | short c legal =>
      simp [StringChar.chars, escapeNe, eq_comm]
  | unicode a b c d legal =>
      constructor
      · intro inside
        obtain ⟨unit, isHex⟩ := Option.isSome_iff_exists.mp legal
        have none := Rfc8259.hexUnit_quotes isHex
        have uNe : quotationMark ≠ 'u' := by decide
        rw [List.count_eq_zero] at none
        exact absurd (by simpa [StringChar.chars, escapeNe, uNe] using inside)
          none
      · intro impossible
        exact absurd (congrArg List.length impossible) (by simp [StringChar.chars])

private theorem quote_not_mem_raw_iff (body : List StringChar) :
    quoteChar ∉ utf8 (rawChars body) ↔
      ∀ c ∈ body, c.chars ≠ [Rfc8259.escape, quotationMark] := by
  have inBytes : quoteChar ∈ utf8 (rawChars body) ↔
      ∃ c ∈ body, quotationMark ∈ c.chars := by
    rw [Rfc8259.ascii_mem_utf8 (by decide)]
    unfold rawChars
    simp only [List.mem_flatMap]
    constructor
    · intro occurs
      obtain ⟨d, ⟨c, inBody, inChar⟩, code⟩ := occurs
      have same : d = quotationMark := Char.ext (UInt32.toNat_inj.mp code)
      exact ⟨c, inBody, same ▸ inChar⟩
    · intro occurs
      obtain ⟨c, inBody, inChar⟩ := occurs
      exact ⟨quotationMark, ⟨c, inBody, inChar⟩, rfl⟩
  rw [inBytes]
  simp only [quote_mem_stringChar, not_exists, not_and, ne_eq]

/-- `json_get_str` returns the bytes between the delimiting quotation marks of
the token at `index`, and writing the slice back writes the token. -/
structure ReadsToken (json key : Bytes) (index : Nat) (raw : Bytes) : Prop where
  returned : jsonGetStr json key =
    .ok (some { start := index + 1, len := raw.length })
  slice : Slice.bytes { start := index + 1, len := raw.length } json = raw
  echoed : ∀ initial text name,
    (writeText initial text >>= fun w => jsonWriteStr w name
      (Slice.bytes { start := index + 1, len := raw.length } json)) =
      writeText initial (text ++ separator text ++
        (JsonField.keyText name ++ quotedKey raw))

/-- For a string member whose quoted name occurs nowhere else, the whole token
is read if and only if the name is not empty and no quotation mark is escaped
in the value. -/
theorem string_member_read_iff (object : FlatObject)
    (before : List FlatMember) (member : FlatMember) (after : List FlatMember)
    (body : List StringChar)
    (found : UniqueMember object before member after)
    (isString : member.value = .string body) :
    ReadsToken (utf8 object.chars) (utf8 (rawChars member.name))
        (valueIndex object before member) (utf8 (rawChars body)) ↔
      member.name ≠ [] ∧
        ∀ c ∈ body, c.chars ≠ [Rfc8259.escape, quotationMark] := by
  have reads := strMember_of_string found isString
  rw [← quote_not_mem_raw_iff, ← takeWhile_length_eq_iff]
  constructor
  · intro token
    have returned := token.returned
    rw [jsonGetStr_eq, reads, Outcome.ok.injEq] at returned
    by_cases unnamed : member.name = []
    · rw [if_pos unnamed] at returned
      cases returned
    · rw [if_neg unnamed, Option.some.injEq, Slice.mk.injEq] at returned
      exact ⟨unnamed, returned.2⟩
  · intro condition
    obtain ⟨named, whole⟩ := condition
    have value : utf8 member.value.chars =
        quotedKey (utf8 (rawChars body)) := by
      rw [isString]
      exact utf8_quoted body
    have slice : Slice.bytes
        { start := valueIndex object before member + 1
          len := (utf8 (rawChars body)).length } (utf8 object.chars) =
        utf8 (rawChars body) := by
      have inside : (utf8 object.chars).drop
          (valueIndex object before member) =
          quoteChar :: (utf8 (rawChars body) ++ [quoteChar] ++
            utf8 (object.tail member after)) := by
        rw [found.drop_valueIndex, value]
        rfl
      unfold Slice.bytes
      rw [drop_succ_of_drop inside, List.append_assoc, List.take_left]
    refine ⟨?_, slice, ?_⟩
    · rw [jsonGetStr_eq, reads, if_neg named, whole]
    · intro initial text name
      rw [slice, writeText_str]
      rfl

def noBlank : Blank := ⟨[], by simp⟩

def singleton (name : List StringChar) (value : FlatValue) : FlatMember :=
  { beforeName := noBlank, name := name, afterName := noBlank
    beforeValue := ⟨[' '], by simp [isWhitespace]⟩, value := value, afterValue := noBlank }

def singletonObject (member : FlatMember) : FlatObject :=
  { leading := noBlank, inside := noBlank, members := [member]
    trailing := noBlank }

/-- `"k": "v"`. -/
def firstMember : FlatMember :=
  singleton [.unescaped 'k' (by decide)] (.string [.unescaped 'v' (by decide)])

/-- `"a": "b\nc"`, with the escape of a line feed. -/
def textMember : FlatMember :=
  singleton [.unescaped 'a' (by decide)]
    (.string [.unescaped 'b' (by decide), .short 'n' (by decide),
      .unescaped 'c' (by decide)])

/-- `"z": "é"`. -/
def lastMember : FlatMember :=
  singleton [.unescaped 'z' (by decide)] (.string [.unescaped 'é' (by decide)])

def textObject : FlatObject :=
  { leading := noBlank, inside := noBlank
    members := [firstMember, textMember, lastMember], trailing := noBlank }

/-- `"a": "b\"c"`. -/
def escapedMember : FlatMember :=
  singleton [.unescaped 'a' (by decide)]
    (.string [.unescaped 'b' (by decide), .short quotationMark (by decide),
      .unescaped 'c' (by decide)])

/-- `"": "b"`. -/
def unnamedMember : FlatMember :=
  singleton [] (.string [.unescaped 'b' (by decide)])

theorem string_member_read_plain :
    ReadsToken (utf8 textObject.chars) [0x61] 15 [0x62, 0x5C, 0x6E, 0x63] :=
  (string_member_read_iff textObject [firstMember] textMember [lastMember]
    [.unescaped 'b' (by decide), .short 'n' (by decide), .unescaped 'c' (by decide)]
    { members := rfl, once := occursOnce_of_check (by decide +kernel) } rfl).mpr
    (by decide)

/-- A value with an escaped quotation mark is cut there, and a member with an
empty name is not found. -/
theorem string_member_cut :
    (UniqueMember (singletonObject escapedMember) [] escapedMember [] ∧
      ¬ReadsToken (utf8 (singletonObject escapedMember).chars) [0x61]
        (valueIndex (singletonObject escapedMember) [] escapedMember)
        [0x62, 0x5C, 0x22, 0x63]) ∧
    UniqueMember (singletonObject unnamedMember) [] unnamedMember [] ∧
      ¬ReadsToken (utf8 (singletonObject unnamedMember).chars) []
        (valueIndex (singletonObject unnamedMember) [] unnamedMember)
        [0x62] := by
  refine ⟨⟨?_, ?_⟩, ?_, ?_⟩
  · exact { members := rfl, once := occursOnce_of_check (by decide) }
  · intro token
    exact absurd token.returned (by decide)
  · exact { members := rfl, once := occursOnce_of_check (by decide) }
  · intro token
    exact absurd token.returned (by decide)

end Lambpie.Runtime

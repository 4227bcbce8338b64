/-
What the JSON reader accepts on arbitrary bytes.

The reader settles on the least index of the quoted key.  What it accepts
behind that index is stated here as a split of the text, and the reader is
shown to return a slice exactly when there is such a split.  Sizes are natural
numbers: no sum in the C text exceeds the length of the text or of the quoted
key, so none of them wraps below 2^64.
-/
import Mathlib.Data.List.TakeWhile
import Lambpie.Runtime.JsonReader

namespace Lambpie.Runtime

open Foundations

def NameSeparator (gap : Bytes) : Prop :=
  ∃ before after, gap = before ++ colonChar :: after ∧
    (∀ c ∈ before, isWs c) ∧ ∀ c ∈ after, isWs c

private theorem not_isWs_colon : ¬isWs colonChar := by decide

theorem not_isWs_quote : ¬isWs quoteChar := by decide

/-- The separator is found in front of anything that is not whitespace. -/
theorem valueOffset_of_separator {gap value : Bytes} {c : UInt8}
    (separator : NameSeparator gap) (visible : ¬isWs c) :
    valueOffset (gap ++ c :: value) = some gap.length := by
  obtain ⟨before, after, rfl, blankBefore, blankAfter⟩ := separator
  have colonAt : (before ++ colonChar :: after) ++ c :: value =
      before ++ colonChar :: (after ++ c :: value) := by
    rw [List.append_assoc, List.cons_append]
  have afterTaken : (after ++ c :: value).takeWhile isWs = after := by
    rw [List.takeWhile_append_of_pos blankAfter,
      List.takeWhile_cons_of_neg visible, List.append_nil]
  have beforeTaken : (before ++ colonChar :: (after ++ c :: value)).takeWhile
      isWs = before := by
    rw [List.takeWhile_append_of_pos blankBefore,
      List.takeWhile_cons_of_neg not_isWs_colon, List.append_nil]
  have beforeDropped : (before ++ colonChar :: (after ++ c :: value)).dropWhile
      isWs = colonChar :: (after ++ c :: value) := by
    rw [List.dropWhile_append_of_pos blankBefore,
      List.dropWhile_cons_of_neg not_isWs_colon]
  rw [colonAt, valueOffset, beforeDropped, beforeTaken]
  simp only [if_true, afterTaken, List.length_append, List.length_cons]
  congr 1
  omega

private theorem separator_of_valueOffset {rest : Bytes} {offset : Nat}
    (found : valueOffset rest = some offset) :
    ∃ gap value, rest = gap ++ value ∧ NameSeparator gap ∧
      gap.length = offset := by
  unfold valueOffset at found
  have split := List.takeWhile_append_dropWhile (p := isWs) (l := rest)
  cases dropped : rest.dropWhile isWs with
  | nil =>
      rw [dropped] at found
      cases found
  | cons c tail =>
      rw [dropped] at found split
      by_cases colon : c = colonChar
      · simp only [if_pos colon, Option.some.injEq] at found
        subst colon
        have tailSplit := List.takeWhile_append_dropWhile (p := isWs) (l := tail)
        refine ⟨rest.takeWhile isWs ++ colonChar :: tail.takeWhile isWs,
          tail.dropWhile isWs, ?_, ?_, ?_⟩
        · rw [List.append_assoc, List.cons_append, tailSplit, split]
        · exact ⟨_, _, rfl, fun c member => List.mem_takeWhile_imp member,
            fun c member => List.mem_takeWhile_imp member⟩
        · rw [List.length_append, List.length_cons]
          omega
      · simp only [if_neg colon] at found
        cases found

theorem takeWhile_not_quote {token : Bytes} (clean : quoteChar ∉ token)
    (rest : Bytes) :
    (token ++ quoteChar :: rest).takeWhile (· ≠ quoteChar) = token := by
  rw [List.takeWhile_append_of_pos, List.takeWhile_cons_of_neg (by simp),
    List.append_nil]
  intro c member
  have differs : c ≠ quoteChar := fun same => clean (same ▸ member)
  simpa using differs

private theorem stringToken_eq_some_iff (text token : Bytes) :
    stringToken text = some token ↔
      ∃ rest, text = quoteChar :: (token ++ quoteChar :: rest) ∧
        quoteChar ∉ token := by
  constructor
  · intro found
    cases text with
    | nil => cases found
    | cons c value =>
        simp only [stringToken] at found
        by_cases accepted : c = quoteChar ∧
            (value.takeWhile (· ≠ quoteChar)).length < value.length
        · rw [if_pos accepted] at found
          cases found
          have split := List.takeWhile_append_dropWhile
            (p := fun c => decide (c ≠ quoteChar)) (l := value)
          have clean : quoteChar ∉ value.takeWhile (· ≠ quoteChar) := by
            intro member
            have passed := List.mem_takeWhile_imp member
            simp at passed
          cases dropped : value.dropWhile (· ≠ quoteChar) with
          | nil =>
              rw [dropped, List.append_nil] at split
              exact absurd accepted.2 (by rw [split]; omega)
          | cons d rest =>
              have stops := List.head?_dropWhile_not
                (fun c => decide (c ≠ quoteChar)) value
              rw [dropped] at stops
              have closing : d = quoteChar := by simpa using stops
              refine ⟨rest, ?_, clean⟩
              rw [dropped, closing] at split
              rw [split, accepted.1]
        · rw [if_neg accepted] at found
          cases found
  · intro split
    obtain ⟨rest, rfl, clean⟩ := split
    have taken := takeWhile_not_quote clean rest
    simp only [stringToken, taken, List.length_append, List.length_cons,
      true_and]
    rw [if_pos (by omega)]

/-- The least index at which the quoted key occurs completely inside the
text. -/
def LeastQuoted (json key : Bytes) (i : Nat) : Prop :=
  OccursAt (quotedKey key) json i ∧
    ∀ earlier < i, ¬OccursAt (quotedKey key) json earlier

/-- Behind the quoted key at `i` stand whitespace, a colon and whitespace, a
quote at `s - 1`, `n` bytes that are no quotes and a quote at `s + n`. -/
def StringFollows (json key : Bytes) (i s n : Nat) : Prop :=
  ∃ before after value rest,
    json.drop (i + key.length + 2) =
      before ++ colonChar :: after ++
        quoteChar :: (value ++ quoteChar :: rest) ∧
    (∀ c ∈ before, isWs c) ∧ (∀ c ∈ after, isWs c) ∧
    quoteChar ∉ value ∧
    s = i + key.length + 2 + before.length + 1 + after.length + 1 ∧
    n = value.length

def StringMember (json key : Bytes) (s n : Nat) : Prop :=
  ∃ i, LeastQuoted json key i ∧ StringFollows json key i s n

theorem keyPosition_eq_some_iff {json key : Bytes} (nonempty : key ≠ [])
    (i : Nat) :
    keyPosition json key = some i ↔ LeastQuoted json key i := by
  unfold keyPosition LeastQuoted
  rw [if_neg nonempty, firstOccurrence_eq_some_iff]

theorem StringFollows.inside {json key : Bytes} {i s n : Nat}
    (follows : StringFollows json key i s n) : s + n < json.length := by
  obtain ⟨before, after, value, rest, split, -, -, -, rfl, rfl⟩ := follows
  have lengths := congrArg List.length split
  simp only [List.length_drop, List.length_append, List.length_cons] at lengths
  omega

private theorem strMember_eq_some_iff {json key : Bytes} (nonempty : key ≠ [])
    (s n : Nat) :
    strMember json key = some { start := s, len := n } ↔
      StringMember json key s n := by
  unfold strMember valuePosition
  simp only [Option.bind_eq_bind, Option.bind_eq_some_iff, Option.pure_def,
    Option.some.injEq, Slice.mk.injEq, StringMember]
  constructor
  · intro found
    obtain ⟨pos, ⟨i, atKey, offset, gapAt, rfl⟩, token, tokenAt, rfl, rfl⟩ :=
      found
    obtain ⟨gap, value, gapSplit, ⟨before, after, rfl, blankBefore,
      blankAfter⟩, rfl⟩ := separator_of_valueOffset gapAt
    obtain ⟨rest, valueEq, clean⟩ := (stringToken_eq_some_iff _ _).mp tokenAt
    rw [drop_add_of_drop gapSplit] at valueEq
    refine ⟨i, (keyPosition_eq_some_iff nonempty i).mp atKey, before, after,
      token, rest, ?_, blankBefore, blankAfter, clean, ?_, rfl⟩
    · rw [← valueEq, ← gapSplit]
      congr 1
      omega
    · rw [List.length_append, List.length_cons]
      omega
  · intro member
    obtain ⟨i, least, before, after, value, rest, split, blankBefore,
      blankAfter, clean, rfl, rfl⟩ := member
    have afterKey : i + key.length + 2 = i + 1 + key.length + 1 := by omega
    rw [afterKey] at split
    have separator : NameSeparator (before ++ colonChar :: after) :=
      ⟨before, after, rfl, blankBefore, blankAfter⟩
    refine ⟨_, ⟨i, (keyPosition_eq_some_iff nonempty i).mpr least,
      (before ++ colonChar :: after).length, ?_, rfl⟩, value, ?_, ?_, rfl⟩
    · rw [split]
      exact valueOffset_of_separator separator not_isWs_quote
    · rw [drop_add_of_drop split]
      exact (stringToken_eq_some_iff _ _).mpr ⟨rest, rfl, clean⟩
    · rw [List.length_append, List.length_cons]
      omega

/-- The call as its caller sees it: the returned pointer, as an index into the
text, and what `*out_len` holds afterwards. -/
def jsonGetStrCall (json key : Bytes) (outLen : Nat) :
    Outcome (Option Nat × Nat) := do
  match ← jsonGetStr json key with
  | none => pure (none, outLen)
  | some slice => pure (some slice.start, slice.len)

private theorem jsonGetStrCall_eq (json key : Bytes) (outLen : Nat) :
    jsonGetStrCall json key outLen =
      .ok (match strMember json key with
        | none => (none, outLen)
        | some slice => (some slice.start, slice.len)) := by
  unfold jsonGetStrCall
  rw [jsonGetStr_eq, Outcome.ok_bind]
  cases strMember json key with
  | none => rfl
  | some slice => rfl

/-- Every loop of the readers is done when its counter is: more iterations than
there are bytes left change nothing. -/
def LoopsEnd (json key : Bytes) : Prop :=
  (∀ fuel pos, json.length ≤ pos + fuel →
    skipWsLoop json fuel pos = skipWs json pos ∧
      scanQuoteLoop json fuel pos =
        scanQuoteLoop json (json.length - pos) pos ∧
      ∀ result, readDigitsLoop json fuel pos result =
        readDigitsLoop json (json.length - pos) pos result) ∧
  ∀ fuel, json.length ≤ fuel →
    findKeyLoop json key fuel 0 = findKeyLoop json key json.length 0

private theorem loopsEnd (json key : Bytes) : LoopsEnd json key := by
  constructor
  · intro fuel pos enough
    have bound : json.length ≤ pos + (json.length - pos) := by omega
    refine ⟨?_, ?_, ?_⟩
    · rw [skipWsLoop_eq json fuel pos enough, skipWs_eq]
    · rw [scanQuoteLoop_eq json fuel pos enough,
        scanQuoteLoop_eq json _ pos bound]
    · intro result
      rw [readDigitsLoop_eq json fuel pos result enough,
        readDigitsLoop_eq json _ pos result bound]
  · intro fuel enough
    rw [findKeyLoop_eq json key fuel 0 (by omega),
      findKeyLoop_eq json key json.length 0 (by omega)]

/-- On every byte string and every non-empty key, `json_get_str` returns the
string member and its length if there is one, and otherwise `NULL` without
writing `*out_len`; `json_get_int` returns or exits.  Neither loops nor reads
outside the text. -/
theorem reader_sound (json key : Bytes) (outLen : Nat) (nonempty : key ≠ []) :
    (∀ s n, jsonGetStrCall json key outLen = .ok (some s, n) ↔
      StringMember json key s n) ∧
    ((¬∃ s n, StringMember json key s n) →
      jsonGetStrCall json key outLen = .ok (none, outLen)) ∧
    (∀ s n, StringMember json key s n → s + n < json.length) ∧
    ((∃ value, jsonGetInt json key = .ok value) ∨
      ∃ message, jsonGetInt json key = .exit 1 message) ∧
    LoopsEnd json key := by
  refine ⟨?_, ?_, ?_, ?_, loopsEnd json key⟩
  · intro s n
    rw [jsonGetStrCall_eq, ← strMember_eq_some_iff nonempty]
    cases strMember json key with
    | none => simp
    | some slice =>
        cases slice
        simp
  · intro noMember
    rw [jsonGetStrCall_eq]
    cases found : strMember json key with
    | none => rfl
    | some slice =>
        exact absurd ⟨slice.start, slice.len,
          (strMember_eq_some_iff nonempty _ _).mp found⟩ noMember
  · intro s n member
    obtain ⟨i, -, follows⟩ := member
    exact follows.inside
  · have cases := jsonGetInt_cases json key
    cases found : intMember json key with
    | none =>
        rw [found] at cases
        exact Or.inr cases
    | some value =>
        rw [found] at cases
        exact Or.inl ⟨value, cases⟩

/-- A truncated text: the value of the only member has no closing quote. -/
theorem reader_sound_truncated :
    let json : Bytes := [0x7B, 0x22, 0x61, 0x22, 0x3A, 0x22, 0x62]
    (¬∃ s n, StringMember json [0x61] s n) ∧
      jsonGetStrCall json [0x61] 9 = .ok (none, 9) := by
  intro json
  have sound := reader_sound json [0x61] 9 (by decide)
  have returned : jsonGetStrCall json [0x61] 9 = .ok (none, 9) := by decide
  refine ⟨?_, returned⟩
  intro found
  obtain ⟨s, n, member⟩ := found
  rw [(sound.1 s n).mpr member] at returned
  cases returned

end Lambpie.Runtime

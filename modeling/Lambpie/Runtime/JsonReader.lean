/-
The JSON reader on arbitrary bytes.

Each loop of the reader is a `takeWhile` on the rest of the text, and the key
search is the first occurrence of the quoted key.  Nothing here assumes that
the text is JSON: the lemmas say what the reader returns on every byte string,
and that it never reads past the end.
-/
import Lambpie.Foundations.Occurrence
import Lambpie.Runtime.Json

namespace Lambpie.Runtime

open Foundations

theorem charAt_of_drop {memory rest : Bytes} {pos : Nat} {c : UInt8}
    (suffix : memory.drop pos = c :: rest) : charAt memory pos = .ok c := by
  have here : memory[pos]? = some c := by
    rw [← List.head?_drop, suffix]
    rfl
  rw [charAt, here]

theorem lt_length_of_drop {memory rest : Bytes} {pos : Nat} {c : UInt8}
    (suffix : memory.drop pos = c :: rest) : pos < memory.length := by
  by_contra past
  rw [List.drop_eq_nil_of_le (by omega)] at suffix
  cases suffix

theorem drop_succ_of_drop {memory rest : Bytes} {pos : Nat} {c : UInt8}
    (suffix : memory.drop pos = c :: rest) : memory.drop (pos + 1) = rest := by
  rw [← List.drop_drop, suffix]
  rfl

theorem drop_add_of_drop {memory front rest : Bytes} {pos : Nat}
    (suffix : memory.drop pos = front ++ rest) :
    memory.drop (pos + front.length) = rest := by
  rw [← List.drop_drop, suffix, List.drop_left]

theorem skipWsLoop_eq (json : Bytes) (fuel pos : Nat)
    (enough : json.length ≤ pos + fuel) :
    skipWsLoop json fuel pos =
      .ok (pos + ((json.drop pos).takeWhile isWs).length) := by
  induction fuel generalizing pos with
  | zero =>
      rw [List.drop_eq_nil_of_le (by omega)]
      rfl
  | succ fuel ih =>
      unfold skipWsLoop
      cases suffix : json.drop pos with
      | nil =>
          have past : ¬pos < json.length := by
            rw [List.drop_eq_nil_iff] at suffix
            omega
          rw [if_neg past]
          rfl
      | cons c rest =>
          rw [if_pos (lt_length_of_drop suffix), charAt_of_drop suffix,
            Outcome.ok_bind]
          by_cases blank : isWs c
          · rw [if_pos blank, ih (pos + 1) (by omega),
              drop_succ_of_drop suffix, List.takeWhile_cons_of_pos blank,
              List.length_cons]
            congr 1
            omega
          · rw [if_neg blank, List.takeWhile_cons_of_neg blank]
            rfl

theorem skipWs_eq (json : Bytes) (pos : Nat) :
    skipWs json pos = .ok (pos + ((json.drop pos).takeWhile isWs).length) :=
  skipWsLoop_eq json _ pos (by omega)

private theorem drop_skipWs (json : Bytes) (pos : Nat) :
    json.drop (pos + ((json.drop pos).takeWhile isWs).length) =
      (json.drop pos).dropWhile isWs :=
  drop_add_of_drop (List.takeWhile_append_dropWhile).symm

theorem scanQuoteLoop_eq (json : Bytes) (fuel pos : Nat)
    (enough : json.length ≤ pos + fuel) :
    scanQuoteLoop json fuel pos =
      .ok (pos + ((json.drop pos).takeWhile (· ≠ quoteChar)).length) := by
  induction fuel generalizing pos with
  | zero =>
      rw [List.drop_eq_nil_of_le (by omega)]
      rfl
  | succ fuel ih =>
      unfold scanQuoteLoop
      cases suffix : json.drop pos with
      | nil =>
          have past : ¬pos < json.length := by
            rw [List.drop_eq_nil_iff] at suffix
            omega
          rw [if_neg past]
          rfl
      | cons c rest =>
          rw [if_pos (lt_length_of_drop suffix), charAt_of_drop suffix,
            Outcome.ok_bind]
          by_cases inside : c ≠ quoteChar
          · rw [if_pos inside, ih (pos + 1) (by omega),
              drop_succ_of_drop suffix,
              List.takeWhile_cons_of_pos (by simpa using inside),
              List.length_cons]
            congr 1
            omega
          · rw [if_neg inside, List.takeWhile_cons_of_neg (by simpa using inside)]
            rfl

def digitValue (c : UInt8) : Nat := c.toNat - zeroChar.toNat

def accumulate (start : Int64T) (ds : Bytes) : Int64T :=
  ds.foldl (fun acc c => acc * 10 + BitVec.ofNat 64 (digitValue c)) start

theorem readDigitsLoop_eq (json : Bytes) (fuel pos : Nat) (result : Int64T)
    (enough : json.length ≤ pos + fuel) :
    readDigitsLoop json fuel pos result =
      .ok (accumulate result ((json.drop pos).takeWhile isDigit)) := by
  induction fuel generalizing pos result with
  | zero =>
      rw [List.drop_eq_nil_of_le (by omega)]
      rfl
  | succ fuel ih =>
      unfold readDigitsLoop
      cases suffix : json.drop pos with
      | nil =>
          have past : ¬pos < json.length := by
            rw [List.drop_eq_nil_iff] at suffix
            omega
          rw [if_neg past]
          rfl
      | cons c rest =>
          rw [if_pos (lt_length_of_drop suffix), charAt_of_drop suffix,
            Outcome.ok_bind]
          by_cases digit : isDigit c
          · rw [if_pos digit, ih (pos + 1) _ (by omega),
              drop_succ_of_drop suffix, List.takeWhile_cons_of_pos digit]
            rfl
          · rw [if_neg digit, List.takeWhile_cons_of_neg digit]
            rfl

def quotedKey (key : Bytes) : Bytes := quoteChar :: (key ++ [quoteChar])

theorem quotedKey_length (key : Bytes) :
    (quotedKey key).length = key.length + 2 := by
  simp [quotedKey]

private theorem quoted_prefix_iff {key rest : Bytes} {c : UInt8}
    (long : key.length < rest.length) :
    quotedKey key <+: c :: rest ↔
      c = quoteChar ∧ rest.take key.length = key ∧
        rest[key.length]? = some quoteChar := by
  unfold quotedKey
  rw [List.cons_prefix_cons, eq_comm (a := quoteChar)]
  apply and_congr_right
  intro _opening
  constructor
  · rintro ⟨tail, rfl⟩
    simp
  · rintro ⟨body, closing⟩
    refine ⟨rest.drop (key.length + 1), ?_⟩
    have split := List.take_append_drop key.length rest
    rw [body] at split
    rw [List.getElem?_eq_getElem long, Option.some.injEq] at closing
    rw [List.drop_eq_getElem_cons long, closing] at split
    simpa [List.append_assoc] using split

theorem findKeyLoop_eq (json key : Bytes) (fuel i : Nat)
    (enough : json.length ≤ i + fuel) :
    findKeyLoop json key fuel i =
      .ok (match firstOccurrence (quotedKey key) (json.drop i) with
        | some found => i + found
        | none => json.length) := by
  induction fuel generalizing i with
  | zero =>
      rw [List.drop_eq_nil_of_le (by omega), firstOccurrence_none_of_short]
      · rfl
      · simp [quotedKey]
  | succ fuel ih =>
      unfold findKeyLoop
      by_cases guard : i + key.length + 1 < json.length
      · rw [if_pos guard]
        cases suffix : json.drop i with
        | nil =>
            rw [List.drop_eq_nil_iff] at suffix
            omega
        | cons c rest =>
            have restEq := drop_succ_of_drop suffix
            have restLength : rest.length = json.length - (i + 1) := by
              rw [← restEq, List.length_drop]
            have long : key.length < rest.length := by omega
            have same : memEqual json (i + 1) key =
                .ok (rest.take key.length = key) := by
              rw [memEqual, if_pos (by omega), restEq]
            have closing : charAt json (i + 1 + key.length) =
                .ok rest[key.length] := by
              refine charAt_of_drop (?_ : _ = _ :: rest.drop (key.length + 1))
              rw [← List.drop_drop, restEq, List.drop_eq_getElem_cons long]
            have continued := ih (i + 1) (by omega)
            rw [restEq] at continued
            rw [charAt_of_drop suffix, Outcome.ok_bind]
            by_cases occurs : quotedKey key <+: c :: rest
            · obtain ⟨opening, body, closed⟩ :=
                (quoted_prefix_iff long).mp occurs
              rw [List.getElem?_eq_getElem long, Option.some.injEq] at closed
              rw [firstOccurrence_at_start occurs, if_pos opening, same,
                Outcome.ok_bind, if_pos (by simpa using body), closing,
                Outcome.ok_bind, if_pos closed]
              rfl
            · have shifted :
                  findKeyLoop json key fuel (i + 1) =
                    .ok (match firstOccurrence (quotedKey key) (c :: rest) with
                      | some found => i + found
                      | none => json.length) := by
                rw [continued, firstOccurrence_later occurs]
                cases firstOccurrence (quotedKey key) rest with
                | none => rfl
                | some found =>
                    simp only [Option.map_some]
                    congr 1
                    omega
              rw [quoted_prefix_iff long, List.getElem?_eq_getElem long,
                Option.some.injEq] at occurs
              by_cases opening : c = quoteChar
              · rw [if_pos opening, same, Outcome.ok_bind]
                by_cases body : rest.take key.length = key
                · rw [if_pos (by simpa using body), closing, Outcome.ok_bind,
                    if_neg (fun closed => occurs ⟨opening, body, closed⟩),
                    shifted]
                · rw [if_neg (by simpa using body), shifted]
              · rw [if_neg opening, shifted]
      · rw [if_neg guard, firstOccurrence_none_of_short]
        rw [List.length_drop, quotedKey_length]
        omega

/-- The position the search settles on, `none` for the not-found sentinel. -/
def keyPosition (json key : Bytes) : Option Nat :=
  if key = [] then none else firstOccurrence (quotedKey key) json

private theorem keyPosition_lt {json key : Bytes} {i : Nat}
    (found : keyPosition json key = some i) :
    i + key.length + 2 ≤ json.length := by
  unfold keyPosition at found
  split at found
  · cases found
  · have occurs := ((firstOccurrence_eq_some_iff _ _ _).mp found).1
    have lengths := occurs.length_le
    rw [quotedKey_length, List.length_drop] at lengths
    omega

private theorem findKey_eq (json key : Bytes) :
    findKey json key = .ok ((keyPosition json key).getD json.length) := by
  unfold findKey keyPosition
  by_cases empty : key = []
  · rw [if_pos (Or.inl (by simp [empty])), if_pos empty]
    rfl
  · rw [if_neg empty]
    by_cases short : json.length < key.length + 2
    · rw [if_pos (Or.inr short), firstOccurrence_none_of_short
        (by rw [quotedKey_length]; exact short)]
      rfl
    · have nonempty : ¬key.length = 0 := by
        simpa using empty
      rw [if_neg (by simp [nonempty]; omega),
        findKeyLoop_eq json key _ 0 (by omega), List.drop_zero]
      cases firstOccurrence (quotedKey key) json with
      | none => rfl
      | some found => simp

/-- The bytes that whitespace, colon and whitespace take at the start of a
text. -/
def valueOffset (rest : Bytes) : Option Nat :=
  match rest.dropWhile isWs with
  | c :: value =>
      if c = colonChar then
        some ((rest.takeWhile isWs).length + 1 +
          (value.takeWhile isWs).length)
      else none
  | [] => none

private theorem seekValue_eq (json : Bytes) (pos : Nat) :
    seekValue json pos =
      .ok ((valueOffset (json.drop pos)).map (pos + ·)) := by
  unfold seekValue valueOffset
  rw [skipWs_eq, Outcome.ok_bind]
  have rest := drop_skipWs json pos
  generalize colonAt : pos + ((json.drop pos).takeWhile isWs).length = at'
    at rest ⊢
  cases suffix : (json.drop pos).dropWhile isWs with
  | nil =>
      rw [suffix, List.drop_eq_nil_iff] at rest
      rw [if_pos rest]
      rfl
  | cons c value =>
      rw [suffix] at rest
      rw [if_neg (by have := lt_length_of_drop rest; omega),
        charAt_of_drop rest, Outcome.ok_bind]
      by_cases colon : c = colonChar
      · rw [if_neg (by simpa using colon), skipWs_eq, Outcome.ok_bind,
          drop_succ_of_drop rest]
        simp only [colon, if_true, Option.map_some, ← colonAt]
        congr 2
        omega
      · rw [if_pos colon]
        simp [colon]

/-- The position of the value of a key: past the first occurrence of the
quoted key and the colon after it. -/
def valuePosition (json key : Bytes) : Option Nat := do
  let i ← keyPosition json key
  let afterKey := i + 1 + key.length + 1
  let gap ← valueOffset (json.drop afterKey)
  pure (afterKey + gap)

/-- The string token at the start of a text, without its quotes. -/
def stringToken (text : Bytes) : Option Bytes :=
  match text with
  | c :: value =>
      let token := value.takeWhile (· ≠ quoteChar)
      if c = quoteChar ∧ token.length < value.length then some token
      else none
  | [] => none

/-- The slice `json_get_str` is to find: the string token at the value
position of the key. -/
def strMember (json key : Bytes) : Option Slice := do
  let pos ← valuePosition json key
  let token ← stringToken (json.drop pos)
  pure { start := pos + 1, len := token.length }

private theorem readString_eq (json : Bytes) (pos : Nat) :
    (if pos ≥ json.length then pure none
      else do
        let c ← charAt json pos
        if c ≠ quoteChar then pure none
        else do
          let valStart := pos + 1
          let pos ← scanQuoteLoop json (json.length - valStart) valStart
          if pos ≥ json.length then pure none
          else pure (some { start := valStart, len := pos - valStart }) :
        Outcome (Option Slice)) =
      .ok ((stringToken (json.drop pos)).map
        fun token => { start := pos + 1, len := token.length }) := by
  cases suffix : json.drop pos with
  | nil =>
      rw [if_pos (by rw [List.drop_eq_nil_iff] at suffix; omega)]
      rfl
  | cons c value =>
      rw [if_neg (by have := lt_length_of_drop suffix; omega),
        charAt_of_drop suffix, Outcome.ok_bind]
      by_cases quoted : c = quoteChar
      · have valueEq := drop_succ_of_drop suffix
        have valueLength : value.length = json.length - (pos + 1) := by
          rw [← valueEq, List.length_drop]
        have before := lt_length_of_drop suffix
        rw [if_neg (by simpa using quoted)]
        simp only [scanQuoteLoop_eq json (json.length - (pos + 1)) (pos + 1)
          (by omega), Outcome.ok_bind, valueEq, stringToken, quoted, true_and]
        by_cases closed :
            (value.takeWhile (· ≠ quoteChar)).length < value.length
        · rw [if_neg (by omega), if_pos closed]
          simp
        · rw [if_pos (by omega), if_neg closed]
          rfl
      · rw [if_pos quoted]
        simp [stringToken, quoted]

/-- `json_get_str` returns the string member or `NULL`; it never leaves the
process and never reads outside the text. -/
theorem jsonGetStr_eq (json key : Bytes) :
    jsonGetStr json key = .ok (strMember json key) := by
  unfold jsonGetStr strMember valuePosition
  rw [findKey_eq, Outcome.ok_bind]
  cases found : keyPosition json key with
  | none => simp
  | some i =>
      have inRange := keyPosition_lt found
      simp only [Option.getD_some, Option.bind_eq_bind, Option.bind_some]
      rw [if_neg (by omega), seekValue_eq, Outcome.ok_bind]
      cases valueOffset (json.drop (i + 1 + key.length + 1)) with
      | none => rfl
      | some gap =>
          simp only [Option.map_some, Option.bind_some, Option.pure_def]
          rw [readString_eq]
          cases stringToken (json.drop (i + 1 + key.length + 1 + gap)) <;> rfl

/-- The integer token at the start of a text: an optional minus sign and the
value of the digits after it. -/
def intToken (text : Bytes) : Option Int64T :=
  match text with
  | c :: rest =>
      let digits := if c = minusChar then rest else text
      match digits with
      | d :: _ =>
          if isDigit d then
            let magnitude := accumulate 0 (digits.takeWhile isDigit)
            some (if c = minusChar then -magnitude else magnitude)
          else none
      | [] => none
  | [] => none

def intMember (json key : Bytes) : Option Int64T := do
  let pos ← valuePosition json key
  intToken (json.drop pos)

/-- A computation that either returns a given value or exits with status 1. -/
def ReturnsOrExits {α : Type} (expected : Option α) (outcome : Outcome α) :
    Prop :=
  match expected with
  | some value => outcome = .ok value
  | none => ∃ message, outcome = .exit 1 message

private theorem readInt_cases (json : Bytes) (pos : Nat)
    (truncated noDigit : String) :
    ReturnsOrExits (intToken (json.drop pos))
      (if pos ≥ json.length then .exit 1 truncated
        else do
          let c ← charAt json pos
          let negative := decide (c = minusChar)
          let pos := if negative then pos + 1 else pos
          let noDigit : Outcome Int64T := .exit 1 noDigit
          if pos ≥ json.length then noDigit
          else do
            let c ← charAt json pos
            if isDigit c then do
              let result ← readDigitsLoop json (json.length - pos) pos 0
              pure (if negative then -result else result)
            else noDigit) := by
  cases suffix : json.drop pos with
  | nil =>
      rw [if_pos (by rw [List.drop_eq_nil_iff] at suffix; omega)]
      exact ⟨_, rfl⟩
  | cons c rest =>
      have digitsAt : json.drop (if decide (c = minusChar) then pos + 1
          else pos) = if c = minusChar then rest else c :: rest := by
        by_cases minus : c = minusChar
        · simp [minus, drop_succ_of_drop suffix]
        · simp [minus, suffix]
      rw [if_neg (by have := lt_length_of_drop suffix; omega),
        charAt_of_drop suffix, Outcome.ok_bind]
      simp only [intToken]
      generalize (if decide (c = minusChar) then pos + 1 else pos) = digitPos
        at digitsAt ⊢
      cases digits : (if c = minusChar then rest else c :: rest) with
      | nil =>
          rw [digits, List.drop_eq_nil_iff] at digitsAt
          rw [if_pos digitsAt]
          exact ⟨_, rfl⟩
      | cons d more =>
          rw [digits] at digitsAt
          have inside : ¬digitPos ≥ json.length := by
            have := lt_length_of_drop digitsAt
            omega
          rw [if_neg inside, charAt_of_drop digitsAt, Outcome.ok_bind]
          by_cases digit : isDigit d
          · simp only [digit, if_true, ReturnsOrExits]
            rw [readDigitsLoop_eq _ _ _ _ (by omega), Outcome.ok_bind,
              digitsAt]
            by_cases minus : c = minusChar <;> simp [minus]
          · simp only [digit, if_false, Bool.false_eq_true]
            exact ⟨_, rfl⟩

/-- `json_get_int` returns the integer member or leaves through `exit(1)`; it
never reads outside the text. -/
theorem jsonGetInt_cases (json key : Bytes) :
    ReturnsOrExits (intMember json key) (jsonGetInt json key) := by
  unfold jsonGetInt intMember valuePosition
  rw [findKey_eq, Outcome.ok_bind]
  cases found : keyPosition json key with
  | none =>
      rw [if_pos (by rfl)]
      exact ⟨_, rfl⟩
  | some i =>
      have inRange := keyPosition_lt found
      simp only [Option.getD_some, Option.bind_eq_bind, Option.bind_some]
      rw [if_neg (by omega), seekValue_eq, Outcome.ok_bind]
      cases valueOffset (json.drop (i + 1 + key.length + 1)) with
      | none => exact ⟨_, rfl⟩
      | some gap =>
          simp only [Option.map_some, Option.bind_some, Option.pure_def]
          exact readInt_cases _ _ _ _

theorem jsonGetInt_eq_ok_iff (json key : Bytes) (value : Int64T) :
    jsonGetInt json key = .ok value ↔ intMember json key = some value := by
  have both := jsonGetInt_cases json key
  cases member : intMember json key with
  | none =>
      rw [member] at both
      obtain ⟨message, exited⟩ := both
      simp [exited]
  | some found =>
      rw [member] at both
      simp only [ReturnsOrExits] at both
      simp [both]

end Lambpie.Runtime

/-
Number members of flat RFC 8259 objects.

A number token begins with an integer part, and that is all the reader reads
of it.  So the reader is exact when the fraction and the exponent leave the
integer part as the value and the digit loop does not leave the signed 64-bit
range; it never rejects a number token of a named member.
-/
import Mathlib.Tactic.NormNum
import Lambpie.Runtime.FlatMembers
import Lambpie.Runtime.JsonResponse
import Lambpie.Runtime.JsonRoundTrip

namespace Lambpie.Runtime

open Foundations
open Foundations.Rfc8259 (FlatMember FlatObject FlatValue NumberToken utf8
  utf8_append utf8_cons rawChars digitChars naturalValue)

/-! ### The values the reader computes -/

/-- The digit loop over the integers, with every product and every sum it
computes. -/
def readDigitsValues (json : Bytes) : Nat → Nat → Int → List Int
  | 0, _, _ => []
  | fuel + 1, pos, result =>
      match json[pos]? with
      | some c =>
          if isDigit c then
            let product := result * 10
            let sum := product + (c.toNat - zeroChar.toNat : Nat)
            product :: sum :: readDigitsValues json fuel (pos + 1) sum
          else []
      | none => []

/-- The values computed from the sign on, over the integers: those of the digit
loop and, behind a minus sign, the negation of the last of them. -/
def readIntValues (json : Bytes) (pos : Nat) : List Int :=
  let negative := json[pos]? = some minusChar
  let pos := if negative then pos + 1 else pos
  let values := readDigitsValues json (json.length - pos) pos 0
  if negative then values ++ [-values.getLastD 0] else values

/-- Every value `json_get_int` computes on its way to its result. -/
def jsonGetIntValues (json key : Bytes) : List Int :=
  match valuePosition json key with
  | none => []
  | some pos => readIntValues json pos

def digitValues : Nat → List Nat → List Nat
  | _, [] => []
  | start, d :: rest =>
      start * 10 :: (start * 10 + d) :: digitValues (start * 10 + d) rest

/-- The rest of a text does not go on with a digit. -/
def StopsDigits (tail : Bytes) : Prop := ∀ b ∈ tail.head?, isDigit b = false

theorem stopsDigits_cons {b : UInt8} (stop : isDigit b = false) (rest : Bytes) :
    StopsDigits (b :: rest) := by
  intro other same
  cases same
  exact stop

private theorem readDigitsValues_eq (json : Bytes) (fuel pos start : Nat)
    (ds : List Nat) (small : ∀ d ∈ ds, d < 10) {tail : Bytes}
    (stop : StopsDigits tail) (suffix : json.drop pos = ds.map digitChar ++ tail)
    (enough : ds.length ≤ fuel) :
    readDigitsValues json fuel pos start =
      List.map (fun value : Nat => (value : Int)) (digitValues start ds) := by
  induction ds generalizing fuel pos start with
  | nil =>
      cases fuel with
      | zero => rfl
      | succ fuel =>
          have here : json[pos]? = tail.head? := by
            rw [← List.head?_drop, suffix]
            rfl
          cases next : tail.head? with
          | none =>
              rw [next] at here
              simp [readDigitsValues, here, digitValues]
          | some b =>
              rw [next] at here
              simp [readDigitsValues, here, stop b next, digitValues]
  | cons d ds ih =>
      cases fuel with
      | zero => exact absurd enough (by simp)
      | succ fuel =>
          rw [List.map_cons, List.cons_append] at suffix
          have here : json[pos]? = some (digitChar d) := by
            rw [← List.head?_drop, suffix]
            rfl
          have bound := small d List.mem_cons_self
          have digit := digitValue_digitChar bound
          unfold digitValue at digit
          have later := ih fuel (pos + 1) (start * 10 + d)
            (fun e member => small e (List.mem_cons_of_mem d member))
            (drop_succ_of_drop suffix)
            (Nat.le_of_succ_le_succ (by simpa using enough))
          simp only [readDigitsValues, here, digitChar_isDigit bound, if_true,
            digit, digitValues, List.map_cons]
          push_cast at later ⊢
          rw [later]

private theorem foldl_digits_mono (start : Nat) (ds : List Nat) :
    start ≤ ds.foldl (fun acc d => acc * 10 + d) start := by
  induction ds generalizing start with
  | nil => exact Nat.le_refl _
  | cons d rest ih =>
      have later := ih (start * 10 + d)
      rw [List.foldl_cons]
      omega

private theorem digitValues_le {start value : Nat} {ds : List Nat}
    (member : value ∈ digitValues start ds) :
    value ≤ ds.foldl (fun acc d => acc * 10 + d) start := by
  induction ds generalizing start with
  | nil => cases member
  | cons d rest ih =>
      have grows := foldl_digits_mono (start * 10 + d) rest
      rw [List.foldl_cons]
      rcases List.mem_cons.mp member with product | more
      · omega
      · rcases List.mem_cons.mp more with sum | later
        · omega
        · exact ih later

private theorem getLastD_digitValues {start : Nat} {ds : List Nat} (nonempty : ds ≠ [])
    (other : Nat) :
    (digitValues start ds).getLastD other =
      ds.foldl (fun acc d => acc * 10 + d) start := by
  induction ds generalizing start other with
  | nil => exact absurd rfl nonempty
  | cons d rest ih =>
      cases rest with
      | nil => rfl
      | cons e more =>
          rw [List.foldl_cons]
          exact ih (List.cons_ne_nil e more) (start * 10 + d)

/-! ### The integer part -/

def signedDigits (negative : Bool) (ds : List Nat) : Bytes :=
  (if negative then [minusChar] else []) ++ ds.map digitChar

theorem digitChar_ne_minus {d : Nat} (small : d < 10) :
    digitChar d ≠ minusChar := by
  intro same
  have digit := digitChar_isDigit small
  rw [same] at digit
  exact absurd digit (by decide)

theorem takeWhile_digitBytes {ds : List Nat} (small : ∀ d ∈ ds, d < 10) {tail : Bytes}
    (stop : StopsDigits tail) :
    (ds.map digitChar ++ tail).takeWhile isDigit = ds.map digitChar := by
  have none : tail.takeWhile isDigit = [] := by
    cases tail with
    | nil => rfl
    | cons b rest => exact List.takeWhile_cons_of_neg (by simp [stop b rfl])
  rw [List.takeWhile_append_of_pos, none, List.append_nil]
  intro c member
  obtain ⟨d, inDigits, rfl⟩ := List.mem_map.mp member
  exact digitChar_isDigit (small d inDigits)

theorem accumulate_value {ds : List Nat} (small : ∀ d ∈ ds, d < 10) :
    accumulate 0 (ds.map digitChar) = BitVec.ofNat 64 (Decimal.value ds) :=
  accumulate_digits 0 ds small

theorem intToken_signedDigits (negative : Bool) {ds : List Nat}
    (nonempty : ds ≠ []) (small : ∀ d ∈ ds, d < 10) {tail : Bytes}
    (stop : StopsDigits tail) :
    intToken (signedDigits negative ds ++ tail) =
      some (if negative then -BitVec.ofNat 64 (Decimal.value ds)
        else BitVec.ofNat 64 (Decimal.value ds)) := by
  have run := takeWhile_digitBytes small stop
  have magnitude := accumulate_value small
  obtain ⟨d, more, rfl⟩ := List.exists_cons_of_ne_nil nonempty
  have bound := small d List.mem_cons_self
  have digit := digitChar_isDigit bound
  have notMinus := digitChar_ne_minus bound
  simp only [List.map_cons, List.cons_append] at run magnitude
  cases negative with
  | true =>
      simp only [signedDigits, if_true, List.map_cons, List.cons_append,
        List.nil_append, intToken, digit, run, magnitude]
  | false =>
      simp only [signedDigits, Bool.false_eq_true, if_false, List.map_cons,
        List.cons_append, List.nil_append, intToken, notMinus, digit, if_true,
        run, magnitude]

theorem toInt_signed (negative : Bool) {n : Nat} (small : n < 2 ^ 63) :
    (if negative then -BitVec.ofNat 64 n else BitVec.ofNat 64 n).toInt =
      if negative then -(n : Int) else n := by
  have magnitude : (BitVec.ofNat 64 n).toInt = n := by
    rw [BitVec.toInt_ofNat', Int.bmod_eq_of_le] <;> omega
  cases negative with
  | false => exact magnitude
  | true =>
      simp only [if_true]
      rw [BitVec.toInt_neg, magnitude, Int.bmod_eq_of_le] <;> omega

theorem readIntValues_eq {json : Bytes} {pos : Nat} (negative : Bool)
    {ds : List Nat} (nonempty : ds ≠ []) (small : ∀ d ∈ ds, d < 10) {tail : Bytes}
    (stop : StopsDigits tail)
    (suffix : json.drop pos = signedDigits negative ds ++ tail) :
    readIntValues json pos =
      List.map (fun value : Nat => (value : Int)) (digitValues 0 ds) ++
        (if negative then [-(Decimal.value ds : Int)] else []) := by
  have last : (List.map (fun value : Nat => (value : Int))
      (digitValues 0 ds)).getLastD 0 = (Decimal.value ds : Int) := by
    have natural := @getLastD_digitValues 0 ds nonempty 0
    rw [List.getLastD_eq_getLast?] at natural ⊢
    rw [List.getLast?_map]
    unfold Decimal.value
    rw [← natural]
    cases (digitValues 0 ds).getLast? <;> rfl
  have values (start : Nat) (digits : json.drop start = ds.map digitChar ++ tail) :
      readDigitsValues json (json.length - start) start 0 =
        List.map (fun value : Nat => (value : Int)) (digitValues 0 ds) := by
    have room : ds.length ≤ json.length - start := by
      have lengths := congrArg List.length digits
      simp only [List.length_drop, List.length_append, List.length_map] at lengths
      omega
    exact readDigitsValues_eq json _ start 0 ds small stop digits room
  unfold readIntValues
  cases negative with
  | true =>
      have sign : json[pos]? = some minusChar := by
        rw [← List.head?_drop, suffix]
        rfl
      have digits : json.drop (pos + 1) = ds.map digitChar ++ tail :=
        drop_succ_of_drop suffix
      simp only [sign, if_true, values (pos + 1) digits, last]
  | false =>
      have digits : json.drop pos = ds.map digitChar ++ tail := suffix
      have sign : json[pos]? ≠ some minusChar := by
        obtain ⟨d, more, rfl⟩ := List.exists_cons_of_ne_nil nonempty
        rw [← List.head?_drop, digits]
        intro same
        exact digitChar_ne_minus (small d List.mem_cons_self) (Option.some.inj same)
      simp only [sign, if_false, values pos digits, Bool.false_eq_true, List.append_nil]

/-! ### Number tokens in bytes -/

/-- A character that may stand behind the integer part of a number. -/
def EndsInteger (c : Char) : Prop :=
  Rfc8259.isWhitespace c ∨ c ∈ ['.', 'e', 'E', ',', '\x7d']

theorem EndsInteger.byte {c : Char} (ends : EndsInteger c) :
    ∃ b, String.utf8EncodeChar c = [b] ∧ isDigit b = false := by
  rcases ends with blank | mark
  · obtain ⟨b, single, blankByte⟩ := utf8_whitespace blank
    have codes : b = 0x20 ∨ b = 0x09 ∨ b = 0x0D ∨ b = 0x0A := by
      simpa [isWs, or_assoc] using blankByte
    refine ⟨b, single, ?_⟩
    rcases codes with code | code | code | code <;> rw [code] <;> decide
  · have all : ∀ c ∈ ['.', 'e', 'E', ',', '\x7d'],
        ∃ b, String.utf8EncodeChar c = [b] ∧ isDigit b = false := by
      simp only [List.forall_mem_cons, List.not_mem_nil, false_implies,
        implies_true, and_true]
      exact ⟨⟨0x2E, by decide⟩, ⟨0x65, by decide⟩, ⟨0x45, by decide⟩,
        ⟨0x2C, by decide⟩, ⟨0x7D, by decide⟩⟩
    exact all c mark

private theorem endsInteger_after_whole (token : NumberToken) {tail : List Char}
    (tailEnds : ∃ c rest, tail = c :: rest ∧ EndsInteger c) :
    ∃ c rest, (token.fractionChars ++ token.exponentChars) ++ tail = c :: rest ∧
      EndsInteger c := by
  unfold NumberToken.fractionChars
  by_cases whole : token.fraction = []
  · rw [if_pos whole, List.nil_append]
    unfold NumberToken.exponentChars
    cases token.exponent with
    | none => exact tailEnds
    | some exponent =>
        refine ⟨_, _, rfl, Or.inr ?_⟩
        cases exponent.upper <;> decide
  · rw [if_neg whole]
    exact ⟨'.', _, rfl, Or.inr (by decide)⟩

private theorem utf8_digitChars (ds : List (Fin 10)) :
    utf8 (digitChars ds) = (ds.map Fin.val).map digitChar := by
  have small : ∀ d ∈ ds.map Fin.val, d < 10 := by
    intro d member
    obtain ⟨digit, -, rfl⟩ := List.mem_map.mp member
    exact digit.isLt
  rw [← utf8_digits _ small, List.map_map]
  rfl

private theorem utf8_number (token : NumberToken) {tail : List Char}
    (tailEnds : ∃ c rest, tail = c :: rest ∧ EndsInteger c) :
    ∃ b rest, utf8 token.chars ++ utf8 tail =
        signedDigits token.negative (token.whole.map Fin.val) ++ b :: rest ∧
      isDigit b = false := by
  obtain ⟨c, more, behind, ends⟩ := endsInteger_after_whole token tailEnds
  obtain ⟨b, single, stop⟩ := ends.byte
  refine ⟨b, utf8 more, ?_, stop⟩
  have sign : utf8 (if token.negative then ['-'] else []) =
      if token.negative then [minusChar] else [] := by
    cases token.negative <;> rfl
  unfold NumberToken.chars signedDigits
  rw [← utf8_append, List.append_assoc, behind, utf8_append, utf8_append,
    utf8_cons, single, utf8_digitChars, sign]
  rfl

private theorem signedDigits_head (negative : Bool) {ds : List Nat} (nonempty : ds ≠ [])
    (small : ∀ d ∈ ds, d < 10) (rest : Bytes) :
    ∃ b more, signedDigits negative ds ++ rest = b :: more ∧ ¬isWs b := by
  obtain ⟨d, ds, rfl⟩ := List.exists_cons_of_ne_nil nonempty
  have bound := small d List.mem_cons_self
  cases negative with
  | true => exact ⟨minusChar, _, rfl, by decide⟩
  | false =>
      refine ⟨digitChar d, _, rfl, ?_⟩
      have visible : ∀ d < 10, ¬isWs (digitChar d) := by decide
      exact visible d bound

/-! ### Number members -/

private theorem number_at_value (object : FlatObject) (after : List FlatMember)
    {member : FlatMember} {token : NumberToken}
    (isNumber : member.value = .number token) :
    ∃ b rest, utf8 member.value.chars ++ utf8 (object.tail member after) =
        signedDigits token.negative (token.whole.map Fin.val) ++ b :: rest ∧
      isDigit b = false := by
  obtain ⟨c, rest, tail, marks⟩ := object.tail_head member after
  have ends : EndsInteger c := by
    rcases marks with blank | rfl | rfl
    · exact Or.inl blank
    · exact Or.inr (by decide)
    · exact Or.inr (by decide)
  rw [isNumber]
  exact utf8_number token ⟨c, rest, tail, ends⟩

private theorem whole_small (token : NumberToken) :
    ∀ d ∈ token.whole.map Fin.val, d < 10 := by
  intro d member
  obtain ⟨digit, -, rfl⟩ := List.mem_map.mp member
  exact digit.isLt

private theorem whole_nonempty (token : NumberToken) : token.whole.map Fin.val ≠ [] := by
  rw [ne_eq, List.map_eq_nil_iff]
  exact token.wholeNonempty

private theorem number_valuePosition {object : FlatObject}
    {before after : List FlatMember} {member : FlatMember}
    (found : UniqueMember object before member after) (named : member.name ≠ [])
    {token : NumberToken} (isNumber : member.value = .number token) :
    valuePosition (utf8 object.chars) (utf8 (rawChars member.name)) =
      some (valueIndex object before member) := by
  obtain ⟨b, rest, value, -⟩ := number_at_value object after isNumber
  obtain ⟨first, more, head, visible⟩ := signedDigits_head token.negative
    (whole_nonempty token) (whole_small token) (b :: rest)
  exact found.valuePosition named visible (value.trans head)

/-- `json_get_int` returns the integer part, modulo 2^64. -/
theorem jsonGetInt_number {object : FlatObject}
    {before after : List FlatMember} {member : FlatMember}
    (found : UniqueMember object before member after) (named : member.name ≠ [])
    {token : NumberToken} (isNumber : member.value = .number token) :
    jsonGetInt (utf8 object.chars) (utf8 (rawChars member.name)) =
      .ok (if token.negative then -BitVec.ofNat 64 (naturalValue token.whole)
        else BitVec.ofNat 64 (naturalValue token.whole)) := by
  obtain ⟨b, rest, value, stop⟩ := number_at_value object after isNumber
  rw [jsonGetInt_eq_ok_iff]
  unfold intMember
  rw [number_valuePosition found named isNumber]
  simp only [Option.bind_eq_bind, Option.bind_some, found.drop_valueIndex, value]
  exact intToken_signedDigits token.negative (whole_nonempty token)
    (whole_small token) (stopsDigits_cons stop rest)

private theorem jsonGetIntValues_number {object : FlatObject}
    {before after : List FlatMember} {member : FlatMember}
    (found : UniqueMember object before member after) (named : member.name ≠ [])
    {token : NumberToken} (isNumber : member.value = .number token) :
    jsonGetIntValues (utf8 object.chars) (utf8 (rawChars member.name)) =
      List.map (fun value : Nat => (value : Int))
          (digitValues 0 (token.whole.map Fin.val)) ++
        (if token.negative then [-(naturalValue token.whole : Int)] else []) := by
  obtain ⟨b, rest, value, stop⟩ := number_at_value object after isNumber
  have suffix := found.drop_valueIndex
  rw [value] at suffix
  unfold jsonGetIntValues
  rw [number_valuePosition found named isNumber]
  exact readIntValues_eq token.negative (whole_nonempty token) (whole_small token)
    (stopsDigits_cons stop rest) suffix

/-! ### Exact or rejected -/

def Representable (n : Int) : Prop := -2 ^ 63 ≤ n ∧ n < 2 ^ 63

instance (n : Int) : Decidable (Representable n) :=
  inferInstanceAs (Decidable (_ ∧ _))

/-- `json_get_int` returns `n`, and no value on the way leaves the signed
64-bit range. -/
structure ReadsInteger (json key : Bytes) (n : Int) : Prop where
  returned : ∃ value, jsonGetInt json key = .ok value ∧ value.toInt = n
  inRange : ∀ value ∈ jsonGetIntValues json key, Representable value

/-- A token that denotes a signed 64-bit integer is read as that integer, and
every other token is rejected. -/
structure ReadExactlyOrRejected (json key : Bytes) (token : NumberToken) :
    Prop where
  exact : ∀ n : Int, token.value = n → Representable n →
    ReadsInteger json key n
  rejected : (¬∃ n : Int, token.value = n ∧ Representable n) →
    ∃ message, jsonGetInt json key = .exit 1 message

/-- The values of the digit loop are in range exactly when the integer part
is. -/
theorem digitValues_small_iff {ds : List Nat} (nonempty : ds ≠ []) :
    (∀ value ∈ digitValues 0 ds, value < 2 ^ 63) ↔
      Decimal.value ds < 2 ^ 63 := by
  constructor
  · intro inRange
    have last := @getLastD_digitValues 0 ds nonempty 0
    unfold Decimal.value
    rw [← last]
    cases values : digitValues 0 ds with
    | nil => decide
    | cons first more =>
        have inside : (first :: more).getLastD 0 ∈ first :: more :=
          List.getLast_mem (List.cons_ne_nil first more)
        rw [values] at inRange
        exact inRange _ inside
  · intro small value member
    exact Nat.lt_of_le_of_lt (digitValues_le member) small

private theorem wholePart_eq (token : NumberToken) :
    token.wholePart =
      if token.negative then -(naturalValue token.whole : Int)
      else naturalValue token.whole := rfl

/-- A named member is read as its integer part as long as that is in range. -/
theorem readsInteger_iff {object : FlatObject}
    {before after : List FlatMember} {member : FlatMember}
    (found : UniqueMember object before member after) (named : member.name ≠ [])
    {token : NumberToken} (isNumber : member.value = .number token) (n : Int) :
    ReadsInteger (utf8 object.chars) (utf8 (rawChars member.name)) n ↔
      naturalValue token.whole < 2 ^ 63 ∧ n = token.wholePart := by
  have returned := jsonGetInt_number found named isNumber
  have values := jsonGetIntValues_number found named isNumber
  constructor
  · intro reads
    have small : naturalValue token.whole < 2 ^ 63 := by
      apply (digitValues_small_iff (whole_nonempty token)).mp
      intro value inside
      have bound := (reads.inRange value (by
        rw [values]
        exact List.mem_append_left _ (List.mem_map.mpr ⟨value, inside, rfl⟩))).2
      omega
    obtain ⟨value, same, valueInt⟩ := reads.returned
    rw [returned, Outcome.ok.injEq] at same
    rw [← same, toInt_signed token.negative small] at valueInt
    exact ⟨small, valueInt.symm⟩
  · intro condition
    obtain ⟨small, rfl⟩ := condition
    refine ⟨⟨_, returned, toInt_signed token.negative small⟩, ?_⟩
    have inRange := (digitValues_small_iff (whole_nonempty token)).mpr small
    intro value member
    rw [values] at member
    rcases List.mem_append.mp member with positive | negated
    · obtain ⟨natural, inside, rfl⟩ := List.mem_map.mp positive
      have bound := inRange natural inside
      constructor <;> omega
    · cases negative : token.negative with
      | false =>
          rw [negative] at negated
          cases negated
      | true =>
          rw [negative] at negated
          have same := List.mem_singleton.mp negated
          constructor <;> omega

/-- For a number member whose quoted name occurs nowhere else, the token is
read exactly or rejected if and only if its integer part has a magnitude below
2^63 and is its value; under an empty name, if and only if it denotes no
signed 64-bit integer. -/
theorem number_member_read_iff (object : FlatObject)
    (before : List FlatMember) (member : FlatMember) (after : List FlatMember)
    (token : NumberToken) (found : UniqueMember object before member after)
    (isNumber : member.value = .number token) :
    ReadExactlyOrRejected (utf8 object.chars) (utf8 (rawChars member.name))
        token ↔
      (member.name ≠ [] ∧ naturalValue token.whole < 2 ^ 63 ∧
        token.value = token.wholePart) ∨
      (member.name = [] ∧ ¬∃ n : Int, token.value = n ∧ Representable n) := by
  by_cases unnamed : member.name = []
  · have exits : ∃ message, jsonGetInt (utf8 object.chars)
        (utf8 (rawChars member.name)) = .exit 1 message := by
      have cases := jsonGetInt_cases (utf8 object.chars)
        (utf8 (rawChars member.name))
      unfold intMember at cases
      rw [UniqueMember.valuePosition_unnamed unnamed] at cases
      exact cases
    constructor
    · intro reads
      refine Or.inr ⟨unnamed, ?_⟩
      intro denotes
      obtain ⟨n, value, representable⟩ := denotes
      obtain ⟨read, returned, -⟩ := (reads.exact n value representable).returned
      obtain ⟨message, exited⟩ := exits
      rw [returned] at exited
      cases exited
    · intro condition
      rcases condition with ⟨named, -⟩ | ⟨-, denotesNone⟩
      · exact absurd unnamed named
      · exact
          { exact := fun n value representable =>
              absurd ⟨n, value, representable⟩ denotesNone
            rejected := fun _ => exits }
  · have reads := readsInteger_iff found unnamed isNumber
    have returned := jsonGetInt_number found unnamed isNumber
    constructor
    · intro exactly
      have denotes : ∃ n : Int, token.value = n ∧ Representable n := by
        by_contra denotesNone
        obtain ⟨message, exited⟩ := exactly.rejected denotesNone
        rw [returned] at exited
        cases exited
      obtain ⟨n, value, representable⟩ := denotes
      obtain ⟨small, same⟩ :=
        (reads n).mp (exactly.exact n value representable)
      exact Or.inl ⟨unnamed, small, same ▸ value⟩
    · intro condition
      rcases condition with ⟨-, small, value⟩ | ⟨named, -⟩
      · constructor
        · intro n denoted _representable
          have same : n = token.wholePart := by
            rw [value] at denoted
            exact_mod_cast denoted.symm
          exact (reads n).mpr ⟨small, same⟩
        · intro denotesNone
          have representable : Representable token.wholePart := by
            rw [wholePart_eq]
            split <;> constructor <;> omega
          exact absurd ⟨token.wholePart, value, representable⟩ denotesNone
      · exact absurd named unnamed

/-! ### Four tokens -/

def integerToken (negative : Bool) (whole : List (Fin 10))
    (nonempty : whole ≠ []) (canonical : whole = [0] ∨ whole.head? ≠ some 0) :
    NumberToken :=
  { negative := negative, whole := whole, fraction := [], exponent := none
    wholeNonempty := nonempty, noLeadingZero := canonical }

def numberMember (token : NumberToken) : FlatMember :=
  singleton [.unescaped 'n' (by decide)] (.number token)

/-- `-12`. -/
def smallToken : NumberToken :=
  integerToken true [1, 2] (by decide) (by decide)

/-- `-9223372036854775808`, the least signed 64-bit integer. -/
def leastToken : NumberToken :=
  integerToken true [9, 2, 2, 3, 3, 7, 2, 0, 3, 6, 8, 5, 4, 7, 7, 5, 8, 0, 8]
    (by decide) (by decide)

/-- `1.5`. -/
def fractionToken : NumberToken :=
  { negative := false, whole := [1], fraction := [5], exponent := none
    wholeNonempty := by decide, noLeadingZero := by decide }

/-- `18446744073709551617`, two to the 64 and one more. -/
def wrappingToken : NumberToken :=
  integerToken false [1, 8, 4, 4, 6, 7, 4, 4, 0, 7, 3, 7, 0, 9, 5, 5, 1, 6, 1, 7]
    (by decide) (by decide)

/-- `{"a": "b\nc","n": -12,"z": "é"}`. -/
def countedObject : FlatObject :=
  { leading := noBlank, inside := noBlank
    members := [textMember, numberMember smallToken, lastMember]
    trailing := noBlank }

theorem number_member_read_small :
    ReadExactlyOrRejected (utf8 countedObject.chars) [0x6E] smallToken := by
  refine (number_member_read_iff countedObject [textMember]
    (numberMember smallToken) [lastMember] smallToken
    { members := rfl, once := occursOnce_of_check (by decide +kernel) } rfl).mpr ?_
  refine Or.inl ⟨by decide, by decide, ?_⟩
  norm_num [smallToken, integerToken, NumberToken.value, NumberToken.wholePart,
    NumberToken.power, naturalValue, Decimal.value]

private theorem numberMember_unique (token : NumberToken)
    (check : ∀ i < (utf8 (singletonObject (numberMember token)).chars).length,
      ∀ j < (utf8 (singletonObject (numberMember token)).chars).length,
        OccursAt (quotedKey [0x6E])
          (utf8 (singletonObject (numberMember token)).chars) i →
        OccursAt (quotedKey [0x6E])
          (utf8 (singletonObject (numberMember token)).chars) j → i = j) :
    UniqueMember (singletonObject (numberMember token)) [] (numberMember token)
      [] :=
  { members := rfl, once := occursOnce_of_check check }

/-- The least integer makes the loop overflow, a fraction is cut off, and a
magnitude past 2^64 is returned as another integer. -/
theorem number_member_misread :
    (UniqueMember (singletonObject (numberMember leastToken)) []
        (numberMember leastToken) [] ∧
      ¬ReadExactlyOrRejected
        (utf8 (singletonObject (numberMember leastToken)).chars) [0x6E]
        leastToken) ∧
    (UniqueMember (singletonObject (numberMember fractionToken)) []
        (numberMember fractionToken) [] ∧
      jsonGetInt (utf8 (singletonObject (numberMember fractionToken)).chars)
        [0x6E] = .ok 1 ∧
      ¬ReadExactlyOrRejected
        (utf8 (singletonObject (numberMember fractionToken)).chars) [0x6E]
        fractionToken) ∧
    UniqueMember (singletonObject (numberMember wrappingToken)) []
        (numberMember wrappingToken) [] ∧
      jsonGetInt (utf8 (singletonObject (numberMember wrappingToken)).chars)
        [0x6E] = .ok 1 ∧
      ¬ReadExactlyOrRejected
        (utf8 (singletonObject (numberMember wrappingToken)).chars) [0x6E]
        wrappingToken := by
  have least := numberMember_unique leastToken (by decide)
  have fraction := numberMember_unique fractionToken (by decide)
  have wrapping := numberMember_unique wrappingToken (by decide)
  have fractionRead : jsonGetInt
      (utf8 (singletonObject (numberMember fractionToken)).chars) [0x6E] =
      .ok 1 := jsonGetInt_number fraction (by decide) rfl
  have wrappingRead : jsonGetInt
      (utf8 (singletonObject (numberMember wrappingToken)).chars) [0x6E] =
      .ok 1 := jsonGetInt_number wrapping (by decide) rfl
  refine ⟨⟨least, ?_⟩, ⟨fraction, fractionRead, ?_⟩, wrapping, wrappingRead, ?_⟩
  · intro exactly
    have value : leastToken.value = ((-2 ^ 63 : Int) : ℚ) := by
      norm_num [leastToken, integerToken, NumberToken.value, NumberToken.power,
        naturalValue, Decimal.value]
    have read := exactly.exact (-2 ^ 63) value ⟨by decide, by decide⟩
    have small := ((readsInteger_iff least (by decide) rfl (-2 ^ 63)).mp read).1
    exact absurd small (by decide)
  · intro exactly
    have value : fractionToken.value = 3 / 2 := by
      norm_num [fractionToken, NumberToken.value, NumberToken.power,
        naturalValue, Decimal.value]
    obtain ⟨message, exited⟩ := exactly.rejected (by
      intro denotes
      obtain ⟨n, same, -⟩ := denotes
      have doubled : (2 * n : Int) = 3 := by
        have asRational : (2 * n : ℚ) = 3 := by
          rw [← same, value]
          norm_num
        exact_mod_cast asRational
      omega)
    rw [fractionRead] at exited
    cases exited
  · intro exactly
    have value : wrappingToken.value = ((2 ^ 64 + 1 : Int) : ℚ) := by
      norm_num [wrappingToken, integerToken, NumberToken.value,
        NumberToken.power, naturalValue, Decimal.value]
    obtain ⟨message, exited⟩ := exactly.rejected (by
      intro denotes
      obtain ⟨n, same, representable⟩ := denotes
      have equal : n = 2 ^ 64 + 1 := by
        rw [value] at same
        exact_mod_cast same.symm
      have bound := representable.2
      omega)
    rw [wrappingRead] at exited
    cases exited

end Lambpie.Runtime

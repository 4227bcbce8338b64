/-
The decimal codec over the whole signed 64-bit range.

The reader's loop is followed here with the position it has got to, so that a
numeral can be told from what stands behind it.  The writer's numeral of a
value is read back as the value, the least one included, and a token that is
read in range and has no needless zero or sign is the numeral of what is read.
-/
import Lambpie.Runtime.FlatNumbers

namespace Lambpie.Runtime

open Foundations

/-- The digit loop of `json_get_int` with `pos` and `result`. -/
def readDigitsTo (json : Bytes) : Nat → Nat → Int64T → Outcome (Nat × Int64T)
  | 0, pos, result => .ok (pos, result)
  | fuel + 1, pos, result =>
      if pos < json.length then do
        let c ← charAt json pos
        if isDigit c then
          readDigitsTo json fuel (pos + 1)
            (result * 10 + BitVec.ofNat 64 (c.toNat - zeroChar.toNat))
        else .ok (pos, result)
      else .ok (pos, result)

/-- `json_get_int` from the sign on: the position behind the token and the
value that is returned. -/
def readInt (json : Bytes) (keyText : String) (pos : Nat) : Outcome (Nat × Int64T) := do
  let c ← charAt json pos
  let negative := decide (c = minusChar)
  let pos := if negative then pos + 1 else pos
  let noDigit : Outcome (Nat × Int64T) := .exit 1
    s!"json_get_int: expected digit for key \"{keyText}\"\n"
  if pos ≥ json.length then noDigit
  else do
    let c ← charAt json pos
    if isDigit c then do
      let (stop, result) ← readDigitsTo json (json.length - pos) pos 0
      pure (stop, if negative then -result else result)
    else noDigit

private theorem readDigitsTo_eq (json : Bytes) (fuel pos : Nat) (result : Int64T)
    (enough : json.length ≤ pos + fuel) :
    readDigitsTo json fuel pos result =
      .ok (pos + ((json.drop pos).takeWhile isDigit).length,
        accumulate result ((json.drop pos).takeWhile isDigit)) := by
  induction fuel generalizing pos result with
  | zero =>
      rw [readDigitsTo, List.drop_eq_nil_of_le (by omega)]
      rfl
  | succ fuel ih =>
      rw [readDigitsTo]
      cases suffix : json.drop pos with
      | nil =>
          rw [List.drop_eq_nil_iff] at suffix
          rw [if_neg (by omega)]
          rfl
      | cons c rest =>
          rw [if_pos (lt_length_of_drop suffix), charAt_of_drop suffix, Outcome.ok_bind]
          by_cases digit : isDigit c
          · rw [if_pos digit, ih _ _ (by omega), drop_succ_of_drop suffix,
              List.takeWhile_cons_of_pos digit, List.length_cons, Nat.add_right_comm]
            rfl
          · rw [if_neg digit, List.takeWhile_cons_of_neg digit]
            rfl

private theorem eq_digitChar {c : UInt8} (digit : isDigit c = true) :
    digitValue c < 10 ∧ c = digitChar (digitValue c) := by
  unfold isDigit zeroChar nineChar at digit
  simp only [Bool.and_eq_true, decide_eq_true_eq, UInt8.le_iff_toNat_le,
    UInt8.toNat_ofNat] at digit
  have zero : zeroChar.toNat = 48 := rfl
  unfold digitValue digitChar
  refine ⟨by omega, UInt8.toNat_inj.mp ?_⟩
  rw [UInt8.toNat_add, UInt8.toNat_ofNat', zero]
  omega

private theorem exists_digits {bytes : Bytes} (digits : ∀ c ∈ bytes, isDigit c = true) :
    ∃ ds : List Nat, (∀ d ∈ ds, d < 10) ∧ bytes = ds.map digitChar := by
  induction bytes with
  | nil => exact ⟨[], fun _ member => (List.not_mem_nil member).elim, rfl⟩
  | cons c rest ih =>
      obtain ⟨ds, small, rfl⟩ := ih fun d member => digits d (List.mem_cons_of_mem c member)
      have here := eq_digitChar (digits c List.mem_cons_self)
      refine ⟨digitValue c :: ds, ?_, ?_⟩
      · exact List.forall_mem_cons.mpr ⟨here.1, small⟩
      · rw [List.map_cons, ← here.2]

private theorem exists_run (text : Bytes) :
    ∃ (ds : List Nat) (tail : Bytes), (∀ d ∈ ds, d < 10) ∧ StopsDigits tail ∧ text = ds.map digitChar ++ tail ∧
      text.takeWhile isDigit = ds.map digitChar := by
  obtain ⟨ds, small, run⟩ := exists_digits
    fun c (member : c ∈ text.takeWhile isDigit) => List.mem_takeWhile_imp member
  refine ⟨ds, text.dropWhile isDigit, small, ?_, ?_, run⟩
  · intro b first
    have stops := List.head?_dropWhile_not isDigit text
    rw [first] at stops
    simpa using stops
  · rw [← run, List.takeWhile_append_dropWhile]

def tokenValue (negative : Bool) (ds : List Nat) : Int64T :=
  if negative then -BitVec.ofNat 64 (Decimal.value ds)
  else BitVec.ofNat 64 (Decimal.value ds)

/-- What is read at the position is a sign and all the digits behind it. -/
structure TokenAt (json : Bytes) (pos stop : Nat) (value : Int64T)
    (negative : Bool) (ds : List Nat) (tail : Bytes) : Prop where
  nonempty : ds ≠ []
  small : ∀ d ∈ ds, d < 10
  ends : StopsDigits tail
  suffix : json.drop pos = signedDigits negative ds ++ tail
  stop : stop = pos + (signedDigits negative ds).length
  value : value = tokenValue negative ds

private theorem readDigits_cases (json : Bytes) (negative : Bool) (pos : Nat)
    (failed : Outcome (Nat × Int64T)) (noResult : ∀ result, failed ≠ .ok result)
    {stop : Nat} {value : Int64T}
    (run : (if pos ≥ json.length then failed
      else do
        let c ← charAt json pos
        if isDigit c then do
          let (stop, result) ← readDigitsTo json (json.length - pos) pos 0
          pure (stop, if negative then -result else result)
        else failed) = .ok (stop, value)) :
    ∃ (ds : List Nat) (tail : Bytes), ds ≠ [] ∧ (∀ d ∈ ds, d < 10) ∧ StopsDigits tail ∧
      json.drop pos = ds.map digitChar ++ tail ∧ stop = pos + ds.length ∧
      value = tokenValue negative ds := by
  cases suffix : json.drop pos with
  | nil =>
      rw [List.drop_eq_nil_iff] at suffix
      rw [if_pos suffix] at run
      exact absurd run (noResult _)
  | cons c rest =>
      have inside := lt_length_of_drop suffix
      rw [if_neg (by omega), charAt_of_drop suffix, Outcome.ok_bind] at run
      by_cases digit : isDigit c
      · rw [if_pos digit, readDigitsTo_eq _ _ _ _ (by omega), Outcome.ok_bind] at run
        obtain ⟨ds, tail, small, ends, text, digits⟩ := exists_run (json.drop pos)
        rw [digits, accumulate_value small, List.length_map] at run
        cases run
        refine ⟨ds, tail, ?_, small, ends, suffix ▸ text, rfl, rfl⟩
        rintro rfl
        rw [suffix, List.takeWhile_cons_of_pos digit] at digits
        cases digits
      · rw [if_neg digit] at run
        exact absurd run (noResult _)

private theorem readInt_ok {json : Bytes} {keyText : String} {pos stop : Nat} {value : Int64T}
    (run : readInt json keyText pos = .ok (stop, value)) :
    ∃ negative ds tail, TokenAt json pos stop value negative ds tail := by
  unfold readInt at run
  cases suffix : json.drop pos with
  | nil =>
      have outside : charAt json pos = .fault := by
        rw [List.drop_eq_nil_iff] at suffix
        simp [charAt, suffix]
      rw [outside] at run
      cases run
  | cons c rest =>
      rw [charAt_of_drop suffix, Outcome.ok_bind] at run
      have exits : ∀ result : Nat × Int64T, Outcome.exit 1
          s!"json_get_int: expected digit for key \"{keyText}\"\n" ≠ .ok result := by
        intro result same
        cases same
      by_cases minus : c = minusChar
      · subst minus
        obtain ⟨ds, tail, nonempty, small, ends, digits, rfl, rfl⟩ :=
          readDigits_cases json true (pos + 1) _ exits run
        refine ⟨true, ds, tail, nonempty, small, ends, ?_, ?_, rfl⟩
        · rw [suffix, ← drop_succ_of_drop suffix, digits]
          rfl
        · simp only [signedDigits, if_true, List.length_append, List.length_singleton,
            List.length_map]
          omega
      · have same : decide (c = minusChar) = false := decide_eq_false minus
        rw [same] at run
        obtain ⟨ds, tail, nonempty, small, ends, digits, rfl, rfl⟩ :=
          readDigits_cases json false pos _ exits run
        refine ⟨false, ds, tail, nonempty, small, ends, suffix ▸ digits, ?_, rfl⟩
        simp [signedDigits]

private theorem readInt_of_token {json : Bytes} (keyText : String) {pos : Nat} (negative : Bool)
    {ds : List Nat} (nonempty : ds ≠ []) (small : ∀ d ∈ ds, d < 10) {tail : Bytes}
    (ends : StopsDigits tail) (suffix : json.drop pos = signedDigits negative ds ++ tail) :
    readInt json keyText pos =
      .ok (pos + (signedDigits negative ds).length, tokenValue negative ds) := by
  obtain ⟨d, more, rfl⟩ := List.exists_cons_of_ne_nil nonempty
  have bound := small d List.mem_cons_self
  have digit := digitChar_isDigit bound
  have run := takeWhile_digitBytes small ends
  have loop (start : Nat) (digits : json.drop start = (d :: more).map digitChar ++ tail) :
      readDigitsTo json (json.length - start) start 0 =
        .ok (start + (d :: more).length, BitVec.ofNat 64 (Decimal.value (d :: more))) := by
    rw [readDigitsTo_eq _ _ _ _ (by omega), digits, run, accumulate_value small,
      List.length_map]
  unfold readInt tokenValue
  cases negative with
  | true =>
      have digits : json.drop (pos + 1) = (d :: more).map digitChar ++ tail :=
        drop_succ_of_drop suffix
      have inside : ¬pos + 1 ≥ json.length := Nat.not_le.mpr (lt_length_of_drop digits)
      rw [charAt_of_drop suffix, Outcome.ok_bind]
      simp only [decide_true, if_true, if_neg inside, charAt_of_drop digits,
        Outcome.ok_bind, digit, loop (pos + 1) digits]
      simp only [signedDigits, if_true, List.length_append, List.length_singleton,
        List.length_map, Nat.add_assoc]
      rfl
  | false =>
      have digits : json.drop pos = (d :: more).map digitChar ++ tail := suffix
      have inside : ¬pos ≥ json.length := Nat.not_le.mpr (lt_length_of_drop digits)
      have notMinus := digitChar_ne_minus bound
      rw [charAt_of_drop digits, Outcome.ok_bind]
      simp only [notMinus, decide_false, Bool.false_eq_true, if_false, if_neg inside,
        charAt_of_drop digits, Outcome.ok_bind, digit, if_true, loop pos digits]
      simp only [signedDigits, Bool.false_eq_true, if_false, List.nil_append,
        List.length_map]
      rfl

private theorem signedDigits_of_intToken {text : Bytes} {value : Int64T}
    (read : intToken text = some value) :
    ∃ negative ds tail, ds ≠ [] ∧ (∀ d ∈ ds, d < 10) ∧ StopsDigits tail ∧
      text = signedDigits negative ds ++ tail := by
  have headed (digits : Bytes) {d : UInt8} {more : Bytes} (starts : digits = d :: more)
      (digit : isDigit d = true) :
      ∃ (ds : List Nat) (tail : Bytes), ds ≠ [] ∧ (∀ d ∈ ds, d < 10) ∧
        StopsDigits tail ∧ digits = ds.map digitChar ++ tail := by
    obtain ⟨ds, tail, small, ends, split, run⟩ := exists_run digits
    refine ⟨ds, tail, ?_, small, ends, split⟩
    rintro rfl
    rw [starts, List.takeWhile_cons_of_pos digit] at run
    cases run
  cases text with
  | nil => cases read
  | cons c rest =>
      unfold intToken at read
      by_cases minus : c = minusChar
      · subst minus
        simp only [if_true] at read
        split at read
        · rename_i d more
          split at read
          · rename_i digit
            obtain ⟨ds, tail, nonempty, small, ends, split⟩ := headed _ rfl digit
            exact ⟨true, ds, tail, nonempty, small, ends, congrArg (minusChar :: ·) split⟩
          · cases read
        · cases read
      · simp only [if_neg minus] at read
        split at read
        · rename_i digit
          obtain ⟨ds, tail, nonempty, small, ends, split⟩ := headed _ rfl digit
          exact ⟨false, ds, tail, nonempty, small, ends, split⟩
        · cases read

/-- So `json_get_int` is `readInt` at the position of the value. -/
theorem jsonGetInt_eq_readInt (json key : Bytes) (value : Int64T) :
    jsonGetInt json key = .ok value ↔
      ∃ pos stop, valuePosition json key = some pos ∧
        readInt json (printBytes key) pos = .ok (stop, value) := by
  have token (pos : Nat) : intToken (json.drop pos) = some value ↔
      ∃ stop, readInt json (printBytes key) pos = .ok (stop, value) := by
    constructor
    · intro read
      obtain ⟨negative, ds, tail, nonempty, small, ends, suffix⟩ := signedDigits_of_intToken read
      rw [suffix, intToken_signedDigits negative nonempty small ends] at read
      have same : tokenValue negative ds = value := Option.some.inj read
      exact ⟨_, same ▸ readInt_of_token _ negative nonempty small ends suffix⟩
    · rintro ⟨stop, run⟩
      obtain ⟨negative, ds, tail, token⟩ := readInt_ok run
      rw [token.suffix, intToken_signedDigits negative token.nonempty token.small token.ends,
        token.value]
      rfl
  rw [jsonGetInt_eq_ok_iff]
  unfold intMember
  cases valuePosition json key with
  | none => simp
  | some pos => simpa using token pos

private theorem intText_token (value : Int64T) :
    ∃ negative ds, ds ≠ [] ∧ (∀ d ∈ ds, d < 10) ∧
      intText value = signedDigits negative ds ∧ value = tokenValue negative ds := by
  by_cases zero : value.toInt = 0
  · have isZero : value = 0 := BitVec.eq_of_toInt_eq (by simpa using zero)
    subst isZero
    exact ⟨false, [0], List.cons_ne_nil 0 [], by decide, rfl, rfl⟩
  · have magnitude := Decimal.value_digits value.toInt.natAbs
    have nonempty : Decimal.digits value.toInt.natAbs ≠ [] :=
      Decimal.digits_ne_nil (by omega)
    by_cases negative : value.toInt < 0
    · refine ⟨true, _, nonempty, fun d => Decimal.digits_lt, ?_, ?_⟩
      · rw [intText, if_neg zero, if_pos negative]
        rfl
      · unfold tokenValue
        rw [if_pos rfl, magnitude, ← BitVec.ofInt_natCast, ← BitVec.ofInt_neg]
        have same : -(value.toInt.natAbs : Int) = value.toInt := by omega
        rw [same, BitVec.ofInt_toInt]
    · refine ⟨false, _, nonempty, fun d => Decimal.digits_lt, ?_, ?_⟩
      · rw [intText, if_neg zero, if_neg negative]
        rfl
      · unfold tokenValue
        rw [if_neg Bool.false_ne_true, magnitude, ← BitVec.ofInt_natCast]
        have same : (value.toInt.natAbs : Int) = value.toInt := by omega
        rw [same, BitVec.ofInt_toInt]

def hasLeadingZero : Bytes → Bool
  | [] => false
  | c :: rest =>
      let digits := if c = minusChar then rest else c :: rest
      digits.head? = some zeroChar && 1 < digits.length

/-- Without a leading zero, and not `-0`, a token starts with another digit
than zero or is zero. -/
theorem headed_of_token {negative : Bool} {ds : List Nat} (nonempty : ds ≠ [])
    (small : ∀ d ∈ ds, d < 10)
    (noZero : hasLeadingZero (signedDigits negative ds) = false)
    (noSign : signedDigits negative ds ≠ [minusChar, zeroChar]) :
    (∀ d ∈ ds.head?, d ≠ 0) ∨ (negative = false ∧ ds = [0]) := by
  obtain ⟨d, more, rfl⟩ := List.exists_cons_of_ne_nil nonempty
  have bound := small d List.mem_cons_self
  by_cases zero : d = 0
  · subst zero
    have zeroDigit : digitChar 0 = zeroChar := rfl
    have alone : more = [] := by
      have notMinus : zeroChar ≠ minusChar := by decide
      cases negative with
      | true =>
          simpa [signedDigits, hasLeadingZero, zeroDigit] using noZero
      | false =>
          simpa [signedDigits, hasLeadingZero, notMinus, zeroDigit] using noZero
    subst alone
    cases negative with
    | true => exact absurd rfl noSign
    | false => exact .inr ⟨rfl, rfl⟩
  · left
    rintro e same rfl
    exact zero (Option.some.inj same)

private theorem intText_tokenValue {negative : Bool} {ds : List Nat} (nonempty : ds ≠ [])
    (small : ∀ d ∈ ds, d < 10) (inRange : Decimal.value ds < 2 ^ 63)
    (headed : (∀ d ∈ ds.head?, d ≠ 0) ∨ (negative = false ∧ ds = [0])) :
    intText (tokenValue negative ds) = signedDigits negative ds := by
  rcases headed with headed | ⟨rfl, rfl⟩
  · have numeral := Decimal.digits_value small headed
    have positive : Decimal.value ds ≠ 0 := by
      intro zero
      rw [zero] at numeral
      exact nonempty (numeral.symm.trans (by simp [Decimal.digits]))
    have signed := toInt_signed negative inRange
    unfold intText tokenValue
    rw [signed]
    cases negative with
    | true =>
        have negated : -(Decimal.value ds : Int) < 0 := by omega
        have magnitude : (-(Decimal.value ds : Int)).natAbs = Decimal.value ds := by omega
        rw [if_pos rfl, if_neg (by omega), if_pos negated, magnitude, decimalText, numeral]
        rfl
    | false =>
        have magnitude : (Decimal.value ds : Int).natAbs = Decimal.value ds := by omega
        rw [if_neg Bool.false_ne_true, if_neg (by omega), if_neg (by omega), magnitude,
          decimalText, numeral]
        rfl
  · rfl

private theorem Writer.put_room {w after : Writer} {c : UInt8} (wrote : w.put c = .ok after) :
    after.pos ≤ after.buf.length := by
  unfold Writer.put at wrote
  split at wrote
  · rename_i room
    cases wrote
    rw [List.length_set]
    exact room
  · cases wrote

private theorem writeKey_room {w opened : Writer} {key : Bytes}
    (wrote : writeKey w key = .ok opened) : opened.pos ≤ opened.buf.length := by
  unfold writeKey at wrote
  obtain ⟨_, -, wrote⟩ := (Outcome.bind_eq_ok_iff _ _ _).mp wrote
  obtain ⟨_, -, wrote⟩ := (Outcome.bind_eq_ok_iff _ _ _).mp wrote
  obtain ⟨_, -, wrote⟩ := (Outcome.bind_eq_ok_iff _ _ _).mp wrote
  obtain ⟨_, -, wrote⟩ := (Outcome.bind_eq_ok_iff _ _ _).mp wrote
  exact Writer.put_room wrote

private theorem writeNumber_eq_copy {w : Writer} (room : w.pos ≤ w.buf.length) (val : Int64T) :
    writeNumber val w = w.copy (intText val) := by
  have here : writeText w.buf (w.buf.take w.pos) = .ok w := by
    have length : (w.buf.take w.pos).length = w.pos := List.length_take_of_le room
    unfold writeText written
    rw [length, if_pos room, List.take_append_drop]
  have number := writeText_number w.buf (w.buf.take w.pos) val
  rw [← writeText_copy, here] at number
  exact number

private theorem jsonWriteInt_copies (w : Writer) (key : Bytes) (val : Int64T) :
    jsonWriteInt w key val =
      writeKey w key >>= fun opened => opened.copy (intText val) := by
  rw [jsonWriteInt_eq]
  cases wrote : writeKey w key with
  | ok opened => exact writeNumber_eq_copy (writeKey_room wrote) val
  | exit status message => rfl
  | fault => rfl

/-- For every value the digit loops of `json_write_int` write a numeral that
the sign and digit loop of `json_get_int` reads back up to its last byte; and a
token that is read without leaving the signed range, with no leading zero and
other than `-0`, is what `json_write_int` writes for the value read. -/
theorem decimal_codec :
    (∀ value : Int64T,
      (∀ w key, jsonWriteInt w key value =
        writeKey w key >>= fun opened => opened.copy (intText value)) ∧
      ∀ front c rest keyText, isDigit c = false →
        readInt (front ++ (intText value ++ c :: rest)) keyText front.length =
          .ok (front.length + (intText value).length, value)) ∧
    ∀ json keyText pos stop value, readInt json keyText pos = .ok (stop, value) →
      (∀ n ∈ readIntValues json pos, Representable n) →
      ∀ token, token = (json.drop pos).take (stop - pos) →
        hasLeadingZero token = false → token ≠ [minusChar, zeroChar] →
        ∀ w key, jsonWriteInt w key value =
          writeKey w key >>= fun opened => opened.copy token := by
  refine ⟨fun value => ⟨fun w key => jsonWriteInt_copies w key value, ?_⟩, ?_⟩
  · intro front c rest keyText stop
    obtain ⟨negative, ds, nonempty, small, text, isValue⟩ := intText_token value
    have suffix : (front ++ (intText value ++ c :: rest)).drop front.length =
        signedDigits negative ds ++ c :: rest := by
      rw [List.drop_left, text]
    have read := readInt_of_token keyText negative nonempty small
      (stopsDigits_cons stop rest) suffix
    rwa [← text, ← isValue] at read
  · intro json keyText pos stop value run inRange token isToken noZero noSign w key
    obtain ⟨negative, ds, tail, reads⟩ := readInt_ok run
    have whole : token = signedDigits negative ds := by
      rw [isToken, reads.stop, reads.suffix, Nat.add_sub_cancel_left, List.take_left]
    subst whole
    have values := readIntValues_eq negative reads.nonempty reads.small reads.ends
      reads.suffix
    have below : Decimal.value ds < 2 ^ 63 := by
      apply (digitValues_small_iff reads.nonempty).mp
      intro n member
      have bound := (inRange n (by
        rw [values]
        exact List.mem_append_left _ (List.mem_map_of_mem member))).2
      omega
    have numeral := intText_tokenValue reads.nonempty reads.small below
      (headed_of_token reads.nonempty reads.small noZero noSign)
    rw [← reads.value] at numeral
    rw [jsonWriteInt_copies, numeral]

/-- The least value before the closing brace, and the token `-12`. -/
theorem decimal_codec_example :
    readInt ([] ++ (intText int64Min ++ [closeBrace])) "n" 0 = .ok (20, int64Min) ∧
    ∀ w key, jsonWriteInt w key (-12) =
      writeKey w key >>= fun opened => opened.copy [minusChar, 0x31, 0x32] := by
  constructor
  · apply (decimal_codec.1 int64Min).2 [] closeBrace [] "n"
    decide
  · apply decimal_codec.2 [minusChar, 0x31, 0x32, closeBrace] "n" 0 3 (-12)
    · decide +kernel
    · decide +kernel
    · rfl
    · decide
    · decide

end Lambpie.Runtime

/-
Header lines as the receive loop reads them.

A well-formed response is a status line, header lines, a blank line and the
body.  These lemmas say what the end of each kind of line does to the parser,
for any memory that holds the line.
-/
import Lambpie.Runtime.Http
import Lambpie.Runtime.JsonReader
import Lambpie.Foundations.Decimal

namespace Lambpie.Runtime

open Foundations

def crlf : Bytes := [carriageReturn, lineFeed]

def contentLengthName : Bytes := asciiBytes "Content-Length"
def requestIdName : Bytes := asciiBytes "Lambda-Runtime-Aws-Request-Id"

inductive HeaderLine where
  | contentLength (digits : Bytes)
  | requestId (id : Bytes)
  | other (name value : Bytes)
deriving DecidableEq, Repr

def HeaderLine.name : HeaderLine → Bytes
  | .contentLength _ => contentLengthName
  | .requestId _ => requestIdName
  | .other name _ => name

def HeaderLine.value : HeaderLine → Bytes
  | .contentLength digits => digits
  | .requestId id => id
  | .other _ value => value

/-- `name: value`, without the line break. -/
def HeaderLine.text (line : HeaderLine) : Bytes :=
  line.name ++ colonChar :: spaceChar :: line.value

def numberOf (digits : Bytes) : Nat := Decimal.value (digits.map digitValue)

/-- A header line of the responses considered: an announced length in `int`
range, an id without line breaks and colons, or a line whose name cannot be
taken for either. -/
def HeaderLine.WellFormed : HeaderLine → Prop
  | .contentLength digits =>
      digits ≠ [] ∧ (∀ c ∈ digits, isDigit c) ∧ numberOf digits < 2 ^ 31
  | .requestId id =>
      colonChar ∉ id ∧ carriageReturn ∉ id ∧ lineFeed ∉ id
  | .other name value =>
      colonChar ∉ name ∧ lineFeed ∉ name ∧ lineFeed ∉ value ∧
        ¬name <+: contentLengthName ∧ ¬name <+: requestIdName

def HeaderLine.length? : HeaderLine → Option Bytes
  | .contentLength digits => some digits
  | _ => none

def HeaderLine.requestId? : HeaderLine → Option Bytes
  | .requestId id => some id
  | _ => none

def linesText (lines : List HeaderLine) : Bytes :=
  lines.flatMap fun line => line.text ++ crlf

theorem strncmpEqual_same {memory rest : Bytes} {pos : Nat}
    (literal : Bytes) (common : Bytes)
    (suffix : memory.drop pos = common ++ rest) :
    strncmpEqual memory pos (common ++ literal) common.length = .ok true := by
  induction common generalizing pos with
  | nil => rfl
  | cons c common ih =>
      rw [List.cons_append] at suffix
      rw [List.length_cons, strncmpEqual, charAt_of_drop suffix,
        Outcome.ok_bind]
      simp only [List.cons_append, if_true]
      exact ih (drop_succ_of_drop suffix)

theorem strncmpEqual_mismatch {memory common rest literalRest : Bytes}
    {pos count : Nat} {c expected : UInt8}
    (suffix : memory.drop pos = common ++ c :: rest)
    (differs : c ≠ expected) (within : common.length < count) :
    strncmpEqual memory pos (common ++ expected :: literalRest) count =
      .ok false := by
  induction common generalizing pos count with
  | nil =>
      cases count with
      | zero => exact absurd within (Nat.not_lt_zero _)
      | succ count =>
          rw [strncmpEqual, charAt_of_drop suffix, Outcome.ok_bind]
          simp only [List.nil_append, if_neg differs, Outcome.pure_eq_ok]
  | cons d common ih =>
      cases count with
      | zero => exact absurd within (Nat.not_lt_zero _)
      | succ count =>
          rw [List.cons_append] at suffix
          rw [strncmpEqual, charAt_of_drop suffix, Outcome.ok_bind]
          simp only [List.cons_append, if_true]
          rw [List.length_cons] at within
          exact ih (drop_succ_of_drop suffix) (by omega)

/-- A name that is not a prefix of a header name differs from it followed by
the colon inside the name. -/
theorem exists_mismatch (name header : Bytes) (noColon : colonChar ∉ name)
    (notPrefix : ¬name <+: header) :
    ∃ common c expected rest headerRest,
      name = common ++ c :: rest ∧
        header ++ [colonChar] = common ++ expected :: headerRest ∧
        c ≠ expected := by
  induction name generalizing header with
  | nil => exact absurd List.nil_prefix notPrefix
  | cons c name ih =>
      have colonTail : colonChar ∉ name := fun member =>
        noColon (List.mem_cons_of_mem _ member)
      cases header with
      | nil =>
          refine ⟨[], c, colonChar, name, [], rfl, rfl, ?_⟩
          rintro rfl
          exact noColon List.mem_cons_self
      | cons expected header =>
          by_cases same : c = expected
          · subst same
            have tailNotPrefix : ¬name <+: header := by
              intro isPrefix
              exact notPrefix (List.cons_prefix_cons.mpr ⟨rfl, isPrefix⟩)
            obtain ⟨common, d, expected, rest, headerRest, names, headers,
              differs⟩ := ih header colonTail tailNotPrefix
            refine ⟨c :: common, d, expected, rest, headerRest, ?_, ?_, differs⟩
            · rw [names, List.cons_append]
            · rw [List.cons_append, headers, List.cons_append]
          · exact ⟨[], c, expected, name, header ++ [colonChar], rfl, rfl, same⟩

private theorem numberLoop_digits {memory rest : Bytes} {pos fuel : Nat} {c : UInt8}
    (digits : Bytes) (number : Nat) (allDigits : ∀ d ∈ digits, isDigit d)
    (suffix : memory.drop pos = digits ++ c :: rest)
    (ends : isDigit c = false) (enough : digits.length < fuel) :
    numberLoop memory fuel pos number =
      .ok ((digits.map digitValue).foldl (fun acc d => acc * 10 + d) number) := by
  induction digits generalizing pos fuel number with
  | nil =>
      cases fuel with
      | zero => exact absurd enough (Nat.not_lt_zero _)
      | succ fuel =>
          rw [numberLoop, charAt_of_drop suffix, Outcome.ok_bind, ends]
          rfl
  | cons d digits ih =>
      cases fuel with
      | zero => exact absurd enough (Nat.not_lt_zero _)
      | succ fuel =>
          rw [List.cons_append] at suffix
          rw [List.length_cons] at enough
          rw [numberLoop, charAt_of_drop suffix, Outcome.ok_bind,
            if_pos (allDigits d List.mem_cons_self)]
          exact ih _ (fun e member => allDigits e (List.mem_cons_of_mem _ member))
            (drop_succ_of_drop suffix) (by omega)

private theorem isDigit_bounds {c : UInt8} (digit : isDigit c) :
    0x30 ≤ c.toNat ∧ c.toNat ≤ 0x39 := by
  simpa [isDigit, zeroChar, nineChar, UInt8.le_iff_toNat_le] using digit

theorem atoi_eq_digits {memory rest : Bytes} {pos : Nat} {c : UInt8}
    {digits : Bytes} (nonempty : digits ≠ [])
    (allDigits : ∀ d ∈ digits, isDigit d)
    (suffix : memory.drop pos = digits ++ c :: rest)
    (ends : isDigit c = false) :
    atoi memory pos =
      .ok (BitVec.ofInt 32 (clampLong (numberOf digits))).toInt := by
  have inside : digits.length < memory.length + 1 := by
    have lengths := congrArg List.length suffix
    rw [List.length_drop, List.length_append, List.length_cons] at lengths
    omega
  have number := numberLoop_digits digits 0 allDigits suffix ends inside
  cases digits with
  | nil => exact absurd rfl nonempty
  | cons d digits =>
      obtain ⟨low, high⟩ := isDigit_bounds (allDigits d List.mem_cons_self)
      have head : memory.drop pos = d :: (digits ++ c :: rest) := suffix
      have notSpace : isSpace d = false := by
        simp [isSpace, UInt8.le_iff_toNat_le, ← UInt8.toNat_inj]
        omega
      have notMinus : ¬(d = minusChar ∨ d = plusChar) := by
        simp [minusChar, plusChar, ← UInt8.toNat_inj]
        omega
      have notNegative : ¬d = minusChar := fun minus => notMinus (.inl minus)
      have stays : skipSpaceLoop memory (memory.length + 1) pos = .ok pos := by
        rw [skipSpaceLoop, charAt_of_drop head, Outcome.ok_bind, notSpace]
        rfl
      unfold atoi
      rw [stays, Outcome.ok_bind, charAt_of_drop head, Outcome.ok_bind]
      simp only [if_neg notMinus, if_neg notNegative]
      rw [number, Outcome.ok_bind]
      rfl

theorem int32_clampLong_eq_iff (number : Nat) :
    (BitVec.ofInt 32 (clampLong number)).toInt = number ↔ number < 2 ^ 31 := by
  constructor
  · intro same
    have bounded := (BitVec.ofInt 32 (clampLong number)).two_mul_toInt_lt
    omega
  · intro intRange
    have clamped : clampLong number = number := by
      unfold clampLong
      omega
    rw [clamped, BitVec.toInt_ofInt]
    exact Int.bmod_eq_of_le (by omega) (by omega)

theorem atoi_digits {memory rest : Bytes} {pos : Nat} {c : UInt8}
    {digits : Bytes} (nonempty : digits ≠ [])
    (allDigits : ∀ d ∈ digits, isDigit d)
    (intRange : numberOf digits < 2 ^ 31)
    (suffix : memory.drop pos = digits ++ c :: rest)
    (ends : isDigit c = false) :
    atoi memory pos = .ok (numberOf digits : Int) := by
  rw [atoi_eq_digits nonempty allDigits suffix ends,
    (int32_clampLong_eq_iff _).mpr intRange]

/-- The parser after bytes without a line feed, from the position given. -/
def scanBytes (parser : HeaderParser) (pos : Nat) : Bytes → HeaderParser
  | [] => parser
  | c :: rest =>
      scanBytes
        (if c = colonChar then { parser with delimiter := some pos } else parser)
        (pos + 1) rest

theorem scanBytes_append (parser : HeaderParser) (pos : Nat)
    (front rest : Bytes) :
    scanBytes parser pos (front ++ rest) =
      scanBytes (scanBytes parser pos front) (pos + front.length) rest := by
  induction front generalizing parser pos with
  | nil => rfl
  | cons c front ih =>
      rw [List.cons_append, scanBytes, scanBytes, ih, List.length_cons]
      congr 1
      omega

theorem scanBytes_of_noColon (parser : HeaderParser) (pos : Nat)
    {bytes : Bytes} (noColon : colonChar ∉ bytes) :
    scanBytes parser pos bytes = parser := by
  induction bytes generalizing pos with
  | nil => rfl
  | cons c bytes ih =>
      rw [List.mem_cons, not_or] at noColon
      rw [scanBytes, if_neg (fun same => noColon.1 same.symm)]
      exact ih (pos + 1) noColon.2

theorem contentLengthName_plain :
    colonChar ∉ contentLengthName ∧ lineFeed ∉ contentLengthName ∧
      contentLengthName ≠ [] := by
  decide

theorem requestIdName_plain :
    colonChar ∉ requestIdName ∧ lineFeed ∉ requestIdName ∧
      requestIdName ≠ [] := by
  decide

theorem isDigit_ne {c d : UInt8} (digit : isDigit c)
    (outside : isDigit d = false) : c ≠ d := by
  rintro rfl
  rw [digit] at outside
  cases outside

theorem parseByte_lineFeed {memory line rest : Bytes} {lineStart pos : Nat}
    {total : Nat} {parser : HeaderParser}
    (suffix : memory.drop lineStart =
      line ++ carriageReturn :: lineFeed :: rest)
    (nonempty : line ≠ []) (plain : lineFeed ∉ line)
    (position : pos = lineStart + line.length + 1) (late : 3 ≤ pos) :
    parseByte memory total pos parser =
      (do
        let parser ← parseLine memory total pos parser
        pure (some { parser with lineStart := pos + 1, delimiter := none })) := by
  have atReturn := drop_add_of_drop suffix
  have atFeed := drop_succ_of_drop atReturn
  obtain ⟨front, last, rfl⟩ : ∃ front last, line = front ++ [last] :=
    ⟨_, _, (List.dropLast_append_getLast nonempty).symm⟩
  have atLast : memory.drop (lineStart + front.length) =
      last :: carriageReturn :: lineFeed :: rest := by
    refine drop_add_of_drop ?_
    rw [suffix, List.append_assoc, List.singleton_append]
  have notFeed : last ≠ lineFeed := by
    rintro rfl
    exact plain (List.mem_append_right front (List.mem_singleton.mpr rfl))
  rw [List.length_append, List.length_singleton] at position atFeed atReturn
  have here : charAt memory pos = .ok lineFeed := by
    rw [position]
    exact charAt_of_drop atFeed
  have previous : charAt memory (pos - 1) = .ok carriageReturn := by
    have index : pos - 1 = lineStart + (front.length + 1) := by omega
    rw [index]
    exact charAt_of_drop atReturn
  have beforeIt : charAt memory (pos - 2) = .ok last := by
    have index : pos - 2 = lineStart + front.length := by omega
    rw [index]
    exact charAt_of_drop atLast
  rw [parseByte, here, Outcome.ok_bind, if_neg (by decide), if_pos rfl,
    if_neg (by omega), previous, Outcome.ok_bind, if_neg (by simp), beforeIt,
    Outcome.ok_bind, if_neg notFeed]

theorem parseByte_plain {memory rest : Bytes} {total pos : Nat} {parser : HeaderParser}
    {c : UInt8} (here : memory.drop pos = c :: rest) (notFeed : c ≠ lineFeed) :
    parseByte memory total pos parser = .ok (some (scanBytes parser pos [c])) := by
  rw [parseByte, charAt_of_drop here, Outcome.ok_bind, scanBytes, scanBytes]
  by_cases isColon : c = colonChar
  · rw [if_pos isColon, if_pos isColon]
    rfl
  · rw [if_neg isColon, if_neg isColon, if_neg notFeed]
    rfl

theorem parseByte_blank {memory rest : Bytes} {total pos : Nat} {parser : HeaderParser}
    (late : 3 ≤ pos)
    (here : memory.drop (pos - 2) = [lineFeed, carriageReturn, lineFeed] ++ rest) :
    parseByte memory total pos parser = .ok none := by
  have atReturn := drop_succ_of_drop here
  have atFeed := drop_succ_of_drop atReturn
  have feedAt : pos - 2 + 1 + 1 = pos := by omega
  have returnAt : pos - 2 + 1 = pos - 1 := by omega
  rw [feedAt] at atFeed
  rw [returnAt] at atReturn
  rw [parseByte, charAt_of_drop atFeed, Outcome.ok_bind, if_neg (by decide),
    if_pos rfl, if_neg (by omega), charAt_of_drop atReturn, Outcome.ok_bind,
    if_neg (by simp), charAt_of_drop here, Outcome.ok_bind, if_pos rfl]
  rfl

/-- What the line that starts at the position given leaves in the parser. -/
def HeaderLine.record (lineStart : Nat) (parser : HeaderParser) :
    HeaderLine → HeaderParser
  | .contentLength digits => { parser with contentLength := numberOf digits }
  | .requestId id =>
      { parser with
        awsRequestId := some
          { start := lineStart + requestIdName.length + 2, len := id.length } }
  | .other _ _ => parser

theorem contentLengthHeader_eq :
    contentLengthHeader = contentLengthName ++ [colonChar] := by decide

theorem requestIdHeader_eq :
    requestIdHeader = requestIdName ++ [colonChar] := by decide

/-- A name that is no prefix of a header's is told from it at any colon after
the name. -/
theorem strncmpEqual_of_not_prefix {memory name rest : Bytes} {pos count : Nat}
    (header : Bytes) (noColon : colonChar ∉ name)
    (notPrefix : ¬name <+: header)
    (suffix : memory.drop pos = name ++ rest) (within : name.length ≤ count) :
    strncmpEqual memory pos (header ++ [colonChar]) count = .ok false := by
  obtain ⟨common, c, expected, nameRest, headerRest, names, headers, differs⟩ :=
    exists_mismatch name header noColon notPrefix
  have shorter : common.length < count := by
    have lengths := congrArg List.length names
    rw [List.length_append, List.length_cons] at lengths
    omega
  rw [headers]
  refine strncmpEqual_mismatch (?_ : _ = _ ++ _ :: (nameRest ++ rest)) differs
    shorter
  rw [suffix, names, List.append_assoc, List.cons_append]

/-- A prefix of a line and its line break that has no carriage return is a
prefix of the line. -/
theorem prefix_of_prefix_break {pattern line rest : Bytes}
    (plain : carriageReturn ∉ pattern)
    (isPrefix : pattern <+: line ++ carriageReturn :: rest) :
    pattern <+: line := by
  rcases List.prefix_or_prefix_of_prefix isPrefix
    (List.prefix_append line _) with inside | ⟨tail, tailed⟩
  · exact inside
  · cases tail with
    | nil =>
        rw [List.append_nil] at tailed
        rw [tailed]
    | cons c tail =>
        rw [← tailed] at isPrefix plain
        have head := (List.prefix_append_right_inj line).mp isPrefix
        have isReturn : c = carriageReturn :=
          (List.cons_prefix_cons.mp head).1
        rw [isReturn] at plain
        exact absurd (List.mem_append_right line List.mem_cons_self) plain

/-- A status line that does not announce the shutdown leaves the parser as it
is, whether or not it is twelve bytes long. -/
theorem parseLine_status {memory rest : Bytes} {parser : HeaderParser}
    {statusLine : Bytes} {total pp : Nat}
    (alive : ¬shutdownStatus <+: statusLine)
    (suffix : memory = statusLine ++ carriageReturn :: rest)
    (received : total ≤ memory.length)
    (lineStart : parser.lineStart = 0) (delimiter : parser.delimiter = none) :
    parseLine memory total pp parser = .ok parser := by
  have noShutdown (twelve : total ≥ 12) :
      memEqual memory 0 shutdownStatus = .ok false := by
    have length : shutdownStatus.length = 12 := by decide
    rw [memEqual, if_pos (by omega), List.drop_zero]
    congr 1
    rw [decide_eq_false_iff_not]
    intro same
    have isPrefix : shutdownStatus <+: statusLine ++ carriageReturn :: rest := by
      rw [← suffix]
      exact List.prefix_iff_eq_take.mpr same.symm
    exact alive (prefix_of_prefix_break (by decide) isPrefix)
  unfold parseLine
  rw [delimiter]
  simp only [lineStart]
  by_cases twelve : total ≥ 12
  · rw [if_pos twelve, noShutdown twelve, Outcome.ok_bind,
      if_neg Bool.false_ne_true]
    rfl
  · rw [if_neg twelve]
    rfl

end Lambpie.Runtime

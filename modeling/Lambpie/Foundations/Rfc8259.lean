/-
RFC 8259 texts as values.

A text is a list of Unicode characters, on the wire their UTF-8 encoding.  The
parser follows the grammar of the RFC section by section; the value of a number
is kept exact as a mantissa and a decimal exponent, and an object keeps its
members in order.
-/
import Mathlib.Tactic.SplitIfs
import Lambpie.Foundations.Decimal

namespace Foundations.Rfc8259

inductive Json where
  | null
  | bool (value : Bool)
  | number (mantissa exponent : Int)
  | string (text : List Char)
  | array (items : List Json)
  | object (members : List (List Char × Json))

/-- A reader of a prefix of the text: the value read and what follows it. -/
abbrev Reader (α : Type) := List Char → Option (α × List Char)

def quotationMark : Char := Char.ofNat 0x22

def escape : Char := Char.ofNat 0x5C

def isWhitespace (c : Char) : Bool :=
  c.toNat = 0x20 || c.toNat = 0x09 || c.toNat = 0x0A || c.toNat = 0x0D

def skipWhitespace (input : List Char) : List Char :=
  input.dropWhile isWhitespace

/-- A character that stands for itself in a string:
`%x20-21 / %x23-5B / %x5D-10FFFF`. -/
def isUnescaped (c : Char) : Bool :=
  0x20 ≤ c.toNat && c != quotationMark && c != escape

def digitValue (c : Char) : Nat := c.toNat - 0x30

def hexValue (c : Char) : Option Nat :=
  if c.isDigit then some (digitValue c)
  else if 0x41 ≤ c.toNat ∧ c.toNat ≤ 0x46 then some (c.toNat - 0x41 + 10)
  else if 0x61 ≤ c.toNat ∧ c.toNat ≤ 0x66 then some (c.toNat - 0x61 + 10)
  else none

def hexUnit (a b c d : Char) : Option Nat := do
  let a ← hexValue a
  let b ← hexValue b
  let c ← hexValue c
  let d ← hexValue d
  some (((a * 16 + b) * 16 + c) * 16 + d)

/-- The code point of a two-character escape, given its second character. -/
def shortEscape (c : Char) : Option Nat :=
  if c = quotationMark then some 0x22
  else if c = escape then some 0x5C
  else if c = '/' then some 0x2F
  else if c = 'b' then some 0x08
  else if c = 'f' then some 0x0C
  else if c = 'n' then some 0x0A
  else if c = 'r' then some 0x0D
  else if c = 't' then some 0x09
  else none

/-- The code points and UTF-16 code units of a string up to its closing
quotation mark. -/
def units : Reader (List Nat)
  | [] => none
  | c :: rest =>
      if c = quotationMark then some ([], rest)
      else if c = escape then
        match rest with
        | 'u' :: h₁ :: h₂ :: h₃ :: h₄ :: rest =>
            match hexUnit h₁ h₂ h₃ h₄, units rest with
            | some unit, some (others, rest) => some (unit :: others, rest)
            | _, _ => none
        | e :: rest =>
            match shortEscape e, units rest with
            | some unit, some (others, rest) => some (unit :: others, rest)
            | _, _ => none
        | [] => none
      else if isUnescaped c then
        match units rest with
        | some (others, rest) => some (c.toNat :: others, rest)
        | none => none
      else none

def isHighSurrogate (unit : Nat) : Bool := 0xD800 ≤ unit && unit < 0xDC00
def isLowSurrogate (unit : Nat) : Bool := 0xDC00 ≤ unit && unit < 0xE000

def replacementCharacter : Char := Char.ofNat 0xFFFD

def scalar (unit : Nat) : Char :=
  if isHighSurrogate unit || isLowSurrogate unit then replacementCharacter
  else Char.ofNat unit

/-- Surrogate pairs are combined; a surrogate without its partner has no
character of its own. -/
def joinSurrogates : List Nat → List Char
  | [] => []
  | [unit] => [scalar unit]
  | high :: low :: rest =>
      if isHighSurrogate high && isLowSurrogate low then
        Char.ofNat (0x10000 + (high - 0xD800) * 0x400 + (low - 0xDC00)) ::
          joinSurrogates rest
      else scalar high :: joinSurrogates (low :: rest)

/-- A string whose opening quotation mark has been read. -/
def string : Reader (List Char) := fun input =>
  match units input with
  | some (read, rest) => some (joinSurrogates read, rest)
  | none => none

def decimal (digits : List Char) : Int := Decimal.value (digits.map digitValue)

def fraction : Reader (List Char)
  | '.' :: rest =>
      if rest.takeWhile Char.isDigit = [] then none
      else some (rest.takeWhile Char.isDigit, rest.dropWhile Char.isDigit)
  | rest => some ([], rest)

def exponentSign : List Char → Int × List Char
  | '-' :: rest => (-1, rest)
  | '+' :: rest => (1, rest)
  | rest => (1, rest)

def exponent : Reader Int
  | [] => some (0, [])
  | c :: rest =>
      if c = 'e' ∨ c = 'E' then
        let (sign, rest) := exponentSign rest
        if rest.takeWhile Char.isDigit = [] then none
        else some (sign * decimal (rest.takeWhile Char.isDigit),
          rest.dropWhile Char.isDigit)
      else some (0, c :: rest)

def minus : List Char → Int × List Char
  | '-' :: rest => (-1, rest)
  | rest => (1, rest)

/-- `int = zero / ( digit1-9 *DIGIT )`. -/
def isInt (digits : List Char) : Bool :=
  digits ≠ [] && (digits = ['0'] || digits.head? ≠ some '0')

def number : Reader Json := fun input =>
  let (sign, input) := minus input
  let whole := input.takeWhile Char.isDigit
  if isInt whole then
    match fraction (input.dropWhile Char.isDigit) with
    | some (decimals, rest) =>
        match exponent rest with
        | some (power, rest) =>
            some (.number (sign * decimal (whole ++ decimals))
              (power - decimals.length), rest)
        | none => none
    | none => none
  else none

/-- A non-empty comma-separated sequence up to the closing character; the
counter bounds the number of items. -/
def sequence {α : Type} (close : Char) (item : Reader α) : Nat → Reader (List α)
  | 0, _ => none
  | room + 1, input =>
      match item input with
      | some (first, rest) =>
          match skipWhitespace rest with
          | [] => none
          | c :: rest =>
              if c = close then some ([first], rest)
              else if c = ',' then
                match sequence close item room rest with
                | some (others, rest) => some (first :: others, rest)
                | none => none
              else none
      | none => none

def enclosed {α : Type} (close : Char) (item : Reader α) (room : Nat) :
    Reader (List α) := fun input =>
  match skipWhitespace input with
  | [] => none
  | c :: rest =>
      if c = close then some ([], rest)
      else sequence close item room (c :: rest)

def member (value : Reader Json) : Reader (List Char × Json) := fun input =>
  match skipWhitespace input with
  | [] => none
  | c :: rest =>
      if c = quotationMark then
        match string rest with
        | some (name, rest) =>
            match skipWhitespace rest with
            | ':' :: rest =>
                match value rest with
                | some (read, rest) => some ((name, read), rest)
                | none => none
            | _ => none
        | none => none
      else none

/-- A value with the whitespace before it; the counter bounds its nesting and
the length of its sequences. -/
def value : Nat → Reader Json
  | 0, _ => none
  | room + 1, input =>
      match skipWhitespace input with
      | [] => none
      | c :: rest =>
          if c = quotationMark then
            match string rest with
            | some (text, rest) => some (.string text, rest)
            | none => none
          else if c = '\x7b' then
            match enclosed '\x7d' (member (value room)) room rest with
            | some (members, rest) => some (.object members, rest)
            | none => none
          else if c = '[' then
            match enclosed ']' (value room) room rest with
            | some (items, rest) => some (.array items, rest)
            | none => none
          else
            match c :: rest with
            | 'n' :: 'u' :: 'l' :: 'l' :: rest => some (.null, rest)
            | 't' :: 'r' :: 'u' :: 'e' :: rest => some (.bool true, rest)
            | 'f' :: 'a' :: 'l' :: 's' :: 'e' :: rest => some (.bool false, rest)
            | rest => number rest

/-- `JSON-text = ws value ws`. -/
def parse (input : List Char) : Option Json :=
  match value (input.length + 1) input with
  | some (read, rest) => if skipWhitespace rest = [] then some read else none
  | none => none

def utf8 (text : List Char) : List UInt8 := text.flatMap String.utf8EncodeChar

/-- The value of a byte sequence; `none` when it is no UTF-8 or no JSON text. -/
def parseBytes (input : List UInt8) : Option Json :=
  match (ByteArray.mk input.toArray).utf8Decode? with
  | some text => parse text.toList
  | none => none

/-! ### UTF-8 bytes -/

theorem utf8_append (first second : List Char) :
    utf8 (first ++ second) = utf8 first ++ utf8 second :=
  List.flatMap_append

theorem utf8_cons (c : Char) (rest : List Char) :
    utf8 (c :: rest) = String.utf8EncodeChar c ++ utf8 rest := rfl

theorem utf8EncodeChar_ascii {c : Char} (ascii : c.toNat ≤ 0x7F) :
    String.utf8EncodeChar c = [UInt8.ofNat c.toNat] := by
  unfold String.utf8EncodeChar
  exact if_pos ascii

private theorem ascii_mem_utf8EncodeChar {c : Char} {b : UInt8} (ascii : b.toNat ≤ 0x7F) :
    b ∈ String.utf8EncodeChar c ↔ c.toNat = b.toNat := by
  by_cases small : c.toNat ≤ 0x7F
  · rw [utf8EncodeChar_ascii small, List.mem_singleton, ← UInt8.toNat_inj,
      UInt8.toNat_ofNat', Nat.mod_eq_of_lt (by omega), eq_comm]
  · have absent : b ∉ String.utf8EncodeChar c := by
      have large : ¬c.val.toNat ≤ 0x7F := small
      unfold String.utf8EncodeChar
      rw [if_neg large]
      intro member
      split_ifs at member
      all_goals
        simp only [List.mem_cons, List.not_mem_nil, or_false,
          ← UInt8.toNat_inj, UInt8.toNat_ofNat'] at member
        omega
    constructor
    · intro member
      exact absurd member absent
    · intro same
      exact absurd (same ▸ ascii) small

theorem ascii_mem_utf8 {text : List Char} {b : UInt8} (ascii : b.toNat ≤ 0x7F) :
    b ∈ utf8 text ↔ ∃ c ∈ text, c.toNat = b.toNat := by
  unfold utf8
  rw [List.mem_flatMap]
  simp only [ascii_mem_utf8EncodeChar ascii]

/-- A byte below 0x80 stands between whole characters. -/
theorem utf8_eq_append_ascii {text : List Char} {front back : List UInt8} {b : UInt8}
    (ascii : b.toNat ≤ 0x7F) (split : utf8 text = front ++ b :: back) :
    ∃ before c after, text = before ++ c :: after ∧ utf8 before = front ∧
      utf8 after = back := by
  induction text generalizing front with
  | nil => exact absurd split (by simp [utf8])
  | cons c text ih =>
      rw [utf8_cons, List.append_eq_append_iff] at split
      rcases split with ⟨rest, isFront, split⟩ | ⟨rest, isChar, split⟩
      · obtain ⟨before, d, after, rfl, rfl, rfl⟩ := ih split
        exact ⟨c :: before, d, after, rfl, isFront.symm, rfl⟩
      · cases rest with
        | nil =>
            obtain ⟨before, d, after, rfl, isNil, rfl⟩ := @ih [] split.symm
            rw [List.append_nil] at isChar
            refine ⟨c :: before, d, after, rfl, ?_, rfl⟩
            rw [utf8_cons, isNil, List.append_nil, isChar]
        | cons b' rest =>
            cases (List.cons.inj split).1
            have member : b ∈ String.utf8EncodeChar c := by
              rw [isChar]
              exact List.mem_append_right _ List.mem_cons_self
            have small := (ascii_mem_utf8EncodeChar ascii).mp member
            rw [utf8EncodeChar_ascii (by omega), List.singleton_eq_append_iff] at isChar
            rcases isChar with ⟨rfl, same⟩ | ⟨-, none⟩
            · obtain rfl : rest = [] := (List.cons.inj same).2
              exact ⟨[], c, text, rfl, rfl, (List.cons.inj split).2.symm⟩
            · cases none

private theorem length_le_utf8 (text : List Char) : text.length ≤ (utf8 text).length := by
  induction text with
  | nil => exact Nat.zero_le _
  | cons c text ih =>
      have positive := c.utf8Size_pos
      rw [utf8_cons, List.length_append, String.length_utf8EncodeChar, List.length_cons]
      omega

/-- A text has no more bytes than characters only if it is ASCII. -/
theorem utf8_length_le_iff (text : List Char) :
    (utf8 text).length ≤ text.length ↔ text.all fun c => c.toNat ≤ 0x7F := by
  induction text with
  | nil => simp [utf8]
  | cons c text ih =>
      have size : c.utf8Size = 1 ↔ c.toNat ≤ 0x7F :=
        Char.utf8Size_eq_one_iff.trans UInt32.le_iff_toNat_le
      have atLeast := length_le_utf8 text
      have positive := c.utf8Size_pos
      rw [utf8_cons, List.length_append, String.length_utf8EncodeChar, List.length_cons,
        List.all_cons, Bool.and_eq_true, ← ih, decide_eq_true_eq, ← size]
      omega

theorem parseBytes_eq_some {input : List UInt8} {read : Json}
    (ran : parseBytes input = some read) :
    ∃ text, utf8 text = input ∧ parse text = some read := by
  unfold parseBytes at ran
  split at ran
  · rename_i text decoded
    refine ⟨text.toList, ?_, ran⟩
    have valid : (ByteArray.mk input.toArray).utf8Decode?.isSome := by rw [decoded]; rfl
    have encoded := @ByteArray.utf8Encode_get_utf8Decode? _ valid
    have same : (ByteArray.mk input.toArray).utf8Decode?.get valid = text := by
      simp [decoded]
    rw [same] at encoded
    have bytes := congrArg (fun bytes => bytes.data.toList) encoded
    simpa [List.utf8Encode, utf8] using bytes
  · cases ran

/-! ### Values by their first character -/

theorem skipWhitespace_cons {c : Char} (visible : isWhitespace c = false)
    (rest : List Char) : skipWhitespace (c :: rest) = c :: rest := by
  rw [skipWhitespace, List.dropWhile_cons_of_neg (by simp [visible])]

theorem value_string (room : Nat) (input : List Char) :
    value (room + 1) (quotationMark :: input) =
      (string input).map fun read => (.string read.1, read.2) := by
  rw [value, skipWhitespace_cons (by decide)]
  simp only [if_true]
  cases string input with
  | none => rfl
  | some read => rfl

theorem value_object (room : Nat) (input : List Char) :
    value (room + 1) ('\x7b' :: input) =
      (enclosed '\x7d' (member (value room)) room input).map
        fun read => (.object read.1, read.2) := by
  have notQuote : '\x7b' ≠ quotationMark := by decide
  rw [value, skipWhitespace_cons (by decide)]
  simp only [if_neg notQuote, if_true]
  cases enclosed '\x7d' (member (value room)) room input with
  | none => rfl
  | some read => rfl

/-! ### Reading back plain strings -/

private theorem joinSurrogates_cons {unit : Nat} (plain : isHighSurrogate unit = false)
    (rest : List Nat) :
    joinSurrogates (unit :: rest) = scalar unit :: joinSurrogates rest := by
  cases rest with
  | nil => simp [joinSurrogates]
  | cons low rest => simp [joinSurrogates, plain]

private theorem scalar_toNat (c : Char) : scalar c.toNat = c := by
  have valid := c.valid
  have high : isHighSurrogate c.toNat = false ∧ isLowSurrogate c.toNat = false := by
    have bounds : c.toNat < 0xD800 ∨ 0xDFFF < c.toNat := by
      rcases valid with low | high
      · exact Or.inl low
      · exact Or.inr high.1
    simp only [isHighSurrogate, isLowSurrogate, Bool.and_eq_false_iff,
      decide_eq_false_iff_not]
    omega
  rw [scalar, high.1, high.2]
  simp

private theorem isHighSurrogate_toNat (c : Char) : isHighSurrogate c.toNat = false := by
  have bounds : c.toNat < 0xD800 ∨ 0xDFFF < c.toNat := by
    rcases c.valid with low | high
    · exact Or.inl low
    · exact Or.inr high.1
  simp only [isHighSurrogate, Bool.and_eq_false_iff, decide_eq_false_iff_not]
  omega

private theorem joinSurrogates_map_toNat (text : List Char) :
    joinSurrogates (text.map Char.toNat) = text := by
  induction text with
  | nil => rfl
  | cons c rest ih =>
      rw [List.map_cons, joinSurrogates_cons (isHighSurrogate_toNat c), ih,
        scalar_toNat]

private theorem units_unescaped {text : List Char} (plain : text.all isUnescaped)
    (rest : List Char) :
    units (text ++ quotationMark :: rest) = some (text.map Char.toNat, rest) := by
  induction text with
  | nil =>
      rw [List.nil_append, units.eq_def]
      exact if_pos rfl
  | cons c others ih =>
      rw [List.all_cons, Bool.and_eq_true] at plain
      have inside : c ≠ quotationMark ∧ c ≠ escape := by
        have here := plain.1
        simp only [isUnescaped, Bool.and_eq_true, bne_iff_ne] at here
        exact ⟨here.1.2, here.2⟩
      rw [List.cons_append, units.eq_def]
      simp only [if_neg inside.1, if_neg inside.2, if_pos plain.1, ih plain.2,
        List.map_cons]

/-! ### What a string reader may have read

An escape takes at least two characters and leaves one, and a quotation mark
inside a string is always escaped.  So a string that reads as its own text
has no escapes and ends at its own quotation mark. -/

/-- The characters read, against the code units they stand for. -/
structure Consumed (chars : List Char) (read : List Nat) : Prop where
  shorter : read.length ≤ chars.length
  quotes : chars.count quotationMark ≤ read.count 0x22
  exact : read.length = chars.length → chars.all isUnescaped

theorem Consumed.nil : Consumed [] [] := ⟨Nat.le_refl _, Nat.le_refl _, fun _ => rfl⟩

theorem Consumed.cons {chars : List Char} {read : List Nat} {c : Char}
    (plain : isUnescaped c) (consumed : Consumed chars read) :
    Consumed (c :: chars) (c.toNat :: read) := by
  have notQuote : c ≠ quotationMark := by
    simp only [isUnescaped, Bool.and_eq_true, bne_iff_ne] at plain
    exact plain.1.2
  refine ⟨Nat.succ_le_succ consumed.shorter, ?_, ?_⟩
  · rw [List.count_cons_of_ne (by simpa using notQuote)]
    exact Nat.le_trans consumed.quotes List.count_le_count_cons
  · intro same
    rw [List.all_cons, plain, Bool.true_and]
    exact consumed.exact (Nat.succ.inj same)

theorem Consumed.escaped {front chars : List Char} {read : List Nat} {unit : Nat}
    (long : 2 ≤ front.length)
    (quotes : front.count quotationMark ≤ [unit].count 0x22)
    (consumed : Consumed chars read) :
    Consumed (front ++ chars) (unit :: read) := by
  refine ⟨?_, ?_, ?_⟩
  · have shorter := consumed.shorter
    simp only [List.length_cons, List.length_append]
    omega
  · have split : (unit :: read).count 0x22 =
        [unit].count 0x22 + read.count 0x22 := by
      rw [← List.count_append]
      rfl
    rw [List.count_append, split]
    exact Nat.add_le_add quotes consumed.quotes
  · intro same
    have shorter := consumed.shorter
    simp only [List.length_cons, List.length_append] at same
    omega

private theorem hexValue_quotationMark : hexValue quotationMark = none := by decide

theorem hexUnit_quotes {a b c d : Char} {unit : Nat}
    (read : hexUnit a b c d = some unit) :
    [a, b, c, d].count quotationMark = 0 := by
  simp only [hexUnit, Option.bind_eq_bind, Option.bind_eq_some_iff] at read
  obtain ⟨va, readA, vb, readB, vc, readC, vd, readD, -⟩ := read
  have hexNe {h : Char} {v : Nat} (hex : hexValue h = some v) :
      h ≠ quotationMark := by
    intro same
    rw [same, hexValue_quotationMark] at hex
    cases hex
  rw [List.count_eq_zero]
  simp only [List.mem_cons, List.not_mem_nil, or_false, not_or]
  exact ⟨(hexNe readA).symm, (hexNe readB).symm, (hexNe readC).symm,
    (hexNe readD).symm⟩

private theorem shortEscape_quotes {c : Char} {unit : Nat}
    (read : shortEscape c = some unit) :
    [escape, c].count quotationMark ≤ [unit].count 0x22 := by
  have escapeNe : escape ≠ quotationMark := by decide
  rw [List.count_cons_of_ne (by simpa using escapeNe)]
  by_cases quote : c = quotationMark
  · subst quote
    rw [shortEscape, if_pos rfl] at read
    cases read
    decide
  · rw [List.count_eq_zero.mpr (by simpa using Ne.symm quote)]
    exact Nat.zero_le _

private theorem units_consumed {input rest : List Char} {read : List Nat}
    (ran : units input = some (read, rest)) :
    ∃ chars, input = chars ++ quotationMark :: rest ∧ Consumed chars read := by
  fun_induction units input generalizing read rest with
  | case1 => cases ran
  | case2 tail =>
      cases ran
      exact ⟨[], rfl, Consumed.nil⟩
  | case3 h₁ h₂ h₃ h₄ tail unit others after rec hex notQuote ih =>
      cases ran
      obtain ⟨chars, rfl, consumed⟩ := ih rec
      refine ⟨[escape, 'u', h₁, h₂, h₃, h₄] ++ chars, rfl, ?_⟩
      refine Consumed.escaped (by simp) ?_ consumed
      have front : [escape, 'u', h₁, h₂, h₃, h₄].count quotationMark = 0 := by
        have digits := hexUnit_quotes hex
        rw [List.count_eq_zero] at digits ⊢
        have escapeNe : quotationMark ≠ escape := by decide
        have uNe : quotationMark ≠ 'u' := by decide
        simpa [escapeNe, uNe] using digits
      rw [front]
      exact Nat.zero_le _
  | case4 => cases ran
  | case5 e tail notUnit unit others after rec short notQuote ih =>
      cases ran
      obtain ⟨chars, rfl, consumed⟩ := ih rec
      exact ⟨[escape, e] ++ chars, rfl,
        Consumed.escaped (by simp) (shortEscape_quotes short) consumed⟩
  | case6 => cases ran
  | case7 => cases ran
  | case8 c tail notQuote notEscape plain others after rec ih =>
      cases ran
      obtain ⟨chars, rfl, consumed⟩ := ih rec
      exact ⟨c :: chars, rfl, consumed.cons plain⟩
  | case9 => cases ran
  | case10 => cases ran

private theorem length_joinSurrogates_le (read : List Nat) :
    (joinSurrogates read).length ≤ read.length := by
  fun_induction joinSurrogates read with
  | case1 => exact Nat.le_refl _
  | case2 => exact Nat.le_refl _
  | case3 high low rest pair ih =>
      simp only [List.length_cons]
      omega
  | case4 high low rest single ih => exact Nat.succ_le_succ ih

private theorem count_scalar_le (unit : Nat) :
    [unit].count 0x22 ≤ [scalar unit].count quotationMark := by
  by_cases quote : unit = 0x22
  · subst quote
    decide
  · rw [List.count_eq_zero.mpr (by simpa using Ne.symm quote)]
    exact Nat.zero_le _

private theorem count_joinSurrogates (read : List Nat) :
    read.count 0x22 ≤ (joinSurrogates read).count quotationMark := by
  fun_induction joinSurrogates read with
  | case1 => exact Nat.le_refl _
  | case2 unit => exact count_scalar_le unit
  | case3 high low rest pair ih =>
      have notQuote : high ≠ 0x22 ∧ low ≠ 0x22 := by
        simp only [isHighSurrogate, isLowSurrogate, Bool.and_eq_true,
          decide_eq_true_eq] at pair
        omega
      rw [List.count_cons_of_ne (by simpa using notQuote.1),
        List.count_cons_of_ne (by simpa using notQuote.2)]
      exact Nat.le_trans ih List.count_le_count_cons
  | case4 high low rest single ih =>
      have here := count_scalar_le high
      have splitUnits : (high :: low :: rest).count 0x22 =
          [high].count 0x22 + (low :: rest).count 0x22 := by
        rw [← List.count_append, List.singleton_append]
      have splitChars : (scalar high :: joinSurrogates (low :: rest)).count
          quotationMark = [scalar high].count quotationMark +
            (joinSurrogates (low :: rest)).count quotationMark := by
        rw [← List.count_append, List.singleton_append]
      rw [splitUnits, splitChars]
      exact Nat.add_le_add here ih

/-- A quoted text reads as itself exactly when each of its characters may stand
in a string unescaped, and then nothing behind the quotation mark is read. -/
theorem string_eq_iff (text tail rest : List Char) :
    string (text ++ quotationMark :: tail) = some (text, rest) ↔
      text.all isUnescaped ∧ rest = tail := by
  constructor
  · intro ran
    unfold string at ran
    split at ran
    · rename_i read after scanned
      simp only [Option.some.injEq, Prod.mk.injEq] at ran
      obtain ⟨joined, rfl⟩ := ran
      obtain ⟨chars, split, consumed⟩ := units_consumed scanned
      have joinedShorter := length_joinSurrogates_le read
      have joinedQuotes := count_joinSurrogates read
      have readShorter := consumed.shorter
      have readQuotes := consumed.quotes
      rw [joined] at joinedShorter joinedQuotes
      rcases Nat.lt_or_ge text.length chars.length with longer | within
      · -- the closing quotation mark was read as part of the string
        have whole : text ++ [quotationMark] <+: chars ++ quotationMark :: after := by
          rw [← split]
          exact ⟨tail, by simp⟩
        have inside : text ++ [quotationMark] <+: chars :=
          List.prefix_of_prefix_length_le whole (List.prefix_append _ _)
            (by simpa using longer)
        have more := inside.sublist.count_le quotationMark
        rw [List.count_append, List.count_singleton_self] at more
        omega
      · have sameLength : chars.length = text.length := by omega
        obtain ⟨sameText, sameRest⟩ := List.append_inj split sameLength.symm
        rw [sameText]
        exact ⟨consumed.exact (by omega), (List.cons.inj sameRest).2.symm⟩
    · cases ran
  · rintro ⟨plain, rfl⟩
    rw [string, units_unescaped plain]
    simp only [joinSurrogates_map_toNat]

/-! ### Sequences item by item -/

/-- Reading a sequence is reading its first item and then either the closing
character or a comma and the other items. -/
theorem sequence_cons_iff {α : Type} {close : Char} (apart : ',' ≠ close)
    (item : Reader α) (room : Nat) (input rest : List Char) (first : α)
    (others : List α) :
    sequence close item (room + 1) input = some (first :: others, rest) ↔
      ∃ after, item input = some (first, after) ∧
        (others = [] ∧ skipWhitespace after = close :: rest ∨
          ∃ more, skipWhitespace after = ',' :: more ∧
            sequence close item room more = some (others, rest)) := by
  rw [sequence]
  cases read : item input with
  | none => simp
  | some result =>
      obtain ⟨x, after⟩ := result
      cases skipped : skipWhitespace after with
      | nil =>
          constructor
          · intro ran
            simp only [skipped] at ran
            cases ran
          · rintro ⟨after', same, choice⟩
            cases same
            rw [skipped] at choice
            rcases choice with ⟨-, wrong⟩ | ⟨more, wrong, -⟩ <;> cases wrong
      | cons c more =>
          by_cases closes : c = close
          · subst closes
            simp only [skipped, if_true, Option.some.injEq, Prod.mk.injEq,
              List.cons.injEq]
            constructor
            · rintro ⟨⟨rfl, rfl⟩, rfl⟩
              exact ⟨after, ⟨rfl, rfl⟩, Or.inl ⟨rfl, skipped⟩⟩
            · rintro ⟨after', ⟨rfl, rfl⟩, choice⟩
              rw [skipped] at choice
              rcases choice with ⟨rfl, same⟩ | ⟨more', same, -⟩
              · exact ⟨⟨rfl, rfl⟩, (List.cons.inj same).2⟩
              · exact absurd (List.cons.inj same).1.symm apart
          · simp only [skipped, if_neg closes]
            by_cases comma : c = ','
            · subst comma
              simp only [if_true]
              constructor
              · intro ran
                split at ran
                · rename_i found
                  cases ran
                  exact ⟨after, rfl, Or.inr ⟨more, skipped, found⟩⟩
                · cases ran
              · rintro ⟨after', same, choice⟩
                cases same
                rw [skipped] at choice
                rcases choice with ⟨-, same⟩ | ⟨more', same, found⟩
                · exact absurd (List.cons.inj same).1 closes
                · rw [(List.cons.inj same).2, found]
            · rw [if_neg comma]
              constructor
              · intro ran
                cases ran
              · rintro ⟨after', same, choice⟩
                cases same
                rw [skipped] at choice
                rcases choice with ⟨-, same⟩ | ⟨more', same, -⟩
                · exact absurd (List.cons.inj same).1 closes
                · exact absurd (List.cons.inj same).1 comma

end Foundations.Rfc8259

/-
The flat JSON codec of the C runtime.

A byte string is the memory the C function was given; reading or writing past
its end is the outcome `fault`.  Loops count down the distance to the bound in
their own guard, so the counter runs out exactly when the guard fails.
-/
import Lambpie.Foundations.Outcome

namespace Lambpie.Runtime

open Foundations

abbrev Bytes := List UInt8

def quoteChar : UInt8 := 0x22
def commaChar : UInt8 := 0x2C
def colonChar : UInt8 := 0x3A
def minusChar : UInt8 := 0x2D
def zeroChar : UInt8 := 0x30
def nineChar : UInt8 := 0x39
def openBrace : UInt8 := 0x7B
def closeBrace : UInt8 := 0x7D

/-- `' '`, `'\t'`, `'\r'` and `'\n'`. -/
def isWs (c : UInt8) : Bool :=
  c = 0x20 || c = 0x09 || c = 0x0D || c = 0x0A

def isDigit (c : UInt8) : Bool := zeroChar ≤ c && c ≤ nineChar

def charAt (memory : Bytes) (pos : Nat) : Outcome UInt8 :=
  match memory[pos]? with
  | some c => .ok c
  | none => .fault

/-- `memcmp(memory + pos, pattern, len) == 0`. -/
def memEqual (memory : Bytes) (pos : Nat) (pattern : Bytes) : Outcome Bool :=
  if pos + pattern.length ≤ memory.length then
    .ok ((memory.drop pos).take pattern.length = pattern)
  else .fault

def skipWsLoop (json : Bytes) : Nat → Nat → Outcome Nat
  | 0, pos => .ok pos
  | fuel + 1, pos =>
      if pos < json.length then do
        let c ← charAt json pos
        if isWs c then skipWsLoop json fuel (pos + 1) else .ok pos
      else .ok pos

def skipWs (json : Bytes) (pos : Nat) : Outcome Nat :=
  skipWsLoop json (json.length - pos) pos

def findKeyLoop (json key : Bytes) : Nat → Nat → Outcome Nat
  | 0, _ => .ok json.length
  | fuel + 1, i =>
      if i + key.length + 1 < json.length then do
        let c ← charAt json i
        if c = quoteChar then do
          let same ← memEqual json (i + 1) key
          if same then do
            let d ← charAt json (i + 1 + key.length)
            if d = quoteChar then .ok i else findKeyLoop json key fuel (i + 1)
          else findKeyLoop json key fuel (i + 1)
        else findKeyLoop json key fuel (i + 1)
      else .ok json.length

/-- The index of the opening quote of the key, or the length when absent. -/
def findKey (json key : Bytes) : Outcome Nat :=
  if key.length = 0 ∨ json.length < key.length + 2 then .ok json.length
  else findKeyLoop json key json.length 0

/-- A returned pointer into the text together with the `*out_len` written for
it. -/
structure Slice where
  start : Nat
  len : Nat
deriving DecidableEq, Repr

def Slice.bytes (slice : Slice) (memory : Bytes) : Bytes :=
  (memory.drop slice.start).take slice.len

def scanQuoteLoop (json : Bytes) : Nat → Nat → Outcome Nat
  | 0, pos => .ok pos
  | fuel + 1, pos =>
      if pos < json.length then do
        let c ← charAt json pos
        if c ≠ quoteChar then scanQuoteLoop json fuel (pos + 1) else .ok pos
      else .ok pos

/-- Skip whitespace, require `':'`, skip whitespace: what both readers do after
a key.  `none` when the colon is missing, otherwise the position reached. -/
def seekValue (json : Bytes) (pos : Nat) : Outcome (Option Nat) := do
  let pos ← skipWs json pos
  if pos ≥ json.length then pure none
  else do
    let c ← charAt json pos
    if c ≠ colonChar then pure none
    else do
      let pos ← skipWs json (pos + 1)
      pure (some pos)

/-- `none` is the `NULL` result, on which `*out_len` is not written. -/
def jsonGetStr (json key : Bytes) : Outcome (Option Slice) := do
  let keyPos ← findKey json key
  if keyPos = json.length then pure none
  else do
    match ← seekValue json (keyPos + 1 + key.length + 1) with
    | none => pure none
    | some pos =>
        if pos ≥ json.length then pure none
        else do
          let c ← charAt json pos
          if c ≠ quoteChar then pure none
          else do
            let valStart := pos + 1
            let pos ← scanQuoteLoop json (json.length - valStart) valStart
            if pos ≥ json.length then pure none
            else pure (some { start := valStart, len := pos - valStart })

/-- `"%.*s"` of a key, one character per byte. -/
def printBytes (key : Bytes) : String :=
  String.ofList (key.map (fun c => Char.ofNat c.toNat))

/-- `int64_t`, with the two's-complement result where C arithmetic overflows. -/
abbrev Int64T := BitVec 64

def readDigitsLoop (json : Bytes) : Nat → Nat → Int64T → Outcome Int64T
  | 0, _, result => .ok result
  | fuel + 1, pos, result =>
      if pos < json.length then do
        let c ← charAt json pos
        if isDigit c then
          readDigitsLoop json fuel (pos + 1)
            (result * 10 + BitVec.ofNat 64 (c.toNat - zeroChar.toNat))
        else .ok result
      else .ok result

def jsonGetInt (json key : Bytes) : Outcome Int64T := do
  let keyText := printBytes key
  let keyPos ← findKey json key
  if keyPos = json.length then
    .exit 1 s!"json_get_int: key \"{keyText}\" not found\n"
  else do
    match ← seekValue json (keyPos + 1 + key.length + 1) with
    | none =>
        .exit 1 s!"json_get_int: malformed JSON, expected ':' after key \"{keyText}\"\n"
    | some pos =>
        if pos ≥ json.length then
          .exit 1 s!"json_get_int: truncated JSON, no value for key \"{keyText}\"\n"
        else do
          let c ← charAt json pos
          let negative := decide (c = minusChar)
          let pos := if negative then pos + 1 else pos
          let noDigit : Outcome Int64T := .exit 1
            s!"json_get_int: expected digit for key \"{keyText}\"\n"
          if pos ≥ json.length then noDigit
          else do
            let c ← charAt json pos
            if isDigit c then do
              let result ← readDigitsLoop json (json.length - pos) pos 0
              pure (if negative then -result else result)
            else noDigit

/-- The output buffer with the position the next byte goes to. -/
structure Writer where
  buf : Bytes
  pos : Nat
deriving DecidableEq, Repr

/-- `buf[pos++] = c`. -/
def Writer.put (w : Writer) (c : UInt8) : Outcome Writer :=
  if w.pos < w.buf.length then
    .ok { buf := w.buf.set w.pos c, pos := w.pos + 1 }
  else .fault

/-- `memcpy(buf + pos, src, len); pos += len`. -/
def Writer.copy (w : Writer) (src : Bytes) : Outcome Writer :=
  if w.pos + src.length ≤ w.buf.length then
    .ok { buf := w.buf.take w.pos ++ src ++ w.buf.drop (w.pos + src.length)
          pos := w.pos + src.length }
  else .fault

def jsonOpen (w : Writer) : Outcome Writer := w.put openBrace

def jsonClose (w : Writer) : Outcome Writer := w.put closeBrace

/-- `if (pos > 1) buf[pos++] = ','`: past the opening brace. -/
def writeComma (w : Writer) : Outcome Writer :=
  if w.pos > 1 then w.put commaChar else .ok w

/-- The comma before every field but the first, the quoted key and the colon:
the common opening of both field writers. -/
def writeKey (w : Writer) (key : Bytes) : Outcome Writer := do
  let w ← writeComma w
  let w ← w.put quoteChar
  let w ← w.copy key
  let w ← w.put quoteChar
  w.put colonChar

def jsonWriteStr (w : Writer) (key val : Bytes) : Outcome Writer := do
  let w ← writeKey w key
  let w ← w.put quoteChar
  let w ← w.copy val
  w.put quoteChar

/-- `char tmp[20]`: a digit past its end is a fault. -/
def tmpSize : Nat := 20

/-- The digits of `uval`, least significant first, into `tmp`. -/
def digitLoop : Nat → BitVec 64 → Bytes → Outcome Bytes
  | 0, _, tmp => .ok tmp
  | fuel + 1, uval, tmp =>
      if uval > 0 then
        if tmp.length < tmpSize then
          digitLoop fuel (uval / 10)
            (tmp ++ [zeroChar + UInt8.ofNat (uval % 10).toNat])
        else .fault
      else .ok tmp

/-- `for (i = n - 1; i >= 0; i--) buf[pos++] = tmp[i]`. -/
def reverseLoop (tmp : Bytes) : Nat → Writer → Outcome Writer
  | 0, w => .ok w
  | i + 1, w => do
      let c ← charAt tmp i
      let w ← w.put c
      reverseLoop tmp i w

def writeDigits (w : Writer) (uval : BitVec 64) : Outcome Writer := do
  let tmp ← digitLoop (tmpSize + 1) uval []
  reverseLoop tmp tmp.length w

def int64Min : Int64T := 0x8000000000000000
def int64Max : Int64T := 0x7FFFFFFFFFFFFFFF

def jsonWriteInt (w : Writer) (key : Bytes) (val : Int64T) : Outcome Writer := do
  let w ← writeKey w key
  if val = 0 then w.put zeroChar
  else if val.slt 0 then do
    let w ← w.put minusChar
    let uval := if val = int64Min then int64Max + 1 else -val
    writeDigits w uval
  else writeDigits w val

end Lambpie.Runtime

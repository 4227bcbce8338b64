/-
The receive loop of the HTTP helper.

One pass of the loop is one step.  The connection is the list of byte strings
that successive `recv` calls would return; a pass either parses one header
byte, receiving first when none is left, or receives body bytes only.
-/
import Mathlib.Algebra.Order.Ring.Int
import Lambpie.Foundations.Transition
import Lambpie.Runtime.Json

namespace Lambpie.Runtime

open Foundations

/-- `FATAL`: the message on standard error and `exit(1)`. -/
def fatal {α : Type} (message : String) : Outcome α :=
  .exit 1 ("FATAL: " ++ message ++ "\n")

def storeAt (memory : Bytes) (pos : Nat) (bytes : Bytes) : Outcome Bytes :=
  if pos + bytes.length ≤ memory.length then
    .ok (memory.take pos ++ bytes ++ memory.drop (pos + bytes.length))
  else .fault

/-- At most `requested` bytes of what the connection delivers next; the rest
stays in the connection.  No byte is the result 0 of a closed connection. -/
def recv (chunks : List Bytes) (requested : Nat) : Bytes × List Bytes :=
  match chunks with
  | [] => ([], [])
  | chunk :: rest =>
      if chunk.length ≤ requested then (chunk, rest)
      else (chunk.take requested, chunk.drop requested :: rest)

/-- `strncmp(memory + pos, literal, count) == 0`; the literal ends in a NUL. -/
def strncmpEqual (memory : Bytes) (pos : Nat) (literal : Bytes) :
    Nat → Outcome Bool
  | 0 => .ok true
  | count + 1 => do
      let c ← charAt memory pos
      match literal with
      | [] => pure (c = 0)
      | expected :: rest =>
          if c = expected then strncmpEqual memory (pos + 1) rest count
          else pure false

def plusChar : UInt8 := 0x2B

/-- `' '`, `'\t'`, `'\n'`, `'\v'`, `'\f'` and `'\r'`. -/
def isSpace (c : UInt8) : Bool := c = 0x20 || (0x09 ≤ c && c ≤ 0x0D)

/-- Leaves the loop by its guard, or by a read past the end. -/
def skipSpaceLoop (memory : Bytes) : Nat → Nat → Outcome Nat
  | 0, _ => .fault
  | fuel + 1, pos => do
      let c ← charAt memory pos
      if isSpace c then skipSpaceLoop memory fuel (pos + 1) else .ok pos

def numberLoop (memory : Bytes) : Nat → Nat → Nat → Outcome Nat
  | 0, _, _ => .fault
  | fuel + 1, pos, number => do
      let c ← charAt memory pos
      if isDigit c then
        numberLoop memory fuel (pos + 1)
          (number * 10 + (c.toNat - zeroChar.toNat))
      else .ok number

/-- The saturation of `strtol`. -/
def clampLong (number : Int) : Int := max (-2 ^ 63) (min (2 ^ 63 - 1) number)

/-- `(int) strtol(memory + pos, NULL, 10)`. -/
def atoi (memory : Bytes) (pos : Nat) : Outcome Int := do
  let pos ← skipSpaceLoop memory (memory.length + 1) pos
  let c ← charAt memory pos
  let pos := if c = minusChar ∨ c = plusChar then pos + 1 else pos
  let number ← numberLoop memory (memory.length + 1) pos 0
  let signed := if c = minusChar then -(number : Int) else number
  pure (BitVec.ofInt 32 (clampLong signed)).toInt

def lineFeed : UInt8 := 0x0A
def carriageReturn : UInt8 := 0x0D
def spaceChar : UInt8 := 0x20

def asciiBytes (text : String) : Bytes :=
  text.toList.map (fun c => UInt8.ofNat c.toNat)

def shutdownStatus : Bytes := asciiBytes "HTTP/1.0 410"
def contentLengthHeader : Bytes := asciiBytes "Content-Length:"
def requestIdHeader : Bytes := asciiBytes "Lambda-Runtime-Aws-Request-Id:"

structure HeaderParser where
  lineStart : Nat
  delimiter : Option Nat
  contentLength : Int
  awsRequestId : Option Slice
deriving DecidableEq, Repr

def HeaderParser.start : HeaderParser where
  lineStart := 0
  delimiter := none
  contentLength := -1
  awsRequestId := none

/-- `hb->awsRequestId` from the colon and the line feed of its line, the
length as `size_t` arithmetic gives it. -/
def requestIdSlice (delimiter parsePoint : Nat) : Slice where
  start := delimiter + 2
  len := (BitVec.ofNat 64 (parsePoint - (delimiter + 2)) - 1).toNat

/-- The line that ends with the line feed at `parsePoint`. -/
def parseLine (response : Bytes) (totalBytesReceived parsePoint : Nat)
    (parser : HeaderParser) : Outcome HeaderParser :=
  match parser.delimiter with
  | none => do
      let shutdown ←
        if totalBytesReceived ≥ 12 then
          memEqual response parser.lineStart shutdownStatus
        else pure false
      if shutdown then
        .exit 0 "Lambda container shutdown received (HTTP 410) — exiting"
      else pure parser
  | some delimiter => do
      let count := delimiter - parser.lineStart
      if ← strncmpEqual response parser.lineStart contentLengthHeader count then
        let contentLength ← atoi response (delimiter + 2)
        pure { parser with contentLength }
      else if ← strncmpEqual response parser.lineStart requestIdHeader count then
        pure { parser with
          awsRequestId := some (requestIdSlice delimiter parsePoint) }
      else pure parser

/-- The byte at `parsePoint`; `none` at the line feed of the blank line. -/
def parseByte (response : Bytes) (totalBytesReceived parsePoint : Nat)
    (parser : HeaderParser) : Outcome (Option HeaderParser) := do
  let c ← charAt response parsePoint
  if c = colonChar then pure (some { parser with delimiter := some parsePoint })
  else if c = lineFeed then
    if parsePoint < 3 then
      fatal "Unexpected line break in HTTP response before headers"
    else do
      let previous ← charAt response (parsePoint - 1)
      if previous ≠ carriageReturn then
        fatal "Malformed HTTP line break: missing \\r before \\n"
      else do
        let beforeIt ← charAt response (parsePoint - 2)
        if beforeIt = lineFeed then pure none
        else do
          let parser ← parseLine response totalBytesReceived parsePoint parser
          pure (some { parser with lineStart := parsePoint + 1, delimiter := none })
  else pure (some parser)

/-- The locals of the loop with the memory behind `hb->buffer.data` and the
connection.  `remain` is a C `int`, so it can be negative. -/
structure HttpState where
  response : Bytes
  parsePoint : Nat
  bodyStart : Option Nat
  totalBytesReceived : Nat
  remain : Int
  parser : HeaderParser
  chunks : List Bytes
deriving DecidableEq, Repr

/-- What `hb` holds on return.  A missing body is a `NULL` pointer, whose
length is not meaningful. -/
structure HttpResult where
  response : Bytes
  bufferLen : Nat
  body : Option Slice
  awsRequestId : Option Slice
deriving DecidableEq, Repr

def HttpState.start (response : Bytes) (recvBufSize : Nat)
    (chunks : List Bytes) : HttpState where
  response := response
  parsePoint := 0
  bodyStart := none
  totalBytesReceived := 0
  remain := recvBufSize
  parser := .start
  chunks := chunks

/-- `(size_t) remain`, the byte count passed to `recv`. -/
def requestedSize (remain : Int) : Nat := (BitVec.ofInt 64 remain).toNat

/-- Receives after the bytes already there and accounts for them. -/
def receive (state : HttpState) : Outcome HttpState :=
  let (received, chunks) := recv state.chunks (requestedSize state.remain)
  if received.length = 0 then
    fatal "recv() returned 0 or error — connection closed by Lambda Runtime API"
  else do
    let response ← storeAt state.response state.totalBytesReceived received
    pure { state with
      response
      totalBytesReceived := state.totalBytesReceived + received.length
      remain := state.remain - received.length
      chunks }

/-- The loop body from the test of `*parse_point` on. -/
def parseStep (state : HttpState) : Outcome HttpState := do
  match ← parseByte state.response state.totalBytesReceived state.parsePoint
      state.parser with
  | some parser => pure { state with parser, parsePoint := state.parsePoint + 1 }
  | none =>
      if state.parser.contentLength < 0 then
        fatal "HTTP response missing Content-Length header"
      else
        let bodyStart := state.parsePoint + 1
        pure { state with
          bodyStart := some bodyStart
          remain := state.parser.contentLength
            - ((state.totalBytesReceived : Int) - bodyStart)
          parsePoint := state.totalBytesReceived }

def loopBody (recvBufSize : Nat) (state : HttpState) : Outcome HttpState :=
  if state.parsePoint ≥ recvBufSize then fatal "HTTP response buffer overflow"
  else if state.parsePoint ≥ state.totalBytesReceived then do
    let received ← receive state
    let bytesReceived :=
      received.totalBytesReceived - state.totalBytesReceived
    if received.bodyStart.isSome then
      pure { received with parsePoint := state.parsePoint + bytesReceived }
    else parseStep received
  else parseStep state

/-- After the loop: the terminating NUL and the slices of `hb`. -/
def finish (state : HttpState) : Outcome HttpResult := do
  let response ← storeAt state.response state.totalBytesReceived [0]
  pure {
    response
    bufferLen := state.totalBytesReceived
    body := state.bodyStart.map fun start =>
      { start, len := state.totalBytesReceived - start }
    awsRequestId := state.parser.awsRequestId }

def httpStep (recvBufSize : Nat) (state : HttpState) :
    Progress HttpState (Outcome HttpResult) :=
  if state.remain = 0 then .halt (finish state)
  else
    match loopBody recvBufSize state with
    | .ok state => .next state
    | .exit status message => .halt (.exit status message)
    | .fault => .halt .fault

end Lambpie.Runtime

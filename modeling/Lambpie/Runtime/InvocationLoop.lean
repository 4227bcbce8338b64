/-
The invocation loop of the runtime.

One step of the loop starts a call of the HTTP helper, is one pass of its
receive loop, or goes on from its result.  The server is the list of
connections that successive calls open; each is the list of byte strings that
its `recv` calls would return.  A call without a connection blocks.  What the
process sends is recorded as it leaves the socket, and log lines, which only
reach standard error, are left out.
-/
import Lambpie.Runtime.Http

namespace Lambpie.Runtime

open Foundations

def maxRequestSize : Nat := 6 * 1048576
def maxResponseSize : Nat := 6 * 1048576
def maxHttpHeaderSize : Nat := 8 * 1024
def incomingLambdaRequestBufferSize : Nat := maxRequestSize + maxHttpHeaderSize
def outgoingLambdaResponseBufferSize : Nat := maxResponseSize

/-- The bytes of a mapping in front of its guard page. -/
def mapalloc (pagesize size : Nat) : Bytes :=
  List.replicate ((size ||| (pagesize - 1)) + 1) 0

/-- At most `count` characters of the string at `pos`, up to its NUL. -/
def readString (memory : Bytes) : Nat → Nat → Outcome Bytes
  | 0, _ => .ok []
  | count + 1, pos => do
      let c ← charAt memory pos
      if c = 0 then .ok []
      else do
        let rest ← readString memory count (pos + 1)
        pure (c :: rest)

/-- `%.*s` with the precision `(int) len`; a negative one counts as omitted. -/
def printSlice (memory : Bytes) (slice : Slice) : Outcome Bytes :=
  let precision := (BitVec.ofNat 32 slice.len).toInt
  if precision < 0 then readString memory (memory.length + 1) slice.start
  else readString memory precision.toNat slice.start

/-- What `snprintf` leaves in a buffer of the size given, without the NUL. -/
def snprintf (size : Nat) (text : Bytes) : Bytes := text.take (size - 1)

def printInt (number : Nat) : Bytes := asciiBytes (toString number)

/-- The bytes a call sends: its request line and header lines, then its
content. -/
structure HttpRequest where
  head : Bytes
  content : Bytes
deriving DecidableEq, Repr

def httpRequest (host path method content : Bytes) : HttpRequest where
  head := snprintf maxHttpHeaderSize
    (method ++ asciiBytes " " ++ path ++ asciiBytes " HTTP/1.1\r\nHost: " ++
      host ++ asciiBytes "\r\nContent-Type: application/json\r\n" ++
      asciiBytes "Content-Length: " ++ printInt content.length ++
      asciiBytes "\r\n\r\n")
  content := content

def nextRequest (host : Bytes) : HttpRequest :=
  httpRequest host (asciiBytes "/2018-06-01/runtime/invocation/next")
    (asciiBytes "GET") []

/-- `char path[256]` with the id of the invocation. -/
def invocationPath (memory : Bytes) (awsRequestId : Slice) (leaf : Bytes) :
    Outcome Bytes := do
  let requestId ← printSlice memory awsRequestId
  pure (snprintf 256
    (asciiBytes "/2018-06-01/runtime/invocation/" ++ requestId ++ leaf))

/-- `send_all(sockfd, buffer, len)`. -/
def readContent (buffer : Bytes) (len : Nat) : Outcome Bytes :=
  if len ≤ buffer.length then .ok (buffer.take len) else .fault

def writeErrorJson (bufsize : Nat) (errorType errorMessage : Bytes) :
    Outcome Bytes :=
  let text := asciiBytes "\x7b\"errorMessage\":\"" ++ errorMessage ++
    asciiBytes "\",\"errorType\":\"" ++ errorType ++
    asciiBytes "\",\"stackTrace\":[]\x7d"
  if text.length ≥ bufsize then
    fatal "write_error_json: error payload too large for internal buffer"
  else .ok text

def sendErrorResponse (host : Bytes) (hb : HttpResult)
    (errorType errorMessage : Bytes) : Outcome HttpRequest :=
  match hb.awsRequestId with
  | none =>
      fatal ("send_error_response called without a current request ID — " ++
        "call get_next_request() before send_error_response()")
  | some awsRequestId => do
      let path ← invocationPath hb.response awsRequestId (asciiBytes "/error")
      let body ← writeErrorJson 4096 errorType errorMessage
      pure (httpRequest host path (asciiBytes "POST") body)

def sendResponse (host : Bytes) (hb : HttpResult) (response : Bytes)
    (responseLen : Nat) : Outcome HttpRequest := do
  let path ← match hb.awsRequestId with
    | none => .fault
    | some awsRequestId =>
        invocationPath hb.response awsRequestId (asciiBytes "/response")
  let content ← readContent response responseLen
  pure (httpRequest host path (asciiBytes "POST") content)

/-- What a handler returns and the bytes it writes to the output buffer: all
those its length announces, within the buffer. -/
structure Reply where
  length : Int
  written : Bytes
  covered : length ≤ written.length
  fits : written.length ≤ outgoingLambdaResponseBufferSize

/-- The process apart from the buffer that `hb` points into.  The handler has
a state of its own, which it keeps from event to event. -/
structure Process (σ : Type) where
  output : Bytes
  handlerState : σ
  sent : List HttpRequest
  connections : List (List Bytes)

/-- Where the loop is: before a call of `get_next_request`, in its call of the
HTTP helper, or in that of `send_response` or `send_error_response`. -/
inductive LoopState (σ : Type) where
  | idle (memory : Bytes) (process : Process σ)
  | polling (http : HttpState) (process : Process σ)
  | replying (http : HttpState) (process : Process σ)

def LoopState.process {σ : Type} : LoopState σ → Process σ
  | .idle _ process => process
  | .polling _ process => process
  | .replying _ process => process

/-- The end of the run: a process that blocks, or one that has left. -/
abbrev LoopEnd (σ : Type) := Outcome (Process σ)

section Step

variable {σ : Type}

/-- A call of the HTTP helper: the request is sent and the receive loop starts
over in the same memory. -/
def http (recvBufSize : Nat) (memory : Bytes) (request : HttpRequest)
    (phase : HttpState → Process σ → LoopState σ) (process : Process σ) :
    Progress (LoopState σ) (LoopEnd σ) :=
  let sent := process.sent ++ [request]
  match process.connections with
  | [] => .halt (.ok { process with sent })
  | chunks :: connections =>
      .next (phase (.start memory recvBufSize chunks)
        { process with sent, connections })

/-- The handler's call and the request that answers the invocation. -/
def handleRequest (host : Bytes) (handler : σ → Option Bytes → Reply × σ)
    (hb : HttpResult) (process : Process σ) :
    Outcome (HttpRequest × Process σ) :=
  match hb.awsRequestId with
  | none =>
      fatal "Lambda-Runtime-Aws-Request-Id header missing from /next response"
  | some _ => do
      let event := hb.body.map fun body => body.bytes hb.response
      let (reply, handlerState) := handler process.handlerState event
      let output ← storeAt process.output 0 reply.written
      let request ←
        if reply.length < 0 then
          sendErrorResponse host hb (asciiBytes "Runtime.HandlerError")
            (asciiBytes "handler returned a negative response length")
        else sendResponse host hb output reply.length.toNat
      pure (request, { process with output, handlerState })

def startLambdaStep (host : Bytes) (handler : σ → Option Bytes → Reply × σ) :
    LoopState σ → Progress (LoopState σ) (LoopEnd σ)
  | .idle memory process =>
      http incomingLambdaRequestBufferSize memory (nextRequest host) .polling
        process
  | .polling state process =>
      match httpStep incomingLambdaRequestBufferSize state with
      | .next state => .next (.polling state process)
      | .halt (.exit status message) => .halt (.exit status message)
      | .halt .fault => .halt .fault
      | .halt (.ok hb) =>
          match handleRequest host handler hb process with
          | .ok (request, process) =>
              http maxHttpHeaderSize hb.response request .replying process
          | .exit status message => .halt (.exit status message)
          | .fault => .halt .fault
  | .replying state process =>
      match httpStep maxHttpHeaderSize state with
      | .next state => .next (.replying state process)
      | .halt (.exit status message) => .halt (.exit status message)
      | .halt .fault => .halt .fault
      | .halt (.ok hb) => .next (.idle hb.response process)

/-- The process after `runtime_init`. -/
def startLambda (pagesize : Nat) (handlerState : σ)
    (connections : List (List Bytes)) : LoopState σ :=
  .idle (mapalloc pagesize incomingLambdaRequestBufferSize)
    { output := mapalloc pagesize outgoingLambdaResponseBufferSize
      handlerState
      sent := []
      connections }

end Step

end Lambpie.Runtime

/-
Every invocation is answered once, in order and under its own id.

The request id and the event body are slices of the buffer that the
acknowledgement overwrites.  One round of the loop reads both before the call
that overwrites them, so a run over any list of invocations is a run of rounds.
-/
import Mathlib
import Lambpie.Runtime.HttpParse
import Lambpie.Runtime.InvocationLoop

namespace Lambpie.Runtime

open Foundations

/-! ### Calls of the helper -/

section Calls

variable {recvBufSize : Nat} {memory : Bytes} {chunks : List Bytes}

theorem HttpMessage.returned {message : HttpMessage}
    (connection : Connection recvBufSize memory.length chunks)
    (delivered : chunks.flatten = message.text)
    (room : message.text.length < recvBufSize) :
    ∃ last result, Reaches (httpStep recvBufSize)
        (.start memory recvBufSize chunks) last ∧
      httpStep recvBufSize last = .halt (.ok result) ∧
      result.response.length = memory.length ∧
      message.text <+: result.response ∧
      result.awsRequestId = message.parsed.awsRequestId := by
  obtain ⟨last, front, reached, inside, finished⟩ :=
    message.received connection delivered room
  have capacity := connection.capacity
  obtain ⟨result, returned, length, whole, -, awsRequestId⟩ :=
    HttpMessage.finish_eq delivered inside finished (by omega)
  refine ⟨last, result, reached, ?_, length, whole, awsRequestId⟩
  rw [httpStep, if_pos finished, returned]

/-- `awsRequestId.data` is not NULL, and the `len` bytes at it are the id. -/
def HttpResult.Identifies (hb : HttpResult) (requestId : Bytes) : Prop :=
  ∃ slice, hb.awsRequestId = some slice ∧ slice.len = requestId.length ∧
    slice.bytes hb.response = requestId

theorem HttpMessage.identifies_recorded {message : HttpMessage} {hb : HttpResult} {lines : List HeaderLine}
    {total : Nat} (isPrefix : lines <+: message.headers)
    (within : lines = [] ∨ message.lineStart lines ≤ total)
    (stored : hb.response.take total = message.text.take total)
    (recorded : hb.awsRequestId = (message.recorded lines).awsRequestId)
    (requestId : Bytes) :
    hb.Identifies requestId ↔
      (lines.filterMap HeaderLine.requestId?).getLast? = some requestId := by
  obtain ⟨after, split⟩ := isPrefix
  have suffix : message.text.drop (message.statusLine.length + 2) =
      linesText lines ++ (linesText after ++ crlf ++ message.body) := by
    have lineEnd : message.statusLine.length + 2 = (message.statusLine ++ crlf).length := by
      simp [crlf]
    rw [HttpMessage.text, HttpMessage.head, ← split, lineEnd]
    simp [linesText]
  obtain ⟨unset, found⟩ := recordLines_requestId message.text _ _
    { HeaderParser.start with lineStart := message.statusLine.length + 2 } lines suffix
  -- The slice recorded is in memory what it is in the message.
  have denotes (id : Bytes)
      (last : (lines.filterMap HeaderLine.requestId?).getLast? = some id) :
      ∃ slice, hb.awsRequestId = some slice ∧ slice.len = id.length ∧
        slice.bytes hb.response = id := by
    obtain ⟨start, rest, isSlice, located, inLines⟩ := found id last
    have inMemory : start + id.length ≤ total := by
      rcases within with rfl | within
      · cases last
      · exact inLines.trans within
    obtain ⟨junk, here⟩ := drop_of_take_eq stored located inMemory
    refine ⟨_, recorded.trans isSlice, rfl, ?_⟩
    rw [Slice.bytes, here]
    exact List.take_left
  constructor
  · rintro ⟨slice, isSlice, -, bytes⟩
    cases last : (lines.filterMap HeaderLine.requestId?).getLast? with
    | none =>
        rw [recorded, HttpMessage.recorded, unset last] at isSlice
        cases isSlice
    | some id =>
        obtain ⟨other, isOther, -, denotesId⟩ := denotes id last
        rw [isSlice] at isOther
        cases isOther
        rw [← bytes, denotesId]
  · exact denotes requestId

/-- What a received message identifies is the id on its last line with one. -/
theorem HttpMessage.identifies_iff {message : HttpMessage} {hb : HttpResult}
    (whole : message.text <+: hb.response)
    (parsed : hb.awsRequestId = message.parsed.awsRequestId)
    (requestId : Bytes) :
    hb.Identifies requestId ↔ message.lastRequestId = some requestId := by
  have stored : hb.response.take message.text.length =
      message.text.take message.text.length := by
    rw [List.take_length]
    exact (List.prefix_iff_eq_take.mp whole).symm
  have inText : message.lineStart message.headers ≤ message.text.length := by
    have length := message.head_length
    rw [HttpMessage.text, List.length_append]
    unfold HttpMessage.lineStart
    omega
  exact message.identifies_recorded List.prefix_rfl (.inr inText) stored parsed requestId

theorem HttpResponse.returned {response : HttpResponse}
    (connection : Connection recvBufSize memory.length chunks)
    (delivered : chunks.flatten = response.text)
    (room : response.text.length < recvBufSize) :
    ∃ last result body requestId, Reaches (httpStep recvBufSize)
        (.start memory recvBufSize chunks) last ∧
      httpStep recvBufSize last = .halt (.ok result) ∧
      result.response.length = memory.length ∧
      requestId.len = response.requestId.length ∧
      result.body = some body ∧ body.bytes result.response = response.body ∧
      result.awsRequestId = some requestId ∧
      requestId.bytes result.response = response.requestId := by
  have capacity := connection.capacity
  obtain ⟨last, front, reached, inside, finished⟩ :=
    @HttpMessage.received _ _ _ response.message connection delivered room
  obtain ⟨result, body, requestId, returned, slices⟩ :=
    (finish_eq delivered inside finished).1 (by omega)
  refine ⟨last, result, body, requestId, reached, ?_, slices⟩
  rw [httpStep, if_pos finished, returned]

end Calls

private theorem readString_text {memory rest text : Bytes} {pos : Nat}
    (noNul : (0 : UInt8) ∉ text) (here : memory.drop pos = text ++ rest) :
    readString memory text.length pos = .ok text := by
  induction text generalizing pos with
  | nil => rfl
  | cons c text ih =>
      rw [List.mem_cons, not_or] at noNul
      rw [List.cons_append] at here
      rw [List.length_cons, readString, charAt_of_drop here, Outcome.ok_bind,
        if_neg (fun nul => noNul.1 nul.symm),
        ih noNul.2 (drop_succ_of_drop here)]
      rfl

private theorem printSlice_eq {memory text : Bytes} {slice : Slice}
    (noNul : (0 : UInt8) ∉ text) (short : text.length < 2 ^ 31)
    (len : slice.len = text.length) (bytes : slice.bytes memory = text) :
    printSlice memory slice = .ok text := by
  have here : memory.drop slice.start =
      text ++ (memory.drop slice.start).drop slice.len := by
    rw [← bytes, Slice.bytes]
    exact (List.take_append_drop _ _).symm
  have precision : (BitVec.ofNat 32 slice.len).toInt = text.length := by
    rw [BitVec.toInt_ofNat', len]
    exact Int.bmod_eq_of_le (by omega) (by omega)
  have nonneg : ¬((text.length : Int) < 0) := by omega
  rw [printSlice, precision]
  simp only [if_neg nonneg, Int.toNat_natCast]
  exact readString_text noNul here

def answerPath (requestId leaf : Bytes) : Bytes :=
  asciiBytes "/2018-06-01/runtime/invocation/" ++ requestId ++ leaf

private theorem invocationPath_eq {memory requestId leaf : Bytes} {slice : Slice}
    (noNul : (0 : UInt8) ∉ requestId) (idShort : requestId.length ≤ 200)
    (leafShort : leaf.length ≤ 20) (len : slice.len = requestId.length)
    (bytes : slice.bytes memory = requestId) :
    invocationPath memory slice leaf = .ok (answerPath requestId leaf) := by
  have prefixLength :
      (asciiBytes "/2018-06-01/runtime/invocation/").length = 31 := by decide
  rw [invocationPath, printSlice_eq noNul (by omega) len bytes,
    Outcome.ok_bind, snprintf, List.take_of_length_le]
  · rfl
  · rw [List.length_append, List.length_append, prefixLength]
    omega

private theorem httpRequest_requestLine {path method : Bytes} (host content : Bytes)
    (pathShort : path.length ≤ 255) (methodShort : method.length ≤ 4) :
    method ++ asciiBytes " " ++ path ++ asciiBytes " HTTP/1.1\r\n" <+:
      (httpRequest host path method content).head := by
  have spaceLength : (asciiBytes " ").length = 1 := by decide
  have versionLength : (asciiBytes " HTTP/1.1\r\n").length = 11 := by decide
  have versionSplit : asciiBytes " HTTP/1.1\r\nHost: " =
      asciiBytes " HTTP/1.1\r\n" ++ asciiBytes "Host: " := by decide
  rw [httpRequest, snprintf, versionSplit]
  apply List.prefix_take_iff.mpr
  constructor
  · simp only [List.append_assoc, List.prefix_append_right_inj,
      List.prefix_append]
  · simp only [List.length_append, spaceLength, versionLength, maxHttpHeaderSize]
    omega

/-- What the server delivers for one invocation: a response to the poll and an
acknowledgement of the answer, each split in any way. -/
structure Invocation where
  next : HttpResponse
  nextChunks : List Bytes
  nextDelivered : nextChunks.flatten = next.text
  nextNonempty : ∀ chunk ∈ nextChunks, chunk ≠ []
  nextRoom : next.text.length < incomingLambdaRequestBufferSize
  idNonempty : 1 ≤ next.requestId.length
  idShort : next.requestId.length ≤ 200
  idNoNul : (0 : UInt8) ∉ next.requestId
  acknowledgement : HttpMessage
  ackChunks : List Bytes
  ackDelivered : ackChunks.flatten = acknowledgement.text
  ackNonempty : ∀ chunk ∈ ackChunks, chunk ≠ []
  ackRoom : acknowledgement.text.length < maxHttpHeaderSize

def Invocation.connections (invocation : Invocation) : List (List Bytes) :=
  [invocation.nextChunks, invocation.ackChunks]

def HttpRequest.isPost (request : HttpRequest) : Bool :=
  (asciiBytes "POST ").isPrefixOf request.head

def Process.posts {σ : Type} (process : Process σ) : List HttpRequest :=
  process.sent.filter HttpRequest.isPost

def handlerError : Bytes :=
  asciiBytes ("\x7b\"errorMessage\":\"handler returned a negative response " ++
    "length\",\"errorType\":\"Runtime.HandlerError\",\"stackTrace\":[]\x7d")

/-- The POST answers the invocation with the reply: its path holds the id and
names the endpoint, its content is what the handler wrote. -/
def Answers (post : HttpRequest) (invocation : Invocation) (reply : Reply) :
    Prop :=
  if reply.length < 0 then
    asciiBytes "POST /2018-06-01/runtime/invocation/" ++
        invocation.next.requestId ++ asciiBytes "/error HTTP/1.1\r\n" <+:
      post.head ∧
    post.content = handlerError
  else
    asciiBytes "POST /2018-06-01/runtime/invocation/" ++
        invocation.next.requestId ++ asciiBytes "/response HTTP/1.1\r\n" <+:
      post.head ∧
    post.content = reply.written.take reply.length.toNat

/-- The replies of the handler to the events of the invocations, each given
the state the one before it left. -/
def repliesOf {σ : Type} (handler : σ → Option Bytes → Reply × σ) :
    σ → List Invocation → List (Invocation × Reply)
  | _, [] => []
  | handlerState, invocation :: rest =>
      let (reply, handlerState) := handler handlerState (some invocation.next.body)
      (invocation, reply) :: repliesOf handler handlerState rest

/-! ### One round -/

private theorem nextRequest_isPost (host : Bytes) :
    (nextRequest host).isPost = false := rfl

private theorem post_isPost {path : Bytes} (host content : Bytes)
    (short : path.length ≤ 255) :
    (httpRequest host path (asciiBytes "POST") content).isPost = true := by
  have requestLine :=
    httpRequest_requestLine host content short (by decide : (asciiBytes "POST").length ≤ 4)
  rw [List.append_assoc, List.append_assoc] at requestLine
  have method : asciiBytes "POST " <+: asciiBytes "POST" ++
      (asciiBytes " " ++ (path ++ asciiBytes " HTTP/1.1\r\n")) := by
    rw [← List.append_assoc]
    exact List.prefix_append _ _
  exact List.isPrefixOf_iff_prefix.mpr (method.trans requestLine)

section Round

variable {σ : Type} {host : Bytes} {handler : σ → Option Bytes → Reply × σ}
  {invocation : Invocation} {hb : HttpResult} {awsRequestId : Slice}

private theorem answerPath_length {leaf : Bytes} (leafShort : leaf.length ≤ 20) :
    (answerPath invocation.next.requestId leaf).length ≤ 255 := by
  have idShort := invocation.idShort
  have prefixLength :
      (asciiBytes "/2018-06-01/runtime/invocation/").length = 31 := by decide
  rw [answerPath, List.length_append, List.length_append, prefixLength]
  omega

/-- The POST to the endpoint that the leaf names, with the content given. -/
def answer (host requestId leaf content : Bytes) : HttpRequest :=
  httpRequest host (answerPath requestId leaf) (asciiBytes "POST") content

private theorem answer_requestLine {leaf : Bytes} (content : Bytes)
    (leafShort : leaf.length ≤ 20) :
    asciiBytes "POST /2018-06-01/runtime/invocation/" ++
        invocation.next.requestId ++ (leaf ++ asciiBytes " HTTP/1.1\r\n") <+:
      (answer host invocation.next.requestId leaf content).head := by
  have line := httpRequest_requestLine host content
    (answerPath_length leafShort : (answerPath invocation.next.requestId leaf).length ≤ 255)
    (by decide : (asciiBytes "POST").length ≤ 4)
  have start : asciiBytes "POST /2018-06-01/runtime/invocation/" =
      asciiBytes "POST" ++ asciiBytes " " ++
        asciiBytes "/2018-06-01/runtime/invocation/" := by decide
  rw [start]
  simpa only [answer, answerPath, List.append_assoc] using line

private theorem sendErrorResponse_eq (found : hb.awsRequestId = some awsRequestId)
    (len : awsRequestId.len = invocation.next.requestId.length)
    (bytes : awsRequestId.bytes hb.response = invocation.next.requestId) :
    sendErrorResponse host hb (asciiBytes "Runtime.HandlerError")
        (asciiBytes "handler returned a negative response length") =
      .ok (answer host invocation.next.requestId (asciiBytes "/error")
        handlerError) := by
  have body : writeErrorJson 4096 (asciiBytes "Runtime.HandlerError")
      (asciiBytes "handler returned a negative response length") =
        .ok handlerError := by decide +kernel
  rw [sendErrorResponse, found]
  simp only
  rw [invocationPath_eq invocation.idNoNul invocation.idShort (by decide) len
    bytes, Outcome.ok_bind, body]
  rfl

private theorem sendResponse_eq {response : Bytes} {responseLen : Nat}
    (found : hb.awsRequestId = some awsRequestId)
    (len : awsRequestId.len = invocation.next.requestId.length)
    (bytes : awsRequestId.bytes hb.response = invocation.next.requestId)
    (inside : responseLen ≤ response.length) :
    sendResponse host hb response responseLen =
      .ok (answer host invocation.next.requestId (asciiBytes "/response")
        (response.take responseLen)) := by
  rw [sendResponse, found]
  simp only
  rw [invocationPath_eq invocation.idNoNul invocation.idShort (by decide) len
    bytes, Outcome.ok_bind, readContent, if_pos inside]
  rfl

/-- The answer to the event that the helper returned, built before anything
overwrites the buffer. -/
theorem handleRequest_eq {body : Slice} {process : Process σ}
    (hasBody : hb.body = some body)
    (event : body.bytes hb.response = invocation.next.body)
    (found : hb.awsRequestId = some awsRequestId)
    (len : awsRequestId.len = invocation.next.requestId.length)
    (bytes : awsRequestId.bytes hb.response = invocation.next.requestId)
    (room : outgoingLambdaResponseBufferSize ≤ process.output.length) :
    ∃ post output, handleRequest host handler hb process =
        .ok (post, { process with
          output
          handlerState :=
            (handler process.handlerState (some invocation.next.body)).2 }) ∧
      output.length = process.output.length ∧ post.isPost ∧
      Answers post invocation
        (handler process.handlerState (some invocation.next.body)).1 := by
  have errorLine : (asciiBytes "/error").length ≤ 20 := by decide
  have responseLine : (asciiBytes "/response").length ≤ 20 := by decide
  rw [handleRequest, found]
  simp only
  rw [hasBody, Option.map_some, event]
  generalize handler process.handlerState (some invocation.next.body) = outcome
  obtain ⟨reply, handlerState⟩ := outcome
  have fits := reply.fits
  have covered := reply.covered
  have stores : storeAt process.output 0 reply.written =
      .ok (reply.written ++ process.output.drop reply.written.length) := by
    rw [storeAt, if_pos (by omega), List.take_zero, List.nil_append,
      Nat.zero_add]
  have size : (reply.written ++ process.output.drop reply.written.length).length =
      process.output.length := by
    rw [List.length_append, List.length_drop]
    omega
  simp only
  rw [stores, Outcome.ok_bind]
  by_cases negative : reply.length < 0
  · simp only [if_pos negative]
    rw [sendErrorResponse_eq found len bytes, Outcome.ok_bind]
    refine ⟨_, _, rfl, size, post_isPost _ _ (answerPath_length errorLine), ?_⟩
    rw [Answers, if_pos negative]
    exact ⟨answer_requestLine _ errorLine, rfl⟩
  · have inside : reply.length.toNat ≤
        (reply.written ++ process.output.drop reply.written.length).length := by
      omega
    simp only [if_neg negative]
    rw [sendResponse_eq found len bytes inside, Outcome.ok_bind]
    refine ⟨_, _, rfl, size, post_isPost _ _ (answerPath_length responseLine), ?_⟩
    rw [Answers, if_neg negative]
    refine ⟨answer_requestLine _ responseLine, ?_⟩
    exact List.take_append_of_le_length (by omega)

theorem Reaches.polling {process : Process σ} {first last : HttpState}
    (reached : Reaches (httpStep incomingLambdaRequestBufferSize) first last) :
    Reaches (startLambdaStep host handler) (.polling first process)
      (.polling last process) := by
  apply reached.map (LoopState.polling · process)
  intro before after stepped
  simp only [startLambdaStep, stepped]

theorem Reaches.replying {process : Process σ} {first last : HttpState}
    (reached : Reaches (httpStep maxHttpHeaderSize) first last) :
    Reaches (startLambdaStep host handler) (.replying first process)
      (.replying last process) := by
  apply reached.map (LoopState.replying · process)
  intro before after stepped
  simp only [startLambdaStep, stepped]

private theorem Invocation.nextConnection (invocation : Invocation) {size : Nat}
    (room : incomingLambdaRequestBufferSize ≤ size) :
    Connection incomingLambdaRequestBufferSize size invocation.nextChunks where
  intRange := by decide
  capacity := room
  nonempty := invocation.nextNonempty
  fits := by
    rw [invocation.nextDelivered]
    exact le_of_lt invocation.nextRoom

theorem poll_answered (host : Bytes) (handler : σ → Option Bytes → Reply × σ)
    (invocation : Invocation) {memory : Bytes} {process : Process σ}
    {connections : List (List Bytes)}
    (room : incomingLambdaRequestBufferSize ≤ memory.length)
    (outputRoom : outgoingLambdaResponseBufferSize ≤ process.output.length)
    (pending : process.connections = invocation.connections ++ connections) :
    ∃ polling polled polling' output post,
      Reaches (startLambdaStep host handler) (.idle memory process)
        (.polling polling polling') ∧
      httpStep incomingLambdaRequestBufferSize polling = .halt (.ok polled) ∧
      polled.response.length = memory.length ∧
      polled.Identifies invocation.next.requestId ∧
      startLambdaStep host handler (.polling polling polling') =
        .next (.replying
          (.start polled.response maxHttpHeaderSize invocation.ackChunks)
          { output, connections
            handlerState :=
              (handler process.handlerState (some invocation.next.body)).2
            sent := process.sent ++ [nextRequest host, post] }) ∧
      output.length = process.output.length ∧ post.isPost ∧
      Answers post invocation
        (handler process.handlerState (some invocation.next.body)).1 := by
  obtain ⟨lastPoll, hb, body, awsRequestId, polled, returned, size, len,
    hasBody, event, found, bytes⟩ := HttpResponse.returned
      (invocation.nextConnection room) invocation.nextDelivered
      invocation.nextRoom
  let polling : Process σ :=
    { process with
      sent := process.sent ++ [nextRequest host]
      connections := invocation.ackChunks :: connections }
  obtain ⟨post, output, handled, outputSize, isPost, answers⟩ :=
    @handleRequest_eq σ host handler invocation hb awsRequestId body polling
      hasBody event found len bytes outputRoom
  have opened : Reaches (startLambdaStep host handler) (.idle memory process)
      (.polling (.start memory incomingLambdaRequestBufferSize
        invocation.nextChunks) polling) := by
    apply Reaches.of_step
    simp only [startLambdaStep, http, pending, Invocation.connections,
      List.cons_append, List.nil_append, polling]
  refine ⟨lastPoll, hb, polling, output, post,
    opened.trans (Reaches.polling polled), returned, size,
    ⟨awsRequestId, found, len, bytes⟩, ?_, outputSize, isPost, answers⟩
  simp only [startLambdaStep, returned, handled, http, polling,
    List.append_assoc, List.cons_append, List.nil_append]

theorem acknowledged (host : Bytes) (handler : σ → Option Bytes → Reply × σ)
    {message : HttpMessage} {memory : Bytes} {chunks : List Bytes}
    (posted : Process σ) (capacity : maxHttpHeaderSize ≤ memory.length)
    (delivered : chunks.flatten = message.text)
    (nonempty : ∀ chunk ∈ chunks, chunk ≠ [])
    (room : message.text.length < maxHttpHeaderSize) :
    ∃ last hb, Reaches (startLambdaStep host handler)
        (.replying (.start memory maxHttpHeaderSize chunks) posted)
        (.replying last posted) ∧
      httpStep maxHttpHeaderSize last = .halt (.ok hb) ∧
      hb.response.length = memory.length ∧
      ∀ requestId,
        hb.Identifies requestId ↔ message.lastRequestId = some requestId := by
  have connection : Connection maxHttpHeaderSize memory.length chunks :=
    { intRange := by decide
      capacity := capacity
      nonempty := nonempty
      fits := by
        rw [delivered]
        exact le_of_lt room }
  obtain ⟨last, hb, replied, ended, size, whole, parsed⟩ :=
    HttpMessage.returned connection delivered room
  exact ⟨last, hb, Reaches.replying replied, ended, size,
    HttpMessage.identifies_iff whole parsed⟩

/-- From one poll to the next: the invocation is answered once, and both
buffers keep their size. -/
theorem round_reaches (host : Bytes) (handler : σ → Option Bytes → Reply × σ)
    (invocation : Invocation) {memory : Bytes} {process : Process σ}
    {connections : List (List Bytes)}
    (room : incomingLambdaRequestBufferSize ≤ memory.length)
    (outputRoom : outgoingLambdaResponseBufferSize ≤ process.output.length)
    (pending : process.connections = invocation.connections ++ connections) :
    ∃ memory' output post,
      Reaches (startLambdaStep host handler) (.idle memory process)
        (.idle memory'
          { output, connections
            handlerState :=
              (handler process.handlerState (some invocation.next.body)).2
            sent := process.sent ++ [nextRequest host, post] }) ∧
      memory'.length = memory.length ∧
      output.length = process.output.length ∧ post.isPost ∧
      Answers post invocation
        (handler process.handlerState (some invocation.next.body)).1 := by
  obtain ⟨polling, polled, polling', output, post, toPoll, -, size, -, answered,
    outputSize, isPost, answers⟩ :=
      poll_answered host handler invocation room outputRoom pending
  have capacity : maxHttpHeaderSize ≤ polled.response.length := by
    rw [size]
    exact le_trans (by decide) room
  obtain ⟨lastReply, hb, replied, ended, ackSize, -⟩ :=
    acknowledged host handler _ capacity invocation.ackDelivered
      invocation.ackNonempty invocation.ackRoom
  refine ⟨hb.response, output, post, ?_, ackSize.trans size, outputSize, isPost,
    answers⟩
  refine ((toPoll.trans (.of_step answered)).trans replied).trans
    (Reaches.of_step ?_)
  simp only [startLambdaStep, ended]

/-! ### Whole runs -/

/-- The process after some invocations: their POSTs were sent after those
already there, and the server has nothing more to deliver. -/
theorem rounds_reach (host : Bytes) (handler : σ → Option Bytes → Reply × σ)
    (invocations : List Invocation) {memory : Bytes} {process : Process σ}
    (room : incomingLambdaRequestBufferSize ≤ memory.length)
    (outputRoom : outgoingLambdaResponseBufferSize ≤ process.output.length)
    (pending : process.connections =
      invocations.flatMap Invocation.connections) :
    ∃ memory' process' posts,
      Reaches (startLambdaStep host handler) (.idle memory process)
        (.idle memory' process') ∧
      process'.connections = [] ∧ process'.posts = process.posts ++ posts ∧
      List.Forall₂ (fun post answered => Answers post answered.1 answered.2)
        posts (repliesOf handler process.handlerState invocations) := by
  induction invocations generalizing memory process with
  | nil => exact ⟨memory, process, [], .refl _, pending, by simp, .nil⟩
  | cons invocation rest ih =>
      rw [List.flatMap_cons] at pending
      obtain ⟨memory₁, output, post, head, size, outputSize, isPost, answers⟩ :=
        round_reaches host handler invocation room outputRoom pending
      obtain ⟨memory', process', posts, tail, drained, sent, allAnswer⟩ :=
        @ih memory₁ { output
                      connections := rest.flatMap Invocation.connections
                      handlerState := (handler process.handlerState
                        (some invocation.next.body)).2
                      sent := process.sent ++ [nextRequest host, post] }
          (by omega) (by simp only; omega) rfl
      refine ⟨memory', process', post :: posts, head.trans tail, drained, ?_,
        .cons answers allAnswer⟩
      rw [sent, Process.posts, Process.posts, List.filter_append,
        List.filter_cons_of_neg (by rw [nextRequest_isPost]; decide),
        List.filter_cons_of_pos isPost]
      simp

private theorem http_sent {recvBufSize : Nat} {memory : Bytes} {request : HttpRequest}
    {phase : HttpState → Process σ → LoopState σ} {process : Process σ}
    {after : LoopState σ}
    (keeps : ∀ state process, (phase state process).process = process)
    (stepped : http recvBufSize memory request phase process = .next after) :
    after.process.sent = process.sent ++ [request] := by
  rw [http] at stepped
  cases pending : process.connections with
  | nil =>
      rw [pending] at stepped
      cases stepped
  | cons chunks connections =>
      rw [pending] at stepped
      cases stepped
      rw [keeps]

private theorem handleRequest_sent {process process' : Process σ} {request : HttpRequest}
    (handled : handleRequest host handler hb process = .ok (request, process')) :
    process'.sent = process.sent := by
  cases found : hb.awsRequestId with
  | none =>
      rw [handleRequest, found] at handled
      cases handled
  | some awsRequestId =>
      rw [handleRequest, found] at handled
      simp only at handled
      rw [Outcome.bind_eq_ok_iff] at handled
      obtain ⟨output, -, handled⟩ := handled
      split at handled
      · rw [Outcome.bind_eq_ok_iff] at handled
        obtain ⟨reported, -, handled⟩ := handled
        cases handled
        rfl
      · rw [Outcome.bind_eq_ok_iff] at handled
        obtain ⟨responded, -, handled⟩ := handled
        cases handled
        rfl

private theorem startLambdaStep_sent {before after : LoopState σ}
    (stepped : startLambdaStep host handler before = .next after) :
    before.process.sent <+: after.process.sent := by
  cases before with
  | idle memory process =>
      rw [http_sent (fun _ _ => rfl) stepped]
      exact List.prefix_append _ _
  | polling state process =>
      rw [startLambdaStep] at stepped
      cases passed : httpStep incomingLambdaRequestBufferSize state with
      | next state' =>
          rw [passed] at stepped
          cases stepped
          exact List.prefix_rfl
      | halt outcome =>
          rw [passed] at stepped
          cases outcome with
          | ok hb =>
              simp only at stepped
              cases handled : handleRequest host handler hb process with
              | ok answered =>
                  rw [handled] at stepped
                  rw [http_sent (fun _ _ => rfl) stepped,
                    handleRequest_sent handled]
                  exact List.prefix_append _ _
              | exit status message =>
                  rw [handled] at stepped
                  cases stepped
              | fault =>
                  rw [handled] at stepped
                  cases stepped
          | exit status message => cases stepped
          | fault => cases stepped
  | replying state process =>
      rw [startLambdaStep] at stepped
      cases passed : httpStep maxHttpHeaderSize state with
      | next state' =>
          rw [passed] at stepped
          cases stepped
          exact List.prefix_rfl
      | halt outcome =>
          rw [passed] at stepped
          cases outcome with
          | ok hb =>
              cases stepped
              exact List.prefix_rfl
          | exit status message => cases stepped
          | fault => cases stepped

theorem Reaches.sent {before after : LoopState σ}
    (reached : Reaches (startLambdaStep host handler) before after) :
    before.process.sent <+: after.process.sent := by
  apply Reaches.invariant
    (fun middle _ _ grown stepped =>
      List.IsPrefix.trans grown (startLambdaStep_sent stepped))
    List.prefix_rfl reached

end Round

theorem mapalloc_length (pagesize size : Nat) :
    size ≤ (mapalloc pagesize size).length := by
  rw [mapalloc, List.length_replicate]
  have larger : size ≤ size ||| (pagesize - 1) := Nat.left_le_or
  omega

/-- Over any list of invocations the loop sends one POST for each, in order,
with the id and the reply of its invocation; in every state of the run the
POSTs sent so far are the first of these. -/
theorem reply_correlation {σ : Type} (host : Bytes) (pagesize : Nat)
    (handler : σ → Option Bytes → Reply × σ) (handlerState : σ)
    (invocations : List Invocation) :
    let first := startLambda pagesize handlerState
      (invocations.flatMap Invocation.connections)
    ∃ posts,
      List.Forall₂ (fun post answered => Answers post answered.1 answered.2)
        posts (repliesOf handler handlerState invocations) ∧
      (∀ state, Reaches (startLambdaStep host handler) first state →
        state.process.posts <+: posts) ∧
      ∃ process, Halts (startLambdaStep host handler) first (.ok process) ∧
        process.posts = posts := by
  intro first
  obtain ⟨memory, process, posts, toLast, drained, sent, allAnswer⟩ :=
    rounds_reach host handler invocations
      (mapalloc_length pagesize incomingLambdaRequestBufferSize)
      (show outgoingLambdaResponseBufferSize ≤
        first.process.output.length from mapalloc_length pagesize _)
      rfl
  have sent : process.posts = posts := sent
  let blocked : Process σ :=
    { process with sent := process.sent ++ [nextRequest host] }
  have blocks : startLambdaStep host handler (.idle memory process) =
      .halt (.ok blocked) := by
    simp only [startLambdaStep, http, drained, blocked]
  refine ⟨posts, allAnswer, ?_, blocked, .of_reaches toLast (.of_step blocks), ?_⟩
  · intro state reached
    rw [← sent]
    exact (Reaches.sent (reached.to_last toLast blocks)).filter _
  · rw [← sent, Process.posts, Process.posts, List.filter_append,
      List.filter_cons_of_neg (by rw [nextRequest_isPost]; decide),
      List.filter_nil, List.append_nil]

private theorem ping_digits : asciiBytes "2" ≠ [] ∧
    (∀ c ∈ asciiBytes "2", isDigit c) ∧ numberOf (asciiBytes "2") < 2 ^ 31 := by
  decide +kernel

private theorem ping_length : 2 = numberOf (asciiBytes "2") := by
  decide +kernel

private theorem accepted_version :
    asciiBytes "HTTP/" <+: asciiBytes "HTTP/1.1 202 Accepted" := by
  decide +kernel

private theorem accepted_noColon : colonChar ∉ asciiBytes "HTTP/1.1 202 Accepted" := by
  decide +kernel

private theorem accepted_noLineFeed :
    lineFeed ∉ asciiBytes "HTTP/1.1 202 Accepted" := by
  decide +kernel

private theorem accepted_notShutdown :
    ¬shutdownStatus <+: asciiBytes "HTTP/1.1 202 Accepted" := by
  decide +kernel

/-- An acknowledgement without a request id, in one chunk, of a poll whose
headers and body come apart. -/
def pingInvocation : Invocation where
  next := acknowledgement 2 (asciiBytes "2") ping_digits ping_length
  nextChunks :=
    let text := (acknowledgement 2 (asciiBytes "2") ping_digits ping_length).text
    [text.take 150, text.drop 150]
  nextDelivered := by
    rw [List.flatten_cons, List.flatten_cons, List.flatten_nil,
      List.append_nil, List.take_append_drop]
  nextNonempty := by decide +kernel
  nextRoom := by decide +kernel
  idNonempty := by decide +kernel
  idShort := by decide +kernel
  idNoNul := by decide +kernel
  acknowledgement :=
    { statusLine := asciiBytes "HTTP/1.1 202 Accepted"
      headers := [.contentLength (asciiBytes "0")]
      body := []
      lengthDigits := asciiBytes "0"
      version := accepted_version
      statusNoColon := accepted_noColon
      statusNoLineFeed := accepted_noLineFeed
      notShutdown := accepted_notShutdown
      headersWellFormed := by
        intro line member
        obtain rfl := List.mem_singleton.mp member
        exact ⟨by decide +kernel, by decide +kernel, by decide +kernel⟩
      oneLength := rfl
      bodyLength := by decide +kernel }
  ackChunks := [asciiBytes "HTTP/1.1 202 Accepted\r\nContent-Length: 0\r\n\r\n"]
  ackDelivered := by decide +kernel
  ackNonempty := by decide +kernel
  ackRoom := by decide +kernel

def pongId : Bytes := asciiBytes "5f1e6d1c-0a4b-4b3e-9d3c-2b8f0c7a9e11"

private theorem pong_requestId : (HeaderLine.requestId pongId).WellFormed :=
  ⟨by decide +kernel, by decide +kernel, by decide +kernel⟩

private theorem zero_digits : (HeaderLine.contentLength (asciiBytes "0")).WellFormed :=
  ⟨by decide +kernel, by decide +kernel, by decide +kernel⟩

private theorem wellFormed_pair {first second : HeaderLine} (ofFirst : first.WellFormed)
    (ofSecond : second.WellFormed) : ∀ line ∈ [first, second], line.WellFormed := by
  intro line member
  simp only [List.mem_cons, List.not_mem_nil, or_false] at member
  obtain rfl | rfl := member
  · exact ofFirst
  · exact ofSecond

/-- Another invocation, whose acknowledgement carries its id. -/
def pongInvocation : Invocation where
  next :=
    { pingInvocation.next with
      headers := [.contentLength (asciiBytes "2"), .requestId pongId]
      requestId := pongId
      headersWellFormed := wellFormed_pair ping_digits pong_requestId
      oneLength := rfl
      oneRequestId := rfl }
  nextChunks :=
    [asciiBytes "HTTP/1.1 202 Accepted\r\nContent-Length: 2\r\nLambda-Runtime-",
      asciiBytes ("Aws-Request-Id: 5f1e6d1c-0a4b-4b3e-9d3c-2b8f0c7a9e11\r\n\r\n  ")]
  nextDelivered := by decide +kernel
  nextNonempty := by decide +kernel
  nextRoom := by decide +kernel
  idNonempty := by decide +kernel
  idShort := by decide +kernel
  idNoNul := by decide +kernel
  acknowledgement :=
    { pingInvocation.acknowledgement with
      headers := [.contentLength (asciiBytes "0"), .requestId pongId]
      headersWellFormed := wellFormed_pair zero_digits pong_requestId
      oneLength := rfl }
  ackChunks :=
    [asciiBytes "HTTP/1.1 202 Accepted\r\nContent-Length: 0\r\n",
      asciiBytes ("Lambda-Runtime-Aws-Request-Id: " ++
        "5f1e6d1c-0a4b-4b3e-9d3c-2b8f0c7a9e11\r\n\r\n")]
  ackDelivered := by decide +kernel
  ackNonempty := by decide +kernel
  ackRoom := by decide +kernel

def everySecond (failed : Bool) (_ : Option Bytes) : Reply × Bool :=
  (if failed then ⟨2, asciiBytes "ok", by decide +kernel, by decide +kernel⟩
    else ⟨-1, [], by decide +kernel, by decide +kernel⟩, !failed)

theorem reply_correlation_example :
    let first := startLambda 4096 false
      ([pingInvocation, pongInvocation].flatMap Invocation.connections)
    ∃ posts,
      List.Forall₂ (fun post answered => Answers post answered.1 answered.2)
        posts (repliesOf everySecond false [pingInvocation, pongInvocation]) ∧
      (∀ state, Reaches (startLambdaStep (asciiBytes "127.0.0.1:9001")
        everySecond) first state → state.process.posts <+: posts) ∧
      ∃ process, Halts (startLambdaStep (asciiBytes "127.0.0.1:9001")
        everySecond) first (.ok process) ∧ process.posts = posts :=
  reply_correlation (asciiBytes "127.0.0.1:9001") 4096 everySecond false
    [pingInvocation, pongInvocation]

end Lambpie.Runtime

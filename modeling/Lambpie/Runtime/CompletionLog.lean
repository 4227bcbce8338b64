/-
The id in the completion log line.

`send_response` reads `hb->awsRequestId` again after its POST, for the line
that it logs.  The call in between has reset the slice and overwritten the
bytes it pointed at, so what the line shows is the last id that was read from
the acknowledgement before the call ended, if there was one.
-/
import Lambpie.Runtime.HttpCutoff

namespace Lambpie.Runtime

open Foundations

section Buffer

variable {recvBufSize : Nat}

private theorem storeAt_length {memory bytes after : Bytes} {pos : Nat}
    (stored : storeAt memory pos bytes = .ok after) :
    after.length = memory.length := by
  obtain ⟨room, rfl⟩ := (storeAt_eq_ok_iff _ _ _ _).mp stored
  simp only [List.length_append, List.length_take, List.length_drop]
  omega

private theorem receive_length {state received : HttpState}
    (arrived : receive state = .ok received) :
    received.response.length = state.response.length := by
  obtain ⟨-, response, stored, rfl⟩ := (receive_eq_ok_iff _ _).mp arrived
  exact storeAt_length stored

private theorem parseStep_length {state after : HttpState}
    (parsed : parseStep state = .ok after) :
    after.response.length = state.response.length := by
  rcases (parseStep_eq_ok_iff _ _).mp parsed with ⟨_, -, rfl⟩ | ⟨-, -, rfl⟩
  · rfl
  · rfl

private theorem httpStep_length {state after : HttpState}
    (stepped : httpStep recvBufSize state = .next after) :
    after.response.length = state.response.length := by
  obtain ⟨-, -, pass⟩ := (httpStep_eq_next_iff _ _ _).mp stepped
  cases pass with
  | parsed _ step => exact parseStep_length step
  | fetched _ arrived _ step =>
      exact (parseStep_length step).trans (receive_length arrived)
  | body _ arrived _ =>
      have stored := receive_length arrived
      exact stored

private theorem httpStep_halt_length {state : HttpState} {hb : HttpResult}
    (returned : httpStep recvBufSize state = .halt (.ok hb)) :
    hb.response.length = state.response.length := by
  obtain ⟨-, finished⟩ := httpStep_halt_ok returned
  unfold finish at finished
  obtain ⟨response, stored, built⟩ := (Outcome.bind_eq_ok_iff _ _ _).mp finished
  cases built
  exact storeAt_length stored

end Buffer

section Runs

variable {σ : Type} {host : Bytes} {handler : σ → Option Bytes → Reply × σ}

def LoopState.memory : LoopState σ → Bytes
  | .idle memory _ => memory
  | .polling http _ => http.response
  | .replying http _ => http.response

private theorem http_next {recvBufSize : Nat} {memory : Bytes} {request : HttpRequest}
    {phase : HttpState → Process σ → LoopState σ} {process : Process σ}
    {after : LoopState σ}
    (called : http recvBufSize memory request phase process = .next after) :
    ∃ chunks posted,
      after = phase (.start memory recvBufSize chunks) posted := by
  rw [http] at called
  cases pending : process.connections with
  | nil =>
      rw [pending] at called
      cases called
  | cons chunks connections =>
      rw [pending] at called
      cases called
      exact ⟨chunks, _, rfl⟩

/-- A poll that goes on to an answer has returned, and the answer's call
starts in the memory that the poll left. -/
theorem startLambdaStep_polling {polling : HttpState} {process : Process σ}
    {after : LoopState σ}
    (stepped : startLambdaStep host handler (.polling polling process) =
      .next after) :
    (∃ polling', httpStep incomingLambdaRequestBufferSize polling =
        .next polling' ∧ after = .polling polling' process) ∨
      ∃ polled chunks posted,
        httpStep incomingLambdaRequestBufferSize polling = .halt (.ok polled) ∧
        after = .replying (.start polled.response maxHttpHeaderSize chunks)
          posted := by
  rw [startLambdaStep] at stepped
  cases passed : httpStep incomingLambdaRequestBufferSize polling with
  | next polling' =>
      rw [passed] at stepped
      cases stepped
      exact .inl ⟨polling', rfl, rfl⟩
  | halt outcome =>
      rw [passed] at stepped
      cases outcome with
      | exit status message => cases stepped
      | fault => cases stepped
      | ok polled =>
          simp only at stepped
          cases handled : handleRequest host handler polled process with
          | exit status message =>
              rw [handled] at stepped
              cases stepped
          | fault =>
              rw [handled] at stepped
              cases stepped
          | ok answered =>
              rw [handled] at stepped
              obtain ⟨chunks, posted, rfl⟩ := http_next stepped
              exact .inr ⟨polled, chunks, posted, rfl, rfl⟩

private theorem startLambdaStep_memory {before after : LoopState σ}
    (stepped : startLambdaStep host handler before = .next after) :
    after.memory.length = before.memory.length := by
  cases before with
  | idle memory process =>
      obtain ⟨chunks, posted, rfl⟩ := http_next stepped
      rfl
  | polling polling process =>
      rcases startLambdaStep_polling stepped with
        ⟨polling', passed, rfl⟩ | ⟨polled, chunks, posted, returned, rfl⟩
      · exact httpStep_length passed
      · exact httpStep_halt_length returned
  | replying replying process =>
      rw [startLambdaStep] at stepped
      cases passed : httpStep maxHttpHeaderSize replying with
      | next replying' =>
          rw [passed] at stepped
          cases stepped
          exact httpStep_length passed
      | halt outcome =>
          rw [passed] at stepped
          cases outcome with
          | ok hb =>
              cases stepped
              exact httpStep_halt_length passed
          | exit status message => cases stepped
          | fault => cases stepped

private theorem Reaches.memory_room {pagesize : Nat} {handlerState : σ}
    {connections : List (List Bytes)} {state : LoopState σ}
    (reached : Reaches (startLambdaStep host handler)
      (startLambda pagesize handlerState connections) state) :
    incomingLambdaRequestBufferSize ≤ state.memory.length := by
  apply reached.invariant
  · intro before after _ room stepped
    rw [startLambdaStep_memory stepped]
    exact room
  · exact mapalloc_length pagesize incomingLambdaRequestBufferSize

end Runs

/-- In every run of `start_lambda`, whatever the server has sent before: when
the POST that answers a poll returns, the slice that the log line reads
identifies the invocation just answered exactly when the last request id in the
lines of the acknowledgement that were read is the id of that invocation.  It
does return for an acknowledgement shorter than the buffer. -/
theorem completion_log_iff {σ : Type} (host : Bytes) (pagesize : Nat)
    (handler : σ → Option Bytes → Reply × σ) (handlerState : σ)
    (connections : List (List Bytes)) {polling replying : HttpState}
    {process posted : Process σ} {acknowledgement : HttpMessage}
    (reached : Reaches (startLambdaStep host handler)
      (startLambda pagesize handlerState connections) (.polling polling process))
    (answered : startLambdaStep host handler (.polling polling process) =
      .next (.replying replying posted))
    (delivered : replying.chunks.flatten = acknowledgement.text) :
    ∃ polled,
      httpStep incomingLambdaRequestBufferSize polling = .halt (.ok polled) ∧
      ((∀ chunk ∈ replying.chunks, chunk ≠ []) →
        acknowledgement.text.length < maxHttpHeaderSize →
          ∃ last hb, Reaches (httpStep maxHttpHeaderSize) replying last ∧
            httpStep maxHttpHeaderSize last = .halt (.ok hb)) ∧
      ∀ last hb, Reaches (httpStep maxHttpHeaderSize) replying last →
        httpStep maxHttpHeaderSize last = .halt (.ok hb) →
          Reaches (startLambdaStep host handler) (.replying replying posted)
            (.replying last posted) ∧
          ∀ requestId, polled.Identifies requestId →
            (hb.Identifies requestId ↔
              acknowledgement.requestIdWithin
                (bytesBeforeFull maxHttpHeaderSize replying.chunks + 1) =
                  some requestId) := by
  have memory := Reaches.memory_room reached
  rcases startLambdaStep_polling answered with
    ⟨_, -, other⟩ | ⟨polled, chunks, _, returned, started⟩
  · cases other
  · cases started
    have capacity : maxHttpHeaderSize ≤ polled.response.length := by
      rw [httpStep_halt_length returned]
      exact le_trans (by decide) memory
    refine ⟨polled, returned, ?_, ?_⟩
    · intro nonempty room
      have connection : Connection maxHttpHeaderSize polled.response.length chunks :=
        { intRange := by decide, capacity, nonempty
          fits := by
            rw [show chunks.flatten = acknowledgement.text from delivered]
            exact le_of_lt room }
      obtain ⟨last, hb, replied, ended, -⟩ :=
        HttpMessage.returned connection delivered room
      exact ⟨last, hb, replied, ended⟩
    · intro last hb replied ended
      refine ⟨Reaches.replying replied, fun requestId _ => ?_⟩
      exact identifies_iff_within delivered (by decide) (by decide) replied ended requestId

private theorem first_answered (invocation : Invocation) :
    ∃ polling polled process posted,
      Reaches (startLambdaStep (asciiBytes "127.0.0.1:9001") everySecond)
        (startLambda 4096 true invocation.connections) (.polling polling process) ∧
      httpStep incomingLambdaRequestBufferSize polling = .halt (.ok polled) ∧
      polled.Identifies invocation.next.requestId ∧
      startLambdaStep (asciiBytes "127.0.0.1:9001") everySecond
          (.polling polling process) =
        .next (.replying (.start polled.response maxHttpHeaderSize
          invocation.ackChunks) posted) := by
  let first : Process Bool :=
    { output := mapalloc 4096 outgoingLambdaResponseBufferSize
      handlerState := true
      sent := []
      connections := invocation.connections }
  have room := mapalloc_length 4096 outgoingLambdaResponseBufferSize
  obtain ⟨polling, polled, process, output, post, reached, returned, -,
    identified, answered, -⟩ :=
      @poll_answered Bool (asciiBytes "127.0.0.1:9001") everySecond
        invocation _ first [] (mapalloc_length 4096 _) room
        (List.append_nil _).symm
  exact ⟨polling, polled, process, _, reached, returned, identified, answered⟩

/-- An acknowledgement that carries the id, in two chunks. -/
theorem completion_log_iff_example :
    ∃ (polled hb : HttpResult) (last : HttpState) (posted : Process Bool),
      polled.Identifies pongInvocation.next.requestId ∧
      Reaches (startLambdaStep (asciiBytes "127.0.0.1:9001") everySecond)
        (startLambda 4096 true pongInvocation.connections)
        (.replying last posted) ∧
      httpStep maxHttpHeaderSize last = .halt (.ok hb) ∧
      hb.Identifies pongInvocation.next.requestId := by
  obtain ⟨polling, _, process, posted, reached, returned, identified, answered⟩ :=
    first_answered pongInvocation
  obtain ⟨polled, same, returns, identifies⟩ :=
    completion_log_iff (asciiBytes "127.0.0.1:9001") 4096 everySecond true
      pongInvocation.connections reached answered pongInvocation.ackDelivered
  rw [returned] at same
  cases same
  obtain ⟨last, hb, replied, ended⟩ :=
    returns pongInvocation.ackNonempty pongInvocation.ackRoom
  obtain ⟨replies, logged⟩ := identifies last hb replied ended
  have carried : pongInvocation.acknowledgement.requestIdWithin
      (bytesBeforeFull maxHttpHeaderSize pongInvocation.ackChunks + 1) =
        some pongInvocation.next.requestId := by
    decide +kernel
  exact ⟨_, hb, last, posted, identified,
    (reached.trans (.of_step answered)).trans replies, ended,
    (logged _ identified).mpr carried⟩

/-- After an acknowledgement without a request id the log line reads through a
NULL pointer. -/
theorem completion_log_lost :
    ∃ polling polled process last hb, ∃ posted : Process Bool,
      Reaches (startLambdaStep (asciiBytes "127.0.0.1:9001") everySecond)
        (startLambda 4096 true pingInvocation.connections)
        (.polling polling process) ∧
      httpStep incomingLambdaRequestBufferSize polling = .halt (.ok polled) ∧
      polled.Identifies pingInvocation.next.requestId ∧
      Reaches (startLambdaStep (asciiBytes "127.0.0.1:9001") everySecond)
        (.polling polling process) (.replying last posted) ∧
      httpStep maxHttpHeaderSize last = .halt (.ok hb) ∧
      ¬hb.Identifies pingInvocation.next.requestId := by
  obtain ⟨polling, polled, process, posted, reached, returned, identified,
    answered⟩ := first_answered pingInvocation
  have memory := Reaches.memory_room reached
  have capacity : maxHttpHeaderSize ≤ polled.response.length := by
    rw [httpStep_halt_length returned]
    exact le_trans (by decide) memory
  obtain ⟨last, hb, replied, ended, -, identifies⟩ :=
    acknowledged (asciiBytes "127.0.0.1:9001") everySecond posted capacity
      pingInvocation.ackDelivered pingInvocation.ackNonempty
      pingInvocation.ackRoom
  have without : pingInvocation.acknowledgement.lastRequestId = none := rfl
  refine ⟨polling, polled, process, last, hb, posted, reached, returned,
    identified, Reaches.trans (.of_step answered) replied, ended, ?_⟩
  intro still
  rw [identifies, without] at still
  cases still

end Lambpie.Runtime

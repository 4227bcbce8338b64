/-
What a return of the HTTP helper means.

The loop ends when `remain` is zero.  After the blank line that is the end of
the body, but while headers are read it is the end of the buffer, and then the
caller gets a buffer without a body.  A body that reaches past the buffer ends
in `FATAL` only if the buffer is full before the body is complete.  Both are
decided by single receives, so the condition is on the passes of the run.
-/
import Lambpie.Runtime.HttpBuffer

namespace Lambpie.Runtime

open Foundations

/-! ### The blank line -/

/-- The bytes before the position end the header block: a line feed, then an
empty line. -/
structure BlankLineEnds (bytes : Bytes) (pos : Nat) : Prop where
  late : 4 ≤ pos
  lineEnd : bytes[pos - 3]? = some lineFeed
  return_ : bytes[pos - 2]? = some carriageReturn
  feed : bytes[pos - 1]? = some lineFeed

theorem charAt_eq_ok_iff (memory : Bytes) (pos : Nat) (c : UInt8) :
    charAt memory pos = .ok c ↔ memory[pos]? = some c := by
  unfold charAt
  cases memory[pos]? with
  | some found => simp
  | none => simp

theorem parseByte_eq_ok {response : Bytes} {total pos : Nat}
    {parser : HeaderParser} {result : Option HeaderParser}
    (parsed : parseByte response total pos parser = .ok result) :
    result = none ↔ BlankLineEnds response (pos + 1) := by
  unfold parseByte at parsed
  obtain ⟨c, here, parsed⟩ := (Outcome.bind_eq_ok_iff _ _ _).mp parsed
  rw [charAt_eq_ok_iff] at here
  have notBlank (other : c ≠ lineFeed) : ¬BlankLineEnds response (pos + 1) := by
    intro blank
    have feed := blank.feed
    rw [Nat.add_sub_cancel, here] at feed
    exact other (Option.some.inj feed)
  by_cases colon : c = colonChar
  · rw [if_pos colon] at parsed
    cases parsed
    have other : c ≠ lineFeed := by
      rw [colon]
      decide
    simp [notBlank other]
  · rw [if_neg colon] at parsed
    by_cases feed : c = lineFeed
    · rw [if_pos feed] at parsed
      by_cases early : pos < 3
      · rw [if_pos early] at parsed
        cases parsed
      · rw [if_neg early] at parsed
        obtain ⟨previous, before, parsed⟩ :=
          (Outcome.bind_eq_ok_iff _ _ _).mp parsed
        by_cases malformed : previous ≠ carriageReturn
        · rw [if_pos malformed] at parsed
          cases parsed
        · rw [if_neg malformed] at parsed
          obtain ⟨beforeIt, second, parsed⟩ :=
            (Outcome.bind_eq_ok_iff _ _ _).mp parsed
          rw [charAt_eq_ok_iff] at before second
          by_cases blank : beforeIt = lineFeed
          · rw [if_pos blank] at parsed
            cases parsed
            have ends : BlankLineEnds response (pos + 1) :=
              { late := by omega
                lineEnd := by rw [Nat.add_sub_add_right pos 1 2, second, blank]
                return_ := by
                  rw [Nat.add_sub_add_right pos 1 1, before,
                    not_not.mp malformed]
                feed := by rw [Nat.add_sub_cancel, here, feed] }
            simp [ends]
          · rw [if_neg blank] at parsed
            obtain ⟨line, -, parsed⟩ :=
              (Outcome.bind_eq_ok_iff _ _ _).mp parsed
            cases parsed
            have open_ : ¬BlankLineEnds response (pos + 1) := by
              intro ends
              have lineEnd := ends.lineEnd
              rw [Nat.add_sub_add_right pos 1 2, second] at lineEnd
              exact blank (Option.some.inj lineEnd)
            simp [open_]
    · rw [if_neg feed] at parsed
      cases parsed
      simp [notBlank feed]

theorem BlankLineEnds.congr {left right : Bytes} {length pos : Nat}
    (agree : left.take length = right.take length) (within : pos ≤ length)
    (ends : BlankLineEnds left pos) : BlankLineEnds right pos := by
  have late := ends.late
  have same (index : Nat) (inside : index < length) :
      right[index]? = left[index]? := by
    rw [← List.getElem?_take_of_lt inside, ← agree,
      List.getElem?_take_of_lt inside]
  refine { late := late, lineEnd := ?_, return_ := ?_, feed := ?_ }
  · rw [same _ (by omega)]
    exact ends.lineEnd
  · rw [same _ (by omega)]
    exact ends.return_
  · rw [same _ (by omega)]
    exact ends.feed

/-- The header block of the stream ends at the position, and not before. -/
def HeadersEnd (stream : Bytes) (pos : Nat) : Prop :=
  BlankLineEnds stream pos ∧ ∀ earlier < pos, ¬BlankLineEnds stream earlier

/-! ### What every state of the loop knows -/

/-- The bytes received are where the stream says, and the position reached in
it is the parser's or, after the blank line, the end of what is received. -/
structure Tracks (recvBufSize : Nat) (stream : Bytes) (state : HttpState) :
    Prop where
  stored : state.totalBytesReceived ≤ state.response.length
  split : state.response.take state.totalBytesReceived ++
    state.chunks.flatten = stream
  headers : state.bodyStart = none →
    state.parsePoint ≤ state.totalBytesReceived ∧
      state.totalBytesReceived ≤ recvBufSize ∧
      state.remain = (recvBufSize : Int) - state.totalBytesReceived ∧
      ∀ pos ≤ state.parsePoint, ¬BlankLineEnds stream pos
  body : ∀ start, state.bodyStart = some start →
    state.parsePoint = state.totalBytesReceived ∧
      start ≤ state.totalBytesReceived ∧
      state.remain = state.parser.contentLength
        - ((state.totalBytesReceived : Int) - start) ∧
      0 ≤ state.parser.contentLength ∧ HeadersEnd stream start

theorem Tracks.start (recvBufSize : Nat) (response : Bytes)
    (chunks : List Bytes) :
    Tracks recvBufSize chunks.flatten (.start response recvBufSize chunks) where
  stored := Nat.zero_le _
  split := rfl
  headers := by
    intro _
    refine ⟨Nat.le_refl 0, Nat.zero_le _, by simp [HttpState.start], ?_⟩
    intro pos early ends
    have late := ends.late
    have zero : pos = 0 := Nat.le_zero.mp early
    omega
  body := by
    intro start phase
    cases phase

theorem Tracks.take_eq {recvBufSize : Nat} {stream : Bytes} {state : HttpState}
    (tracks : Tracks recvBufSize stream state) :
    state.response.take state.totalBytesReceived =
      stream.take state.totalBytesReceived := by
  rw [← tracks.split, List.take_left']
  exact List.length_take_of_le tracks.stored

private theorem receive_stored {state received : HttpState}
    (arrived : receive state = .ok received) :
    received.totalBytesReceived ≤ received.response.length ∧
      received.response.take received.totalBytesReceived ++
          received.chunks.flatten =
        state.response.take state.totalBytesReceived ++
          state.chunks.flatten := by
  obtain ⟨-, response, stored, rfl⟩ := (receive_eq_ok_iff _ _).mp arrived
  obtain ⟨room, rfl⟩ := (storeAt_eq_ok_iff _ _ _ _).mp stored
  have front : (state.response.take state.totalBytesReceived ++
      state.delivered).length =
        state.totalBytesReceived + state.delivered.length := by
    rw [List.length_append, List.length_take_of_le (by omega)]
  constructor
  · simp only [HttpState.withReceived, List.length_append] at front ⊢
    omega
  · simp only [HttpState.withReceived]
    rw [List.take_left' front, List.append_assoc]
    exact congrArg _ (recv_flatten _ _)

theorem Tracks.receive {recvBufSize : Nat} {stream : Bytes}
    {state received : HttpState} (tracks : Tracks recvBufSize stream state)
    (headers : state.bodyStart = none)
    (arrived : receive state = .ok received) :
    Tracks recvBufSize stream received := by
  obtain ⟨stored, split⟩ := receive_stored arrived
  obtain ⟨-, total, remain, samePhase, samePoint, -⟩ := receive_eq_ok arrived
  obtain ⟨point, bounded, free, noBlank⟩ := tracks.headers headers
  have asked := delivered_length_le state
  have small : (requestedSize state.remain : Int) ≤ state.remain :=
    requestedSize_le (by omega)
  refine { stored := stored, split := split.trans tracks.split
           headers := ?_, body := ?_ }
  · intro _
    refine ⟨by omega, by omega, by omega, ?_⟩
    rw [samePoint]
    exact noBlank
  · intro start phase
    rw [samePhase, headers] at phase
    cases phase

/-- A parsed byte either leaves the headers open or ends them at the first
blank line of the stream. -/
theorem Tracks.parseStep {recvBufSize : Nat} {stream : Bytes}
    {state after : HttpState} (tracks : Tracks recvBufSize stream state)
    (headers : state.bodyStart = none)
    (pending : state.parsePoint < state.totalBytesReceived)
    (step : parseStep state = .ok after) : Tracks recvBufSize stream after := by
  obtain ⟨point, bounded, free, noBlank⟩ := tracks.headers headers
  rcases (parseStep_eq_ok_iff _ _).mp step with
    ⟨parser, byte, rfl⟩ | ⟨byte, present, rfl⟩
  · refine { stored := tracks.stored, split := tracks.split
             headers := ?_, body := ?_ }
    · intro _
      refine ⟨pending, bounded, free, ?_⟩
      intro pos early ends
      rcases Nat.lt_or_eq_of_le early with before | here
      · exact noBlank pos (Nat.le_of_lt_succ before) ends
      · subst here
        have inMemory := ends.congr tracks.take_eq.symm pending
        cases (parseByte_eq_ok byte).mpr inMemory
    · intro start phase
      exact absurd (headers.symm.trans phase) (by simp)
  · refine { stored := tracks.stored, split := tracks.split
             headers := ?_, body := ?_ }
    · intro phase
      cases phase
    · intro start phase
      cases phase
      refine ⟨rfl, pending, rfl, present, ?_, ?_⟩
      · have inMemory := (parseByte_eq_ok byte).mp rfl
        exact inMemory.congr tracks.take_eq pending
      · intro earlier before
        exact noBlank earlier (Nat.le_of_lt_succ before)

theorem Tracks.headers_of_pending {recvBufSize : Nat} {stream : Bytes}
    {state : HttpState} (tracks : Tracks recvBufSize stream state)
    (pending : state.parsePoint < state.totalBytesReceived) :
    state.bodyStart = none := by
  by_contra started
  obtain ⟨start, phase⟩ := Option.ne_none_iff_exists'.mp started
  have point := (tracks.body start phase).1
  omega

theorem Tracks.pass {recvBufSize : Nat} {stream : Bytes}
    {state after : HttpState} (tracks : Tracks recvBufSize stream state)
    (pass : Pass state after) : Tracks recvBufSize stream after := by
  cases pass with
  | parsed pending step =>
      exact tracks.parseStep (tracks.headers_of_pending pending) pending step
  | fetched exhausted arrived headers step =>
      obtain ⟨some_, total, -, samePhase, samePoint, -⟩ := receive_eq_ok arrived
      have point := (tracks.headers headers).1
      exact (tracks.receive headers arrived).parseStep
        (samePhase.trans headers) (by omega) step
  | @body received exhausted arrived started =>
      obtain ⟨stored, split⟩ := receive_stored arrived
      obtain ⟨-, total, remain, samePhase, samePoint, sameParser⟩ :=
        receive_eq_ok arrived
      refine { stored := stored, split := split.trans tracks.split
               headers := ?_, body := ?_ }
      · intro phase
        exact absurd (samePhase.symm.trans phase) started
      · intro start phase
        obtain ⟨point, before, missing, present, ends⟩ :=
          tracks.body start (samePhase.symm.trans phase)
        simp only [HttpState.pastBody, sameParser]
        refine ⟨by omega, by omega, by omega, present, ends⟩

theorem tracks_of_reaches {recvBufSize : Nat} {response : Bytes}
    {chunks : List Bytes} {state : HttpState}
    (reached : Reaches (httpStep recvBufSize)
      (.start response recvBufSize chunks) state) :
    Tracks recvBufSize chunks.flatten state := by
  apply reached.invariant
  · intro before after _ tracks stepped
    have passed := ((httpStep_eq_next_iff _ _ _).mp stepped).2.2
    exact tracks.pass passed
  · exact .start recvBufSize response chunks

/-! ### How a run ends -/

theorem httpStep_halt_ok {recvBufSize : Nat} {state : HttpState}
    {result : HttpResult}
    (halted : httpStep recvBufSize state = .halt (.ok result)) :
    state.remain = 0 ∧ finish state = .ok result := by
  unfold httpStep at halted
  by_cases finished : state.remain = 0
  · rw [if_pos finished] at halted
    exact ⟨finished, Progress.halt.inj halted⟩
  · rw [if_neg finished] at halted
    cases body : loopBody recvBufSize state with
    | ok next =>
        rw [body] at halted
        cases halted
    | exit status message =>
        rw [body] at halted
        cases halted
    | fault =>
        rw [body] at halted
        cases halted

private theorem httpStep_finished (recvBufSize : Nat) {state : HttpState}
    (finished : state.remain = 0) :
    httpStep recvBufSize state = .halt (finish state) := by
  rw [httpStep, if_pos finished]

private theorem httpStep_overflow {recvBufSize : Nat} {state : HttpState}
    (running : state.remain ≠ 0) (full : recvBufSize ≤ state.parsePoint) :
    httpStep recvBufSize state =
      .halt (fatal "HTTP response buffer overflow") := by
  rw [httpStep, if_neg running, loopBody, if_pos full]
  rfl

private theorem httpStep_closed {recvBufSize : Nat} {state : HttpState}
    (receives : state.Receives recvBufSize) (closed : state.delivered.length = 0) :
    httpStep recvBufSize state = .halt (fatal
      "recv() returned 0 or error — connection closed by Lambda Runtime API") := by
  obtain ⟨running, inside, exhausted⟩ := receives
  unfold HttpState.delivered at closed
  rw [httpStep, if_neg running, loopBody, if_neg (Nat.not_le.mpr inside),
    if_pos exhausted]
  simp only [receive, if_pos closed]
  rfl

private theorem httpStep_fault {recvBufSize : Nat} {state : HttpState}
    (receives : state.Receives recvBufSize) (some_ : 0 < state.delivered.length)
    (beyond : state.response.length <
      state.totalBytesReceived + state.delivered.length) :
    httpStep recvBufSize state = .halt .fault := by
  obtain ⟨running, inside, exhausted⟩ := receives
  unfold HttpState.delivered at some_ beyond
  rw [httpStep, if_neg running, loopBody, if_neg (Nat.not_le.mpr inside),
    if_pos exhausted]
  simp only [receive, if_neg (Nat.ne_of_gt some_), storeAt,
    if_neg (Nat.not_le.mpr beyond), Outcome.fault_bind]

private theorem finish_ne_fatal (state : HttpState) (message : String) :
    finish state ≠ fatal message := by
  intro same
  by_cases room : state.totalBytesReceived + [(0 : UInt8)].length ≤
      state.response.length
  · rw [finish, storeAt, if_pos room] at same
    cases same
  · rw [finish, storeAt, if_neg room] at same
    cases same

private theorem receive_of_room {state : HttpState} (some_ : 0 < state.delivered.length)
    (room : state.totalBytesReceived + state.delivered.length ≤
      state.response.length) :
    ∃ response, receive state = .ok (state.withReceived response) := by
  have stored := (storeAt_eq_ok_iff state.response state.totalBytesReceived
    state.delivered _).mpr ⟨room, rfl⟩
  exact ⟨_, (receive_eq_ok_iff _ _).mpr ⟨some_, _, stored, rfl⟩⟩

private theorem undelivered_length (state : HttpState) :
    state.delivered.length + state.undelivered.flatten.length =
      state.chunks.flatten.length := by
  rw [← List.length_append]
  exact congrArg List.length (recv_flatten _ _)

/-! ### Complete responses -/

/-- The response of a stream is returned whole: its body is the slice after
the blank line, as long as announced, up to the last byte received. -/
structure IsComplete (stream : Bytes) (contentLength : Int)
    (result : HttpResult) (body : Slice) : Prop where
  data : result.body = some body
  received : result.response.take result.bufferLen =
    stream.take result.bufferLen
  within : result.bufferLen ≤ stream.length
  headers : HeadersEnd stream body.start
  length : (body.len : Int) = contentLength
  ends : body.start + body.len = result.bufferLen

/-- The buffer is full before the headers end, or the announced body ends
after the buffer. -/
def HttpState.DoesNotFit (recvBufSize : Nat) (state : HttpState) : Prop :=
  (state.bodyStart = none ∧ recvBufSize ≤ state.totalBytesReceived) ∨
    ∃ start, state.bodyStart = some start ∧
      (recvBufSize : Int) < start + state.parser.contentLength

/-- A call that returns has the whole response, and one whose response does
not fit in the buffer ends in `FATAL`. -/
structure ReturnsComplete (recvBufSize : Nat) (response : Bytes)
    (chunks : List Bytes) : Prop where
  complete : ∀ last result,
    Reaches (httpStep recvBufSize) (.start response recvBufSize chunks) last →
      httpStep recvBufSize last = .halt (.ok result) →
        ∃ body,
          IsComplete chunks.flatten last.parser.contentLength result body
  overflow : ∀ state,
    Reaches (httpStep recvBufSize) (.start response recvBufSize chunks) state →
      state.DoesNotFit recvBufSize →
        ∃ message, Halts (httpStep recvBufSize)
          (.start response recvBufSize chunks) (fatal message)

/-- The next byte is parsed and does not end the headers. -/
def HttpState.LeavesHeadersOpen (state : HttpState) : Prop :=
  ∃ parser,
    parseByte state.response state.totalBytesReceived state.parsePoint
      state.parser = .ok (some parser)

structure PassFits (recvBufSize : Nat) (state : HttpState) : Prop where
  headers : state.bodyStart = none → state.Receives recvBufSize →
    state.totalBytesReceived + state.delivered.length = recvBufSize →
      (receive state).All (fun received => ¬received.LeavesHeadersOpen)
  body : state.bodyStart ≠ none → state.Receives recvBufSize →
    (recvBufSize : Int) < state.totalBytesReceived + state.remain →
      (state.delivered.length : Int) < state.remain ∧
        state.totalBytesReceived + state.delivered.length ≤
          state.response.length

section Run

variable {recvBufSize : Nat} {response : Bytes} {chunks : List Bytes}

/-- The loop goes on as long as the headers are open, or the body reaches past
the buffer. -/
structure GoesOn (recvBufSize : Nat) (state : HttpState) : Prop where
  headers : state.bodyStart = none → state.totalBytesReceived < recvBufSize
  body : state.bodyStart ≠ none →
    (recvBufSize : Int) < state.totalBytesReceived + state.remain →
      state.remain ≠ 0

/-- A parsed byte keeps the loop going, unless it leaves the headers open in a
full buffer. -/
theorem GoesOn.parseStep {stream : Bytes} {state after : HttpState}
    (tracks : Tracks recvBufSize stream state) (open_ : state.bodyStart = none)
    (free : state.LeavesHeadersOpen → state.totalBytesReceived < recvBufSize)
    (step : parseStep state = .ok after) : GoesOn recvBufSize after := by
  have bounded := (tracks.headers open_).2.1
  rcases (parseStep_eq_ok_iff _ _).mp step with
    ⟨parser, byte, rfl⟩ | ⟨byte, present, rfl⟩
  · refine { headers := ?_, body := ?_ }
    · intro _
      exact free ⟨parser, byte⟩
    · intro started
      exact absurd open_ started
  · refine { headers := ?_, body := ?_ }
    · intro phase
      cases phase
    · intro _ overflows
      simp only [HttpState.atBody] at overflows ⊢
      omega

theorem GoesOn.pass {stream : Bytes} {state after : HttpState}
    (tracks : Tracks recvBufSize stream state) (fits : PassFits recvBufSize state)
    (goesOn : GoesOn recvBufSize state) (running : state.remain ≠ 0)
    (inside : state.parsePoint < recvBufSize) (pass : Pass state after) :
    GoesOn recvBufSize after := by
  cases pass with
  | parsed pending step =>
      have headers := tracks.headers_of_pending pending
      exact .parseStep tracks headers (fun _ => goesOn.headers headers) step
  | @fetched received _ exhausted arrived headers step =>
      have receivedTracks := tracks.receive headers arrived
      have open_ := (receive_bodyStart arrived).trans headers
      apply GoesOn.parseStep receivedTracks open_ _ step
      intro leftOpen
      have notFull : received.totalBytesReceived ≠ recvBufSize := by
        intro full
        have total := (receive_eq_ok arrived).2.1
        have closed := fits.headers headers ⟨running, inside, exhausted⟩
          (total.symm.trans full)
        rw [arrived] at closed
        exact closed leftOpen
      exact Nat.lt_of_le_of_ne (receivedTracks.headers open_).2.1 notFull
  | @body received exhausted arrived started =>
      obtain ⟨-, total, remain, samePhase, -, -⟩ := receive_eq_ok arrived
      refine { headers := ?_, body := ?_ }
      · intro phase
        exact absurd (samePhase.symm.trans phase) started
      · intro _ overflows
        simp only [HttpState.pastBody] at overflows ⊢
        have missing := (fits.body started ⟨running, inside, exhausted⟩
          (by omega)).1
        omega

private theorem goesOn_of_passFits (positive : 0 < recvBufSize)
    (fits : ∀ state, Reaches (httpStep recvBufSize)
      (.start response recvBufSize chunks) state → PassFits recvBufSize state)
    {state : HttpState}
    (reached : Reaches (httpStep recvBufSize)
      (.start response recvBufSize chunks) state) :
    GoesOn recvBufSize state := by
  apply reached.invariant
  · intro before after earlier goesOn stepped
    obtain ⟨running, inside, pass⟩ := (httpStep_eq_next_iff _ _ _).mp stepped
    exact goesOn.pass (tracks_of_reaches earlier) (fits before earlier) running
      inside pass
  · exact { headers := fun _ => positive, body := fun started => absurd rfl started }

/-- An announced body that reaches past the buffer is never complete: the
connection closes, or the buffer is full. -/
theorem fatal_of_overflow (positive : 0 < recvBufSize)
    (fits : ∀ state, Reaches (httpStep recvBufSize)
      (.start response recvBufSize chunks) state → PassFits recvBufSize state)
    (count : Nat) {state : HttpState}
    (reached : Reaches (httpStep recvBufSize)
      (.start response recvBufSize chunks) state)
    (started : state.bodyStart ≠ none)
    (overflows : (recvBufSize : Int) < state.totalBytesReceived + state.remain)
    (left : state.chunks.flatten.length = count) :
    ∃ message, Halts (httpStep recvBufSize) state (fatal message) := by
  induction count using Nat.strong_induction_on generalizing state with
  | _ count ih =>
      have tracks := tracks_of_reaches reached
      obtain ⟨start, phase⟩ := Option.ne_none_iff_exists'.mp started
      have point := (tracks.body start phase).1
      have running :=
        (goesOn_of_passFits positive fits reached).body started overflows
      by_cases full : recvBufSize ≤ state.parsePoint
      · exact ⟨_, .of_step (httpStep_overflow running full)⟩
      · have receives : state.Receives recvBufSize :=
          ⟨running, Nat.not_le.mp full, Nat.le_of_eq point.symm⟩
        by_cases closed : state.delivered.length = 0
        · exact ⟨_, .of_step (httpStep_closed receives closed)⟩
        · have some_ : 0 < state.delivered.length := Nat.pos_of_ne_zero closed
          obtain ⟨missing, room⟩ :=
            (fits state reached).body started receives overflows
          obtain ⟨memory, arrived⟩ := receive_of_room some_ room
          have pass : Pass state (state.pastBody (state.withReceived memory)) :=
            Pass.body receives.2.2 arrived started
          have stepped := (httpStep_eq_next_iff recvBufSize _ _).mpr
            ⟨running, receives.2.1, pass⟩
          have shorter := undelivered_length state
          have stillOverflows : (recvBufSize : Int) <
              (state.pastBody (state.withReceived memory)).totalBytesReceived +
                (state.pastBody (state.withReceived memory)).remain := by
            simp only [HttpState.pastBody, HttpState.withReceived]
            omega
          obtain ⟨message, halted⟩ := ih state.undelivered.flatten.length
            (by omega) (reached.trans (.of_step stepped)) started stillOverflows
            rfl
          exact ⟨message, halted.of_reaches (.of_step stepped)⟩

private theorem isComplete_of_finish {stream : Bytes} {last : HttpState}
    {result : HttpResult} {start : Nat}
    (tracks : Tracks recvBufSize stream last)
    (phase : last.bodyStart = some start) (finished : last.remain = 0)
    (returned : finish last = .ok result) :
    ∃ body, IsComplete stream last.parser.contentLength result body := by
  obtain ⟨-, before, missing, -, headersEnd⟩ := tracks.body start phase
  obtain ⟨memory, stored, built⟩ := (Outcome.bind_eq_ok_iff _ _ _).mp returned
  obtain ⟨room, rfl⟩ := (storeAt_eq_ok_iff _ _ _ _).mp stored
  cases built
  have front : (last.response.take last.totalBytesReceived).length =
      last.totalBytesReceived := List.length_take_of_le tracks.stored
  have within : last.totalBytesReceived ≤ stream.length := by
    rw [← tracks.split, List.length_append, front]
    exact Nat.le_add_right _ _
  refine ⟨⟨start, last.totalBytesReceived - start⟩,
    { data := by simp [phase]
      received := ?_
      within := within
      headers := headersEnd
      length := by simp only; omega
      ends := by simp only; omega }⟩
  rw [List.append_assoc, List.take_left' front, tracks.take_eq]

private theorem complete_of_passFits (positive : 0 < recvBufSize)
    (fits : ∀ state, Reaches (httpStep recvBufSize)
      (.start response recvBufSize chunks) state → PassFits recvBufSize state) :
    ReturnsComplete recvBufSize response chunks where
  complete := by
    intro last result reached halted
    obtain ⟨finished, returned⟩ := httpStep_halt_ok halted
    have tracks := tracks_of_reaches reached
    cases phase : last.bodyStart with
    | none =>
        have free := (goesOn_of_passFits positive fits reached).headers phase
        have remain := (tracks.headers phase).2.2.1
        omega
    | some start => exact isComplete_of_finish tracks phase finished returned
  overflow := by
    rintro state reached (⟨open_, full⟩ | ⟨start, phase, beyond⟩)
    · have free := (goesOn_of_passFits positive fits reached).headers open_
      omega
    · obtain ⟨point, before, missing, -, -⟩ :=
        (tracks_of_reaches reached).body start phase
      have started : state.bodyStart ≠ none := by
        rw [phase]
        exact Option.some_ne_none start
      obtain ⟨message, halted⟩ := fatal_of_overflow positive fits _ reached started
        (by omega) rfl
      exact ⟨message, halted.of_reaches reached⟩

private theorem not_fatal_of_halts {start : HttpState} {outcome : Outcome HttpResult}
    (halted : Halts (httpStep recvBufSize) start outcome)
    (other : ∀ message, outcome ≠ fatal message) :
    ¬∃ message, Halts (httpStep recvBufSize) start (fatal message) := by
  rintro ⟨message, fatalHalts⟩
  exact other message (halted.unique fatalHalts)

private theorem not_fatal_of_finished {start state : HttpState}
    (reached : Reaches (httpStep recvBufSize) start state)
    (finished : state.remain = 0) :
    ¬∃ message, Halts (httpStep recvBufSize) start (fatal message) := by
  have halted : Halts (httpStep recvBufSize) state (finish state) :=
    .of_step (httpStep_finished recvBufSize finished)
  exact not_fatal_of_halts (halted.of_reaches reached) (finish_ne_fatal state)

private theorem positive_of_complete
    (complete : ReturnsComplete recvBufSize response chunks) :
    0 < recvBufSize := by
  by_contra empty
  have zero : recvBufSize = 0 := Nat.eq_zero_of_not_pos empty
  subst zero
  have reached : Reaches (httpStep 0) (.start response 0 chunks)
      (.start response 0 chunks) := .refl _
  exact not_fatal_of_finished reached rfl
    (complete.overflow _ reached (Or.inl ⟨rfl, Nat.le_refl 0⟩))

private theorem passFits_of_complete
    (complete : ReturnsComplete recvBufSize response chunks) {state : HttpState}
    (reached : Reaches (httpStep recvBufSize)
      (.start response recvBufSize chunks) state) :
    PassFits recvBufSize state := by
  have tracks := tracks_of_reaches reached
  refine { headers := ?_, body := ?_ }
  · intro headers receives full
    cases arrived : receive state with
    | exit status message => trivial
    | fault => trivial
    | ok received =>
        rintro ⟨parser, byte⟩
        have receivedTracks := tracks.receive headers arrived
        have open_ := (receive_bodyStart arrived).trans headers
        have total := (receive_eq_ok arrived).2.1.trans full
        have remain := (receivedTracks.headers open_).2.2.1
        have pass : Pass state (received.pastByte parser) :=
          Pass.fetched receives.2.2 arrived headers
            ((parseStep_eq_ok_iff _ _).mpr (Or.inl ⟨parser, byte, rfl⟩))
        have stepped := (httpStep_eq_next_iff recvBufSize _ _).mpr
          ⟨receives.1, receives.2.1, pass⟩
        have later := reached.trans (.of_step stepped)
        have finished : received.remain = 0 := by omega
        exact not_fatal_of_finished later finished (complete.overflow _ later
          (Or.inl ⟨open_, Nat.le_of_eq total.symm⟩))
  · intro started receives overflows
    obtain ⟨start, phase⟩ := Option.ne_none_iff_exists'.mp started
    obtain ⟨point, before, missing, -, -⟩ := tracks.body start phase
    have doesNotFit : state.DoesNotFit recvBufSize :=
      Or.inr ⟨start, phase, by omega⟩
    have fatalHalts := complete.overflow state reached doesNotFit
    have inside := receives.2.1
    have asked := delivered_length_le state
    have small : (requestedSize state.remain : Int) ≤ state.remain :=
      requestedSize_le (by omega)
    have stored := tracks.stored
    by_cases closed : state.delivered.length = 0
    · omega
    · have some_ : 0 < state.delivered.length := Nat.pos_of_ne_zero closed
      by_cases room : state.totalBytesReceived + state.delivered.length ≤
          state.response.length
      · refine ⟨?_, room⟩
        by_contra whole
        obtain ⟨memory, arrived⟩ := receive_of_room some_ room
        have pass : Pass state (state.pastBody (state.withReceived memory)) :=
          Pass.body receives.2.2 arrived started
        have stepped := (httpStep_eq_next_iff recvBufSize _ _).mpr
          ⟨receives.1, receives.2.1, pass⟩
        have finished :
            (state.pastBody (state.withReceived memory)).remain = 0 := by
          simp only [HttpState.pastBody, HttpState.withReceived]
          omega
        exact not_fatal_of_finished (reached.trans (.of_step stepped)) finished
          fatalHalts
      · have faulted : Halts (httpStep recvBufSize) state .fault :=
          .of_step (httpStep_fault receives some_ (Nat.not_le.mp room))
        exact absurd fatalHalts (not_fatal_of_halts (faulted.of_reaches reached)
          (fun message same => by cases same))

end Run

/-- A call returns only whole responses, and ends in `FATAL` when the response
does not fit, exactly when the buffer is not empty and every pass of the run
fits. -/
theorem returnsComplete_iff (recvBufSize : Nat) (response : Bytes)
    (chunks : List Bytes) :
    ReturnsComplete recvBufSize response chunks ↔
      0 < recvBufSize ∧ ∀ state,
        Reaches (httpStep recvBufSize) (.start response recvBufSize chunks)
          state → PassFits recvBufSize state := by
  constructor
  · intro complete
    exact ⟨positive_of_complete complete,
      fun _ reached => passFits_of_complete complete reached⟩
  · rintro ⟨positive, fits⟩
    exact complete_of_passFits positive fits

/-- An acknowledgement with a header line longer than the 8 KB buffer of the
error POSTs, received at once, is returned without a body. -/
theorem returnsComplete_violated :
    ¬ReturnsComplete 8192 (List.replicate 12288 0)
      [asciiBytes "HTTP/1.1 202 Accepted\r\nVia: " ++
        List.replicate 9000 0x61] := by
  intro complete
  obtain ⟨state, reached, open_, full, finished⟩ :=
    exists_reaches_of_runFor (httpStep 8192)
      (fun state : HttpState => state.bodyStart = none ∧
        8192 ≤ state.totalBytesReceived ∧ state.remain = 0)
      1 (HttpState.start (List.replicate 12288 0) 8192
        [asciiBytes "HTTP/1.1 202 Accepted\r\nVia: " ++
          List.replicate 9000 0x61])
      (by decide +kernel)
  exact not_fatal_of_finished reached finished
    (complete.overflow state reached (Or.inl ⟨open_, full⟩))

end Lambpie.Runtime

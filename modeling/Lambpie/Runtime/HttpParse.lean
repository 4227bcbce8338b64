/-
What the HTTP helper returns for a well-formed response.

The run is followed byte by byte through the headers and chunk by chunk
through the body.  In the headers, every state that parses a byte has received
the fewest chunks that contain it, so where the connection splits the stream
decides when the buffer fills; the loop ends there, because `remain` is zero,
whether or not the blank line has been parsed.
-/
import Lambpie.Runtime.HttpBuffer
import Lambpie.Runtime.HeaderFields

namespace Lambpie.Runtime

open Foundations

/-- A response with its status line, header lines and body: one announced
length, which is the body's, and one request id. -/
structure HttpResponse where
  statusLine : Bytes
  headers : List HeaderLine
  body : Bytes
  lengthDigits : Bytes
  requestId : Bytes
  version : asciiBytes "HTTP/" <+: statusLine
  statusNoColon : colonChar ∉ statusLine
  statusNoLineFeed : lineFeed ∉ statusLine
  notShutdown : ¬shutdownStatus <+: statusLine
  headersWellFormed : ∀ line ∈ headers, line.WellFormed
  oneLength : headers.filterMap HeaderLine.length? = [lengthDigits]
  oneRequestId : headers.filterMap HeaderLine.requestId? = [requestId]
  bodyLength : body.length = numberOf lengthDigits

def HttpResponse.head (response : HttpResponse) : Bytes :=
  response.statusLine ++ crlf ++ linesText response.headers ++ crlf

def HttpResponse.text (response : HttpResponse) : Bytes :=
  response.head ++ response.body

/-- A response with or without request ids: what the loop needs to find its
end. -/
structure HttpMessage where
  statusLine : Bytes
  headers : List HeaderLine
  body : Bytes
  lengthDigits : Bytes
  version : asciiBytes "HTTP/" <+: statusLine
  statusNoColon : colonChar ∉ statusLine
  statusNoLineFeed : lineFeed ∉ statusLine
  notShutdown : ¬shutdownStatus <+: statusLine
  headersWellFormed : ∀ line ∈ headers, line.WellFormed
  oneLength : headers.filterMap HeaderLine.length? = [lengthDigits]
  bodyLength : body.length = numberOf lengthDigits

def HttpMessage.head (message : HttpMessage) : Bytes :=
  message.statusLine ++ crlf ++ linesText message.headers ++ crlf

def HttpMessage.text (message : HttpMessage) : Bytes :=
  message.head ++ message.body

def HttpResponse.message (response : HttpResponse) : HttpMessage :=
  { response with }

/-- The memory and the connection of a call: chunks of positive size that fit
the buffer, which lies in the memory. -/
structure Connection (recvBufSize size : Nat) (chunks : List Bytes) : Prop where
  intRange : recvBufSize < 2 ^ 31
  capacity : recvBufSize ≤ size
  nonempty : ∀ chunk ∈ chunks, chunk ≠ []
  fits : chunks.flatten.length ≤ recvBufSize

structure Holds (size : Nat) (chunks front : List Bytes) (state : HttpState) :
    Prop where
  split : chunks = front ++ state.chunks
  total : state.totalBytesReceived = front.flatten.length
  stored : state.response.take front.flatten.length = front.flatten
  size : state.response.length = size

private theorem Holds.total_le {size : Nat} {chunks front : List Bytes}
    {state : HttpState} (holds : Holds size chunks front state) :
    state.totalBytesReceived ≤ chunks.flatten.length := by
  rw [holds.total, holds.split, List.flatten_append, List.length_append]
  omega

theorem Holds.drop {size : Nat} {chunks front : List Bytes} {state : HttpState}
    (holds : Holds size chunks front state) {pos : Nat} {line rest : Bytes}
    (suffix : chunks.flatten.drop pos = line ++ rest)
    (within : pos + line.length ≤ state.totalBytesReceived) :
    ∃ junk, state.response.drop pos = line ++ junk := by
  have stored : state.response.take state.totalBytesReceived =
      chunks.flatten.take state.totalBytesReceived := by
    rw [holds.total, holds.stored, holds.split, List.flatten_append, List.take_left]
  exact drop_of_take_eq stored suffix within

def HttpState.withChunk (state : HttpState) (chunk : Bytes)
    (rest : List Bytes) : HttpState :=
  { state with
    response := state.response.take state.totalBytesReceived ++ chunk ++
      state.response.drop (state.totalBytesReceived + chunk.length)
    totalBytesReceived := state.totalBytesReceived + chunk.length
    remain := state.remain - chunk.length
    chunks := rest }

private theorem receive_holds {recvBufSize size : Nat} {chunks front : List Bytes}
    {state : HttpState} (connection : Connection recvBufSize size chunks)
    (holds : Holds size chunks front state)
    (more : state.totalBytesReceived < chunks.flatten.length)
    (remainLow : ((chunks.flatten.length - state.totalBytesReceived : Nat) : Int)
      ≤ state.remain)
    (remainHigh : state.remain < 2 ^ 64) :
    ∃ chunk rest, state.chunks = chunk :: rest ∧ chunk ≠ [] ∧
      receive state = .ok (state.withChunk chunk rest) ∧
      Holds size chunks (front ++ [chunk]) (state.withChunk chunk rest) := by
  cases pending : state.chunks with
  | nil =>
      have total := holds.total
      rw [holds.split, pending, List.append_nil] at more
      omega
  | cons chunk rest =>
      have split := holds.split
      rw [pending] at split
      have member : chunk ∈ chunks := by
        rw [split]
        exact List.mem_append_right _ List.mem_cons_self
      have nonempty := connection.nonempty chunk member
      have positive : chunk.length ≠ 0 := by
        rwa [ne_eq, List.length_eq_zero_iff]
      have length : chunks.flatten.length =
          state.totalBytesReceived + chunk.length + rest.flatten.length := by
        rw [split, List.flatten_append, List.flatten_cons, List.length_append,
          List.length_append, holds.total]
        omega
      have remainLow : 0 ≤ state.remain := by omega
      have asked := requestedSize_eq remainLow remainHigh
      have small : chunk.length ≤ requestedSize state.remain := by omega
      have room : state.totalBytesReceived + chunk.length ≤
          state.response.length := by
        have fits := connection.fits
        have capacity := connection.capacity
        rw [holds.size]
        omega
      refine ⟨chunk, rest, rfl, nonempty, ?_, ?_⟩
      · simp only [receive, recv, pending, if_pos small, if_neg positive, storeAt,
          if_pos room, Outcome.ok_bind, Outcome.pure_eq_ok, HttpState.withChunk]
      · have flat : (front ++ [chunk]).flatten = front.flatten ++ chunk := by
          simp
        refine { split := ?_, total := ?_, stored := ?_, size := ?_ }
        · rw [split, List.append_assoc, List.singleton_append]
          rfl
        · rw [flat, List.length_append, ← holds.total]
          rfl
        · rw [flat, HttpState.withChunk]
          simp only [holds.total]
          rw [holds.stored, List.take_left]
        · simp only [HttpState.withChunk, List.length_append, List.length_take, List.length_drop]
          rw [← holds.size]
          omega

/-! ### Header phase -/

section Headers

variable {recvBufSize size : Nat} {chunks : List Bytes}

structure InHeaders (recvBufSize size : Nat) (chunks front : List Bytes)
    (pos : Nat) (parser : HeaderParser) (state : HttpState) : Prop
    extends Holds size chunks front state where
  phase : state.bodyStart = none
  remain : state.remain = (recvBufSize : Int) - state.totalBytesReceived
  point : state.parsePoint = pos
  parser : state.parser = parser

/-- At the head of the loop before the byte at the position given: the chunks
received are the fewest that reach it, and do not fill the buffer. -/
def AtByte (recvBufSize size : Nat) (chunks : List Bytes) (pos : Nat)
    (parser : HeaderParser) (state : HttpState) : Prop :=
  ∃ front, InHeaders recvBufSize size chunks front pos parser state ∧
    pos ≤ front.flatten.length ∧ front.flatten.length < recvBufSize ∧
    (front = [] ∨ front.dropLast.flatten.length < pos)

/-- The buffer fills with chunks needed to see the byte before the end of the
headers, and the loop ends without a body. -/
def FillsEarly (recvBufSize headLength : Nat) (chunks : List Bytes)
    (state : HttpState) : Prop :=
  (∃ result, Halts (httpStep recvBufSize) state result ∧
    result.All (·.body = none)) ∧
  ∃ front rest, chunks = front ++ rest ∧
    recvBufSize ≤ front.flatten.length ∧
    front.dropLast.flatten.length + 1 < headLength

/-- Either the byte at the position given comes next with the parser given, or
the buffer fills before. -/
def Arrives (recvBufSize size headLength : Nat) (chunks : List Bytes)
    (pos : Nat) (parser : HeaderParser) (state : HttpState) : Prop :=
  (∃ state', Reaches (httpStep recvBufSize) state state' ∧
    AtByte recvBufSize size chunks pos parser state') ∨
  FillsEarly recvBufSize headLength chunks state

theorem FillsEarly.of_reaches {headLength : Nat} {state state' : HttpState}
    (reached : Reaches (httpStep recvBufSize) state state')
    (fills : FillsEarly recvBufSize headLength chunks state') :
    FillsEarly recvBufSize headLength chunks state := by
  obtain ⟨⟨result, halted, noBody⟩, filled⟩ := fills
  exact ⟨⟨result, halted.of_reaches reached, noBody⟩, filled⟩

theorem Arrives.bind {headLength pos pos' : Nat} {parser parser' : HeaderParser}
    {state : HttpState}
    (first : Arrives recvBufSize size headLength chunks pos parser state)
    (next : ∀ state', AtByte recvBufSize size chunks pos parser state' →
      Arrives recvBufSize size headLength chunks pos' parser' state') :
    Arrives recvBufSize size headLength chunks pos' parser' state := by
  obtain ⟨middle, reached, atMiddle⟩ | fills := first
  · obtain ⟨last, reachedLast, atLast⟩ | fills := next middle atMiddle
    · exact .inl ⟨last, reached.trans reachedLast, atLast⟩
    · exact .inr (fills.of_reaches reached)
  · exact .inr fills

theorem AtByte.fetch {pos : Nat} {parser : HeaderParser} {state : HttpState}
    (connection : Connection recvBufSize size chunks)
    (at_ : AtByte recvBufSize size chunks pos parser state)
    (more : pos < chunks.flatten.length) :
    ∃ front fetched,
      InHeaders recvBufSize size chunks front pos parser fetched ∧
      pos < front.flatten.length ∧ front.dropLast.flatten.length ≤ pos ∧
      state.remain ≠ 0 ∧ loopBody recvBufSize state = parseStep fetched := by
  obtain ⟨front, inside, reached, room, fewest⟩ := at_
  have fits := connection.fits
  have point := inside.point
  have total := inside.total
  have remain := inside.remain
  have running : state.remain ≠ 0 := by omega
  have inBuffer : ¬state.parsePoint ≥ recvBufSize := by omega
  by_cases exhausted : state.parsePoint ≥ state.totalBytesReceived
  · obtain ⟨chunk, rest, -, nonempty, received, holds⟩ :=
      receive_holds connection inside.toHolds (by omega)
        (by omega) (by have := connection.intRange; omega)
    have positive : 0 < chunk.length := List.length_pos_iff.mpr nonempty
    have grown : (front ++ [chunk]).flatten.length =
        front.flatten.length + chunk.length := by
      simp
    refine ⟨front ++ [chunk], state.withChunk chunk rest,
      { holds with
        phase := inside.phase
        remain := ?_
        point := point
        parser := inside.parser }, by omega, ?_, running, ?_⟩
    · simp only [HttpState.withChunk]
      omega
    · rw [List.dropLast_concat]
      omega
    · have phase : (state.withChunk chunk rest).bodyStart.isSome = false := by
        rw [HttpState.withChunk]
        simp only [inside.phase, Option.isSome_none]
      rw [loopBody, if_neg inBuffer, if_pos exhausted, received,
        Outcome.ok_bind]
      simp only [phase, Bool.false_eq_true, if_false]
  · refine ⟨front, state, inside, by omega, ?_, running, ?_⟩
    · obtain rfl | fewer := fewest
      · exact Nat.zero_le _
      · omega
    · rw [loopBody, if_neg inBuffer, if_neg exhausted]

theorem AtByte.advance {headLength pos : Nat} {parser parser' : HeaderParser}
    {state : HttpState} (connection : Connection recvBufSize size chunks)
    (headFits : headLength ≤ chunks.flatten.length)
    (early : pos + 1 < headLength)
    (parsed : ∀ front fetched,
      InHeaders recvBufSize size chunks front pos parser fetched →
      pos < fetched.totalBytesReceived →
        parseByte fetched.response fetched.totalBytesReceived pos parser =
          .ok (some parser'))
    (at_ : AtByte recvBufSize size chunks pos parser state) :
    Arrives recvBufSize size headLength chunks (pos + 1) parser' state := by
  obtain ⟨front, fetched, inside, seen, fewest, running, body⟩ :=
    at_.fetch connection (by omega)
  have total := inside.total
  let after := { fetched with parser := parser', parsePoint := pos + 1 }
  have stepped : httpStep recvBufSize state = .next after := by
    have byte := parsed front fetched inside (by omega)
    rw [httpStep, if_neg running, body, parseStep, inside.point, inside.parser,
      byte, Outcome.ok_bind]
    rfl
  have insideAfter :
      InHeaders recvBufSize size chunks front (pos + 1) parser' after :=
    { split := inside.split, total := inside.total, stored := inside.stored
      size := inside.size, phase := inside.phase, remain := inside.remain
      point := rfl, parser := rfl }
  by_cases room : front.flatten.length < recvBufSize
  · exact .inl ⟨after, .of_step stepped, front, insideAfter, by omega, room,
      .inr (by omega)⟩
  · -- the buffer is full: the loop ends before it looks at another byte
    have within := inside.total_le
    have fits := connection.fits
    have remain := insideAfter.remain
    have full : after.remain = 0 := by
      have sameTotal : after.totalBytesReceived = fetched.totalBytesReceived := rfl
      omega
    refine .inr (FillsEarly.of_reaches (.of_step stepped) ⟨?_, ?_⟩)
    · refine ⟨finish after, .of_step ?_, ?_⟩
      · rw [httpStep, if_pos full]
      · have noBody : after.bodyStart = none := insideAfter.phase
        unfold finish
        cases storeAt after.response after.totalBytesReceived [0] with
        | ok response =>
            change Option.map _ after.bodyStart = none
            rw [noBody]
            rfl
        | exit status message => trivial
        | fault => trivial
    · exact ⟨front, _, inside.split, by omega, by omega⟩

private theorem AtByte.scan {headLength pos : Nat} {parser : HeaderParser}
    {state : HttpState} {bytes rest : Bytes}
    (connection : Connection recvBufSize size chunks)
    (headFits : headLength ≤ chunks.flatten.length)
    (suffix : chunks.flatten.drop pos = bytes ++ rest)
    (plain : lineFeed ∉ bytes) (early : pos + bytes.length < headLength)
    (at_ : AtByte recvBufSize size chunks pos parser state) :
    Arrives recvBufSize size headLength chunks (pos + bytes.length)
      (scanBytes parser pos bytes) state := by
  induction bytes generalizing pos parser state with
  | nil => exact .inl ⟨state, .refl state, at_⟩
  | cons c bytes ih =>
      rw [List.cons_append] at suffix
      rw [List.length_cons] at early ⊢
      rw [List.mem_cons, not_or] at plain
      have step : Arrives recvBufSize size headLength chunks (pos + 1)
          (scanBytes parser pos [c]) state := at_.advance connection headFits (by omega) (by
        intro front fetched inside seen
        have single : chunks.flatten.drop pos = [c] ++ (bytes ++ rest) := suffix
        obtain ⟨junk, here⟩ := inside.toHolds.drop single (by simpa using seen)
        exact parseByte_plain here fun same => plain.1 same.symm)
      have next : pos + (bytes.length + 1) = pos + 1 + bytes.length := by omega
      rw [next]
      refine step.bind ?_
      intro state' at_'
      exact ih (drop_succ_of_drop suffix) plain.2 (by omega) at_'

theorem AtByte.line {headLength lineStart : Nat} {parser recorded : HeaderParser}
    {state : HttpState} {line rest : Bytes}
    (connection : Connection recvBufSize size chunks)
    (headFits : headLength ≤ chunks.flatten.length)
    (suffix : chunks.flatten.drop lineStart = line ++ crlf ++ rest)
    (nonempty : line ≠ []) (plain : lineFeed ∉ line)
    (late : 3 ≤ lineStart + line.length + 1)
    (early : lineStart + line.length + 2 < headLength)
    (ends : ∀ memory total junk,
      memory.drop lineStart = line ++ carriageReturn :: junk →
      total ≤ memory.length →
        parseLine memory total (lineStart + line.length + 1)
          (scanBytes parser lineStart line) = .ok recorded)
    (at_ : AtByte recvBufSize size chunks lineStart parser state) :
    Arrives recvBufSize size headLength chunks (lineStart + line.length + 2)
      { recorded with
        lineStart := lineStart + line.length + 2, delimiter := none } state := by
  have wholeLine : chunks.flatten.drop lineStart =
      (line ++ [carriageReturn]) ++ lineFeed :: rest := by
    rw [suffix]
    simp [crlf]
  have plainLine : lineFeed ∉ line ++ [carriageReturn] := by
    rw [List.mem_append, not_or]
    exact ⟨plain, by decide⟩
  have scanned : Arrives recvBufSize size headLength chunks _ _ state :=
    at_.scan connection headFits wholeLine plainLine (by
      rw [List.length_append, List.length_singleton]
      omega)
  rw [List.length_append, List.length_singleton, scanBytes_append] at scanned
  refine scanned.bind ?_
  intro state' at_'
  refine at_'.advance connection headFits (by omega) ?_
  intro front fetched inside seen
  have withFeed : chunks.flatten.drop lineStart =
      (line ++ [carriageReturn, lineFeed]) ++ rest := suffix
  obtain ⟨junk, here⟩ := inside.toHolds.drop withFeed (by
    simp only [List.length_append, List.length_cons, List.length_nil]
    omega)
  rw [List.append_assoc] at here
  have received : fetched.totalBytesReceived ≤ fetched.response.length := by
    have stored := congrArg List.length inside.stored
    rw [List.length_take] at stored
    rw [inside.total]
    omega
  rw [parseByte_lineFeed here nonempty plain rfl (by omega)]
  have unchanged : scanBytes (scanBytes parser lineStart line)
      (lineStart + line.length) [carriageReturn] =
        scanBytes parser lineStart line :=
    scanBytes_of_noColon _ _ (by decide)
  rw [unchanged, ends fetched.response fetched.totalBytesReceived
    (lineFeed :: junk) here received]
  rfl

/-! ### Header lines -/

def recordLines (pos : Nat) (parser : HeaderParser) :
    List HeaderLine → HeaderParser
  | [] => parser
  | line :: rest =>
      recordLines (pos + line.text.length + 2)
        { line.record pos parser with
          lineStart := pos + line.text.length + 2, delimiter := none } rest

theorem HeaderLine.text_ne_nil (line : HeaderLine) : line.text ≠ [] := by
  rw [HeaderLine.text]
  exact List.append_ne_nil_of_right_ne_nil _ (List.cons_ne_nil _ _)

theorem HeaderLine.record_position (line : HeaderLine) (lineStart pos : Nat)
    (parser : HeaderParser) (delimiter : Option Nat) :
    { line.record lineStart { parser with delimiter } with
        lineStart := pos, delimiter := none } =
      { line.record lineStart parser with lineStart := pos, delimiter := none } := by
  cases line <;> rfl

theorem AtByte.lines {headLength pos : Nat} {parser : HeaderParser}
    {state : HttpState} {lines : List HeaderLine} {rest : Bytes}
    (connection : Connection recvBufSize size chunks)
    (headFits : headLength ≤ chunks.flatten.length)
    (suffix : chunks.flatten.drop pos = linesText lines ++ rest)
    (wellFormed : ∀ line ∈ lines, line.WellFormed) (late : 2 ≤ pos)
    (early : pos + (linesText lines).length < headLength)
    (lineStart : parser.lineStart = pos)
    (at_ : AtByte recvBufSize size chunks pos parser state) :
    Arrives recvBufSize size headLength chunks
      (pos + (linesText lines).length) (recordLines pos parser lines) state := by
  induction lines generalizing pos parser state with
  | nil => exact .inl ⟨state, .refl state, at_⟩
  | cons line lines ih =>
      have text : linesText (line :: lines) =
          line.text ++ crlf ++ linesText lines := by
        rw [linesText, List.flatMap_cons]
        rfl
      have length : (linesText (line :: lines)).length =
          line.text.length + 2 + (linesText lines).length := by
        rw [text, List.length_append, List.length_append]
        rfl
      rw [text, List.append_assoc] at suffix
      rw [length] at early ⊢
      have first := wellFormed line List.mem_cons_self
      have textFits : line.text.length < 2 ^ 64 := by
        have fits := connection.fits
        have intRange := connection.intRange
        omega
      obtain ⟨colon, delimits, scanned⟩ := first.field.scanBytes parser pos
      have step : Arrives recvBufSize size headLength chunks _
          { line.record pos { parser with delimiter := some colon } with
            lineStart := pos + line.text.length + 2, delimiter := none } state :=
        at_.line connection headFits suffix line.text_ne_nil
        first.field.noLineFeed (by omega) (by omega) (by
          intro memory total junk here received
          rw [show line.text = line.field.text from rfl, scanned]
          exact parseLine_header total first textFits here lineStart rfl delimits)
      rw [line.record_position] at step
      have next : pos + (line.text.length + 2 + (linesText lines).length) =
          pos + line.text.length + 2 + (linesText lines).length := by omega
      rw [next, recordLines]
      refine step.bind ?_
      intro state' at_'
      refine ih ?_ (fun other member =>
        wellFormed other (List.mem_cons_of_mem _ member)) (by omega) (by omega)
        rfl at_'
      have after := drop_add_of_drop suffix
      rwa [List.length_append, ← Nat.add_assoc] at after

private theorem recordLines_contentLength (pos : Nat) (parser : HeaderParser)
    (lines : List HeaderLine) :
    (recordLines pos parser lines).contentLength =
      match (lines.filterMap HeaderLine.length?).getLast? with
      | none => parser.contentLength
      | some digits => (numberOf digits : Int) := by
  induction lines generalizing pos parser with
  | nil => rfl
  | cons line lines ih =>
      rw [recordLines, ih]
      cases line with
      | contentLength digits =>
          simp only [List.filterMap_cons, HeaderLine.length?]
          cases later : lines.filterMap HeaderLine.length? with
          | nil => rfl
          | cons other rest =>
              rw [List.getLast?_cons_cons]
              cases last : (other :: rest).getLast? with
              | none => exact absurd last (by simp)
              | some digits => rfl
      | requestId id => rfl
      | other name value => rfl

theorem recordLines_requestId (text rest : Bytes) (pos : Nat)
    (parser : HeaderParser) (lines : List HeaderLine)
    (suffix : text.drop pos = linesText lines ++ rest) :
    ((lines.filterMap HeaderLine.requestId?).getLast? = none →
      (recordLines pos parser lines).awsRequestId = parser.awsRequestId) ∧
    ∀ id, (lines.filterMap HeaderLine.requestId?).getLast? = some id →
      ∃ start after,
        (recordLines pos parser lines).awsRequestId =
          some { start, len := id.length } ∧
        text.drop start = id ++ after ∧
        start + id.length ≤ pos + (linesText lines).length := by
  induction lines generalizing pos parser with
  | nil =>
      refine ⟨fun _ => rfl, ?_⟩
      intro id last
      cases last
  | cons line lines ih =>
      have cutLine : linesText (line :: lines) =
          line.text ++ (crlf ++ linesText lines) := by
        rw [linesText, List.flatMap_cons, List.append_assoc]
        rfl
      have length : (linesText (line :: lines)).length =
          line.text.length + 2 + (linesText lines).length := by
        rw [cutLine, List.length_append, List.length_append, ← Nat.add_assoc]
        rfl
      have after : text.drop (pos + line.text.length + 2) =
          linesText lines ++ rest := by
        rw [cutLine, List.append_assoc, List.append_assoc] at suffix
        exact drop_add_of_drop (drop_add_of_drop suffix)
      rw [recordLines, length]
      obtain ⟨unchanged, found⟩ := ih (pos + line.text.length + 2)
        { line.record pos parser with
          lineStart := pos + line.text.length + 2, delimiter := none } after
      -- A later line with an id overrides what this line leaves.
      have later (id : Bytes)
          (last : (lines.filterMap HeaderLine.requestId?).getLast? = some id) :
          ∃ start after,
            (recordLines (pos + line.text.length + 2)
              { line.record pos parser with
                lineStart := pos + line.text.length + 2, delimiter := none }
              lines).awsRequestId = some { start, len := id.length } ∧
            text.drop start = id ++ after ∧
            start + id.length ≤
              pos + (line.text.length + 2 + (linesText lines).length) := by
        obtain ⟨start, rest, stored, located, inside⟩ := found id last
        exact ⟨start, rest, stored, located, by omega⟩
      cases line with
      | contentLength digits => exact ⟨unchanged, later⟩
      | other name value => exact ⟨unchanged, later⟩
      | requestId id =>
          simp only [List.filterMap_cons, HeaderLine.requestId?,
            List.getLast?_cons]
          refine ⟨fun empty => absurd empty (Option.some_ne_none _), ?_⟩
          intro last isLast
          rw [Option.some.injEq] at isLast
          cases others : (lines.filterMap HeaderLine.requestId?).getLast? with
          | some other =>
              rw [others, Option.getD_some] at isLast
              rw [← isLast]
              exact later other others
          | none =>
              rw [others, Option.getD_none] at isLast
              rw [← isLast]
              have textEq : (HeaderLine.requestId id).text =
                  requestIdName ++ [colonChar, spaceChar] ++ id := by
                simp [HeaderLine.text, HeaderLine.name, HeaderLine.value]
              have located : text.drop (pos + requestIdName.length + 2) =
                  id ++ (crlf ++ linesText lines ++ rest) := by
                rw [cutLine, textEq, List.append_assoc, List.append_assoc,
                  List.append_assoc] at suffix
                rw [List.append_assoc]
                exact drop_add_of_drop (drop_add_of_drop suffix)
              refine ⟨_, _, unchanged others, located, ?_⟩
              rw [textEq]
              simp only [List.length_append, List.length_cons, List.length_nil]
              omega

/-! ### Body phase -/

/-- Receiving the body: `remain` is what the response still lacks. -/
structure InBody (size : Nat) (chunks front : List Bytes) (bodyStart : Nat)
    (parser : HeaderParser) (state : HttpState) : Prop
    extends Holds size chunks front state where
  phase : state.bodyStart = some bodyStart
  remain : state.remain =
    (chunks.flatten.length : Int) - state.totalBytesReceived
  point : state.parsePoint = state.totalBytesReceived
  parser : state.parser = parser

theorem InBody.run {front : List Bytes} {bodyStart : Nat} {parser : HeaderParser}
    {state : HttpState} (connection : Connection recvBufSize size chunks)
    (inside : InBody size chunks front bodyStart parser state) :
    ∃ final front', Reaches (httpStep recvBufSize) state final ∧
      InBody size chunks front' bodyStart parser final ∧ final.remain = 0 := by
  induction left : state.chunks generalizing front state with
  | nil =>
      refine ⟨state, front, .refl state, inside, ?_⟩
      have remain := inside.remain
      have total := inside.total
      have split := inside.split
      rw [left, List.append_nil] at split
      rw [split] at remain
      omega
  | cons chunk rest ih =>
      have fits := connection.fits
      have intRange := connection.intRange
      have remain := inside.remain
      have point := inside.point
      have member : chunk ∈ chunks := by
        rw [inside.split, left]
        exact List.mem_append_right _ List.mem_cons_self
      have positive : 0 < chunk.length :=
        List.length_pos_iff.mpr (connection.nonempty chunk member)
      have more : state.totalBytesReceived < chunks.flatten.length := by
        rw [inside.total, inside.split, left, List.flatten_append,
          List.flatten_cons, List.length_append, List.length_append]
        omega
      obtain ⟨chunk', rest', pending, -, received, holds⟩ :=
        receive_holds connection inside.toHolds more (by omega) (by omega)
      rw [left] at pending
      cases pending
      let after := { state.withChunk chunk rest with
        parsePoint := state.parsePoint + chunk.length }
      have stepped : httpStep recvBufSize state = .next after := by
        have phase : (state.withChunk chunk rest).bodyStart.isSome = true := by
          rw [HttpState.withChunk]
          simp only [inside.phase, Option.isSome_some]
        have arrived : (state.withChunk chunk rest).totalBytesReceived -
            state.totalBytesReceived = chunk.length := by
          rw [HttpState.withChunk]
          exact Nat.add_sub_cancel_left _ _
        rw [httpStep, if_neg (by omega), loopBody, if_neg (by omega),
          if_pos (by omega), received, Outcome.ok_bind, arrived, if_pos phase]
        rfl
      have insideAfter : InBody size chunks (front ++ [chunk]) bodyStart parser
          after := by
        refine { split := holds.split, total := holds.total
                 stored := holds.stored, size := holds.size
                 phase := inside.phase, parser := inside.parser
                 remain := ?_, point := ?_ }
        · simp only [after, HttpState.withChunk]
          omega
        · simp only [after, HttpState.withChunk]
          omega
      obtain ⟨final, front', reached, insideFinal, finished⟩ :=
        ih insideAfter rfl
      exact ⟨final, front', (Reaches.of_step stepped).trans reached,
        insideFinal, finished⟩

theorem AtByte.blankLine {last bodyLength : Nat} {parser : HeaderParser}
    {state : HttpState} {rest : Bytes}
    (connection : Connection recvBufSize size chunks)
    (length : chunks.flatten.length = last + 1 + bodyLength)
    (announced : parser.contentLength = bodyLength)
    (late : 3 ≤ last)
    (suffix : chunks.flatten.drop (last - 2) =
      [lineFeed, carriageReturn, lineFeed] ++ rest)
    (at_ : AtByte recvBufSize size chunks last parser state) :
    ∃ body front, Reaches (httpStep recvBufSize) state body ∧
      InBody size chunks front (last + 1) parser body := by
  obtain ⟨front, fetched, inside, seen, -, running, body⟩ :=
    at_.fetch connection (by omega)
  have total := inside.total
  obtain ⟨junk, here⟩ := inside.toHolds.drop suffix (by
    simp only [List.length_cons, List.length_nil]
    omega)
  have blank : parseByte fetched.response fetched.totalBytesReceived last
      parser = .ok none := parseByte_blank late here
  let after := { fetched with
    parser := parser
    bodyStart := some (last + 1)
    remain := parser.contentLength
      - ((fetched.totalBytesReceived : Int) - ((last + 1 : Nat) : Int))
    parsePoint := fetched.totalBytesReceived }
  have stepped : httpStep recvBufSize state = .next after := by
    rw [httpStep, if_neg running, body, parseStep, inside.point, inside.parser,
      blank, Outcome.ok_bind]
    simp only
    rw [if_neg (by omega)]
    rfl
  refine ⟨after, front, .of_step stepped, ?_⟩
  refine { split := inside.split, total := inside.total
           stored := inside.stored, size := inside.size
           phase := rfl, remain := ?_, point := rfl, parser := rfl }
  simp only [after]
  omega

end Headers

/-! ### The helper's result -/

def Returns (recvBufSize : Nat) (memory : Bytes) (chunks : List Bytes)
    (response : HttpResponse) : Prop :=
  ∃ result body requestId,
    Halts (httpStep recvBufSize) (.start memory recvBufSize chunks)
      (.ok result) ∧
    result.body = some body ∧ body.bytes result.response = response.body ∧
    result.awsRequestId = some requestId ∧
    requestId.bytes result.response = response.requestId

/-- Some of the first chunks hold the headers up to their last byte without
filling the buffer. -/
def HeadArrivesEarly (recvBufSize : Nat) (chunks : List Bytes)
    (response : HttpResponse) : Prop :=
  ∃ front, front <+: chunks ∧ response.head.length ≤ front.flatten.length + 1 ∧
    front.flatten.length < recvBufSize

section Message

variable {recvBufSize : Nat} {memory : Bytes} {chunks : List Bytes}
  {message : HttpMessage}

theorem HttpMessage.statusLine_length (message : HttpMessage) :
    5 ≤ message.statusLine.length := by
  have longer := message.version.length_le
  have five : (asciiBytes "HTTP/").length = 5 := by decide
  omega

def HttpMessage.lineStart (message : HttpMessage) (before : List HeaderLine) : Nat :=
  message.statusLine.length + 2 + (linesText before).length

def HttpMessage.recorded (message : HttpMessage) (before : List HeaderLine) : HeaderParser :=
  let lineStart := message.statusLine.length + 2
  recordLines lineStart { HeaderParser.start with lineStart } before

def HttpMessage.parsed (message : HttpMessage) : HeaderParser :=
  let lineStart := message.statusLine.length + 2
  recordLines lineStart { HeaderParser.start with lineStart } message.headers

theorem HttpMessage.head_length (message : HttpMessage) :
    message.head.length =
      message.statusLine.length + 2 + (linesText message.headers).length + 2 := by
  rw [HttpMessage.head, List.length_append, List.length_append,
    List.length_append]
  rfl

/-- The run through the headers up to their last byte. -/
theorem arrives_at_blankLine
    (connection : Connection recvBufSize memory.length chunks)
    (delivered : chunks.flatten = message.text) :
    Arrives recvBufSize memory.length message.head.length chunks
      (message.head.length - 1) message.parsed
      (.start memory recvBufSize chunks) := by
  have statusLength := message.statusLine_length
  have headLength := message.head_length
  have length : chunks.flatten.length =
      message.head.length + message.body.length := by
    rw [delivered, HttpMessage.text, List.length_append]
  have fits := connection.fits
  have cut : chunks.flatten.drop 0 = message.statusLine ++ crlf ++
      (linesText message.headers ++ (crlf ++ message.body)) := by
    rw [List.drop_zero, delivered, HttpMessage.text, HttpMessage.head]
    simp only [List.append_assoc]
  have atStart : AtByte recvBufSize memory.length chunks 0 .start
      (.start memory recvBufSize chunks) := by
    refine ⟨[], ?_, le_refl _, ?_, .inl rfl⟩
    · exact { split := rfl, total := rfl, stored := rfl, size := rfl
              phase := rfl, point := rfl, parser := rfl
              remain := (Int.sub_zero _).symm }
    · rw [List.flatten_nil, List.length_nil]
      omega
  have status : Arrives recvBufSize memory.length message.head.length chunks
      (0 + message.statusLine.length + 2)
      { HeaderParser.start with
        lineStart := 0 + message.statusLine.length + 2, delimiter := none }
      (.start memory recvBufSize chunks) := atStart.line connection (by omega)
    cut (List.ne_nil_of_length_pos (by omega)) message.statusNoLineFeed
    (by omega) (by omega) (by
      intro memory' total junk here received
      rw [scanBytes_of_noColon _ _ message.statusNoColon]
      exact parseLine_status message.notShutdown here received rfl rfl)
  rw [Nat.zero_add] at status
  refine status.bind ?_
  intro state atLines
  have linesSuffix : chunks.flatten.drop (message.statusLine.length + 2) =
      linesText message.headers ++ (crlf ++ message.body) := by
    have after := drop_add_of_drop cut
    rwa [Nat.zero_add, List.length_append] at after
  have lines : Arrives recvBufSize memory.length message.head.length chunks _ _
      state := atLines.lines connection (by omega) linesSuffix message.headersWellFormed (by omega) (by omega) rfl
  refine lines.bind ?_
  intro state' atBlank
  have blankSuffix : chunks.flatten.drop
      (message.statusLine.length + 2 + (linesText message.headers).length) =
        [carriageReturn] ++ (lineFeed :: message.body) :=
    drop_add_of_drop linesSuffix
  have blank : Arrives recvBufSize memory.length message.head.length chunks _ _
      state' := atBlank.scan connection (by omega) blankSuffix (by decide) (by
      rw [List.length_singleton]
      omega)
  have unchanged : scanBytes message.parsed
      (message.statusLine.length + 2 + (linesText message.headers).length)
      [carriageReturn] = message.parsed :=
    scanBytes_of_noColon _ _ (by decide)
  have position : message.head.length - 1 =
      message.statusLine.length + 2 + (linesText message.headers).length +
        [carriageReturn].length := by
    rw [headLength]
    rfl
  rw [position]
  exact unchanged ▸ blank

theorem head_suffix (delivered : chunks.flatten = message.text) :
    chunks.flatten.drop (message.head.length - 1 - 2) =
      [lineFeed, carriageReturn, lineFeed] ++ message.body := by
  have closed : ∃ front, message.statusLine ++ crlf ++
      linesText message.headers = front ++ [lineFeed] := by
    cases lines : message.headers.reverse with
    | nil =>
        rw [List.reverse_eq_nil_iff] at lines
        refine ⟨message.statusLine ++ [carriageReturn], ?_⟩
        rw [lines]
        simp [linesText, crlf]
    | cons line rest =>
        rw [List.reverse_eq_cons_iff] at lines
        refine ⟨message.statusLine ++ crlf ++ linesText rest.reverse ++
          line.text ++ [carriageReturn], ?_⟩
        rw [lines]
        simp [linesText, crlf]
  obtain ⟨front, ends⟩ := closed
  have position : message.head.length - 1 - 2 = front.length := by
    rw [HttpMessage.head, ends]
    simp [crlf]
  rw [delivered, HttpMessage.text, position, HttpMessage.head, ends]
  simp [crlf]

private theorem AtByte.toEnd {state : HttpState}
    (connection : Connection recvBufSize memory.length chunks)
    (delivered : chunks.flatten = message.text)
    (at_ : AtByte recvBufSize memory.length chunks (message.head.length - 1)
      message.parsed state) :
    ∃ final front, Reaches (httpStep recvBufSize) state final ∧
      InBody memory.length chunks front message.head.length message.parsed
        final ∧ final.remain = 0 := by
  have statusLength := message.statusLine_length
  have headLength := message.head_length
  have textLength : message.text.length =
      message.head.length + message.body.length := by
    rw [HttpMessage.text, List.length_append]
  have headPosition : message.head.length - 1 + 1 = message.head.length := by
    omega
  have announced : message.parsed.contentLength = message.body.length := by
    rw [message.bodyLength, HttpMessage.parsed, recordLines_contentLength,
      message.oneLength]
    rfl
  have bodyFollows : chunks.flatten.length =
      message.head.length - 1 + 1 + message.body.length := by
    rw [delivered]
    omega
  obtain ⟨body, front, reachedBody, insideBody⟩ :=
    at_.blankLine connection bodyFollows announced (by omega)
      (head_suffix delivered)
  rw [headPosition] at insideBody
  obtain ⟨final, front', reachedFinal, insideFinal, finished⟩ :=
    insideBody.run connection
  exact ⟨final, front', reachedBody.trans reachedFinal, insideFinal, finished⟩

theorem HttpMessage.received
    (connection : Connection recvBufSize memory.length chunks)
    (delivered : chunks.flatten = message.text)
    (room : message.text.length < recvBufSize) :
    ∃ final front, Reaches (httpStep recvBufSize)
        (.start memory recvBufSize chunks) final ∧
      InBody memory.length chunks front message.head.length message.parsed
        final ∧ final.remain = 0 := by
  rcases arrives_at_blankLine connection delivered with
    ⟨state, reached, at_⟩ | ⟨-, front, rest, split, full, -⟩
  · obtain ⟨final, front, reachedFinal, inside, finished⟩ :=
      at_.toEnd connection delivered
    exact ⟨final, front, reached.trans reachedFinal, inside, finished⟩
  · rw [← delivered, split, List.flatten_append, List.length_append] at room
    omega

def HttpMessage.lastRequestId (message : HttpMessage) : Option Bytes :=
  (message.headers.filterMap HeaderLine.requestId?).getLast?

private theorem HttpMessage.parsed_requestId (message : HttpMessage) {response : Bytes}
    (whole : message.text <+: response) :
    (message.lastRequestId = none → message.parsed.awsRequestId = none) ∧
    ∀ id, message.lastRequestId = some id →
      ∃ slice, message.parsed.awsRequestId = some slice ∧
        slice.len = id.length ∧ slice.bytes response = id := by
  obtain ⟨unset, found⟩ := recordLines_requestId message.text
    (crlf ++ message.body) (message.statusLine.length + 2)
    { HeaderParser.start with lineStart := message.statusLine.length + 2 }
    message.headers (by
      rw [HttpMessage.text, HttpMessage.head, List.append_assoc,
        List.append_assoc, List.append_assoc]
      have lineEnd : message.statusLine.length + 2 =
          (message.statusLine ++ crlf).length := by
        rw [List.length_append]
        rfl
      rw [← List.append_assoc, lineEnd, List.drop_left])
  refine ⟨unset, ?_⟩
  intro id last
  obtain ⟨start, after, recorded, located, inHead⟩ := found id last
  refine ⟨{ start, len := id.length }, recorded, rfl, ?_⟩
  have short : start ≤ message.text.length := by
    have headLength := message.head_length
    have textLength : message.text.length =
        message.head.length + message.body.length := by
      rw [HttpMessage.text, List.length_append]
    omega
  obtain ⟨behind, stored⟩ := whole
  simp only [Slice.bytes, ← stored]
  rw [List.drop_append_of_le_length short, located, List.append_assoc,
    List.take_left]

/-- With the whole message in memory, the result holds it, with the slice of
its body and the slice that the parser has recorded. -/
theorem HttpMessage.finish_eq (delivered : chunks.flatten = message.text)
    {front : List Bytes} {state : HttpState}
    (inside : InBody memory.length chunks front message.head.length
      message.parsed state)
    (finished : state.remain = 0) (room : message.text.length < memory.length) :
    ∃ result, finish state = .ok result ∧
      result.response.length = memory.length ∧
      message.text <+: result.response ∧
      result.body =
        some { start := message.head.length, len := message.body.length } ∧
      result.awsRequestId = message.parsed.awsRequestId := by
  have total : state.totalBytesReceived = message.text.length := by
    have remain := inside.remain
    rw [delivered] at remain
    omega
  have size := inside.size
  have stored : state.response.take message.text.length = message.text := by
    have whole : front.flatten = message.text := by
      have front_le : front.flatten <+: chunks.flatten := by
        rw [inside.split, List.flatten_append]
        exact List.prefix_append _ _
      rw [delivered] at front_le
      exact front_le.eq_of_length (by rw [← inside.total, total])
    have stored := inside.stored
    rwa [whole] at stored
  have stores : storeAt state.response state.totalBytesReceived [0] =
      .ok (message.text ++ 0 ::
        state.response.drop (message.text.length + 1)) := by
    rw [storeAt, if_pos (by rw [List.length_singleton]; omega), total, stored]
    simp
  have bodyLength : message.text.length - message.head.length =
      message.body.length := by
    rw [HttpMessage.text, List.length_append, Nat.add_sub_cancel_left]
  rw [finish, stores, Outcome.ok_bind, inside.phase, inside.parser, total]
  refine ⟨_, rfl, ?_, List.prefix_append _ _, ?_, rfl⟩
  · rw [List.length_append, List.length_cons, List.length_drop, size]
    omega
  · rw [Option.map_some, bodyLength]

end Message

section Response

variable {recvBufSize : Nat} {memory : Bytes} {chunks : List Bytes}
  {response : HttpResponse}

def HttpResponse.parsed (response : HttpResponse) : HeaderParser :=
  let lineStart := response.statusLine.length + 2
  recordLines lineStart { HeaderParser.start with lineStart } response.headers

theorem finish_eq (delivered : chunks.flatten = response.text)
    {front : List Bytes} {state : HttpState}
    (inside : InBody memory.length chunks front response.head.length
      response.parsed state)
    (finished : state.remain = 0) :
    (response.text.length < memory.length →
      ∃ result body requestId, finish state = .ok result ∧
        result.response.length = memory.length ∧
        requestId.len = response.requestId.length ∧
        result.body = some body ∧
        body.bytes result.response = response.body ∧
        result.awsRequestId = some requestId ∧
        requestId.bytes result.response = response.requestId) ∧
    (memory.length ≤ response.text.length → finish state = .fault) := by
  constructor
  · intro room
    obtain ⟨result, returned, size, whole, body, awsRequestId⟩ :=
      @HttpMessage.finish_eq _ _ response.message delivered _ _ inside finished room
    have last : response.message.lastRequestId = some response.requestId := by
      rw [HttpMessage.lastRequestId, HttpResponse.message, response.oneRequestId]
      rfl
    obtain ⟨slice, recorded, len, denotes⟩ :=
      (response.message.parsed_requestId whole).2 _ last
    refine ⟨result, _, slice, returned, size, len, body, ?_,
      awsRequestId.trans recorded, denotes⟩
    obtain ⟨behind, stored⟩ := whole
    rw [Slice.bytes, ← stored, HttpMessage.text, List.append_assoc,
      List.drop_left]
    exact List.take_left
  · intro full
    have total : state.totalBytesReceived = response.text.length := by
      have remain := inside.remain
      rw [delivered] at remain
      omega
    have size := inside.size
    rw [finish, storeAt, if_neg (by rw [List.length_singleton]; omega)]
    rfl

/-- A connection whose first chunks stop short of filling the buffer after the
headers cannot also fill it before. -/
theorem not_fillsEarly {state : HttpState}
    (early : HeadArrivesEarly recvBufSize chunks response) :
    ¬FillsEarly recvBufSize response.head.length chunks state := by
  rintro ⟨-, front, rest, split, full, fewest⟩
  obtain ⟨front', isPrefix, holdsHead, room⟩ := early
  have isPrefix' : front <+: chunks := ⟨rest, split.symm⟩
  rcases List.prefix_or_prefix_of_prefix isPrefix isPrefix' with
    ⟨tail, tailed⟩ | ⟨tail, tailed⟩
  · cases tail using List.reverseRecOn with
    | nil =>
        rw [List.append_nil] at tailed
        rw [tailed] at room
        omega
    | append_singleton tail last =>
        rw [← tailed, ← List.append_assoc, List.dropLast_concat,
          List.flatten_append, List.length_append] at fewest
        omega
  · rw [← tailed, List.flatten_append, List.length_append] at room
    omega

/-- The helper returns the body and the request id exactly when the memory has
room for the terminating NUL and the response leaves a byte of the buffer free
or is split so that the headers arrive without filling it. -/
theorem http_returns_iff (recvBufSize : Nat) (memory : Bytes)
    (chunks : List Bytes) (response : HttpResponse)
    (connection : Connection recvBufSize memory.length chunks)
    (delivered : chunks.flatten = response.text) :
    Returns recvBufSize memory chunks response ↔
      response.text.length < memory.length ∧
        (response.text.length < recvBufSize ∨
          HeadArrivesEarly recvBufSize chunks response) := by
  have fits := connection.fits
  rw [delivered] at fits
  have arrives : Arrives recvBufSize memory.length response.head.length chunks
      (response.head.length - 1) response.parsed
      (.start memory recvBufSize chunks) :=
    @arrives_at_blankLine _ _ _ response.message connection delivered
  have continues (state : HttpState)
      (at_ : AtByte recvBufSize memory.length chunks (response.head.length - 1)
        response.parsed state) :
      ∃ final front, Reaches (httpStep recvBufSize) state final ∧
        InBody memory.length chunks front response.head.length response.parsed
          final ∧ final.remain = 0 :=
    @AtByte.toEnd _ _ _ response.message _ connection delivered at_
  constructor
  · rintro ⟨result, body, requestId, halted, hasBody, -⟩
    obtain ⟨state, reached, at_⟩ | fills := arrives
    · obtain ⟨final, front, reachedFinal, inside, finished⟩ := continues state at_
      have ended : Halts (httpStep recvBufSize)
          (.start memory recvBufSize chunks) (finish final) := by
        refine Halts.of_reaches (reached.trans reachedFinal) (.of_step ?_)
        rw [httpStep, if_pos finished]
      have same := halted.unique ended
      constructor
      · by_contra full
        rw [(finish_eq delivered inside finished).2 (by omega)] at same
        cases same
      · obtain ⟨front', inHeaders, seen, room, -⟩ := at_
        exact .inr ⟨front', ⟨_, inHeaders.split.symm⟩, by omega, room⟩
    · obtain ⟨⟨lost, haltedLost, noBody⟩, -⟩ := fills
      have same := halted.unique haltedLost
      rw [← same] at noBody
      change result.body = none at noBody
      rw [noBody] at hasBody
      cases hasBody
  · rintro ⟨nulFits, room⟩
    obtain ⟨state, reached, at_⟩ | fills := arrives
    · obtain ⟨final, front, reachedFinal, inside, finished⟩ := continues state at_
      obtain ⟨result, body, requestId, returned, -, -, slices⟩ :=
        (finish_eq delivered inside finished).1 nulFits
      refine ⟨result, body, requestId, ?_, slices⟩
      refine Halts.of_reaches (reached.trans reachedFinal) (.of_step ?_)
      rw [httpStep, if_pos finished, returned]
    · exfalso
      obtain free | early := room
      · obtain ⟨-, front, rest, split, full, -⟩ := fills
        rw [← delivered, split, List.flatten_append, List.length_append] at free
        omega
      · exact not_fillsEarly early fills

end Response

/-- An acknowledgement of the runtime API with a body of `count` spaces. -/
def acknowledgement (count : Nat) (digits : Bytes)
    (allDigits : digits ≠ [] ∧ (∀ c ∈ digits, isDigit c) ∧
      numberOf digits < 2 ^ 31)
    (length : count = numberOf digits) : HttpResponse where
  statusLine := asciiBytes "HTTP/1.1 202 Accepted"
  headers := [
    .other (asciiBytes "Date") (asciiBytes "Mon, 01 Jan 2024 00:00:00 GMT"),
    .contentLength digits,
    .requestId (asciiBytes "8476a536-e9f4-11e8-9739-2dfe598c3fcd")]
  body := List.replicate count spaceChar
  lengthDigits := digits
  requestId := asciiBytes "8476a536-e9f4-11e8-9739-2dfe598c3fcd"
  version := by decide
  statusNoColon := by decide
  statusNoLineFeed := by decide
  notShutdown := by decide
  headersWellFormed := by
    intro line member
    simp only [List.mem_cons, List.not_mem_nil, or_false] at member
    obtain rfl | rfl | rfl := member
    · exact ⟨by decide, by decide, by decide, by decide, by decide⟩
    · exact allDigits
    · exact ⟨by decide, by decide, by decide⟩
  oneLength := rfl
  oneRequestId := rfl
  bodyLength := by rw [List.length_replicate, length]

/-- The acknowledgement fits a buffer of 256 bytes, whatever its chunks. -/
theorem http_returns_iff_example :
    let response := acknowledgement 2 (asciiBytes "2") (by decide +kernel)
      (by decide +kernel)
    Returns 256 (List.replicate 256 0)
      [response.text.take 30, response.text.drop 30] response := by
  intro response
  have connection : Connection 256 (List.replicate 256 (0 : UInt8)).length
      [response.text.take 30, response.text.drop 30] :=
    { intRange := by decide, capacity := by decide +kernel
      nonempty := by decide +kernel, fits := by decide +kernel }
  exact (http_returns_iff 256 _ _ response connection (by simp)).mpr
    ⟨by decide +kernel, .inl (by decide +kernel)⟩

/-- A response of exactly the 8192 bytes of the buffer of the error POSTs. -/
def exactFit : HttpResponse :=
  acknowledgement 8039 (asciiBytes "8039") (by decide +kernel) (by decide +kernel)

def exactFitStart : HttpState :=
  .start (List.replicate 8193 0) 8192 [exactFit.text]

private theorem exactFit_lost :
    ∃ result, Halts (httpStep 8192) exactFitStart result ∧
      result.All (·.body = none) := by
  refine halts_of_runFor 2 ?_
  decide +kernel

/-- In one chunk it fills the buffer at the first byte: the loop ends with no
body. -/
theorem http_exact_fit_lost :
    exactFit.text.length = 8192 ∧
      ¬Returns 8192 (List.replicate 8193 0) [exactFit.text] exactFit := by
  refine ⟨by decide +kernel, ?_⟩
  rintro ⟨result, body, -, halted, hasBody, -⟩
  obtain ⟨stopped, haltedLost, noBody⟩ := exactFit_lost
  have sameResult : Outcome.ok result = stopped := Halts.unique halted haltedLost
  rw [← sameResult] at noBody
  change result.body = none at noBody
  rw [noBody] at hasBody
  cases hasBody

end Lambpie.Runtime

/-
How far the helper reads the headers of a message.

A `recv` that fills the buffer leaves `remain` at zero, so one more byte is
parsed and the loop ends, with the header lines read so far, unless that byte
ends the headers.  The bytes delivered before that `recv` are those that the
loop has parsed by then, whatever the length of the message.
-/
import Lambpie.Runtime.HttpComplete
import Lambpie.Runtime.ReplyCorrelation

namespace Lambpie.Runtime

open Foundations

def linesWithin : Nat → List HeaderLine → List HeaderLine
  | _, [] => []
  | count, line :: rest =>
      if line.text.length + 2 ≤ count then
        line :: linesWithin (count - (line.text.length + 2)) rest
      else []

def HttpMessage.requestIdWithin (message : HttpMessage) (count : Nat) : Option Bytes :=
  ((linesWithin (count - (message.statusLine.length + 2)) message.headers).filterMap
    HeaderLine.requestId?).getLast?

/-- The bytes of the chunks before the one that fills the buffer. -/
def bytesBeforeFull : Nat → List Bytes → Nat
  | _, [] => 0
  | size, chunk :: rest =>
      if chunk.length < size then
        chunk.length + bytesBeforeFull (size - chunk.length) rest
      else 0

private theorem linesText_cons (line : HeaderLine) (rest : List HeaderLine) :
    (linesText (line :: rest)).length = line.text.length + 2 + (linesText rest).length := by
  rw [linesText, List.flatMap_cons, List.length_append, List.length_append]
  rfl

private theorem linesWithin_before {before after : List HeaderLine} {line : HeaderLine}
    {count : Nat} (within : count ≤ line.text.length + 1) :
    linesWithin ((linesText before).length + count) (before ++ line :: after) = before := by
  induction before with
  | nil =>
      rw [List.nil_append, linesWithin, if_neg]
      change ¬line.text.length + 2 ≤ 0 + count
      omega
  | cons first before ih =>
      rw [linesText_cons, List.cons_append, linesWithin, if_pos (by omega)]
      have left : first.text.length + 2 + (linesText before).length + count -
          (first.text.length + 2) = (linesText before).length + count := by omega
      rw [left, ih]

private theorem linesWithin_all {lines : List HeaderLine} {count : Nat}
    (whole : (linesText lines).length ≤ count) : linesWithin count lines = lines := by
  induction lines generalizing count with
  | nil => rw [linesWithin]
  | cons line lines ih =>
      rw [linesText_cons] at whole
      rw [linesWithin, if_pos (by omega), ih (by omega)]

private theorem recordLines_append (pos : Nat) (parser : HeaderParser)
    (front back : List HeaderLine) :
    recordLines pos parser (front ++ back) =
      recordLines (pos + (linesText front).length) (recordLines pos parser front) back := by
  induction front generalizing pos parser with
  | nil => rfl
  | cons line front ih =>
      rw [List.cons_append, recordLines, ih, recordLines, linesText_cons]
      congr 1
      omega

variable {message : HttpMessage}

/-- The parser with so many bytes of the message behind it: in the status line,
in a header line or in the blank line. -/
inductive Reading (message : HttpMessage) : Nat → HeaderParser → Prop where
  | statusLine {count : Nat} (within : count ≤ message.statusLine.length + 1) :
      Reading message count .start
  | headerLine {before after : List HeaderLine} {line : HeaderLine} {count : Nat}
      (split : message.headers = before ++ line :: after)
      (within : count ≤ line.text.length + 1) :
      Reading message (message.lineStart before + count)
        (scanBytes (message.recorded before) (message.lineStart before)
          ((line.text ++ [carriageReturn]).take count))
  | blankLine {count : Nat} (within : count ≤ 1) :
      Reading message (message.lineStart message.headers + count) message.parsed

private theorem HttpMessage.recorded_append (before : List HeaderLine) (line : HeaderLine) :
    message.recorded (before ++ [line]) =
      { line.record (message.lineStart before) (message.recorded before) with
        lineStart := message.lineStart (before ++ [line]), delimiter := none } := by
  have next : message.lineStart (before ++ [line]) =
      message.lineStart before + line.text.length + 2 := by
    simp [HttpMessage.lineStart, linesText, crlf]
    omega
  rw [HttpMessage.recorded, recordLines_append, next]
  rfl

private theorem HttpMessage.recorded_starts (before : List HeaderLine) :
    (message.recorded before).lineStart = message.lineStart before := by
  cases before using List.reverseRecOn with
  | nil => rfl
  | append_singleton before line => rw [recorded_append]

private theorem Reading.ofStart {before after : List HeaderLine}
    (split : message.headers = before ++ after) :
    Reading message (message.lineStart before) (message.recorded before) := by
  cases after with
  | nil =>
      rw [List.append_nil] at split
      rw [← split]
      exact @Reading.blankLine message 0 (Nat.zero_le 1)
  | cons line after => exact @Reading.headerLine message _ _ _ 0 split (Nat.zero_le _)

private theorem HttpMessage.text_drop_line {before after : List HeaderLine} {line : HeaderLine}
    (split : message.headers = before ++ line :: after) :
    ∃ rest, message.text.drop (message.lineStart before) =
      line.text ++ [carriageReturn, lineFeed] ++ rest := by
  refine ⟨linesText after ++ crlf ++ message.body, ?_⟩
  have position : message.lineStart before =
      (message.statusLine ++ crlf ++ linesText before).length := by
    simp [HttpMessage.lineStart, crlf]
    omega
  rw [HttpMessage.text, HttpMessage.head, split, position]
  simp [linesText, crlf]

private theorem HttpMessage.text_drop_blank :
    message.text.drop (message.lineStart message.headers) =
      [carriageReturn, lineFeed] ++ message.body := by
  have position : message.lineStart message.headers =
      (message.statusLine ++ crlf ++ linesText message.headers).length := by
    simp [HttpMessage.lineStart, crlf]
    omega
  rw [HttpMessage.text, HttpMessage.head, position]
  simp [crlf]

section Byte

variable {memory : Bytes} {total pos : Nat} {parser : HeaderParser}

private theorem parseByte_inside {line rest : Bytes} {lineStart count : Nat}
    {recorded : HeaderParser}
    (stored : memory.take total = message.text.take total)
    (suffix : message.text.drop lineStart = line ++ [carriageReturn, lineFeed] ++ rest)
    (plain : lineFeed ∉ line) (within : count < line.length + 1)
    (pending : lineStart + count < total) :
    parseByte memory total (lineStart + count)
        (scanBytes recorded lineStart ((line ++ [carriageReturn]).take count)) =
      .ok (some (scanBytes recorded lineStart ((line ++ [carriageReturn]).take (count + 1)))) := by
  have inside : count < (line ++ [carriageReturn]).length := by simpa using within
  let c := (line ++ [carriageReturn])[count]
  have next : (line ++ [carriageReturn]).take (count + 1) =
      (line ++ [carriageReturn]).take count ++ [c] := by
    rw [List.take_succ_eq_append_getElem inside]
  have length : ((line ++ [carriageReturn]).take count).length = count :=
    List.length_take_of_le inside.le
  have cut : message.text.drop lineStart =
      (line ++ [carriageReturn]).take (count + 1) ++
        ((line ++ [carriageReturn]).drop (count + 1) ++ lineFeed :: rest) := by
    rw [← List.append_assoc, List.take_append_drop, suffix]
    simp
  rw [next, List.append_assoc] at cut
  have here : message.text.drop (lineStart + count) =
      [c] ++ ((line ++ [carriageReturn]).drop (count + 1) ++ lineFeed :: rest) := by
    have after := drop_add_of_drop cut
    rwa [length] at after
  obtain ⟨junk, found⟩ := drop_of_take_eq stored here pending
  have notFeed : c ≠ lineFeed := by
    intro isFeed
    have member : c ∈ line ++ [carriageReturn] := List.getElem_mem inside
    rw [isFeed, List.mem_append, List.mem_singleton] at member
    rcases member with inLine | isReturn
    · exact plain inLine
    · exact absurd isReturn (by decide)
  rw [parseByte_plain found notFeed, next, scanBytes_append, length]

private theorem parseByte_end {line rest : Bytes} {lineStart : Nat} {recorded ended : HeaderParser}
    (stored : memory.take total = message.text.take total)
    (suffix : message.text.drop lineStart = line ++ [carriageReturn, lineFeed] ++ rest)
    (nonempty : line ≠ []) (plain : lineFeed ∉ line) (late : 3 ≤ lineStart + line.length + 1)
    (pending : lineStart + line.length + 1 < total)
    (ends : ∀ junk, memory.drop lineStart = line ++ carriageReturn :: junk →
      parseLine memory total (lineStart + line.length + 1)
        (scanBytes recorded lineStart line) = .ok ended) :
    parseByte memory total (lineStart + (line.length + 1))
        (scanBytes recorded lineStart ((line ++ [carriageReturn]).take (line.length + 1))) =
      .ok (some { ended with lineStart := lineStart + line.length + 2, delimiter := none }) := by
  have whole : (line ++ [carriageReturn]).take (line.length + 1) = line ++ [carriageReturn] :=
    List.take_of_length_le (by simp)
  have unchanged : scanBytes (scanBytes recorded lineStart line) (lineStart + line.length)
      [carriageReturn] = scanBytes recorded lineStart line :=
    scanBytes_of_noColon _ _ (by decide)
  obtain ⟨junk, found⟩ := drop_of_take_eq stored suffix (by
    simp only [List.length_append, List.length_cons, List.length_nil]
    omega)
  rw [List.append_assoc] at found
  rw [whole, scanBytes_append, unchanged, ← Nat.add_assoc,
    parseByte_lineFeed found nonempty plain rfl late, ends (lineFeed :: junk) found]
  rfl

private theorem parseByte_statusLine {count : Nat}
    (within : count ≤ message.statusLine.length + 1)
    (stored : memory.take total = message.text.take total) (received : total ≤ memory.length)
    (pending : count < total) :
    ∃ parser', parseByte memory total count .start = .ok (some parser') ∧
      Reading message (count + 1) parser' := by
  have statusLength := message.statusLine_length
  have suffix : message.text.drop 0 = message.statusLine ++ [carriageReturn, lineFeed] ++
      (linesText message.headers ++ crlf ++ message.body) := by
    rw [List.drop_zero, HttpMessage.text, HttpMessage.head]
    simp [crlf]
  have noColon : colonChar ∉ message.statusLine ++ [carriageReturn] := by
    rw [List.mem_append, not_or]
    exact ⟨message.statusNoColon, by decide⟩
  have unread (count : Nat) : scanBytes .start 0
      ((message.statusLine ++ [carriageReturn]).take count) = .start :=
    scanBytes_of_noColon _ _ fun member => noColon (List.mem_of_mem_take member)
  rcases Nat.lt_or_eq_of_le within with inside | atFeed
  · have byte := @parseByte_inside _ memory total _ _ 0 count .start stored suffix
      message.statusNoLineFeed inside (by omega)
    rw [unread, unread, Nat.zero_add] at byte
    exact ⟨_, byte, .statusLine (by omega)⟩
  · subst atFeed
    have byte := @parseByte_end _ memory total _ _ 0 .start .start stored suffix
      (List.ne_nil_of_length_pos (by omega)) message.statusNoLineFeed (by omega) (by omega)
      (fun junk found => by
        rw [List.drop_zero] at found
        rw [scanBytes_of_noColon _ _ message.statusNoColon]
        exact parseLine_status message.notShutdown found received rfl rfl)
    rw [unread, Nat.zero_add] at byte
    refine ⟨_, byte, ?_⟩
    have starts := @Reading.ofStart message [] message.headers rfl
    simpa [HttpMessage.lineStart, HttpMessage.recorded, recordLines, linesText,
      HeaderParser.start] using starts

private theorem parseByte_headerLine {before after : List HeaderLine} {line : HeaderLine}
    {count : Nat} (split : message.headers = before ++ line :: after)
    (within : count ≤ line.text.length + 1)
    (stored : memory.take total = message.text.take total)
    (pending : message.lineStart before + count < total) (short : total < 2 ^ 64) :
    ∃ parser',
      parseByte memory total (message.lineStart before + count)
          (scanBytes (message.recorded before) (message.lineStart before)
            ((line.text ++ [carriageReturn]).take count)) = .ok (some parser') ∧
        Reading message (message.lineStart before + count + 1) parser' := by
  have statusLength := message.statusLine_length
  obtain ⟨rest, suffix⟩ := message.text_drop_line split
  have wellFormed : line.WellFormed :=
    message.headersWellFormed line (split ▸ List.mem_append_right _ List.mem_cons_self)
  rcases Nat.lt_or_eq_of_le within with inside | atFeed
  · have byte := @parseByte_inside _ memory total _ _ _ count (message.recorded before)
      stored suffix wellFormed.field.noLineFeed inside pending
    exact ⟨_, byte, .headerLine split inside⟩
  · subst atFeed
    obtain ⟨colon, delimits, scanned⟩ :=
      wellFormed.field.scanBytes (message.recorded before) (message.lineStart before)
    have late : 3 ≤ message.lineStart before + line.text.length + 1 := by
      unfold HttpMessage.lineStart
      omega
    have byte := @parseByte_end _ memory total _ _ _ (message.recorded before) _ stored
      suffix line.text_ne_nil wellFormed.field.noLineFeed late pending
      (fun junk found => by
        rw [show line.text = line.field.text from rfl, scanned]
        exact parseLine_header total wellFormed (by omega) found
          (@HttpMessage.recorded_starts message before) rfl delimits)
    refine ⟨_, byte, ?_⟩
    rw [line.record_position]
    have ended := @Reading.ofStart message (before ++ [line]) after (by simp [split])
    rw [message.recorded_append] at ended
    have position : message.lineStart (before ++ [line]) =
        message.lineStart before + line.text.length + 2 := by
      simp [HttpMessage.lineStart, linesText, crlf]
      omega
    rw [position] at ended
    exact ended

private theorem parseByte_blankLine {count : Nat} (within : count ≤ 1)
    (stored : memory.take total = message.text.take total)
    (pending : message.lineStart message.headers + count < total) :
    (parseByte memory total (message.lineStart message.headers + count) message.parsed =
        .ok none ∧ message.lineStart message.headers + count + 1 = message.head.length) ∨
      ∃ parser',
        parseByte memory total (message.lineStart message.headers + count) message.parsed =
            .ok (some parser') ∧
          Reading message (message.lineStart message.headers + count + 1) parser' := by
  have statusLength := message.statusLine_length
  have head := message.head_length
  have last : message.head.length - 1 = message.lineStart message.headers + 1 := by
    unfold HttpMessage.lineStart
    omega
  rcases Nat.lt_or_eq_of_le within with inside | atFeed
  · obtain rfl : count = 0 := by omega
    obtain ⟨junk, here⟩ := @drop_of_take_eq _ _ [carriageReturn] _ _ _ stored
      message.text_drop_blank pending
    have byte := @parseByte_plain _ _ total _ message.parsed _ here (by decide)
    exact .inr ⟨_, byte, .blankLine (le_refl 1)⟩
  · subst atFeed
    have suffix := @head_suffix [message.text] message (by simp)
    rw [List.flatten_singleton, last] at suffix
    obtain ⟨junk, here⟩ := drop_of_take_eq stored suffix (by
      simp only [List.length_cons, List.length_nil]
      unfold HttpMessage.lineStart at pending ⊢
      omega)
    have late : 3 ≤ message.lineStart message.headers + 1 := by
      unfold HttpMessage.lineStart
      omega
    exact .inl ⟨parseByte_blank late here, by omega⟩

theorem Reading.next (reading : Reading message pos parser)
    (stored : memory.take total = message.text.take total) (received : total ≤ memory.length)
    (pending : pos < total) (short : total < 2 ^ 64) :
    (parseByte memory total pos parser = .ok none ∧ pos + 1 = message.head.length ∧
      parser = message.parsed) ∨
    ∃ parser', parseByte memory total pos parser = .ok (some parser') ∧
      Reading message (pos + 1) parser' := by
  cases reading with
  | statusLine within => exact .inr (parseByte_statusLine within stored received pending)
  | headerLine split within =>
      exact .inr (parseByte_headerLine split within stored pending short)
  | blankLine within =>
      rcases parseByte_blankLine within stored pending with ⟨byte, ended⟩ | goesOn
      · exact .inl ⟨byte, ended, rfl⟩
      · exact .inr goesOn

end Byte

section Runs

variable {recvBufSize : Nat} {memory : Bytes} {chunks : List Bytes} {state after : HttpState}

/-- A `recv` that leaves room delivers bytes before the buffer is full, and one
that leaves none is the one that fills it. -/
theorem bytesBeforeFull_recv {size : Nat} (chunks : List Bytes)
    (some_ : 0 < (recv chunks size).1.length) :
    ((recv chunks size).1.length < size →
      bytesBeforeFull size chunks = (recv chunks size).1.length +
        bytesBeforeFull (size - (recv chunks size).1.length) (recv chunks size).2) ∧
    (size ≤ (recv chunks size).1.length → bytesBeforeFull size chunks = 0) := by
  cases chunks with
  | nil => exact absurd some_ (Nat.lt_irrefl 0)
  | cons chunk rest =>
      rw [recv, bytesBeforeFull]
      by_cases small : chunk.length ≤ size
      · rw [if_pos small]
        exact ⟨fun room => if_pos room, fun full => if_neg (Nat.not_lt.mpr full)⟩
      · rw [if_neg small]
        have taken : (chunk.take size).length = size :=
          List.length_take_of_le (Nat.le_of_not_le small)
        refine ⟨fun room => absurd taken (Nat.ne_of_lt room), fun _ => if_neg ?_⟩
        omega

/-- Before the blank line: the parser is in the headers, and either the buffer
has room or the `recv` before the last byte parsed has filled it. -/
structure ReadsHeaders (message : HttpMessage) (recvBufSize : Nat) (chunks : List Bytes)
    (state : HttpState) : Prop where
  reading : Reading message state.parsePoint state.parser
  filling : (state.totalBytesReceived < recvBufSize ∧
      bytesBeforeFull recvBufSize chunks = state.totalBytesReceived +
        bytesBeforeFull (recvBufSize - state.totalBytesReceived) state.chunks) ∨
    (state.totalBytesReceived = recvBufSize ∧
      state.parsePoint = bytesBeforeFull recvBufSize chunks + 1)

/-- After it: the headers were read to their end before the buffer was full. -/
structure PastHeaders (message : HttpMessage) (recvBufSize : Nat) (chunks : List Bytes)
    (state : HttpState) : Prop where
  parsed : state.parser = message.parsed
  received : message.head.length ≤ state.totalBytesReceived
  early : message.head.length ≤ bytesBeforeFull recvBufSize chunks + 1

structure Follows (message : HttpMessage) (recvBufSize : Nat) (chunks : List Bytes)
    (state : HttpState) : Prop where
  headers : state.bodyStart = none → ReadsHeaders message recvBufSize chunks state
  body : state.bodyStart ≠ none → PastHeaders message recvBufSize chunks state

theorem Follows.start (positive : 0 < recvBufSize) :
    Follows message recvBufSize chunks (.start memory recvBufSize chunks) where
  headers _ :=
    { reading := .statusLine (Nat.zero_le _)
      filling := .inl ⟨positive, (Nat.zero_add _).symm⟩ }
  body started := absurd rfl started

/-- The byte after those parsed, with the bytes received before the buffer was
full up to it or beyond it. -/
theorem Follows.parseStep (tracks : Tracks recvBufSize message.text state)
    (bounded : recvBufSize < 2 ^ 64) (headers : state.bodyStart = none)
    (pending : state.parsePoint < state.totalBytesReceived)
    (reading : Reading message state.parsePoint state.parser)
    (filling : (state.totalBytesReceived < recvBufSize ∧
        bytesBeforeFull recvBufSize chunks = state.totalBytesReceived +
          bytesBeforeFull (recvBufSize - state.totalBytesReceived) state.chunks) ∨
      (state.totalBytesReceived = recvBufSize ∧
        state.parsePoint = bytesBeforeFull recvBufSize chunks))
    (step : parseStep state = .ok after) : Follows message recvBufSize chunks after := by
  have inBuffer := (tracks.headers headers).2.1
  have byte := reading.next tracks.take_eq tracks.stored pending
    (Nat.lt_of_le_of_lt inBuffer bounded)
  rcases (parseStep_eq_ok_iff _ _).mp step with ⟨parser, parsed, rfl⟩ | ⟨ended, -, rfl⟩
  · obtain ⟨isEnd, -⟩ | ⟨parser', same, next⟩ := byte
    · rw [isEnd] at parsed
      cases parsed
    · rw [same] at parsed
      cases parsed
      refine ⟨fun _ => ⟨next, ?_⟩, fun started => absurd headers started⟩
      exact filling.imp id fun full => ⟨full.1, congrArg (· + 1) full.2⟩
  · obtain ⟨-, position, isParsed⟩ | ⟨parser', same, -⟩ := byte
    · have early : message.head.length ≤ bytesBeforeFull recvBufSize chunks + 1 := by omega
      have received : message.head.length ≤ state.atBody.totalBytesReceived := by
        simp only [HttpState.atBody]
        omega
      have inBody : state.atBody.bodyStart ≠ none := Option.some_ne_none _
      exact ⟨fun phase => (inBody phase).elim, fun _ => ⟨isParsed, received, early⟩⟩
    · rw [ended] at same
      cases same

theorem Follows.pass (tracks : Tracks recvBufSize message.text state)
    (bounded : recvBufSize < 2 ^ 64) (running : state.remain ≠ 0)
    (follows : Follows message recvBufSize chunks state) (pass : Pass state after) :
    Follows message recvBufSize chunks after := by
  cases pass with
  | parsed pending step =>
      have headers := tracks.headers_of_pending pending
      obtain ⟨-, inBuffer, remain, -⟩ := tracks.headers headers
      obtain ⟨reading, room | full⟩ := follows.headers headers
      · exact .parseStep tracks bounded headers pending reading (.inl room) step
      · omega
  | @fetched received _ exhausted arrived headers step =>
      obtain ⟨point, inBuffer, remain, -⟩ := tracks.headers headers
      have tracked := tracks.receive headers arrived
      obtain ⟨some_, -, -, samePhase, samePoint, sameParser⟩ := receive_eq_ok arrived
      obtain ⟨reading, room | full⟩ := follows.headers headers
      · have asked := requestedSize_eq (by omega : 0 ≤ state.remain) (by omega)
        have size : requestedSize state.remain = recvBufSize - state.totalBytesReceived := by
          omega
        obtain ⟨fewer, fills⟩ : (state.delivered.length < requestedSize state.remain →
              bytesBeforeFull (requestedSize state.remain) state.chunks =
                state.delivered.length + bytesBeforeFull
                  (requestedSize state.remain - state.delivered.length) state.undelivered) ∧
            (requestedSize state.remain ≤ state.delivered.length →
              bytesBeforeFull (requestedSize state.remain) state.chunks = 0) :=
          bytesBeforeFull_recv state.chunks some_
        obtain ⟨-, response, -, rfl⟩ := (receive_eq_ok_iff _ _).mp arrived
        refine .parseStep tracked bounded headers ?_ reading ?_ step
        · simp only [HttpState.withReceived]
          omega
        · have total : (state.withReceived response).totalBytesReceived =
              state.totalBytesReceived + state.delivered.length := rfl
          have inTotal := (tracked.headers headers).2.1
          rcases Nat.lt_or_eq_of_le inTotal with below | full
          · have later := fewer (by omega)
            refine .inl ⟨below, ?_⟩
            have left : recvBufSize - (state.withReceived response).totalBytesReceived =
                requestedSize state.remain - state.delivered.length := by omega
            rw [left, room.2, ← size, later, ← Nat.add_assoc]
            rfl
          · have none_ := fills (by omega)
            refine .inr ⟨full, ?_⟩
            rw [room.2, ← size, none_]
            simp only [HttpState.withReceived]
            omega
      · omega
  | @body received exhausted arrived started =>
      obtain ⟨-, total, -, samePhase, -, sameParser⟩ := receive_eq_ok arrived
      have past := follows.body started
      have grown : message.head.length ≤ (state.pastBody received).totalBytesReceived := by
        have before := past.received
        simp only [HttpState.pastBody]
        omega
      refine ⟨fun phase => absurd (samePhase.symm.trans phase) started, fun _ => ?_⟩
      exact ⟨sameParser.trans past.parsed, grown, past.early⟩

private theorem follows_of_reaches (delivered : chunks.flatten = message.text)
    (positive : 0 < recvBufSize) (bounded : recvBufSize < 2 ^ 64)
    (reached : Reaches (httpStep recvBufSize) (.start memory recvBufSize chunks) state) :
    Follows message recvBufSize chunks state := by
  apply reached.invariant
  · intro before after toBefore follows stepped
    obtain ⟨running, -, pass⟩ := (httpStep_eq_next_iff _ _ _).mp stepped
    have tracks := tracks_of_reaches toBefore
    rw [delivered] at tracks
    exact follows.pass tracks bounded running pass
  · exact .start positive

private theorem scanBytes_requestId (parser : HeaderParser) (pos : Nat) (bytes : Bytes) :
    (scanBytes parser pos bytes).awsRequestId = parser.awsRequestId := by
  by_cases found : colonChar ∈ bytes
  · obtain ⟨colon, -, scanned⟩ := scanBytes_of_colon parser pos found
    rw [scanned]
  · rw [scanBytes_of_noColon parser pos found]

private theorem Reading.linesRead {pos : Nat} {parser : HeaderParser}
    (reading : Reading message pos parser) :
    ∃ lines, linesWithin (pos - (message.statusLine.length + 2)) message.headers = lines ∧
      lines <+: message.headers ∧ (lines = [] ∨ message.lineStart lines ≤ pos) ∧
      parser.awsRequestId = (message.recorded lines).awsRequestId := by
  cases reading with
  | statusLine within =>
      have early : pos - (message.statusLine.length + 2) = 0 := by omega
      refine ⟨[], ?_, List.nil_prefix, .inl rfl, rfl⟩
      rw [early]
      cases message.headers with
      | nil => rfl
      | cons line rest => exact if_neg (by omega)
  | @headerLine before after line count split within =>
      have position : message.lineStart before + count - (message.statusLine.length + 2) =
          (linesText before).length + count := by
        unfold HttpMessage.lineStart
        omega
      refine ⟨before, ?_, ⟨_, split.symm⟩, .inr (Nat.le_add_right _ _),
        scanBytes_requestId _ _ _⟩
      rw [position, split]
      exact linesWithin_before within
  | blankLine within =>
      refine ⟨message.headers, linesWithin_all ?_, List.prefix_rfl,
        .inr (Nat.le_add_right _ _), rfl⟩
      unfold HttpMessage.lineStart
      omega

/-- When the helper returns, it identifies the last id in the lines that ended
before the buffer was full. -/
theorem identifies_iff_within {hb : HttpResult} (delivered : chunks.flatten = message.text)
    (positive : 0 < recvBufSize) (bounded : recvBufSize < 2 ^ 64)
    (reached : Reaches (httpStep recvBufSize) (.start memory recvBufSize chunks) state)
    (returned : httpStep recvBufSize state = .halt (.ok hb)) (requestId : Bytes) :
    hb.Identifies requestId ↔
      message.requestIdWithin (bytesBeforeFull recvBufSize chunks + 1) = some requestId := by
  have tracks := tracks_of_reaches reached
  rw [delivered] at tracks
  have follows := follows_of_reaches delivered positive bounded reached
  obtain ⟨finished, finish_⟩ := httpStep_halt_ok returned
  obtain ⟨response, stored, built⟩ := (Outcome.bind_eq_ok_iff _ _ _).mp finish_
  obtain ⟨room, rfl⟩ := (storeAt_eq_ok_iff _ _ _ _).mp stored
  cases built
  have inMemory : (state.response.take state.totalBytesReceived ++ [0] ++
      state.response.drop (state.totalBytesReceived + [0].length)).take
        state.totalBytesReceived = message.text.take state.totalBytesReceived := by
    rw [List.append_assoc, List.take_left' (List.length_take_of_le tracks.stored)]
    exact tracks.take_eq
  unfold HttpMessage.requestIdWithin
  by_cases headers : state.bodyStart = none
  · obtain ⟨point, -, remain, -⟩ := tracks.headers headers
    obtain ⟨reading, room | full⟩ := follows.headers headers
    · omega
    · obtain ⟨lines, isLines, isPrefix, within, recorded⟩ := reading.linesRead
      rw [← full.2, isLines]
      exact message.identifies_recorded isPrefix
        (within.imp id fun within => within.trans point) inMemory recorded requestId
  · obtain ⟨isParsed, received, early⟩ := follows.body headers
    have length := message.head_length
    rw [linesWithin_all (by omega)]
    have inTotal : message.lineStart message.headers ≤ state.totalBytesReceived := by
      unfold HttpMessage.lineStart
      omega
    exact message.identifies_recorded List.prefix_rfl (.inr inTotal) inMemory
      (congrArg HeaderParser.awsRequestId isParsed) requestId

end Runs

end Lambpie.Runtime

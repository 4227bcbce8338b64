/-
Exact recognition of a header block, over whole runs of the receive loop.

Inside a line the parser has only seen colons, so what it knows at the end of a
line is what it knew at its start.  A block is therefore recognised exactly when
every line that a run gets to the end of is told apart there.
-/
import Lambpie.Runtime.HeaderFields
import Lambpie.Runtime.HttpComplete

namespace Lambpie.Runtime

open Foundations

/-! ### Header blocks -/

def fieldsText (fields : List HeaderField) : Bytes :=
  fields.flatMap fun field => field.text ++ crlf

structure HeaderBlock where
  statusLine : Bytes
  fields : List HeaderField
  version : asciiBytes "HTTP/" <+: statusLine
  statusNoLineFeed : lineFeed ∉ statusLine
  wellFormed : ∀ field ∈ fields, field.WellFormed
  distinct : (fields.map HeaderField.name).Nodup

def HeaderBlock.front (block : HeaderBlock) (done : List HeaderField) : Bytes :=
  block.statusLine ++ crlf ++ fieldsText done

def HeaderBlock.text (block : HeaderBlock) : Bytes :=
  block.front block.fields ++ crlf

def HeaderBlock.lineStart (block : HeaderBlock) (done : List HeaderField) :
    Nat :=
  (block.front done).length

/-- What the header lines parsed say: the number in the line named
Content-Length, the place of the value in the line named
Lambda-Runtime-Aws-Request-Id, and nothing where the line is absent. -/
structure HeaderBlock.Recorded (block : HeaderBlock) (done : List HeaderField)
    (parser : HeaderParser) : Prop where
  length : ∀ field ∈ done, field.name = contentLengthName →
    parser.contentLength = numberOf field.value
  noLength : (∀ field ∈ done, field.name ≠ contentLengthName) →
    parser.contentLength = HeaderParser.start.contentLength
  requestId : ∀ before field after, done = before ++ field :: after →
    field.name = requestIdName →
      parser.awsRequestId = some
        { start := block.lineStart before + field.name.length + 2
          len := field.value.length }
  noRequestId : (∀ field ∈ done, field.name ≠ requestIdName) →
    parser.awsRequestId = none

private theorem fieldsText_concat (done : List HeaderField) (field : HeaderField) :
    fieldsText (done ++ [field]) = fieldsText done ++ field.text ++ crlf := by
  simp [fieldsText]

private theorem HeaderBlock.front_concat (block : HeaderBlock) (done : List HeaderField)
    (field : HeaderField) :
    block.front (done ++ [field]) = block.front done ++ field.text ++ crlf := by
  rw [HeaderBlock.front, HeaderBlock.front, fieldsText_concat]
  simp only [List.append_assoc]

private theorem HeaderBlock.lineStart_concat (block : HeaderBlock)
    (done : List HeaderField) (field : HeaderField) :
    block.lineStart (done ++ [field]) =
      block.lineStart done + field.text.length + 2 := by
  rw [HeaderBlock.lineStart, block.front_concat, List.length_append,
    List.length_append]
  rfl

private theorem HeaderBlock.lineStart_nil (block : HeaderBlock) :
    block.lineStart [] = block.statusLine.length + 2 := by
  rw [HeaderBlock.lineStart, HeaderBlock.front, List.length_append,
    List.length_append]
  rfl

theorem HeaderBlock.late (block : HeaderBlock) (done : List HeaderField) :
    7 ≤ block.lineStart done := by
  have version := block.version.length_le
  have five : (asciiBytes "HTTP/").length = 5 := rfl
  rw [HeaderBlock.lineStart, HeaderBlock.front, List.length_append,
    List.length_append]
  have two : crlf.length = 2 := rfl
  omega

/-- The parser after the first header lines of a run that recognises them. -/
def recordFields (pos : Nat) (parser : HeaderParser) :
    List HeaderField → HeaderParser
  | [] => parser
  | field :: rest =>
      recordFields (pos + field.text.length + 2) (field.record pos parser) rest

def HeaderBlock.recorded (block : HeaderBlock) (done : List HeaderField) :
    HeaderParser :=
  recordFields (block.lineStart []) .start done

private theorem recordFields_concat (pos : Nat) (parser : HeaderParser)
    (done : List HeaderField) (field : HeaderField) :
    recordFields pos parser (done ++ [field]) =
      field.record (pos + (fieldsText done).length)
        (recordFields pos parser done) := by
  induction done generalizing pos parser with
  | nil => rfl
  | cons first done ih =>
      have length : (fieldsText (first :: done)).length =
          first.text.length + 2 + (fieldsText done).length := by
        rw [fieldsText, List.flatMap_cons, List.length_append,
          List.length_append]
        rfl
      rw [List.cons_append, recordFields, recordFields, ih, length]
      congr 1
      omega

private theorem HeaderBlock.recorded_concat (block : HeaderBlock)
    (done : List HeaderField) (field : HeaderField) :
    block.recorded (done ++ [field]) =
      field.record (block.lineStart done) (block.recorded done) := by
  have length : block.lineStart [] + (fieldsText done).length =
      block.lineStart done := by
    rw [block.lineStart_nil, HeaderBlock.lineStart, HeaderBlock.front,
      List.length_append, List.length_append]
    rfl
  rw [HeaderBlock.recorded, recordFields_concat, length]
  rfl

/-! ### What a recognised block records -/

private theorem HeaderField.record_length {field : HeaderField} {lineStart : Nat}
    {parser : HeaderParser} (named : field.name = contentLengthName) :
    (field.record lineStart parser).contentLength = numberOf field.value ∧
      (field.record lineStart parser).awsRequestId = parser.awsRequestId := by
  rw [HeaderField.record, if_pos named]
  exact ⟨rfl, rfl⟩

private theorem HeaderField.record_requestId {field : HeaderField} {lineStart : Nat}
    {parser : HeaderParser} (named : field.name = requestIdName) :
    (field.record lineStart parser).contentLength = parser.contentLength ∧
      (field.record lineStart parser).awsRequestId = some
        { start := lineStart + field.name.length + 2
          len := field.value.length } := by
  have other : field.name ≠ contentLengthName := by
    rw [named]
    decide
  rw [HeaderField.record, if_neg other, if_pos named]
  exact ⟨rfl, rfl⟩

private theorem HeaderField.record_other {field : HeaderField} {lineStart : Nat}
    {parser : HeaderParser} (notLength : field.name ≠ contentLengthName)
    (notId : field.name ≠ requestIdName) :
    field.record lineStart parser = parser := by
  rw [HeaderField.record, if_neg notLength, if_neg notId]

private theorem HeaderField.record_keepsLength {field : HeaderField} {lineStart : Nat}
    {parser : HeaderParser} (notLength : field.name ≠ contentLengthName) :
    (field.record lineStart parser).contentLength = parser.contentLength := by
  by_cases isId : field.name = requestIdName
  · exact (record_requestId isId).1
  · rw [record_other notLength isId]

private theorem HeaderField.record_keepsId {field : HeaderField} {lineStart : Nat}
    {parser : HeaderParser} (notId : field.name ≠ requestIdName) :
    (field.record lineStart parser).awsRequestId = parser.awsRequestId := by
  by_cases isLength : field.name = contentLengthName
  · exact (record_length isLength).2
  · rw [record_other isLength notId]

theorem HeaderBlock.Recorded.record {block : HeaderBlock}
    {done : List HeaderField} {parser : HeaderParser} {field : HeaderField}
    (recorded : block.Recorded done parser)
    (fresh : field.name ∉ done.map HeaderField.name) :
    block.Recorded (done ++ [field])
      (field.record (block.lineStart done) parser) := by
  have otherName (other : HeaderField) (member : other ∈ done) :
      other.name ≠ field.name := by
    intro same
    exact fresh (same ▸ List.mem_map_of_mem member)
  refine { length := ?_, noLength := ?_, requestId := ?_, noRequestId := ?_ }
  · intro other member named
    rcases List.mem_append.mp member with earlier | last
    · have notLength : field.name ≠ contentLengthName :=
        fun same => otherName other earlier (named.trans same.symm)
      rw [field.record_keepsLength notLength]
      exact recorded.length other earlier named
    · cases List.mem_singleton.mp last
      exact (HeaderField.record_length named).1
  · intro none
    have notLength := none field (List.mem_append_right _ List.mem_cons_self)
    rw [field.record_keepsLength notLength]
    exact recorded.noLength fun other member =>
      none other (List.mem_append_left _ member)
  · intro before other after split named
    rcases List.eq_nil_or_concat after with rfl | ⟨after, last, rfl⟩
    · obtain ⟨rfl, same⟩ := List.append_inj' split rfl
      cases same
      exact (HeaderField.record_requestId named).2
    · have regrouped : done ++ [field] =
          (before ++ other :: after) ++ [last] := by
        rw [split]
        simp
      obtain ⟨same, ends⟩ := List.append_inj' regrouped rfl
      cases ends
      have earlier : other ∈ done := by
        rw [same]
        exact List.mem_append_right _ List.mem_cons_self
      have notId : field.name ≠ requestIdName :=
        fun isId => otherName other earlier (named.trans isId.symm)
      rw [field.record_keepsId notId]
      exact recorded.requestId before other after same named
  · intro none
    have notId := none field (List.mem_append_right _ List.mem_cons_self)
    rw [field.record_keepsId notId]
    exact recorded.noRequestId fun other member =>
      none other (List.mem_append_left _ member)

theorem HeaderBlock.Recorded.start (block : HeaderBlock) :
    block.Recorded [] .start where
  length := by
    intro field member
    cases member
  noLength := fun _ => rfl
  requestId := by
    intro before field after split
    exact absurd split (by simp)
  noRequestId := fun _ => rfl

private theorem HeaderBlock.recorded_recorded (block : HeaderBlock)
    {done : List HeaderField} (distinct : (done.map HeaderField.name).Nodup) :
    block.Recorded done (block.recorded done) := by
  induction done using List.reverseRecOn with
  | nil => exact .start block
  | append_singleton done field ih =>
      rw [List.map_append, List.nodup_append] at distinct
      rw [block.recorded_concat]
      have fresh : field.name ∉ done.map HeaderField.name := by
        intro member
        exact distinct.2.2 _ member _ List.mem_cons_self rfl
      exact (ih distinct.1).record fresh

theorem HeaderBlock.Recorded.unique {block : HeaderBlock}
    {done : List HeaderField} {left right : HeaderParser}
    (ofLeft : block.Recorded done left) (ofRight : block.Recorded done right) :
    left.contentLength = right.contentLength ∧
      left.awsRequestId = right.awsRequestId := by
  constructor
  · by_cases present : ∃ field ∈ done, field.name = contentLengthName
    · obtain ⟨field, member, named⟩ := present
      rw [ofLeft.length field member named, ofRight.length field member named]
    · have absent : ∀ field ∈ done, field.name ≠ contentLengthName :=
        fun field member named => present ⟨field, member, named⟩
      rw [ofLeft.noLength absent, ofRight.noLength absent]
  · by_cases present : ∃ field ∈ done, field.name = requestIdName
    · obtain ⟨field, member, named⟩ := present
      obtain ⟨before, after, split⟩ := List.append_of_mem member
      rw [ofLeft.requestId before field after split named,
        ofRight.requestId before field after split named]
    · have absent : ∀ field ∈ done, field.name ≠ requestIdName :=
        fun field member named => present ⟨field, member, named⟩
      rw [ofLeft.noRequestId absent, ofRight.noRequestId absent]

theorem HeaderBlock.Recorded.congr {block : HeaderBlock}
    {done : List HeaderField} {left right : HeaderParser}
    (recorded : block.Recorded done left)
    (length : left.contentLength = right.contentLength)
    (requestId : left.awsRequestId = right.awsRequestId) :
    block.Recorded done right where
  length := length ▸ recorded.length
  noLength := length ▸ recorded.noLength
  requestId := requestId ▸ recorded.requestId
  noRequestId := requestId ▸ recorded.noRequestId

private theorem HeaderBlock.recorded_idBefore (block : HeaderBlock)
    (done : List HeaderField) :
    (block.recorded done).IdBefore (block.lineStart done) := by
  induction done using List.reverseRecOn with
  | nil =>
      intro slice recorded
      cases recorded
  | append_singleton done field ih =>
      intro slice recorded
      rw [block.recorded_concat] at recorded
      rw [block.lineStart_concat]
      by_cases isId : field.name = requestIdName
      · rw [(HeaderField.record_requestId isId).2] at recorded
        cases recorded
        rw [field.text_length]
        simp only
        omega
      · rw [field.record_keepsId isId] at recorded
        have earlier := ih slice recorded
        omega

/-! ### The lines of a block in the stream -/

/-- Where a line of the block starts, what is recorded before it, and its
bytes. -/
inductive HeaderBlock.LineAt (block : HeaderBlock) :
    Nat → HeaderParser → Bytes → Prop where
  | status : LineAt block 0 .start block.statusLine
  | field {done rest : List HeaderField} {field : HeaderField}
      (split : block.fields = done ++ field :: rest) :
      LineAt block (block.lineStart done) (block.recorded done) field.text
  | blank :
      LineAt block (block.lineStart block.fields) (block.recorded block.fields)
        []

section Lines

variable {block : HeaderBlock} {stream : Bytes}

private theorem HeaderBlock.text_eq_front (done rest : List HeaderField)
    (split : block.fields = done ++ rest) :
    block.text = block.front done ++ (fieldsText rest ++ crlf) := by
  rw [HeaderBlock.text, HeaderBlock.front, HeaderBlock.front, split, fieldsText,
    List.flatMap_append]
  simp only [fieldsText, List.append_assoc]

theorem HeaderBlock.LineAt.drop {start : Nat} {base : HeaderParser}
    {line : Bytes} (lineAt : block.LineAt start base line)
    (delivers : block.text <+: stream) :
    ∃ rest,
      stream.drop start = line ++ carriageReturn :: lineFeed :: rest := by
  obtain ⟨tail, rfl⟩ := delivers
  cases lineAt with
  | status =>
      refine ⟨fieldsText block.fields ++ crlf ++ tail, ?_⟩
      rw [List.drop_zero, HeaderBlock.text, HeaderBlock.front]
      simp [crlf]
  | @field done rest field split =>
      refine ⟨fieldsText rest ++ crlf ++ tail, ?_⟩
      rw [HeaderBlock.text_eq_front done (field :: rest) split,
        List.append_assoc, HeaderBlock.lineStart, List.drop_left]
      simp [fieldsText, crlf]
  | blank =>
      refine ⟨tail, ?_⟩
      rw [HeaderBlock.text, List.append_assoc, HeaderBlock.lineStart,
        List.drop_left]
      rfl

theorem HeaderBlock.LineAt.noLineFeed {start : Nat} {base : HeaderParser}
    {line : Bytes} (lineAt : block.LineAt start base line) :
    lineFeed ∉ line := by
  cases lineAt with
  | status => exact block.statusNoLineFeed
  | @field done rest field split =>
      have member : field ∈ block.fields := by
        rw [split]
        exact List.mem_append_right _ List.mem_cons_self
      exact (block.wellFormed field member).noLineFeed
  | blank => exact List.not_mem_nil

private theorem HeaderBlock.statusLine_ne_nil (block : HeaderBlock) :
    block.statusLine ≠ [] := by
  have version := block.version.length_le
  have five : (asciiBytes "HTTP/").length = 5 := rfl
  apply List.ne_nil_of_length_pos
  omega

private theorem HeaderBlock.LineAt.eq_blank {start : Nat} {base : HeaderParser}
    {line : Bytes} (lineAt : block.LineAt start base line)
    (empty : line = []) : base = block.recorded block.fields := by
  cases lineAt with
  | status => exact absurd empty block.statusLine_ne_nil
  | @field done rest field split => exact absurd empty field.text_ne_nil
  | blank => rfl

theorem HeaderBlock.LineAt.byte {start : Nat} {base : HeaderParser}
    {line : Bytes} (lineAt : block.LineAt start base line)
    (delivers : block.text <+: stream) {pos : Nat} (low : start ≤ pos) :
    (pos < start + line.length → stream[pos]? = (line)[pos - start]?) ∧
      (pos = start + line.length → stream[pos]? = some carriageReturn) ∧
      (pos = start + line.length + 1 → stream[pos]? = some lineFeed) := by
  obtain ⟨rest, suffix⟩ := lineAt.drop delivers
  have index : stream[pos]? =
      (line ++ carriageReturn :: lineFeed :: rest)[pos - start]? := by
    rw [← suffix, List.getElem?_drop, Nat.add_sub_cancel' low]
  rw [index]
  refine ⟨?_, ?_, ?_⟩
  · intro inside
    exact List.getElem?_append_left (by omega)
  · intro atReturn
    have offset : pos - start = line.length := by omega
    rw [offset, List.getElem?_append_right (Nat.le_refl _), Nat.sub_self]
    rfl
  · intro atFeed
    have offset : pos - start = line.length + 1 := by omega
    rw [offset, List.getElem?_append_right (Nat.le_add_right _ 1),
      Nat.add_sub_cancel_left]
    rfl

private theorem HeaderBlock.exists_lineAt {pos : Nat}
    (inside : pos < block.lineStart block.fields + 2) :
    ∃ start base line, block.LineAt start base line ∧ start ≤ pos ∧
      pos ≤ start + line.length + 1 := by
  by_cases atBlank : block.lineStart block.fields ≤ pos
  · exact ⟨_, _, _, .blank, atBlank, by simp only [List.length_nil]; omega⟩
  · have found : ∀ done rest, block.fields = done ++ rest →
        pos < block.lineStart done →
          ∃ start base line, block.LineAt start base line ∧ start ≤ pos ∧
            pos ≤ start + line.length + 1 := by
      intro done
      induction done using List.reverseRecOn with
      | nil =>
          intro rest _ before
          rw [block.lineStart_nil] at before
          exact ⟨_, _, _, .status, Nat.zero_le _, by omega⟩
      | append_singleton done field ih =>
          intro rest split before
          rw [List.append_assoc] at split
          rw [block.lineStart_concat] at before
          by_cases earlier : pos < block.lineStart done
          · exact ih _ split earlier
          · exact ⟨_, _, _, .field split, Nat.not_lt.mp earlier, by omega⟩
    exact found block.fields [] (List.append_nil _).symm (Nat.not_le.mp atBlank)

private theorem HeaderBlock.front_ends (block : HeaderBlock)
    (done : List HeaderField) : ∃ front, block.front done = front ++ crlf := by
  rcases List.eq_nil_or_concat done with rfl | ⟨done, field, rfl⟩
  · exact ⟨block.statusLine, by simp [HeaderBlock.front, fieldsText]⟩
  · rw [List.concat_eq_append, block.front_concat]
    exact ⟨_, rfl⟩

private theorem HeaderBlock.blankLineEnds (delivers : block.text <+: stream) :
    BlankLineEnds stream (block.lineStart block.fields + 2) := by
  have late := block.late block.fields
  obtain ⟨front, ends⟩ := block.front_ends block.fields
  have start : block.lineStart block.fields = front.length + 2 := by
    rw [HeaderBlock.lineStart, ends, List.length_append]
    rfl
  obtain ⟨tail, rfl⟩ := delivers
  have suffix : (block.text ++ tail).drop front.length =
      carriageReturn :: lineFeed :: carriageReturn :: lineFeed :: tail := by
    rw [HeaderBlock.text, ends, List.append_assoc, List.append_assoc,
      List.drop_left]
    rfl
  have byte (offset : Nat) : (block.text ++ tail)[front.length + offset]? =
      (carriageReturn :: lineFeed :: carriageReturn :: lineFeed ::
        tail)[offset]? := by
    rw [← suffix, List.getElem?_drop]
  rw [start] at late ⊢
  exact { late := by omega, lineEnd := byte 1, return_ := byte 2, feed := byte 3 }

private theorem HeaderBlock.LineAt.eq_of_blankLineEnds {start pos : Nat}
    {base : HeaderParser} {line : Bytes} (lineAt : block.LineAt start base line)
    (delivers : block.text <+: stream) (low : start ≤ pos)
    (high : pos ≤ start + line.length + 1)
    (ends : BlankLineEnds stream (pos + 1)) :
    line = [] ∧ pos = start + 1 := by
  have feed := ends.feed
  have lineEnd := ends.lineEnd
  rw [Nat.add_sub_cancel] at feed
  rw [Nat.add_sub_add_right pos 1 2] at lineEnd
  have byte := lineAt.byte delivers low
  have atFeed : pos = start + line.length + 1 := by
    rcases Nat.lt_trichotomy pos (start + line.length) with inside | here | after
    · have found := (byte.1 inside).symm.trans feed
      exact absurd (List.mem_of_getElem? found) lineAt.noLineFeed
    · have found := (byte.2.1 here).symm.trans feed
      exact absurd (Option.some.inj found) (by decide)
    · omega
  cases line with
  | nil => exact ⟨rfl, atFeed⟩
  | cons c rest =>
      rw [List.length_cons] at atFeed
      have low : start ≤ pos - 2 := by omega
      have inside := (lineAt.byte delivers low).1
        (by rw [List.length_cons]; omega)
      exact absurd (List.mem_of_getElem? (inside.symm.trans lineEnd))
        lineAt.noLineFeed

end Lines

/-! ### One pass in the headers -/

/-- A pass that parses the byte at the state's position, in the state after
its `recv`. -/
structure HeaderPass (recvBufSize : Nat) (stream : Bytes)
    (state fetched : HttpState) (result : Option HeaderParser) : Prop where
  fetch : state.fetched recvBufSize = .ok fetched
  tracks : Tracks recvBufSize stream fetched
  headers : state.bodyStart = none
  point : fetched.parsePoint = state.parsePoint
  parser : fetched.parser = state.parser
  pending : state.parsePoint < fetched.totalBytesReceived
  inside : state.parsePoint < recvBufSize
  byte : parseByte fetched.response fetched.totalBytesReceived state.parsePoint
    state.parser = .ok result

section Passes

variable {recvBufSize : Nat} {stream : Bytes}

private theorem headerPass_of_parseStep {state fetched after : HttpState}
    (fetch : state.fetched recvBufSize = .ok fetched)
    (tracks : Tracks recvBufSize stream fetched)
    (headers : state.bodyStart = none)
    (point : fetched.parsePoint = state.parsePoint)
    (parser : fetched.parser = state.parser)
    (pending : state.parsePoint < fetched.totalBytesReceived)
    (inside : state.parsePoint < recvBufSize)
    (step : parseStep fetched = .ok after) :
    ∃ result, HeaderPass recvBufSize stream state fetched result ∧
      ((∃ parser, result = some parser ∧ after = fetched.pastByte parser) ∨
        (result = none ∧ after = fetched.atBody)) := by
  rcases (parseStep_eq_ok_iff _ _).mp step with
    ⟨found, byte, rfl⟩ | ⟨byte, -, rfl⟩
  · rw [point, parser] at byte
    exact ⟨some found, ⟨fetch, tracks, headers, point, parser, pending, inside,
      byte⟩, Or.inl ⟨found, rfl, rfl⟩⟩
  · rw [point, parser] at byte
    exact ⟨none, ⟨fetch, tracks, headers, point, parser, pending, inside, byte⟩,
      Or.inr ⟨rfl, rfl⟩⟩

private theorem Tracks.headerPass {state after : HttpState}
    (tracks : Tracks recvBufSize stream state)
    (headers : state.bodyStart = none)
    (stepped : httpStep recvBufSize state = .next after) :
    ∃ fetched result, HeaderPass recvBufSize stream state fetched result ∧
      ((∃ parser, result = some parser ∧ after = fetched.pastByte parser) ∨
        (result = none ∧ after = fetched.atBody)) := by
  obtain ⟨running, inside, pass⟩ := (httpStep_eq_next_iff _ _ _).mp stepped
  cases pass with
  | parsed pending step =>
      have fetch : state.fetched recvBufSize = .ok state := by
        rw [HttpState.fetched, if_neg]
        rintro ⟨-, -, exhausted⟩
        omega
      exact ⟨state, headerPass_of_parseStep fetch tracks headers rfl rfl pending
        inside step⟩
  | @fetched received _ exhausted arrived _ step =>
      have fetch : state.fetched recvBufSize = .ok received := by
        rw [HttpState.fetched, if_pos ⟨running, inside, exhausted⟩, arrived]
      obtain ⟨some_, total, -, -, samePoint, sameParser⟩ :=
        receive_eq_ok arrived
      have point := (tracks.headers headers).1
      exact ⟨received, headerPass_of_parseStep fetch
        (tracks.receive headers arrived) headers samePoint sameParser (by omega)
        inside step⟩
  | body exhausted arrived started => exact absurd headers started

private theorem httpStep_body {state after : HttpState}
    (tracks : Tracks recvBufSize stream state) (started : state.bodyStart ≠ none)
    (stepped : httpStep recvBufSize state = .next after) :
    after.parser = state.parser ∧ after.bodyStart = state.bodyStart := by
  have pass := ((httpStep_eq_next_iff _ _ _).mp stepped).2.2
  cases pass with
  | parsed pending step =>
      exact absurd (tracks.headers_of_pending pending) started
  | fetched exhausted arrived headers step => exact absurd headers started
  | @body received exhausted arrived _ =>
      obtain ⟨-, -, -, samePhase, -, sameParser⟩ := receive_eq_ok arrived
      exact ⟨sameParser, samePhase⟩

theorem HeaderPass.memory {state fetched : HttpState}
    {result : Option HeaderParser}
    (pass : HeaderPass recvBufSize stream state fetched result) {pos : Nat}
    (within : pos < fetched.totalBytesReceived) :
    fetched.response[pos]? = stream[pos]? := by
  rw [← List.getElem?_take_of_lt within, pass.tracks.take_eq,
    List.getElem?_take_of_lt within]

private theorem parseByte_of_ne_lineFeed {memory : Bytes} {total pos : Nat}
    {parser : HeaderParser} {c : UInt8} (here : memory[pos]? = some c)
    (other : c ≠ lineFeed) :
    parseByte memory total pos parser =
      .ok (some (scanBytes parser pos [c])) := by
  rw [parseByte, (charAt_eq_ok_iff _ _ _).mpr here, Outcome.ok_bind, scanBytes,
    scanBytes]
  by_cases colon : c = colonChar
  · rw [if_pos colon, if_pos colon]
    rfl
  · rw [if_neg colon, if_neg colon, if_neg other]
    rfl

variable {block : HeaderBlock}

/-- The parser inside a line: what was recorded before it, and the last colon
seen. -/
def HeaderParser.within (base : HeaderParser) (start : Nat) (seen : Bytes) :
    HeaderParser :=
  scanBytes { base with lineStart := start, delimiter := none } start seen

private theorem HeaderPass.in_line {state fetched : HttpState}
    {result : Option HeaderParser} {start : Nat} {base : HeaderParser}
    {line : Bytes}
    (pass : HeaderPass recvBufSize stream state fetched result)
    (delivers : block.text <+: stream) (lineAt : block.LineAt start base line)
    (low : start ≤ state.parsePoint)
    (high : state.parsePoint ≤ start + line.length)
    (known : state.parser =
      base.within start (line.take (state.parsePoint - start))) :
    result = some
      (base.within start (line.take (state.parsePoint + 1 - start))) := by
  have memory := pass.memory pass.pending
  have byte := lineAt.byte delivers low
  have parsed := pass.byte
  rcases Nat.lt_or_eq_of_le high with inside | atReturn
  · obtain ⟨c, here⟩ : ∃ c, (line)[state.parsePoint - start]? = some c :=
      ⟨_, List.getElem?_eq_getElem (by omega)⟩
    have other : c ≠ lineFeed := by
      rintro rfl
      exact lineAt.noLineFeed (List.mem_of_getElem? here)
    rw [parseByte_of_ne_lineFeed (memory.trans ((byte.1 inside).trans here)) other,
      known] at parsed
    have next : state.parsePoint + 1 - start =
        state.parsePoint - start + 1 := by omega
    have length : start + (line.take (state.parsePoint - start)).length =
        state.parsePoint := by
      rw [List.length_take]
      omega
    rw [next, List.take_add_one, here, Option.toList_some, HeaderParser.within,
      scanBytes_append, length]
    exact (Outcome.ok.inj parsed).symm
  · have here := memory.trans (byte.2.1 atReturn)
    rw [parseByte_of_ne_lineFeed here (by decide), known] at parsed
    have whole : line.take (state.parsePoint - start) = line :=
      List.take_of_length_le (by omega)
    have wholeNext : line.take (state.parsePoint + 1 - start) = line :=
      List.take_of_length_le (by omega)
    have noColon : colonChar ∉ [carriageReturn] := by decide
    rw [whole, scanBytes_of_noColon _ _ noColon] at parsed
    rw [wholeNext]
    exact (Outcome.ok.inj parsed).symm

private theorem HeaderPass.at_feed {state fetched : HttpState}
    {result : Option HeaderParser} {start : Nat} {base : HeaderParser}
    {line : Bytes}
    (pass : HeaderPass recvBufSize stream state fetched result)
    (delivers : block.text <+: stream) (lineAt : block.LineAt start base line)
    (nonempty : line ≠ []) (atFeed : state.parsePoint = start + line.length + 1)
    (known : state.parser =
      base.within start (line.take (state.parsePoint - start))) :
    (∃ junk, fetched.response.drop start =
        line ++ carriageReturn :: lineFeed :: junk) ∧
      ∃ ended,
        parseLine fetched.response fetched.totalBytesReceived
            (start + line.length + 1) (base.within start line) = .ok ended ∧
          result = some { ended with
            lineStart := state.parsePoint + 1, delimiter := none } := by
  have pending := pass.pending
  have parsed := pass.byte
  obtain ⟨rest, suffix⟩ := lineAt.drop delivers
  have withBreak : stream.drop start =
      (line ++ [carriageReturn, lineFeed]) ++ rest := by
    rw [suffix, List.append_assoc]
    rfl
  obtain ⟨junk, here⟩ := drop_of_take_eq pass.tracks.take_eq withBreak (by
    simp only [List.length_append, List.length_cons, List.length_nil]
    omega)
  rw [List.append_assoc] at here
  have late : 3 ≤ state.parsePoint := by
    cases lineAt with
    | status =>
        have version := block.version.length_le
        have five : (asciiBytes "HTTP/").length = 5 := rfl
        omega
    | @field done rest field split =>
        have first := block.late done
        omega
    | blank => exact absurd rfl nonempty
  have whole : line.take (state.parsePoint - start) = line :=
    List.take_of_length_le (by omega)
  rw [parseByte_lineFeed here nonempty lineAt.noLineFeed atFeed late, known, whole,
    Outcome.bind_eq_ok_iff] at parsed
  obtain ⟨ended, line, built⟩ := parsed
  cases built
  refine ⟨⟨junk, here⟩, ended, ?_, rfl⟩
  rwa [← atFeed]

end Passes

/-! ### Runs over a block -/

section Runs

variable {recvBufSize : Nat} {stream : Bytes} {block : HeaderBlock}

/-- The parser of a state in the block, wherever it is. -/
def HeaderBlock.Knows (block : HeaderBlock) (state : HttpState) : Prop :=
  ∀ start base line, block.LineAt start base line →
    start ≤ state.parsePoint → state.parsePoint ≤ start + line.length + 1 →
      state.parser =
        base.within start (line.take (state.parsePoint - start))

theorem HeaderBlock.LineAt.follows {start : Nat} {base : HeaderParser}
    {line : Bytes} (lineAt : block.LineAt start base line) (later : start ≠ 0) :
    ∃ done rest, block.fields = done ++ rest ∧ start = block.lineStart done ∧
      base = block.recorded done := by
  cases lineAt with
  | status => exact absurd rfl later
  | field split => exact ⟨_, _, split, rfl, rfl⟩
  | blank => exact ⟨_, _, (List.append_nil _).symm, rfl, rfl⟩

private theorem HeaderBlock.lineAt_done (block : HeaderBlock)
    {done rest : List HeaderField} (split : block.fields = done ++ rest) :
    ∃ line,
      block.LineAt (block.lineStart done) (block.recorded done) line := by
  cases rest with
  | nil =>
      rw [List.append_nil] at split
      rw [← split]
      exact ⟨_, .blank⟩
  | cons field rest => exact ⟨_, .field split⟩

private theorem HeaderBlock.exists_previous (block : HeaderBlock)
    {done rest : List HeaderField} (split : block.fields = done ++ rest) :
    ∃ start base line, block.LineAt start base line ∧ line ≠ [] ∧
      block.lineStart done = start + line.length + 2 := by
  rcases List.eq_nil_or_concat done with rfl | ⟨done, field, rfl⟩
  · rw [block.lineStart_nil]
    exact ⟨_, _, _, .status, block.statusLine_ne_nil, by omega⟩
  · rw [List.concat_eq_append, List.append_assoc] at split
    rw [List.concat_eq_append, block.lineStart_concat]
    exact ⟨_, _, _, .field split, field.text_ne_nil, rfl⟩

private theorem HeaderParser.within_nil (base : HeaderParser) (start : Nat) :
    base.within start [] =
      { base with lineStart := start, delimiter := none } :=
  rfl

/-- One step keeps the parser known when the ends of lines leave what they
should. -/
theorem HeaderBlock.Knows.step {state after : HttpState}
    (knows : block.Knows state) (tracks : Tracks recvBufSize stream state)
    (delivers : block.text <+: stream) (headers : state.bodyStart = none)
    (stepped : httpStep recvBufSize state = .next after)
    (open_ : after.bodyStart = none)
    (exactEnds : ∀ done rest, block.fields = done ++ rest →
      after.parsePoint = block.lineStart done →
        after.parser.contentLength = (block.recorded done).contentLength ∧
          after.parser.awsRequestId = (block.recorded done).awsRequestId) :
    block.Knows after := by
  obtain ⟨fetched, result, pass, ⟨parser, rfl, rfl⟩ | ⟨rfl, rfl⟩⟩ :=
    tracks.headerPass headers stepped
  · intro start base line lineAt low high
    have next : (fetched.pastByte parser).parsePoint = state.parsePoint + 1 := by
      rw [HttpState.pastByte, pass.point]
    rw [next] at low high ⊢
    by_cases here : start = state.parsePoint + 1
    · obtain ⟨done, rest, split, atDone, rfl⟩ := lineAt.follows (by omega)
      obtain ⟨previous, earlier, line', previousAt, nonempty, follows⟩ :=
        block.exists_previous split
      have atFeed : state.parsePoint = previous + line'.length + 1 := by omega
      have known := knows _ _ _ previousAt (by omega) (by omega)
      obtain ⟨-, ended, -, rest'⟩ :=
        pass.at_feed delivers previousAt nonempty atFeed known
      obtain ⟨length, requestId⟩ :=
        exactEnds done rest split (by rw [next, ← here, atDone])
      have built := Option.some.inj rest'
      rw [here, Nat.sub_self, List.take_zero, HeaderParser.within_nil]
      change parser.contentLength = _ at length
      change parser.awsRequestId = _ at requestId
      change parser = _
      rw [← length, ← requestId, built]
    · have known := knows _ _ _ lineAt (by omega) (by omega)
      have inLine := pass.in_line delivers lineAt (by omega) (by omega) known
      exact Option.some.inj inLine
  · cases open_

theorem HeaderBlock.Knows.start (block : HeaderBlock) (response : Bytes)
    (chunks : List Bytes) :
    block.Knows (.start response recvBufSize chunks) := by
  intro start base line lineAt low high
  have zero : start = 0 := Nat.le_zero.mp low
  cases lineAt with
  | status => rfl
  | @field done rest field split =>
      have late := block.late done
      omega
  | blank =>
      have late := block.late block.fields
      omega

/-! ### The end of a line, exactly -/

theorem HeaderField.record_position (field : HeaderField)
    (lineStart pos : Nat) (parser : HeaderParser) (delimiter : Option Nat) :
    field.record lineStart { parser with lineStart := pos, delimiter } =
      { field.record lineStart parser with lineStart := pos, delimiter } := by
  unfold HeaderField.record
  by_cases isLength : field.name = contentLengthName
  · rw [if_pos isLength, if_pos isLength]
  · rw [if_neg isLength, if_neg isLength]
    by_cases isId : field.name = requestIdName
    · rw [if_pos isId, if_pos isId]
    · rw [if_neg isId, if_neg isId]

private theorem parseLine_noDelimiter {memory : Bytes} {total pos : Nat}
    {parser after : HeaderParser} (delimiter : parser.delimiter = none)
    (parsed : parseLine memory total pos parser = .ok after) :
    after = parser := by
  unfold parseLine at parsed
  rw [delimiter] at parsed
  have ended (shutdown : Bool)
      (rest : (if shutdown then
          .exit 0 "Lambda container shutdown received (HTTP 410) — exiting"
        else pure parser) = Outcome.ok after) : after = parser := by
    cases shutdown with
    | true => cases rest
    | false => exact (Outcome.ok.inj rest).symm
  by_cases enough : total ≥ 12
  · simp only [if_pos enough] at parsed
    obtain ⟨shutdown, -, rest⟩ := (Outcome.bind_eq_ok_iff _ _ _).mp parsed
    exact ended shutdown rest
  · simp only [if_neg enough] at parsed
    exact ended false parsed

private theorem parseLine_keeps {memory : Bytes} {total pos : Nat}
    {parser after : HeaderParser}
    (parsed : parseLine memory total pos parser = .ok after) :
    after.lineStart = parser.lineStart ∧
      after.delimiter = parser.delimiter := by
  cases delimiter : parser.delimiter with
  | none =>
      rw [parseLine_noDelimiter delimiter parsed]
      exact ⟨rfl, delimiter⟩
  | some colon =>
      unfold parseLine at parsed
      simp only [delimiter] at parsed
      obtain ⟨isLength, -, rest⟩ := (Outcome.bind_eq_ok_iff _ _ _).mp parsed
      cases isLength with
      | true =>
          obtain ⟨number, -, built⟩ := (Outcome.bind_eq_ok_iff _ _ _).mp rest
          cases built
          exact ⟨rfl, rfl⟩
      | false =>
          obtain ⟨isId, -, built⟩ := (Outcome.bind_eq_ok_iff _ _ _).mp rest
          cases isId with
          | true =>
              cases built
              exact ⟨rfl, rfl⟩
          | false =>
              cases built
              exact ⟨rfl, delimiter⟩

private theorem HeaderBlock.statusLine_eq_cons (block : HeaderBlock) :
    ∃ tail, block.statusLine = 0x48 :: tail := by
  obtain ⟨tail, statusLine⟩ := block.version
  have first : asciiBytes "HTTP/" = 0x48 :: asciiBytes "TTP/" := by decide
  rw [first, List.cons_append] at statusLine
  exact ⟨_, statusLine.symm⟩

theorem HeaderBlock.parseLine_status (block : HeaderBlock)
    {memory rest : Bytes} {total pos : Nat} {after : HeaderParser}
    (suffix : memory.drop 0 = block.statusLine ++ rest)
    (parsed : parseLine memory total pos
      (HeaderParser.start.within 0 block.statusLine) = .ok after) :
    after.contentLength = HeaderParser.start.contentLength ∧
      after.awsRequestId = HeaderParser.start.awsRequestId := by
  by_cases inStatus : colonChar ∈ block.statusLine
  · obtain ⟨tail, statusLine⟩ := block.statusLine_eq_cons
    have notColon : (0x48 : UInt8) ≠ colonChar := by decide
    rw [statusLine, List.mem_cons] at inStatus
    have later := inStatus.resolve_left (fun same => notColon same.symm)
    obtain ⟨colon, positive, scanned⟩ := scanBytes_of_colon
      { HeaderParser.start with lineStart := 0, delimiter := none } (0 + 1) later
    have known : HeaderParser.start.within 0 block.statusLine =
        { HeaderParser.start with
          lineStart := 0, delimiter := some colon } := by
      rw [statusLine, HeaderParser.within, scanBytes, if_neg notColon, scanned]
    have begins : memory.drop 0 = [] ++ 0x48 :: (tail ++ rest) := by
      rw [suffix, statusLine]
      rfl
    have differs (header headerRest : Bytes) (expected : UInt8)
        (starts : header = [] ++ expected :: headerRest)
        (other : (0x48 : UInt8) ≠ expected) :
        strncmpEqual memory 0 header (colon - 0) = .ok false := by
      rw [starts]
      exact strncmpEqual_mismatch begins other (Nat.sub_pos_of_lt positive)
    rw [known] at parsed
    simp only [parseLine] at parsed
    rw [differs contentLengthHeader (contentLengthHeader.drop 1) 0x43 (by decide)
      (by decide), Outcome.ok_bind, if_neg Bool.false_ne_true,
      differs requestIdHeader (requestIdHeader.drop 1) 0x4C (by decide)
        (by decide), Outcome.ok_bind, if_neg Bool.false_ne_true] at parsed
    cases parsed
    exact ⟨rfl, rfl⟩
  · have known : HeaderParser.start.within 0 block.statusLine =
        HeaderParser.start := scanBytes_of_noColon _ _ inStatus
    rw [known] at parsed
    rw [parseLine_noDelimiter rfl parsed]
    exact ⟨rfl, rfl⟩

private theorem HeaderBlock.requestId_unset (block : HeaderBlock)
    {done rest : List HeaderField} {field : HeaderField}
    (split : block.fields = done ++ field :: rest)
    (named : field.name = requestIdName) :
    (block.recorded done).awsRequestId = none := by
  have distinct := block.distinct
  rw [split, List.map_append, List.map_cons, List.nodup_append] at distinct
  apply (block.recorded_recorded distinct.1).noRequestId
  intro other member same
  exact distinct.2.2 _ (List.mem_map_of_mem member) _ List.mem_cons_self
    (same.trans named.symm)

/-- The end of a header line leaves what it should exactly when the line is
told apart. -/
theorem HeaderPass.record_iff {state fetched : HttpState}
    {result : Option HeaderParser} {done rest : List HeaderField}
    {field : HeaderField}
    (pass : HeaderPass recvBufSize stream state fetched result)
    (intRange : recvBufSize < 2 ^ 31) (delivers : block.text <+: stream)
    (split : block.fields = done ++ field :: rest)
    (atFeed : state.parsePoint =
      block.lineStart done + field.text.length + 1)
    (knows : block.Knows state) :
    ∃ parser, result = some parser ∧
      (parser.contentLength =
            (block.recorded (done ++ [field])).contentLength ∧
          parser.awsRequestId =
            (block.recorded (done ++ [field])).awsRequestId ↔
        field.ToldApart fetched.response (block.lineStart done)
          state.parser.contentLength) := by
  have lineAt : block.LineAt (block.lineStart done) (block.recorded done)
      field.text := .field split
  have known := knows _ _ _ lineAt (by omega) (by omega)
  obtain ⟨⟨junk, suffix⟩, ended, parsed, rfl⟩ :=
    pass.at_feed delivers lineAt field.text_ne_nil atFeed known
  refine ⟨_, rfl, ?_⟩
  have whole : field.text.take (state.parsePoint - block.lineStart done) =
      field.text := List.take_of_length_le (by omega)
  have wellFormed : field.WellFormed := by
    apply block.wellFormed
    rw [split]
    exact List.mem_append_right _ List.mem_cons_self
  obtain ⟨colon, delimits, scanned⟩ := wellFormed.scanBytes
    { block.recorded done with
      lineStart := block.lineStart done, delimiter := none } (block.lineStart done)
  have inside := pass.inside
  rw [whole, HeaderParser.within, scanned] at known
  rw [HeaderParser.within, scanned] at parsed
  obtain ⟨sameStart, sameDelimiter⟩ := parseLine_keeps parsed
  have earlier : HeaderParser.IdBefore
      { block.recorded done with
        lineStart := block.lineStart done, delimiter := some colon }
      (block.lineStart done) := block.recorded_idBefore done
  have exactEnd := parseLine_eq_record_iff wellFormed (by omega) suffix rfl rfl
    delimits earlier (fun named => block.requestId_unset split named) parsed
  rw [known, ← exactEnd, block.recorded_concat]
  have position := field.record_position (block.lineStart done)
    (block.lineStart done) (block.recorded done) (some colon)
  rw [position]
  obtain ⟨lineStart, delimiter, contentLength, awsRequestId⟩ := ended
  simp only at sameStart sameDelimiter
  rw [sameStart, sameDelimiter]
  simp only [HeaderParser.mk.injEq, true_and]

end Runs

/-! ### Exact recognition -/

/-- In every run, whenever the header lines up to one are parsed the parser has
what they say, and after the blank line what all of them say. -/
structure HeaderBlock.Exact (block : HeaderBlock) (recvBufSize : Nat)
    (response : Bytes) (chunks : List Bytes) : Prop where
  lines : ∀ state,
    Reaches (httpStep recvBufSize) (.start response recvBufSize chunks) state →
      state.bodyStart = none → ∀ done rest, block.fields = done ++ rest →
        state.parsePoint = block.lineStart done →
          block.Recorded done state.parser
  all : ∀ state,
    Reaches (httpStep recvBufSize) (.start response recvBufSize chunks) state →
      state.bodyStart ≠ none → block.Recorded block.fields state.parser

/-- The line whose line feed the pass parses, if it does, is told apart. -/
def HeaderBlock.PassToldApart (block : HeaderBlock) (recvBufSize : Nat)
    (state : HttpState) : Prop :=
  ∀ done field rest fetched after, block.fields = done ++ field :: rest →
    state.bodyStart = none →
    state.parsePoint = block.lineStart done + field.text.length + 1 →
    state.fetched recvBufSize = .ok fetched →
    httpStep recvBufSize state = .next after →
      field.ToldApart fetched.response (block.lineStart done)
        state.parser.contentLength

section Recognition

variable {recvBufSize : Nat} {response : Bytes} {chunks : List Bytes}
  {block : HeaderBlock}

theorem HeaderBlock.Knows.recorded {state : HttpState}
    (knows : block.Knows state) {done rest : List HeaderField}
    (split : block.fields = done ++ rest)
    (atStart : state.parsePoint = block.lineStart done) :
    block.Recorded done state.parser := by
  obtain ⟨line, lineAt⟩ := block.lineAt_done split
  have known := knows _ _ _ lineAt (by omega) (by omega)
  rw [atStart, Nat.sub_self, List.take_zero, HeaderParser.within_nil] at known
  have distinct := block.distinct
  rw [split, List.map_append, List.nodup_append] at distinct
  rw [known]
  exact (block.recorded_recorded distinct.1).congr rfl rfl

private theorem HeaderBlock.Knows.exactEnds {state after : HttpState}
    (knows : block.Knows state) (intRange : recvBufSize < 2 ^ 31)
    (tracks : Tracks recvBufSize chunks.flatten state)
    (delivers : block.text <+: chunks.flatten)
    (headers : state.bodyStart = none)
    (toldApart : block.PassToldApart recvBufSize state)
    (stepped : httpStep recvBufSize state = .next after)
    (open_ : after.bodyStart = none) (done rest : List HeaderField)
    (split : block.fields = done ++ rest)
    (atStart : after.parsePoint = block.lineStart done) :
    after.parser.contentLength = (block.recorded done).contentLength ∧
      after.parser.awsRequestId = (block.recorded done).awsRequestId := by
  obtain ⟨fetched, result, pass, ⟨parser, rfl, rfl⟩ | ⟨rfl, rfl⟩⟩ :=
    tracks.headerPass headers stepped
  · have next : (fetched.pastByte parser).parsePoint = state.parsePoint + 1 := by
      rw [HttpState.pastByte, pass.point]
    rw [next] at atStart
    rcases List.eq_nil_or_concat done with rfl | ⟨done, field, rfl⟩
    · rw [block.lineStart_nil] at atStart
      have atFeed : state.parsePoint = 0 + block.statusLine.length + 1 := by
        omega
      have known := knows _ _ _ .status (Nat.zero_le _) (by omega)
      obtain ⟨⟨junk, suffix⟩, ended, parsed, built⟩ :=
        pass.at_feed delivers .status block.statusLine_ne_nil atFeed known
      have recorded := block.parseLine_status suffix parsed
      cases built
      exact recorded
    · rw [List.concat_eq_append] at atStart split ⊢
      rw [List.append_assoc] at split
      rw [block.lineStart_concat] at atStart
      have atFeed : state.parsePoint =
          block.lineStart done + field.text.length + 1 := by omega
      obtain ⟨found, same, recordIff⟩ :=
        pass.record_iff intRange delivers split atFeed knows
      cases same
      exact recordIff.mpr (toldApart done field rest fetched _ split headers
        atFeed pass.fetch stepped)
  · cases open_

theorem HeaderBlock.Knows.all {state fetched : HttpState}
    (knows : block.Knows state) (tracks : Tracks recvBufSize chunks.flatten state)
    (delivers : block.text <+: chunks.flatten)
    (pass : HeaderPass recvBufSize chunks.flatten state fetched none) :
    block.Recorded block.fields state.parser := by
  have noBlank := (tracks.headers pass.headers).2.2.2
  have inside : state.parsePoint < block.lineStart block.fields + 2 := by
    by_contra past
    exact noBlank _ (Nat.not_lt.mp past) (block.blankLineEnds delivers)
  have ends : BlankLineEnds chunks.flatten (state.parsePoint + 1) :=
    ((parseByte_eq_ok pass.byte).mp rfl).congr pass.tracks.take_eq pass.pending
  obtain ⟨start, base, line, lineAt, low, high⟩ := block.exists_lineAt inside
  obtain ⟨empty, -⟩ := lineAt.eq_of_blankLineEnds delivers low high ends
  have known := knows _ _ _ lineAt low high
  rw [empty, List.take_nil, HeaderParser.within_nil, lineAt.eq_blank empty]
    at known
  rw [known]
  exact (block.recorded_recorded block.distinct).congr rfl rfl

/-- The parser of every state reached, when the ends of lines leave what they
should. -/
theorem HeaderBlock.knows_of_reaches (delivers : block.text <+: chunks.flatten)
    (exactEnds : ∀ before after, Reaches (httpStep recvBufSize)
        (.start response recvBufSize chunks) before →
      block.Knows before → before.bodyStart = none →
      httpStep recvBufSize before = .next after → after.bodyStart = none →
      ∀ done rest, block.fields = done ++ rest →
        after.parsePoint = block.lineStart done →
          after.parser.contentLength = (block.recorded done).contentLength ∧
            after.parser.awsRequestId = (block.recorded done).awsRequestId)
    {state : HttpState}
    (reached : Reaches (httpStep recvBufSize)
      (.start response recvBufSize chunks) state) :
    (state.bodyStart = none → block.Knows state) ∧
      (state.bodyStart ≠ none → block.Recorded block.fields state.parser) := by
  apply reached.invariant
  · rintro before after earlier ⟨inHeaders, inBody⟩ stepped
    have tracks := tracks_of_reaches earlier
    by_cases headers : before.bodyStart = none
    · have knows := inHeaders headers
      constructor
      · intro open_
        exact knows.step tracks delivers headers stepped open_
          (exactEnds before after earlier knows headers stepped open_)
      · intro started
        obtain ⟨fetched, result, pass, ⟨parser, rfl, rfl⟩ | ⟨rfl, rfl⟩⟩ :=
          tracks.headerPass headers stepped
        · exact absurd (pass.tracks.headers_of_pending
            (by rw [pass.point]; exact pass.pending)) started
        · rw [HttpState.atBody]
          simp only [pass.parser]
          exact knows.all tracks delivers pass
    · obtain ⟨sameParser, samePhase⟩ := httpStep_body tracks headers stepped
      constructor
      · intro open_
        exact absurd (samePhase.symm.trans open_) headers
      · intro _
        rw [sameParser]
        exact inBody headers
  · exact ⟨fun _ => .start block response chunks, fun started => absurd rfl started⟩

private theorem HeaderBlock.exact_of_toldApart (intRange : recvBufSize < 2 ^ 31)
    (delivers : block.text <+: chunks.flatten)
    (toldApart : ∀ state, Reaches (httpStep recvBufSize)
      (.start response recvBufSize chunks) state →
        block.PassToldApart recvBufSize state) :
    block.Exact recvBufSize response chunks := by
  have known (state : HttpState) (reached : Reaches (httpStep recvBufSize)
      (.start response recvBufSize chunks) state) :
      (state.bodyStart = none → block.Knows state) ∧
        (state.bodyStart ≠ none → block.Recorded block.fields state.parser) := by
    apply block.knows_of_reaches delivers _ reached
    intro before after earlier knows headers stepped open_
    exact knows.exactEnds intRange (tracks_of_reaches earlier) delivers headers
      (toldApart before earlier) stepped open_
  exact
    { lines := fun state reached headers done rest split atStart =>
        ((known state reached).1 headers).recorded split atStart
      all := fun state reached => (known state reached).2 }

private theorem HeaderBlock.toldApart_of_exact (intRange : recvBufSize < 2 ^ 31)
    (delivers : block.text <+: chunks.flatten)
    (exactly : block.Exact recvBufSize response chunks) {state : HttpState}
    (reached : Reaches (httpStep recvBufSize)
      (.start response recvBufSize chunks) state) :
    block.PassToldApart recvBufSize state := by
  intro done field rest fetched after split headers atFeed fetch stepped
  have ends (before after : HttpState) (earlier : Reaches (httpStep recvBufSize)
      (.start response recvBufSize chunks) before)
      (stepped : httpStep recvBufSize before = .next after)
      (open_ : after.bodyStart = none) (done rest : List HeaderField)
      (split : block.fields = done ++ rest)
      (atStart : after.parsePoint = block.lineStart done) :
      after.parser.contentLength = (block.recorded done).contentLength ∧
        after.parser.awsRequestId = (block.recorded done).awsRequestId := by
    have distinct := block.distinct
    rw [split, List.map_append, List.nodup_append] at distinct
    exact (exactly.lines after (earlier.trans (.of_step stepped)) open_ done rest
      split atStart).unique (block.recorded_recorded distinct.1)
  have knows := (block.knows_of_reaches delivers
    (fun before after earlier _ _ stepped open_ =>
      ends before after earlier stepped open_) reached).1 headers
  obtain ⟨fetched', result, pass, stepping⟩ :=
    (tracks_of_reaches reached).headerPass headers stepped
  have same := pass.fetch.symm.trans fetch
  cases same
  obtain ⟨parser, rfl, recordIff⟩ :=
    pass.record_iff intRange delivers split atFeed knows
  rcases stepping with ⟨found, sameParser, rfl⟩ | ⟨none, -⟩
  · cases sameParser
    have open_ : (fetched.pastByte parser).bodyStart = none :=
      pass.tracks.headers_of_pending (by rw [pass.point]; exact pass.pending)
    have regrouped : block.fields = (done ++ [field]) ++ rest := by
      rw [split]
      simp
    have atStart : (fetched.pastByte parser).parsePoint =
        block.lineStart (done ++ [field]) := by
      rw [HttpState.pastByte, block.lineStart_concat]
      simp only [pass.point]
      omega
    exact recordIff.mp (ends state _ reached stepped open_ _ rest regrouped atStart)
  · cases none

end Recognition

/-- A header block is recognised exactly when in every pass of the run the line
that ends there is told apart. -/
theorem HeaderBlock.exact_iff (block : HeaderBlock) (recvBufSize : Nat)
    (response : Bytes) (chunks : List Bytes) (intRange : recvBufSize < 2 ^ 31)
    (delivers : block.text <+: chunks.flatten) :
    block.Exact recvBufSize response chunks ↔
      ∀ state, Reaches (httpStep recvBufSize)
        (.start response recvBufSize chunks) state →
          block.PassToldApart recvBufSize state := by
  constructor
  · intro exactly state reached
    exact block.toldApart_of_exact intRange delivers exactly reached
  · intro toldApart
    exact block.exact_of_toldApart intRange delivers toldApart

/-- An announced length, an id, and a value with colons. -/
def invocationBlock : HeaderBlock where
  statusLine := asciiBytes "HTTP/1.1 200 OK"
  fields :=
    [⟨asciiBytes "Date", asciiBytes "10:00:00"⟩,
      ⟨contentLengthName, asciiBytes "2"⟩, ⟨requestIdName, asciiBytes "8476"⟩]
  version := by decide +kernel
  statusNoLineFeed := by decide +kernel
  wellFormed := by
    intro field member
    simp only [List.mem_cons, List.not_mem_nil, or_false] at member
    rcases member with rfl | rfl | rfl <;>
      exact ⟨by decide +kernel, by decide +kernel, by decide +kernel,
        by decide +kernel⟩
  distinct := by decide +kernel

theorem HeaderBlock.exact_iff_invocation :
    invocationBlock.Exact 128 (List.replicate 129 0)
      [invocationBlock.text ++ asciiBytes "\x7b\x7d"] := by
  refine (invocationBlock.exact_iff 128 (List.replicate 129 0)
    [invocationBlock.text ++ asciiBytes "\x7b\x7d"] (by decide) ?_).mpr ?_
  · rw [List.flatten_cons, List.flatten_nil, List.append_nil]
    exact List.prefix_append _ _
  · intro state _ done field rest fetched after split _ _ _ _
    have member : field ∈ invocationBlock.fields := by
      rw [split]
      exact List.mem_append_right _ List.mem_cons_self
    simp only [invocationBlock, List.mem_cons, List.not_mem_nil, or_false]
      at member
    unfold HeaderField.ToldApart
    rcases member with rfl | rfl | rfl
    · rw [if_neg (by decide +kernel), if_neg (by decide +kernel),
        if_neg (by decide +kernel)]
      decide +kernel
    · rw [if_pos rfl]
      decide +kernel
    · rw [if_neg (by decide +kernel), if_pos rfl]
      decide +kernel

def prefixBlock : HeaderBlock where
  statusLine := asciiBytes "HTTP/1.1 200 OK"
  fields :=
    [⟨contentLengthName, asciiBytes "2"⟩, ⟨asciiBytes "Content", asciiBytes "7"⟩]
  version := by decide +kernel
  statusNoLineFeed := by decide +kernel
  wellFormed := by
    intro field member
    simp only [List.mem_cons, List.not_mem_nil, or_false] at member
    rcases member with rfl | rfl <;>
      exact ⟨by decide +kernel, by decide +kernel, by decide +kernel,
        by decide +kernel⟩
  distinct := by decide +kernel

/-- The line changes the announced length from 2 to 7. -/
theorem HeaderBlock.exact_violated :
    ¬prefixBlock.Exact 128 (List.replicate 129 0)
      [prefixBlock.text ++ asciiBytes "\x7b\x7d"] := by
  intro exactly
  obtain ⟨state, reached, headers, atEnd, length⟩ :=
    exists_reaches_of_runFor (httpStep 128)
      (fun state : HttpState => state.bodyStart = none ∧
        state.parsePoint = prefixBlock.lineStart prefixBlock.fields ∧
        state.parser.contentLength = 7)
      48 (HttpState.start (List.replicate 129 0) 128
        [prefixBlock.text ++ asciiBytes "\x7b\x7d"])
      (by decide +kernel)
  have recorded := exactly.lines state reached headers prefixBlock.fields []
    (List.append_nil _).symm atEnd
  have announced := recorded.length _ List.mem_cons_self rfl
  rw [length] at announced
  exact absurd announced (by decide +kernel)

end Lambpie.Runtime

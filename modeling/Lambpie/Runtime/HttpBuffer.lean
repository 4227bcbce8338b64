/-
The receive buffer of the HTTP helper.

While headers are read `remain` is the free space of the buffer; after the
blank line it is what is missing of the body, whatever Content-Length says.
The two agree on staying inside the buffer only for a response that fits it
with a byte to spare, so the bound on every `recv` is proved for the runs all
of whose steps keep that byte free.
-/
import Lambpie.Runtime.Http

namespace Lambpie.Runtime

open Foundations

def HttpState.Receives (recvBufSize : Nat) (state : HttpState) : Prop :=
  state.remain ≠ 0 ∧ state.parsePoint < recvBufSize ∧
    state.totalBytesReceived ≤ state.parsePoint

instance (recvBufSize : Nat) (state : HttpState) :
    Decidable (state.Receives recvBufSize) :=
  inferInstanceAs (Decidable (_ ∧ _))

def HttpState.delivered (state : HttpState) : Bytes :=
  (recv state.chunks (requestedSize state.remain)).1

theorem requestedSize_le {remain : Int} (nonneg : 0 ≤ remain) :
    (requestedSize remain : Int) ≤ remain := by
  have modulus : ((2 ^ 64 : Nat) : Int) = 18446744073709551616 := rfl
  rw [requestedSize, BitVec.toNat_ofInt, modulus]
  omega

theorem requestedSize_eq {remain : Int} (nonneg : 0 ≤ remain)
    (bounded : remain < 2 ^ 64) : (requestedSize remain : Int) = remain := by
  have modulus : ((2 ^ 64 : Nat) : Int) = 18446744073709551616 := rfl
  rw [requestedSize, BitVec.toNat_ofInt, modulus]
  omega

theorem delivered_length_le (state : HttpState) :
    state.delivered.length ≤ requestedSize state.remain := by
  unfold HttpState.delivered recv
  cases state.chunks with
  | nil => exact Nat.zero_le _
  | cons chunk rest =>
      by_cases small : chunk.length ≤ requestedSize state.remain
      · simp only [if_pos small]
        exact small
      · simp only [if_neg small, List.length_take]
        exact Nat.min_le_left _ _

def HttpState.undelivered (state : HttpState) : List Bytes :=
  (recv state.chunks (requestedSize state.remain)).2

def HttpState.withReceived (state : HttpState) (response : Bytes) : HttpState :=
  { state with
    response
    totalBytesReceived := state.totalBytesReceived + state.delivered.length
    remain := state.remain - state.delivered.length
    chunks := state.undelivered }

def HttpState.atBody (state : HttpState) : HttpState :=
  { state with
    bodyStart := some (state.parsePoint + 1)
    remain := state.parser.contentLength
      - ((state.totalBytesReceived : Int) - (state.parsePoint + 1 : Nat))
    parsePoint := state.totalBytesReceived }

def HttpState.pastByte (state : HttpState) (parser : HeaderParser) : HttpState :=
  { state with parser, parsePoint := state.parsePoint + 1 }

def HttpState.pastBody (state received : HttpState) : HttpState :=
  { received with
    parsePoint := state.parsePoint +
      (received.totalBytesReceived - state.totalBytesReceived) }

theorem storeAt_eq_ok_iff (memory : Bytes) (pos : Nat) (bytes after : Bytes) :
    storeAt memory pos bytes = .ok after ↔
      pos + bytes.length ≤ memory.length ∧
        after = memory.take pos ++ bytes ++ memory.drop (pos + bytes.length) := by
  unfold storeAt
  by_cases room : pos + bytes.length ≤ memory.length
  · simp [room, eq_comm]
  · simp [room]

theorem recv_flatten (chunks : List Bytes) (requested : Nat) :
    (recv chunks requested).1 ++ (recv chunks requested).2.flatten =
      chunks.flatten := by
  cases chunks with
  | nil => rfl
  | cons chunk rest =>
      rw [recv]
      by_cases small : chunk.length ≤ requested
      · rw [if_pos small, List.flatten_cons]
      · rw [if_neg small, List.flatten_cons, List.flatten_cons,
          ← List.append_assoc, List.take_append_drop]

theorem receive_eq_ok_iff (state after : HttpState) :
    receive state = .ok after ↔
      0 < state.delivered.length ∧
        ∃ response,
          storeAt state.response state.totalBytesReceived state.delivered =
              .ok response ∧
            after = state.withReceived response := by
  unfold receive HttpState.withReceived HttpState.delivered HttpState.undelivered
  by_cases empty : (recv state.chunks (requestedSize state.remain)).1.length = 0
  · simp [empty, fatal]
  · simp only [if_neg empty, Outcome.bind_eq_ok_iff, Outcome.pure_eq_ok,
      Outcome.ok.injEq, Nat.pos_of_ne_zero empty, true_and]
    constructor
    · rintro ⟨response, stored, built⟩
      exact ⟨response, stored, built.symm⟩
    · rintro ⟨response, stored, built⟩
      exact ⟨response, stored, built.symm⟩

/-- A `recv` that does not end the process delivers at least a byte, which is
stored after the bytes already there. -/
theorem receive_eq_ok {state after : HttpState}
    (received : receive state = .ok after) :
    0 < state.delivered.length ∧
      after.totalBytesReceived =
        state.totalBytesReceived + state.delivered.length ∧
      after.remain = state.remain - state.delivered.length ∧
      after.bodyStart = state.bodyStart ∧
      after.parsePoint = state.parsePoint ∧
      after.parser = state.parser := by
  obtain ⟨some_, response, -, rfl⟩ := (receive_eq_ok_iff _ _).mp received
  exact ⟨some_, rfl, rfl, rfl, rfl, rfl⟩

theorem parseStep_eq_ok_iff (state after : HttpState) :
    parseStep state = .ok after ↔
      (∃ parser,
        parseByte state.response state.totalBytesReceived state.parsePoint
            state.parser = .ok (some parser) ∧
          after = state.pastByte parser) ∨
      (parseByte state.response state.totalBytesReceived state.parsePoint
          state.parser = .ok none ∧
        0 ≤ state.parser.contentLength ∧ after = state.atBody) := by
  unfold parseStep
  rw [Outcome.bind_eq_ok_iff]
  constructor
  · rintro ⟨result, byte, rest⟩
    cases result with
    | some parser =>
        cases rest
        exact Or.inl ⟨parser, byte, rfl⟩
    | none =>
        by_cases missing : state.parser.contentLength < 0
        · simp [missing, fatal] at rest
        · simp only [if_neg missing, Outcome.pure_eq_ok, Outcome.ok.injEq] at rest
          exact Or.inr ⟨byte, Int.not_lt.mp missing, rest.symm⟩
  · rintro (⟨parser, byte, built⟩ | ⟨byte, present, built⟩)
    · exact ⟨some parser, byte, congrArg Outcome.ok built.symm⟩
    · refine ⟨none, byte, ?_⟩
      simp only [if_neg (Int.not_lt.mpr present), built]
      rfl

/-- One pass that neither ends the process nor faults. -/
inductive Pass (state : HttpState) : HttpState → Prop where
  | parsed {after : HttpState}
      (pending : state.parsePoint < state.totalBytesReceived)
      (step : parseStep state = .ok after) : Pass state after
  | fetched {received after : HttpState}
      (exhausted : state.totalBytesReceived ≤ state.parsePoint)
      (arrived : receive state = .ok received)
      (headers : state.bodyStart = none)
      (step : parseStep received = .ok after) : Pass state after
  | body {received : HttpState}
      (exhausted : state.totalBytesReceived ≤ state.parsePoint)
      (arrived : receive state = .ok received)
      (started : state.bodyStart ≠ none) : Pass state (state.pastBody received)

theorem receive_bodyStart {state received : HttpState}
    (arrived : receive state = .ok received) :
    received.bodyStart = state.bodyStart :=
  (receive_eq_ok arrived).2.2.2.1

private theorem loopBody_eq_ok_iff (recvBufSize : Nat) (state after : HttpState) :
    loopBody recvBufSize state = .ok after ↔
      state.parsePoint < recvBufSize ∧ Pass state after := by
  unfold loopBody
  by_cases overflow : state.parsePoint ≥ recvBufSize
  · simp [overflow, fatal, Nat.not_lt.mpr overflow]
  · rw [if_neg overflow]
    have inside : state.parsePoint < recvBufSize := Nat.not_le.mp overflow
    by_cases exhausted : state.parsePoint ≥ state.totalBytesReceived
    · rw [if_pos exhausted, Outcome.bind_eq_ok_iff]
      constructor
      · rintro ⟨received, arrived, rest⟩
        refine ⟨inside, ?_⟩
        by_cases headers : state.bodyStart = none
        · rw [receive_bodyStart arrived, headers] at rest
          exact Pass.fetched exhausted arrived headers rest
        · have started : received.bodyStart.isSome := by
            rw [receive_bodyStart arrived]
            exact Option.isSome_iff_ne_none.mpr headers
          simp only [if_pos started, Outcome.pure_eq_ok,
            Outcome.ok.injEq] at rest
          subst rest
          exact Pass.body exhausted arrived headers
      · rintro ⟨-, pass⟩
        cases pass with
        | parsed pending step => exact absurd exhausted (Nat.not_le.mpr pending)
        | @fetched received _ _ arrived headers step =>
            refine ⟨received, arrived, ?_⟩
            rw [receive_bodyStart arrived, headers]
            exact step
        | @body received _ arrived started =>
            refine ⟨received, arrived, ?_⟩
            have isStarted : received.bodyStart.isSome := by
              rw [receive_bodyStart arrived]
              exact Option.isSome_iff_ne_none.mpr started
            rw [if_pos isStarted]
            rfl
    · rw [if_neg exhausted]
      have pending : state.parsePoint < state.totalBytesReceived :=
        Nat.not_le.mp exhausted
      constructor
      · intro step
        exact ⟨inside, Pass.parsed pending step⟩
      · rintro ⟨-, pass⟩
        cases pass with
        | parsed _ step => exact step
        | fetched beyond _ _ _ => exact absurd beyond exhausted
        | body beyond _ _ => exact absurd beyond exhausted

theorem httpStep_eq_next_iff (recvBufSize : Nat) (state after : HttpState) :
    httpStep recvBufSize state = .next after ↔
      state.remain ≠ 0 ∧ state.parsePoint < recvBufSize ∧ Pass state after := by
  unfold httpStep
  rw [← loopBody_eq_ok_iff]
  by_cases finished : state.remain = 0
  · simp [finished]
  · rw [if_neg finished]
    cases loopBody recvBufSize state with
    | ok next => simp [finished]
    | exit status message => simp
    | fault => simp

/-- What the loop does to the buffer at this state: a `recv` asks for at least
one byte and no more than the buffer has room for, and the terminating NUL is
stored inside the buffer. -/
structure RecvSafe (recvBufSize : Nat) (state : HttpState) : Prop where
  nonneg : 0 ≤ state.remain
  request : state.Receives recvBufSize →
    1 ≤ requestedSize state.remain ∧
      state.totalBytesReceived + requestedSize state.remain ≤ recvBufSize
  terminator : state.remain = 0 → state.totalBytesReceived < recvBufSize

def HttpState.fetched (recvBufSize : Nat) (state : HttpState) :
    Outcome HttpState :=
  if state.Receives recvBufSize then receive state else .ok state

/-- The pass parses the line feed of the blank line. -/
def HttpState.AtBlankLine (state : HttpState) : Prop :=
  state.bodyStart = none ∧
    parseByte state.response state.totalBytesReceived state.parsePoint
      state.parser = .ok none

/-- At the blank line Content-Length covers the body bytes already received
and the whole response is no longer than the buffer. -/
def HttpState.Announced (recvBufSize : Nat) (state : HttpState) : Prop :=
  state.AtBlankLine →
    (state.totalBytesReceived : Int) ≤
        state.parsePoint + 1 + state.parser.contentLength ∧
      state.parsePoint + 1 + state.parser.contentLength ≤ recvBufSize

/-- The pass keeps a byte of the buffer free: what it receives does not fill
the buffer, and a blank line it parses announces a body in bounds. -/
structure StepFits (recvBufSize : Nat) (state : HttpState) : Prop where
  room : state.Receives recvBufSize →
    state.totalBytesReceived + state.delivered.length < recvBufSize
  announced : (state.fetched recvBufSize).All (·.Announced recvBufSize)

/-- `remain` is the free space while headers are read and at most the free
space after them; the buffer is never full. -/
structure BufferInvariant (recvBufSize : Nat) (state : HttpState) : Prop where
  room : state.totalBytesReceived < recvBufSize
  headers : state.bodyStart = none →
    state.remain = (recvBufSize : Int) - state.totalBytesReceived
  body : state.bodyStart ≠ none →
    0 ≤ state.remain ∧
      state.remain ≤ (recvBufSize : Int) - state.totalBytesReceived ∧
      state.parsePoint = state.totalBytesReceived

private theorem BufferInvariant.remain_bounds {recvBufSize : Nat} {state : HttpState}
    (invariant : BufferInvariant recvBufSize state) :
    0 ≤ state.remain ∧
      state.remain ≤ (recvBufSize : Int) - state.totalBytesReceived := by
  have room := invariant.room
  by_cases phase : state.bodyStart = none
  · have free := invariant.headers phase
    omega
  · obtain ⟨nonneg, bounded, -⟩ := invariant.body phase
    exact ⟨nonneg, bounded⟩

/-- The buffer size is a C `int`, so `(size_t) remain` is `remain`. -/
theorem BufferInvariant.recvSafe {recvBufSize : Nat} {state : HttpState}
    (intRange : recvBufSize < 2 ^ 31)
    (invariant : BufferInvariant recvBufSize state) :
    RecvSafe recvBufSize state := by
  obtain ⟨nonneg, bounded⟩ := invariant.remain_bounds
  refine { nonneg := nonneg, request := ?_, terminator := ?_ }
  · rintro ⟨remaining, -, -⟩
    have exactSize := requestedSize_eq nonneg (by omega)
    omega
  · intro _
    exact invariant.room

theorem BufferInvariant.start {recvBufSize : Nat} (positive : 0 < recvBufSize)
    (response : Bytes) (chunks : List Bytes) :
    BufferInvariant recvBufSize (.start response recvBufSize chunks) where
  room := positive
  headers := by
    intro _
    simp [HttpState.start]
  body := by
    intro phase
    exact absurd rfl phase

theorem BufferInvariant.parseStep {recvBufSize : Nat} {state after : HttpState}
    (invariant : BufferInvariant recvBufSize state)
    (phase : state.bodyStart = none)
    (announced : state.Announced recvBufSize)
    (parsed : parseStep state = .ok after) :
    BufferInvariant recvBufSize after := by
  have room := invariant.room
  rcases (parseStep_eq_ok_iff _ _).mp parsed with
    ⟨parser, -, rfl⟩ | ⟨blank, -, rfl⟩
  · exact
      { room := room
        headers := invariant.headers
        body := fun bodyPhase => absurd phase bodyPhase }
  · obtain ⟨covered, fits⟩ := announced ⟨phase, blank⟩
    refine { room := room, headers := ?_, body := ?_ }
    · intro headerPhase
      cases headerPhase
    · intro _
      refine ⟨?_, ?_, rfl⟩
      · simp only [HttpState.atBody]
        omega
      · simp only [HttpState.atBody]
        omega

theorem BufferInvariant.receive {recvBufSize : Nat}
    {state received : HttpState} (invariant : BufferInvariant recvBufSize state)
    (phase : state.bodyStart = none)
    (room : state.totalBytesReceived + state.delivered.length < recvBufSize)
    (arrived : receive state = .ok received) :
    BufferInvariant recvBufSize received := by
  have free := invariant.headers phase
  obtain ⟨-, total, remain, samePhase, -, -⟩ := receive_eq_ok arrived
  refine { room := by omega, headers := ?_, body := ?_ }
  · intro _
    omega
  · intro bodyPhase
    rw [samePhase] at bodyPhase
    exact absurd phase bodyPhase

/-- One pass keeps the invariant when it keeps a byte free. -/
theorem BufferInvariant.step {recvBufSize : Nat} {before after : HttpState}
    (invariant : BufferInvariant recvBufSize before)
    (fits : StepFits recvBufSize before)
    (stepped : httpStep recvBufSize before = .next after) :
    BufferInvariant recvBufSize after := by
  have announced := fits.announced
  obtain ⟨running, inside, pass⟩ := (httpStep_eq_next_iff _ _ _).mp stepped
  cases pass with
  | parsed pending step =>
      have phase : before.bodyStart = none := by
        by_contra bodyPhase
        have point := (invariant.body bodyPhase).2.2
        omega
      have fetched : before.fetched recvBufSize = .ok before := by
        rw [HttpState.fetched, if_neg]
        rintro ⟨-, -, beyond⟩
        omega
      rw [fetched] at announced
      exact invariant.parseStep phase announced step
  | fetched exhausted arrived phase step =>
      have receives : before.Receives recvBufSize := ⟨running, inside, exhausted⟩
      rw [HttpState.fetched, if_pos receives, arrived] at announced
      have middle := invariant.receive phase (fits.room receives) arrived
      exact middle.parseStep ((receive_bodyStart arrived).trans phase) announced
        step
  | @body received exhausted arrived started =>
      have left := fits.room ⟨running, inside, exhausted⟩
      obtain ⟨nonneg, bounded, point⟩ := invariant.body started
      obtain ⟨-, total, remain, samePhase, -, -⟩ := receive_eq_ok arrived
      have request := delivered_length_le before
      have asked := requestedSize_le nonneg
      refine { room := by simp only [HttpState.pastBody]; omega
               headers := ?_, body := ?_ }
      · intro headerPhase
        exact absurd (samePhase.symm.trans headerPhase) started
      · intro _
        simp only [HttpState.pastBody]
        omega

/-- In every run that keeps a byte of the buffer free, every `recv` asks for
what fits and the terminating NUL is stored inside the buffer. -/
theorem recvSafe_of_stepFits (response : Bytes) (chunks : List Bytes)
    (recvBufSize : Nat) (positive : 0 < recvBufSize)
    (intRange : recvBufSize < 2 ^ 31)
    (fits : ∀ state,
      Reaches (httpStep recvBufSize) (.start response recvBufSize chunks) state →
        StepFits recvBufSize state)
    (state : HttpState)
    (reached : Reaches (httpStep recvBufSize)
      (.start response recvBufSize chunks) state) :
    RecvSafe recvBufSize state := by
  have invariant : BufferInvariant recvBufSize state := by
    refine reached.invariant ?_ (.start positive response chunks)
    intro before after earlier invariant stepped
    exact invariant.step (fits before earlier) stepped
  exact invariant.recvSafe intRange

instance (state : HttpState) : Decidable state.AtBlankLine :=
  inferInstanceAs (Decidable (_ ∧ _))

instance (recvBufSize : Nat) (state : HttpState) :
    Decidable (state.Announced recvBufSize) :=
  inferInstanceAs (Decidable (_ → _))

instance (recvBufSize : Nat) (state : HttpState) :
    Decidable (StepFits recvBufSize state) :=
  decidable_of_iff
    ((state.Receives recvBufSize →
      state.totalBytesReceived + state.delivered.length < recvBufSize) ∧
      (state.fetched recvBufSize).All (·.Announced recvBufSize))
    ⟨fun fits => ⟨fits.1, fits.2⟩, fun fits => ⟨fits.room, fits.announced⟩⟩

/-- A response with two body bytes, the second in a chunk of its own. -/
theorem recvSafe_of_stepFits_example :
    let chunks :=
      [asciiBytes "HTTP/1.1 200 OK\r\nContent-Le",
        asciiBytes "ngth: 2\r\n\r\n\x7b", asciiBytes "\x7d"]
    ∀ state,
      Reaches (httpStep 64) (.start (List.replicate 64 0) 64 chunks) state →
        RecvSafe 64 state := by
  intro chunks
  refine recvSafe_of_stepFits _ chunks 64 (by decide) (by decide) ?_
  intro state reached
  have visited := reached.mem_visited 45 (by decide +kernel)
  have fits : ∀ earlier ∈
      Foundations.visited (httpStep 64) 45
        (.start (List.replicate 64 0) 64 chunks),
      StepFits 64 earlier := by
    decide +kernel
  exact fits state visited

/-- In the 8 KB buffer of the error POSTs, a Content-Length of 99999 makes the
next `recv` ask for more than the buffer holds. -/
theorem recvSafe_violated :
    ∃ state,
      Reaches (httpStep 8192)
        (.start (List.replicate 8192 0) 8192
          [asciiBytes "HTTP/1.1 200 OK\r\nContent-Length: 99999\r\n\r\n"])
        state ∧
      ¬RecvSafe 8192 state := by
  obtain ⟨state, reached, receives, beyond⟩ :=
    exists_reaches_of_runFor (httpStep 8192)
      (fun state : HttpState => state.Receives 8192 ∧
        ¬state.totalBytesReceived + requestedSize state.remain ≤ 8192)
      42 (HttpState.start (List.replicate 8192 0) 8192
        [asciiBytes "HTTP/1.1 200 OK\r\nContent-Length: 99999\r\n\r\n"])
      (by decide +kernel)
  refine ⟨state, reached, ?_⟩
  intro safe
  exact beyond (safe.request receives).2

end Lambpie.Runtime

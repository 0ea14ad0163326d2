import Mathlib
import CounterDrone.RingBuffer
import CounterDrone.Packet

/-!
# The streaming parser

`StreamingParser` of `streamingParser.cpp`: the three-state machine of `process_client`, one iteration of its
`while (true)` at a time (`processIteration`), its loop (`processClient`) and the body of the loop of `run`
(`handleChunk`). Pushes to the queues, the failure counter and the bytes consumed are the effects of an iteration, in
the order in which the code makes them.

`Outcome` lists every way an iteration can end, in terms of the unread bytes (`processIteration_outcome`): none of them
is an exception, and an iteration that continues lowers the number of unread bytes or the rank of the state
(`processIteration_decreases`), which is why the loop ends.
-/

namespace CounterDrone

/-! ## State -/

/-- Maximum allowed payload size (bytes). -/
def MAX_PAYLOAD_SIZE : BitVec 16 := 256

/-- Parser state-machine states. -/
inductive State
  | waitHeader
  | waitLength
  | waitPayloadAndCrc
  deriving DecidableEq

/-- Per-client parser context. -/
structure ClientState where
  state : State := .waitHeader
  ringBuffer : Ring := .empty
  scratchBuf : List Byte := []
  payloadLength : BitVec 16 := 0

/-- The unread bytes of a client. -/
def ClientState.unread (cs : ClientState) : List Byte := cs.ringBuffer.bytes

/-- What the parser does besides changing the client's own state. -/
inductive Effect
  /-- `ring_buffer.consume(count)` -/
  | consume (count : Nat)
  /-- `++m_crc_failures` -/
  | crcFailure
  /-- `m_parsed_queue.push(telemetry)` -/
  | pushParsed (telemetry : Telemetry)
  /-- `m_log_queue.push(message)` -/
  | pushLog (message : String)
  deriving DecidableEq

/-- How one iteration of the loop of `process_client` ends. -/
inductive Iteration
  /-- `return` -/
  | done
  /-- an exception leaves the loop, after the given effects -/
  | throw (e : OutOfRange) (effects : List Effect)
  /-- `continue` -/
  | next (cs : ClientState) (effects : List Effect)

/-- `std::vector::resize`. -/
def resize (v : List Byte) (n : Nat) : List Byte := v.take n ++ List.replicate (n - v.length) 0

@[simp] theorem length_resize (v : List Byte) (n : Nat) : (resize v n).length = n := by
  simp only [resize, List.length_append, List.length_take, List.length_replicate]
  omega

/-! ## One iteration -/

section Iteration

variable (native : Endian)

/-- `case State::WAIT_HEADER`. -/
def waitHeader (cs : ClientState) : Iteration :=
  if cs.ringBuffer.size < HEADER_SIZE then .done
  else
    match cs.ringBuffer.peek (List.replicate HEADER_SIZE 0) with
    | .error e => .throw e []
    | .ok headerBuf =>
      let header : BitVec 16 := fromBigEndian native (loadHost native 2 headerBuf)
      if header ≠ PACKET_HEADER then
        -- not the magic marker: drop one byte and retry
        match cs.ringBuffer.consume 1 with
        | .error e => .throw e []
        | .ok rb => .next { cs with ringBuffer := rb } [.consume 1]
      else .next { cs with state := .waitLength } []

/-- `case State::WAIT_LENGTH`. -/
def waitLength (cs : ClientState) : Iteration :=
  if cs.ringBuffer.size < HEADER_SIZE + LENGTH_SIZE then .done
  else
    match cs.ringBuffer.peek (List.replicate (HEADER_SIZE + LENGTH_SIZE) 0) with
    | .error e => .throw e []
    | .ok headerLengthBuf =>
      let payloadLength : BitVec 16 :=
        fromBigEndian native (loadHost native 2 ((headerLengthBuf.drop HEADER_SIZE).take LENGTH_SIZE))
      if payloadLength = 0 ∨ payloadLength > MAX_PAYLOAD_SIZE then
        -- absurd length: the header was a coincidence
        match cs.ringBuffer.consume 1 with
        | .error e => .throw e []
        | .ok rb =>
          .next { cs with state := .waitHeader, ringBuffer := rb, payloadLength := payloadLength } [.consume 1]
      else .next { cs with state := .waitPayloadAndCrc, payloadLength := payloadLength } []

def mismatchText : String := "[StreamingParser] CRC mismatch — resyncing\n"

def malformedText : String := "[StreamingParser] Malformed payload — skipping\n"

/-- `case State::WAIT_PAYLOAD_AND_CRC`. -/
def waitPayloadAndCrc (cs : ClientState) : Iteration :=
  let total := HEADER_SIZE + LENGTH_SIZE + cs.payloadLength.toNat + CRC_SIZE
  if cs.ringBuffer.size < total then .done
  else
    match cs.ringBuffer.peek (resize cs.scratchBuf total) with
    | .error e => .throw e []
    | .ok scratchBuf =>
      let crcDataLen := HEADER_SIZE + LENGTH_SIZE + cs.payloadLength.toNat
      let computedCrc := computeCrc16 scratchBuf crcDataLen
      let receivedCrc : BitVec 16 :=
        fromBigEndian native (loadHost native 2 ((scratchBuf.drop crcDataLen).take CRC_SIZE))
      if receivedCrc ≠ computedCrc then
        match cs.ringBuffer.consume 1 with
        | .error e => .throw e [.crcFailure, .pushLog mismatchText]
        | .ok rb =>
          .next { cs with state := .waitHeader, ringBuffer := rb, scratchBuf := scratchBuf }
            [.crcFailure, .pushLog mismatchText, .consume 1]
      else
        match cs.ringBuffer.consume total with
        | .error e => .throw e []
        | .ok rb =>
          let cs' := { cs with state := .waitHeader, ringBuffer := rb, scratchBuf := scratchBuf }
          match deserializePayload native (scratchBuf.drop (HEADER_SIZE + LENGTH_SIZE)) cs.payloadLength.toNat with
          | some telemetry => .next cs' [.consume total, .pushParsed telemetry]
          | none => .next cs' [.consume total, .crcFailure, .pushLog malformedText]

/-- One iteration of the loop of `process_client`. -/
def processIteration (cs : ClientState) : Iteration :=
  match cs.state with
  | .waitHeader => waitHeader native cs
  | .waitLength => waitLength native cs
  | .waitPayloadAndCrc => waitPayloadAndCrc native cs

end Iteration

/-! ## What one iteration does, in terms of the unread bytes -/

section Cases

variable (native : Endian) {cs : ClientState}

theorem length_unread (cs : ClientState) : cs.unread.length = cs.ringBuffer.size := Ring.length_bytes _

theorem waitHeader_short (h : cs.unread.length < 2) : waitHeader native cs = .done := by
  rw [length_unread] at h
  exact if_pos h

/-- The header field that `WAIT_HEADER` reads. -/
theorem waitHeader_peek (h : 2 ≤ cs.unread.length) :
    cs.ringBuffer.peek (List.replicate HEADER_SIZE 0) = .ok (cs.unread.take 2) := by
  rw [length_unread] at h
  exact Ring.peek_ok _ _ h

theorem waitHeader_skip (h : 2 ≤ cs.unread.length) (hne : beWord 2 (cs.unread.take 2) ≠ PACKET_HEADER) :
    ∃ rb : Ring, waitHeader native cs = .next { cs with ringBuffer := rb } [.consume 1] ∧
      rb.bytes = cs.unread.drop 1 ∧ rb.raw.capacity = cs.ringBuffer.raw.capacity := by
  have hload := fromBigEndian_loadHost native (w := 2) (by omega) (cs.unread.take 2)
    (by rw [List.length_take]; omega)
  obtain ⟨rb, hrb, hbytes, hcap⟩ := Ring.consume_ok cs.ringBuffer (n := 1) (by rw [← length_unread]; omega)
  refine ⟨rb, ?_, hbytes, hcap⟩
  rw [waitHeader, if_neg (by rw [← length_unread]; exact Nat.not_lt.mpr h), waitHeader_peek h]
  simp only [hload, hrb]
  rw [if_pos hne]

theorem waitHeader_found (h : 2 ≤ cs.unread.length) (heq : beWord 2 (cs.unread.take 2) = PACKET_HEADER) :
    waitHeader native cs = .next { cs with state := .waitLength } [] := by
  have hload := fromBigEndian_loadHost native (w := 2) (by omega) (cs.unread.take 2)
    (by rw [List.length_take]; omega)
  rw [waitHeader, if_neg (by rw [← length_unread]; exact Nat.not_lt.mpr h), waitHeader_peek h]
  simp only [hload]
  rw [if_neg (not_not.mpr heq)]

theorem waitLength_short (h : cs.unread.length < 4) : waitLength native cs = .done := by
  rw [length_unread] at h
  exact if_pos h

/-- The length field of unread bytes that start with a header. -/
def lengthField (xs : List Byte) : BitVec 16 := beWord 2 ((xs.drop 2).take 2)

/-- A payload length that the parser accepts. -/
def InRange (len : BitVec 16) : Prop := ¬(len = 0 ∨ len > MAX_PAYLOAD_SIZE)

instance (len : BitVec 16) : Decidable (InRange len) := inferInstanceAs (Decidable (¬_))

theorem waitLength_peek (h : 4 ≤ cs.unread.length) :
    cs.ringBuffer.peek (List.replicate (HEADER_SIZE + LENGTH_SIZE) 0) = .ok (cs.unread.take 4) ∧
      fromBigEndian native (loadHost native 2 (((cs.unread.take 4).drop HEADER_SIZE).take LENGTH_SIZE)) =
        lengthField cs.unread := by
  have hfield : ((cs.unread.take 4).drop HEADER_SIZE).take LENGTH_SIZE = (cs.unread.drop 2).take 2 := by
    simp only [HEADER_SIZE, LENGTH_SIZE, List.drop_take, List.take_take]
    rfl
  refine ⟨Ring.peek_ok _ _ (by rw [← length_unread]; exact h), ?_⟩
  rw [hfield, fromBigEndian_loadHost native (by omega) _ (by rw [List.length_take, List.length_drop]; omega), lengthField]

theorem waitLength_bad (h : 4 ≤ cs.unread.length) (hbad : ¬InRange (lengthField cs.unread)) :
    ∃ rb : Ring, waitLength native cs = .next { cs with
        state := .waitHeader, ringBuffer := rb, payloadLength := lengthField cs.unread } [.consume 1] ∧
      rb.bytes = cs.unread.drop 1 ∧ rb.raw.capacity = cs.ringBuffer.raw.capacity := by
  obtain ⟨hpeek, hfield⟩ := waitLength_peek native h
  obtain ⟨rb, hrb, hbytes, hcap⟩ := Ring.consume_ok cs.ringBuffer (n := 1) (by rw [← length_unread]; omega)
  refine ⟨rb, ?_, hbytes, hcap⟩
  rw [waitLength, if_neg (by rw [← length_unread]; exact Nat.not_lt.mpr h), hpeek]
  simp only [hfield, hrb]
  rw [if_pos (not_not.mp hbad)]

theorem waitLength_good (h : 4 ≤ cs.unread.length) (hgood : InRange (lengthField cs.unread)) :
    waitLength native cs =
      .next { cs with state := .waitPayloadAndCrc, payloadLength := lengthField cs.unread } [] := by
  obtain ⟨hpeek, hfield⟩ := waitLength_peek native h
  rw [waitLength, if_neg (by rw [← length_unread]; exact Nat.not_lt.mpr h), hpeek]
  simp only [hfield]
  rw [if_neg hgood]

/-- The checksum of unread bytes that start with a frame of payload length `len` is the one it carries. -/
def CrcMatches (xs : List Byte) (len : Nat) : Prop :=
  beWord 2 ((xs.drop (4 + len)).take 2) = computeCrc16 xs (4 + len)

instance (xs : List Byte) (len : Nat) : Decidable (CrcMatches xs len) :=
  inferInstanceAs (Decidable (beWord 2 ((xs.drop (4 + len)).take 2) = computeCrc16 xs (4 + len)))

theorem total_eq (len : Nat) : HEADER_SIZE + LENGTH_SIZE + len + CRC_SIZE = len + 6 := by
  unfold HEADER_SIZE LENGTH_SIZE CRC_SIZE
  omega

theorem waitPayload_short (h : cs.unread.length < cs.payloadLength.toNat + 6) : waitPayloadAndCrc native cs = .done := by
  rw [length_unread] at h
  rw [waitPayloadAndCrc, total_eq, if_pos h]

/-- What `WAIT_PAYLOAD_AND_CRC` peeks and the checksum it reads. -/
theorem waitPayload_peek (h : cs.payloadLength.toNat + 6 ≤ cs.unread.length) :
    cs.ringBuffer.peek (resize cs.scratchBuf (cs.payloadLength.toNat + 6)) =
        .ok (cs.unread.take (cs.payloadLength.toNat + 6)) ∧
      computeCrc16 (cs.unread.take (cs.payloadLength.toNat + 6)) (HEADER_SIZE + LENGTH_SIZE + cs.payloadLength.toNat) =
        computeCrc16 cs.unread (4 + cs.payloadLength.toNat) ∧
      fromBigEndian native (loadHost native 2 (((cs.unread.take (cs.payloadLength.toNat + 6)).drop
          (HEADER_SIZE + LENGTH_SIZE + cs.payloadLength.toNat)).take CRC_SIZE)) =
        beWord 2 ((cs.unread.drop (4 + cs.payloadLength.toNat)).take 2) := by
  have hpeek := Ring.peek_ok cs.ringBuffer (resize cs.scratchBuf (cs.payloadLength.toNat + 6))
    (by rw [length_resize, ← length_unread]; exact h)
  rw [length_resize] at hpeek
  have hfield : ((cs.unread.take (cs.payloadLength.toNat + 6)).drop
      (HEADER_SIZE + LENGTH_SIZE + cs.payloadLength.toNat)).take CRC_SIZE =
      (cs.unread.drop (4 + cs.payloadLength.toNat)).take 2 := by
    simp only [HEADER_SIZE, LENGTH_SIZE, CRC_SIZE, List.drop_take, List.take_take]
    congr 1
    omega
  refine ⟨hpeek, ?_, ?_⟩
  · simp only [computeCrc16, HEADER_SIZE, LENGTH_SIZE, List.take_take]
    congr 2
    omega
  · rw [hfield, fromBigEndian_loadHost native (by omega) _ (by rw [List.length_take, List.length_drop]; omega)]

theorem waitPayload_mismatch (h : cs.payloadLength.toNat + 6 ≤ cs.unread.length)
    (hbad : ¬CrcMatches cs.unread cs.payloadLength.toNat) :
    ∃ (rb : Ring) (scratch : List Byte), waitPayloadAndCrc native cs =
        .next { cs with state := .waitHeader, ringBuffer := rb, scratchBuf := scratch }
          [.crcFailure, .pushLog mismatchText, .consume 1] ∧
      rb.bytes = cs.unread.drop 1 ∧ rb.raw.capacity = cs.ringBuffer.raw.capacity := by
  obtain ⟨hpeek, hcomp, hrecv⟩ := waitPayload_peek native h
  obtain ⟨rb, hrb, hbytes, hcap⟩ := Ring.consume_ok cs.ringBuffer (n := 1) (by rw [← length_unread]; omega)
  refine ⟨rb, cs.unread.take (cs.payloadLength.toNat + 6), ?_, hbytes, hcap⟩
  rw [waitPayloadAndCrc, total_eq, if_neg (by rw [← length_unread]; exact Nat.not_lt.mpr h), hpeek]
  simp only [hcomp, hrecv, hrb]
  exact if_pos hbad

/-- The effects of a frame taken as a whole. -/
def frameEffects (total : Nat) : Option Telemetry → List Effect
  | some telemetry => [.consume total, .pushParsed telemetry]
  | none => [.consume total, .crcFailure, .pushLog malformedText]

theorem waitPayload_frame (h : cs.payloadLength.toNat + 6 ≤ cs.unread.length)
    (hgood : CrcMatches cs.unread cs.payloadLength.toNat) :
    ∃ (rb : Ring) (scratch : List Byte), waitPayloadAndCrc native cs =
        .next { cs with state := .waitHeader, ringBuffer := rb, scratchBuf := scratch }
          (frameEffects (cs.payloadLength.toNat + 6)
            (deserializePayload native ((cs.unread.drop 4).take cs.payloadLength.toNat) cs.payloadLength.toNat)) ∧
      rb.bytes = cs.unread.drop (cs.payloadLength.toNat + 6) ∧ rb.raw.capacity = cs.ringBuffer.raw.capacity := by
  obtain ⟨hpeek, hcomp, hrecv⟩ := waitPayload_peek native h
  obtain ⟨rb, hrb, hbytes, hcap⟩ := Ring.consume_ok cs.ringBuffer (n := cs.payloadLength.toNat + 6)
    (by rw [← length_unread]; exact h)
  have hpayload : deserializePayload native ((cs.unread.take (cs.payloadLength.toNat + 6)).drop (HEADER_SIZE + LENGTH_SIZE))
      cs.payloadLength.toNat =
      deserializePayload native ((cs.unread.drop 4).take cs.payloadLength.toNat) cs.payloadLength.toNat := by
    rw [← deserialize_take, List.drop_take, List.take_take]
    simp only [HEADER_SIZE, LENGTH_SIZE]
    congr 2
    omega
  refine ⟨rb, cs.unread.take (cs.payloadLength.toNat + 6), ?_, hbytes, hcap⟩
  rw [waitPayloadAndCrc, total_eq, if_neg (by rw [← length_unread]; exact Nat.not_lt.mpr h), hpeek]
  simp only [hcomp, hrecv, hrb, hpayload]
  refine (if_neg (not_not.mpr hgood)).trans ?_
  cases deserializePayload native ((cs.unread.drop 4).take cs.payloadLength.toNat) cs.payloadLength.toNat <;> rfl

/-- Every way an iteration can end. -/
inductive Outcome (cs : ClientState) : Iteration → Prop
  | headerShort (hs : cs.state = .waitHeader) (h : cs.unread.length < 2) : Outcome cs .done
  | headerSkip (hs : cs.state = .waitHeader) (h : 2 ≤ cs.unread.length)
      (hne : beWord 2 (cs.unread.take 2) ≠ PACKET_HEADER) (rb : Ring) (hb : rb.bytes = cs.unread.drop 1)
      (hcap : rb.raw.capacity = cs.ringBuffer.raw.capacity) :
      Outcome cs (.next { cs with ringBuffer := rb } [.consume 1])
  | headerFound (hs : cs.state = .waitHeader) (h : 2 ≤ cs.unread.length)
      (heq : beWord 2 (cs.unread.take 2) = PACKET_HEADER) : Outcome cs (.next { cs with state := .waitLength } [])
  | lengthShort (hs : cs.state = .waitLength) (h : cs.unread.length < 4) : Outcome cs .done
  | lengthBad (hs : cs.state = .waitLength) (h : 4 ≤ cs.unread.length) (hbad : ¬InRange (lengthField cs.unread))
      (rb : Ring) (hb : rb.bytes = cs.unread.drop 1) (hcap : rb.raw.capacity = cs.ringBuffer.raw.capacity) :
      Outcome cs (.next { cs with
        state := .waitHeader, ringBuffer := rb, payloadLength := lengthField cs.unread } [.consume 1])
  | lengthGood (hs : cs.state = .waitLength) (h : 4 ≤ cs.unread.length) (hgood : InRange (lengthField cs.unread)) :
      Outcome cs (.next { cs with state := .waitPayloadAndCrc, payloadLength := lengthField cs.unread } [])
  | payloadShort (hs : cs.state = .waitPayloadAndCrc) (h : cs.unread.length < cs.payloadLength.toNat + 6) :
      Outcome cs .done
  | crcMismatch (hs : cs.state = .waitPayloadAndCrc) (h : cs.payloadLength.toNat + 6 ≤ cs.unread.length)
      (hbad : ¬CrcMatches cs.unread cs.payloadLength.toNat) (rb : Ring) (scratch : List Byte)
      (hb : rb.bytes = cs.unread.drop 1) (hcap : rb.raw.capacity = cs.ringBuffer.raw.capacity) :
      Outcome cs (.next { cs with state := .waitHeader, ringBuffer := rb, scratchBuf := scratch }
        [.crcFailure, .pushLog mismatchText, .consume 1])
  | frame (hs : cs.state = .waitPayloadAndCrc) (h : cs.payloadLength.toNat + 6 ≤ cs.unread.length)
      (hgood : CrcMatches cs.unread cs.payloadLength.toNat) (rb : Ring) (scratch : List Byte)
      (hb : rb.bytes = cs.unread.drop (cs.payloadLength.toNat + 6))
      (hcap : rb.raw.capacity = cs.ringBuffer.raw.capacity) :
      Outcome cs (.next { cs with state := .waitHeader, ringBuffer := rb, scratchBuf := scratch }
        (frameEffects (cs.payloadLength.toNat + 6)
          (deserializePayload native ((cs.unread.drop 4).take cs.payloadLength.toNat) cs.payloadLength.toNat)))

/-- **An iteration ends in one of these ways**, from every client state. -/
theorem processIteration_outcome (cs : ClientState) : Outcome native cs (processIteration native cs) := by
  unfold processIteration
  cases hs : cs.state with
  | waitHeader =>
    by_cases h : cs.unread.length < 2
    · simp only [waitHeader_short native h]
      exact .headerShort hs h
    · by_cases heq : beWord 2 (cs.unread.take 2) = PACKET_HEADER
      · simp only [waitHeader_found native (Nat.not_lt.mp h) heq]
        exact .headerFound hs (Nat.not_lt.mp h) heq
      · obtain ⟨rb, he, hb, hcap⟩ := waitHeader_skip native (Nat.not_lt.mp h) heq
        simp only [he]
        exact .headerSkip hs (Nat.not_lt.mp h) heq rb hb hcap
  | waitLength =>
    by_cases h : cs.unread.length < 4
    · simp only [waitLength_short native h]
      exact .lengthShort hs h
    · by_cases hgood : InRange (lengthField cs.unread)
      · simp only [waitLength_good native (Nat.not_lt.mp h) hgood]
        exact .lengthGood hs (Nat.not_lt.mp h) hgood
      · obtain ⟨rb, he, hb, hcap⟩ := waitLength_bad native (Nat.not_lt.mp h) hgood
        simp only [he]
        exact .lengthBad hs (Nat.not_lt.mp h) hgood rb hb hcap
  | waitPayloadAndCrc =>
    by_cases h : cs.unread.length < cs.payloadLength.toNat + 6
    · simp only [waitPayload_short native h]
      exact .payloadShort hs h
    · by_cases hgood : CrcMatches cs.unread cs.payloadLength.toNat
      · obtain ⟨rb, scratch, he, hb, hcap⟩ := waitPayload_frame native (Nat.not_lt.mp h) hgood
        simp only [he]
        exact .frame hs (Nat.not_lt.mp h) hgood rb scratch hb hcap
      · obtain ⟨rb, scratch, he, hb, hcap⟩ := waitPayload_mismatch native (Nat.not_lt.mp h) hgood
        simp only [he]
        exact .crcMismatch hs (Nat.not_lt.mp h) hgood rb scratch hb hcap

/-- **No iteration throws**: every `peek` and `consume` follows a test of the size. -/
theorem processIteration_ne_throw (cs : ClientState) (e : OutOfRange) (effects : List Effect) :
    processIteration native cs ≠ .throw e effects := by
  intro h
  have ho := processIteration_outcome native cs
  rw [h] at ho
  cases ho

/-- The rank of a state: an iteration that consumes nothing lowers it. -/
def State.rank : State → Nat
  | .waitHeader => 2
  | .waitLength => 1
  | .waitPayloadAndCrc => 0

/-- The size of a ring buffer without its first bytes. -/
theorem size_of_drop {rb : Ring} {n : Nat} (hn : n ≤ cs.unread.length) (hb : rb.bytes = cs.unread.drop n) :
    rb.size + n = cs.ringBuffer.size := by
  have hlen := congrArg List.length hb
  rw [Ring.length_bytes, List.length_drop, length_unread] at hlen
  rw [length_unread] at hn
  omega

/-- **An iteration that continues lowers the unread bytes, or keeps them and lowers the rank.** -/
theorem processIteration_decreases {cs cs' : ClientState} {effects : List Effect}
    (hit : processIteration native cs = .next cs' effects) :
    Prod.Lex (· < ·) (· < ·) (cs'.ringBuffer.size, cs'.state.rank) (cs.ringBuffer.size, cs.state.rank) := by
  have hdrop : ∀ {rb : Ring} {n : Nat}, 0 < n → n ≤ cs.unread.length → rb.bytes = cs.unread.drop n →
      rb.size < cs.ringBuffer.size := by
    intro rb n hn hle hb
    have := size_of_drop hle hb
    omega
  have ho := processIteration_outcome native cs
  rw [hit] at ho
  cases ho with
  | headerSkip hs h hne rb hb hcap => exact .left _ _ (hdrop Nat.one_pos (Nat.le_of_lt h) hb)
  | headerFound hs h heq => exact .right _ (by rw [hs]; exact Nat.lt_succ_self _)
  | lengthBad hs h hbad rb hb hcap => exact .left _ _ (hdrop Nat.one_pos (by omega) hb)
  | lengthGood hs h hgood => exact .right _ (by rw [hs]; exact Nat.lt_succ_self _)
  | crcMismatch hs h hbad rb scratch hb hcap => exact .left _ _ (hdrop Nat.one_pos (by omega) hb)
  | frame hs h hgood rb scratch hb hcap => exact .left _ _ (hdrop (Nat.succ_pos _) h hb)

end Cases

/-! ## The loop -/

/-- `process_client`: the client's state at the end, or the exception that left the loop, and the effects. -/
def processClient (native : Endian) (cs : ClientState) : Except OutOfRange ClientState × List Effect :=
  match _h : processIteration native cs with
  | .done => (.ok cs, [])
  | .throw e effects => (.error e, effects)
  | .next cs' effects =>
    let r := processClient native cs'
    (r.1, effects ++ r.2)
termination_by (cs.ringBuffer.size, cs.state.rank)
decreasing_by exact processIteration_decreases native _h

theorem processClient_done {native : Endian} {cs : ClientState} (h : processIteration native cs = .done) :
    processClient native cs = (.ok cs, []) := by
  rw [processClient]
  split
  · rfl
  · rename_i h'; rw [h] at h'; cases h'
  · rename_i h'; rw [h] at h'; cases h'

theorem processClient_next {native : Endian} {cs cs' : ClientState} {effects : List Effect}
    (h : processIteration native cs = .next cs' effects) :
    processClient native cs = ((processClient native cs').1, effects ++ (processClient native cs').2) := by
  rw [processClient]
  split
  · rename_i h'; rw [h] at h'; cases h'
  · rename_i h'; rw [h] at h'; cases h'
  · rename_i h'; rw [h] at h'; cases h'; rfl

/-- Induction along the loop of `process_client`. -/
theorem processClient_induction (native : Endian) {P : ClientState → Prop}
    (hdone : ∀ cs, processIteration native cs = .done → P cs)
    (hnext : ∀ cs cs' effects, processIteration native cs = .next cs' effects → P cs' → P cs) (cs : ClientState) : P cs := by
  induction cs using processClient.induct native with
  | case1 cs h => exact hdone cs h
  | case2 cs e effects h => exact absurd h (processIteration_ne_throw native cs e effects)
  | case3 cs cs' effects h ih => exact hnext cs cs' effects h ih

/-! ## The loop of `run` -/

/-- The telemetry that effects push. -/
def parsed (effects : List Effect) : List Telemetry :=
  effects.filterMap fun
    | .pushParsed t => some t
    | _ => none

/-- How much effects add to the failure counter. -/
def failures (effects : List Effect) : Nat := effects.count .crcFailure

theorem parsed_append (a b : List Effect) : parsed (a ++ b) = parsed a ++ parsed b := List.filterMap_append

@[simp] theorem failures_nil : failures [] = 0 := rfl

theorem failures_append (a b : List Effect) : failures (a ++ b) = failures a + failures b := List.count_append

/-- The parser: the failure counter, and the client states by socket. -/
structure StreamingParser where
  crcFailures : BitVec 64 := 0
  clients : Int → Option ClientState := fun _ => none

namespace StreamingParser

/-- `m_clients[id]`: a fresh state when there is none. -/
def entry (p : StreamingParser) (id : Int) : ClientState := (p.clients id).getD {}

/-- `m_clients.erase(id)`. -/
def erase (p : StreamingParser) (id : Int) : StreamingParser := { p with clients := Function.update p.clients id none }

/-- The state of a client after its loop, and the failures counted in it. -/
def store (p : StreamingParser) (id : Int) (cs : ClientState) (effects : List Effect) : StreamingParser :=
  { crcFailures := p.crcFailures + BitVec.ofNat 64 (failures effects), clients := Function.update p.clients id (some cs) }

end StreamingParser

def cleanedUpText (id : Int) : String := "[StreamingParser] Cleaned up state for client fd=" ++ toString id ++ "\n"

def overflowDropText (what : String) (id : Int) : String :=
  "[StreamingParser] " ++ what ++ " — dropping client fd=" ++ toString id ++ "\n"

def unexpectedDropText (what : String) (id : Int) : String :=
  "[StreamingParser] Unexpected error for client fd=" ++ toString id ++ ": " ++ what ++ " — dropping client\n"

/-- The four ends of the body of the loop of `run`. -/
inductive Exit
  /-- empty chunk: the client's state is erased -/
  | cleanedUp
  /-- the push overflowed: the client is dropped -/
  | overflow
  /-- `process_client` threw: the client is dropped -/
  | unexpected
  /-- `process_client` returned -/
  | processed
  deriving DecidableEq

/-- The result of handling one chunk. -/
structure Handled where
  parser : StreamingParser
  effects : List Effect
  exit : Exit

/-- The body of the loop of `run`, for one chunk. -/
def handleChunk (native : Endian) (p : StreamingParser) (chunk : DataChunk) : Handled :=
  if chunk.data = [] then
    ⟨p.erase chunk.clientId, [.pushLog (cleanedUpText chunk.clientId)], .cleanedUp⟩
  else
    let cs := p.entry chunk.clientId
    match cs.ringBuffer.push chunk.data with
    | .error e => ⟨p.erase chunk.clientId, [.pushLog (overflowDropText e.what chunk.clientId)], .overflow⟩
    | .ok rb =>
      match processClient native { cs with ringBuffer := rb } with
      | (.error e, effects) =>
        ⟨{ p.erase chunk.clientId with crcFailures := p.crcFailures + BitVec.ofNat 64 (failures effects) },
          effects ++ [.pushLog (unexpectedDropText e.what chunk.clientId)], .unexpected⟩
      | (.ok cs', effects) => ⟨p.store chunk.clientId cs' effects, effects, .processed⟩

section Handle

variable {native : Endian} {p : StreamingParser} {c : Int} {data : List Byte}

theorem handleChunk_cleanedUp : handleChunk native p ⟨c, []⟩ =
    ⟨p.erase c, [.pushLog (cleanedUpText c)], .cleanedUp⟩ := if_pos rfl

theorem handleChunk_overflow (hd : data ≠ []) {e : OverflowError} (hpush : (p.entry c).ringBuffer.push data = .error e) :
    handleChunk native p ⟨c, data⟩ = ⟨p.erase c, [.pushLog (overflowDropText e.what c)], .overflow⟩ := by
  rw [handleChunk, if_neg hd]
  simp only [hpush]

theorem handleChunk_unexpected (hd : data ≠ []) {rb : Ring} (hpush : (p.entry c).ringBuffer.push data = .ok rb)
    {e : OutOfRange} {effects : List Effect}
    (hrun : processClient native { p.entry c with ringBuffer := rb } = (.error e, effects)) :
    handleChunk native p ⟨c, data⟩ = ⟨{ p.erase c with crcFailures := p.crcFailures + BitVec.ofNat 64 (failures effects) },
      effects ++ [.pushLog (unexpectedDropText e.what c)], .unexpected⟩ := by
  rw [handleChunk, if_neg hd]
  simp only [hpush, hrun]

theorem handleChunk_processed (hd : data ≠ []) {rb : Ring} (hpush : (p.entry c).ringBuffer.push data = .ok rb)
    {cs : ClientState} {effects : List Effect}
    (hrun : processClient native { p.entry c with ringBuffer := rb } = (.ok cs, effects)) :
    handleChunk native p ⟨c, data⟩ = ⟨p.store c cs effects, effects, .processed⟩ := by
  rw [handleChunk, if_neg hd]
  simp only [hpush, hrun]

end Handle

/-- The loop of `run` over the chunks it pops: the parser at the end, and each effect with the client whose chunk was
being handled. -/
def handleChunks (native : Endian) : StreamingParser → List DataChunk → StreamingParser × List (Int × Effect)
  | p, [] => (p, [])
  | p, chunk :: chunks =>
    let h := handleChunk native p chunk
    let r := handleChunks native h.parser chunks
    (r.1, h.effects.map (Prod.mk chunk.clientId) ++ r.2)

/-- A run over more chunks goes on where the first ones left the parser. -/
theorem handleChunks_append (native : Endian) : ∀ (p : StreamingParser) (xs ys : List DataChunk),
    handleChunks native p (xs ++ ys) =
      ((handleChunks native (handleChunks native p xs).1 ys).1,
        (handleChunks native p xs).2 ++ (handleChunks native (handleChunks native p xs).1 ys).2)
  | _, [], _ => rfl
  | p, chunk :: xs, ys => by
    rw [List.cons_append, handleChunks, handleChunks_append native _ xs ys, handleChunks, List.append_assoc]

end CounterDrone

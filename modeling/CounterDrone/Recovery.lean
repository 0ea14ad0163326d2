import Mathlib
import CounterDrone.Encoder
import CounterDrone.Resync

/-!
# Recovery from damaged traffic

A stream of segments: frames with telemetry, frames whose payload does not deserialize, frames with a wrong checksum
and noise (`Segment`, which carries what makes a segment one of its kind). Bytes without an adjacent `AA 55` are skipped
one by one and leave the scan aligned with what follows them (`frameScan_skip`), so the parser recovers exactly the
telemetry of the good frames and counts exactly the bad ones (`exact_recovery`).
-/

namespace CounterDrone

/-! ## Segments -/

/-- No two adjacent bytes `AA 55`. -/
def NoPair (xs : List Byte) : Prop := ¬headerBytes <:+: xs

/-- One segment of a stream. -/
inductive Segment (native : Endian)
  /-- a valid frame whose payload deserializes -/
  | good (bytes : List Byte) (telemetry : Telemetry) (hv : ValidFrame bytes) (hlen : bytes.length = payloadLen bytes + 6)
      (hd : deserializePayload native (payloadOf bytes) (payloadLen bytes) = some telemetry)
  /-- a valid frame whose payload does not deserialize -/
  | malformed (bytes : List Byte) (hv : ValidFrame bytes) (hlen : bytes.length = payloadLen bytes + 6)
      (hd : deserializePayload native (payloadOf bytes) (payloadLen bytes) = none)
  /-- a frame with a wrong checksum and no `AA 55` but its own -/
  | damaged (bytes : List Byte) (hw : Whole bytes) (hlen : bytes.length = payloadLen bytes + 6)
      (hbad : ¬CrcMatches bytes (payloadLen bytes)) (hpair : NoPair bytes.tail)
  /-- noise without `AA 55`, which does not begin with `55` -/
  | noise (bytes : List Byte) (hpair : NoPair bytes) (hhead : bytes.head? ≠ some 0x55)

namespace Segment

variable {native : Endian}

/-- The bytes of a segment. -/
def bytes : Segment native → List Byte
  | good bytes _ _ _ _ => bytes
  | malformed bytes _ _ _ => bytes
  | damaged bytes _ _ _ _ => bytes
  | noise bytes _ _ => bytes

/-- The telemetry of a segment. -/
def telemetry? : Segment native → Option Telemetry
  | good _ telemetry _ _ _ => some telemetry
  | malformed _ _ _ _ => none
  | damaged _ _ _ _ _ => none
  | noise _ _ _ => none

/-- A frame that the parser counts as a failure. -/
def bad : Segment native → Bool
  | good _ _ _ _ _ => false
  | malformed _ _ _ _ => true
  | damaged _ _ _ _ _ => true
  | noise _ _ _ => false

end Segment

/-- The bytes of a stream of segments. -/
def streamBytes {native : Endian} (segments : List (Segment native)) : List Byte := segments.flatMap Segment.bytes

/-- A packet that the load test builds with a corrupted checksum is a frame with a wrong checksum. -/
theorem buildPacket_corrupt {r : Record} (h : r.Fits) : ∃ bytes, buildPacket r true = some bytes ∧ Whole bytes ∧
    bytes.length = payloadLen bytes + 6 ∧ ¬CrcMatches bytes (payloadLen bytes) := by
  have hlen := length_encodePayload r.toTelemetry
  have hid := h.length
  refine ⟨_, buildPacket_eq h true, ?_⟩
  have hw := @whole_frameWith (encodePayload r.toTelemetry) (frameCrc (encodePayload r.toTelemetry) ^^^ 0xBEEF) []
    (by omega) (by omega)
  have hp := payloadLen_frameWith (frameCrc (encodePayload r.toTelemetry) ^^^ 0xBEEF) []
    (show (encodePayload r.toTelemetry).length ≤ 256 by omega)
  rw [List.append_nil] at hw hp
  rw [if_pos rfl]
  refine ⟨hw, by rw [length_frameWith, hp], ?_⟩
  have hc := @crcMatches_frameWith (encodePayload r.toTelemetry) (frameCrc (encodePayload r.toTelemetry) ^^^ 0xBEEF) []
  rw [List.append_nil] at hc
  rw [hp, hc]
  intro he
  simp at he

/-! ## Bytes that are skipped -/

section Skip

variable {native : Endian} {b : Byte} {xs rest : List Byte}

theorem NoPair.tail (h : NoPair (b :: xs)) : NoPair xs := fun hx => h (hx.trans (List.suffix_cons b xs).isInfix)

theorem NoPair.head_ne {b' : Byte} (h : NoPair (b :: b' :: xs)) : [b, b'] ≠ headerBytes :=
  fun he => h (he ▸ (List.prefix_append [b, b'] xs).isInfix)

/-- A byte of a skipped part and the byte behind it are not a header. -/
theorem NoPair.take2_ne (h : NoPair (b :: xs)) (hrest : rest.head? ≠ some 0x55) (h2 : 2 ≤ (b :: xs ++ rest).length) :
    (b :: xs ++ rest).take 2 ≠ headerBytes := by
  cases xs with
  | cons b' xs => exact h.head_ne
  | nil =>
    cases rest with
    | nil => simp at h2
    | cons b' rest =>
      intro he
      have hb' : b' = 0x55 := (List.cons.inj (List.cons.inj he).2).1
      exact hrest (congrArg some hb')

/-- What a scan comes to: the telemetry it emits, the failures it counts, and at most one byte left. -/
def ComesTo (native : Endian) (xs : List Byte) (telemetry : List Telemetry) (failures : Nat) : Prop :=
  emitted (frameScan native xs).1 = telemetry ∧ failed (frameScan native xs).1 = failures ∧
    (frameScan native xs).2.length ≤ 1

theorem comesTo_nil : ComesTo native [] [] 0 := by
  rw [ComesTo, frameScan_nil]
  exact ⟨rfl, rfl, Nat.zero_le _⟩

/-- **Bytes without a header are skipped** and change nothing about the rest. -/
theorem frameScan_skip {telemetry : List Telemetry} {failures : Nat} (h : NoPair xs) (hrest : rest.head? ≠ some 0x55)
    (hc : ComesTo native rest telemetry failures) : ComesTo native (xs ++ rest) telemetry failures := by
  induction xs with
  | nil => exact hc
  | cons b xs ih =>
    by_cases h2 : 2 ≤ (b :: xs ++ rest).length
    · have hlook := @look_noHeader native _ h2 (h.take2_ne hrest h2)
      have htail := ih h.tail
      rw [ComesTo, frameScan_move hlook]
      exact htail
    -- the last byte of the stream: the scan waits on it
    · have hlen : (b :: xs ++ rest).length < 2 := Nat.not_le.mp h2
      have hrest' : rest = [] := by
        rw [← List.length_eq_zero_iff]
        rw [List.cons_append, List.length_cons, List.length_append] at hlen
        omega
      subst hrest'
      rw [ComesTo, frameScan_nil] at hc
      rw [ComesTo, frameScan_wait (Or.inl hlen)]
      exact ⟨hc.1, hc.2.1, Nat.le_of_lt_succ hlen⟩

end Skip

/-! ## Streams of segments -/

section Stream

variable {native : Endian}

/-- A header begins with `AA`. -/
theorem Framed.head? {xs : List Byte} (h : Framed xs) : xs.head? = some 0xAA := by
  obtain ⟨hh, h4, _⟩ := h
  cases xs with
  | nil => simp at h4
  | cons b xs =>
    rw [List.take_succ_cons] at hh
    exact congrArg some (List.cons.inj hh).1

/-- A segment does not begin with `55`. -/
theorem Segment.head?_ne (s : Segment native) : s.bytes.head? ≠ some 0x55 := by
  cases s with
  | good _ _ hv _ _ => rw [Segment.bytes, hv.1.1.head?]; decide
  | malformed _ hv _ _ => rw [Segment.bytes, hv.1.1.head?]; decide
  | damaged _ hw _ _ _ => rw [Segment.bytes, hw.1.head?]; decide
  | noise _ _ hhead => exact hhead

theorem streamBytes_head?_ne (segments : List (Segment native)) : (streamBytes segments).head? ≠ some 0x55 := by
  induction segments with
  | nil => nofun
  | cons s segments ih =>
    rw [streamBytes, List.flatMap_cons, List.head?_append, ← streamBytes]
    have hs := s.head?_ne
    cases hb : s.bytes.head? with
    | none => exact ih
    | some b => rw [hb] at hs; exact hs

/-- A valid frame in front is taken as a whole. -/
theorem frameScan_valid {bytes : List Byte} (rest : List Byte) (hv : ValidFrame bytes)
    (hlen : bytes.length = payloadLen bytes + 6) :
    frameScan native (bytes ++ rest) =
      ((bytes.length, .frame (deserializePayload native (payloadOf bytes) (payloadLen bytes))) :: (frameScan native rest).1,
        (frameScan native rest).2) := by
  have hlook := @look_frame native _ (hv.append rest)
  rw [payloadLen_append rest hv.1.1.2.1, payloadOf_append rest hv.1, ← hlen] at hlook
  rw [frameScan_move hlook, List.drop_left]

/-- One segment in front of a stream. -/
theorem comesTo_segment (s : Segment native) {rest : List Byte} {telemetry : List Telemetry} {failures : Nat}
    (hrest : rest.head? ≠ some 0x55) (hc : ComesTo native rest telemetry failures) :
    ComesTo native (s.bytes ++ rest) (s.telemetry?.toList ++ telemetry) (failures + if s.bad then 1 else 0) := by
  obtain ⟨he, hf, hr⟩ := hc
  cases s with
  | good bytes t hv hlen hd =>
    rw [ComesTo, Segment.bytes, frameScan_valid rest hv hlen, hd]
    exact ⟨congrArg (t :: ·) he, hf, hr⟩
  | malformed bytes hv hlen hd =>
    rw [ComesTo, Segment.bytes, frameScan_valid rest hv hlen, hd]
    refine ⟨he, ?_, hr⟩
    rw [failed, List.countP_cons_of_pos (by simp), ← failed, hf]
    rfl
  | damaged bytes hw hlen hbad hpair =>
    have hlook := @look_mismatch native _ (hw.append rest)
      (by rw [payloadLen_append rest hw.1.2.1, crcMatches_append rest hw.2]; exact hbad)
    have h1 : 1 ≤ bytes.length := by omega
    obtain ⟨he', hf', hr'⟩ := frameScan_skip hpair hrest ⟨he, hf, hr⟩
    rw [ComesTo, Segment.bytes, frameScan_move hlook, List.drop_append_of_le_length h1, List.drop_one]
    refine ⟨he', ?_, hr'⟩
    rw [failed, List.countP_cons_of_pos (by simp), ← failed, hf']
    rfl
  | noise bytes hpair hhead => exact frameScan_skip hpair hrest ⟨he, hf, hr⟩

/-- A stream of segments comes to the telemetry of its good frames and the number of its bad ones. -/
theorem comesTo_stream (segments : List (Segment native)) :
    ComesTo native (streamBytes segments) (segments.filterMap Segment.telemetry?) (segments.countP Segment.bad) := by
  induction segments with
  | nil => exact comesTo_nil
  | cons s segments ih =>
    have h := comesTo_segment s (streamBytes_head?_ne segments) ih
    rw [streamBytes, List.flatMap_cons, ← streamBytes, List.countP_cons]
    cases ht : s.telemetry? with
    | none => rw [ht] at h; rw [List.filterMap_cons_none ht]; exact h
    | some t => rw [ht] at h; rw [List.filterMap_cons_some ht]; exact h

end Stream

/-- **Exact recovery.** However a stream of segments is cut into chunks, the parser pushes exactly the telemetry of the
good frames, in order, counts exactly the malformed and the damaged ones, and ends in `WAIT_HEADER` with at most one
unread byte. -/
theorem exact_recovery (native : Endian) (c : Int) (p : StreamingParser) (segments : List (Segment native))
    (chunks : List (List Byte)) (hfresh : p.clients c = none)
    (hcut : ∀ d ∈ chunks, d ≠ [] ∧ d.length ≤ RECV_BUF_SIZE) (hflat : chunks.flatten = streamBytes segments) :
    let r := handleChunks native p (chunks.map (DataChunk.mk c))
    parsed (r.2.map Prod.snd) = segments.filterMap Segment.telemetry? ∧
      failures (r.2.map Prod.snd) = segments.countP Segment.bad ∧
      r.1.crcFailures = p.crcFailures + BitVec.ofNat 64 (segments.countP Segment.bad) ∧
      (r.1.entry c).state = .waitHeader ∧ (r.1.entry c).unread.length ≤ 1 := by
  obtain ⟨p', hrun, hs, hrest, hfail, _⟩ := handleChunks_session native hfresh hcut
  obtain ⟨he, hf, hr⟩ := comesTo_stream segments
  rw [hflat] at hrun hrest hfail
  rw [← hrest] at hr
  simp only [hrun, untag]
  exact ⟨(parsed_moves _).trans he, (failures_moves _).trans hf, by rw [hfail, hf], hs.1.waitHeader hr, hr⟩

/-- Noise that ends with `AA`, a damaged frame, a good one and a malformed one, in two chunks. -/
theorem exact_recovery_four_kinds :
    let chunks : List (List Byte) := [[0x01, 0xAA, 0xAA, 0x55, 0x00, 0x01, 0x00, 0x00],
      [0x00] ++ zeroFrame ++ [0xAA, 0x55, 0x00, 0x01, 0x00, 0x44, 0x2C]]
    parsed ((handleChunks .little {} (chunks.map (DataChunk.mk 5))).2.map Prod.snd) = [zeroTelemetry] ∧
      (handleChunks .little {} (chunks.map (DataChunk.mk 5))).1.crcFailures = 2 := by
  have h := exact_recovery .little 5 {}
    [.noise [0x01, 0xAA] (by unfold NoPair; decide) (by decide),
      .damaged [0xAA, 0x55, 0x00, 0x01, 0x00, 0x00, 0x00] (by decide) (by decide) (by decide +kernel)
        (by unfold NoPair; decide),
      .good zeroFrame zeroTelemetry (by decide +kernel) (by decide +kernel) (by decide +kernel),
      .malformed [0xAA, 0x55, 0x00, 0x01, 0x00, 0x44, 0x2C] (by decide +kernel) (by decide) (by decide +kernel)]
    [[0x01, 0xAA, 0xAA, 0x55, 0x00, 0x01, 0x00, 0x00],
      [0x00] ++ zeroFrame ++ [0xAA, 0x55, 0x00, 0x01, 0x00, 0x44, 0x2C]] rfl (by decide +kernel) rfl
  exact ⟨h.1, h.2.2.1⟩

end CounterDrone

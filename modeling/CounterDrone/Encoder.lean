import Mathlib
import CounterDrone.Simulation

/-!
# The load test's encoder, and the round trip

`crc16_modbus`, `serialize_payload` and `build_packet` of `drone_load_test.py`, over unbounded integers and with their
exceptions (`none`): an id that is not ASCII, a number that does not fit its `struct` field.

The two checksums agree (`crc16Modbus_eq`), a packet of a record whose payload has at most 256 bytes is the frame of its
payload (`buildPacket_eq`), and a stream of such packets, however it is cut, comes out of the parser as the list of
records (`stream_round_trip`).
-/

namespace CounterDrone

/-! ## The encoder -/

/-- One bit of `crc16_modbus`. -/
def crc16ModbusBit (crc : Nat) : Nat := if crc &&& 1 ≠ 0 then (crc >>> 1) ^^^ 0xA001 else crc >>> 1

/-- `crc16_modbus`. -/
def crc16Modbus (data : List Byte) : Nat :=
  data.foldl (fun crc byte => crc16ModbusBit^[8] (crc ^^^ byte.toNat)) 0xFFFF &&& 0xFFFF

/-- `struct.pack(">H", n)`. -/
def packH (n : Nat) : Option (List Byte) := if n < 2 ^ 16 then some (beBytes 2 n) else none

/-- `struct.pack(">d", x)` and `struct.pack(">Q", x)` of a 64-bit pattern. -/
def packWord (x : BitVec 64) : List Byte := beBytes 8 x.toNat

/-- `str.encode("ascii")`. -/
def encodeAscii (s : String) : Option (List Byte) :=
  if ∀ ch ∈ s.toList, ch.toNat < 128 then some (s.toList.map fun ch => BitVec.ofNat 8 ch.toNat) else none

/-- The arguments of `build_packet` that describe a drone. -/
structure Record where
  droneId : String
  lat : BitVec 64
  lon : BitVec 64
  alt : BitVec 64
  speed : BitVec 64
  timestamp : BitVec 64

/-- `serialize_payload`. -/
def serializePayload (r : Record) : Option (List Byte) := do
  let idBytes ← encodeAscii r.droneId
  let idLen ← packH idBytes.length
  return idLen ++ idBytes ++ packWord r.lat ++ packWord r.lon ++ packWord r.alt ++ packWord r.speed ++
    packWord r.timestamp

/-- `build_packet`. -/
def buildPacket (r : Record) (corruptCrc : Bool) : Option (List Byte) := do
  let payload ← serializePayload r
  let headerBytes ← packH 0xAA55
  let lengthBytes ← packH payload.length
  let raw := headerBytes ++ lengthBytes ++ payload
  let crc := crc16Modbus raw
  let crc := if corruptCrc then crc ^^^ 0xBEEF else crc
  let crcBytes ← packH crc
  return raw ++ crcBytes

/-! ## The two checksums -/

theorem toNat_crcBit (crc : BitVec 16) : (crcBit crc).toNat = crc16ModbusBit crc.toNat := by
  have hbit : crc &&& 1 ≠ 0 ↔ crc.toNat &&& 1 ≠ 0 := by
    rw [Ne, ← BitVec.toNat_inj, BitVec.toNat_and]
    exact Iff.rfl
  unfold crcBit crc16ModbusBit
  by_cases h : crc &&& 1 ≠ 0
  · rw [if_pos h, if_pos (hbit.1 h), BitVec.toNat_xor, BitVec.toNat_ushiftRight]
    rfl
  · rw [if_neg h, if_neg (fun h' => h (hbit.2 h')), BitVec.toNat_ushiftRight]

theorem toNat_crcBits (crc : BitVec 16) : ∀ n, (crcBit^[n] crc).toNat = crc16ModbusBit^[n] crc.toNat
  | 0 => rfl
  | n + 1 => by
    rw [Function.iterate_succ_apply', Function.iterate_succ_apply', toNat_crcBit, toNat_crcBits crc n]

theorem toNat_crcFold : ∀ (data : List Byte) (crc : BitVec 16), (data.foldl crcByte crc).toNat =
    data.foldl (fun crc byte => crc16ModbusBit^[8] (crc ^^^ byte.toNat)) crc.toNat
  | [], _ => rfl
  | byte :: data, crc => by
    have hbyte : (byte.setWidth 16).toNat = byte.toNat := by
      rw [BitVec.toNat_setWidth]
      exact Nat.mod_eq_of_lt (Nat.lt_of_lt_of_le byte.isLt (by decide))
    rw [List.foldl_cons, List.foldl_cons, toNat_crcFold data, crcByte, toNat_crcBits, BitVec.toNat_xor, hbyte]

/-- **The Python checksum is the C++ one.** -/
theorem crc16Modbus_eq (data : List Byte) : crc16Modbus data = (computeCrc16 data data.length).toNat := by
  have hfold := toNat_crcFold data 0xFFFF
  have hmask : (computeCrc16 data data.length).toNat &&& 0xFFFF = (computeCrc16 data data.length).toNat := by
    rw [show 0xFFFF = 2 ^ 16 - 1 from rfl, Nat.and_two_pow_sub_one_eq_mod]
    exact Nat.mod_eq_of_lt (computeCrc16 data data.length).isLt
  rw [← hmask, computeCrc16, List.take_length, hfold]
  rfl

/-! ## Packets -/

/-- The record as the parser pushes it. -/
def Record.toTelemetry (r : Record) : Telemetry :=
  { droneId := r.droneId.toList.map fun ch => BitVec.ofNat 8 ch.toNat
    latitude := r.lat, longitude := r.lon, altitude := r.alt, speed := r.speed, timestamp := r.timestamp }

/-- An ASCII id whose payload has at most 256 bytes. -/
def Record.Fits (r : Record) : Prop := (∀ ch ∈ r.droneId.toList, ch.toNat < 128) ∧ 42 + r.droneId.length ≤ 256

theorem Record.Fits.length {r : Record} (h : r.Fits) : r.toTelemetry.droneId.length ≤ 214 := by
  have := h.2
  rw [Record.toTelemetry, List.length_map, String.length_toList]
  omega

theorem packH_eq {n : Nat} (h : n < 2 ^ 16) : packH n = some (beBytes 2 n) := if_pos h

theorem serializePayload_eq {r : Record} (h : r.Fits) : serializePayload r = some (encodePayload r.toTelemetry) := by
  have hlen := h.length
  have hid : encodeAscii r.droneId = some r.toTelemetry.droneId := if_pos h.1
  rw [serializePayload, hid]
  simp only [Option.bind_eq_bind, Option.bind_some, packH_eq (show r.toTelemetry.droneId.length < 2 ^ 16 by omega)]
  rfl

/-- **A packet is the frame of its payload**, with its own checksum or a wrong one. -/
theorem buildPacket_eq {r : Record} (h : r.Fits) (corruptCrc : Bool) :
    buildPacket r corruptCrc = some (frameWith (encodePayload r.toTelemetry)
      (if corruptCrc then frameCrc (encodePayload r.toTelemetry) ^^^ 0xBEEF else frameCrc (encodePayload r.toTelemetry))) := by
  have hlen : (encodePayload r.toTelemetry).length < 2 ^ 16 := by
    have := h.length
    rw [length_encodePayload]
    omega
  have hheader : packH 0xAA55 = some headerBytes := by decide
  have hcrc : crc16Modbus (headerBytes ++ beBytes 2 (encodePayload r.toTelemetry).length ++ encodePayload r.toTelemetry) =
      (frameCrc (encodePayload r.toTelemetry)).toNat := by
    rw [crc16Modbus_eq, frameCrc, ← length_frameBody]
    rfl
  rw [buildPacket, serializePayload_eq h]
  simp only [Option.bind_eq_bind, Option.bind_some, hheader, packH_eq hlen, hcrc]
  cases corruptCrc with
  | false =>
    simp only [Bool.false_eq_true, if_false, packH_eq (frameCrc (encodePayload r.toTelemetry)).isLt, Option.bind_some]
    rfl
  | true =>
    have hxor : (frameCrc (encodePayload r.toTelemetry)).toNat ^^^ 0xBEEF =
        (frameCrc (encodePayload r.toTelemetry) ^^^ 0xBEEF).toNat := by
      rw [BitVec.toNat_xor]
      rfl
    simp only [if_true, hxor, packH_eq (frameCrc (encodePayload r.toTelemetry) ^^^ 0xBEEF).isLt, Option.bind_some]
    rfl

/-! ## The round trip -/

/-- The packet stream of records. -/
def packetStream (records : List Record) : Option (List Byte) := (records.mapM fun r => buildPacket r false).map List.flatten

/-- The bytes of the packets of records that fit. -/
def packetBytes (records : List Record) : List Byte :=
  records.flatMap fun r => frameWith (encodePayload r.toTelemetry) (frameCrc (encodePayload r.toTelemetry))

theorem packetStream_eq : ∀ {records : List Record}, (∀ r ∈ records, r.Fits) →
    packetStream records = some (packetBytes records)
  | [], _ => rfl
  | r :: records, h => by
    have ih := packetStream_eq fun r' hr' => h r' (List.mem_cons_of_mem _ hr')
    obtain ⟨packets, hp, hflat⟩ := Option.map_eq_some_iff.mp ih
    have hhead := buildPacket_eq (h r List.mem_cons_self) false
    simp only [packetStream, List.mapM_cons, hhead, hp, packetBytes, List.flatMap_cons, Option.bind_eq_bind,
      Option.bind_some, Option.pure_def, Option.map_some, List.flatten_cons]
    rw [hflat]
    rfl

/-- The scan of a packet stream finds the packets and leaves nothing. -/
theorem frameScan_packetBytes (native : Endian) : ∀ {records : List Record}, (∀ r ∈ records, r.Fits) →
    emitted (frameScan native (packetBytes records)).1 = records.map Record.toTelemetry ∧
      failed (frameScan native (packetBytes records)).1 = 0 ∧ (frameScan native (packetBytes records)).2 = []
  | [], _ => by
    rw [packetBytes, List.flatMap_nil, frameScan_nil]
    exact ⟨rfl, rfl, rfl⟩
  | r :: records, h => by
    have hfit := (h r List.mem_cons_self).length
    have hlen := length_encodePayload r.toTelemetry
    obtain ⟨he, hf, hr⟩ := frameScan_packetBytes native fun r' hr' => h r' (List.mem_cons_of_mem _ hr')
    have hd : deserializePayload native (encodePayload r.toTelemetry) (encodePayload r.toTelemetry).length =
        some r.toTelemetry := by
      have := deserialize_encode native r.toTelemetry (by omega) [] (encodePayload r.toTelemetry).length (by omega)
      rwa [List.append_nil] at this
    have hscan := frameScan_frameWith native (encodePayload r.toTelemetry) (packetBytes records) (by omega)
      (by omega)
    rw [hd] at hscan
    rw [packetBytes, List.flatMap_cons, ← packetBytes, hscan]
    refine ⟨?_, ?_, hr⟩
    · rw [emitted, List.filterMap_cons, ← emitted, he]
      rfl
    · rw [failed, List.countP_cons_of_neg (by simp), ← failed, hf]

/-- **Encode/decode round trip.** Packets of any records that fit are built, and however their concatenation is cut
into chunks the parser pushes exactly these records, bit for bit and in order, counts no failure, and ends in
`WAIT_HEADER` with an empty buffer. -/
theorem stream_round_trip (native : Endian) (c : Int) (p : StreamingParser) (records : List Record)
    (hfresh : p.clients c = none) (hfit : ∀ r ∈ records, r.Fits) :
    ∃ stream, packetStream records = some stream ∧
      ∀ chunks : List (List Byte), (∀ d ∈ chunks, d ≠ [] ∧ d.length ≤ RECV_BUF_SIZE) → chunks.flatten = stream →
        let r := handleChunks native p (chunks.map (DataChunk.mk c))
        parsed (r.2.map Prod.snd) = records.map Record.toTelemetry ∧
          failures (r.2.map Prod.snd) = 0 ∧ r.1.crcFailures = p.crcFailures ∧
          (r.1.entry c).state = .waitHeader ∧ (r.1.entry c).unread = [] := by
  refine ⟨packetBytes records, packetStream_eq hfit, fun chunks hcut hflat => ?_⟩
  obtain ⟨he, hf, hr⟩ := frameScan_packetBytes native hfit
  obtain ⟨p', hrun, hs, hrest, hfail, _⟩ := handleChunks_session native hfresh hcut
  rw [hflat] at hrun hrest hfail
  rw [hr] at hrest
  simp only [hrun, untag]
  refine ⟨(parsed_moves _).trans he, (failures_moves _).trans hf, ?_, hs.1.waitHeader (by rw [hrest]; exact Nat.zero_le _), hrest⟩
  rw [hfail, hf, BitVec.add_zero]

/-- A record of the load test. -/
def oneRecord : Record := ⟨String.ofList ['D', '1'], 0x3FF0000000000000, 0, 0, 0, 7⟩

theorem oneRecord_fits : ∀ r ∈ [oneRecord], r.Fits := by
  intro r hr
  rw [List.mem_singleton.mp hr]
  exact ⟨by simp [oneRecord], by rw [← String.length_toList]; simp [oneRecord]⟩

theorem length_onePacket : (packetBytes [oneRecord]).length = 50 := by
  simp [packetBytes, length_encodePayload, Record.toTelemetry, oneRecord]

theorem onePacket_ne : packetBytes [oneRecord] ≠ [] := by
  intro h
  have hlen := length_onePacket
  rw [h] at hlen
  cases hlen

/-- The round trip of two records, cut inside the longitude of each. -/
theorem stream_round_trip_two :
    let records := [oneRecord, { oneRecord with alt := 0x4069000000000000, timestamp := 8 }]
    ∃ stream, packetStream records = some stream ∧ stream.length = 100 ∧
      let r := handleChunks .little {} [⟨3, stream.take 20⟩, ⟨3, (stream.drop 20).take 50⟩, ⟨3, stream.drop 70⟩]
      parsed (r.2.map Prod.snd) = records.map Record.toTelemetry ∧ r.1.crcFailures = 0 ∧ (r.1.entry 3).unread = [] := by
  intro records
  have hfit : ∀ r ∈ records, r.Fits := by
    intro r hr
    have hone := oneRecord_fits oneRecord List.mem_cons_self
    rcases List.mem_cons.mp hr with rfl | hr
    · exact hone
    · rw [List.mem_singleton.mp hr]
      exact hone
  obtain ⟨stream, hstream, hchunks⟩ := stream_round_trip .little 3 {} records rfl hfit
  have hlen : stream.length = 100 := by
    rw [packetStream_eq hfit, Option.some.injEq] at hstream
    rw [← hstream]
    simp [packetBytes, length_encodePayload, Record.toTelemetry, records, oneRecord]
  have hflat : [stream.take 20, (stream.drop 20).take 50, stream.drop 70].flatten = stream := by
    have hrest : (stream.drop 20).take 50 ++ stream.drop 70 = stream.drop 20 := by
      rw [show stream.drop 70 = (stream.drop 20).drop 50 by rw [List.drop_drop], List.take_append_drop]
    simp only [List.flatten_cons, List.flatten_nil, List.append_nil, hrest, List.take_append_drop]
  have hcut : ∀ d ∈ [stream.take 20, (stream.drop 20).take 50, stream.drop 70], d ≠ [] ∧ d.length ≤ RECV_BUF_SIZE := by
    have hsize : ∀ d : List Byte, 0 < d.length ∧ d.length ≤ RECV_BUF_SIZE → d ≠ [] ∧ d.length ≤ RECV_BUF_SIZE :=
      fun d h => ⟨List.ne_nil_of_length_pos h.1, h.2⟩
    intro d hd
    apply hsize
    simp only [List.mem_cons, List.not_mem_nil, or_false] at hd
    rcases hd with rfl | rfl | rfl <;> simp [hlen, RECV_BUF_SIZE]
  obtain ⟨hparsed, -, hfail, -, hunread⟩ := hchunks _ hcut hflat
  exact ⟨stream, hstream, hlen, hparsed, hfail, hunread⟩

end CounterDrone

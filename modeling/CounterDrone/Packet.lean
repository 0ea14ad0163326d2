import Mathlib
import CounterDrone.Telemetry

/-!
# Checksum and payload of a packet

`compute_crc16` and `deserialize_payload` of `streamingParser.cpp`. A payload is its id length, the id, and five
64-bit fields, each most significant byte first (`encodePayload`); `deserializePayload` reads one back, whatever
follows it (`deserialize_encode`), and looks at nothing beyond its length (`deserialize_take`).
-/

namespace CounterDrone

/-! ## Checksum -/

/-- One bit of the checksum: shift right, xor the polynomial when a one falls out. -/
def crcBit (crc : BitVec 16) : BitVec 16 :=
  if crc &&& 1 ≠ 0 then (crc >>> 1) ^^^ 0xA001 else crc >>> 1

/-- One byte of the checksum. -/
def crcByte (crc : BitVec 16) (byte : Byte) : BitVec 16 := crcBit^[8] (crc ^^^ byte.setWidth 16)

/-- CRC-16/MODBUS of the first `len` bytes. -/
def computeCrc16 (data : List Byte) (len : Nat) : BitVec 16 := (data.take len).foldl crcByte 0xFFFF

example : computeCrc16 [0x31, 0x32, 0x33, 0x34, 0x35, 0x36, 0x37, 0x38, 0x39] 9 = 0x4B37 := by decide +kernel

/-! ## Payload -/

/-- `read_field` for a field of `w` bytes: its value and the offset after it. -/
def readField (native : Endian) (w : Nat) (data : List Byte) (len offset : Nat) : Option (BitVec (8 * w) × Nat) :=
  if offset + w > len then none
  else some (fromBigEndian native (loadHost native w ((data.drop offset).take w)), offset + w)

def deserializePayload (native : Endian) (data : List Byte) (len : Nat) : Option Telemetry := do
  let (idLen, offset) ← readField native 2 data len 0
  if offset + idLen.toNat > len then none
  let droneId := (data.drop offset).take idLen.toNat
  let offset := offset + idLen.toNat
  let (latitude, offset) ← readField native 8 data len offset
  let (longitude, offset) ← readField native 8 data len offset
  let (altitude, offset) ← readField native 8 data len offset
  let (speed, offset) ← readField native 8 data len offset
  let (timestamp, _) ← readField native 8 data len offset
  return { droneId, latitude, longitude, altitude, speed, timestamp }

/-- The payload layout: id length, id, and the five fields. -/
def encodePayload (t : Telemetry) : List Byte :=
  beBytes 2 t.droneId.length ++ t.droneId ++ beBytes 8 t.latitude.toNat ++ beBytes 8 t.longitude.toNat ++
    beBytes 8 t.altitude.toNat ++ beBytes 8 t.speed.toNat ++ beBytes 8 t.timestamp.toNat

theorem length_encodePayload (t : Telemetry) : (encodePayload t).length = 42 + t.droneId.length := by
  simp only [encodePayload, List.length_append, length_beBytes]
  omega

/-- A field written at the offset is read, and the offset moves past it. -/
theorem readField_append (native : Endian) (w len : Nat) (hw : 1 < w) (pre post : List Byte) (v : BitVec (8 * w))
    (hlen : pre.length + w ≤ len) :
    readField native w (pre ++ (beBytes w v.toNat ++ post)) len pre.length = some (v, pre.length + w) := by
  rw [readField, if_neg (by omega), List.drop_left, List.take_append_of_le_length (by simp),
    List.take_of_length_le (by simp), fromBigEndian_loadHost native hw _ (length_beBytes _ _), beWord_beBytes]

/-- Reading a field looks at nothing beyond the length. -/
theorem readField_take (native : Endian) (w : Nat) (data : List Byte) (len offset : Nat) :
    readField native w (data.take len) len offset = readField native w data len offset := by
  unfold readField
  by_cases h : offset + w > len
  · rw [if_pos h, if_pos h]
  · rw [if_neg h, if_neg h, List.drop_take, List.take_take, Nat.min_eq_left (by omega)]

/-- **Deserializing looks at nothing beyond the length.** -/
theorem deserialize_take (native : Endian) (data : List Byte) (len : Nat) :
    deserializePayload native (data.take len) len = deserializePayload native data len := by
  unfold deserializePayload
  simp only [readField_take]
  cases h : readField native 2 data len 0 with
  | none => rfl
  | some r =>
    obtain ⟨idLen, offset⟩ := r
    simp only [Option.bind_eq_bind, Option.bind_some]
    by_cases hid : offset + idLen.toNat > len
    · simp [hid]
    · rw [List.drop_take, List.take_take, Nat.min_eq_left (by omega)]

/-- **A payload is read back**, whatever follows it. -/
theorem deserialize_encode (native : Endian) (t : Telemetry) (hid : t.droneId.length < 65536) (post : List Byte)
    (len : Nat) (hlen : 42 + t.droneId.length ≤ len) :
    deserializePayload native (encodePayload t ++ post) len = some t := by
  obtain ⟨id, lat, lon, alt, spd, ts⟩ := t
  simp only at hid hlen
  have hidv : (BitVec.ofNat (8 * 2) id.length).toNat = id.length := by
    rw [BitVec.toNat_ofNat, Nat.mod_eq_of_lt (by omega)]
  -- the data seen from each field: what was read before it, the field, and what follows
  have h0 := readField_append native 2 len (by omega) []
    (id ++ beBytes 8 lat.toNat ++ beBytes 8 lon.toNat ++ beBytes 8 alt.toNat ++ beBytes 8 spd.toNat ++
      beBytes 8 ts.toNat ++ post) (BitVec.ofNat (8 * 2) id.length) (by simp; omega)
  have h1 := readField_append native 8 len (by omega) (beBytes 2 id.length ++ id)
    (beBytes 8 lon.toNat ++ beBytes 8 alt.toNat ++ beBytes 8 spd.toNat ++ beBytes 8 ts.toNat ++ post) lat
    (by simp; omega)
  have h2 := readField_append native 8 len (by omega) (beBytes 2 id.length ++ id ++ beBytes 8 lat.toNat)
    (beBytes 8 alt.toNat ++ beBytes 8 spd.toNat ++ beBytes 8 ts.toNat ++ post) lon (by simp; omega)
  have h3 := readField_append native 8 len (by omega)
    (beBytes 2 id.length ++ id ++ beBytes 8 lat.toNat ++ beBytes 8 lon.toNat)
    (beBytes 8 spd.toNat ++ beBytes 8 ts.toNat ++ post) alt (by simp; omega)
  have h4 := readField_append native 8 len (by omega)
    (beBytes 2 id.length ++ id ++ beBytes 8 lat.toNat ++ beBytes 8 lon.toNat ++ beBytes 8 alt.toNat)
    (beBytes 8 ts.toNat ++ post) spd (by simp; omega)
  have h5 := readField_append native 8 len (by omega)
    (beBytes 2 id.length ++ id ++ beBytes 8 lat.toNat ++ beBytes 8 lon.toNat ++ beBytes 8 alt.toNat ++
      beBytes 8 spd.toNat) post ts (by simp; omega)
  have hstr : ((encodePayload ⟨id, lat, lon, alt, spd, ts⟩ ++ post).drop 2).take id.length = id := by
    have hsplit : encodePayload ⟨id, lat, lon, alt, spd, ts⟩ ++ post = beBytes 2 id.length ++ (id ++ (beBytes 8 lat.toNat ++
        beBytes 8 lon.toNat ++ beBytes 8 alt.toNat ++ beBytes 8 spd.toNat ++ beBytes 8 ts.toNat ++ post)) := by
      simp [encodePayload]
    rw [hsplit, List.drop_append_of_le_length (by simp), List.drop_of_length_le (by simp), List.nil_append,
      List.take_left]
  simp only [hidv, List.length_append, length_beBytes, List.length_nil, List.append_assoc, List.nil_append,
    Nat.zero_add] at h0 h1 h2 h3 h4 h5 hstr
  unfold deserializePayload
  simp only [encodePayload, List.append_assoc] at hstr ⊢
  rw [h0]
  simp only [Option.bind_eq_bind, Option.bind_some, hidv, hstr]
  rw [if_neg (by omega)]
  simp only [Nat.add_assoc] at h1 h2 h3 h4 h5 ⊢
  rw [h1]
  simp only [Option.bind_some]
  rw [h2]
  simp only [Option.bind_some]
  rw [h3]
  simp only [Option.bind_some]
  rw [h4]
  simp only [Option.bind_some]
  rw [h5]
  rfl

end CounterDrone

import Mathlib
import CounterDrone.Lib.Bytes

/-!
# Packet constants, telemetry records and byte order

The constants and records of `telemetry.h`, and `from_big_endian` of `streamingParser.cpp` on both kinds of host: a
field copied out of the wire bytes and converted is the number those bytes spell most significant first, whatever the
host's own order is (`fromBigEndian_loadHost`).
-/

namespace CounterDrone

/-! ## Constants and records -/

/-- Magic header value marking the start of every telemetry packet. -/
def PACKET_HEADER : BitVec 16 := 0xAA55

/-- Size of the packet header field in bytes. -/
def HEADER_SIZE : Nat := 2

/-- Size of the packet length field in bytes. -/
def LENGTH_SIZE : Nat := 2

/-- Size of the CRC-16 checksum field in bytes. -/
def CRC_SIZE : Nat := 2

/-- Size of the listener's receive buffer: the most bytes of one chunk. -/
def RECV_BUF_SIZE : Nat := 4096

/-- Telemetry data received from a drone. The `double` fields are their 64-bit patterns; `droneId` is a byte string, as
`std::string` is. -/
structure Telemetry where
  droneId : List Byte
  latitude : BitVec 64
  longitude : BitVec 64
  altitude : BitVec 64
  speed : BitVec 64
  timestamp : BitVec 64
  deriving DecidableEq

/-- Raw bytes tagged with the socket they came from; no bytes means that the client has disconnected. -/
structure DataChunk where
  clientId : Int
  data : List Byte
  deriving DecidableEq

/-! ## Byte order -/

/-- `std::endian::native`. -/
inductive Endian
  | little
  | big
  deriving DecidableEq

/-- The unsigned integer of `8 * w` bits whose object representation is `bytes`: what `memcpy` leaves in a variable. -/
def loadHost (native : Endian) (w : Nat) (bytes : List Byte) : BitVec (8 * w) :=
  match native with
  | .little => BitVec.ofNat _ (leNat bytes)
  | .big => BitVec.ofNat _ (beNat bytes)

/-- The object representation of an unsigned integer. -/
def storeHost (native : Endian) {w : Nat} (value : BitVec (8 * w)) : List Byte :=
  match native with
  | .little => leBytes w value.toNat
  | .big => beBytes w value.toNat

/-- `from_big_endian`: on a little-endian host, reverse the bytes of the object. -/
def fromBigEndian (native : Endian) {w : Nat} (value : BitVec (8 * w)) : BitVec (8 * w) :=
  if native = .little ∧ w > 1 then loadHost native w (storeHost native value).reverse else value

/-- The integer that bytes spell, most significant first. -/
def beWord (w : Nat) (bytes : List Byte) : BitVec (8 * w) := BitVec.ofNat _ (beNat bytes)

theorem pow256_eq (w : Nat) : 256 ^ w = 2 ^ (8 * w) := by
  rw [Nat.pow_mul]

theorem toNat_beWord {w : Nat} {bytes : List Byte} (h : bytes.length = w) : (beWord w bytes).toNat = beNat bytes := by
  have hlt := beNat_lt bytes
  rw [h, pow256_eq] at hlt
  rw [beWord, BitVec.toNat_ofNat, Nat.mod_eq_of_lt hlt]

/-- **A wire field is read the same on every host**: most significant byte first. -/
theorem fromBigEndian_loadHost (native : Endian) {w : Nat} (hw : 1 < w) (bytes : List Byte) (h : bytes.length = w) :
    fromBigEndian native (loadHost native w bytes) = beWord w bytes := by
  cases native with
  | big => simp [fromBigEndian, loadHost, beWord]
  | little =>
    have hlt := leNat_lt bytes
    rw [h, pow256_eq] at hlt
    have hstore : leBytes w (leNat bytes) = bytes := by rw [← h]; exact leBytes_leNat bytes
    simp only [fromBigEndian, loadHost, storeHost, BitVec.toNat_ofNat, Nat.mod_eq_of_lt hlt, hstore, leNat_reverse,
      beWord]
    rw [if_pos ⟨trivial, hw⟩]

/-- Two wire bytes as a number. -/
theorem toNat_beWord_pair (a b : Byte) : (beWord 2 [a, b]).toNat = a.toNat * 256 + b.toNat := by
  rw [toNat_beWord (w := 2) rfl, beNat_pair]

/-- A word written most significant byte first is read back. -/
theorem beWord_beBytes {w : Nat} (v : BitVec (8 * w)) : beWord w (beBytes w v.toNat) = v := by
  apply BitVec.eq_of_toNat_eq
  rw [toNat_beWord (length_beBytes _ _), beNat_beBytes (by rw [pow256_eq]; exact v.isLt)]

end CounterDrone

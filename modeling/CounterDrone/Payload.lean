import Mathlib
import CounterDrone.Packet
import CounterDrone.RingBuffer

/-!
# The payload grammar

`deserialize_payload` accepts exactly the byte strings that begin with a payload, and decodes them exactly
(`deserialize_exact`). `deserializeChecked` is the same function with every copy out of the payload checked against
its length: on a payload of its own length no copy fails, whichever branch is taken (`deserializeChecked_eq`).
-/

namespace CounterDrone

/-! ## Reads stay inside the payload -/

/-- `read_field` with its `memcpy` checked: the outer `none` is a copy that leaves the payload. -/
def readFieldChecked (native : Endian) (w : Nat) (data : List Byte) (len offset : Nat) :
    OptionT Option (BitVec (8 * w) × Nat) :=
  if offset + w > len then failure
  else do
    let bytes ← OptionT.lift (memcpy (List.replicate w 0) 0 data offset w)
    return (fromBigEndian native (loadHost native w bytes), offset + w)

/-- `deserialize_payload` with every copy checked. -/
def deserializeChecked (native : Endian) (data : List Byte) (len : Nat) : OptionT Option Telemetry := do
  let (idLen, offset) ← readFieldChecked native 2 data len 0
  if offset + idLen.toNat > len then failure
  let droneId ← OptionT.lift (memcpy (List.replicate idLen.toNat 0) 0 data offset idLen.toNat)
  let offset := offset + idLen.toNat
  let (latitude, offset) ← readFieldChecked native 8 data len offset
  let (longitude, offset) ← readFieldChecked native 8 data len offset
  let (altitude, offset) ← readFieldChecked native 8 data len offset
  let (speed, offset) ← readFieldChecked native 8 data len offset
  let (timestamp, _) ← readFieldChecked native 8 data len offset
  return { droneId, latitude, longitude, altitude, speed, timestamp }

/-- A copy of bytes that are there into a fresh variable. -/
theorem memcpy_fresh {data : List Byte} {offset n : Nat} (h : offset + n ≤ data.length) :
    memcpy (List.replicate n 0) 0 data offset n = some ((data.drop offset).take n) := by
  have hlen : ((data.drop offset).take n).length = n := by
    rw [List.length_take, List.length_drop]
    omega
  rw [memcpy_eq (by simp) h]
  simp [splice, hlen]

/-- A checked field is read as the unchecked one. -/
theorem readFieldChecked_eq (native : Endian) (w : Nat) {data : List Byte} {len : Nat} (hlen : len ≤ data.length)
    (offset : Nat) : readFieldChecked native w data len offset = OptionT.mk (some (readField native w data len offset)) := by
  unfold readFieldChecked readField
  by_cases h : offset + w > len
  · rw [if_pos h, if_pos h]
    rfl
  · rw [if_neg h, if_neg h, memcpy_fresh (by omega)]
    rfl

/-- A bind after a computation without a failed copy. -/
theorem checked_bind {α β : Type} {x : Option α} {f : α → OptionT Option β} {g : α → Option β}
    (h : ∀ a, x = some a → f a = OptionT.mk (some (g a))) :
    (OptionT.mk (some x) >>= f) = OptionT.mk (some (x.bind g)) := by
  cases x with
  | none => rfl
  | some a =>
    have hbind : (OptionT.mk (some (some a)) >>= f) = f a := rfl
    rw [hbind, h a rfl]
    rfl

/-- A bind after a copy that succeeds. -/
theorem checked_lift {α β : Type} (a : α) (f : α → OptionT Option β) : (OptionT.lift (some a) >>= f) = f a := rfl

/-- **No copy of `deserialize_payload` leaves the payload.** -/
theorem deserializeChecked_eq (native : Endian) {data : List Byte} {len : Nat} (hlen : len ≤ data.length) :
    deserializeChecked native data len = OptionT.mk (some (deserializePayload native data len)) := by
  unfold deserializeChecked deserializePayload
  simp only [readFieldChecked_eq native _ hlen]
  refine checked_bind ?_
  rintro ⟨idLen, offset⟩ -
  simp only
  by_cases hid : offset + idLen.toNat > len
  · rw [if_pos hid, if_pos hid]
    rfl
  · rw [if_neg hid, if_neg hid, memcpy_fresh (by omega), checked_lift]
    -- one bind for each of the five fields
    refine checked_bind ?_
    rintro ⟨latitude, offset⟩ -
    refine checked_bind ?_
    rintro ⟨longitude, offset⟩ -
    refine checked_bind ?_
    rintro ⟨altitude, offset⟩ -
    refine checked_bind ?_
    rintro ⟨speed, offset⟩ -
    refine checked_bind ?_
    rintro ⟨timestamp, offset⟩ -
    rfl

/-! ## Acceptance -/

/-- What a field that was read says about the payload. -/
theorem readField_bound {native : Endian} {w : Nat} {data : List Byte} {len offset : Nat} {r : BitVec (8 * w) × Nat}
    (h : readField native w data len offset = some r) : offset + w ≤ len ∧ r.2 = offset + w := by
  unfold readField at h
  split at h
  · cases h
  · cases h
    exact ⟨by omega, rfl⟩

/-- The id length that is read. -/
theorem readField_idLen {native : Endian} {data : List Byte} {len : Nat} (hlen : len ≤ data.length)
    {r : BitVec (8 * 2) × Nat} (h : readField native 2 data len 0 = some r) : r.1 = beWord 2 (data.take 2) := by
  obtain ⟨hb, -⟩ := readField_bound h
  rw [readField, if_neg (by omega), List.drop_zero, fromBigEndian_loadHost native (by decide) _ (by simp; omega)] at h
  cases h
  rfl

/-- An accepted payload has room for the fields its id length announces. -/
theorem deserialize_bound {native : Endian} {data : List Byte} {len : Nat} (hlen : len ≤ data.length) {t : Telemetry}
    (h : deserializePayload native data len = some t) : 42 + (beWord 2 (data.take 2)).toNat ≤ len := by
  unfold deserializePayload at h
  simp only [Option.bind_eq_bind] at h
  obtain ⟨⟨idLen, o0⟩, h0, h⟩ := Option.bind_eq_some_iff.mp h
  simp only at h
  split at h
  · cases h
  obtain ⟨⟨v1, o1⟩, h1, h⟩ := Option.bind_eq_some_iff.mp h
  obtain ⟨⟨v2, o2⟩, h2, h⟩ := Option.bind_eq_some_iff.mp h
  obtain ⟨⟨v3, o3⟩, h3, h⟩ := Option.bind_eq_some_iff.mp h
  obtain ⟨⟨v4, o4⟩, h4, h⟩ := Option.bind_eq_some_iff.mp h
  obtain ⟨⟨v5, o5⟩, h5, h⟩ := Option.bind_eq_some_iff.mp h
  have hid := readField_idLen hlen h0
  have b0 := readField_bound h0
  have b1 := readField_bound h1
  have b2 := readField_bound h2
  have b3 := readField_bound h3
  have b4 := readField_bound h4
  have b5 := readField_bound h5
  simp only at hid b0 b1 b2 b3 b4 b5
  rw [← hid]
  omega

/-- A field at the front of enough bytes. -/
theorem exists_field (w : Nat) (xs : List Byte) (h : w ≤ xs.length) :
    ∃ (v : BitVec (8 * w)) (post : List Byte), xs = beBytes w v.toNat ++ post ∧ post.length = xs.length - w := by
  have hlen : (xs.take w).length = w := by rw [List.length_take]; omega
  refine ⟨beWord w (xs.take w), xs.drop w, ?_, List.length_drop⟩
  have hfield := beBytes_beNat (xs.take w)
  rw [hlen] at hfield
  rw [toNat_beWord hlen, hfield, List.take_append_drop]

/-- Bytes with room for the fields their id length announces begin with a payload. -/
theorem exists_payload {d : List Byte} (h2 : 2 ≤ d.length) (h : 42 + (beWord 2 (d.take 2)).toNat ≤ d.length) :
    ∃ t : Telemetry, t.droneId.length ≤ 65535 ∧ ∃ r, d = encodePayload t ++ r := by
  obtain ⟨idLen, d1, hd, hlen1⟩ := exists_field 2 d h2
  have hid : (beWord 2 (d.take 2)).toNat = idLen.toNat := by
    rw [hd, List.take_append_of_le_length (by simp), List.take_of_length_le (by simp), beWord_beBytes]
  have hsplit := List.take_append_drop idLen.toNat d1
  have hid1 : (d1.take idLen.toNat).length = idLen.toNat := by rw [List.length_take]; omega
  have hid2 : (d1.drop idLen.toNat).length = d1.length - idLen.toNat := List.length_drop
  obtain ⟨lat, d2, he2, hlen2⟩ := exists_field 8 (d1.drop idLen.toNat) (by omega)
  obtain ⟨lon, d3, he3, hlen3⟩ := exists_field 8 d2 (by omega)
  obtain ⟨alt, d4, he4, hlen4⟩ := exists_field 8 d3 (by omega)
  obtain ⟨spd, d5, he5, hlen5⟩ := exists_field 8 d4 (by omega)
  obtain ⟨ts, d6, he6, -⟩ := exists_field 8 d5 (by omega)
  refine ⟨⟨d1.take idLen.toNat, lat, lon, alt, spd, ts⟩, ?_, d6, ?_⟩
  · have := idLen.isLt
    simp only [hid1]
    omega
  · rw [hd, ← hsplit, he2, he3, he4, he5, he6]
    simp [encodePayload, hid1]

/-- A payload has room for the fields its id length announces. -/
theorem length_of_payload {d : List Byte} {t : Telemetry} (ht : t.droneId.length ≤ 65535) {r : List Byte}
    (hd : d = encodePayload t ++ r) : 2 ≤ d.length ∧ 42 + (beWord 2 (d.take 2)).toNat ≤ d.length := by
  have hlen : d.length = 42 + t.droneId.length + r.length := by rw [hd, List.length_append, length_encodePayload]
  have hhead : d.take 2 = beBytes 2 t.droneId.length := by
    rw [hd, encodePayload]
    simp
  have hid : (beWord 2 (d.take 2)).toNat = t.droneId.length := by
    rw [hhead, toNat_beWord (by simp), beNat_beBytes (by omega)]
  omega

/-- **`deserialize_payload` accepts exactly the payload grammar**: it returns a record exactly when the bytes begin with
its encoding, and nothing exactly when they are too short for their id length; it copies nothing from outside the
payload, and both kinds of host agree. -/
theorem deserialize_exact (native : Endian) (d : List Byte) :
    (∀ t, deserializePayload native d d.length = some t ↔
      t.droneId.length ≤ 65535 ∧ ∃ r, d = encodePayload t ++ r) ∧
    (deserializePayload native d d.length = none ↔
      ¬∃ t : Telemetry, t.droneId.length ≤ 65535 ∧ ∃ r, d = encodePayload t ++ r) ∧
    (deserializePayload native d d.length = none ↔
      d.length < 2 ∨ 42 + (beWord 2 (d.take 2)).toNat > d.length) ∧
    deserializeChecked native d d.length = OptionT.mk (some (deserializePayload native d d.length)) ∧
    deserializePayload .little d d.length = deserializePayload .big d d.length := by
  have hcomplete : ∀ native t, (t.droneId.length ≤ 65535 ∧ ∃ r, d = encodePayload t ++ r) →
      deserializePayload native d d.length = some t := by
    rintro native t ⟨ht, r, hr⟩
    have hlen : 42 + t.droneId.length ≤ d.length := by
      rw [hr, List.length_append, length_encodePayload]
      omega
    have hread := deserialize_encode native t (by omega) r d.length hlen
    rwa [← hr] at hread
  have hsound : ∀ native t, deserializePayload native d d.length = some t →
      t.droneId.length ≤ 65535 ∧ ∃ r, d = encodePayload t ++ r := by
    intro native t h
    have hb := deserialize_bound (Nat.le_refl _) h
    obtain ⟨t', ht', hr⟩ := exists_payload (by omega) hb
    have h' := hcomplete native t' ⟨ht', hr⟩
    rw [h] at h'
    cases h'
    exact ⟨ht', hr⟩
  have hnone : ∀ native, deserializePayload native d d.length = none ↔
      ¬∃ t : Telemetry, t.droneId.length ≤ 65535 ∧ ∃ r, d = encodePayload t ++ r := by
    intro native
    rw [Option.eq_none_iff_forall_ne_some]
    constructor
    · rintro h ⟨t, ht⟩
      exact h t (hcomplete native t ht)
    · intro h t ht
      exact h ⟨t, hsound native t ht⟩
  refine ⟨fun t => ⟨hsound native t, hcomplete native t⟩, hnone native, ?_, deserializeChecked_eq native (Nat.le_refl _), ?_⟩
  · rw [hnone native]
    constructor
    · intro h
      by_contra hlt
      exact h (exists_payload (by omega) (by omega))
    · rintro h ⟨t, ht, r, hr⟩
      have := length_of_payload ht hr
      omega
  · cases hl : deserializePayload .little d d.length with
    | none => exact ((hnone .big).mpr ((hnone .little).mp hl)).symm
    | some t => exact (hcomplete .big t (hsound .little t hl)).symm

end CounterDrone

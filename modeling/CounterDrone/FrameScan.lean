import Mathlib
import CounterDrone.Lib.Scanner
import CounterDrone.StreamingParser

/-!
# The reference scan

What the parser is for, said of a whole byte string and without a state machine: at the current position a valid frame
is taken as a whole, the beginning of a possible frame stops the scan, and anything else is skipped by one byte
(`look`). `frameScanner` is this decision as an incremental scanner: more bytes never change a move.
-/

namespace CounterDrone

/-! ## Frames -/

/-- The two bytes of the packet header. -/
def headerBytes : List Byte := [0xAA, 0x55]

/-- The length field of bytes that start with a header. -/
def payloadLen (xs : List Byte) : Nat := beNat ((xs.drop 2).take 2)

/-- A header, and a length field in range. -/
def Framed (xs : List Byte) : Prop :=
  xs.take 2 = headerBytes ∧ 4 ≤ xs.length ∧ 1 ≤ payloadLen xs ∧ payloadLen xs ≤ 256

/-- A header, a length field in range, and all the bytes of such a frame. -/
def Whole (xs : List Byte) : Prop := Framed xs ∧ payloadLen xs + 6 ≤ xs.length

/-- A whole frame with the checksum of its first bytes. -/
def ValidFrame (xs : List Byte) : Prop := Whole xs ∧ CrcMatches xs (payloadLen xs)

/-- A proper prefix of a possible frame. -/
def Unfinished (xs : List Byte) : Prop :=
  xs.length < 2 ∨ (xs.take 2 = headerBytes ∧ xs.length < 4) ∨ (Framed xs ∧ xs.length < payloadLen xs + 6)

instance (xs : List Byte) : Decidable (Framed xs) := inferInstanceAs (Decidable (_ ∧ _ ∧ _ ∧ _))

instance (xs : List Byte) : Decidable (Whole xs) := inferInstanceAs (Decidable (_ ∧ _))

instance (xs : List Byte) : Decidable (ValidFrame xs) := inferInstanceAs (Decidable (_ ∧ _))

instance (xs : List Byte) : Decidable (Unfinished xs) := inferInstanceAs (Decidable (_ ∨ _ ∨ _))

/-- The payload of bytes that start with a whole frame. -/
def payloadOf (xs : List Byte) : List Byte := (xs.drop 4).take (payloadLen xs)

/-! ## The decision at one position -/

/-- What the scan finds at a position it leaves. -/
inductive Found
  /-- no frame here -/
  | noFrame
  /-- a whole frame with a wrong checksum -/
  | crcMismatch
  /-- a valid frame, and its payload deserialized -/
  | frame (telemetry : Option Telemetry)
  deriving DecidableEq

/-- The decision at one position. -/
def look (native : Endian) (xs : List Byte) : Verdict Found :=
  if ValidFrame xs then .move (payloadLen xs + 6) (.frame (deserializePayload native (payloadOf xs) (payloadLen xs)))
  else if Unfinished xs then .wait
  else if Whole xs then .move 1 .crcMismatch
  else .move 1 .noFrame

section Look

variable {native : Endian} {xs : List Byte}

theorem look_frame (h : ValidFrame xs) : look native xs =
    .move (payloadLen xs + 6) (.frame (deserializePayload native (payloadOf xs) (payloadLen xs))) := if_pos h

theorem Unfinished.not_whole (h : Unfinished xs) : ¬Whole xs := by
  rintro ⟨⟨hh, h4, hf⟩, hw⟩
  rcases h with h | ⟨_, h⟩ | ⟨_, h⟩ <;> omega

theorem look_wait (h : Unfinished xs) : look native xs = .wait := by
  rw [look, if_neg fun hv => h.not_whole hv.1, if_pos h]

theorem Whole.not_unfinished (h : Whole xs) : ¬Unfinished xs := fun hu => hu.not_whole h

theorem look_mismatch (h : Whole xs) (hbad : ¬CrcMatches xs (payloadLen xs)) : look native xs = .move 1 .crcMismatch := by
  rw [look, if_neg fun hv => hbad hv.2, if_neg h.not_unfinished, if_pos h]

theorem look_noFrame (hu : ¬Unfinished xs) (hw : ¬Whole xs) : look native xs = .move 1 .noFrame := by
  rw [look, if_neg fun hv => hw hv.1, if_neg hu, if_neg hw]

/-- Bytes that do not start with the header are skipped. -/
theorem look_noHeader (h2 : 2 ≤ xs.length) (hh : xs.take 2 ≠ headerBytes) : look native xs = .move 1 .noFrame := by
  refine look_noFrame ?_ fun hw => hh hw.1.1
  rintro (h | ⟨h, _⟩ | ⟨h, _⟩)
  · omega
  · exact hh h
  · exact hh h.1

/-- A header with a length out of range is skipped. -/
theorem look_badLength (h4 : 4 ≤ xs.length) (hf : ¬Framed xs) : look native xs = .move 1 .noFrame := by
  refine look_noFrame ?_ fun hw => hf hw.1
  rintro (h | ⟨_, h⟩ | ⟨h, _⟩)
  · omega
  · omega
  · exact hf h

/-- Every move, with what was found there. -/
theorem look_cases (native : Endian) (xs : List Byte) :
    (Unfinished xs ∧ look native xs = .wait) ∨
    (ValidFrame xs ∧ look native xs =
      .move (payloadLen xs + 6) (.frame (deserializePayload native (payloadOf xs) (payloadLen xs)))) ∨
    (Whole xs ∧ ¬CrcMatches xs (payloadLen xs) ∧ look native xs = .move 1 .crcMismatch) ∨
    (¬Unfinished xs ∧ ¬Whole xs ∧ look native xs = .move 1 .noFrame) := by
  by_cases hu : Unfinished xs
  · exact Or.inl ⟨hu, look_wait hu⟩
  · by_cases hw : Whole xs
    · by_cases hc : CrcMatches xs (payloadLen xs)
      · exact Or.inr (Or.inl ⟨⟨hw, hc⟩, look_frame ⟨hw, hc⟩⟩)
      · exact Or.inr (Or.inr (Or.inl ⟨hw, hc, look_mismatch hw hc⟩))
    · exact Or.inr (Or.inr (Or.inr ⟨hu, hw, look_noFrame hu hw⟩))

theorem unfinished_of_wait (h : look native xs = .wait) : Unfinished xs := by
  rcases look_cases native xs with ⟨hu, _⟩ | ⟨_, he⟩ | ⟨_, _, he⟩ | ⟨_, _, he⟩
  · exact hu
  all_goals rw [h] at he; cases he

end Look

/-! ## The first four bytes -/

section Front

variable {xs ys : List Byte}

theorem take2_of_take (h : xs.take 4 = ys.take 4) : xs.take 2 = ys.take 2 := by
  have hfront : ∀ zs : List Byte, zs.take 2 = (zs.take 4).take 2 := by
    intro zs
    rw [List.take_take, Nat.min_eq_left (by omega)]
  rw [hfront xs, h, ← hfront]

/-- The length field is in the first four bytes. -/
theorem payloadLen_of_take (h : xs.take 4 = ys.take 4) : payloadLen xs = payloadLen ys := by
  have hfield : ∀ zs : List Byte, (zs.drop 2).take 2 = (zs.take 4).drop 2 := by
    intro zs
    rw [List.drop_take]
  rw [payloadLen, hfield xs, h, ← hfield, payloadLen]

end Front

/-! ## More bytes -/

section Append

variable {xs : List Byte} (ys : List Byte)

theorem take2_append (h : 2 ≤ xs.length) : (xs ++ ys).take 2 = xs.take 2 := List.take_append_of_le_length h

theorem payloadLen_append (h : 4 ≤ xs.length) : payloadLen (xs ++ ys) = payloadLen xs := by
  rw [payloadLen, List.drop_append_of_le_length (by omega), List.take_append_of_le_length (by rw [List.length_drop]; omega),
    payloadLen]

theorem framed_append (h : 4 ≤ xs.length) : Framed (xs ++ ys) ↔ Framed xs := by
  unfold Framed
  rw [take2_append ys (by omega), payloadLen_append ys h, List.length_append]
  constructor
  · rintro ⟨h1, _, h3⟩
    exact ⟨h1, h, h3⟩
  · rintro ⟨h1, _, h3⟩
    exact ⟨h1, by omega, h3⟩

theorem Whole.append (h : Whole xs) : Whole (xs ++ ys) := by
  refine ⟨(framed_append ys h.1.2.1).2 h.1, ?_⟩
  rw [payloadLen_append ys h.1.2.1, List.length_append]
  have := h.2
  omega

theorem crcMatches_append {len : Nat} (h : len + 6 ≤ xs.length) : CrcMatches (xs ++ ys) len ↔ CrcMatches xs len := by
  unfold CrcMatches computeCrc16
  rw [List.drop_append_of_le_length (by omega), List.take_append_of_le_length (by rw [List.length_drop]; omega),
    List.take_append_of_le_length (by omega)]

theorem ValidFrame.append (h : ValidFrame xs) : ValidFrame (xs ++ ys) := by
  refine ⟨h.1.append ys, ?_⟩
  rw [payloadLen_append ys h.1.1.2.1]
  exact (crcMatches_append ys h.1.2).2 h.2

theorem payloadOf_append (h : Whole xs) : payloadOf (xs ++ ys) = payloadOf xs := by
  have := h.2
  rw [payloadOf, payloadLen_append ys h.1.2.1, List.drop_append_of_le_length (by omega),
    List.take_append_of_le_length (by rw [List.length_drop]; omega), payloadOf]

/-- **A move is not changed by more bytes.** -/
theorem look_append {native : Endian} {n : Nat} {o : Found} (h : look native xs = .move n o) :
    look native (xs ++ ys) = .move n o := by
  rcases look_cases native xs with ⟨_, he⟩ | ⟨hv, he⟩ | ⟨hw, hbad, he⟩ | ⟨hu, hw, he⟩
  · rw [h] at he
    cases he
  · rw [he] at h
    rw [look_frame (hv.append ys), payloadLen_append ys hv.1.1.2.1, payloadOf_append ys hv.1, h]
  · rw [he] at h
    rw [look_mismatch (hw.append ys) ?_, h]
    rw [payloadLen_append ys hw.1.2.1, crcMatches_append ys hw.2]
    exact hbad
  · rw [he] at h
    have h2 : 2 ≤ xs.length := Nat.not_lt.mp fun h2 => hu (Or.inl h2)
    rw [← h]
    by_cases hh : xs.take 2 = headerBytes
    -- the header is there, so the length field is too and is out of range
    · have h4 : 4 ≤ xs.length := Nat.not_lt.mp fun h4 => hu (Or.inr (Or.inl ⟨hh, h4⟩))
      have hf : ¬Framed xs := fun hf => hu (Or.inr (Or.inr ⟨hf, Nat.not_le.mp fun hle => hw ⟨hf, hle⟩⟩))
      exact look_badLength (by rw [List.length_append]; omega) fun hf' => hf ((framed_append ys h4).1 hf')
    · exact look_noHeader (by rw [List.length_append]; omega) (by rw [take2_append ys h2]; exact hh)

end Append

/-! ## The scan -/

/-- The frame scanner. -/
def frameScanner (native : Endian) : Scanner Byte Found where
  look := look native
  move_pos := by
    intro xs n o h
    rcases look_cases native xs with ⟨_, he⟩ | ⟨_, he⟩ | ⟨_, _, he⟩ | ⟨_, _, he⟩ <;> rw [h] at he <;> cases he <;> omega
  move_le := by
    intro xs n o h
    rcases look_cases native xs with ⟨_, he⟩ | ⟨hv, he⟩ | ⟨hw, _, he⟩ | ⟨hu, _, he⟩
    · rw [h] at he; cases he
    · rw [h] at he; cases he; exact hv.1.2
    · rw [h] at he; cases he; have := hw.2; omega
    · rw [h] at he; cases he; exact Nat.le_of_lt (Nat.not_lt.mp fun h2 => hu (Or.inl h2))
  stable := fun h ys => look_append ys h

/-- The whole-stream scan: what is found at each move, with its length, and the bytes left unread. -/
abbrev frameScan (native : Endian) (xs : List Byte) : List (Nat × Found) × List Byte := (frameScanner native).scan xs

theorem frameScan_wait {native : Endian} {xs : List Byte} (h : Unfinished xs) : frameScan native xs = ([], xs) :=
  Scanner.scan_wait (S := frameScanner native) (look_wait h)

theorem frameScan_move {native : Endian} {xs : List Byte} {n : Nat} {o : Found} (h : look native xs = .move n o) :
    frameScan native xs = ((n, o) :: (frameScan native (xs.drop n)).1, (frameScan native (xs.drop n)).2) :=
  Scanner.scan_move (S := frameScanner native) h

@[simp] theorem frameScan_nil (native : Endian) : frameScan native [] = ([], []) :=
  frameScan_wait (Or.inl (by simp))

/-- The telemetry a scan emits. -/
def emitted (moves : List (Nat × Found)) : List Telemetry :=
  moves.filterMap fun
    | (_, .frame t) => t
    | _ => none

/-- One failure for each wrong checksum and for each valid frame whose payload does not deserialize. -/
def failed (moves : List (Nat × Found)) : Nat :=
  moves.countP fun m => m.2 = .crcMismatch ∨ m.2 = .frame none

/-! ## Frames as bytes -/

/-- The bytes of a frame that the checksum covers. -/
def frameBody (payload : List Byte) : List Byte := headerBytes ++ beBytes 2 payload.length ++ payload

/-- The checksum of a payload's frame. -/
def frameCrc (payload : List Byte) : BitVec 16 := computeCrc16 (frameBody payload) (4 + payload.length)

/-- A frame that carries the given checksum. -/
def frameWith (payload : List Byte) (crc : BitVec 16) : List Byte := frameBody payload ++ beBytes 2 crc.toNat

section Frames

variable {payload : List Byte} (crc : BitVec 16) (rest : List Byte)

theorem length_frameBody (payload : List Byte) : (frameBody payload).length = 4 + payload.length := by
  simp only [frameBody, headerBytes, List.length_append, List.length_cons, List.length_nil, length_beBytes]

@[simp] theorem length_frameWith : (frameWith payload crc).length = payload.length + 6 := by
  rw [frameWith, List.length_append, length_frameBody, length_beBytes]
  omega

theorem take2_frameWith : (frameWith payload crc ++ rest).take 2 = headerBytes := by
  simp [frameWith, frameBody, headerBytes]

theorem payloadLen_frameWith (hlen : payload.length ≤ 256) : payloadLen (frameWith payload crc ++ rest) = payload.length := by
  have hfield : ((frameWith payload crc ++ rest).drop 2).take 2 = beBytes 2 payload.length := by
    simp only [frameWith, frameBody, headerBytes, List.append_assoc, List.cons_append, List.nil_append,
      List.drop_succ_cons, List.drop_zero]
    rw [List.take_append_of_le_length (by simp), List.take_of_length_le (by simp)]
  rw [payloadLen, hfield, beNat_beBytes (by omega)]

theorem whole_frameWith (h1 : 1 ≤ payload.length) (hlen : payload.length ≤ 256) : Whole (frameWith payload crc ++ rest) := by
  have hl : (frameWith payload crc ++ rest).length = payload.length + 6 + rest.length := by
    rw [List.length_append, length_frameWith]
  refine ⟨⟨take2_frameWith crc rest, by omega, ?_, ?_⟩, ?_⟩
  all_goals rw [payloadLen_frameWith crc rest hlen]
  · exact h1
  · exact hlen
  · omega

/-- A frame matches when it carries the checksum of its payload's frame. -/
theorem crcMatches_frameWith : CrcMatches (frameWith payload crc ++ rest) payload.length ↔ crc = frameCrc payload := by
  have hbody := length_frameBody payload
  have hfield : ((frameWith payload crc ++ rest).drop (4 + payload.length)).take 2 = beBytes 2 crc.toNat := by
    rw [frameWith, List.append_assoc, ← hbody, List.drop_left, List.take_append_of_le_length (by simp),
      List.take_of_length_le (by simp)]
  have hcover : (frameWith payload crc ++ rest).take (4 + payload.length) = (frameBody payload).take (4 + payload.length) := by
    rw [frameWith, List.append_assoc, List.take_append_of_le_length (by omega)]
  unfold CrcMatches frameCrc
  rw [hfield, computeCrc16, computeCrc16, hcover]
  exact ⟨fun h => (beWord_beBytes (w := 2) crc).symm.trans h, fun h => (beWord_beBytes (w := 2) crc).trans h⟩

theorem payloadOf_frameWith (hlen : payload.length ≤ 256) : payloadOf (frameWith payload crc ++ rest) = payload := by
  rw [payloadOf, payloadLen_frameWith crc rest hlen, frameWith, frameBody]
  simp only [List.append_assoc]
  rw [← List.append_assoc, List.drop_append_of_le_length (by simp [headerBytes]),
    List.drop_of_length_le (by simp [headerBytes]), List.nil_append, List.take_left]

theorem drop_frameWith : (frameWith payload crc ++ rest).drop (payload.length + 6) = rest := by
  rw [← length_frameWith crc, List.drop_left]

/-- The scan takes a frame with the right checksum as a whole. -/
theorem frameScan_frameWith (native : Endian) (payload rest : List Byte) (h1 : 1 ≤ payload.length) (hlen : payload.length ≤ 256) :
    frameScan native (frameWith payload (frameCrc payload) ++ rest) =
      ((payload.length + 6, .frame (deserializePayload native payload payload.length)) :: (frameScan native rest).1,
        (frameScan native rest).2) := by
  have hlook := @look_frame native (frameWith payload (frameCrc payload) ++ rest)
    ⟨whole_frameWith _ rest h1 hlen, by
      rw [payloadLen_frameWith _ rest hlen]; exact (crcMatches_frameWith _ rest).2 rfl⟩
  rw [payloadLen_frameWith _ rest hlen, payloadOf_frameWith _ rest hlen] at hlook
  rw [frameScan_move hlook, drop_frameWith]

end Frames

end CounterDrone

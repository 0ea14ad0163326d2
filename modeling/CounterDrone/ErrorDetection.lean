import Mathlib
import CounterDrone.Checksum

/-!
# Errors that the frame check detects

Whether an error xored onto a valid frame goes undetected depends on the error alone: the generator has to divide it,
its bytes taken in the order of the division (`undetected_iff_dvd`). So an odd number of ones, two ones, and ones inside
the payload within sixteen bits are detected, and the parser resynchronises one byte further on
(`corrupted_frame_rejected`).

Where payload and checksum field meet, the order of the field breaks the burst guarantee; `Blind` lists the patterns that
are hidden, and every other burst across the boundary is detected (`straddling_burst_rejected_iff`).
-/

namespace CounterDrone

open Polynomial

/-! ## Errors on a frame -/

/-- A frame with an error xored onto it. -/
def corrupted (f e : List Byte) : List Byte := List.zipWith (· ^^^ ·) f e

/-- The bytes in the order in which the division takes them: the checksum field, whose high byte is sent first, with its
low byte first. -/
def divisionOrder (e : List Byte) : List Byte := e.take (e.length - 2) ++ (e.drop (e.length - 2)).reverse

/-- A field of two bytes is the two bytes side by side. -/
theorem beWord_pair (a b : Byte) : beWord 2 [a, b] = (a ++ b : BitVec 16) := by
  apply BitVec.eq_of_toNat_eq
  rw [toNat_beWord_pair, BitVec.toNat_append, ← Nat.shiftLeft_add_eq_or_of_lt b.isLt, Nat.shiftLeft_eq]

theorem beWord_pair_xor (a b c d : Byte) : beWord 2 [a ^^^ c, b ^^^ d] = beWord 2 [a, b] ^^^ beWord 2 [c, d] := by
  rw [beWord_pair, beWord_pair, beWord_pair]
  exact BitVec.xor_append.symm

section Errors

variable {f e : List Byte} {len : Nat}

/-- The last two bytes of an error. -/
theorem exists_field_error (h : e.length = len + 6) : ∃ high low, e.drop (4 + len) = [high, low] := by
  have hlen : (e.drop (4 + len)).length = 2 := by rw [List.length_drop]; omega
  exact List.length_eq_two.1 hlen

/-- **An error goes undetected** when the register, fed with its data bytes, gives its checksum field; the frame does not
matter. -/
theorem crcMatches_corrupted (hn : f.length = len + 6) (hlen : e.length = f.length) (hf : CrcMatches f len) :
    CrcMatches (corrupted f e) len ↔ (e.take (4 + len)).foldl crcByte 0 = beWord 2 (e.drop (4 + len)) := by
  have hcomp : computeCrc16 (corrupted f e) (4 + len) =
      computeCrc16 f (4 + len) ^^^ (e.take (4 + len)).foldl crcByte 0 := by
    rw [computeCrc16, corrupted, List.take_zipWith, crcFold_xor _ _ (by simp [hlen]), computeCrc16]
  obtain ⟨a, b, hab⟩ := exists_field_error hn
  obtain ⟨c, d, hcd⟩ := exists_field_error (hlen.trans hn)
  have hfield : ((corrupted f e).drop (4 + len)).take 2 = [a ^^^ c, b ^^^ d] := by
    rw [corrupted, List.drop_zipWith, hab, hcd]
    rfl
  have hcrc : beWord 2 [a, b] = computeCrc16 f (4 + len) := by
    rw [CrcMatches, hab] at hf
    exact hf
  rw [CrcMatches, hcomp, hfield, hcd, beWord_pair_xor, hcrc, BitVec.xor_right_inj, eq_comm]

/-- The same for an error given as its data bytes and its checksum field. -/
theorem crcMatches_corrupted_append {data field : List Byte} (hn : f.length = len + 6) (hdata : data.length = 4 + len)
    (hfield : field.length = 2) (hf : CrcMatches f len) :
    CrcMatches (corrupted f (data ++ field)) len ↔ data.foldl crcByte 0 = beWord 2 field := by
  have hlen : (data ++ field).length = f.length := by
    rw [List.length_append]
    omega
  rw [crcMatches_corrupted hn hlen hf, List.take_left' hdata, List.drop_left' hdata]

/-- **An error goes undetected** when the generator divides it. -/
theorem undetected_iff_dvd (hn : f.length = len + 6) (hlen : e.length = f.length) (hf : CrcMatches f len) :
    CrcMatches (corrupted f e) len ↔ generator crcMask ∣ bitsPoly (wordBits (divisionOrder e)) := by
  obtain ⟨high, low, hfield⟩ := exists_field_error (hlen.trans hn)
  have hcut : e.length - 2 = 4 + len := by omega
  have hword : lsbFirst (beWord 2 [high, low]) = wordBits [low, high] := by
    rw [beWord_pair]
    exact lsbFirst_append high low
  rw [crcMatches_corrupted hn hlen hf, divisionOrder, hcut, hfield, ← regPoly_injective.eq_iff, crcFold_eq,
    regPoly_feedWords crcMask (by decide), eq_comm, regPoly_eq_modByMonic, CharTwo.sub_eq_add]
  have hpoly : bitsPoly (wordBits (e.take (4 + len) ++ [high, low].reverse)) =
      regPoly (0 : BitVec 16) * X ^ (8 * (e.take (4 + len)).length) + bitsPoly (wordBits (e.take (4 + len))) * X ^ 16 +
        regPoly (beWord 2 [high, low]) := by
    rw [wordBits_append, bitsPoly_append, regPoly_zero, zero_mul, zero_add, regPoly, hword]
    rfl
  rw [hpoly]

end Errors

/-! ## What the generator does not divide -/

theorem coeff_zero_generator_crcMask : (generator crcMask).coeff 0 ≠ 0 := by
  rw [generator_crcMask]
  simp

theorem eval_one_generator_crcMask : (generator crcMask).eval 1 = 0 := by
  rw [generator_crcMask]
  simp only [eval_add, eval_pow, eval_X, eval_one, one_pow]
  decide

/-- The register with the single coefficient one. -/
theorem regPoly_unit : regPoly (0x8000 : BitVec 16) = 1 := by
  have hbits : lsbFirst (0x8000 : BitVec 16) = List.replicate 15 false ++ [true] := by decide
  rw [regPoly, hbits, bitsPoly_append, bitsPoly_eq_zero_of_count (by decide)]
  simp [bitsPoly]

/-- The register does not come back to one for longer than the bits of any frame. -/
theorem avoids_unit : avoids (shiftStep crcMask) 0x8000 2095 (shiftStep crcMask 0x8000) = true := by decide +kernel

/-- The number of ones does not depend on the order of the bytes. -/
theorem count_divisionOrder (e : List Byte) : (wordBits (divisionOrder e)).count true = (wordBits e).count true := by
  have hperm : List.Perm (divisionOrder e) e := by
    have h := (List.reverse_perm (e.drop (e.length - 2))).append_left (e.take (e.length - 2))
    rwa [List.take_append_drop] at h
  exact (hperm.flatMap_right lsbFirst).count_eq true

/-- An error inside the payload looks the same to the division. -/
theorem divisionOrder_of_payload {e : List Byte} {len : Nat} (hn : e.length = len + 6)
    (h : InWindow (wordBits e) 32 (8 * len)) : divisionOrder e = e := by
  obtain ⟨high, low, hfield⟩ := exists_field_error hn
  have hat : ∀ i, [high, low].getD i 0 = e.getD (4 + len + i) 0 := by
    intro i
    rw [← hfield]
    simp [List.getElem?_drop]
  have hhigh : high = 0 := (hat 0).trans (h.getD_eq_zero fun j hj => by omega)
  have hlow : low = 0 := (hat 1).trans (h.getD_eq_zero fun j hj => by omega)
  have hcut : e.length - 2 = 4 + len := by omega
  have hsplit := List.take_append_drop (4 + len) e
  rw [hfield, hhigh, hlow] at hsplit
  rw [divisionOrder, hcut, hfield, hhigh, hlow]
  exact hsplit

/-- **Errors that are detected**: an odd number of ones, two ones, and ones inside the payload within sixteen bits. -/
theorem not_crcMatches_corrupted {f e : List Byte} {len : Nat} (hn : f.length = len + 6) (hlen : e.length = f.length)
    (hf : CrcMatches f len) (hle : len ≤ 256) (hne : ∃ b ∈ e, b ≠ 0)
    (herr : Odd ((wordBits e).count true) ∨ (wordBits e).count true = 2 ∨
      (InWindow (wordBits e) 32 (8 * len) ∧ ∃ start, InWindow (wordBits e) start 16)) :
    ¬CrcMatches (corrupted f e) len := by
  rw [undetected_iff_dvd hn hlen hf]
  rcases herr with hodd | htwo | ⟨hpay, start, hburst⟩
  · rw [← count_divisionOrder] at hodd
    exact not_dvd_of_odd eval_one_generator_crcMask hodd
  · rw [← count_divisionOrder] at htwo
    refine not_dvd_of_two coeff_zero_generator_crcMask regPoly_unit avoids_unit ?_ htwo
    rw [length_wordBits, divisionOrder, List.length_append, List.length_reverse, ← List.length_append,
      List.take_append_drop]
    omega
  · rw [divisionOrder_of_payload (hlen.trans hn) hpay]
    exact not_dvd_of_window coeff_zero_generator_crcMask (degree_generator crcMask) hburst (true_mem_wordBits hne)

/-! ## The parser at a corrupted frame -/

/-- The parser rejects the frame that its unread bytes start with: two iterations of `process_client` read its header and
its length, and the third counts a failure, consumes one byte and goes back to `WAIT_HEADER`. -/
def Rejects (native : Endian) (cs : ClientState) : Prop :=
  ∃ cs₁ cs₂ cs₃, processIteration native cs = .next cs₁ [] ∧ processIteration native cs₁ = .next cs₂ [] ∧
    processIteration native cs₂ = .next cs₃ [.crcFailure, .pushLog mismatchText, .consume 1] ∧
    cs₃.state = .waitHeader ∧ cs₃.unread = cs.unread.drop 1 ∧
    processClient native cs = ((processClient native cs₃).1,
      [.crcFailure, .pushLog mismatchText, .consume 1] ++ (processClient native cs₃).2)

theorem rejects_of_mismatch (native : Endian) {cs : ClientState} (hs : cs.state = .waitHeader) (hw : Whole cs.unread)
    (hbad : ¬CrcMatches cs.unread (payloadLen cs.unread)) : Rejects native cs := by
  obtain ⟨⟨hhead, h4, hrange⟩, hall⟩ := hw
  have hlength := toNat_lengthField h4
  -- the three iterations, each from the state that the one before it leaves
  let cs₁ : ClientState := { cs with state := .waitLength }
  let cs₂ : ClientState := { cs₁ with state := .waitPayloadAndCrc, payloadLength := lengthField cs.unread }
  have h₁ : processIteration native cs = .next cs₁ [] := by
    rw [processIteration, hs]
    exact waitHeader_found native (by omega) ((header_iff (by omega)).2 hhead)
  have h₂ : processIteration native cs₁ = .next cs₂ [] := @waitLength_good native cs₁ h4 ((inRange_iff h4).2 hrange)
  obtain ⟨rb, scratch, h₃, hbytes, -⟩ := @waitPayload_mismatch native cs₂
    (by rw [← hlength] at hall; exact hall) (by rw [← hlength] at hbad; exact hbad)
  refine ⟨cs₁, cs₂, _, h₁, h₂, h₃, rfl, hbytes, ?_⟩
  have hloop := @processClient_next native cs₂ _ _ h₃
  rw [processClient_next h₁, processClient_next h₂, hloop]
  rfl

theorem xor_zeros (bs : List Byte) : List.zipWith (· ^^^ ·) bs (List.replicate bs.length 0) = bs := by
  induction bs with
  | nil => rfl
  | cons b bs ih => simpa [List.replicate_succ] using ih

/-- An error that leaves the header and the length alone leaves a whole frame of the same length. -/
theorem corrupted_whole {f e : List Byte} (hw : Whole f) (hlen : e.length = f.length)
    (hhead : e.take 4 = List.replicate 4 0) : Whole (corrupted f e) ∧ payloadLen (corrupted f e) = payloadLen f := by
  obtain ⟨⟨hheader, h4, hrange⟩, hall⟩ := hw
  have hlength : (corrupted f e).length = f.length := by simp [corrupted, hlen]
  have hfront : (corrupted f e).take 4 = f.take 4 := by
    have h := xor_zeros (f.take 4)
    rwa [List.length_take, Nat.min_eq_left h4, ← hhead, ← List.take_zipWith] at h
  have hpay := payloadLen_of_take hfront
  refine ⟨⟨⟨?_, by omega, by omega, by omega⟩, by omega⟩, hpay⟩
  rw [take2_of_take hfront, hheader]

/-- **Error detection.** A valid frame whose payload and checksum field are hit by an odd number of ones, by two ones, or
whose payload is hit by ones within sixteen consecutive bits, is rejected. -/
theorem corrupted_frame_rejected (native : Endian) {f e : List Byte} (hf : ValidFrame f)
    (hn : f.length = payloadLen f + 6) (hlen : e.length = f.length) (hhead : e.take 4 = List.replicate 4 0)
    (hne : ∃ b ∈ e, b ≠ 0)
    (herr : Odd ((wordBits e).count true) ∨ (wordBits e).count true = 2 ∨
      (InWindow (wordBits e) 32 (8 * payloadLen f) ∧ ∃ start, InWindow (wordBits e) start 16))
    {cs : ClientState} (hs : cs.state = .waitHeader) {rest : List Byte} (hunread : cs.unread = corrupted f e ++ rest) :
    ¬CrcMatches (corrupted f e) (payloadLen f) ∧ Rejects native cs := by
  obtain ⟨hw, hpay⟩ := corrupted_whole hf.1 hlen hhead
  have hbad := not_crcMatches_corrupted hn hlen hf.2 hf.1.1.2.2.2 hne herr
  refine ⟨hbad, rejects_of_mismatch native hs ?_ ?_⟩
  · rw [hunread]
    exact hw.append rest
  · rw [hunread, payloadLen_append rest hw.1.2.1, crcMatches_append rest hw.2, hpay]
    exact hbad

/-- A frame with one payload byte, hit by three bits of the payload and two of the checksum field. -/
theorem corrupted_frame_rejected_five : ∃ cs : ClientState,
    cs.unread = corrupted [0xAA, 0x55, 0x00, 0x01, 0x42, 0x75, 0xAC] [0, 0, 0, 0, 0x07, 0x80, 0x01] ∧
    Rejects .little cs := by
  obtain ⟨rb, hbytes⟩ := Ring.exists_bytes [0xAA, 0x55, 0x00, 0x01, 0x45, 0xF5, 0xAD] (by decide)
  have h := @corrupted_frame_rejected .little [0xAA, 0x55, 0x00, 0x01, 0x42, 0x75, 0xAC] [0, 0, 0, 0, 0x07, 0x80, 0x01]
    (by decide +kernel) (by decide) (by decide) (by decide) (by decide) (.inl (by decide)) { ringBuffer := rb } rfl []
    hbytes
  exact ⟨{ ringBuffer := rb }, hbytes, h.2⟩

/-! ## Bursts across the checksum field

The checksum field is sent with its high byte first, while the division takes the low byte first: the usual argument for
bursts does not apply where payload and field meet. -/

/-- The error patterns that the field order hides: the last payload byte has its two low bits clear, and the checksum
field has what the register makes of that byte. -/
def Blind (e : List Byte) : Prop :=
  ∃ d : Byte, d &&& 3 = 0 ∧ e = List.replicate (e.length - 3) 0 ++ d :: beBytes 2 (crcByte 0 d).toNat

theorem crcFold_zeros (n : Nat) : (List.replicate n (0 : Byte)).foldl crcByte 0 = 0 := by
  have hzero : crcByte 0 0 = 0 := by decide
  induction n with
  | zero => rfl
  | succ n ih => rw [List.replicate_succ, List.foldl_cons, hzero, ih]

/-- Two bytes are the register that they fill, stepped sixteen times. -/
theorem crcFold_pair (a b : Byte) : [a, b].foldl crcByte 0 = (shiftStep crcMask)^[16] (b ++ a : BitVec 16) := by
  have hbits : lsbFirst (b ++ a : BitVec 16) = wordBits [a, b] := lsbFirst_append b a
  apply regPoly_injective
  rw [crcFold_eq, regPoly_feedWords crcMask (by decide), regPoly_iterate, regPoly_zero, zero_mul, zero_add, mul_comm,
    regPoly, hbits]

/-- Every one of `b` lies below every one of `a`. -/
def OnesBelow {k m : Nat} (b : BitVec k) (a : BitVec m) : Prop :=
  ∀ i j : Fin 8, a.getLsbD i = true → b.getLsbD j = true → j < i

instance {k m : Nat} (b : BitVec k) (a : BitVec m) : Decidable (OnesBelow b a) :=
  inferInstanceAs (Decidable (∀ _ _ : Fin 8, _ → _ → _))

theorem getLsbD_append_low (b a : Byte) (i : Fin 8) : (b ++ a : BitVec 16).getLsbD i = a.getLsbD i := by
  rw [BitVec.getLsbD_append, if_pos i.isLt]

/-- A checksum whose low byte is zero and whose high byte ends before the first byte begins: the first byte is zero. -/
theorem first_byte_clear : ∀ high : Byte,
    OnesBelow high ((unshiftStep crcMask)^[16] (high ++ (0 : Byte) : BitVec 16)) →
    ∀ i : Fin 8, ((unshiftStep crcMask)^[16] (high ++ (0 : Byte) : BitVec 16)).getLsbD i = false := by
  decide +kernel

/-- A checksum of one byte whose low byte ends before that byte begins. -/
theorem low_bits_clear : ∀ d : Byte, OnesBelow (crcByte 0 d) d → d &&& 3 = 0 := by decide +kernel

section Straddling

variable {f e : List Byte} {len start : Nat}

/-- A hidden error is not detected. -/
theorem Blind.crcMatches (hn : f.length = len + 6) (hlen : e.length = f.length) (hf : CrcMatches f len) (h : Blind e) :
    CrcMatches (corrupted f e) len := by
  obtain ⟨d, -, he⟩ := h
  have hsplit : e = (List.replicate (len + 3) 0 ++ [d]) ++ beBytes 2 (crcByte 0 d).toNat := by
    have hcut : e.length - 3 = len + 3 := by omega
    rw [hcut] at he
    rw [he]
    simp
  rw [hsplit, crcMatches_corrupted_append hn (by simp; omega) (length_beBytes _ _) hf, beWord_beBytes, List.foldl_append,
    crcFold_zeros]
  rfl

/-- The four bytes around the boundary hold a burst that crosses it. -/
theorem exists_boundary (hn : e.length = len + 6) (hpay : ∃ k < 32 + 8 * len, (wordBits e).getD k false = true)
    (hcrc : ∃ k, 32 + 8 * len ≤ k ∧ (wordBits e).getD k false = true) (h : InWindow (wordBits e) start 16) :
    ∃ a b high low, e = List.replicate (len + 2) 0 ++ [a, b, high, low] ∧ OnesBelow high a ∧ OnesBelow low b ∧
      ∀ i : Fin 8, a.getLsbD i = true → low = 0 := by
  obtain ⟨k, hk, hone⟩ := hpay
  obtain ⟨k', hk', hone'⟩ := hcrc
  have hstart : 8 * len + 16 < start := by
    have := h k hone
    have := h k' hone'
    omega
  have hbit : ∀ (i : Nat) (j : Fin 8), (e.getD i 0).getLsbD j = true → start ≤ 8 * i + j ∧ 8 * i + j < start + 16 := by
    intro i j hj
    rw [← getD_wordBits e i j j.isLt] at hj
    exact h _ hj
  refine ⟨e.getD (len + 2) 0, e.getD (len + 3) 0, e.getD (len + 4) 0, e.getD (len + 5) 0, ?_, ?_, ?_, ?_⟩
  · apply List.ext_getElem (by simp [hn])
    intro i hi _
    rw [← List.getD_eq_getElem e 0 hi]
    by_cases hfront : i < len + 2
    · rw [List.getElem_append_left (by simpa using hfront), List.getElem_replicate]
      exact h.getD_eq_zero fun j hj => by omega
    · obtain rfl | rfl | rfl | rfl : i = len + 2 ∨ i = len + 3 ∨ i = len + 4 ∨ i = len + 5 := by omega
      all_goals simp
  · intro i j hi hj
    have := hbit (len + 2) i hi
    have := hbit (len + 4) j hj
    omega
  · intro i j hi hj
    have := hbit (len + 3) i hi
    have := hbit (len + 5) j hj
    omega
  · intro i hi
    have := hbit (len + 2) i hi
    exact h.getD_eq_zero fun j hj => by omega

/-- **A burst across the boundary goes undetected only when it is one of the hidden patterns.** -/
theorem blind_of_crcMatches (hn : f.length = len + 6) (hlen : e.length = f.length) (hf : CrcMatches f len)
    (hpay : ∃ k < 32 + 8 * len, (wordBits e).getD k false = true)
    (hcrc : ∃ k, 32 + 8 * len ≤ k ∧ (wordBits e).getD k false = true) (h : InWindow (wordBits e) start 16)
    (hmatch : CrcMatches (corrupted f e) len) : Blind e := by
  obtain ⟨a, b, high, low, he, habove, hbelow, hlow⟩ := exists_boundary (hlen.trans hn) hpay hcrc h
  have hfield : [a, b].foldl crcByte 0 = (high ++ low : BitVec 16) := by
    have hsplit : e = (List.replicate (len + 2) 0 ++ [a, b]) ++ [high, low] := by rw [he]; simp
    rw [hsplit, crcMatches_corrupted_append hn (by simp; omega) rfl hf, List.foldl_append, crcFold_zeros,
      beWord_pair] at hmatch
    exact hmatch
  have ha : a = 0 := by
    apply BitVec.eq_of_getLsbD_eq
    intro i hi
    by_contra hbit
    have hone : a.getLsbD i = true := by simpa using hbit
    have hback : (unshiftStep crcMask)^[16] (high ++ (0 : Byte) : BitVec 16) = (b ++ a : BitVec 16) := by
      rw [hlow ⟨i, hi⟩ hone, crcFold_pair] at hfield
      rw [← hfield]
      exact Function.LeftInverse.iterate (unshiftStep_shiftStep crcMask (by decide)) 16 _
    have hclear := first_byte_clear high
    rw [hback] at hclear
    have hi0 := hclear (fun i j hi hj => habove i j (by rwa [getLsbD_append_low] at hi) hj) ⟨i, hi⟩
    rw [getLsbD_append_low, hone] at hi0
    cases hi0
  subst ha
  have hbyte : crcByte 0 b = (high ++ low : BitVec 16) := hfield
  refine ⟨b, low_bits_clear b ?_, ?_⟩
  · intro i j hi hj
    rw [hbyte, getLsbD_append_low] at hj
    exact hbelow i j hi hj
  · have hcut : e.length - 3 = len + 3 := by omega
    have hpair : beBytes 2 (beWord 2 [high, low]).toNat = [high, low] := by
      rw [toNat_beWord (w := 2) rfl]
      exact beBytes_beNat [high, low]
    rw [hbyte, ← beWord_pair, hpair, hcut, List.replicate_succ']
    simpa using he

end Straddling

/-- **Bursts across the checksum field.** A valid frame hit by a burst of at most sixteen bits that touches both the
payload and the checksum field is rejected, unless the burst is one of the hidden patterns. -/
theorem straddling_burst_rejected_iff {f e : List Byte} (hf : ValidFrame f) (hn : f.length = payloadLen f + 6)
    (hlen : e.length = f.length)
    (hpay : ∃ k, 32 ≤ k ∧ k < 32 + 8 * payloadLen f ∧ (wordBits e).getD k false = true)
    (hcrc : ∃ k, 32 + 8 * payloadLen f ≤ k ∧ (wordBits e).getD k false = true)
    (hburst : ∃ start, InWindow (wordBits e) start 16) :
    ¬CrcMatches (corrupted f e) (payloadLen f) ↔ ¬Blind e := by
  obtain ⟨k, -, hk, hone⟩ := hpay
  obtain ⟨start, h⟩ := hburst
  exact not_congr ⟨blind_of_crcMatches hn hlen hf.2 ⟨k, hk, hone⟩ hcrc h, Blind.crcMatches hn hlen hf.2⟩

/-- Three ones in a row, two in the payload and one in the checksum field. -/
theorem straddling_burst_rejected_iff_three :
    ¬Blind [0, 0, 0, 0, 0xC0, 0x01, 0] ∧
    ¬CrcMatches (corrupted [0xAA, 0x55, 0x00, 0x01, 0x42, 0x75, 0xAC] [0, 0, 0, 0, 0xC0, 0x01, 0]) 1 := by
  have hblind : ¬Blind [0, 0, 0, 0, 0xC0, 0x01, 0] := by
    rintro ⟨d, -, he⟩
    have hd : d = 0xC0 := by simpa using (congrArg (fun bs => bs.getD 4 0) he).symm
    subst hd
    exact absurd he (by decide)
  refine ⟨hblind, (straddling_burst_rejected_iff (f := [0xAA, 0x55, 0x00, 0x01, 0x42, 0x75, 0xAC])
    (e := [0, 0, 0, 0, 0xC0, 0x01, 0]) (by decide +kernel) (by decide) (by decide) ⟨38, by decide⟩ ⟨40, by decide⟩
    ⟨38, by decide⟩).2 hblind⟩

/-- A burst of ten bits across the boundary that is accepted. -/
theorem straddling_burst_accepted : ∃ f e : List Byte,
    f = [0xAA, 0x55, 0x00, 0x01, 0x42, 0x75, 0xAC] ∧ e = [0, 0, 0, 0, 0x80, 0xA0, 0x01] ∧
    ValidFrame f ∧ f.length = payloadLen f + 6 ∧ e.length = f.length ∧
    (∃ k, 32 ≤ k ∧ k < 32 + 8 * payloadLen f ∧ (wordBits e).getD k false = true) ∧
    (∃ k, 32 + 8 * payloadLen f ≤ k ∧ (wordBits e).getD k false = true) ∧ InWindow (wordBits e) 39 16 ∧
    CrcMatches (corrupted f e) (payloadLen f) := by
  refine ⟨_, _, rfl, rfl, by decide +kernel, by decide, by decide, ⟨39, by decide⟩, ⟨45, by decide⟩, by decide, ?_⟩
  decide +kernel

end CounterDrone

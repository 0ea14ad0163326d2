import Mathlib
import CounterDrone.Lib.ErrorPatterns
import CounterDrone.Encoder

/-!
# The checksum is polynomial division

One bit of `compute_crc16` is one step of the reflected shift register of `x^16 + x^15 + x^2 + 1` (`crcBit_eq`,
`generator_crcMask`), and one byte feeds it a word (`crcByte_eq`). So a checksum is the reflection of a remainder, and
the Python one is the same (`crc16_polynomial_division`); it is linear in the bytes (`crcFold_xor`).
-/

namespace CounterDrone

open Polynomial

/-! ## The register of the code -/

/-- The constant that `compute_crc16` xors in. -/
def crcMask : BitVec 16 := 0xA001

theorem crcBit_eq (crc : BitVec 16) : crcBit crc = shiftStep crcMask crc := by
  have hbit : crc &&& 1 ≠ 0 ↔ crc.getLsbD 0 = true := by
    have hand : crc &&& 1 = (BitVec.ofBool (crc.getLsbD 0)).setWidth 16 := BitVec.and_one_eq_setWidth_ofBool_getLsbD
    rw [hand]
    cases crc.getLsbD 0 <;> decide
  unfold crcBit shiftStep
  by_cases h : crc.getLsbD 0 = true
  · rw [if_pos (hbit.2 h), if_pos h, crcMask]
  · rw [if_neg fun h' => h (hbit.1 h'), if_neg h]

theorem crcByte_eq (crc : BitVec 16) (byte : Byte) : crcByte crc byte = feedWord crcMask crc byte := by
  rw [crcByte, feedWord, funext crcBit_eq]

theorem crcFold_eq (data : List Byte) (crc : BitVec 16) : data.foldl crcByte crc = data.foldl (feedWord crcMask) crc := by
  have h : crcByte = feedWord crcMask := by
    funext crc byte
    exact crcByte_eq crc byte
  rw [h]

/-- The generator polynomial of CRC-16/MODBUS. -/
theorem generator_crcMask : generator crcMask = X ^ 16 + X ^ 15 + X ^ 2 + 1 := by
  have hbits : lsbFirst crcMask = [true, false, false, false, false, false, false, false, false, false, false, false,
      false, true, false, true] := by
    decide
  rw [generator, regPoly, hbits]
  simp only [bitsPoly, bit_true, bit_false, map_one, map_zero, one_mul, zero_mul, zero_add, List.length_cons,
    List.length_nil]
  ring

/-- The register starts with all ones. -/
theorem regPoly_ones : regPoly (0xFFFF : BitVec 16) = ∑ i ∈ Finset.range 16, X ^ i := by
  have hbits : lsbFirst (0xFFFF : BitVec 16) = List.replicate 16 true := by decide
  rw [regPoly, hbits]
  simp only [List.replicate, bitsPoly, bit_true, map_one, one_mul, List.length_cons, List.length_nil,
    Finset.sum_range_succ, Finset.sum_range_zero]
  ring

/-! ## The remainder -/

/-- The polynomial of a message: its bytes in order, the least significant bit of each byte first and of highest
degree. -/
noncomputable def messagePoly (m : List Byte) : (ZMod 2)[X] := bitsPoly (wordBits m)

/-- **The checksum is polynomial division**, in C++ and in Python: the reflected remainder of the message and of the
initial ones. -/
theorem crc16_polynomial_division (m rest : List Byte) :
    computeCrc16 (m ++ rest) m.length =
      reflected 16 ((messagePoly m * X ^ 16 + (∑ i ∈ Finset.range 16, X ^ i) * X ^ (8 * m.length)) %ₘ
        (X ^ 16 + X ^ 15 + X ^ 2 + 1)) ∧
    crc16Modbus m = (computeCrc16 (m ++ rest) m.length).toNat := by
  have htake : computeCrc16 (m ++ rest) m.length = computeCrc16 m m.length := by
    simp [computeCrc16]
  rw [htake]
  refine ⟨?_, crc16Modbus_eq m⟩
  have hpoly := regPoly_feedWords crcMask (by decide) m 0xFFFF
  rw [← crcFold_eq, generator_crcMask, regPoly_ones, add_comm] at hpoly
  rw [messagePoly, ← hpoly, reflected_regPoly, computeCrc16, List.take_length]

/-- The checksum is linear: an error of the bytes is an error of the register, whatever the bytes are. -/
theorem crcFold_xor (data error : List Byte) (hlen : data.length = error.length) (crc : BitVec 16) :
    (List.zipWith (· ^^^ ·) data error).foldl crcByte crc = data.foldl crcByte crc ^^^ error.foldl crcByte 0 := by
  have hzero : crc ^^^ 0 = crc := BitVec.xor_zero
  have h := feedWords_xor crcMask data error hlen crc 0
  rw [hzero] at h
  rw [crcFold_eq, crcFold_eq, crcFold_eq, h]

end CounterDrone

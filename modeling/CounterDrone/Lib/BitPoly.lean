import Mathlib

/-!
# Bits as polynomials over GF(2)

A list of bits is the polynomial with these coefficients, the first bit of highest degree (`bitsPoly`); a word is the
polynomial of its bits, least significant first (`regPoly`), so that its reflection has the coefficients in place
(`coeff_regPoly`, `reflected_regPoly`).

A reflected shift register (`shiftStep`) multiplies by `X` modulo its generator (`regPoly_shiftStep`), and a register
fed with words (`feedWords`) holds a remainder (`regPoly_feedWords`).
-/

namespace CounterDrone

open Polynomial

/-! ## Bits -/

/-- A bit as a coefficient. -/
def bit (b : Bool) : ZMod 2 := if b then 1 else 0

@[simp] theorem bit_false : bit false = 0 := rfl

@[simp] theorem bit_true : bit true = 1 := rfl

theorem bit_eq_one {b : Bool} : bit b = 1 ↔ b = true := by cases b <;> decide

theorem bit_eq_zero {b : Bool} : bit b = 0 ↔ b = false := by cases b <;> decide

theorem bit_xor (a b : Bool) : bit (a ^^ b) = bit a + bit b := by
  cases a <;> cases b <;> decide

/-- The polynomial of a list of bits, the first bit of highest degree. -/
noncomputable def bitsPoly : List Bool → (ZMod 2)[X]
  | [] => 0
  | b :: bs => C (bit b) * X ^ bs.length + bitsPoly bs

theorem coeff_bitsPoly (bs : List Bool) (k : Nat) : (bitsPoly bs).coeff k = bit (bs.reverse.getD k false) := by
  induction bs with
  | nil => simp [bitsPoly]
  | cons b bs ih =>
    rw [bitsPoly, coeff_add, ih, coeff_C_mul, coeff_X_pow, List.reverse_cons]
    rcases Nat.lt_trichotomy k bs.length with h | rfl | h
    · simp [h.ne, List.getElem?_append_left, h]
    · simp
    · have hlen : (bs.reverse ++ [b]).length ≤ k := by simpa using h
      have hlen' : bs.reverse.length ≤ k := by simpa using h.le
      rw [List.getD_eq_default _ _ hlen, List.getD_eq_default _ _ hlen', if_neg h.ne']
      simp

theorem degree_bitsPoly_lt (bs : List Bool) : (bitsPoly bs).degree < bs.length := by
  rw [degree_lt_iff_coeff_zero]
  intro k hk
  rw [coeff_bitsPoly, List.getD_eq_default _ _ (by simpa using hk), bit_false]

theorem bitsPoly_append (as bs : List Bool) : bitsPoly (as ++ bs) = bitsPoly as * X ^ bs.length + bitsPoly bs := by
  induction as with
  | nil => simp [bitsPoly]
  | cons a as ih =>
    simp only [List.cons_append, bitsPoly, ih, List.length_append, pow_add]
    ring

/-- A list of zeros is the zero polynomial, and no other list is. -/
theorem bitsPoly_eq_zero (bs : List Bool) : bitsPoly bs = 0 ↔ ∀ b ∈ bs, b = false := by
  induction bs with
  | nil => simp [bitsPoly]
  | cons b bs ih =>
    rw [List.forall_mem_cons, ← ih]
    constructor
    · intro h
      have hlead : bit b = 0 := by
        have hc := congrArg (fun p => p.coeff bs.length) h
        simpa [bitsPoly, coeff_bitsPoly] using hc
      rw [bitsPoly, hlead] at h
      exact ⟨bit_eq_zero.1 hlead, by simpa using h⟩
    · rintro ⟨rfl, h⟩
      simp [bitsPoly, h]

/-- At one, a polynomial counts its coefficients. -/
theorem eval_one_bitsPoly (bs : List Bool) : (bitsPoly bs).eval 1 = (bs.count true : ZMod 2) := by
  induction bs with
  | nil => simp [bitsPoly]
  | cons b bs ih => cases b <;> simp [bitsPoly, ih, add_comm]

/-! ## Words -/

section Words

variable {w : Nat}

/-- The bits of a word, least significant first. -/
def lsbFirst (v : BitVec w) : List Bool := List.ofFn fun i : Fin w => v.getLsbD i

@[simp] theorem length_lsbFirst (v : BitVec w) : (lsbFirst v).length = w := List.length_ofFn

/-- The polynomial of a word. -/
noncomputable def regPoly (v : BitVec w) : (ZMod 2)[X] := bitsPoly (lsbFirst v)

theorem coeff_regPoly (v : BitVec w) (k : Nat) : (regPoly v).coeff k = bit (v.getMsbD k) := by
  rw [regPoly, coeff_bitsPoly, BitVec.getMsbD]
  by_cases hk : k < w
  · have hw : w - 1 - k < w := by omega
    simp [lsbFirst, hk, BitVec.getLsbD_eq_getElem hw]
  · simp [hk]

theorem degree_regPoly_lt (v : BitVec w) : (regPoly v).degree < w := by
  have h := degree_bitsPoly_lt (lsbFirst v)
  rwa [length_lsbFirst] at h

@[simp] theorem regPoly_xor (a b : BitVec w) : regPoly (a ^^^ b) = regPoly a + regPoly b := by
  ext k
  rw [coeff_add, coeff_regPoly, coeff_regPoly, coeff_regPoly, BitVec.getMsbD_xor, bit_xor]

@[simp] theorem regPoly_zero : regPoly (0 : BitVec w) = 0 := by
  ext k
  simp [coeff_regPoly]

/-- The word whose reflection has the coefficients of a polynomial below degree `w`. -/
noncomputable def reflected (w : Nat) (p : (ZMod 2)[X]) : BitVec w :=
  BitVec.ofFnLE fun i : Fin w => decide (p.coeff (w - 1 - i) = 1)

/-- A word is the reflection of its polynomial. -/
theorem reflected_regPoly (v : BitVec w) : reflected w (regPoly v) = v := by
  apply BitVec.eq_of_getLsbD_eq
  intro i hi
  have hi' : w - 1 - i < w := by omega
  have hback : w - 1 - (w - 1 - i) = i := by omega
  simp only [reflected, coeff_regPoly, bit_eq_one]
  rw [BitVec.getLsbD_eq_getElem hi, BitVec.getElem_ofFnLE]
  simp [BitVec.getMsbD_eq_getLsbD, hi', hback, BitVec.getLsbD_eq_getElem hi]

theorem regPoly_injective : Function.Injective (regPoly (w := w)) :=
  Function.LeftInverse.injective (g := reflected w) reflected_regPoly

/-- A word in the low bits of a wider one. -/
theorem regPoly_setWidth {k : Nat} (b : BitVec k) (h : k ≤ w) : regPoly (b.setWidth w) = regPoly b * X ^ (w - k) := by
  ext i
  rw [coeff_regPoly, BitVec.getMsbD_setWidth, coeff_mul_X_pow']
  by_cases hi : w - k ≤ i
  · have hsub : i + k - w = i - (w - k) := by omega
    simp [hi, hsub, coeff_regPoly]
  · simp [hi]

end Words

/-! ## The reflected shift register -/

section Register

variable {w : Nat} (mask : BitVec w)

/-- One step of the register: shift right, xor the mask when a one falls out. -/
def shiftStep (v : BitVec w) : BitVec w := if v.getLsbD 0 then (v >>> 1) ^^^ mask else v >>> 1

/-- The generator polynomial of a mask. -/
noncomputable def generator : (ZMod 2)[X] := X ^ w + regPoly mask

theorem generator_monic : (generator mask).Monic := monic_X_pow_add (degree_regPoly_lt mask)

theorem degree_generator : (generator mask).degree = w := by
  rw [generator, degree_add_eq_left_of_degree_lt, degree_X_pow]
  rw [degree_X_pow]
  exact degree_regPoly_lt mask

/-- Shifting multiplies by `X`, less the coefficient that falls out. -/
theorem regPoly_ushiftRight (v : BitVec w) :
    regPoly (v >>> 1) = X * regPoly v + C (bit (v.getLsbD 0)) * X ^ w := by
  ext k
  rw [coeff_add, coeff_C_mul, coeff_X_pow, coeff_regPoly, BitVec.getMsbD_ushiftRight]
  cases k with
  | zero =>
    by_cases hw : w = 0
    · subst hw
      simp
    · simp [Ne.symm hw]
  | succ k =>
    rw [coeff_X_mul, coeff_regPoly, Nat.add_sub_cancel]
    rcases Nat.lt_trichotomy (k + 1) w with h | h | h
    · simp [h, h.ne]
    · have hlast : v.getMsbD k = v.getLsbD 0 := by
        have hk : k < w := by omega
        have hzero : w - 1 - k = 0 := by omega
        rw [BitVec.getMsbD_eq_getLsbD, hzero]
        simp [hk]
      rw [hlast]
      cases v.getLsbD 0 with
      | false => simp [h]
      | true => simp [h]; decide
    · have hk : w ≤ k := by omega
      have hout : ¬k + 1 < w := by omega
      simp [BitVec.getMsbD_of_ge _ _ hk, h.ne', hout]

/-- **One step of the register** multiplies by `X` and adds the generator when a one falls out. -/
theorem regPoly_shiftStep (v : BitVec w) :
    regPoly (shiftStep mask v) = X * regPoly v + C (bit (v.getLsbD 0)) * generator mask := by
  unfold shiftStep generator
  cases h : v.getLsbD 0 with
  | false => simp [regPoly_ushiftRight, h]
  | true =>
    simp only [if_true, regPoly_xor, regPoly_ushiftRight, h, bit_true, map_one, one_mul]
    ring

/-- A register holds the remainder of a polynomial that differs from it by a multiple of the generator. -/
theorem regPoly_eq_modByMonic {v : BitVec w} {p : (ZMod 2)[X]} :
    regPoly v = p %ₘ generator mask ↔ generator mask ∣ p - regPoly v := by
  constructor
  · intro h
    rw [h, ← neg_sub, dvd_neg]
    exact dvd_modByMonic_sub p _
  · rintro ⟨q, hq⟩
    have hdeg : (regPoly v).degree < (generator mask).degree := by
      rw [degree_generator]
      exact degree_regPoly_lt v
    exact (div_modByMonic_unique q (regPoly v) (generator_monic mask) ⟨by rw [← hq]; ring, hdeg⟩).2.symm

/-- **Steps of the register**: a power of `X`, reduced. -/
theorem regPoly_iterate (n : Nat) (v : BitVec w) :
    regPoly ((shiftStep mask)^[n] v) = (X ^ n * regPoly v) %ₘ generator mask := by
  rw [regPoly_eq_modByMonic]
  induction n with
  | zero => simp
  | succ n ih =>
    rw [Function.iterate_succ_apply', regPoly_shiftStep]
    have hsplit : ∀ r c : (ZMod 2)[X], X ^ (n + 1) * regPoly v - (X * r + c * generator mask) =
        X * (X ^ n * regPoly v - r) - c * generator mask := by
      intro r c
      ring
    rw [hsplit]
    exact dvd_sub (Dvd.dvd.mul_left ih X) (dvd_mul_left _ _)

/-- The register is linear. -/
theorem shiftStep_xor (a b : BitVec w) : shiftStep mask (a ^^^ b) = shiftStep mask a ^^^ shiftStep mask b := by
  apply regPoly_injective
  rw [regPoly_xor, regPoly_shiftStep, regPoly_shiftStep, regPoly_shiftStep, regPoly_xor, BitVec.getLsbD_xor, bit_xor,
    C_add]
  ring

theorem iterate_xor (n : Nat) (a b : BitVec w) :
    (shiftStep mask)^[n] (a ^^^ b) = (shiftStep mask)^[n] a ^^^ (shiftStep mask)^[n] b := by
  induction n generalizing a b with
  | zero => rfl
  | succ n ih => rw [Function.iterate_succ_apply, shiftStep_xor, ih]; rfl

/-- One step of the register backwards. -/
def unshiftStep (v : BitVec w) : BitVec w := if v.msb then ((v ^^^ mask) <<< 1) ||| 1 else v <<< 1

/-- **A register whose mask has its top bit runs backwards.** -/
theorem unshiftStep_shiftStep (h : mask.msb = true) (v : BitVec w) : unshiftStep mask (shiftStep mask v) = v := by
  have htop : (v >>> 1).msb = false := by
    rw [BitVec.msb_ushiftRight]
    simp
  have hback : ∀ i, i < w → i ≠ 0 → ((v >>> 1) <<< 1).getLsbD i = v.getLsbD i := by
    intro i hi h0
    have hsucc : 1 + (i - 1) = i := by omega
    have h1 : ¬i < 1 := by omega
    simp [hi, h1, hsucc]
  unfold shiftStep unshiftStep
  cases hbit : v.getLsbD 0 with
  | true =>
    have hmsb : (v >>> 1 ^^^ mask).msb = true := by rw [BitVec.msb_xor, htop, h]; rfl
    have hcancel : v >>> 1 ^^^ mask ^^^ mask = v >>> 1 := by rw [BitVec.xor_assoc, BitVec.xor_self, BitVec.xor_zero]
    rw [if_pos rfl, if_pos hmsb, hcancel]
    apply BitVec.eq_of_getLsbD_eq
    intro i hi
    rw [BitVec.getLsbD_or]
    by_cases h0 : i = 0
    · subst h0
      simp [hbit, hi]
    · rw [hback i hi h0]
      simp [BitVec.getLsbD_one, h0]
  | false =>
    simp only [Bool.false_eq_true, if_false, htop]
    apply BitVec.eq_of_getLsbD_eq
    intro i hi
    by_cases h0 : i = 0
    · subst h0
      simp [hbit]
    · exact hback i hi h0

/-! ## A register fed with words -/

variable {k : Nat}

/-- One word: xor it into the low bits, and step once for each of its bits. -/
def feedWord (v : BitVec w) (b : BitVec k) : BitVec w := (shiftStep mask)^[k] (v ^^^ b.setWidth w)

/-- The bits of words in order, each least significant first. -/
def wordBits (bs : List (BitVec k)) : List Bool := bs.flatMap lsbFirst

@[simp] theorem wordBits_cons (b : BitVec k) (bs : List (BitVec k)) : wordBits (b :: bs) = lsbFirst b ++ wordBits bs := rfl

@[simp] theorem wordBits_append (as bs : List (BitVec k)) : wordBits (as ++ bs) = wordBits as ++ wordBits bs :=
  List.flatMap_append

@[simp] theorem length_wordBits (bs : List (BitVec k)) : (wordBits bs).length = k * bs.length := by
  induction bs with
  | nil => rfl
  | cons b bs ih =>
    rw [wordBits_cons, List.length_append, ih, length_lsbFirst, List.length_cons]
    ring

/-- The bit of a word, at its place among the bits of all words. -/
theorem getD_wordBits (bs : List (BitVec k)) (i j : Nat) (hj : j < k) :
    (wordBits bs).getD (k * i + j) false = (bs.getD i 0).getLsbD j := by
  induction bs generalizing i with
  | nil => simp [wordBits]
  | cons b bs ih =>
    rw [wordBits_cons]
    cases i with
    | zero =>
      rw [Nat.mul_zero, Nat.zero_add, List.getD_append _ _ _ _ (by simpa using hj), List.getD_cons_zero]
      simp [lsbFirst, hj]
    | succ i =>
      have hplace : k * (i + 1) + j = k + (k * i + j) := by ring
      rw [hplace, List.getD_append_right _ _ _ _ (by simp), length_lsbFirst, Nat.add_sub_cancel_left, ih,
        List.getD_cons_succ]

/-- Words that are not all zero have a one. -/
theorem true_mem_wordBits {bs : List (BitVec k)} (h : ∃ b ∈ bs, b ≠ 0) : true ∈ wordBits bs := by
  obtain ⟨b, hb, hne⟩ := h
  refine List.mem_flatMap.2 ⟨b, hb, ?_⟩
  by_contra hno
  apply hne
  apply BitVec.eq_of_getLsbD_eq
  intro i hi
  have hzero : (0 : BitVec k).getLsbD i = false := BitVec.getLsbD_zero
  rw [hzero]
  cases hbit : b.getLsbD i with
  | false => rfl
  | true => exact absurd (List.mem_ofFn.2 ⟨⟨i, hi⟩, hbit⟩) hno

/-- The bits of two words side by side. -/
theorem lsbFirst_append {m : Nat} (a : BitVec m) (b : BitVec k) : lsbFirst (a ++ b) = lsbFirst b ++ lsbFirst a := by
  apply List.ext_getElem
  · simp [Nat.add_comm]
  · intro i h1 h2
    simp only [lsbFirst, List.getElem_ofFn, BitVec.getLsbD_append]
    by_cases hi : i < k
    · rw [List.getElem_append_left (by simpa using hi), List.getElem_ofFn]
      simp [hi]
    · rw [List.getElem_append_right (by simpa using hi), List.getElem_ofFn]
      simp [hi]

theorem regPoly_feedWord (h : k ≤ w) (v : BitVec w) (b : BitVec k) :
    regPoly (feedWord mask v b) = (regPoly v * X ^ k + regPoly b * X ^ w) %ₘ generator mask := by
  have hpow : (X : (ZMod 2)[X]) ^ w = X ^ k * X ^ (w - k) := by rw [← pow_add, Nat.add_sub_cancel' h]
  rw [feedWord, regPoly_iterate, regPoly_xor, regPoly_setWidth b h, hpow]
  congr 1
  ring

/-- **A register fed with words** holds the remainder of its start, shifted past them, and of the words, shifted by its
width. -/
theorem regPoly_feedWords (h : k ≤ w) (bs : List (BitVec k)) (v : BitVec w) :
    regPoly (bs.foldl (feedWord mask) v) =
      (regPoly v * X ^ (k * bs.length) + bitsPoly (wordBits bs) * X ^ w) %ₘ generator mask := by
  rw [regPoly_eq_modByMonic]
  induction bs generalizing v with
  | nil => simp [wordBits, bitsPoly]
  | cons b bs ih =>
    have hb := (regPoly_eq_modByMonic mask).1 (regPoly_feedWord mask h v b)
    rw [List.foldl_cons, wordBits_cons, bitsPoly_append, length_wordBits, List.length_cons]
    -- what the first word leaves, shifted past the others, and what the others leave of it
    have hsplit : ∀ r s : (ZMod 2)[X],
        regPoly v * X ^ (k * (bs.length + 1)) + (regPoly b * X ^ (k * bs.length) + bitsPoly (wordBits bs)) * X ^ w - s =
        (regPoly v * X ^ k + regPoly b * X ^ w - r) * X ^ (k * bs.length) +
          (r * X ^ (k * bs.length) + bitsPoly (wordBits bs) * X ^ w - s) := by
      intro r s
      ring
    exact (hsplit _ _).symm ▸ dvd_add (Dvd.dvd.mul_right hb _) (ih _)

theorem feedWord_xor (a b : BitVec w) (c d : BitVec k) :
    feedWord mask (a ^^^ b) (c ^^^ d) = feedWord mask a c ^^^ feedWord mask b d := by
  have hcomm : a ^^^ b ^^^ (c.setWidth w ^^^ d.setWidth w) = (a ^^^ c.setWidth w) ^^^ (b ^^^ d.setWidth w) := by
    ac_rfl
  rw [feedWord, BitVec.setWidth_xor, hcomm, iterate_xor, feedWord, feedWord]

/-- **Feeding is linear.** -/
theorem feedWords_xor (bs cs : List (BitVec k)) (hlen : bs.length = cs.length) (a b : BitVec w) :
    (List.zipWith (· ^^^ ·) bs cs).foldl (feedWord mask) (a ^^^ b) =
      bs.foldl (feedWord mask) a ^^^ cs.foldl (feedWord mask) b := by
  induction bs generalizing cs a b with
  | nil =>
    cases cs with
    | nil => rfl
    | cons c cs => simp at hlen
  | cons b' bs ih =>
    cases cs with
    | nil => simp at hlen
    | cons c cs =>
      rw [List.zipWith_cons_cons, List.foldl_cons, List.foldl_cons, List.foldl_cons, feedWord_xor]
      exact ih cs (by simpa using hlen) _ _

end Register

end CounterDrone

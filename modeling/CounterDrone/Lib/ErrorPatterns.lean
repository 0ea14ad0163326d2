import Mathlib
import CounterDrone.Lib.BitPoly

/-!
# Error patterns that a generator does not divide

The patterns that a cyclic code detects: an odd number of ones when the generator vanishes at one (`not_dvd_of_odd`),
ones inside a window no longer than the register (`not_dvd_of_window`), and two ones closer than the period of the
register (`not_dvd_of_two`), which is found by running it (`avoids`).
-/

namespace CounterDrone

open Polynomial

/-! ## Positions of ones -/

/-- Every one of a list of bits lies in the window of `width` bits from `start`. -/
def InWindow (bs : List Bool) (start width : Nat) : Prop :=
  ∀ k, bs.getD k false = true → start ≤ k ∧ k < start + width

instance (bs : List Bool) (start width : Nat) : Decidable (InWindow bs start width) :=
  decidable_of_iff (∀ k < bs.length, bs.getD k false = true → start ≤ k ∧ k < start + width) <| by
    constructor
    · intro h k hk
      by_cases hlen : k < bs.length
      · exact h k hlen hk
      · rw [List.getD_eq_default _ _ (Nat.not_lt.1 hlen)] at hk
        cases hk
    · intro h k _
      exact h k

/-- A word outside the window is zero. -/
theorem InWindow.getD_eq_zero {k : Nat} {ws : List (BitVec k)} {start width i : Nat}
    (h : InWindow (wordBits ws) start width) (hout : ∀ j < k, k * i + j < start ∨ start + width ≤ k * i + j) :
    ws.getD i 0 = 0 := by
  apply BitVec.eq_of_getLsbD_eq
  intro j hj
  have hzero : (0 : BitVec k).getLsbD j = false := BitVec.getLsbD_zero
  rw [hzero, ← getD_wordBits ws i j hj]
  by_contra hbit
  have hin := h (k * i + j) (by simpa using hbit)
  have := hout j hj
  omega

/-- The first one of a list. -/
theorem exists_first_one (bs : List Bool) (n : Nat) (h : bs.count true = n + 1) :
    ∃ as cs, bs = as ++ true :: cs ∧ as.count true = 0 ∧ cs.count true = n := by
  induction bs with
  | nil => simp at h
  | cons b bs ih =>
    cases b with
    | true => exact ⟨[], bs, rfl, rfl, by simpa using h⟩
    | false =>
      obtain ⟨as, cs, rfl, has, hcs⟩ := ih (by simpa using h)
      exact ⟨false :: as, cs, rfl, by simpa using has, hcs⟩

theorem bitsPoly_eq_zero_of_count {bs : List Bool} (h : bs.count true = 0) : bitsPoly bs = 0 := by
  rw [bitsPoly_eq_zero]
  intro b hb
  rw [List.count_eq_zero] at h
  cases b with
  | false => rfl
  | true => exact absurd hb h

theorem bitsPoly_eq_zero_of_getD {bs : List Bool} (h : ∀ k, bs.getD k false = false) : bitsPoly bs = 0 := by
  rw [bitsPoly_eq_zero]
  intro b hb
  obtain ⟨k, hk, rfl⟩ := List.mem_iff_getElem.1 hb
  rw [← h k, List.getD_eq_getElem]

/-- Two ones are two powers of `X`. -/
theorem bitsPoly_of_two {bs : List Bool} (h : bs.count true = 2) :
    ∃ c d, 0 < d ∧ d < bs.length ∧ bitsPoly bs = X ^ c * (X ^ d + 1) := by
  obtain ⟨p, r, rfl, hp, hr⟩ := exists_first_one bs 1 h
  obtain ⟨q, r, rfl, hq, hr⟩ := exists_first_one r 0 hr
  refine ⟨r.length, q.length + 1, by omega, by simp; omega, ?_⟩
  rw [bitsPoly_append, bitsPoly_eq_zero_of_count hp, bitsPoly, bitsPoly_append, bitsPoly_eq_zero_of_count hq, bitsPoly,
    bitsPoly_eq_zero_of_count hr]
  simp only [bit_true, map_one, List.length_append, List.length_cons]
  ring

/-- A list whose ones lie in a window is the window, shifted. -/
theorem bitsPoly_of_window {bs : List Bool} {start width : Nat} (h : InWindow bs start width) :
    bitsPoly bs = bitsPoly ((bs.drop start).take width) * X ^ (bs.length - (start + width)) := by
  have hfront : bitsPoly (bs.take start) = 0 := by
    apply bitsPoly_eq_zero_of_getD
    intro k
    by_cases hk : k < start
    · have hclear : bs.getD k false = false := by
        by_contra hb
        have := h k (by simpa using hb)
        omega
      simpa [List.getElem?_take, hk] using hclear
    · simp [hk]
  have hback : bitsPoly (bs.drop (start + width)) = 0 := by
    apply bitsPoly_eq_zero_of_getD
    intro k
    have hclear : bs.getD (start + width + k) false = false := by
      by_contra hb
      have := h _ (by simpa using hb)
      omega
    simpa [List.getElem?_drop] using hclear
  have hsplit : bs = bs.take start ++ ((bs.drop start).take width ++ bs.drop (start + width)) := by
    rw [← List.drop_drop, List.take_append_drop, List.take_append_drop]
  have hp := congrArg bitsPoly hsplit
  rw [bitsPoly_append, bitsPoly_append, hfront, hback, List.length_drop] at hp
  simpa using hp

/-! ## Generators -/

section Generators

variable {g : (ZMod 2)[X]}

/-- **An odd number of ones.** -/
theorem not_dvd_of_odd (hg : g.eval 1 = 0) {bs : List Bool} (h : Odd (bs.count true)) : ¬g ∣ bitsPoly bs := by
  intro hdvd
  have hzero : (bitsPoly bs).eval 1 = 0 := eval_eq_zero_of_dvd_of_eval_eq_zero hdvd hg
  rw [eval_one_bitsPoly, ZMod.natCast_eq_zero_iff] at hzero
  exact (Nat.not_even_iff_odd.2 h) (even_iff_two_dvd.2 hzero)

/-- A factor `X ^ c` does not matter. -/
theorem dvd_of_dvd_mul_X_pow (hg : g.coeff 0 ≠ 0) {p : (ZMod 2)[X]} {c : Nat} (h : g ∣ p * X ^ c) : g ∣ p := by
  have hcop : IsCoprime X g := irreducible_X.coprime_iff_not_dvd.2 fun hx => hg (X_dvd_iff.1 hx)
  exact hcop.symm.pow_right.dvd_of_dvd_mul_right h

/-- **Ones inside a window no longer than the degree.** -/
theorem not_dvd_of_window (hg : g.coeff 0 ≠ 0) {w : Nat} (hdeg : g.degree = w) {bs : List Bool} {start : Nat}
    (h : InWindow bs start w) (hone : true ∈ bs) : ¬g ∣ bitsPoly bs := by
  intro hdvd
  have hne : bitsPoly bs ≠ 0 := by
    intro h0
    exact absurd ((bitsPoly_eq_zero bs).1 h0 true hone) (by decide)
  rw [bitsPoly_of_window h] at hdvd hne
  have hwin : bitsPoly ((bs.drop start).take w) = 0 := by
    apply eq_zero_of_dvd_of_degree_lt (dvd_of_dvd_mul_X_pow hg hdvd)
    rw [hdeg]
    refine lt_of_lt_of_le (degree_bitsPoly_lt _) ?_
    exact_mod_cast List.length_take_le _ _
  exact hne (by rw [hwin, zero_mul])

end Generators

/-! ## The period of a register -/

/-- Running `step` from `v`, none of the first `n` values is `target`. -/
def avoids {α : Type*} [DecidableEq α] (step : α → α) (target : α) : Nat → α → Bool
  | 0, _ => true
  | n + 1, v => !decide (v = target) && avoids step target n (step v)

theorem iterate_ne_of_avoids {α : Type*} [DecidableEq α] {step : α → α} {target : α} {n : Nat} {v : α}
    (h : avoids step target n v = true) {d : Nat} (hd : d < n) : step^[d] v ≠ target := by
  induction n generalizing v d with
  | zero => omega
  | succ n ih =>
    simp only [avoids, Bool.and_eq_true, Bool.not_eq_true', decide_eq_false_iff_not] at h
    cases d with
    | zero => exact h.1
    | succ d =>
      rw [Function.iterate_succ_apply]
      exact ih h.2 (by omega)

/-- **Two ones closer than the period.** -/
theorem not_dvd_of_two {w : Nat} {mask one : BitVec w} (hg : (generator mask).coeff 0 ≠ 0) (hone : regPoly one = 1)
    {n : Nat} (h : avoids (shiftStep mask) one n (shiftStep mask one) = true) {bs : List Bool} (hlen : bs.length ≤ n + 1)
    (htwo : bs.count true = 2) : ¬generator mask ∣ bitsPoly bs := by
  intro hdvd
  obtain ⟨c, d, hd0, hd, hp⟩ := bitsPoly_of_two htwo
  rw [hp, mul_comm] at hdvd
  have hback : generator mask ∣ X ^ d * regPoly one - regPoly one := by
    have h1 := dvd_of_dvd_mul_X_pow hg hdvd
    rw [hone, mul_one]
    rwa [← CharTwo.sub_eq_add] at h1
  rw [← regPoly_eq_modByMonic, ← regPoly_iterate] at hback
  have hret : (shiftStep mask)^[d - 1] (shiftStep mask one) = one := by
    rw [← Function.iterate_succ_apply, Nat.succ_eq_add_one, Nat.sub_add_cancel hd0]
    exact (regPoly_injective hback).symm
  exact iterate_ne_of_avoids h (by omega) hret

end CounterDrone

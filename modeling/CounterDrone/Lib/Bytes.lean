import Mathlib

/-!
# Bytes and their orders

A byte is a `BitVec 8`. A number is written in a fixed number of bytes, most significant first (`beBytes`) or least
significant first (`leBytes`), and read back (`beNat`, `leNat`); the two orders are mirror images (`leNat_reverse`),
writing then reading is exact below `256 ^ w` (`beNat_beBytes`), and reading then writing is exact
(`beBytes_beNat`).
-/

namespace CounterDrone

/-- A byte. -/
abbrev Byte := BitVec 8

/-! ## Least significant byte first -/

/-- The `w` bytes of `n`, least significant first. -/
def leBytes : Nat → Nat → List Byte
  | 0, _ => []
  | w + 1, n => BitVec.ofNat 8 n :: leBytes w (n / 256)

/-- The number with the given bytes, least significant first. -/
def leNat : List Byte → Nat
  | [] => 0
  | b :: bs => b.toNat + 256 * leNat bs

@[simp] theorem length_leBytes : ∀ w n, (leBytes w n).length = w
  | 0, _ => rfl
  | w + 1, n => by simp [leBytes, length_leBytes w]

theorem leNat_leBytes : ∀ w n, leNat (leBytes w n) = n % 256 ^ w
  | 0, n => by simp [leBytes, leNat, Nat.mod_one]
  | w + 1, n => by
    have hpow : 256 ^ (w + 1) = 256 * 256 ^ w := Nat.pow_succ'
    rw [leBytes, leNat, leNat_leBytes w, BitVec.toNat_ofNat, hpow, Nat.mod_mul]

theorem leNat_lt : ∀ bs : List Byte, leNat bs < 256 ^ bs.length
  | [] => by simp [leNat]
  | b :: bs => by
    have hb : b.toNat < 256 := b.isLt
    have := leNat_lt bs
    rw [leNat, List.length_cons, Nat.pow_succ]
    omega

theorem leBytes_leNat : ∀ bs : List Byte, leBytes bs.length (leNat bs) = bs
  | [] => rfl
  | b :: bs => by
    have hb : b.toNat < 256 := b.isLt
    have hdiv : (b.toNat + 256 * leNat bs) / 256 = leNat bs := by omega
    rw [List.length_cons, leBytes, leNat, hdiv, leBytes_leNat bs]
    congr 1
    apply BitVec.eq_of_toNat_eq
    rw [BitVec.toNat_ofNat]
    omega

/-! ## Most significant byte first -/

/-- The `w` bytes of `n`, most significant first. -/
def beBytes (w n : Nat) : List Byte := (leBytes w n).reverse

/-- The number with the given bytes, most significant first. -/
def beNat (bs : List Byte) : Nat := leNat bs.reverse

@[simp] theorem length_beBytes (w n : Nat) : (beBytes w n).length = w := by simp [beBytes]

theorem leNat_reverse (bs : List Byte) : leNat bs.reverse = beNat bs := rfl

theorem beNat_beBytes {w n : Nat} (h : n < 256 ^ w) : beNat (beBytes w n) = n := by
  rw [beNat, beBytes, List.reverse_reverse, leNat_leBytes, Nat.mod_eq_of_lt h]

theorem beNat_lt (bs : List Byte) : beNat bs < 256 ^ bs.length := by
  simpa [beNat] using leNat_lt bs.reverse

theorem beBytes_beNat (bs : List Byte) : beBytes bs.length (beNat bs) = bs := by
  have h := leBytes_leNat bs.reverse
  rw [List.length_reverse] at h
  rw [beBytes, beNat, h, List.reverse_reverse]

/-- Two bytes, most significant first. -/
theorem beNat_pair (a b : Byte) : beNat [a, b] = a.toNat * 256 + b.toNat := by
  simp only [beNat, List.reverse_cons, List.reverse_nil, List.nil_append, List.cons_append, leNat]
  omega

end CounterDrone

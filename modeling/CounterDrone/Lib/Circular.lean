import Mathlib

/-!
# Windows of a circular array

A list `buf` is read as a circular array: `window buf s n` is the `n` elements from position `s` on, going round the
end. A contiguous write is `splice`, a write that may go round the end is `wrapWrite` (two splices).

* reading a window in two contiguous parts gives the window (`read_window`);
* dropping elements of a window moves its start (`drop_window`);
* writing after the end of a window extends it by what is written (`window_wrapWrite`).
-/

namespace CounterDrone

variable {α : Type*}

/-- One wrap: a position below the length plus at most the length. -/
theorem wrap_mod {s i n : Nat} (hs : s < n) (hi : i ≤ n) : (s + i) % n = if s + i < n then s + i else s + i - n := by
  split
  · rename_i h
    exact Nat.mod_eq_of_lt h
  · rename_i h
    rw [Nat.mod_eq_sub_mod (by omega)]
    exact Nat.mod_eq_of_lt (by omega)

/-! ## Reading -/

/-- The `n` elements of the circular array `buf` from position `s` on. -/
def window (buf : List α) (s n : Nat) : List α := (buf.drop s ++ buf.take s).take n

@[simp] theorem window_zero (buf : List α) (s : Nat) : window buf s 0 = [] := by simp [window]

theorem length_window {buf : List α} {s n : Nat} (hs : s ≤ buf.length) (hn : n ≤ buf.length) :
    (window buf s n).length = n := by
  simp only [window, List.length_take, List.length_append, List.length_drop]
  omega

/-- A window is read modulo the length of the array. -/
theorem getElem?_window {buf : List α} {s n i : Nat} (hs : s < buf.length) (hn : n ≤ buf.length) (hi : i < n) :
    (window buf s n)[i]? = buf[(s + i) % buf.length]? := by
  rw [window, List.getElem?_take_of_lt hi, wrap_mod hs (by omega)]
  by_cases h : s + i < buf.length
  · rw [if_pos h, List.getElem?_append_left (by rw [List.length_drop]; omega), List.getElem?_drop]
  · rw [if_neg h, List.getElem?_append_right (by rw [List.length_drop]; omega), List.length_drop,
      List.getElem?_take_of_lt (by omega)]
    congr 1
    omega

/-- A window is empty beyond its length. -/
theorem getElem?_window_ge {buf : List α} {s n i : Nat} (hi : n ≤ i) : (window buf s n)[i]? = none := by
  rw [window]
  exact List.getElem?_take_eq_none hi

theorem take_window {buf : List α} {s n k : Nat} (hk : k ≤ n) : (window buf s n).take k = window buf s k := by
  rw [window, List.take_take, Nat.min_eq_left hk, window]

/-- Two contiguous reads, the second one from the start of the array, give the window. -/
theorem read_window (buf : List α) {s n : Nat} (hs : s ≤ buf.length) (hn : n ≤ buf.length) :
    (buf.drop s).take (min n (buf.length - s)) ++ buf.take (n - min n (buf.length - s)) = window buf s n := by
  have hmin : (buf.drop s).take (min n (buf.length - s)) = (buf.drop s).take n := by
    rw [← List.length_drop, ← List.take_take, List.take_length]
  have hrest : min (n - (buf.length - s)) s = n - min n (buf.length - s) := by omega
  rw [window, List.take_append, List.length_drop, List.take_take, hrest, hmin]

/-- Dropping from a window moves its start round. -/
theorem drop_window (buf : List α) {s n k : Nat} (hs : s < buf.length) (hn : n ≤ buf.length) (hk : k ≤ n) :
    (window buf s n).drop k = window buf ((s + k) % buf.length) (n - k) := by
  have hpos : (s + k) % buf.length < buf.length := Nat.mod_lt _ (by omega)
  apply List.ext_getElem?
  intro i
  rw [List.getElem?_drop]
  by_cases hi : i < n - k
  · rw [getElem?_window hs hn (by omega), getElem?_window hpos (by omega) hi, Nat.mod_add_mod, Nat.add_assoc]
  · rw [getElem?_window_ge (by omega), getElem?_window_ge (by omega)]

/-! ## Writing -/

/-- `dst` with `src` copied over it from position `off` on. -/
def splice (dst : List α) (off : Nat) (src : List α) : List α := dst.take off ++ src ++ dst.drop (off + src.length)

theorem length_splice {dst src : List α} {off : Nat} (h : off + src.length ≤ dst.length) :
    (splice dst off src).length = dst.length := by
  simp only [splice, List.length_append, List.length_take, List.length_drop]
  omega

/-- A splice changes the positions it covers and no other. -/
theorem getElem?_splice {dst src : List α} {off k : Nat} (h : off + src.length ≤ dst.length) :
    (splice dst off src)[k]? = if off ≤ k ∧ k < off + src.length then src[k - off]? else dst[k]? := by
  have htake : (dst.take off).length = off := by rw [List.length_take]; omega
  by_cases hlow : k < off
  · rw [if_neg (by omega), splice, List.append_assoc, List.getElem?_append_left (by omega),
      List.getElem?_take_of_lt hlow]
  · by_cases hmid : k < off + src.length
    · rw [if_pos ⟨by omega, hmid⟩, splice, List.append_assoc, List.getElem?_append_right (by omega), htake,
        List.getElem?_append_left (by omega)]
    · rw [if_neg (by omega), splice, List.getElem?_append_right (by simp [htake]; omega), List.length_append, htake,
        List.getElem?_drop]
      congr 1
      omega

/-- `data` copied into the circular array from position `h` on: up to the end of the array, and the remainder from
its start. -/
def wrapWrite (buf : List α) (h : Nat) (data : List α) : List α :=
  let first := min data.length (buf.length - h)
  splice (splice buf h (data.take first)) 0 (data.drop first)

/-- What does not reach the end of the array is one contiguous write. -/
theorem wrapWrite_of_fits {buf data : List α} {h : Nat} (hfit : data.length ≤ buf.length - h) :
    wrapWrite buf h data = splice buf h data := by
  have hmin : min data.length (buf.length - h) = data.length := by omega
  simp only [wrapWrite, hmin, List.take_length, List.drop_length]
  simp [splice]

section Write

variable {buf data : List α} {h : Nat}

theorem length_wrapWrite (hh : h < buf.length) (hd : data.length ≤ buf.length) :
    (wrapWrite buf h data).length = buf.length := by
  have hfirst : (splice buf h (data.take (min data.length (buf.length - h)))).length = buf.length :=
    length_splice (by rw [List.length_take]; omega)
  rw [wrapWrite, length_splice (by rw [hfirst, List.length_drop]; omega), hfirst]

/-- A circular write changes the positions it covers, counted from its start, and no other. -/
theorem getElem?_wrapWrite (hh : h < buf.length) (hd : data.length ≤ buf.length) {j : Nat} (hj : j < buf.length) :
    (wrapWrite buf h data)[(h + j) % buf.length]? =
      if j < data.length then data[j]? else buf[(h + j) % buf.length]? := by
  have hfit : h + (data.take (min data.length (buf.length - h))).length ≤ buf.length := by
    rw [List.length_take]; omega
  rw [wrapWrite, getElem?_splice (by rw [length_splice hfit, List.length_drop]; omega), getElem?_splice hfit,
    wrap_mod hh (by omega), List.length_drop, List.length_take]
  -- a position before the end of the array is written by the first part, one after it by the second
  by_cases hwrap : h + j < buf.length
  · rw [if_pos hwrap, if_neg (by omega)]
    by_cases hw : j < data.length
    · rw [if_pos (by omega), if_pos hw, List.getElem?_take_of_lt (by omega)]
      congr 1
      omega
    · rw [if_neg (by omega), if_neg hw]
  · rw [if_neg hwrap]
    by_cases hw : j < data.length
    · rw [if_pos (by omega), if_pos hw, List.getElem?_drop]
      congr 1
      omega
    · rw [if_neg (by omega), if_neg (by omega), if_neg hw]

/-- **Writing after a window extends it.** -/
theorem window_wrapWrite {s n : Nat} (hs : s < buf.length) (hn : n + data.length ≤ buf.length)
    (hh : h = (s + n) % buf.length) :
    window (wrapWrite buf h data) s (n + data.length) = window buf s n ++ data := by
  have hlt : h < buf.length := by rw [hh]; exact Nat.mod_lt _ (by omega)
  have hlen : (wrapWrite buf h data).length = buf.length := length_wrapWrite hlt (by omega)
  apply List.ext_getElem?
  intro i
  by_cases hi : i < n + data.length
  · rw [getElem?_window (by omega) (by omega) hi, hlen]
    -- position `i` of the window is position `j` counted from the write
    by_cases hin : i < n
    · have hj : (s + i) % buf.length = (h + (buf.length - n + i)) % buf.length := by
        rw [hh, Nat.mod_add_mod, show s + n + (buf.length - n + i) = s + i + buf.length by omega, Nat.add_mod_right]
      rw [hj, getElem?_wrapWrite hlt (by omega) (by omega), if_neg (by omega), ← hj,
        List.getElem?_append_left (by rw [length_window (by omega) (by omega)]; exact hin),
        getElem?_window hs (by omega) hin]
    · have hj : (s + i) % buf.length = (h + (i - n)) % buf.length := by
        rw [hh, Nat.mod_add_mod, show s + n + (i - n) = s + i by omega]
      rw [hj, getElem?_wrapWrite hlt (by omega) (by omega), if_pos (by omega),
        List.getElem?_append_right (by rw [length_window (by omega) (by omega)]; omega),
        length_window (by omega) (by omega)]
  · rw [getElem?_window_ge (by omega), List.getElem?_eq_none]
    rw [List.length_append, length_window (by omega) (by omega)]
    omega

end Write

end CounterDrone

import Mathlib

/-!
# Incremental scanners

A scanner looks at the unread input and either waits for more of it or makes a move: it gives an output and advances
by at least one element. A move once possible stays the same when more input arrives (`Scanner.stable`), so that a
scan does not depend on how the input is cut into chunks (`Scanner.feed_eq_scan`).

The moves of a scan, placed at their offsets (`place`), are the scanner's moves there (`Scanner.look_of_mem_place`),
follow one another without overlap (`place_pairwise`) and cover everything that was read
(`exists_mem_place_of_lt`).
-/

namespace CounterDrone

variable {α β : Type*}

/-- What a scanner decides about the unread input. -/
inductive Verdict (β : Type*)
  /-- more input is needed -/
  | wait
  /-- give `out` and advance by `n` -/
  | move (n : Nat) (out : β)
  deriving DecidableEq

/-- A decision on unread input that more input does not change. -/
structure Scanner (α β : Type*) where
  look : List α → Verdict β
  move_pos : ∀ {xs n o}, look xs = .move n o → 0 < n
  move_le : ∀ {xs n o}, look xs = .move n o → n ≤ xs.length
  stable : ∀ {xs n o}, look xs = .move n o → ∀ ys, look (xs ++ ys) = .move n o

namespace Scanner

variable (S : Scanner α β)

/-- Move until the scanner waits: the moves made, and the input left unread. -/
def scan (xs : List α) : List (Nat × β) × List α :=
  match _h : S.look xs with
  | .wait => ([], xs)
  | .move n o =>
    let r := scan (xs.drop n)
    ((n, o) :: r.1, r.2)
termination_by xs.length
decreasing_by
  have hpos := S.move_pos _h
  have hle := S.move_le _h
  rw [List.length_drop]
  omega

variable {S}

theorem scan_wait {xs : List α} (h : S.look xs = .wait) : S.scan xs = ([], xs) := by
  rw [scan]
  split
  · rfl
  · rename_i h'
    rw [h] at h'
    cases h'

theorem scan_move {xs : List α} {n : Nat} {o : β} (h : S.look xs = .move n o) :
    S.scan xs = ((n, o) :: (S.scan (xs.drop n)).1, (S.scan (xs.drop n)).2) := by
  rw [scan]
  split
  · rename_i h'
    rw [h] at h'
    cases h'
  · rename_i h'
    rw [h] at h'
    cases h'
    rfl

/-- Induction along a scan. -/
theorem scan_induction {P : List α → Prop} (hwait : ∀ xs, S.look xs = .wait → P xs)
    (hmove : ∀ xs n o, S.look xs = .move n o → P (xs.drop n) → P xs) (xs : List α) : P xs := by
  induction xs using scan.induct S with
  | case1 xs h => exact hwait xs h
  | case2 xs n o h ih => exact hmove xs n o h ih

theorem look_nil : S.look [] = .wait := by
  cases h : S.look [] with
  | wait => rfl
  | move n o =>
    have hpos := S.move_pos h
    have hle := S.move_le h
    rw [List.length_nil] at hle
    omega

/-- A scan stops where the scanner waits. -/
theorem look_rest (xs : List α) : S.look (S.scan xs).2 = .wait := by
  induction xs using scan_induction (S := S) with
  | hwait xs h => rw [scan_wait h]; exact h
  | hmove xs n o h ih => rw [scan_move h]; exact ih

/-- **More input continues the scan** from what was left unread. -/
theorem scan_append (xs ys : List α) :
    S.scan (xs ++ ys) = ((S.scan xs).1 ++ (S.scan ((S.scan xs).2 ++ ys)).1, (S.scan ((S.scan xs).2 ++ ys)).2) := by
  induction xs using scan_induction (S := S) with
  | hwait xs h => rw [scan_wait h]; rfl
  | hmove xs n o h ih =>
    have hd : (xs ++ ys).drop n = xs.drop n ++ ys := List.drop_append_of_le_length (S.move_le h)
    rw [scan_move (S.stable h ys), hd, ih, scan_move h]
    rfl

/-! ## Feeding chunks -/

variable (S) in
/-- Scan chunk by chunk, keeping what is left unread in front of the next chunk. -/
def feed : List α → List (List α) → List (Nat × β) × List α
  | carry, [] => ([], carry)
  | carry, c :: cs =>
    let r := S.scan (carry ++ c)
    let t := feed r.2 cs
    (r.1 ++ t.1, t.2)

/-- **However the input is cut into chunks, feeding them is one scan.** -/
theorem feed_eq_scan {carry : List α} (h : S.look carry = .wait) (cs : List (List α)) :
    S.feed carry cs = S.scan (carry ++ cs.flatten) := by
  induction cs generalizing carry with
  | nil => rw [feed, List.flatten_nil, List.append_nil, scan_wait h]
  | cons c cs ih =>
    rw [feed, List.flatten_cons, ← List.append_assoc, scan_append (carry ++ c)]
    simp only [ih (look_rest (carry ++ c))]

end Scanner

/-! ## Moves at their offsets -/

/-- Moves with the offset each one was made at, the first at `p`. -/
def place : Nat → List (Nat × β) → List (Nat × Nat × β)
  | _, [] => []
  | p, (n, o) :: ms => (p, n, o) :: place (p + n) ms

/-- How far moves advance in all. -/
def span (ms : List (Nat × β)) : Nat := (ms.map Prod.fst).sum

@[simp] theorem span_nil : span ([] : List (Nat × β)) = 0 := rfl

@[simp] theorem span_cons (n : Nat) (o : β) (ms : List (Nat × β)) : span ((n, o) :: ms) = n + span ms := by
  simp [span]

theorem le_of_mem_place : ∀ {ms : List (Nat × β)} {p i n : Nat} {o : β}, (i, n, o) ∈ place p ms → p ≤ i
  | (n', o') :: ms, p, i, n, o, h => by
    rcases List.mem_cons.mp h with h | h
    · cases h
      exact Nat.le_refl _
    · have := le_of_mem_place h
      omega

/-- Placed moves end where the moves together end, or before. -/
theorem le_span_of_mem_place : ∀ {ms : List (Nat × β)} {p i n : Nat} {o : β}, (i, n, o) ∈ place p ms → i + n ≤ p + span ms
  | (n', o') :: ms, p, i, n, o, h => by
    rw [span_cons]
    rcases List.mem_cons.mp h with h | h
    · cases h
      omega
    · have := le_span_of_mem_place h
      omega

/-- Where a placed move ends the next one starts, or all of them end. -/
theorem next_mem_place : ∀ {ms : List (Nat × β)} {p i n : Nat} {o : β}, (i, n, o) ∈ place p ms →
    i + n = p + span ms ∨ ∃ n' o', (i + n, n', o') ∈ place p ms
  | (n', o') :: ms, p, i, n, o, h => by
    rw [span_cons, ← Nat.add_assoc]
    rcases List.mem_cons.mp h with h | h
    · cases h
      cases ms with
      | nil => exact Or.inl rfl
      | cons m ms => exact Or.inr ⟨m.1, m.2, List.mem_cons_of_mem _ List.mem_cons_self⟩
    · rcases next_mem_place h with he | ⟨n'', o'', hm⟩
      · exact Or.inl he
      · exact Or.inr ⟨n'', o'', List.mem_cons_of_mem _ hm⟩

/-- Placed moves do not overlap and come in increasing order of offset. -/
theorem place_pairwise : ∀ (ms : List (Nat × β)) (p : Nat), (place p ms).Pairwise fun a b => a.1 + a.2.1 ≤ b.1
  | [], _ => List.Pairwise.nil
  | (n, o) :: ms, p => by
    refine List.Pairwise.cons ?_ (place_pairwise ms (p + n))
    rintro ⟨i, n', o'⟩ h
    exact le_of_mem_place h

/-- Every offset that was advanced over is covered by a placed move. -/
theorem exists_mem_place_of_lt : ∀ {ms : List (Nat × β)} {p i : Nat}, p ≤ i → i < p + span ms →
    ∃ j n o, (j, n, o) ∈ place p ms ∧ j ≤ i ∧ i < j + n
  | [], p, i, hp, hi => by
    rw [span_nil] at hi
    omega
  | (n, o) :: ms, p, i, hp, hi => by
    rw [span_cons] at hi
    by_cases h : i < p + n
    · exact ⟨p, n, o, List.mem_cons_self, hp, h⟩
    · obtain ⟨j, n', o', hm, h1, h2⟩ := exists_mem_place_of_lt (p := p + n) (by omega) (show i < p + n + span ms by omega)
      exact ⟨j, n', o', List.mem_cons_of_mem _ hm, h1, h2⟩

namespace Scanner

variable {S : Scanner α β}

/-- A scan leaves the input after its moves, and reads no further than the end. -/
theorem scan_rest (xs : List α) : (S.scan xs).2 = xs.drop (span (S.scan xs).1) ∧ span (S.scan xs).1 ≤ xs.length := by
  induction xs using scan_induction (S := S) with
  | hwait xs h => simp [scan_wait h]
  | hmove xs n o h ih =>
    have hle := S.move_le h
    obtain ⟨hdrop, hspan⟩ := ih
    rw [List.length_drop] at hspan
    rw [scan_move h]
    refine ⟨?_, ?_⟩
    · rw [span_cons, ← List.drop_drop, hdrop]
    · rw [span_cons]
      omega

/-- The length of what a scan leaves. -/
theorem span_add_rest (xs : List α) : span (S.scan xs).1 + (S.scan xs).2.length = xs.length := by
  obtain ⟨hdrop, hspan⟩ := scan_rest (S := S) xs
  rw [hdrop, List.length_drop]
  omega

/-- A placed move of a scan is the scanner's move at its offset. -/
theorem look_of_mem_place (xs : List α) : ∀ {p i n : Nat} {o : β}, (i, n, o) ∈ place p (S.scan xs).1 →
    S.look (xs.drop (i - p)) = .move n o := by
  induction xs using scan_induction (S := S) with
  | hwait xs h =>
    intro p i n o hm
    rw [scan_wait h] at hm
    cases hm
  | hmove xs n o h ih =>
    intro p i n' o' hm
    rw [scan_move h] at hm
    rcases List.mem_cons.mp hm with hm | hm
    · cases hm
      rw [Nat.sub_self, List.drop_zero]
      exact h
    · have hle := le_of_mem_place hm
      have := ih hm
      rwa [List.drop_drop, show n + (i - (p + n)) = i - p by omega] at this

end Scanner

end CounterDrone

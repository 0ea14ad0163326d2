import Mathlib

/-!
# Loops, turn by turn

A loop is a relation between the state before a turn, what the turn emits and the state after it; `Turns` are finitely
many turns of it. A loop whose turns go down a well-founded order comes to a state without a turn (`exists_last_turn`),
and one whose turns lower a number makes no more turns than that number (`Turns.count_le`). What a turn emits and what it
changes are summed up over the turns (`Turns.balance`).
-/

namespace CounterDrone

variable {σ ε : Type*}

/-- Turns of a loop: how many, the state before them, what they emit, and the state after them. -/
inductive Turns (turn : σ → List ε → σ → Prop) : Nat → σ → List ε → σ → Prop
  | none (a : σ) : Turns turn 0 a [] a
  | turn {n : Nat} {a b c : σ} {es fs : List ε} (h : turn a es b) (hs : Turns turn n b fs c) :
      Turns turn (n + 1) a (es ++ fs) c

variable {turn : σ → List ε → σ → Prop}

/-- **A loop that goes down a well-founded order ends**: it comes to a state without a turn. -/
theorem exists_last_turn {α : Type*} {r : α → α → Prop} (hr : WellFounded r) (rank : σ → α)
    (hdown : ∀ a es b, turn a es b → r (rank b) (rank a)) (a : σ) :
    ∃ n es b, Turns turn n a es b ∧ ∀ fs c, ¬turn b fs c := by
  induction a using (InvImage.wf rank hr).induction with
  | _ a ih =>
    by_cases hlast : ∃ es b, turn a es b
    · obtain ⟨es, b, hturn⟩ := hlast
      obtain ⟨n, fs, c, hs, hc⟩ := ih b (hdown a es b hturn)
      exact ⟨n + 1, es ++ fs, c, .turn hturn hs, hc⟩
    · refine ⟨0, [], a, .none a, ?_⟩
      intro fs c hturn
      exact hlast ⟨fs, c, hturn⟩

/-- A loop makes no more turns than a number that each of them lowers. -/
theorem Turns.count_le {μ : σ → Nat} (hdown : ∀ a es b, turn a es b → μ b < μ a) {n : Nat} {a b : σ} {es : List ε}
    (h : Turns turn n a es b) : n + μ b ≤ μ a := by
  induction h with
  | none a => omega
  | turn h _ ih =>
    have := hdown _ _ _ h
    omega

/-- What is left of a stock after the turns, and what they took from it. -/
theorem Turns.balance {stock : σ → Nat} {taken : List ε → Nat} (hnil : taken [] = 0)
    (happ : ∀ es fs, taken (es ++ fs) = taken es + taken fs)
    (hturn : ∀ a es b, turn a es b → stock b + taken es = stock a) {n : Nat} {a b : σ} {es : List ε}
    (h : Turns turn n a es b) : stock b + taken es = stock a := by
  induction h with
  | none a => rw [hnil]; rfl
  | turn h _ ih =>
    have := hturn _ _ _ h
    rw [happ]
    omega

/-- What one turn emits at most, many turns emit at most. -/
theorem Turns.bounded {cost paid : List ε → Nat} (hnil : cost [] ≤ paid [])
    (hcost : ∀ es fs, cost (es ++ fs) = cost es + cost fs) (hpaid : ∀ es fs, paid (es ++ fs) = paid es + paid fs)
    (hturn : ∀ a es b, turn a es b → cost es ≤ paid es) {n : Nat} {a b : σ} {es : List ε} (h : Turns turn n a es b) :
    cost es ≤ paid es := by
  induction h with
  | none a => exact hnil
  | turn h _ ih =>
    have := hturn _ _ _ h
    rw [hcost, hpaid]
    omega

end CounterDrone

import Mathlib
import CounterDrone.Lib.Reach

/-!
# Fair runs

A run is an infinite sequence of states in which each step is made by an actor or nothing happens. It is fair to an actor
if the actor, once it is ready for good, makes another step (`Run.Fair`); what it means to be ready is a parameter, so
that an actor that waits for something need not be counted as ready.

The rank rule (`Run.Fair.eventually`): a goal is reached from every moment with a property that is kept until then, if
the actor is ready meanwhile, its steps lower a rank, and the steps of the others do not raise it.

A run is strongly fair to an actor if the actor makes steps again and again as soon as it is ready again and again
(`Run.StronglyFair`). Then the rank rule needs no more than that (`Run.StronglyFair.eventually`).

Fairness excludes no finite run: every reachable state comes in a fair run, in which the actors make their steps in turn
(`Run.exists_fair`).
-/

namespace CounterDrone

variable {α σ : Type*}

/-- A run of a system whose steps are made by actors. -/
structure Run (init : σ → Prop) (step : α → σ → σ → Prop) where
  state : Nat → σ
  /-- who makes the step from a moment to the next -/
  actor : Nat → Option α
  init_state : init (state 0)
  step_state : ∀ {i a}, actor i = some a → step a (state i) (state (i + 1))
  idle_state : ∀ {i}, actor i = none → state (i + 1) = state i

namespace Run

variable {init : σ → Prop} {step : α → σ → σ → Prop} (r : Run init step)

/-- The states of a run are reachable. -/
theorem reachable {S : System σ} (hinit : ∀ s, init s → S.init s) (hstep : ∀ a s t, step a s t → S.step s t) :
    ∀ i, S.Reachable (r.state i)
  | 0 => .init (hinit _ r.init_state)
  | i + 1 => by
    have ih := reachable hinit hstep i
    cases ha : r.actor i with
    | none => rwa [r.idle_state ha]
    | some a => exact ih.step (hstep _ _ _ (r.step_state ha))

/-- A run is left at a moment and goes on as another one. -/
def append (N : Nat) (r' : Run (fun t => t = r.state N) step) : Run init step where
  state i := if i < N then r.state i else r'.state (i - N)
  actor i := if i < N then r.actor i else r'.actor (i - N)
  init_state := by
    by_cases hN : 0 < N
    · rw [if_pos hN]
      exact r.init_state
    · obtain rfl : N = 0 := by omega
      rw [if_neg hN, r'.init_state]
      exact r.init_state
  step_state := by
    intro i a ha
    by_cases hi : i < N
    · rw [if_pos hi] at ha ⊢
      by_cases hnext : i + 1 < N
      · rw [if_pos hnext]
        exact r.step_state ha
      · obtain rfl : N = i + 1 := by omega
        rw [if_neg hnext, Nat.sub_self, r'.init_state]
        exact r.step_state ha
    · rw [if_neg hi] at ha ⊢
      rw [if_neg (by omega), Nat.sub_add_comm (by omega)]
      exact r'.step_state ha
  idle_state := by
    intro i ha
    by_cases hi : i < N
    · rw [if_pos hi] at ha ⊢
      by_cases hnext : i + 1 < N
      · rw [if_pos hnext]
        exact r.idle_state ha
      · obtain rfl : N = i + 1 := by omega
        rw [if_neg hnext, Nat.sub_self, r'.init_state]
        exact r.idle_state ha
    · rw [if_neg hi] at ha ⊢
      rw [if_neg (by omega), Nat.sub_add_comm (by omega)]
      exact r'.idle_state ha

section Append

variable {r} {N : Nat} {r' : Run (fun t => t = r.state N) step}

@[simp]
theorem append_state (k : Nat) : (r.append N r').state (N + k) = r'.state k := by
  simp [append]

theorem append_state_le {k : Nat} (hk : k ≤ N) : (r.append N r').state k = r.state k := by
  rcases Nat.lt_or_eq_of_le hk with hlt | rfl
  · simp [append, hlt]
  · simp [append, r'.init_state]

@[simp]
theorem append_actor (k : Nat) : (r.append N r').actor (N + k) = r'.actor k := by
  simp [append]

end Append

/-- Nothing happens. -/
def still (s : σ) : Run (fun t => t = s) step := ⟨fun _ => s, fun _ => none, rfl, by simp, by simp⟩

/-- One step, and nothing more. -/
def once {a : α} {s t : σ} (h : step a s t) : Run (fun u => u = s) step where
  state i := if i = 0 then s else t
  actor i := if i = 0 then some a else none
  init_state := rfl
  step_state := by
    intro i b hb
    by_cases hi : i = 0
    · subst hi
      cases hb
      exact h
    · rw [if_neg hi] at hb
      cases hb
  idle_state := by
    intro i hi
    by_cases h0 : i = 0
    · rw [if_pos h0] at hi
      cases hi
    · rw [if_neg h0, if_neg (by omega)]

/-- Every reachable state comes in a run. -/
theorem exists_state {S : System σ} {step : α → σ → σ → Prop} (hstep : ∀ s t, S.step s t → ∃ a, step a s t) {s : σ}
    (hs : S.Reachable s) : ∃ (r : Run S.init step) (N : Nat), r.state N = s := by
  induction hs with
  | @init s h => exact ⟨⟨fun _ => s, fun _ => none, h, by simp, by simp⟩, 0, rfl⟩
  | step _ h ih =>
    obtain ⟨r, N, rfl⟩ := ih
    obtain ⟨a, ha⟩ := hstep _ _ h
    exact ⟨r.append N (once ha), N + 1, append_state 1⟩

/-- Every reachable state is the last one of a run. -/
theorem exists_last {S : System σ} {step : α → σ → σ → Prop} (hstep : ∀ s t, S.step s t → ∃ a, step a s t) {s : σ}
    (hs : S.Reachable s) : ∃ (r : Run S.init step) (N : Nat), ∀ i, N ≤ i → r.state i = s ∧ r.actor i = none := by
  obtain ⟨r, N, rfl⟩ := exists_state hstep hs
  refine ⟨r.append N (still _), N, ?_⟩
  intro i hi
  obtain ⟨k, rfl⟩ := Nat.exists_eq_add_of_le hi
  exact ⟨append_state k, append_actor k⟩

/-- Every finite run goes through its first state and ends in its last one. -/
theorem exists_through {S : System σ} {step : α → σ → σ → Prop} (hstep : ∀ s t, S.step s t → ∃ a, step a s t) {s t : σ}
    (hs : S.Reachable s) (hrun : Relation.ReflTransGen S.step s t) :
    ∃ (r : Run S.init step) (N M : Nat), N ≤ M ∧ r.state N = s ∧ ∀ i, M ≤ i → r.state i = t ∧ r.actor i = none := by
  induction hrun with
  | refl =>
    obtain ⟨r, N, hlast⟩ := exists_last hstep hs
    exact ⟨r, N, N, le_rfl, (hlast N le_rfl).1, hlast⟩
  | tail _ h ih =>
    obtain ⟨r, N, M, hNM, hN, hlast⟩ := ih
    obtain ⟨rfl, -⟩ := hlast M le_rfl
    obtain ⟨a, ha⟩ := hstep _ _ h
    refine ⟨r.append M (once ha), N, M + 1, by omega, (append_state_le hNM).trans hN, ?_⟩
    intro i hi
    obtain ⟨k, rfl⟩ := Nat.exists_eq_add_of_le hi
    rw [Nat.add_assoc, append_state, append_actor]
    simp [once, Nat.add_comm 1 k]

/-- What no step undoes stays. -/
theorem stable {P : σ → Prop} (hkeep : ∀ i, P (r.state i) → P (r.state (i + 1))) {i j : Nat} (hij : i ≤ j)
    (h : P (r.state i)) : P (r.state j) := by
  induction j, hij using Nat.le_induction with
  | base => exact h
  | succ j _ ih => exact hkeep j ih

/-- An actor that is ready for good makes another step. -/
def Fair (ready : α → σ → Prop) (a : α) : Prop :=
  ∀ i, (∀ j, i ≤ j → ready a (r.state j)) → ∃ j, i ≤ j ∧ r.actor j = some a

/-- An actor that is ready again and again makes steps again and again. -/
def StronglyFair (ready : α → σ → Prop) (a : α) : Prop :=
  (∀ i, ∃ j, i ≤ j ∧ ready a (r.state j)) → ∀ i, ∃ j, i ≤ j ∧ r.actor j = some a

/-- What has to be shown of the steps for the rank rule: `P` is kept until the goal `Q`, and the rank goes down. -/
structure Lowers {ρ : Type*} [Preorder ρ] (a : α) (rank : Nat → ρ) (P Q : Nat → Prop) : Prop where
  mine : ∀ i, P i → ¬Q i → r.actor i = some a → Q (i + 1) ∨ (P (i + 1) ∧ rank (i + 1) < rank i)
  others : ∀ i, P i → ¬Q i → r.actor i ≠ some a → Q (i + 1) ∨ (P (i + 1) ∧ rank (i + 1) ≤ rank i)

/-- Moreover, the actor is ready until then. -/
structure Descends {ρ : Type*} [Preorder ρ] (ready : α → σ → Prop) (a : α) (rank : Nat → ρ) (P Q : Nat → Prop) : Prop where
  ready : ∀ i, P i → ¬Q i → ready a (r.state i)
  lowers : r.Lowers a rank P Q

variable {r}

theorem StronglyFair.fair {ready : α → σ → Prop} {a : α} (h : r.StronglyFair ready a) : r.Fair ready a := by
  intro i hready
  refine h ?_ i
  intro j
  exact ⟨max i j, by omega, hready _ (by omega)⟩

section Rank

variable {ρ : Type*} [Preorder ρ] {ready : α → σ → Prop} {a : α} {rank : Nat → ρ} {P Q : Nat → Prop} {i : Nat}

/-- As long as the goal is not reached, the property holds and the rank is no higher. -/
theorem Lowers.keeps (h : r.Lowers a rank P Q) (hi : P i) (hnot : ∀ j, i ≤ j → ¬Q j) {j : Nat} (hij : i ≤ j) :
    P j ∧ rank j ≤ rank i := by
  induction j, hij using Nat.le_induction with
  | base => exact ⟨hi, le_refl _⟩
  | succ j hij ih =>
    by_cases ha : r.actor j = some a
    · rcases h.mine j ih.1 (hnot j hij) ha with hq | ⟨hp, hlt⟩
      · exact absurd hq (hnot (j + 1) (by omega))
      · exact ⟨hp, hlt.le.trans ih.2⟩
    · rcases h.others j ih.1 (hnot j hij) ha with hq | ⟨hp, hle⟩
      · exact absurd hq (hnot (j + 1) (by omega))
      · exact ⟨hp, hle.trans ih.2⟩

/-- An actor that acts again and again until the goal is reached. -/
theorem Lowers.eventually [WellFoundedLT ρ] (h : r.Lowers a rank P Q)
    (hacts : ∀ i, P i → (∀ j, i ≤ j → ¬Q j) → ∃ j, i ≤ j ∧ r.actor j = some a) (hi : P i) : ∃ j, i ≤ j ∧ Q j := by
  generalize hrank : rank i = x
  induction x using WellFoundedLT.induction generalizing i with
  | ind x ih =>
    by_contra hnone
    have hnot : ∀ j, i ≤ j → ¬Q j := fun j hij hq => hnone ⟨j, hij, hq⟩
    obtain ⟨j, hij, ha⟩ := hacts i hi hnot
    obtain ⟨hp, hle⟩ := h.keeps hi hnot hij
    rcases h.mine j hp (hnot j hij) ha with hq | ⟨hp', hlt⟩
    · exact hnot (j + 1) (by omega) hq
    · have hdown : rank (j + 1) < x := hrank ▸ hlt.trans_le hle
      obtain ⟨k, hk, hq⟩ := ih _ hdown hp' rfl
      exact hnot k (by omega) hq

/-- **The rank rule.** -/
theorem Fair.eventually [WellFoundedLT ρ] (hfair : r.Fair ready a) (h : r.Descends ready a rank P Q) (hi : P i) :
    ∃ j, i ≤ j ∧ Q j := by
  refine h.lowers.eventually ?_ hi
  intro i hi hnot
  exact hfair i fun j hij => h.ready j (h.lowers.keeps hi hnot hij).1 (hnot j hij)

/-- **The rank rule for an actor that is ready again and again.** -/
theorem StronglyFair.eventually [WellFoundedLT ρ] (hfair : r.StronglyFair ready a) (h : r.Lowers a rank P Q)
    (hoften : ∀ i, P i → ∃ j, i ≤ j ∧ (Q j ∨ ready a (r.state j))) (hi : P i) : ∃ j, i ≤ j ∧ Q j := by
  refine h.eventually ?_ hi
  intro i hi hnot
  refine hfair ?_ i
  intro k
  obtain ⟨hp, -⟩ := h.keeps hi hnot (Nat.le_max_left i k)
  obtain ⟨j, hj, hq | hready⟩ := hoften _ hp
  · exact absurd hq (hnot j (by omega))
  · exact ⟨j, by omega, hready⟩

end Rank

/-! ## Fair runs exist -/

section Turns

variable {ready : α → σ → Prop} (hable : ∀ a s, ready a s → ∃ t, step a s t) (turn : Nat → α)

open Classical in
/-- It is the turn of an actor: it makes a step if it is ready. -/
noncomputable def takeTurn (a : α) (s : σ) : σ := if h : ready a s then choose (hable a s h) else s

/-- The actors make their steps in turn. -/
noncomputable def inTurn (s : σ) : Nat → σ
  | 0 => s
  | k + 1 => takeTurn hable (turn k) (inTurn s k)

open Classical in
/-- The run in which the actors make their steps in turn. -/
noncomputable def turns (s : σ) : Run (fun t => t = s) step where
  state := inTurn hable turn s
  actor k := if ready (turn k) (inTurn hable turn s k) then some (turn k) else none
  init_state := rfl
  step_state := by
    intro k a ha
    split at ha
    · rename_i h
      cases ha
      rw [inTurn, takeTurn, dif_pos h]
      exact choose_spec (hable _ _ h)
    · cases ha
  idle_state := by
    intro k ha
    split at ha
    · cases ha
    · rename_i h
      rw [inTurn, takeTurn, dif_neg h]

include hable in
/-- **Every reachable state comes in a fair run**, in which from then on only those make steps who are ready. -/
theorem exists_fair {S : System σ} (hstep : ∀ s t, S.step s t → ∃ a, step a s t) (hturn : ∀ a i, ∃ j, i ≤ j ∧ turn j = a)
    {s : σ} (hs : S.Reachable s) :
    ∃ (r : Run S.init step) (N : Nat), r.state N = s ∧ (∀ a, r.Fair ready a) ∧
      ∀ i a, N ≤ i → r.actor i = some a → ready a (r.state i) := by
  obtain ⟨r, N, rfl⟩ := exists_state hstep hs
  refine ⟨r.append N (turns hable turn _), N, append_state 0, ?_, ?_⟩
  · -- the next turn of the actor
    intro a i hready
    obtain ⟨j, hij, rfl⟩ := hturn a i
    refine ⟨N + j, by omega, ?_⟩
    have hj := hready (N + j) (by omega)
    rw [append_state] at hj
    rw [append_actor]
    exact if_pos hj
  · intro i a hi ha
    obtain ⟨k, rfl⟩ := Nat.exists_eq_add_of_le hi
    rw [append_actor] at ha
    rw [append_state]
    simp only [turns] at ha ⊢
    split at ha
    · rename_i h
      cases ha
      exact h
    · cases ha

end Turns

end Run

end CounterDrone

import Mathlib

/-!
# Counting the members of a family

`tally p f` is the number of members of a finite family `f` that satisfy the test `p`. Replacing one member changes it
by at most one (`tally_update`), and a weaker test counts at least as many (`tally_mono`).
-/

namespace CounterDrone

variable {ι : Type*} [Fintype ι] {α : Type*} {p q : α → Bool} {f : ι → α}

/-- The number of members that satisfy a test. -/
def tally (p : α → Bool) (f : ι → α) : Nat := (Finset.univ.filter fun i => p (f i) = true).card

/-- A weaker test counts at least as many. -/
theorem tally_mono (h : ∀ a, p a = true → q a = true) : tally p f ≤ tally q f := by
  apply Finset.card_le_card
  intro i hi
  simp only [Finset.mem_filter, Finset.mem_univ, true_and] at hi ⊢
  exact h _ hi

/-- Members that count alike. -/
theorem tally_congr {g : ι → α} (h : ∀ i, p (f i) = p (g i)) : tally p f = tally p g := by
  unfold tally
  simp only [h]

variable [DecidableEq ι]

/-- One member replaced: the old one no longer counts, the new one does. -/
theorem tally_update (p : α → Bool) (f : ι → α) (i : ι) (a : α) :
    tally p (Function.update f i a) + (p (f i)).toNat = tally p f + (p a).toNat := by
  have hsplit : ∀ g : ι → α, tally p g = (p (g i)).toNat + ∑ j ∈ Finset.univ.erase i, (p (g j)).toNat := by
    intro g
    have hsum : tally p g = ∑ j, (p (g j)).toNat := by
      rw [tally, Finset.card_filter]
      apply Finset.sum_congr rfl
      intro j _
      cases p (g j) <;> rfl
    rw [hsum, Finset.add_sum_erase _ (fun j => (p (g j)).toNat) (Finset.mem_univ i)]
  have hrest : ∑ j ∈ Finset.univ.erase i, (p (Function.update f i a j)).toNat =
      ∑ j ∈ Finset.univ.erase i, (p (f j)).toNat := by
    apply Finset.sum_congr rfl
    intro j hj
    rw [Function.update_of_ne (Finset.ne_of_mem_erase hj)]
  rw [hsplit (Function.update f i a), hsplit f, hrest, Function.update_self]
  omega

end CounterDrone

import Mathlib

/-!
# Machines that keep one state for each key

An input for a key reads and writes the state of that key only. Running a sequence of inputs for many keys then does
to each key what its own inputs alone do (`runKeyed_at`), so that keys cannot influence one another.
-/

namespace CounterDrone

variable {κ σ ι ω : Type*}

/-- The step of one key's state: `none` when the key has no state. -/
abbrev KeyStep (κ σ ι ω : Type*) := κ → Option σ → ι → Option σ × List ω

/-- The inputs of one key. -/
def runKey (step : Option σ → ι → Option σ × List ω) : Option σ → List ι → Option σ × List ω
  | s, [] => (s, [])
  | s, i :: is =>
    let r := step s i
    let t := runKey step r.1 is
    (t.1, r.2 ++ t.2)

theorem runKey_append (step : Option σ → ι → Option σ × List ω) (is js : List ι) : ∀ s,
    runKey step s (is ++ js) =
      ((runKey step (runKey step s is).1 js).1, (runKey step s is).2 ++ (runKey step (runKey step s is).1 js).2) := by
  induction is with
  | nil => exact fun _ => rfl
  | cons i is ih =>
    intro s
    simp only [List.cons_append, runKey, ih, List.append_assoc]

variable [DecidableEq κ]

/-- The values that carry a key. -/
def valuesAt (k : κ) (xs : List (κ × ω)) : List ω := (xs.filter fun x => x.1 = k).map Prod.snd

theorem valuesAt_cons_self (k : κ) (x : ω) (xs : List (κ × ω)) : valuesAt k ((k, x) :: xs) = x :: valuesAt k xs := by
  simp [valuesAt]

theorem valuesAt_cons_ne {k j : κ} (h : j ≠ k) (x : ω) (xs : List (κ × ω)) :
    valuesAt k ((j, x) :: xs) = valuesAt k xs := by
  simp [valuesAt, h]

theorem valuesAt_append (k : κ) (xs ys : List (κ × ω)) : valuesAt k (xs ++ ys) = valuesAt k xs ++ valuesAt k ys := by
  simp [valuesAt]

theorem valuesAt_tag_self (k : κ) : ∀ os : List ω, valuesAt k (os.map (Prod.mk k)) = os
  | [] => rfl
  | o :: os => by rw [List.map_cons, valuesAt_cons_self, valuesAt_tag_self k os]

theorem valuesAt_tag_ne {k j : κ} (h : j ≠ k) : ∀ os : List ω, valuesAt k (os.map (Prod.mk j)) = []
  | [] => rfl
  | o :: os => by rw [List.map_cons, valuesAt_cons_ne h, valuesAt_tag_ne h os]

/-- A sequence of inputs, each for its key: the states at the end, and the outputs with their keys. -/
def runKeyed (step : KeyStep κ σ ι ω) : (κ → Option σ) → List (κ × ι) → (κ → Option σ) × List (κ × ω)
  | m, [] => (m, [])
  | m, (k, i) :: xs =>
    let r := step k (m k) i
    let t := runKeyed step (Function.update m k r.1) xs
    (t.1, r.2.map (Prod.mk k) ++ t.2)

/-- **Each key runs as if alone**: its state and its outputs are those of its own inputs. -/
theorem runKeyed_at (step : KeyStep κ σ ι ω) (k : κ) : ∀ (xs : List (κ × ι)) (m : κ → Option σ),
    ((runKeyed step m xs).1 k, valuesAt k (runKeyed step m xs).2) = runKey (step k) (m k) (valuesAt k xs)
  | [], _ => rfl
  | (j, i) :: xs, m => by
    have ih := runKeyed_at step k xs (Function.update m j (step j (m j) i).1)
    simp only [Prod.ext_iff] at ih ⊢
    rw [runKeyed, valuesAt_append]
    by_cases h : j = k
    · subst h
      rw [valuesAt_cons_self, runKey, valuesAt_tag_self, ih.1, ih.2, Function.update_self]
      exact ⟨rfl, rfl⟩
    · rw [valuesAt_cons_ne h, valuesAt_tag_ne h, ih.1, ih.2, Function.update_of_ne (Ne.symm h)]
      exact ⟨rfl, rfl⟩

end CounterDrone

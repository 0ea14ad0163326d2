import Mathlib

/-!
# Reachable states

A transition system is its initial states and its steps. What holds initially and is kept by every step from a
reachable state holds of every reachable state (`Reachable.invariant`). A system with fewer initial states or steps
reaches no new states (`Reachable.mono`), among them a system whose steps are restricted (`System.guarded`). A system is
a refinement of another one if each of its steps is made by steps of the other, or none (`Reachable.simulates`).
-/

namespace CounterDrone

variable {σ : Type*}

/-- Initial states and steps. -/
structure System (σ : Type*) where
  init : σ → Prop
  step : σ → σ → Prop

namespace System

/-- The states of runs. -/
inductive Reachable (S : System σ) : σ → Prop
  | init {s : σ} (h : S.init s) : Reachable S s
  | step {s t : σ} (hs : Reachable S s) (h : S.step s t) : Reachable S t

variable {S : System σ}

/-- **The invariant rule.** -/
theorem Reachable.invariant {I : σ → Prop} (hinit : ∀ s, S.init s → I s)
    (hstep : ∀ s t, S.Reachable s → I s → S.step s t → I t) {s : σ} (hs : S.Reachable s) : I s := by
  induction hs with
  | init h => exact hinit _ h
  | step hs h ih => exact hstep _ _ hs ih h

/-- Runs go on from reachable states. -/
theorem Reachable.runs {s t : σ} (hs : S.Reachable s) (h : Relation.ReflTransGen S.step s t) : S.Reachable t := by
  induction h with
  | refl => exact hs
  | tail _ hlast hreach => exact hreach.step hlast

/-- The steps that meet a condition. -/
def guarded (S : System σ) (G : σ → σ → Prop) : System σ := { S with step := fun s t => S.step s t ∧ G s t }

/-- A system with fewer initial states and fewer steps reaches fewer states. -/
theorem Reachable.mono {T : System σ} (hinit : ∀ s, S.init s → T.init s) (hstep : ∀ s t, S.step s t → T.step s t) {s : σ}
    (hs : S.Reachable s) : T.Reachable s := by
  induction hs with
  | init h => exact .init (hinit _ h)
  | step _ h ih => exact .step ih (hstep _ _ h)

theorem Reachable.of_guarded {G : σ → σ → Prop} {s : σ} (hs : (S.guarded G).Reachable s) : S.Reachable s :=
  Reachable.mono (S := S.guarded G) (T := S) (fun _ h => h) (fun _ _ h => h.1) hs

/-- **The refinement rule**: where every step from a reachable state is a run of the other system, between the states that
stand for its ends, every reachable state stands for a reachable one. -/
theorem Reachable.simulates {τ : Type*} {T : System τ} {abs : σ → τ} (hinit : ∀ s, S.init s → T.Reachable (abs s))
    (hstep : ∀ s t, S.Reachable s → T.Reachable (abs s) → S.step s t → Relation.ReflTransGen T.step (abs s) (abs t)) {s : σ}
    (hs : S.Reachable s) : T.Reachable (abs s) := by
  induction hs with
  | init h => exact hinit _ h
  | step hs h ih => exact ih.runs (hstep _ _ hs ih h)

end System

end CounterDrone

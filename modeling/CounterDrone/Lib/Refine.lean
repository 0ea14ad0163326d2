import Mathlib

/-!
# Objects called in sequence

An object is a function from its state and a call to its next state and its reply. Two objects that answer alike and
stay related, call by call, answer alike over every sequence of calls (`runCalls_refines`).
-/

namespace CounterDrone

variable {σ τ κ ρ : Type*}

/-- The state after a sequence of calls, and their replies in order. -/
def runCalls (call : σ → κ → σ × ρ) : σ → List κ → σ × List ρ
  | s, [] => (s, [])
  | s, c :: cs => ((runCalls call (call s c).1 cs).1, (call s c).2 :: (runCalls call (call s c).1 cs).2)

@[simp] theorem runCalls_nil (call : σ → κ → σ × ρ) (s : σ) : runCalls call s [] = (s, []) := rfl

@[simp] theorem runCalls_cons (call : σ → κ → σ × ρ) (s : σ) (c : κ) (cs : List κ) :
    runCalls call s (c :: cs) =
      ((runCalls call (call s c).1 cs).1, (call s c).2 :: (runCalls call (call s c).1 cs).2) := rfl

/-- **The refinement rule**: a relation that every call keeps, with equal replies, carries over to runs. -/
theorem runCalls_refines {f : σ → κ → σ × ρ} {g : τ → κ → τ × ρ} {R : σ → τ → Prop}
    (hstep : ∀ s t c, R s t → (f s c).2 = (g t c).2 ∧ R (f s c).1 (g t c).1) {s : σ} {t : τ} (hR : R s t)
    (cs : List κ) : (runCalls f s cs).2 = (runCalls g t cs).2 ∧ R (runCalls f s cs).1 (runCalls g t cs).1 := by
  induction cs generalizing s t with
  | nil => exact ⟨rfl, hR⟩
  | cons c cs ih =>
    obtain ⟨hreply, hR'⟩ := hstep s t c hR
    obtain ⟨hreplies, hfinal⟩ := ih hR'
    refine ⟨?_, hfinal⟩
    rw [runCalls_cons, runCalls_cons, hreply, hreplies]

end CounterDrone

import Mathlib

/-!
# The thread-safe queue

`ThreadSafeQueue` of `threadSafeQueue.h` with each call taken as one atomic step: what a call does once it holds the
mutex and its wait is over. A call that would go on waiting makes no step (`none`).
-/

namespace CounterDrone

/-- A queue, oldest item first, and its capacity, zero for none. -/
structure ThreadSafeQueue (α : Type) where
  items : List α := []
  maxSize : Nat := 0

namespace ThreadSafeQueue

variable {α : Type}

/-- `push`: the queue after it and what it returns. -/
def push (q : ThreadSafeQueue α) (item : α) (stopRequested : Bool) : Option (ThreadSafeQueue α × Bool) :=
  if q.maxSize > 0 ∧ ¬q.items.length < q.maxSize then
    if stopRequested then some (q, false) else none
  else if stopRequested then some (q, false)
  else some ({ q with items := q.items ++ [item] }, true)

/-- The queue after a `push` without a stop token. -/
def pushed (q : ThreadSafeQueue α) (item : α) : ThreadSafeQueue α :=
  match q.push item false with
  | some (q', _) => q'
  | none => q

/-- `pop`: the queue after it and what it returns. An item that is there is returned to a stopped caller too. -/
def pop (q : ThreadSafeQueue α) (stopRequested : Bool) : Option (ThreadSafeQueue α × Option α) :=
  match q.items with
  | [] => if stopRequested then some (q, none) else none
  | item :: items => some ({ q with items := items }, some item)

/-- A push into an unbounded queue always goes through. -/
theorem pushed_unbounded {q : ThreadSafeQueue α} (h : q.maxSize = 0) (item : α) :
    q.pushed item = { q with items := q.items ++ [item] } := by
  simp [pushed, push, h]

/-- Several pushes into an unbounded queue. -/
theorem foldl_pushed_unbounded {q : ThreadSafeQueue α} (h : q.maxSize = 0) (items : List α) :
    items.foldl pushed q = { q with items := q.items ++ items } := by
  induction items generalizing q with
  | nil => simp
  | cons item items ih =>
    rw [List.foldl_cons, pushed_unbounded h, @ih { q with items := q.items ++ [item] } h]
    simp

/-- What `pop` returns is the oldest item, and nothing only to a stopped caller when there is none. -/
theorem pop_cases {q q' : ThreadSafeQueue α} {stopRequested : Bool} {r : Option α}
    (h : q.pop stopRequested = some (q', r)) :
    (∃ item, r = some item ∧ q.items = item :: q'.items ∧ q'.maxSize = q.maxSize) ∨
      (r = none ∧ q' = q ∧ q.items = [] ∧ stopRequested = true) := by
  unfold pop at h
  split at h
  · rename_i hitems
    cases stopRequested with
    | false => cases h
    | true =>
      cases h
      exact Or.inr ⟨rfl, rfl, hitems, rfl⟩
  · rename_i item items hitems
    cases h
    exact Or.inl ⟨item, rfl, hitems, rfl⟩

end ThreadSafeQueue

end CounterDrone

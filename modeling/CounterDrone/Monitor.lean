import Mathlib
import CounterDrone.Lib.Reach
import CounterDrone.ThreadSafeQueue

/-!
# The queue as a monitor

`push` and `pop` of `threadSafeQueue.h` step by step: any number of threads take the mutex, block on the two condition
variables, are notified, woken by a stop request or for no reason, and check again. Each call has its own stop token,
and a stop may be requested between any two steps.

A step is what one thread does with the mutex: an iteration of the loop of `wait`, or what follows it. The loop tests the
stop token and blocks in one step: the stop callback of the wait takes the same inner lock, so a stop that is requested
in between wakes the thread after it has blocked.

A thread past its wait holds the mutex, and what it waited for is still there (`reachable_locked`).
-/

namespace CounterDrone

variable {ι α : Type}

/-! ## Threads -/

/-- The calls. -/
inductive QueueCall (α : Type)
  | push (item : α)
  | pop

/-- Where a thread is in a call. -/
inductive Point
  /-- it has not had the mutex yet -/
  | entering
  /-- in the wait, blocked and not notified -/
  | blocked
  /-- in the wait, runnable again, before it checks -/
  | woken
  /-- past the wait, with the mutex -/
  | passed
  deriving DecidableEq

/-- A thread: its call, the number of the call, and whether a stop has been requested on its token. -/
inductive Thread (α : Type)
  | idle
  | active (call : QueueCall α) (id : Nat) (stop : Bool) (point : Point)

/-- The condition variables `m_not_full` and `m_not_empty`. -/
inductive Condition
  | notFull
  | notEmpty
  deriving DecidableEq

/-- The condition variable that a call waits on. -/
def QueueCall.waitsOn : QueueCall α → Condition
  | push _ => .notFull
  | pop => .notEmpty

/-- Blocked on a condition variable and not notified. -/
def Thread.blockedOn (c : Condition) : Thread α → Bool
  | active call _ _ .blocked => call.waitsOn = c
  | _ => false

/-- A waiter becomes runnable. -/
def Thread.wake : Thread α → Thread α
  | active call id stop .blocked => active call id stop .woken
  | t => t

/-- `notify_all`, and what a stop request does to the waiters of a condition variable. -/
def wakeAll (c : Condition) (threads : ι → Thread α) (i : ι) : Thread α :=
  if (threads i).blockedOn c then (threads i).wake else threads i

/-- `notify_one`: one of the blocked waiters becomes runnable, when there is one. -/
inductive NotifyOne [DecidableEq ι] (c : Condition) (threads : ι → Thread α) : (ι → Thread α) → Prop
  | one (i : ι) (h : (threads i).blockedOn c) : NotifyOne c threads (Function.update threads i (threads i).wake)
  | none (h : ∀ i, ¬(threads i).blockedOn c) : NotifyOne c threads threads

/-- An iteration of the loop of `wait(lock, st, pred)`: what it returns, or `none` when it blocks. -/
def waitOnce (stop pred : Bool) : Option Bool := if stop then some pred else if pred then some true else none

/-- The wait of a call, one iteration. A push into an unbounded queue does not wait. -/
def QueueCall.wait (q : ThreadSafeQueue α) (stop : Bool) : QueueCall α → Option Bool
  | push _ => if q.maxSize > 0 then waitOnce stop (q.items.length < q.maxSize) else some true
  | pop => waitOnce stop (!q.items.isEmpty)

/-! ## Returns -/

/-- What a call returns. -/
inductive QueueReply (α : Type)
  | pushed (item : α) (ok : Bool)
  | popped (result : Option α)

/-- What a call returns when its wait was stopped. -/
def QueueCall.refused : QueueCall α → QueueReply α
  | push item => .pushed item false
  | pop => .popped none

/-- The return of a call: whose it is, its number, whether a stop had been requested on its token, the queue before it. -/
structure Event (ι α : Type) where
  thread : ι
  id : Nat
  stop : Bool
  before : List α
  outcome : QueueReply α

/-! ## The monitor -/

/-- The queue, the thread with the mutex, the threads; the calls begun, and those that have returned, in order. -/
structure Monitor (ι α : Type) where
  queue : ThreadSafeQueue α
  mutex : Option ι
  threads : ι → Thread α
  calls : Nat
  trace : List (Event ι α)

namespace Monitor

variable [DecidableEq ι]

def setThread (m : Monitor ι α) (i : ι) (t : Thread α) : Monitor ι α := { m with threads := Function.update m.threads i t }

/-- The call of a thread returns and gives up the mutex. -/
def returns (m : Monitor ι α) (i : ι) (id : Nat) (stop : Bool) (outcome : QueueReply α) : Monitor ι α :=
  { m with
    mutex := none
    threads := Function.update m.threads i .idle
    trace := m.trace ++ [⟨i, id, stop, m.queue.items, outcome⟩] }

/-- A call begins, with a token that may be stopped already. -/
def begins (m : Monitor ι α) (i : ι) (call : QueueCall α) (stop : Bool) : Monitor ι α :=
  { m.setThread i (.active call m.calls stop .entering) with calls := m.calls + 1 }

/-- A thread takes the mutex and makes an iteration of the loop of its wait. -/
def check (m : Monitor ι α) (i : ι) (call : QueueCall α) (id : Nat) (stop : Bool) : Monitor ι α :=
  match call.wait m.queue stop with
  | some true => { m.setThread i (.active call id stop .passed) with mutex := some i }
  | some false => m.returns i id stop call.refused
  | none => m.setThread i (.active call id stop .blocked)

/-- A stop is requested on the token of a call. In the wait, this wakes all waiters of its condition variable. -/
def requestStop (m : Monitor ι α) (i : ι) (call : QueueCall α) (id : Nat) (point : Point) : Monitor ι α :=
  let m := m.setThread i (.active call id true point)
  if point = .blocked ∨ point = .woken then { m with threads := wakeAll call.waitsOn m.threads } else m

/-- `push` stores its item and notifies. -/
def stores (m : Monitor ι α) (i : ι) (item : α) (id : Nat) (threads : ι → Thread α) : Monitor ι α :=
  { m.returns i id false (.pushed item true) with
    queue := { m.queue with items := m.queue.items ++ [item] }
    threads := threads }

/-- `pop` takes the first item and notifies. -/
def takes (m : Monitor ι α) (i : ι) (item : α) (rest : List α) (id : Nat) (stop : Bool) (threads : ι → Thread α) :
    Monitor ι α :=
  { m.returns i id stop (.popped (some item)) with
    queue := { m.queue with items := rest }
    threads := threads }

end Monitor

/-- One step of a thread, or a stop request. -/
inductive MonitorStep [DecidableEq ι] : Monitor ι α → Monitor ι α → Prop
  | begins {m : Monitor ι α} {i : ι} (h : m.threads i = .idle) (call : QueueCall α) (stop : Bool) :
      MonitorStep m (m.begins i call stop)
  | requestStop {m : Monitor ι α} {i : ι} {call : QueueCall α} {id : Nat} {point : Point}
      (h : m.threads i = .active call id false point) : MonitorStep m (m.requestStop i call id point)
  /-- a waiter wakes up for no reason -/
  | spurious {m : Monitor ι α} {i : ι} {call : QueueCall α} {id : Nat} {stop : Bool}
      (h : m.threads i = .active call id stop .blocked) : MonitorStep m (m.setThread i (.active call id stop .woken))
  | check {m : Monitor ι α} {i : ι} {call : QueueCall α} {id : Nat} {stop : Bool} {point : Point}
      (h : m.threads i = .active call id stop point) (hp : point = .entering ∨ point = .woken) (hfree : m.mutex = none) :
      MonitorStep m (m.check i call id stop)
  /-- the second test of `push`: a stop has been requested -/
  | refuses {m : Monitor ι α} {i : ι} {item : α} {id : Nat} (h : m.threads i = .active (.push item) id true .passed) :
      MonitorStep m (m.returns i id true (.pushed item false))
  | stores {m : Monitor ι α} {i : ι} {item : α} {id : Nat} {threads : ι → Thread α}
      (h : m.threads i = .active (.push item) id false .passed)
      (hn : NotifyOne .notEmpty (Function.update m.threads i .idle) threads) : MonitorStep m (m.stores i item id threads)
  | takes {m : Monitor ι α} {i : ι} {item : α} {rest : List α} {id : Nat} {stop : Bool} {threads : ι → Thread α}
      (h : m.threads i = .active .pop id stop .passed) (hq : m.queue.items = item :: rest)
      (hn : NotifyOne .notFull (Function.update m.threads i .idle) threads) :
      MonitorStep m (m.takes i item rest id stop threads)

/-- An empty queue that no thread is using. -/
structure Monitor.Initial (maxSize : Nat) (m : Monitor ι α) : Prop where
  queue : m.queue = ⟨[], maxSize⟩
  mutex : m.mutex = none
  threads : ∀ i, m.threads i = .idle
  calls : m.calls = 0
  trace : m.trace = []

/-- Such a state. -/
def Monitor.start (ι α : Type) (maxSize : Nat) : Monitor ι α := ⟨⟨[], maxSize⟩, none, fun _ => .idle, 0, []⟩

theorem Monitor.start_initial (maxSize : Nat) : (Monitor.start ι α maxSize).Initial maxSize :=
  ⟨rfl, rfl, fun _ => rfl, rfl, rfl⟩

/-- The runs of a queue of the given capacity. -/
def monitorSystem (ι α : Type) [DecidableEq ι] (maxSize : Nat) : System (Monitor ι α) where
  init := Monitor.Initial maxSize
  step := MonitorStep

/-! ## What a wait decides -/

/-- What a call waits for. -/
def QueueCall.Ready (q : ThreadSafeQueue α) : QueueCall α → Prop
  | push _ => q.maxSize = 0 ∨ q.items.length < q.maxSize
  | pop => q.items ≠ []

theorem waitOnce_spec (stop pred : Bool) :
    (waitOnce stop pred = some true ∧ pred = true) ∨ (waitOnce stop pred = some false ∧ stop = true ∧ pred = false) ∨
      (waitOnce stop pred = none ∧ stop = false ∧ pred = false) := by
  cases stop <;> cases pred <;> simp [waitOnce]

/-- **An iteration of a wait** goes on when the call is ready, gives up when it is not and a stop has been requested, and
blocks otherwise. -/
theorem QueueCall.wait_spec (call : QueueCall α) (q : ThreadSafeQueue α) (stop : Bool) :
    (call.wait q stop = some true ∧ call.Ready q) ∨ (call.wait q stop = some false ∧ stop = true ∧ ¬call.Ready q) ∨
      (call.wait q stop = none ∧ stop = false ∧ ¬call.Ready q) := by
  cases call with
  | push item =>
    by_cases hmax : q.maxSize > 0
    · have hzero : q.maxSize ≠ 0 := by omega
      simpa [wait, Ready, hmax, hzero] using waitOnce_spec stop (q.items.length < q.maxSize)
    · simp [wait, Ready, hmax]
      omega
  | pop => simpa [wait, Ready] using waitOnce_spec stop (!q.items.isEmpty)

/-! ## The mutex -/

/-- A thread past its wait holds the mutex, and what it waited for is still there. -/
def Locked (m : Monitor ι α) : Prop :=
  ∀ i call id stop, m.threads i = .active call id stop .passed → m.mutex = some i ∧ call.Ready m.queue

/-- Two families of threads have the same threads past their wait. -/
def SamePassed (f g : ι → Thread α) : Prop :=
  ∀ i call id stop, g i = .active call id stop .passed → f i = .active call id stop .passed

theorem wake_passed {t : Thread α} {call : QueueCall α} {id : Nat} {stop : Bool}
    (h : t.wake = .active call id stop .passed) : t = .active call id stop .passed := by
  rcases t with _ | ⟨call', id', stop', point⟩
  · cases h
  · cases point with
    | blocked => cases h
    | entering => exact h
    | woken => exact h
    | passed => exact h

theorem samePassed_wakeAll (c : Condition) (f : ι → Thread α) : SamePassed f (wakeAll c f) := by
  intro i call id stop h
  unfold wakeAll at h
  split at h
  · exact wake_passed h
  · exact h

section Mutex

variable {m m' : Monitor ι α} {i : ι}

/-- When the mutex is free, or held by the thread that moves, no other thread is past its wait. -/
theorem Locked.alone (h : Locked m) (hm : m.mutex = none ∨ m.mutex = some i) {j : ι} (hj : j ≠ i) {call : QueueCall α}
    {id : Nat} {stop : Bool} : m.threads j ≠ .active call id stop .passed := by
  intro hp
  obtain ⟨hown, -⟩ := h j call id stop hp
  rcases hm with hm | hm
  · rw [hm] at hown
    cases hown
  · rw [hm] at hown
    exact hj (Option.some.inj hown).symm

theorem Locked.samePassed (h : Locked m) {f : ι → Thread α} (hf : SamePassed m.threads f) :
    Locked { m with threads := f } := fun i call id stop hi => h i call id stop (hf i call id stop hi)

variable [DecidableEq ι]

theorem NotifyOne.samePassed {c : Condition} {f g : ι → Thread α} (h : NotifyOne c f g) : SamePassed f g := by
  cases h with
  | one j hj =>
    intro i call id stop hi
    by_cases hij : i = j
    · subst hij
      rw [Function.update_self] at hi
      exact wake_passed hi
    · rwa [Function.update_of_ne hij] at hi
  | none => exact fun _ _ _ _ h => h

/-- After a return no thread is past its wait. -/
theorem Locked.none_passed (h : Locked m) (hm : m.mutex = none ∨ m.mutex = some i) {f : ι → Thread α}
    (hf : SamePassed (Function.update m.threads i .idle) f) (j : ι) (call : QueueCall α) (id : Nat) (stop : Bool) :
    f j ≠ .active call id stop .passed := by
  intro hp
  have hj := hf j call id stop hp
  by_cases hij : j = i
  · subst hij
    rw [Function.update_self] at hj
    cases hj
  · rw [Function.update_of_ne hij] at hj
    exact h.alone hm hij hj

/-- A thread that stays where it is with regard to its wait. -/
theorem Locked.setThread (h : Locked m) {t : Thread α}
    (ht : ∀ call id stop, t = .active call id stop .passed → m.mutex = some i ∧ call.Ready m.queue) :
    Locked (m.setThread i t) := by
  intro j call id stop hj
  by_cases hij : j = i
  · subst hij
    simp only [Monitor.setThread, Function.update_self] at hj
    exact ht call id stop hj
  · simp only [Monitor.setThread, Function.update_of_ne hij] at hj
    exact h j call id stop hj

/-- **Every step keeps the mutex.** -/
theorem Locked.step (h : Locked m) (hs : MonitorStep m m') : Locked m' := by
  cases hs with
  | begins hi call stop => exact h.setThread (i := _) nofun
  | @requestStop i call id point hi =>
    have hset : Locked (m.setThread i (.active call id true point)) := by
      apply h.setThread
      intro call' id' stop' he
      cases he
      exact h i call id false hi
    unfold Monitor.requestStop
    simp only
    split
    · exact hset.samePassed (samePassed_wakeAll _ _)
    · exact hset
  | spurious hi => exact h.setThread nofun
  | @check i call id stop point hi hp hfree =>
    unfold Monitor.check
    rcases call.wait_spec m.queue stop with ⟨hw, hr⟩ | ⟨hw, -, -⟩ | ⟨hw, -, -⟩
    · rw [hw]
      intro j call' id' stop' hj
      by_cases hij : j = i
      · subst hij
        simp only [Monitor.setThread, Function.update_self] at hj
        cases hj
        exact ⟨rfl, hr⟩
      · simp only [Monitor.setThread, Function.update_of_ne hij] at hj
        exact absurd hj (h.alone (Or.inl hfree) hij)
    · rw [hw]
      intro j call' id' stop' hj
      exact absurd hj (h.none_passed (i := i) (Or.inl hfree) (fun _ _ _ _ h => h) j call' id' stop')
    · rw [hw]
      exact h.setThread nofun
  | @refuses i item id hi =>
    intro j call' id' stop' hj
    exact absurd hj (h.none_passed (Or.inr (h i _ _ _ hi).1) (fun _ _ _ _ h => h) j call' id' stop')
  | @stores i item id threads hi hn =>
    intro j call' id' stop' hj
    exact absurd hj (h.none_passed (Or.inr (h i _ _ _ hi).1) hn.samePassed j call' id' stop')
  | @takes i item rest id stop threads hi hq hn =>
    intro j call' id' stop' hj
    exact absurd hj (h.none_passed (Or.inr (h i _ _ _ hi).1) hn.samePassed j call' id' stop')

end Mutex

/-- The mutex is respected throughout every run. -/
theorem reachable_locked [DecidableEq ι] {maxSize : Nat} {m : Monitor ι α}
    (hm : (monitorSystem ι α maxSize).Reachable m) : Locked m := by
  refine hm.invariant (I := Locked) ?_ fun _ _ _ h hs => h.step hs
  intro s hs i call id stop hi
  rw [hs.threads i] at hi
  cases hi

end CounterDrone

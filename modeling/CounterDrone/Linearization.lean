import Mathlib
import CounterDrone.Monitor

/-!
# Calls on the queue are atomic

The calls of the monitor, in the order in which they return, are atomic calls on `ThreadSafeQueue`: each return is what
`ThreadSafeQueue.push` or `ThreadSafeQueue.pop` gives on the queue as it is then (`Event.Atomic`), and each changes the
queue as that call does (`reachable_linear`). What holds of runs of atomic calls therefore holds of the monitor: it is a
bounded FIFO (`queue_bounded_fifo`).
-/

namespace CounterDrone

variable {ι α : Type}

/-! ## Calls return once, as atomic calls -/

/-- What a return would be as one atomic call: the queue after it. -/
def Event.Atomic (maxSize : Nat) (e : Event ι α) (after : List α) : Prop :=
  match e.outcome with
  | .pushed item ok => (ThreadSafeQueue.mk e.before maxSize).push item e.stop = some (⟨after, maxSize⟩, ok)
  | .popped result => (ThreadSafeQueue.mk e.before maxSize).pop e.stop = some (⟨after, maxSize⟩, result)

/-- The number of the call of a thread. -/
def Thread.id? : Thread α → Option Nat
  | idle => none
  | active _ id _ _ => some id

/-- The numbers of the calls that threads are in. -/
def Monitor.ids (m : Monitor ι α) (i : ι) : Option Nat := (m.threads i).id?

theorem id?_wake (t : Thread α) : t.wake.id? = t.id? := by
  rcases t with _ | ⟨call, id, stop, point⟩
  · rfl
  · cases point <;> rfl

theorem id?_wakeAll (c : Condition) (f : ι → Thread α) (i : ι) : (wakeAll c f i).id? = (f i).id? := by
  unfold wakeAll
  split
  · exact id?_wake _
  · rfl

/-- A stopped call whose wait gives up is a stopped call on a queue that is not ready for it. -/
theorem refused_atomic (call : QueueCall α) (q : ThreadSafeQueue α) (hr : ¬call.Ready q) (i : ι) (id : Nat) :
    (Event.mk i id true q.items call.refused).Atomic q.maxSize q.items := by
  cases call with
  | push item =>
    simp only [QueueCall.Ready, not_or] at hr
    simp only [Event.Atomic, QueueCall.refused, ThreadSafeQueue.push]
    rw [if_pos ⟨by omega, hr.2⟩]
    rfl
  | pop =>
    simp only [QueueCall.Ready, not_not] at hr
    simp [Event.Atomic, QueueCall.refused, ThreadSafeQueue.pop, hr]

/-- The second test of `push`. -/
theorem refuses_atomic (item : α) (q : ThreadSafeQueue α) (i : ι) (id : Nat) :
    (Event.mk i id true q.items (.pushed item false)).Atomic q.maxSize q.items := by
  simp [Event.Atomic, ThreadSafeQueue.push]

theorem stores_atomic {item : α} {q : ThreadSafeQueue α} (hr : (QueueCall.push item).Ready q) (i : ι) (id : Nat) :
    (Event.mk i id false q.items (.pushed item true)).Atomic q.maxSize (q.items ++ [item]) := by
  have hroom : ¬(q.maxSize > 0 ∧ ¬q.items.length < q.maxSize) := by
    simp only [QueueCall.Ready] at hr
    omega
  simp only [Event.Atomic, ThreadSafeQueue.push]
  rw [if_neg hroom]
  simp

theorem takes_atomic {item : α} {rest : List α} {q : ThreadSafeQueue α} (hq : q.items = item :: rest) (i : ι) (id : Nat)
    (stop : Bool) : (Event.mk i id stop q.items (.popped (some item))).Atomic q.maxSize rest := by
  simp [Event.Atomic, ThreadSafeQueue.pop, hq]

section Effects

variable [DecidableEq ι] {m m' : Monitor ι α}

/-- What a step does to the queue, the calls and the trace. -/
inductive QueueEffect (m m' : Monitor ι α) : Prop
  | quiet (hqueue : m'.queue = m.queue) (htrace : m'.trace = m.trace) (hcalls : m'.calls = m.calls) (hids : m'.ids = m.ids)
  | begins (i : ι) (hidle : m.ids i = none) (hqueue : m'.queue = m.queue) (htrace : m'.trace = m.trace)
      (hcalls : m'.calls = m.calls + 1) (hids : m'.ids = Function.update m.ids i (some m.calls))
  | returns (e : Event ι α) (hid : m.ids e.thread = some e.id) (hbefore : e.before = m.queue.items)
      (hatomic : e.Atomic m.queue.maxSize m'.queue.items) (hmax : m'.queue.maxSize = m.queue.maxSize)
      (htrace : m'.trace = m.trace ++ [e]) (hcalls : m'.calls = m.calls)
      (hids : m'.ids = Function.update m.ids e.thread none)

theorem ids_update (f : ι → Thread α) (i : ι) (t : Thread α) :
    (fun j => (Function.update f i t j).id?) = Function.update (fun j => (f j).id?) i t.id? := by
  funext j
  by_cases hij : j = i
  · subst hij
    simp
  · simp [hij]

/-- Numbers do not change while a call goes on. -/
theorem ids_setThread {i : ι} {t : Thread α} (h : t.id? = (m.threads i).id?) : (m.setThread i t).ids = m.ids := by
  refine (ids_update m.threads i t).trans ?_
  rw [h]
  exact Function.update_eq_self i _

theorem NotifyOne.ids {c : Condition} {f g : ι → Thread α} (h : NotifyOne c f g) :
    (fun j => (g j).id?) = fun j => (f j).id? := by
  cases h with
  | one i hi =>
    rw [ids_update, id?_wake]
    exact Function.update_eq_self i _
  | none => rfl

theorem ids_returns {c : Condition} {i : ι} {threads : ι → Thread α}
    (hn : NotifyOne c (Function.update m.threads i .idle) threads) :
    (fun j => (threads j).id?) = Function.update m.ids i none :=
  hn.ids.trans (ids_update m.threads i .idle)

/-- **Every step is quiet, begins a call, or returns from one as an atomic call does.** -/
theorem MonitorStep.effect (hs : MonitorStep m m') (hl : Locked m) : QueueEffect m m' := by
  cases hs with
  | @begins i hi call stop =>
    refine .begins i (by rw [Monitor.ids, hi]; rfl) rfl rfl rfl ?_
    exact ids_update m.threads i _
  | @requestStop i call id point hi =>
    have hids : (m.setThread i (.active call id true point)).ids = m.ids := ids_setThread (by rw [hi]; rfl)
    unfold Monitor.requestStop
    simp only
    split
    · refine .quiet rfl rfl rfl ?_
      rw [← hids]
      funext j
      exact id?_wakeAll _ _ j
    · exact .quiet rfl rfl rfl hids
  | @spurious i call id stop hi => exact .quiet rfl rfl rfl (ids_setThread (by rw [hi]; rfl))
  | @check i call id stop point hi hp hfree =>
    unfold Monitor.check
    rcases call.wait_spec m.queue stop with ⟨hw, -⟩ | ⟨hw, rfl, hr⟩ | ⟨hw, -, -⟩
    · rw [hw]
      exact .quiet rfl rfl rfl (ids_setThread (by rw [hi]; rfl))
    · rw [hw]
      refine .returns ⟨i, id, true, m.queue.items, call.refused⟩ (by rw [Monitor.ids, hi]; rfl) rfl
        (refused_atomic call m.queue hr i id) rfl rfl rfl ?_
      exact ids_update m.threads i .idle
    · rw [hw]
      exact .quiet rfl rfl rfl (ids_setThread (by rw [hi]; rfl))
  | @refuses i item id hi =>
    refine .returns ⟨i, id, true, m.queue.items, .pushed item false⟩ (by rw [Monitor.ids, hi]; rfl) rfl
      (refuses_atomic item m.queue i id) rfl rfl rfl ?_
    exact ids_update m.threads i .idle
  | @stores i item id threads hi hn =>
    exact .returns ⟨i, id, false, m.queue.items, .pushed item true⟩ (by rw [Monitor.ids, hi]; rfl) rfl
      (stores_atomic (hl i _ _ _ hi).2 i id) rfl rfl rfl (ids_returns hn)
  | @takes i item rest id stop threads hi hq hn =>
    exact .returns ⟨i, id, stop, m.queue.items, .popped (some item)⟩ (by rw [Monitor.ids, hi]; rfl) rfl
      (takes_atomic hq i id stop) rfl rfl rfl (ids_returns hn)

end Effects

/-! ## Runs of atomic calls -/

/-- The returns are atomic calls, one after the other, from an empty queue to the given one. -/
inductive Linear (maxSize : Nat) : List (Event ι α) → List α → Prop
  | nil : Linear maxSize [] []
  | snoc {trace : List (Event ι α)} {e : Event ι α} {after : List α} (h : Linear maxSize trace e.before)
      (he : e.Atomic maxSize after) : Linear maxSize (trace ++ [e]) after

/-- The item of a push that has gone through, with the number of the call. -/
def Event.committed? (e : Event ι α) : Option (Nat × α) :=
  match e.outcome with
  | .pushed item true => some (e.id, item)
  | _ => none

/-- The item that a pop has returned. -/
def Event.popped? (e : Event ι α) : Option α :=
  match e.outcome with
  | .popped result => result
  | _ => none

/-- The pushes that have gone through, in order. -/
def committed (trace : List (Event ι α)) : List (Nat × α) := trace.filterMap Event.committed?

/-- The items that have been popped, in order. -/
def popped (trace : List (Event ι α)) : List α := trace.filterMap Event.popped?

/-- A committed push is a return of `true`. -/
theorem mem_committed {trace : List (Event ι α)} {id : Nat} (h : id ∈ (committed trace).map Prod.fst) :
    ∃ e ∈ trace, e.id = id ∧ ∃ item, e.outcome = .pushed item true := by
  obtain ⟨p, hp, rfl⟩ := List.mem_map.mp h
  obtain ⟨e, he, hc⟩ := List.mem_filterMap.mp hp
  unfold Event.committed? at hc
  split at hc
  · rename_i item ho
    cases hc
    exact ⟨e, he, rfl, item, ho⟩
  · cases hc

/-- What the return of an atomic call says. -/
structure Event.Sound (e : Event ι α) : Prop where
  /-- a push that returns `false` was stopped -/
  push_false : ∀ item, e.outcome = .pushed item false → e.stop = true
  /-- a pop returns the first item, also when it was stopped -/
  pop_head : ∀ result, e.outcome = .popped result → result = e.before.head?
  /-- a pop that returns nothing was stopped, on an empty queue -/
  pop_none : e.outcome = .popped none → e.stop = true ∧ e.before = []

/-- The ways an atomic call can go. -/
theorem Event.Atomic.cases {maxSize : Nat} {e : Event ι α} {after : List α} (h : e.Atomic maxSize after) :
    (∃ item, e.outcome = .pushed item true ∧ after = e.before ++ [item] ∧ (0 < maxSize → e.before.length < maxSize)) ∨
    (∃ item, e.outcome = .pushed item false ∧ after = e.before ∧ e.stop = true) ∨
    (∃ item, e.outcome = .popped (some item) ∧ e.before = item :: after) ∨
    (e.outcome = .popped none ∧ after = e.before ∧ e.before = [] ∧ e.stop = true) := by
  obtain ⟨thread, id, stop, before, outcome⟩ := e
  cases outcome with
  | pushed item ok =>
    simp only [Event.Atomic, ThreadSafeQueue.push] at h
    by_cases hfull : maxSize > 0 ∧ ¬before.length < maxSize
    · rw [if_pos hfull] at h
      cases stop with
      | false => cases h
      | true =>
        cases h
        exact Or.inr (Or.inl ⟨item, rfl, rfl, rfl⟩)
    · rw [if_neg hfull] at h
      cases stop with
      | false =>
        cases h
        refine Or.inl ⟨item, rfl, rfl, ?_⟩
        intro hpos
        simp only
        omega
      | true =>
        cases h
        exact Or.inr (Or.inl ⟨item, rfl, rfl, rfl⟩)
  | popped result =>
    simp only [Event.Atomic] at h
    rcases ThreadSafeQueue.pop_cases h with ⟨item, rfl, hitems, -⟩ | ⟨rfl, hq, hitems, hstop⟩
    · exact Or.inr (Or.inr (Or.inl ⟨item, rfl, hitems⟩))
    · cases hq
      exact Or.inr (Or.inr (Or.inr ⟨rfl, rfl, hitems, hstop⟩))

namespace Linear

variable {maxSize : Nat} {trace : List (Event ι α)} {items : List α}

/-- **First in, first out.** -/
theorem fifo (h : Linear maxSize trace items) : popped trace ++ items = (committed trace).map Prod.snd := by
  induction h with
  | nil => rfl
  | @snoc trace e after h he ih =>
    simp only [popped, committed, List.filterMap_append, List.map_append] at ih ⊢
    rcases he.cases with ⟨item, ho, ha, -⟩ | ⟨item, ho, ha, -⟩ | ⟨item, ho, hb⟩ | ⟨ho, ha, -, -⟩
    · simp [← ih, Event.popped?, Event.committed?, ho, ha]
    · simp [← ih, Event.popped?, Event.committed?, ho, ha]
    · simp [← ih, Event.popped?, Event.committed?, ho, hb]
    · simp [← ih, Event.popped?, Event.committed?, ho, ha]

/-- The capacity is kept. -/
theorem length_le (h : Linear maxSize trace items) (hpos : 0 < maxSize) : items.length ≤ maxSize := by
  induction h with
  | nil => exact Nat.zero_le _
  | @snoc trace e after h he ih =>
    rcases he.cases with ⟨item, -, ha, hroom⟩ | ⟨item, -, ha, -⟩ | ⟨item, -, hb⟩ | ⟨-, ha, -, -⟩
    · have := hroom hpos
      rw [ha, List.length_append, List.length_singleton]
      omega
    · rw [ha]
      exact ih
    · rw [hb, List.length_cons] at ih
      omega
    · rw [ha]
      exact ih

/-- Every return is that of an atomic call. -/
theorem sound (h : Linear maxSize trace items) : ∀ e ∈ trace, e.Sound := by
  induction h with
  | nil => nofun
  | @snoc trace e after h he ih =>
    intro e' hm
    rcases List.mem_append.mp hm with hm | hm
    · exact ih e' hm
    · rw [List.mem_singleton.mp hm]
      rcases he.cases with ⟨item, ho, -, -⟩ | ⟨item, ho, -, hstop⟩ | ⟨item, ho, hb⟩ | ⟨ho, -, hb, hstop⟩
      · constructor <;> simp [ho]
      · constructor <;> simp [ho, hstop]
      · constructor <;> simp [ho, hb]
      · constructor <;> simp [ho, hb, hstop]

end Linear

/-! ## Numbers of calls -/

/-- Every call has its own number, returns at most once, and the calls of a thread return in the order in which it makes
them. -/
structure Numbered (ids : ι → Option Nat) (calls : Nat) (trace : List (Event ι α)) : Prop where
  active_lt : ∀ i id, ids i = some id → id < calls
  returned_lt : ∀ e ∈ trace, e.id < calls
  apart : ∀ i j id, ids i = some id → ids j = some id → i = j
  fresh : ∀ i id, ids i = some id → ∀ e ∈ trace, e.id ≠ id ∧ (e.thread = i → e.id < id)
  nodup : (trace.map Event.id).Nodup
  order : trace.Pairwise fun a b => a.thread = b.thread → a.id < b.id

namespace Numbered

variable [DecidableEq ι] {ids : ι → Option Nat} {calls : Nat} {trace : List (Event ι α)}

theorem begins (h : Numbered ids calls trace) (i : ι) : Numbered (Function.update ids i (some calls)) (calls + 1) trace := by
  have hold : ∀ j id, j ≠ i → Function.update ids i (some calls) j = some id → ids j = some id := by
    intro j id hj hid
    rwa [Function.update_of_ne hj] at hid
  have hnew : ∀ id, Function.update ids i (some calls) i = some id → id = calls := by
    intro id hid
    rw [Function.update_self] at hid
    exact (Option.some.inj hid).symm
  constructor
  · intro j id hid
    by_cases hj : j = i
    · subst hj
      rw [hnew id hid]
      exact Nat.lt_succ_self _
    · exact Nat.lt_succ_of_lt (h.active_lt j id (hold j id hj hid))
  · intro e he
    exact Nat.lt_succ_of_lt (h.returned_lt e he)
  · intro j k id hj hk
    by_cases hji : j = i
    · subst hji
      by_cases hkj : k = j
      · exact hkj.symm
      · have := h.active_lt k id (hold k id hkj hk)
        rw [hnew id hj] at this
        exact absurd this (lt_irrefl _)
    · by_cases hki : k = i
      · subst hki
        have := h.active_lt j id (hold j id hji hj)
        rw [hnew id hk] at this
        exact absurd this (lt_irrefl _)
      · exact h.apart j k id (hold j id hji hj) (hold k id hki hk)
  · intro j id hid e he
    by_cases hj : j = i
    · subst hj
      have := h.returned_lt e he
      rw [hnew id hid]
      exact ⟨Nat.ne_of_lt this, fun _ => this⟩
    · exact h.fresh j id (hold j id hj hid) e he
  · exact h.nodup
  · exact h.order

theorem returns (h : Numbered ids calls trace) {e : Event ι α} (he : ids e.thread = some e.id) :
    Numbered (Function.update ids e.thread none) calls (trace ++ [e]) := by
  have hold : ∀ j id, Function.update ids e.thread none j = some id → j ≠ e.thread ∧ ids j = some id := by
    intro j id hid
    by_cases hj : j = e.thread
    · subst hj
      simp at hid
    · rw [Function.update_of_ne hj] at hid
      exact ⟨hj, hid⟩
  constructor
  · intro j id hid
    exact h.active_lt j id (hold j id hid).2
  · intro a ha
    rcases List.mem_append.mp ha with ha | ha
    · exact h.returned_lt a ha
    · rw [List.mem_singleton.mp ha]
      exact h.active_lt e.thread e.id he
  · intro j k id hj hk
    exact h.apart j k id (hold j id hj).2 (hold k id hk).2
  · intro j id hid a ha
    obtain ⟨hj, hid⟩ := hold j id hid
    rcases List.mem_append.mp ha with ha | ha
    · exact h.fresh j id hid a ha
    · rw [List.mem_singleton.mp ha]
      refine ⟨?_, fun ht => absurd ht.symm hj⟩
      intro hee
      exact hj (h.apart j e.thread id hid (hee ▸ he))
  · rw [List.map_append, List.nodup_append]
    refine ⟨h.nodup, List.nodup_singleton _, ?_⟩
    intro a ha b hb
    obtain ⟨x, hx, rfl⟩ := List.mem_map.mp ha
    rw [List.map_singleton, List.mem_singleton] at hb
    rw [hb]
    exact (h.fresh e.thread e.id he x hx).1
  · rw [List.pairwise_append]
    refine ⟨h.order, List.pairwise_singleton _ _, ?_⟩
    intro a ha b hb ht
    rw [List.mem_singleton.mp hb] at ht ⊢
    exact (h.fresh e.thread e.id he a ha).2 ht

end Numbered

/-! ## Main result -/

section Runs

variable [DecidableEq ι] {maxSize : Nat} {m : Monitor ι α}

/-- **Every run is a run of atomic calls**, in the order of the returns. -/
theorem reachable_linear (hm : (monitorSystem ι α maxSize).Reachable m) :
    m.queue.maxSize = maxSize ∧ Linear maxSize m.trace m.queue.items := by
  refine hm.invariant (I := fun m => m.queue.maxSize = maxSize ∧ Linear maxSize m.trace m.queue.items) ?_ ?_
  · intro s hs
    rw [hs.queue, hs.trace]
    exact ⟨rfl, .nil⟩
  · rintro s t hreach ⟨hmax, hlin⟩ hstep
    cases MonitorStep.effect hstep (reachable_locked hreach) with
    | quiet hqueue htrace hcalls hids =>
      rw [hqueue, htrace]
      exact ⟨hmax, hlin⟩
    | begins i hidle hqueue htrace hcalls hids =>
      rw [hqueue, htrace]
      exact ⟨hmax, hlin⟩
    | returns e hid hbefore hatomic hmax' htrace hcalls hids =>
      rw [hmax', htrace]
      refine ⟨hmax, .snoc ?_ (hmax ▸ hatomic)⟩
      rw [hbefore]
      exact hlin

theorem reachable_numbered (hm : (monitorSystem ι α maxSize).Reachable m) : Numbered m.ids m.calls m.trace := by
  refine hm.invariant (I := fun m => Numbered m.ids m.calls m.trace) ?_ ?_
  · intro s hs
    have hids : ∀ i, s.ids i = none := fun i => by rw [Monitor.ids, hs.threads i]; rfl
    rw [hs.trace]
    constructor <;> simp [hids]
  · intro s t hreach h hstep
    cases MonitorStep.effect hstep (reachable_locked hreach) with
    | quiet hqueue htrace hcalls hids =>
      rw [hids, hcalls, htrace]
      exact h
    | begins i hidle hqueue htrace hcalls hids =>
      rw [hids, hcalls, htrace]
      exact h.begins i
    | returns e hid hbefore hatomic hmax' htrace hcalls hids =>
      rw [hids, hcalls, htrace]
      exact h.returns hid

/-- **The queue is a bounded FIFO under any interleaving.** In every state of a run, the items popped and then those in the
queue are those of the pushes that have gone through, in that order, and there are at most `maxSize` of them in the queue.
Calls return once, those of a thread in its own order. A push that returned `false` was stopped, and it is not among those
that have gone through; a pop returned the first item there was, and nothing only when it was stopped and there was none;
a call that was not stopped did not fail. -/
theorem queue_bounded_fifo (hm : (monitorSystem ι α maxSize).Reachable m) :
    popped m.trace ++ m.queue.items = (committed m.trace).map Prod.snd ∧
    (0 < maxSize → m.queue.items.length ≤ maxSize) ∧
    (m.trace.map Event.id).Nodup ∧
    (m.trace.Pairwise fun a b => a.thread = b.thread → a.id < b.id) ∧
    ∀ e ∈ m.trace,
      (∀ item, e.outcome = .pushed item false → e.stop = true ∧ e.id ∉ (committed m.trace).map Prod.fst) ∧
      (∀ result, e.outcome = .popped result → result = e.before.head?) ∧
      (e.outcome = .popped none → e.stop = true ∧ e.before = []) ∧
      (e.stop = false → (∀ item, e.outcome ≠ .pushed item false) ∧ e.outcome ≠ .popped none) := by
  obtain ⟨-, hlin⟩ := reachable_linear hm
  have hnum := reachable_numbered hm
  refine ⟨hlin.fifo, hlin.length_le, hnum.nodup, hnum.order, ?_⟩
  intro e he
  have hsound := hlin.sound e he
  refine ⟨?_, hsound.pop_head, hsound.pop_none, ?_⟩
  · intro item ho
    refine ⟨hsound.push_false item ho, ?_⟩
    intro hmem
    obtain ⟨e', he', hid, item', ho'⟩ := mem_committed hmem
    have hsame : e' = e := List.inj_on_of_nodup_map hnum.nodup he' he hid
    rw [hsame, ho] at ho'
    cases ho'
  · intro hstop
    refine ⟨?_, ?_⟩
    · intro item ho
      rw [hsound.push_false item ho] at hstop
      cases hstop
    · intro ho
      rw [(hsound.pop_none ho).1] at hstop
      cases hstop

end Runs

/-- A queue of one slot and three threads: 0 pushes an item and 1 blocks; 2 pops the item and wakes 1, but 0 is faster with
another one; 1 blocks again, and is stopped. -/
theorem queue_bounded_fifo_stopped :
    ∃ m, (monitorSystem (Fin 3) Nat 1).Reachable m ∧ m.queue.items = [9] ∧ m.trace.map Event.thread = [0, 2, 0, 1] ∧
      popped m.trace = [7] ∧ (committed m.trace).map Prod.snd = [7, 9] ∧
      ∃ e ∈ m.trace, e.outcome = .pushed 8 false ∧ e.stop = true ∧ e.id ∉ (committed m.trace).map Prod.fst := by
  have hpush : (monitorSystem (Fin 3) Nat 1).Reachable ((Monitor.start (Fin 3) Nat 1).begins 0 (.push 7) false) :=
    .step (.init (Monitor.start_initial 1)) (.begins rfl (.push 7) false)
  have hfull := (hpush.step (.check (i := 0) rfl (Or.inl rfl) rfl)).step (.stores (i := 0) rfl (.none (by decide)))
  have hblocked := (hfull.step (.begins (i := 1) rfl (.push 8) false)).step (.check (i := 1) rfl (Or.inl rfl) rfl)
  have hpop := (hblocked.step (.begins (i := 2) rfl .pop false)).step (.check (i := 2) rfl (Or.inl rfl) rfl)
  have htaken := hpop.step (.takes (i := 2) rfl rfl (.one 1 rfl))
  have hagain := (htaken.step (.begins (i := 0) rfl (.push 9) false)).step (.check (i := 0) rfl (Or.inl rfl) rfl)
  have hstored := hagain.step (.stores (i := 0) rfl (.none (by decide)))
  have hwaits := hstored.step (.check (i := 1) rfl (Or.inr rfl) rfl)
  obtain ⟨m, hm, hitems, htrace⟩ : ∃ m, (monitorSystem (Fin 3) Nat 1).Reachable m ∧ m.queue.items = [9] ∧
      m.trace = [⟨0, 0, false, [], .pushed 7 true⟩, ⟨2, 2, false, [7], .popped (some 7)⟩,
        ⟨0, 3, false, [], .pushed 9 true⟩, ⟨1, 1, true, [9], .pushed 8 false⟩] :=
    ⟨_, (hwaits.step (.requestStop (i := 1) rfl)).step (.check (i := 1) rfl (Or.inr rfl) rfl), rfl, rfl⟩
  have hmem : (⟨1, 1, true, [9], .pushed 8 false⟩ : Event (Fin 3) Nat) ∈ m.trace := by simp [htrace]
  obtain ⟨hfifo, -, -, -, hevents⟩ := queue_bounded_fifo hm
  obtain ⟨hstop, hnot⟩ := (hevents _ hmem).1 8 rfl
  have hpopped : popped m.trace = [7] := by rw [htrace]; rfl
  rw [hpopped, hitems] at hfifo
  exact ⟨m, hm, hitems, by rw [htrace]; rfl, hpopped, hfifo.symm, _, hmem, rfl, hstop, hnot⟩

end CounterDrone

import Mathlib
import CounterDrone.Lib.Tally
import CounterDrone.Monitor

/-!
# Wakeups of the queue

A `notify_one` hands a free slot or an item to one waiter, so a thread that leaves its call must have used what it was
given. `Covered` says that nobody stays blocked on a condition variable while there is more available than threads on
their way to use it.

On `m_not_empty` it holds in every state of a run: a consumer past its wait always takes an item. On `m_not_full` it does
not: the second stop test of `push` leaves with the slot unused and notifies nobody (`stopped_push_loses_wakeup`). Unless
a stop is requested in the short time between the wait of a push and this test while another producer is blocked, it
holds too (`no_lost_wakeup`): a stop that is requested earlier wakes all producers.
-/

namespace CounterDrone

variable {ι α : Type}

/-! ## What is available, and who is on the way -/

/-- What a notification on a condition variable stands for: free slots, or items. -/
def available (q : ThreadSafeQueue α) : Condition → Nat
  | .notFull => q.maxSize - q.items.length
  | .notEmpty => q.items.length

/-- Woken and not yet checked again, or past its wait. -/
def Thread.inFlight (c : Condition) : Thread α → Bool
  | active call _ _ .woken => call.waitsOn = c
  | active call _ _ .passed => call.waitsOn = c
  | _ => false

/-- In flight, and not a push that has been stopped. -/
def Thread.useful (c : Condition) : Thread α → Bool
  | active call _ stop .woken => call.waitsOn = c ∧ (c = .notFull → stop = false)
  | active call _ stop .passed => call.waitsOn = c ∧ (c = .notFull → stop = false)
  | _ => false

/-- Nobody is blocked, or everything that is available has a thread on its way. -/
def Covered [Fintype ι] (c : Condition) (q : ThreadSafeQueue α) (threads : ι → Thread α) : Prop :=
  (∃ i, (threads i).blockedOn c = true) → available q c ≤ tally (Thread.useful c) threads

/-- A stop is requested on the token of a push that is past its wait, while a producer is blocked. -/
def StopsPastWait [DecidableEq ι] (m m' : Monitor ι α) : Prop :=
  ∃ i item id, m.threads i = .active (.push item) id false .passed ∧ m' = m.requestStop i (.push item) id .passed ∧
    ∃ j, (m.threads j).blockedOn .notFull = true

/-! ## One thread -/

theorem useful_inFlight {c : Condition} {t : Thread α} (h : t.useful c = true) : t.inFlight c = true := by
  rcases t with _ | ⟨call, id, stop, point⟩
  · cases h
  · cases point with
    | entering => cases h
    | blocked => cases h
    | woken => simp only [Thread.useful, decide_eq_true_eq] at h; simpa [Thread.inFlight] using h.1
    | passed => simp only [Thread.useful, decide_eq_true_eq] at h; simpa [Thread.inFlight] using h.1

theorem blockedOn_iff {c : Condition} {t : Thread α} :
    t.blockedOn c = true ↔ ∃ call id stop, t = .active call id stop .blocked ∧ call.waitsOn = c := by
  rcases t with _ | ⟨call, id, stop, point⟩
  · simp [Thread.blockedOn]
  · cases point <;> simp [Thread.blockedOn]

/-- A thread that is blocked is not on its way. -/
theorem useful_blocked {call : QueueCall α} {id : Nat} {stop : Bool} (c : Condition) :
    (Thread.active call id stop .blocked).useful c = false := rfl

theorem not_blockedOn_wake (c : Condition) (t : Thread α) : t.wake.blockedOn c = false := by
  rcases t with _ | ⟨call, id, stop, point⟩
  · rfl
  · cases point <;> rfl

/-- Waking a thread that waits on one condition variable is nothing to the other. -/
theorem useful_wake_other {c c' : Condition} {t : Thread α} (h : t.blockedOn c' = true) (hne : c' ≠ c) :
    t.wake.useful c = t.useful c ∧ t.wake.blockedOn c = t.blockedOn c := by
  obtain ⟨call, id, stop, rfl, hc⟩ := blockedOn_iff.mp h
  have hcall : call.waitsOn ≠ c := hc ▸ hne
  simp [Thread.wake, Thread.useful, Thread.blockedOn, hcall]

/-! ## Families of threads -/

section Families

variable [Fintype ι] {c c' : Condition} {q q' : ThreadSafeQueue α} {f g : ι → Thread α}

theorem Covered.of_none (h : ∀ i, (f i).blockedOn c = false) : Covered c q f := by
  rintro ⟨i, hi⟩
  rw [h i] at hi
  cases hi

theorem Covered.of_zero (h : available q c = 0) : Covered c q f := fun _ => h ▸ Nat.zero_le _

/-- Threads that look the same to a condition variable. -/
theorem Covered.congr (h : Covered c q f) (hb : ∀ i, (g i).blockedOn c = (f i).blockedOn c)
    (hu : ∀ i, (g i).useful c = (f i).useful c) : Covered c q g := by
  rintro ⟨i, hi⟩
  rw [tally_congr hu]
  exact h ⟨i, hb i ▸ hi⟩

/-- After a stop request in the wait nobody is blocked on its condition variable. -/
theorem covered_wakeAll (c : Condition) (q : ThreadSafeQueue α) (f : ι → Thread α) : Covered c q (wakeAll c f) := by
  apply Covered.of_none
  intro i
  unfold wakeAll
  split
  · exact not_blockedOn_wake c _
  · rename_i h
    exact Bool.eq_false_of_not_eq_true h

theorem Covered.wakeAll_other (h : Covered c q f) (hne : c' ≠ c) : Covered c q (wakeAll c' f) := by
  apply h.congr
  · intro i
    unfold wakeAll
    split
    · rename_i hb
      exact (useful_wake_other hb hne).2
    · rfl
  · intro i
    unfold wakeAll
    split
    · rename_i hb
      exact (useful_wake_other hb hne).1
    · rfl

variable [DecidableEq ι] {i : ι} {t : Thread α}

/-- One thread moves and does not block, and if it was useful it still is. -/
theorem Covered.update (h : Covered c q f) (hb : t.blockedOn c = true → (f i).blockedOn c = true)
    (hu : (f i).useful c = true → t.useful c = true) : Covered c q (Function.update f i t) := by
  rintro ⟨j, hj⟩
  have hold : ∃ j, (f j).blockedOn c = true := by
    by_cases hji : j = i
    · subst hji
      rw [Function.update_self] at hj
      exact ⟨j, hb hj⟩
    · rw [Function.update_of_ne hji] at hj
      exact ⟨j, hj⟩
  have hcount := tally_update (Thread.useful c) f i t
  have hle : ((f i).useful c).toNat ≤ (t.useful c).toNat := by
    cases hf : (f i).useful c with
    | false => exact Nat.zero_le _
    | true => rw [hu hf]
  have := h hold
  omega

/-- A thread leaves with what it was given. -/
theorem Covered.leave (h : Covered c q f) (ht : t.blockedOn c = false)
    (hav : available q' c + 1 ≤ available q c) : Covered c q' (Function.update f i t) := by
  rintro ⟨j, hj⟩
  have hji : j ≠ i := by
    rintro rfl
    rw [Function.update_self, ht] at hj
    cases hj
  rw [Function.update_of_ne hji] at hj
  have hcount := tally_update (Thread.useful c) f i t
  have hone : ((f i).useful c).toNat ≤ 1 := Bool.toNat_le _
  have := h ⟨j, hj⟩
  omega

/-- A notification for one more thing that has become available. -/
theorem Covered.notify (h : Covered c q f) (hn : NotifyOne c f g)
    (hfresh : ∀ j call id stop, f j = .active call id stop .blocked → stop = false)
    (hav : available q' c ≤ available q c + 1) : Covered c q' g := by
  cases hn with
  | one j hj =>
    obtain ⟨call, id, stop, he, hc⟩ := blockedOn_iff.mp hj
    have hstop := hfresh j call id stop he
    have hcount := tally_update (Thread.useful c) f j (f j).wake
    have hnew : ((f j).wake).useful c = true := by
      rw [he]
      simp [Thread.wake, Thread.useful, hc, hstop]
    have hold : (f j).useful c = false := by rw [he]; exact useful_blocked c
    rw [hnew, hold] at hcount
    have := h ⟨j, hj⟩
    intro _
    simp only [Bool.toNat_true, Bool.toNat_false] at hcount
    omega
  | none hnone => exact Covered.of_none fun i => Bool.eq_false_of_not_eq_true (hnone i)

theorem Covered.notify_other (h : Covered c q f) (hn : NotifyOne c' f g) (hne : c' ≠ c) : Covered c q g := by
  cases hn with
  | one j hj =>
    obtain ⟨hu, hb⟩ := useful_wake_other hj hne
    exact h.update (fun hbl => hb ▸ hbl) fun hus => hu.symm ▸ hus
  | none => exact h

end Families

/-! ## Blocked threads have not been stopped -/

/-- No stop has been requested on the token of a blocked thread. -/
def Unstopped (threads : ι → Thread α) : Prop :=
  ∀ i call id stop, threads i = .active call id stop .blocked → stop = false

theorem wake_ne_blocked (t : Thread α) (call : QueueCall α) (id : Nat) (stop : Bool) :
    t.wake ≠ .active call id stop .blocked := by
  rcases t with _ | ⟨call', id', stop', point⟩
  · nofun
  · cases point <;> nofun

section Unstopped

variable [DecidableEq ι] {f g : ι → Thread α} {i : ι}

theorem Unstopped.update (h : Unstopped f) {t : Thread α}
    (ht : ∀ call id stop, t = .active call id stop .blocked → stop = false) : Unstopped (Function.update f i t) := by
  intro j call id stop hj
  by_cases hji : j = i
  · subst hji
    rw [Function.update_self] at hj
    exact ht call id stop hj
  · rw [Function.update_of_ne hji] at hj
    exact h j call id stop hj

theorem Unstopped.notify {c : Condition} (h : Unstopped f) (hn : NotifyOne c f g) : Unstopped g := by
  cases hn with
  | one j hj => exact h.update fun call id stop he => absurd he (wake_ne_blocked _ call id stop)
  | none => exact h

/-- A stop request in the wait wakes the thread itself too. -/
theorem Unstopped.requestStop (h : Unstopped f) (call : QueueCall α) (id : Nat) (point : Point) :
    Unstopped (wakeAll call.waitsOn (Function.update f i (.active call id true point))) := by
  intro j call' id' stop' hj
  unfold wakeAll at hj
  split at hj
  · exact absurd hj (wake_ne_blocked _ call' id' stop')
  · rename_i hnot
    by_cases hji : j = i
    · subst hji
      rw [Function.update_self] at hj hnot
      cases hj
      exact absurd (by simp [Thread.blockedOn]) hnot
    · rw [Function.update_of_ne hji] at hj
      exact h j call' id' stop' hj

theorem Unstopped.step {m m' : Monitor ι α} (h : Unstopped m.threads) (hs : MonitorStep m m') : Unstopped m'.threads := by
  cases hs with
  | begins hi call stop => exact h.update nofun
  | @requestStop i call id point hi =>
    unfold Monitor.requestStop
    simp only
    split
    · exact h.requestStop call id point
    · rename_i hp
      refine h.update ?_
      intro call' id' stop' he
      cases he
      exact absurd (Or.inl rfl) hp
  | spurious hi => exact h.update nofun
  | @check i call id stop point hi hp hfree =>
    unfold Monitor.check
    rcases call.wait_spec m.queue stop with ⟨hw, -⟩ | ⟨hw, -, -⟩ | ⟨hw, hstop, -⟩
    · rw [hw]
      exact h.update nofun
    · rw [hw]
      exact h.update nofun
    · rw [hw]
      refine h.update ?_
      intro call' id' stop' he
      cases he
      exact hstop
  | refuses hi => exact h.update nofun
  | stores hi hn => exact (h.update (t := .idle) nofun).notify hn
  | takes hi hq hn => exact (h.update (t := .idle) nofun).notify hn

end Unstopped

theorem reachable_unstopped [DecidableEq ι] {maxSize : Nat} {m : Monitor ι α}
    (hm : (monitorSystem ι α maxSize).Reachable m) : Unstopped m.threads := by
  refine hm.invariant (I := fun m => Unstopped m.threads) ?_ fun _ _ _ h hs => h.step hs
  intro s hs i call id stop hi
  rw [hs.threads i] at hi
  cases hi

/-! ## Steps -/

/-- A call that is not ready finds nothing available. -/
theorem available_of_not_ready {call : QueueCall α} {q : ThreadSafeQueue α} (h : ¬call.Ready q) :
    available q call.waitsOn = 0 := by
  cases call with
  | push item =>
    simp only [QueueCall.Ready, not_or] at h
    simp only [QueueCall.waitsOn, available]
    omega
  | pop =>
    simp only [QueueCall.Ready, not_not] at h
    simp [QueueCall.waitsOn, available, h]

section Steps

variable [Fintype ι] [DecidableEq ι] {m m' : Monitor ι α} {c : Condition}

/-- A step of a thread that waits on the other condition variable. -/
theorem Covered.update_other {q : ThreadSafeQueue α} {f : ι → Thread α} (h : Covered c q f) {i : ι} {call : QueueCall α}
    {id id' : Nat} {stop stop' : Bool} {point point' : Point} (hi : f i = .active call id stop point)
    (hne : call.waitsOn ≠ c) : Covered c q (Function.update f i (.active call id' stop' point')) := by
  apply h.update
  · intro hb
    cases point' <;> simp [Thread.blockedOn, hne] at hb
  · intro hu
    rw [hi] at hu
    cases point <;> simp [Thread.useful, hne] at hu

/-- A thread that waits on the other condition variable returns. -/
theorem Covered.idle_other {q : ThreadSafeQueue α} {f : ι → Thread α} (h : Covered c q f) {i : ι} {call : QueueCall α}
    {id : Nat} {stop : Bool} {point : Point} (hi : f i = .active call id stop point) (hne : call.waitsOn ≠ c) :
    Covered c q (Function.update f i .idle) := by
  apply h.update
  · nofun
  · intro hu
    rw [hi] at hu
    cases point <;> simp [Thread.useful, hne] at hu

/-- An iteration of a wait. -/
theorem Covered.check (h : Covered c m.queue m.threads) {i : ι} {call : QueueCall α} {id : Nat} {stop : Bool}
    {point : Point} (hi : m.threads i = .active call id stop point) (hp : point = .entering ∨ point = .woken) :
    Covered c (m.check i call id stop).queue (m.check i call id stop).threads := by
  unfold Monitor.check
  rcases call.wait_spec m.queue stop with ⟨hw, -⟩ | ⟨hw, -, hr⟩ | ⟨hw, -, hr⟩
  · rw [hw]
    refine h.update nofun ?_
    intro hu
    rw [hi] at hu
    rcases hp with rfl | rfl
    · cases hu
    · exact hu
  · rw [hw]
    by_cases hc : call.waitsOn = c
    · exact Covered.of_zero (hc ▸ available_of_not_ready hr)
    · exact h.idle_other hi hc
  · rw [hw]
    by_cases hc : call.waitsOn = c
    · exact Covered.of_zero (hc ▸ available_of_not_ready hr)
    · exact h.update_other hi hc

/-- A stop request: in the wait it wakes everybody, before the wait it is nothing, and past the wait it counts only for a
push. -/
theorem Covered.requestStop (h : Covered c m.queue m.threads) {i : ι} {call : QueueCall α} {id : Nat} {point : Point}
    (hi : m.threads i = .active call id false point)
    (hG : c = .notFull → ¬StopsPastWait m (m.requestStop i call id point)) :
    Covered c (m.requestStop i call id point).queue (m.requestStop i call id point).threads := by
  by_cases hc : call.waitsOn = c
  · subst hc
    cases point with
    | blocked => exact covered_wakeAll _ _ _
    | woken => exact covered_wakeAll _ _ _
    | entering =>
      apply h.update
      · intro hb
        cases hb
      · intro hu
        rw [hi] at hu
        cases hu
    | passed =>
      cases call with
      | push item =>
        -- nobody is blocked, or the step is the one that is excluded
        have hnone : ∀ j, (m.threads j).blockedOn .notFull = false := by
          intro j
          by_contra hj
          exact hG rfl ⟨i, item, id, hi, rfl, j, Bool.eq_true_of_not_eq_false hj⟩
        apply Covered.of_none
        intro j
        by_cases hji : j = i
        · subst hji
          simp [Monitor.requestStop, Monitor.setThread, Thread.blockedOn]
        · simp only [Monitor.requestStop, Monitor.setThread]
          rw [if_neg (by decide)]
          simp only [Function.update_of_ne hji]
          exact hnone j
      | pop =>
        apply h.update
        · intro hb
          cases hb
        · intro _
          simp [Thread.useful, QueueCall.waitsOn]
  · have hset : Covered c m.queue (Function.update m.threads i (.active call id true point)) := h.update_other hi hc
    unfold Monitor.requestStop
    simp only
    split
    · exact hset.wakeAll_other hc
    · exact hset

/-- **Every step keeps what is available covered**, apart from a stop past the wait of a push. -/
theorem Covered.step (h : Covered c m.queue m.threads) (hl : Locked m) (hu : Unstopped m.threads)
    (hs : MonitorStep m m') (hG : c = .notFull → ¬StopsPastWait m m') : Covered c m'.queue m'.threads := by
  cases hs with
  | @begins i hi call stop =>
    refine h.update nofun ?_
    intro hus
    rw [hi] at hus
    cases hus
  | requestStop hi => exact h.requestStop hi hG
  | @spurious i call id stop hi =>
    refine h.update nofun ?_
    intro hus
    rw [hi] at hus
    cases hus
  | check hi hp hfree => exact h.check hi hp
  | @refuses i item id hi =>
    refine h.update nofun ?_
    intro hus
    rw [hi] at hus
    obtain ⟨hc, hstop⟩ := of_decide_eq_true hus
    exact absurd (hstop hc.symm) (by decide)
  | @stores i item id threads hi hn =>
    have hready := (hl i _ _ _ hi).2
    have hfresh := Unstopped.update (i := i) (t := .idle) hu nofun
    cases c with
    | notFull =>
      -- the slot is used
      have hslot : Covered .notFull (⟨m.queue.items ++ [item], m.queue.maxSize⟩ : ThreadSafeQueue α)
          (Function.update m.threads i .idle) := by
        simp only [QueueCall.Ready] at hready
        rcases hready with hzero | hroom
        · apply Covered.of_zero
          simp [available, hzero]
        · refine h.leave rfl ?_
          simp only [available, List.length_append, List.length_singleton]
          omega
      exact hslot.notify_other hn (by decide)
    | notEmpty =>
      refine Covered.notify (h.idle_other hi (by simp [QueueCall.waitsOn])) hn hfresh ?_
      simp [available, Monitor.stores]
  | @takes i item rest id stop threads hi hq hn =>
    have hfresh := Unstopped.update (i := i) (t := .idle) hu nofun
    cases c with
    | notFull =>
      refine Covered.notify (h.idle_other hi (by simp [QueueCall.waitsOn])) hn hfresh ?_
      simp only [available, Monitor.takes, hq, List.length_cons]
      omega
    | notEmpty =>
      -- the item is taken
      have hitem : Covered .notEmpty (⟨rest, m.queue.maxSize⟩ : ThreadSafeQueue α) (Function.update m.threads i .idle) := by
        refine h.leave rfl ?_
        simp [available, hq]
      exact hitem.notify_other hn (by decide)

end Steps

/-! ## Main results -/

section Runs

variable [Fintype ι] {maxSize : Nat} {m : Monitor ι α}

theorem Monitor.Initial.covered (h : m.Initial maxSize) (c : Condition) : Covered c m.queue m.threads := by
  apply Covered.of_none
  intro i
  rw [h.threads i]
  rfl

variable [DecidableEq ι]

/-- No item is left behind while a consumer is blocked, in any run. -/
theorem items_covered (hm : (monitorSystem ι α maxSize).Reachable m) : Covered .notEmpty m.queue m.threads := by
  refine hm.invariant (I := fun m => Covered .notEmpty m.queue m.threads) ?_ ?_
  · intro s hs
    exact Monitor.Initial.covered hs .notEmpty
  · intro s t hreach h hstep
    exact h.step (reachable_locked hreach) (reachable_unstopped hreach) hstep nofun

/-- No slot is left behind while a producer is blocked, in runs without a stop past the wait of a push. -/
theorem slots_covered (hm : ((monitorSystem ι α maxSize).guarded fun m m' => ¬StopsPastWait m m').Reachable m) :
    Covered .notFull m.queue m.threads := by
  refine hm.invariant (I := fun m => Covered .notFull m.queue m.threads) ?_ ?_
  · intro s hs
    exact Monitor.Initial.covered hs .notFull
  · intro s t hreach h hstep
    have hr := hreach.of_guarded
    exact h.step (reachable_locked hr) (reachable_unstopped hr) hstep.1 fun _ => hstep.2

/-- **No lost wakeup.** In a run in which no stop is requested between the wait of a push and its second stop test while a
producer is blocked: when a producer is blocked, every free slot has a producer that was woken and has not checked again or
is past its wait; and when a consumer is blocked, every item has such a consumer. -/
theorem no_lost_wakeup (hm : ((monitorSystem ι α maxSize).guarded fun m m' => ¬StopsPastWait m m').Reachable m) :
    ((∃ i, (m.threads i).blockedOn .notFull = true) →
      m.queue.maxSize - m.queue.items.length ≤ tally (Thread.inFlight .notFull) m.threads) ∧
    ((∃ i, (m.threads i).blockedOn .notEmpty = true) →
      m.queue.items.length ≤ tally (Thread.inFlight .notEmpty) m.threads) := by
  constructor
  · intro hb
    exact Nat.le_trans (slots_covered hm hb) (tally_mono fun _ => useful_inFlight)
  · intro hb
    exact Nat.le_trans (items_covered hm.of_guarded hb) (tally_mono fun _ => useful_inFlight)

end Runs

/-! ## A run -/

/-- Capacity one: a producer has filled the queue, two more are blocked, and a consumer has taken the item and notified the
first of them. -/
def contended : Monitor (Fin 4) Nat :=
  let m := Monitor.start (Fin 4) Nat 1
  let m := (m.begins 0 (.push 10) false).check 0 (.push 10) 0 false
  let m := m.stores 0 10 0 (Function.update m.threads 0 .idle)
  let m := (m.begins 1 (.push 11) false).check 1 (.push 11) 1 false
  let m := (m.begins 2 (.push 12) false).check 2 (.push 12) 2 false
  let m := (m.begins 3 .pop false).check 3 .pop 3 false
  m.takes 3 10 [] 3 false (Function.update (Function.update m.threads 3 .idle) 1 (.active (.push 11) 1 false .woken))

/-- It is reached without a producer past its wait while another one is blocked. -/
theorem contended_reachable {S : System (Monitor (Fin 4) Nat)} (hinit : S.init (Monitor.start (Fin 4) Nat 1))
    (hstep : ∀ m m' : Monitor (Fin 4) Nat, MonitorStep m m' →
      (∀ i j, ¬((m.threads i).inFlight .notFull = true ∧ (m.threads j).blockedOn .notFull = true)) → S.step m m') :
    S.Reachable contended := by
  have h0 := System.Reachable.init hinit
  have h1 := System.Reachable.step h0 (hstep _ _ (.begins (i := 0) rfl (.push 10) false) (by decide))
  have h2 := System.Reachable.step h1 (hstep _ _ (.check (i := 0) rfl (Or.inl rfl) rfl) (by decide))
  have h3 := System.Reachable.step h2 (hstep _ _ (.stores (i := 0) rfl (.none (by decide))) (by decide))
  have h4 := System.Reachable.step h3 (hstep _ _ (.begins (i := 1) rfl (.push 11) false) (by decide))
  have h5 := System.Reachable.step h4 (hstep _ _ (.check (i := 1) rfl (Or.inl rfl) rfl) (by decide))
  have h6 := System.Reachable.step h5 (hstep _ _ (.begins (i := 2) rfl (.push 12) false) (by decide))
  have h7 := System.Reachable.step h6 (hstep _ _ (.check (i := 2) rfl (Or.inl rfl) rfl) (by decide))
  have h8 := System.Reachable.step h7 (hstep _ _ (.begins (i := 3) rfl .pop false) (by decide))
  have h9 := System.Reachable.step h8 (hstep _ _ (.check (i := 3) rfl (Or.inl rfl) rfl) (by decide))
  exact System.Reachable.step h9 (hstep _ _ (.takes (i := 3) rfl rfl (.one 1 (by decide))) (by decide))

/-- One producer is blocked, one slot is free, and the other producer is on its way. -/
theorem no_lost_wakeup_contended :
    ∃ m : Monitor (Fin 4) Nat, (∃ i, (m.threads i).blockedOn .notFull = true) ∧
      m.queue.maxSize - m.queue.items.length = 1 ∧
      m.queue.maxSize - m.queue.items.length ≤ tally (Thread.inFlight .notFull) m.threads := by
  have hm : ((monitorSystem (Fin 4) Nat 1).guarded fun m m' => ¬StopsPastWait m m').Reachable contended := by
    refine contended_reachable (Monitor.start_initial 1) ?_
    intro m m' hs hnone
    refine ⟨hs, ?_⟩
    rintro ⟨i, item, id, hi, -, j, hj⟩
    exact hnone i j ⟨by rw [hi]; rfl, hj⟩
  have hblocked : ∃ i, (contended.threads i).blockedOn .notFull = true := ⟨2, rfl⟩
  exact ⟨contended, hblocked, rfl, (no_lost_wakeup hm).1 hblocked⟩

/-- The notified producer goes past its wait, is stopped and returns `false`: the slot is free, nobody is on the way, and the
last producer stays blocked. -/
theorem stopped_push_loses_wakeup :
    ∃ m : Monitor (Fin 4) Nat, (monitorSystem (Fin 4) Nat 1).Reachable m ∧
      (∃ i, (m.threads i).blockedOn .notFull = true) ∧
      ¬m.queue.maxSize - m.queue.items.length ≤ tally (Thread.inFlight .notFull) m.threads := by
  have hm : (monitorSystem (Fin 4) Nat 1).Reachable contended :=
    contended_reachable (Monitor.start_initial 1) fun _ _ hs _ => hs
  have hpassed := System.Reachable.step hm (.check (i := 1) rfl (Or.inr rfl) rfl)
  have hstopped := System.Reachable.step hpassed (.requestStop (i := 1) rfl)
  have hreturned := System.Reachable.step hstopped (.refuses (i := 1) rfl)
  exact ⟨_, hreturned, ⟨2, rfl⟩, by decide⟩

end CounterDrone

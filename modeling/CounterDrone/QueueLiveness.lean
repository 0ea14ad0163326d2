import Mathlib
import CounterDrone.Lib.Fair
import CounterDrone.Linearization
import CounterDrone.Wakeups

/-!
# The queue serves its callers

Infinite runs of the monitor in which the threads get the mutex again and again when it is free again and again
(`QueueRun.FairToThreads`). Nobody keeps the mutex for good (`mutex_freed`), so a call that is not blocked and need not
block again returns (`awake_returns`). Which calls these are follows from the wakeups: an item has a consumer on its way to
it, and a stop request wakes the one who waits with its token. Hence (`queue_serves`) an item does not stay while a
consumer waits, a call whose token is stopped returns, and a push into an unbounded queue returns.
-/

namespace CounterDrone

variable {ι α : Type}

/-! ## Steps of threads -/

/-- What a call can return. -/
def QueueReply.Answers : QueueReply α → QueueCall α → Prop
  | .pushed item _, .push item' => item = item'
  | .popped _, .pop => True
  | _, _ => False

theorem refused_answers (call : QueueCall α) : call.refused.Answers call := by
  cases call with
  | push item => exact rfl
  | pop => trivial

/-- The return of a push brings no item. -/
theorem push_not_popped {e : Event ι α} {item : α} (h : e.outcome.Answers (.push item)) : e.popped? = none := by
  unfold Event.popped?
  split
  · rename_i ho
    rw [ho] at h
    cases h
  · rfl

/-- The call of a thread with this number has returned. -/
def Monitor.Returned (m : Monitor ι α) (i : ι) (call : QueueCall α) (id : Nat) : Prop :=
  ∃ e ∈ m.trace, e.thread = i ∧ e.id = id ∧ e.outcome.Answers call

theorem NotifyOne.thread [DecidableEq ι] {c : Condition} {f g : ι → Thread α} (h : NotifyOne c f g) (j : ι) :
    g j = f j ∨ g j = (f j).wake := by
  cases h with
  | none => exact Or.inl rfl
  | one i hi =>
    by_cases hij : j = i
    · subst hij
      exact Or.inr (Function.update_self ..)
    · exact Or.inl (Function.update_of_ne hij ..)

/-- The thread that returns is not among those notified. -/
theorem NotifyOne.idle [DecidableEq ι] {c : Condition} {f g : ι → Thread α} {i : ι}
    (h : NotifyOne c (Function.update f i .idle) g) : g i = .idle := by
  rcases h.thread i with hi | hi
  · rw [hi, Function.update_self]
  · rw [hi, Function.update_self]
    rfl

/-- Somebody can be notified, or nobody is blocked. -/
theorem exists_notifyOne [DecidableEq ι] (c : Condition) (f : ι → Thread α) : ∃ g, NotifyOne c f g := by
  by_cases h : ∃ i, (f i).blockedOn c
  · obtain ⟨i, hi⟩ := h
    exact ⟨_, .one i hi⟩
  · exact ⟨f, .none (not_exists.mp h)⟩

/-- Where a waiter is after a notification. -/
def Point.After (point point' : Point) : Prop := point' = point ∨ (point = .blocked ∧ point' = .woken)

theorem wake_active (call : QueueCall α) (id : Nat) (stop : Bool) (point : Point) :
    ∃ point', (Thread.active call id stop point).wake = .active call id stop point' ∧ point.After point' := by
  cases point with
  | blocked => exact ⟨.woken, rfl, Or.inr ⟨rfl, rfl⟩⟩
  | entering | woken | passed => exact ⟨_, rfl, Or.inl rfl⟩

theorem wakeAll_thread (c : Condition) (f : ι → Thread α) (j : ι) : wakeAll c f j = f j ∨ wakeAll c f j = (f j).wake := by
  unfold wakeAll
  split
  · exact Or.inr rfl
  · exact Or.inl rfl

section Steps

variable {m m' : Monitor ι α} {j : ι} {call : QueueCall α} {id : Nat} {stop : Bool} {point : Point}

/-- What a step can do to a thread in a call. -/
inductive ThreadEffect (m m' : Monitor ι α) (j : ι) (call : QueueCall α) (id : Nat) (stop : Bool) (point : Point) : Prop
  | returns (hthread : m'.threads j = .idle) (hreturned : m'.Returned j call id)
  | passes (hp : point = .entering ∨ point = .woken) (hthread : m'.threads j = .active call id stop .passed)
  | blocks (hp : point = .entering ∨ point = .woken) (hstop : stop = false) (hready : ¬call.Ready m.queue)
      (hthread : m'.threads j = .active call id stop .blocked)
  | waits (stop' : Bool) (point' : Point) (hstop : stop = true → stop' = true) (hpoint : point.After point')
      (hthread : m'.threads j = .active call id stop' point')

/-- The thread is only notified. -/
theorem ThreadEffect.notified (hj : m.threads j = .active call id stop point)
    (h : m'.threads j = m.threads j ∨ m'.threads j = (m.threads j).wake) :
    ThreadEffect m m' j call id stop point := by
  rw [hj] at h
  rcases h with h | h
  · exact .waits stop point (fun h => h) (Or.inl rfl) h
  · obtain ⟨point', hw, hpoint⟩ := wake_active call id stop point
    exact .waits stop point' (fun h => h) hpoint (h.trans hw)

variable [DecidableEq ι]

/-- An iteration of the loop of a wait. -/
theorem ThreadEffect.check (hp : point = .entering ∨ point = .woken) :
    ThreadEffect m (m.check j call id stop) j call id stop point := by
  unfold Monitor.check
  rcases call.wait_spec m.queue stop with ⟨hw, -⟩ | ⟨hw, -, -⟩ | ⟨hw, hstop, hready⟩
  · rw [hw]
    exact .passes hp (Function.update_self ..)
  · rw [hw]
    exact .returns (Function.update_self ..) ⟨_, List.mem_append_right _ List.mem_cons_self, rfl, rfl, refused_answers call⟩
  · rw [hw]
    exact .blocks hp hstop hready (Function.update_self ..)

/-- **What a step does to a thread in a call**: the call returns, goes past its wait, blocks, or is notified or stopped. -/
theorem MonitorStep.thread_cases (hs : MonitorStep m m') (hj : m.threads j = .active call id stop point) :
    ThreadEffect m m' j call id stop point := by
  have hother : ∀ {i : ι} {t : Thread α}, i ≠ j → Function.update m.threads i t j = m.threads j :=
    fun hij => Function.update_of_ne hij.symm ..
  cases hs with
  | @begins i hi call' stop' =>
    have hij : i ≠ j := by
      rintro rfl
      rw [hi] at hj
      cases hj
    exact .notified hj (Or.inl (hother hij))
  | @requestStop i call' id' point' hi =>
    by_cases hij : i = j
    · subst hij
      obtain ⟨rfl, rfl, rfl, rfl⟩ : call = call' ∧ id = id' ∧ stop = false ∧ point = point' := by
        rw [hi] at hj
        cases hj
        exact ⟨rfl, rfl, rfl, rfl⟩
      have hset : (m.setThread i (.active call id true point)).threads i = .active call id true point :=
        Function.update_self ..
      unfold Monitor.requestStop
      simp only
      split
      · rcases wakeAll_thread call.waitsOn (m.setThread i (.active call id true point)).threads i with h | h
        · exact .waits true point nofun (Or.inl rfl) (h.trans hset)
        · obtain ⟨point', hw, hpoint⟩ := wake_active call id true point
          exact .waits true point' nofun hpoint (h.trans ((congrArg Thread.wake hset).trans hw))
      · exact .waits true point nofun (Or.inl rfl) hset
    · have hset : (m.setThread i (.active call' id' true point')).threads j = m.threads j := hother hij
      unfold Monitor.requestStop
      simp only
      split
      · refine .notified hj ?_
        rw [← hset]
        exact wakeAll_thread _ _ j
      · exact .notified hj (Or.inl hset)
  | @spurious i call' id' stop' hi =>
    by_cases hij : i = j
    · subst hij
      rw [hi] at hj
      cases hj
      exact .waits stop .woken (fun h => h) (Or.inr ⟨rfl, rfl⟩) (Function.update_self ..)
    · exact .notified hj (Or.inl (hother hij))
  | @check i call' id' stop' point' hi hp hfree =>
    by_cases hij : i = j
    · subst hij
      rw [hi] at hj
      cases hj
      exact .check hp
    · refine .notified hj (Or.inl ?_)
      unfold Monitor.check
      split <;> exact hother hij
  | @refuses i item id' hi =>
    by_cases hij : i = j
    · subst hij
      rw [hi] at hj
      cases hj
      exact .returns (Function.update_self ..) ⟨_, List.mem_append_right _ List.mem_cons_self, rfl, rfl, rfl⟩
    · exact .notified hj (Or.inl (hother hij))
  | @stores i item id' threads hi hn =>
    by_cases hij : i = j
    · subst hij
      rw [hi] at hj
      cases hj
      exact .returns hn.idle ⟨_, List.mem_append_right _ List.mem_cons_self, rfl, rfl, rfl⟩
    · refine .notified hj ?_
      rw [← hother (t := .idle) hij]
      exact hn.thread j
  | @takes i item rest id' stop' threads hi hq hn =>
    by_cases hij : i = j
    · subst hij
      rw [hi] at hj
      cases hj
      exact .returns hn.idle ⟨_, List.mem_append_right _ List.mem_cons_self, rfl, rfl, trivial⟩
    · refine .notified hj ?_
      rw [← hother (t := .idle) hij]
      exact hn.thread j

end Steps

section Idle

variable [DecidableEq ι] {m m' : Monitor ι α} {j : ι}

/-- A thread that is in no call stays so or begins one. -/
theorem MonitorStep.idle_cases (hs : MonitorStep m m') (hj : m.threads j = .idle) :
    m'.threads j = .idle ∨ ∃ call id stop, m'.threads j = .active call id stop .entering := by
  have hother : ∀ {i : ι} {t u : Thread α}, m.threads i = u → u ≠ .idle → Function.update m.threads i t j = .idle := by
    intro i t u hi hu
    rw [Function.update_of_ne, hj]
    rintro rfl
    exact hu (hi.symm.trans hj)
  have hnotified : ∀ {c : Condition} {f g : ι → Thread α}, f j = .idle → NotifyOne c f g → g j = .idle := by
    intro c f g hf hn
    rcases hn.thread j with h | h
    · rw [h, hf]
    · rw [h, hf]
      rfl
  cases hs with
  | @begins i hi call stop =>
    by_cases hij : j = i
    · subst hij
      exact Or.inr ⟨call, m.calls, stop, Function.update_self ..⟩
    · exact Or.inl ((Function.update_of_ne hij ..).trans hj)
  | @requestStop i call id point hi =>
    left
    have hset : (m.setThread i (.active call id true point)).threads j = .idle := hother hi nofun
    unfold Monitor.requestStop
    simp only
    split
    · rcases wakeAll_thread call.waitsOn (m.setThread i (.active call id true point)).threads j with h | h
      · exact h.trans hset
      · exact h.trans (congrArg Thread.wake hset)
    · exact hset
  | spurious hi => exact Or.inl (hother hi nofun)
  | check hi =>
    left
    unfold Monitor.check
    split <;> exact hother hi nofun
  | refuses hi => exact Or.inl (hother hi nofun)
  | stores hi hn | takes hi _ hn => exact Or.inl (hnotified (hother hi nofun) hn)

/-- Who returns, and from which call. -/
theorem MonitorStep.return_call (hs : MonitorStep m m') {e : Event ι α} (htrace : m'.trace = m.trace ++ [e]) :
    ∃ call stop point, m.threads e.thread = .active call e.id stop point ∧ e.outcome.Answers call := by
  have hquiet : m'.trace ≠ m.trace := by
    rw [htrace]
    simp
  cases hs with
  | begins | spurious => exact absurd rfl hquiet
  | requestStop =>
    refine absurd ?_ hquiet
    unfold Monitor.requestStop
    simp only
    split <;> rfl
  | @check i call id stop point hi hp hfree =>
    unfold Monitor.check at htrace hquiet
    split at htrace
    · exact absurd htrace.symm (by simp [Monitor.setThread])
    · obtain rfl : _ = e := List.singleton_injective (List.append_cancel_left htrace)
      exact ⟨call, stop, point, hi, refused_answers call⟩
    · exact absurd htrace.symm (by simp [Monitor.setThread])
  | @refuses i item id hi =>
    obtain rfl : _ = e := List.singleton_injective (List.append_cancel_left htrace)
    exact ⟨_, _, _, hi, rfl⟩
  | @stores i item id threads hi hn =>
    obtain rfl : _ = e := List.singleton_injective (List.append_cancel_left htrace)
    exact ⟨_, _, _, hi, rfl⟩
  | @takes i item rest id stop threads hi hq hn =>
    obtain rfl : _ = e := List.singleton_injective (List.append_cancel_left htrace)
    exact ⟨_, _, _, hi, trivial⟩

end Idle

/-! ## The mutex is given up -/

section Mutex

variable [DecidableEq ι] {maxSize : Nat} {m m' : Monitor ι α} {i : ι}

/-- A step gives up the mutex, takes it, or leaves it where it is; then no call returns. -/
theorem MonitorStep.mutex_cases (hs : MonitorStep m m') :
    m'.mutex = none ∨
      (m.mutex = none ∧ ∃ i call id stop, m'.mutex = some i ∧ m'.threads i = .active call id stop .passed) ∨
      (m'.mutex = m.mutex ∧ m'.trace = m.trace) := by
  cases hs with
  | begins | spurious => exact Or.inr (Or.inr ⟨rfl, rfl⟩)
  | requestStop =>
    unfold Monitor.requestStop
    simp only
    split <;> exact Or.inr (Or.inr ⟨rfl, rfl⟩)
  | @check i call id stop point hi hp hfree =>
    unfold Monitor.check
    split
    · exact Or.inr (Or.inl ⟨hfree, i, call, id, stop, rfl, Function.update_self ..⟩)
    · exact Or.inl rfl
    · exact Or.inr (Or.inr ⟨rfl, rfl⟩)
  | refuses | stores | takes => exact Or.inl rfl

/-- A call that is going on has not returned. -/
theorem not_returned (hm : (monitorSystem ι α maxSize).Reachable m) {call : QueueCall α} {id : Nat} {stop : Bool}
    {point : Point} (hi : m.threads i = .active call id stop point) : ¬m.Returned i call id := by
  rintro ⟨e, he, -, hid, -⟩
  exact ((reachable_numbered hm).fresh i id (by rw [Monitor.ids, hi]; rfl) e he).1 hid

/-- The thread with the mutex is past its wait. -/
theorem reachable_held (hm : (monitorSystem ι α maxSize).Reachable m) :
    m.mutex = some i → ∃ call id stop, m.threads i = .active call id stop .passed := by
  refine hm.invariant (I := fun m => m.mutex = some i → ∃ call id stop, m.threads i = .active call id stop .passed) ?_ ?_
  · intro m hm hi
    rw [hm.mutex] at hi
    cases hi
  · intro m m' hm ih hs hi
    rcases hs.mutex_cases with hnone | ⟨-, j, call, id, stop, hj, ht⟩ | ⟨hsame, htrace⟩
    · rw [hnone] at hi
      cases hi
    · obtain rfl : j = i := Option.some.inj (hj.symm.trans hi)
      exact ⟨call, id, stop, ht⟩
    · -- it only stops being past its wait when it returns
      obtain ⟨call, id, stop, ht⟩ := ih (hsame.symm.trans hi)
      rcases hs.thread_cases ht with ⟨-, hreturned⟩ | ⟨hp, -⟩ | ⟨hp, -⟩ | ⟨stop', point', -, hpoint, ht'⟩
      · rw [Monitor.Returned, htrace] at hreturned
        exact absurd hreturned (not_returned hm ht)
      · rcases hp with hp | hp <;> cases hp
      · rcases hp with hp | hp <;> cases hp
      · rcases hpoint with rfl | ⟨hb, -⟩
        · exact ⟨call, id, stop', ht'⟩
        · cases hb

/-- A step that a thread makes in its call: with the mutex, it checks once more, or it goes on past its wait. -/
def Monitor.Moves (m : Monitor ι α) (i : ι) (m' : Monitor ι α) : Prop :=
  MonitorStep m m' ∧ ∃ call id stop point, m.threads i = .active call id stop point ∧
    ((point = .entering ∨ point = .woken) ∧ m' = m.check i call id stop ∨ point = .passed ∧ m'.threads i = .idle)

/-- A thread past its wait can always go on. -/
theorem Locked.moves (h : Locked m) {call : QueueCall α} {id : Nat} {stop : Bool}
    (hi : m.threads i = .active call id stop .passed) : ∃ m', m.Moves i m' := by
  cases call with
  | push item =>
    cases stop with
    | true => exact ⟨_, .refuses hi, _, _, _, _, hi, Or.inr ⟨rfl, Function.update_self ..⟩⟩
    | false =>
      obtain ⟨threads, hn⟩ := exists_notifyOne .notEmpty (Function.update m.threads i .idle)
      exact ⟨_, .stores hi hn, _, _, _, _, hi, Or.inr ⟨rfl, hn.idle⟩⟩
  | pop =>
    obtain ⟨item, rest, hq⟩ := List.exists_cons_of_ne_nil (h i .pop id stop hi).2
    obtain ⟨threads, hn⟩ := exists_notifyOne .notFull (Function.update m.threads i .idle)
    exact ⟨_, .takes hi hq hn, _, _, _, _, hi, Or.inr ⟨rfl, hn.idle⟩⟩

end Mutex

/-! ## Fair runs -/

section Runs

variable [DecidableEq ι] {maxSize : Nat}

/-- A step of a thread in its call, or any other step: a call begins, a token is stopped, a waiter wakes for no reason. -/
def QueueStep (a : Option ι) (m m' : Monitor ι α) : Prop := MonitorStep m m' ∧ ∀ i, a = some i → m.Moves i m'

/-- The infinite runs of a queue. -/
abbrev QueueRun (ι α : Type) [DecidableEq ι] (maxSize : Nat) := Run (monitorSystem ι α maxSize).init (QueueStep (α := α))

/-- A thread can make a step in its call. -/
def Monitor.CanMove (a : Option ι) (m : Monitor ι α) : Prop := ∃ i m', a = some i ∧ m.Moves i m'

/-- A thread that can make a step again and again makes one, again and again. -/
def QueueRun.FairToThreads (r : QueueRun ι α maxSize) : Prop := ∀ i, r.StronglyFair Monitor.CanMove (some i)

variable {r : QueueRun ι α maxSize} {k : Nat}

theorem QueueRun.reachable (r : QueueRun ι α maxSize) (k : Nat) : (monitorSystem ι α maxSize).Reachable (r.state k) :=
  Run.reachable r (fun _ h => h) (fun _ _ _ h => h.1) k

/-- A moment without a step, or a step. -/
theorem QueueRun.next (r : QueueRun ι α maxSize) (k : Nat) :
    r.state (k + 1) = r.state k ∨ MonitorStep (r.state k) (r.state (k + 1)) := by
  cases ha : r.actor k with
  | none => exact Or.inl (r.idle_state ha)
  | some a => exact Or.inr (r.step_state ha).1

/-- A mutex that is held is kept or given up. -/
theorem QueueRun.mutex_next {i : ι} (hi : (r.state k).mutex = some i) :
    (r.state (k + 1)).mutex = none ∨ (r.state (k + 1)).mutex = some i := by
  rcases r.next k with he | hs
  · rw [he]
    exact Or.inr hi
  · rcases hs.mutex_cases with hnone | ⟨hfree, -⟩ | ⟨hsame, -⟩
    · exact Or.inl hnone
    · rw [hi] at hfree
      cases hfree
    · exact Or.inr (hsame.trans hi)

/-- **The mutex is free again and again.** -/
theorem mutex_freed (hfair : r.FairToThreads) (k : Nat) : ∃ k', k ≤ k' ∧ (r.state k').mutex = none := by
  cases hm : (r.state k).mutex with
  | none => exact ⟨k, le_rfl, hm⟩
  | some i =>
    have hpast : ∀ k, (r.state k).mutex = some i → ∃ call id stop, (r.state k).threads i = .active call id stop .passed :=
      fun k => reachable_held (r.reachable k)
    have h : r.Descends Monitor.CanMove (some i) (fun _ => 0) (fun k => (r.state k).mutex = some i)
        (fun k => (r.state k).mutex = none) := by
      refine ⟨?_, ?_, ?_⟩
      · intro k hk _
        obtain ⟨call, id, stop, ht⟩ := hpast k hk
        obtain ⟨m', hmoves⟩ := (reachable_locked (r.reachable k)).moves ht
        exact ⟨i, m', rfl, hmoves⟩
      · -- its own step is the return
        intro k hk _ ha
        obtain ⟨call, id, stop, ht⟩ := hpast k hk
        obtain ⟨-, call', id', stop', point, ht', hcases⟩ := (r.step_state ha).2 i rfl
        rw [ht] at ht'
        cases ht'
        obtain ⟨hp, -⟩ | ⟨-, hidle⟩ := hcases
        · rcases hp with hp | hp <;> cases hp
        · left
          rcases QueueRun.mutex_next hk with hnone | hsome
          · exact hnone
          · obtain ⟨call, id, stop, ht'⟩ := hpast (k + 1) hsome
            rw [hidle] at ht'
            cases ht'
      · intro k hk _ _
        rcases QueueRun.mutex_next hk with hnone | hsome
        · exact Or.inl hnone
        · exact Or.inr ⟨hsome, le_rfl⟩
    exact (hfair i).fair.eventually h hm

/-! ## Calls return -/

variable {j : ι} {call : QueueCall α} {id : Nat} {stop : Bool} {point : Point}

/-- A call is going on, awake, and need not block again: it is ready for good, or its token is stopped. -/
def Monitor.Awake (m : Monitor ι α) (j : ι) (call : QueueCall α) (id : Nat) (ready : Prop) : Prop :=
  ∃ stop point, m.threads j = .active call id stop point ∧ point ≠ .blocked ∧ (ready ∨ stop = true)

/-- How many steps a call that is awake has to make. -/
def Thread.left : Thread α → Nat
  | idle => 0
  | active _ _ _ .passed => 1
  | active _ _ _ _ => 2

section Awake

variable {m m' : Monitor ι α} {ready : Prop}

/-- A step of any thread. -/
theorem MonitorStep.awake (hs : MonitorStep m m') (h : m.Awake j call id ready) (hready : ready → call.Ready m.queue) :
    m'.Returned j call id ∨ (m'.Awake j call id ready ∧ (m'.threads j).left ≤ (m.threads j).left) := by
  obtain ⟨stop, point, ht, hawake, hgood⟩ := h
  rcases hs.thread_cases ht with
    ⟨-, hreturned⟩ | ⟨hp, ht'⟩ | ⟨hp, hstop, hnot, ht'⟩ | ⟨stop', point', hstop, hpoint, ht'⟩
  · exact Or.inl hreturned
  · refine Or.inr ⟨⟨stop, .passed, ht', by simp, hgood⟩, ?_⟩
    rw [ht, ht']
    rcases hp with rfl | rfl <;> simp [Thread.left]
  · rcases hgood with hgood | hgood
    · exact absurd (hready hgood) hnot
    · exact absurd (hgood.symm.trans hstop) (by simp)
  · obtain rfl : point' = point := hpoint.resolve_right fun hb => hawake hb.1
    refine Or.inr ⟨⟨stop', point', ht', hawake, hgood.imp_right hstop⟩, ?_⟩
    rw [ht, ht']
    cases point' <;> exact le_rfl

/-- A step that the thread makes in its call. -/
theorem Monitor.Moves.awake (hmoves : m.Moves j m') (h : m.Awake j call id ready) (hready : ready → call.Ready m.queue) :
    m'.Returned j call id ∨ (m'.Awake j call id ready ∧ (m'.threads j).left < (m.threads j).left) := by
  obtain ⟨hs, call', id', stop, point, ht, hcases⟩ := hmoves
  obtain ⟨stop', point', ht', hawake, hgood⟩ := h
  obtain ⟨rfl, rfl, rfl, rfl⟩ : call' = call ∧ id' = id ∧ stop' = stop ∧ point' = point := by
    rw [ht] at ht'
    cases ht'
    exact ⟨rfl, rfl, rfl, rfl⟩
  rcases hcases with ⟨hp, rfl⟩ | ⟨rfl, hidle⟩
  · unfold Monitor.check
    rcases call'.wait_spec m.queue stop' with ⟨hw, -⟩ | ⟨hw, -, -⟩ | ⟨hw, hstop, hnot⟩
    · rw [hw]
      have hpassed : Function.update m.threads j (.active call' id' stop' .passed) j = .active call' id' stop' .passed :=
        Function.update_self ..
      refine Or.inr ⟨⟨stop', .passed, hpassed, by simp, hgood⟩, ?_⟩
      change (Function.update m.threads j (.active call' id' stop' .passed) j).left < (m.threads j).left
      rw [hpassed, ht]
      rcases hp with rfl | rfl <;> simp [Thread.left]
    · rw [hw]
      exact Or.inl ⟨_, List.mem_append_right _ List.mem_cons_self, rfl, rfl, refused_answers call'⟩
    · rcases hgood with hgood | hgood
      · exact absurd (hready hgood) hnot
      · exact absurd (hgood.symm.trans hstop) (by simp)
  · -- past its wait, it returns
    rcases hs.awake ⟨stop', .passed, ht, by simp, hgood⟩ hready with hreturned | ⟨⟨_, _, hactive, -⟩, -⟩
    · exact Or.inl hreturned
    · rw [hidle] at hactive
      cases hactive

end Awake

/-- **A call that is awake and need not block again returns.** -/
theorem awake_returns (hfair : r.FairToThreads) (hj : (r.state k).threads j = .active call id stop point)
    (hawake : point ≠ .blocked) (hready : (∀ k', k ≤ k' → call.Ready (r.state k').queue) ∨ stop = true) :
    ∃ k', k ≤ k' ∧ (r.state k').Returned j call id := by
  have h : r.Lowers (some j) (fun k' => ((r.state k').threads j).left)
      (fun k' => k ≤ k' ∧ (r.state k').Awake j call id (∀ k', k ≤ k' → call.Ready (r.state k').queue))
      (fun k' => (r.state k').Returned j call id) := by
    constructor
    · rintro k' ⟨hle, hp⟩ - ha
      exact (((r.step_state ha).2 j rfl).awake hp fun h => h k' hle).imp_right
        fun hnext => ⟨⟨by omega, hnext.1⟩, hnext.2⟩
    · rintro k' ⟨hle, hp⟩ - -
      rcases r.next k' with he | hs
      · exact Or.inr ⟨⟨by omega, by rwa [he]⟩, by rw [he]⟩
      · exact (hs.awake hp fun h => h k' hle).imp_right fun hnext => ⟨⟨by omega, hnext.1⟩, hnext.2⟩
  refine (hfair j).eventually h ?_ ⟨le_rfl, stop, point, hj, hawake, hready⟩
  -- when the mutex is free, it can check
  rintro i ⟨hi, hp⟩
  by_contra hnone
  have hnot : ∀ k', i ≤ k' → ¬(r.state k').Returned j call id := fun k' hik hq => hnone ⟨k', hik, Or.inl hq⟩
  obtain ⟨k', hik, hfree⟩ := mutex_freed hfair i
  obtain ⟨⟨-, stop', point', ht, hawake', -⟩, -⟩ := h.keeps ⟨hi, hp⟩ hnot hik
  refine hnone ⟨k', hik, Or.inr ⟨j, (r.state k').check j call id stop', rfl, ?_⟩⟩
  have hpoint : point' = .entering ∨ point' = .woken := by
    cases point' with
    | entering => exact Or.inl rfl
    | woken => exact Or.inr rfl
    | blocked => exact absurd rfl hawake'
    | passed =>
      have hown := (reachable_locked (r.reachable k') j _ _ _ ht).1
      rw [hfree] at hown
      cases hown
  exact ⟨.check ht hpoint hfree, _, _, _, _, ht, Or.inl ⟨hpoint, rfl⟩⟩

/-! ## Main result -/

/-- In a step nothing returns, or one call does, as an atomic call on the queue. -/
theorem QueueRun.trace_next (r : QueueRun ι α maxSize) (k : Nat) :
    (r.state (k + 1)).trace = (r.state k).trace ∨
      ∃ e, MonitorStep (r.state k) (r.state (k + 1)) ∧ (r.state (k + 1)).trace = (r.state k).trace ++ [e] ∧
        e.before = (r.state k).queue.items ∧ e.Atomic maxSize (r.state (k + 1)).queue.items := by
  rcases r.next k with he | hs
  · exact Or.inl (by rw [he])
  · rcases hs.effect (reachable_locked (r.reachable k)) with
      ⟨-, htrace, -, -⟩ | ⟨_, -, -, htrace, -, -⟩ | ⟨e, -, hbefore, hatomic, -, htrace, -, -⟩
    · exact Or.inl htrace
    · exact Or.inl htrace
    · rw [(reachable_linear (r.reachable k)).1] at hatomic
      exact Or.inr ⟨e, hs, htrace, hbefore, hatomic⟩

/-- What has been pushed and popped is not taken back. -/
theorem QueueRun.trace_grows {k' : Nat} (hk : k ≤ k') : (r.state k).trace <+: (r.state k').trace := by
  induction k', hk using Nat.le_induction with
  | base => exact List.prefix_rfl
  | succ k' _ ih =>
    refine ih.trans ?_
    rcases r.trace_next k' with hsame | ⟨e, -, htrace, -⟩
    · rw [hsame]
    · rw [htrace]
      exact List.prefix_append _ _

/-- An item stays until something is popped. -/
theorem QueueRun.items_stay {k' : Nat} (hk : k ≤ k') (hitems : (r.state k).queue.items ≠ [])
    (hpopped : popped (r.state k').trace = popped (r.state k).trace) : (r.state k').queue.items ≠ [] := by
  intro hnone
  have hgrows := (QueueRun.trace_grows (r := r) hk).filterMap Event.committed?
  have hlength := hgrows.length_le
  have hbefore := congrArg List.length (reachable_linear (r.reachable k)).2.fifo
  have hafter := congrArg List.length (reachable_linear (r.reachable k')).2.fifo
  rw [List.length_append, List.length_map, hpopped, hnone, List.length_nil] at hafter
  rw [List.length_append, List.length_map] at hbefore
  have hpos := List.length_pos_of_ne_nil hitems
  simp only [committed] at hbefore hafter
  omega

omit [DecidableEq ι] in
/-- A useful waiter for an item. -/
theorem useful_consumer {t : Thread α} (h : t.useful .notEmpty = true) :
    ∃ id stop point, t = .active .pop id stop point ∧ point ≠ .blocked := by
  have hcall : ∀ {call : QueueCall α}, call.waitsOn = .notEmpty → call = .pop := by
    intro call hc
    cases call with
    | push item => cases hc
    | pop => rfl
  rcases t with _ | ⟨call, id, stop, point⟩
  · cases h
  · cases point with
    | entering | blocked => cases h
    | woken | passed =>
      simp only [Thread.useful, decide_eq_true_eq] at h
      exact ⟨id, stop, _, by rw [hcall h.1], by simp⟩

/-- The step in which a call returns. -/
theorem QueueRun.return_step {k' : Nat} (hk : k ≤ k') (hnot : ¬(r.state k).Returned j call id)
    (hreturned : (r.state k').Returned j call id) :
    ∃ n e, k ≤ n ∧ (r.state (n + 1)).trace = (r.state n).trace ++ [e] ∧ e.before = (r.state n).queue.items ∧
      e.Atomic maxSize (r.state (n + 1)).queue.items ∧ e.thread = j ∧ e.id = id ∧ e.outcome.Answers call := by
  induction k', hk using Nat.le_induction with
  | base => exact absurd hreturned hnot
  | succ n hn ih =>
    by_cases hbefore : (r.state n).Returned j call id
    · exact ih hbefore
    · rcases r.trace_next n with hsame | ⟨e, -, htrace, hb, hatomic⟩
      · rw [Monitor.Returned, hsame] at hreturned
        exact absurd hreturned hbefore
      · obtain ⟨e', he', hfacts⟩ := hreturned
        rw [htrace] at he'
        rcases List.mem_append.mp he' with hold | hnew
        · exact absurd ⟨e', hold, hfacts⟩ hbefore
        · rw [List.mem_singleton.mp hnew] at hfacts
          exact ⟨n, e, hn, htrace, hb, hatomic, hfacts⟩

variable [Fintype ι]

/-- When there is an item and a consumer, a consumer is awake. -/
theorem exists_awake {m : Monitor ι α} (hm : (monitorSystem ι α maxSize).Reachable m) (hitems : m.queue.items ≠ [])
    (hj : m.threads j = .active .pop id stop point) :
    ∃ i id stop point, m.threads i = .active .pop id stop point ∧ point ≠ .blocked := by
  by_cases hb : ∃ i, (m.threads i).blockedOn .notEmpty = true
  · have hpos : 0 < tally (Thread.useful .notEmpty) m.threads :=
      (List.length_pos_of_ne_nil hitems).trans_le (items_covered hm hb)
    obtain ⟨i, hi⟩ := Finset.card_pos.mp hpos
    obtain ⟨id, stop, point, ht, hp⟩ := useful_consumer (Finset.mem_filter.mp hi).2
    exact ⟨i, id, stop, point, ht, hp⟩
  · refine ⟨j, id, stop, point, hj, ?_⟩
    rintro rfl
    exact hb ⟨j, by rw [hj]; rfl⟩

/-- **An item is taken while a consumer waits.** -/
theorem item_taken (hfair : r.FairToThreads) (hj : (r.state k).threads j = .active .pop id stop point)
    (hitems : (r.state k).queue.items ≠ []) : ∃ k', k ≤ k' ∧ popped (r.state k').trace ≠ popped (r.state k).trace := by
  by_contra hnone
  have hsame : ∀ k', k ≤ k' → popped (r.state k').trace = popped (r.state k).trace := by
    intro k' hk
    by_contra hne
    exact hnone ⟨k', hk, hne⟩
  have hstay : ∀ k', k ≤ k' → (r.state k').queue.items ≠ [] := fun k' hk => QueueRun.items_stay hk hitems (hsame k' hk)
  -- a consumer that is awake comes back with an item
  obtain ⟨i, id, stop, point, hi, hawake⟩ := exists_awake (r.reachable k) hitems hj
  obtain ⟨k', hk, hreturned⟩ := awake_returns hfair hi hawake (Or.inl hstay)
  obtain ⟨n, e, hn, htrace, hbefore, hatomic, -, -, hanswers⟩ :=
    QueueRun.return_step hk (not_returned (r.reachable k) hi) hreturned
  have hitem : ∃ item, e.outcome = .popped (some item) := by
    rcases hatomic.cases with ⟨item, ho, -⟩ | ⟨item, ho, -⟩ | ⟨item, ho, -⟩ | ⟨-, -, hempty, -⟩
    · rw [ho] at hanswers
      cases hanswers
    · rw [ho] at hanswers
      cases hanswers
    · exact ⟨item, ho⟩
    · exact absurd (hbefore.symm.trans hempty) (hstay n hn)
  obtain ⟨item, ho⟩ := hitem
  have hgrown : popped (r.state (n + 1)).trace = popped (r.state n).trace ++ [item] := by
    simp [popped, htrace, Event.popped?, ho]
  rw [hsame (n + 1) (by omega), hsame n hn] at hgrown
  exact absurd hgrown (by simp)

/-- **The only consumer gets its item.** -/
theorem consumer_served (hfair : r.FairToThreads) (hj : (r.state k).threads j = .active .pop id stop point)
    (hitems : (r.state k).queue.items ≠ [])
    (honly : ∀ k', k ≤ k' → ∀ i id stop point, (r.state k').threads i = .active .pop id stop point → i = j) :
    ∃ k', k ≤ k' ∧ (r.state k').Returned j .pop id := by
  by_contra hnone
  have hnot : ∀ k', k ≤ k' → ¬(r.state k').Returned j .pop id := fun k' hk h => hnone ⟨k', hk, h⟩
  have hstill : ∀ k', k ≤ k' → ∃ stop point, (r.state k').threads j = .active .pop id stop point := by
    intro k' hk
    induction k', hk using Nat.le_induction with
    | base => exact ⟨stop, point, hj⟩
    | succ n hn ih =>
      obtain ⟨stop, point, ht⟩ := ih
      rcases r.next n with he | hs
      · rw [he]
        exact ⟨stop, point, ht⟩
      · rcases hs.thread_cases ht with ⟨-, hreturned⟩ | ⟨-, ht'⟩ | ⟨-, -, -, ht'⟩ | ⟨stop', point', -, -, ht'⟩
        · exact absurd hreturned (hnot (n + 1) (by omega))
        · exact ⟨_, _, ht'⟩
        · exact ⟨_, _, ht'⟩
        · exact ⟨_, _, ht'⟩
  -- so nothing is popped
  have hsame : ∀ k', k ≤ k' → popped (r.state k').trace = popped (r.state k).trace := by
    intro k' hk
    induction k', hk using Nat.le_induction with
    | base => rfl
    | succ n hn ih =>
      rw [← ih]
      rcases r.trace_next n with hquiet | ⟨e, hs, htrace, -⟩
      · rw [hquiet]
      · obtain ⟨call, stop, point, ht, hanswers⟩ := hs.return_call htrace
        cases call with
        | push item => simp [popped, htrace, push_not_popped hanswers]
        | pop =>
          -- it would be the return of the consumer
          obtain rfl : e.thread = j := honly n hn _ _ _ _ ht
          obtain ⟨stop', point', ht'⟩ := hstill n hn
          obtain rfl : e.id = id := by
            rw [ht] at ht'
            cases ht'
            rfl
          refine absurd ⟨e, ?_, rfl, rfl, hanswers⟩ (hnot (n + 1) (by omega))
          rw [htrace]
          exact List.mem_append_right _ List.mem_cons_self
  obtain ⟨k', hk, hne⟩ := item_taken hfair hj hitems
  exact hne (hsame k' hk)

omit [Fintype ι] in
/-- A push into an unbounded queue does not block. -/
theorem unbounded_push {m : Monitor ι α} (hm : (monitorSystem ι α 0).Reachable m) :
    ∀ j item id stop, m.threads j ≠ .active (.push item) id stop .blocked := by
  refine hm.invariant (I := fun m => ∀ j item id stop, m.threads j ≠ .active (.push item) id stop .blocked) ?_ ?_
  · intro m hm j item id stop
    rw [hm.threads j]
    nofun
  · intro m m' hm ih hs j item id stop hb
    cases ht : m.threads j with
    | idle =>
      rcases hs.idle_cases ht with h | ⟨_, _, _, h⟩ <;> rw [h] at hb <;> cases hb
    | active call' id' stop' point =>
      rcases hs.thread_cases ht with ⟨h, -⟩ | ⟨-, h⟩ | ⟨-, -, hready, h⟩ | ⟨stop'', point', -, hpoint, h⟩
      · rw [h] at hb
        cases hb
      · rw [h] at hb
        cases hb
      · rw [h] at hb
        cases hb
        exact hready (Or.inl (reachable_linear hm).1)
      · rw [h] at hb
        cases hb
        rcases hpoint with hp | ⟨-, hp⟩
        · exact ih j item id stop' (hp ▸ ht)
        · cases hp

end Runs

/-- **The queue serves its callers.** In every run of a queue of any capacity, with any calls of any number of threads, in
which the threads get the mutex again and again when it is free again and again: while a thread is in `pop` and there is an
item, another item is popped, and it is this thread that gets one if no other thread pops; a call whose token is stopped
returns; and a push into an unbounded queue returns. -/
theorem queue_serves (ι α : Type) [Fintype ι] [DecidableEq ι] (maxSize : Nat) (r : QueueRun ι α maxSize)
    (hfair : r.FairToThreads) (k : Nat) (j : ι) (id : Nat) (point : Point) :
    (∀ stop, (r.state k).threads j = .active .pop id stop point → (r.state k).queue.items ≠ [] →
      (∃ k', k ≤ k' ∧ (popped (r.state k).trace).length < (popped (r.state k').trace).length) ∧
      ((∀ k', k ≤ k' → ∀ i id stop point, (r.state k').threads i = .active .pop id stop point → i = j) →
        ∃ k', k ≤ k' ∧ (r.state k').Returned j .pop id)) ∧
    (∀ call, (r.state k).threads j = .active call id true point → ∃ k', k ≤ k' ∧ (r.state k').Returned j call id) ∧
    (maxSize = 0 → ∀ item stop, (r.state k).threads j = .active (.push item) id stop point →
      ∃ k', k ≤ k' ∧ (r.state k').Returned j (.push item) id) := by
  refine ⟨?_, ?_, ?_⟩
  · intro stop hj hitems
    refine ⟨?_, consumer_served hfair hj hitems⟩
    obtain ⟨k', hk, hne⟩ := item_taken hfair hj hitems
    have hgrows := (QueueRun.trace_grows (r := r) hk).filterMap Event.popped?
    refine ⟨k', hk, lt_of_le_of_ne hgrows.length_le ?_⟩
    intro hlength
    exact hne (hgrows.eq_of_length hlength).symm
  · intro call hj
    refine awake_returns hfair hj ?_ (Or.inr rfl)
    rintro rfl
    exact absurd (reachable_unstopped (r.reachable k) j call id true hj) (by simp)
  · rintro rfl item stop hj
    refine awake_returns hfair hj ?_ (Or.inl fun k' _ => Or.inl (reachable_linear (r.reachable k')).1)
    rintro rfl
    exact unbounded_push (r.reachable k) j item id stop hj

/-- A run that ends with no thread in a call is fair. -/
theorem fair_of_idle [DecidableEq ι] {maxSize : Nat} {r : QueueRun ι α maxSize} {N : Nat}
    (h : ∀ k, N ≤ k → ∀ i, (r.state k).threads i = .idle) : r.FairToThreads := by
  intro i hready
  obtain ⟨k, hk, j, m', hj, -, call, id, stop, point, ht, -⟩ := hready N
  rw [h k hk j] at ht
  cases ht

/-- An item has been pushed, and a consumer comes for it. -/
def offered : Monitor (Fin 2) Nat :=
  let m := Monitor.start (Fin 2) Nat 0
  let m := (m.begins 0 (.push 5) false).check 0 (.push 5) 0 false
  let m := m.stores 0 5 0 (Function.update m.threads 0 .idle)
  m.begins 1 .pop false

theorem offered_reachable : (monitorSystem (Fin 2) Nat 0).Reachable offered := by
  have h0 : (monitorSystem (Fin 2) Nat 0).Reachable (Monitor.start (Fin 2) Nat 0) := .init (Monitor.start_initial 0)
  have h1 := h0.step (.begins (i := 0) rfl (.push 5) false)
  have h2 := h1.step (.check (i := 0) rfl (Or.inl rfl) rfl)
  have h3 := h2.step (.stores (i := 0) rfl (.none (by decide)))
  exact h3.step (.begins (i := 1) rfl .pop false)

/-- The consumer takes it. -/
theorem queue_serves_one :
    ∃ (r : QueueRun (Fin 2) Nat 0) (k : Nat), r.FairToThreads ∧ r.state k = offered ∧
      ∃ k', k ≤ k' ∧ (popped (r.state k).trace).length < (popped (r.state k').trace).length := by
  obtain ⟨m, hrun, hidle⟩ : ∃ m, Relation.ReflTransGen (monitorSystem (Fin 2) Nat 0).step offered m ∧
      ∀ i, m.threads i = .idle := by
    have hcheck : MonitorStep offered (offered.check 1 .pop 1 false) := .check rfl (Or.inl rfl) rfl
    have htake : MonitorStep (offered.check 1 .pop 1 false) _ := .takes (i := 1) rfl rfl (.none (by decide))
    refine ⟨_, (Relation.ReflTransGen.single hcheck).tail htake, ?_⟩
    intro i
    fin_cases i <;> rfl
  obtain ⟨r, k, N, -, hk, hlast⟩ : ∃ (r : QueueRun (Fin 2) Nat 0) (k N : Nat), k ≤ N ∧ r.state k = offered ∧
      ∀ i, N ≤ i → r.state i = m ∧ r.actor i = none :=
    Run.exists_through (fun _ _ hs => ⟨none, hs, nofun⟩) offered_reachable hrun
  have hfair : r.FairToThreads := fair_of_idle fun i hi j => by rw [(hlast i hi).1]; exact hidle j
  refine ⟨r, k, hfair, hk, ?_⟩
  refine ((queue_serves (Fin 2) Nat 0 r hfair k 1 1 .entering).1 false ?_ ?_).1
  · rw [hk]
    rfl
  · rw [hk]
    exact List.cons_ne_nil _ _

end CounterDrone

import Mathlib
import CounterDrone.ServerLog

/-!
# Who changes what, and the wake-up of the listener

Each part of the state of the process is changed by one actor only (`ServerStep.other_than_listener` and its siblings), and
a stop token that is stopped stays stopped (`ServerStep.stop_mono`).

The stop of the listener is told to it through the eventfd: `request_stop` sets the flag, and the callback then adds one to
the counter; the callback is called by the thread that requests the stop, or by the listener itself if the stop was
requested before the callback was registered. Under any interleaving of this with the event loop, the listener does not
sleep through it (`shutdown_not_missed`).
-/

namespace CounterDrone

variable {M : SocketModel} {native : Endian} {fmt : Format} {s t : Server M.Socket} {a : Actor}

/-! ## Who changes what -/

/-- What only the listener changes. -/
theorem ServerStep.other_than_listener (h : ServerStep M native fmt a s t) (ha : a ≠ .listener) :
    t.net.control = s.net.control ∧ t.net.kernel.sessions = s.net.kernel.sessions ∧ t.net.queue = s.net.queue ∧
      t.net.listener = s.net.listener ∧ t.running .listener = s.running .listener := by
  cases h with
  | kernel hr hc hopen h =>
    refine ⟨rfl, ?_, rfl, rfl, rfl⟩
    simp [Kernel.sessions, hc]
  | launch | listener => exact absurd rfl ha
  | startParser | startLogic | parser | logic | logger | main | wake => exact ⟨rfl, rfl, rfl, rfl, rfl⟩

/-- What only the parser changes. -/
theorem ServerStep.other_than_parser (h : ServerStep M native fmt a s t) (ha : a ≠ .parser) :
    t.pipeline.parserControl = s.pipeline.parserControl ∧ t.pipeline.chunksHandled = s.pipeline.chunksHandled ∧
      t.running .parser = s.running .parser := by
  cases h with
  | startParser | parser => exact absurd rfl ha
  | logic hr hstep hmoves =>
    obtain ⟨-, hparser, -, -, -, hhandled, -⟩ := hstep.of_logic hmoves
    exact ⟨hparser, hhandled, rfl⟩
  | launch | startLogic | kernel | listener | logger | main | wake => exact ⟨rfl, rfl, rfl⟩

/-- What only the logic changes. -/
theorem ServerStep.other_than_logic (h : ServerStep M native fmt a s t) (ha : a ≠ .logic) :
    t.pipeline.logicControl = s.pipeline.logicControl ∧ t.pipeline.packetsHandled = s.pipeline.packetsHandled ∧
      t.running .logic = s.running .logic := by
  cases h with
  | startLogic | logic => exact absurd rfl ha
  | parser hr hstep hmoves =>
    obtain ⟨-, hlogic, -, -, -, hhandled⟩ := hstep.of_parser hmoves
    exact ⟨hlogic, hhandled, rfl⟩
  | launch | startParser | kernel | listener | logger | main | wake => exact ⟨rfl, rfl, rfl⟩

/-- What only `main` changes. -/
theorem ServerStep.other_than_main (h : ServerStep M native fmt a s t) (ha : a ≠ .main) :
    t.main = s.main ∧ t.wakePending = s.wakePending ∧ t.loggerStop = s.loggerStop ∧ ∀ p, t.stop p = s.stop p := by
  have hstops : t.net.stopRequested = s.net.stopRequested → t.pipeline.parserStop = s.pipeline.parserStop →
      t.pipeline.logicStop = s.pipeline.logicStop → ∀ p, t.stop p = s.stop p := by
    intro h₁ h₂ h₃ p
    cases p with
    | listener => exact h₁
    | parser => exact h₂
    | logic => exact h₃
  cases h with
  | main | wake => exact absurd rfl ha
  | kernel | startParser | startLogic => exact ⟨rfl, rfl, rfl, hstops rfl rfl rfl⟩
  | launch hr port server epoll =>
    exact ⟨rfl, rfl, rfl, hstops (setup_stopRequested port s.net server epoll) rfl rfl⟩
  | listener hr hstep hmoves => exact ⟨rfl, rfl, rfl, hstops (hstep.grows_of_moves hmoves).stop rfl rfl⟩
  | parser hr hstep hmoves =>
    obtain ⟨-, -, hstop, hlstop, -⟩ := hstep.of_parser hmoves
    exact ⟨rfl, rfl, rfl, hstops rfl hstop hlstop⟩
  | logic hr hstep hmoves =>
    obtain ⟨-, -, hstop, hlstop, -⟩ := hstep.of_logic hmoves
    exact ⟨rfl, rfl, rfl, hstops rfl hstop hlstop⟩
  | logger hstep =>
    have hmain := loggerStep_stops hstep
    refine ⟨?_, rfl, ?_, ?_⟩
    · cases hstep <;> rfl
    · cases hstep <;> rfl
    · apply hstops
      · exact congrFun hmain .listener
      · exact congrFun hmain .parser
      · exact congrFun hmain .logic

/-- What `main` does: the callback, or a step of the shutdown sequence. -/
theorem ServerStep.main_cases (h : ServerStep M native fmt .main s t) :
    (s.wakePending = true ∧ t = s.wake) ∨
      (s.wakePending = false ∧ ∃ b, MainStep s.logging b ∧
        t = { s.moveLogging b with
          wakePending := s.running .listener && !s.net.stopRequested && b.stops .listener }) := by
  cases h with
  | wake hw => exact Or.inl ⟨hw, rfl⟩
  | main hstep hcalled => exact Or.inr ⟨hcalled, _, hstep, rfl⟩

/-- A stop token that is stopped stays stopped. -/
theorem ServerStep.stop_mono (h : ServerStep M native fmt a s t) (p : Producer) (hp : s.stop p = true) :
    t.stop p = true := by
  by_cases ha : a = .main
  · subst ha
    rcases h.main_cases with ⟨-, rfl⟩ | ⟨-, b, hstep, rfl⟩
    · cases p <;> exact hp
    · have hb : b.stops p = true := mainStep_stop_mono hstep hp
      cases p <;> exact hb
  · rw [(h.other_than_main ha).2.2.2 p]
    exact hp

/-! ## The eventfd -/

/-- The events that the loop still has to dispatch. -/
def Control.batch : Control → List EpollEvent
  | .dispatching events => events
  | .accepting events => events
  | .draining _ events => events
  | .disconnecting _ events => events
  | .loop => []
  | .polling => []
  | .finished => []

section Batch

variable {n n' : Net M.Socket}

/-- The dispatch of an event takes it from the batch; where it is the eventfd's, the loop is over. -/
theorem dispatch_batch (n : Net M.Socket) (event : EpollEvent) (rest : List EpollEvent) :
    (dispatch n event rest).control.batch ⊆ rest ∧
      (event.fd = n.listener.eventFd.fd → (dispatch n event rest).control = .finished) := by
  unfold dispatch
  split
  · exact ⟨List.nil_subset _, fun _ => rfl⟩
  rename_i hne
  split
  · exact ⟨List.Subset.refl _, fun h => absurd h hne⟩
  split
  · exact ⟨List.Subset.refl _, fun h => absurd h hne⟩
  split
  · exact ⟨List.Subset.refl _, fun h => absurd h hne⟩
  · exact ⟨List.Subset.refl _, fun h => absurd h hne⟩

/-- The loop of `handle_accept` goes on, or the dispatch of the events behind it. -/
theorem handleAccept_control (n : Net M.Socket) {rest : List EpollEvent} (hc : n.control = .accepting rest)
    (accepted : AcceptResult M.Socket) (nonblocking added : Except String Unit) :
    (handleAccept n rest accepted nonblocking added).control = .accepting rest ∨
      (handleAccept n rest accepted nonblocking added).control = .dispatching rest := by
  have hemplace : ∀ (n : Net M.Socket) (fd : Int) (h : SocketHandle), (n.emplace fd h).control = n.control := by
    intro n fd h
    unfold Net.emplace
    split <;> rfl
  cases accepted with
  | wouldBlock => exact Or.inr rfl
  | error what => exact Or.inr rfl
  | connection fd addr socket =>
    cases nonblocking with
    | error what => exact Or.inl hc
    | ok _ =>
      cases added with
      | error what => exact Or.inl hc
      | ok _ => exact Or.inl ((hemplace _ fd ⟨fd⟩).trans hc)

/-- **Where the events of a batch come from**: from the batch before, or from `epoll_wait`. -/
theorem ListenerStep.batch_cases (h : ListenerStep M n n') :
    n'.control.batch ⊆ n.control.batch ∨ (n.control = .polling ∧ ∃ events, n'.control = .dispatching events) := by
  cases h with
  | evolve | requestStop => exact Or.inl (List.Subset.refl _)
  | test hc =>
    refine Or.inl ?_
    rw [Net.goto]
    split <;> exact List.nil_subset _
  | interrupted => exact Or.inl (List.nil_subset _)
  | pollError => exact Or.inl (List.nil_subset _)
  | poll hc => exact Or.inr ⟨hc, _, rfl⟩
  | @dispatch event rest hc =>
    rw [hc]
    exact Or.inl (List.Subset.trans (dispatch_batch n event rest).1 (List.subset_cons_self _ _))
  | batchDone => exact Or.inl (List.nil_subset _)
  | accept hc accepted nonblocking added =>
    refine Or.inl ?_
    rw [hc]
    rcases handleAccept_control n hc accepted nonblocking added with he | he
    · rw [he]
      exact List.Subset.refl _
    · rw [he]
      exact List.Subset.refl _
  | @recv fd rest hc result k hr =>
    rw [hc]
    cases result with
    | data | closed | wouldBlock | error => exact Or.inl (List.Subset.refl _)
  | disconnect hc =>
    rw [hc]
    exact Or.inl (List.Subset.refl _)

/-- The dispatch of an event of the eventfd ends the loop. -/
theorem ListenerStep.shutdown_event (h : ListenerStep M n n')
    (hmoves : n'.control ≠ n.control ∨ n'.kernel.sessions ≠ n.kernel.sessions) {event : EpollEvent}
    {rest : List EpollEvent} (hc : n.control = .dispatching (event :: rest)) (hfd : event.fd = n.listener.eventFd.fd) :
    n'.control = .finished := by
  cases h with
  | evolve hconn hopen h =>
    rcases hmoves with hne | hne
    · exact absurd rfl hne
    · exact absurd (by simp [Kernel.sessions, hconn]) hne
  | requestStop => exact (hmoves.elim (fun h => h rfl) fun h => h rfl).elim
  | dispatch hd =>
    rw [hc] at hd
    cases hd
    exact (dispatch_batch n event rest).2 hfd
  | test hd | interrupted hd | pollError hd | poll hd | batchDone hd | accept hd | recv hd | disconnect hd =>
    rw [hc] at hd
    cases hd

end Batch

/-- How the flag, the callback and the counter of the eventfd fit together. -/
structure WakeInv (s : Server M.Socket) : Prop where
  /-- before its set-up the listener has no eventfd -/
  unlaunched : s.running .listener = false → s.eventCount = 0 ∧ s.wakePending = false
  /-- a callback that has not been called yet is the one of a stop request, and the only one -/
  pending : s.wakePending = true → s.net.stopRequested = true ∧ s.eventCount = 0
  counted : 0 < s.eventCount → s.net.stopRequested = true ∧ s.eventCount = 1
  /-- an event of the eventfd is in a batch only while the counter has not been read -/
  reported : (∃ e ∈ s.net.control.batch, e.fd = s.net.listener.eventFd.fd) → 0 < s.eventCount
  woken : s.running .listener = true → s.net.stopRequested = true → s.wakePending = false → s.net.control ≠ .finished →
    0 < s.eventCount

namespace WakeInv

/-- A step of another actor than the listener and `main`. -/
theorem frame (h : WakeInv s) (hcontrol : t.net.control = s.net.control) (hlistener : t.net.listener = s.net.listener)
    (hrunning : t.running .listener = s.running .listener) (hstop : t.net.stopRequested = s.net.stopRequested)
    (hpending : t.wakePending = s.wakePending) (hcount : t.eventCount = s.eventCount) : WakeInv t := by
  obtain ⟨h₁, h₂, h₃, h₄, h₅⟩ := h
  constructor
  all_goals rw [hcount]
  · rwa [hrunning, hpending]
  · rwa [hpending, hstop]
  · rwa [hstop]
  · rwa [hcontrol, hlistener]
  · rwa [hrunning, hstop, hpending, hcontrol]

/-- A step of the listener. -/
theorem listener (h : WakeInv s) {n : Net M.Socket} (hr : s.running .listener = true) (hstep : ListenerStep M s.net n)
    (hmoves : n.control ≠ s.net.control ∨ n.kernel.sessions ≠ s.net.kernel.sessions) (hready : EventReady s n) :
    WakeInv { s.moveNet n with eventCount := countAfter s } := by
  have hgrows := hstep.grows_of_moves hmoves
  by_cases hread : ∃ event rest, s.net.control = .dispatching (event :: rest) ∧ event.fd = s.net.listener.eventFd.fd
  · -- the shutdown event: the counter is read, and the loop is over
    obtain ⟨event, rest, hc, hfd⟩ := hread
    have hzero : countAfter s = 0 := by simp [countAfter, hc, hfd]
    have hfinished := hstep.shutdown_event hmoves hc hfd
    have hstop := (h.counted (h.reported ⟨event, by rw [hc]; exact List.mem_cons_self, hfd⟩)).1
    rw [hzero]
    refine ⟨?_, ?_, ?_, ?_, ?_⟩
    · intro hf
      exact absurd (hr.symm.trans hf) (by simp)
    · exact fun hp => ⟨hgrows.stop.trans hstop, rfl⟩
    · intro hpos
      exact absurd hpos (by simp)
    · rintro ⟨e, he, -⟩
      simp only [Server.moveNet, hfinished] at he
      cases he
    · exact fun _ _ _ hne => absurd hfinished hne
  · have hsame : countAfter s = s.eventCount := by
      unfold countAfter
      split
      · rename_i event rest hc
        exact if_neg fun hfd => hread ⟨event, rest, hc, hfd⟩
      · rfl
    rw [hsame]
    refine ⟨?_, ?_, ?_, ?_, ?_⟩
    · intro hf
      exact absurd (hr.symm.trans hf) (by simp)
    · intro hp
      exact ⟨hgrows.stop.trans (h.pending hp).1, (h.pending hp).2⟩
    · intro hpos
      exact ⟨hgrows.stop.trans (h.counted hpos).1, (h.counted hpos).2⟩
    · rintro ⟨e, he, hfd⟩
      have hfd' : e.fd = s.net.listener.eventFd.fd := hfd.trans (congrArg SocketHandle.fd hgrows.eventFd)
      rcases hstep.batch_cases with hsub | ⟨hp, events, hd⟩
      · exact h.reported ⟨e, hsub he, hfd'⟩
      · refine hready hp events hd ⟨e, ?_, hfd'⟩
        simpa [Server.moveNet, hd, Control.batch] using he
    · intro _ hs hp _
      exact h.woken hr (hgrows.stop.symm.trans hs) hp (hstep.control_ne hmoves)

/-- The set-up of the listener: the callback is called at once if the stop has been requested. -/
theorem launch (h : WakeInv s) (hr : s.running .listener = false) {n : Net M.Socket} (hn : n.Launched)
    (hstop : n.stopRequested = s.net.stopRequested) :
    WakeInv { s.moveNet n with
      running := Function.update s.running .listener true
      eventCount := if s.net.stopRequested then 1 else 0 } := by
  have hloop : n.control = .loop := hn.toInitial.control
  refine ⟨?_, ?_, ?_, ?_, ?_⟩
  · intro hf
    simp at hf
  · intro hp
    exact absurd ((h.unlaunched hr).2.symm.trans hp) (by simp)
  · intro hpos
    simp only at hpos ⊢
    split at hpos
    · rename_i hs
      exact ⟨hstop.trans hs, by rw [if_pos hs]⟩
    · cases hpos
  · rintro ⟨e, he, -⟩
    simp only [Server.moveNet, hloop] at he
    cases he
  · intro _ hs _ _
    simp only
    rw [if_pos (hstop.symm.trans hs)]
    exact Nat.one_pos

/-- A step of the shutdown sequence, when no callback is pending. -/
theorem main (h : WakeInv s) (hcalled : s.wakePending = false) {b : Logging} (hstep : MainStep s.logging b) :
    WakeInv { s.moveLogging b with
      wakePending := s.running .listener && !s.net.stopRequested && b.stops .listener } := by
  cases hs : s.net.stopRequested with
  | true =>
    have hkept : b.stops .listener = true := mainStep_stop_mono hstep hs
    refine ⟨?_, ?_, ?_, h.reported, ?_⟩
    · exact fun hf => ⟨(h.unlaunched hf).1, by simp⟩
    · intro hp
      simp at hp
    · exact fun hpos => ⟨hkept, (h.counted hpos).2⟩
    · exact fun hr _ _ hne => h.woken hr hs hcalled hne
  | false =>
    -- the stop may just have been requested; nobody has written to the eventfd
    have hzero : s.eventCount = 0 := by
      by_contra hne
      exact absurd (hs.symm.trans (h.counted (Nat.pos_of_ne_zero hne)).1) (by simp)
    refine ⟨?_, ?_, ?_, h.reported, ?_⟩
    · intro hf
      exact ⟨hzero, by simp [show s.running .listener = false from hf]⟩
    · intro hp
      simp only [Bool.and_eq_true] at hp
      exact ⟨hp.2, hzero⟩
    · intro hpos
      exact absurd hzero (Nat.pos_iff_ne_zero.mp hpos)
    · intro hr hb hp _
      simp only [show s.running .listener = true from hr, show b.stops .listener = true from hb] at hp
      cases hp

/-- Every step keeps the invariant. -/
theorem step (h : WakeInv s) (hinv : ServerInv M native s) (hs : ServerStep M native fmt a s t) : WakeInv t := by
  cases hs with
  | kernel | startParser | startLogic => exact h.frame rfl rfl rfl rfl rfl rfl
  | launch hr port server epoll hout hok =>
    have hlaunched := ((setup_owning port (hinv.unlaunched hr) hout).2 hok).1
    exact h.launch hr hlaunched (setup_stopRequested port s.net server epoll)
  | listener hr hstep hmoves hready => exact h.listener hr hstep hmoves hready
  | parser | logic => exact h.frame rfl rfl rfl rfl rfl rfl
  | logger hstep => exact h.frame rfl rfl rfl (congrFun (loggerStep_stops hstep) .listener) rfl rfl
  | main hstep hcalled => exact h.main hcalled hstep
  | wake hw =>
    obtain ⟨hstop, hzero⟩ := h.pending hw
    have hr : s.running .listener = true := by
      by_contra hne
      exact absurd ((h.unlaunched (Bool.eq_false_of_not_eq_true hne)).2.symm.trans hw) (by simp)
    refine ⟨?_, ?_, ?_, ?_, ?_⟩
    · intro hf
      exact absurd (hr.symm.trans hf) (by simp)
    · intro hp
      cases hp
    · exact fun _ => ⟨hstop, by simp [Server.wake, hzero]⟩
    · exact fun _ => Nat.succ_pos _
    · exact fun _ _ _ _ => Nat.succ_pos _

end WakeInv

/-- The invariant holds throughout every run. -/
theorem reachable_wake (hs : (serverSystem M native fmt).Reachable s) : WakeInv s := by
  refine hs.invariant (I := WakeInv) ?_ ?_
  · rintro s ⟨n, hn, -, -, rfl⟩
    refine ⟨fun _ => ⟨rfl, rfl⟩, by simp, by simp, ?_, by simp⟩
    rintro ⟨e, he, -⟩
    simp only [hn.control] at he
    cases he
  · rintro s t hs h ⟨a, hstep⟩
    exact h.step (reachable_server hs) hstep

/-- **The listener does not miss its shutdown.** At every moment of every run of the server, whenever the stop of a listener
that runs has been requested and the callback is no longer pending, the counter of the eventfd is 1 until the listener
has left its loop: `epoll_wait` has an event to report, even if the stop came before the callback was registered, or
between the test of the flag and the call of `epoll_wait`. Conversely the counter is never written, and the shutdown event
never in a batch, before the stop has been requested. -/
theorem shutdown_not_missed (M : SocketModel) (native : Endian) (fmt : Format) (s : Server M.Socket)
    (hs : (serverSystem M native fmt).Reachable s) :
    (s.running .listener = true → s.net.stopRequested = true → s.wakePending = false → s.net.control ≠ .finished →
      s.eventCount = 1) ∧
    (s.net.stopRequested = false → s.eventCount = 0 ∧ s.wakePending = false ∧
      ∀ e ∈ s.net.control.batch, e.fd ≠ s.net.listener.eventFd.fd) := by
  have h := reachable_wake hs
  refine ⟨fun hr hstop hcalled hne => (h.counted (h.woken hr hstop hcalled hne)).2, ?_⟩
  intro hstop
  have hzero : ¬0 < s.eventCount := fun hpos => absurd (hstop.symm.trans (h.counted hpos).1) (by simp)
  refine ⟨Nat.eq_zero_of_not_pos hzero, ?_, ?_⟩
  · by_contra hne
    exact absurd (hstop.symm.trans (h.pending (Bool.eq_true_of_not_eq_false hne)).1) (by simp)
  · exact fun e he hfd => hzero (h.reported ⟨e, he, hfd⟩)

/-- The stop is requested before the listener has begun: its set-up finds the flag and writes to the eventfd. -/
theorem shutdown_not_missed_early :
    ∃ s, (serverSystem receiveBuffers .little blankFormat).Reachable s ∧ s.net.stopRequested = true ∧
      s.net.control = .loop ∧ s.eventCount = 1 := by
  have hinit : (serverSystem receiveBuffers .little blankFormat).Reachable { net := beforeRun, pipeline := { logic := {} } } :=
    .init ⟨beforeRun, beforeRun_unlaunched, rfl, rfl, rfl⟩
  have hsignal := hinit.step ⟨_, .main (.signal rfl) rfl⟩
  have hstop := hsignal.step ⟨_, .main (.requestStop rfl) rfl⟩
  have hlaunch := hstop.step ⟨_, .launch rfl 9000 servingCalls pollingCalls (handedOut_beforeRun (.ok ())) rfl⟩
  exact ⟨_, hlaunch, rfl, rfl,
    (shutdown_not_missed receiveBuffers .little blankFormat _ hlaunch).1 rfl rfl rfl (fun h => by cases h)⟩

end CounterDrone

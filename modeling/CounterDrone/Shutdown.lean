import Mathlib
import CounterDrone.Liveness

/-!
# The shutdown

When the signal has come, `main` stops and joins the threads one after the other. In every run that is fair to the threads
each `join` returns, and with it the whole shutdown (`shutdown_completes`): the listener because its event loop, once stopped
and woken, only has the rest of a batch to dispatch (`listener_returns`); the parser and the logic because they test their
stop token after at most one more chunk or packet (`parser_returns`, `logic_returns`); the logger because nobody pushes to
its queue any more (`logger_returns_fair`).

The loops of `handle_accept` and `handle_client_data` do not test the stop token. That they come to an end rests on the
peers: they connect and send only so often.
-/

namespace CounterDrone

variable {M : SocketModel} {native : Endian} {fmt : Format} {s t : Server M.Socket} {a : Actor}

/-! ## Threads that have returned -/

/-- The actor that a thread is. -/
def Producer.actor : Producer → Actor
  | .listener => .listener
  | .parser => .parser
  | .logic => .logic

theorem listener_returned : s.producer .listener = .returned ↔ s.net.control = .finished ∧ s.net.stopRequested = true := by
  by_cases hc : s.net.control = .finished
  · simp [Server.producer, hc]
  · simp [listener_running hc, hc]

theorem parser_returned : s.producer .parser = .returned ↔ s.pipeline.parserControl = .finished := by
  by_cases hc : s.pipeline.parserControl = .finished
  · simp [Server.producer, hc]
  · simp [parser_running hc, hc]

theorem logic_returned : s.producer .logic = .returned ↔ s.pipeline.logicControl = .finished := by
  by_cases hc : s.pipeline.logicControl = .finished
  · simp [Server.producer, hc]
  · simp [logic_running hc, hc]

/-- A thread that has returned makes no further step. -/
theorem ServerStep.not_returned (h : ServerStep M native fmt a s t) (hinv : ServerInv M native s) {p : Producer}
    (hp : s.producer p = .returned) : a ≠ p.actor := by
  rintro rfl
  cases p with
  | listener =>
    have hc := (listener_returned.mp hp).1
    cases h with
    | launch hr =>
      rw [(hinv.unlaunched hr).control] at hc
      cases hc
    | listener hr hstep hmoves => exact hstep.control_ne hmoves hc
  | parser =>
    have hc := parser_returned.mp hp
    cases h with
    | startParser hr =>
      rw [hinv.parserIdle hr] at hc
      cases hc
    | parser hr hstep hmoves =>
      rcases hstep.parser_cases hmoves with ⟨h, _⟩ | ⟨h, _⟩ | ⟨chunk, h, _⟩ | ⟨chunk, _, _, h, _⟩
      · rw [h] at hc
        cases hc
      · rw [h] at hc
        cases hc
      · rw [hc] at h
        cases h
      · exact h hc
  | logic =>
    have hc := logic_returned.mp hp
    cases h with
    | startLogic hr =>
      rw [hinv.logicIdle hr] at hc
      cases hc
    | logic hr hstep hmoves =>
      rcases hstep.logic_cases hmoves with ⟨h, _⟩ | ⟨h, _⟩ | ⟨telemetry, h, _⟩ | ⟨telemetry, h, _⟩
      all_goals
        rw [h] at hc
        cases hc

/-- A thread that has returned stays so. -/
theorem ServerStep.returned_stable (h : ServerStep M native fmt a s t) (hinv : ServerInv M native s) {p : Producer}
    (hp : s.producer p = .returned) : t.producer p = .returned := by
  have ha := h.not_returned hinv hp
  cases p with
  | listener =>
    obtain ⟨hc, hstop⟩ := listener_returned.mp hp
    exact listener_returned.mpr ⟨(h.other_than_listener ha).1.trans hc, h.stop_mono .listener hstop⟩
  | parser => exact parser_returned.mpr ((h.other_than_parser ha).1.trans (parser_returned.mp hp))
  | logic => exact logic_returned.mpr ((h.other_than_logic ha).1.trans (logic_returned.mp hp))

/-- A thread that has begun stays so. -/
theorem ServerStep.running_mono (h : ServerStep M native fmt a s t) {p : Producer} (hp : s.running p = true) :
    t.running p = true := by
  have hupdate : ∀ q, Function.update s.running q true p = true := by
    intro q
    by_cases hq : p = q
    · rw [hq, Function.update_self]
    · rwa [Function.update_of_ne hq]
  cases h with
  | launch | startParser | startLogic => exact hupdate _
  | kernel | listener | parser | logic | logger | main | wake => exact hp

/-- A step of the listener when it has begun. -/
theorem ServerStep.listener_cases (h : ServerStep M native fmt .listener s t) (hr : s.running .listener = true) :
    t.running .listener = true ∧ ListenerStep M s.net t.net ∧
      (t.net.control ≠ s.net.control ∨ t.net.kernel.sessions ≠ s.net.kernel.sessions) := by
  cases h with
  | launch hf => exact absurd (hr.symm.trans hf) (by simp)
  | listener _ hstep hmoves => exact ⟨hr, hstep, hmoves⟩

/-- The logger moves only by its own steps. -/
theorem ServerStep.other_than_logger (h : ServerStep M native fmt a s t) (ha : a ≠ .logger) : t.logger = s.logger := by
  cases h with
  | logger => exact absurd rfl ha
  | main hstep => cases hstep <;> rfl
  | kernel | launch | listener | startParser | startLogic | parser | logic | wake => rfl

/-- A logger that has been stopped stays so. -/
theorem ServerStep.loggerStop_mono (h : ServerStep M native fmt a s t) (hstop : s.loggerStop = true) :
    t.loggerStop = true := by
  by_cases ha : a = .main
  · subst ha
    rcases h.main_cases with ⟨-, rfl⟩ | ⟨-, b, hmain, rfl⟩
    · exact hstop
    · cases hmain with
      | requestStopLogger => rfl
      | signal | requestStop | join | joinLogger => exact hstop
  · rw [(h.other_than_main ha).2.2.1, hstop]

/-- A logger that has returned stays so. -/
theorem ServerStep.logger_stable (h : ServerStep M native fmt a s t) (hr : s.logger = .returned) : t.logger = .returned := by
  by_cases ha : a = .logger
  · subst ha
    cases h with
    | logger hstep =>
      cases hstep with
      | drained => rfl
      | test h | pop h | stopped h | write h | drain h | drainWrite h =>
        have h : s.logger = _ := h
        rw [hr] at h
        cases h
  · rw [h.other_than_logger ha, hr]

/-! ## The event loop -/

/-- The chunks pushed and the connections accepted so far. -/
def Net.traffic {σ : Type} (n : Net σ) : Nat := n.queue.length + n.kernel.connections.length

/-- How far a stopped listener is from the end of its loop, as long as nothing is accepted or received: what is left of a
batch, with three steps an event at most. -/
def Control.distance : Control → Nat
  | .finished => 0
  | .loop => 1
  | .dispatching events => 2 + 3 * events.length
  | .accepting events => 3 + 3 * events.length
  | .disconnecting _ events => 3 + 3 * events.length
  | .draining _ events => 4 + 3 * events.length
  | .polling => 3 + 3 * MAX_EPOLL_EVENTS

section Loop

variable {σ : Type}

/-- Nothing was accepted or received and the distance is smaller, or something was. -/
def Net.Descends (n n' : Net σ) : Prop :=
  n.traffic ≤ n'.traffic ∧ (n.traffic < n'.traffic ∨ n'.control.distance < n.control.distance)

theorem length_updateBound (fd : Int) (g : Connection × σ → Connection × σ) (cs : List (Connection × σ)) :
    (updateBound fd g cs).length = cs.length :=
  List.length_map _

theorem traffic_destroy (n : Net σ) (h : SocketHandle) : (n.destroy h).traffic = n.traffic := by
  rw [Net.destroy, SocketHandle.destroy]
  split
  · simp [Net.traffic, Kernel.close, length_updateBound]
  · rfl

theorem traffic_erase (n : Net σ) (fd : Int) : (n.erase fd).traffic = n.traffic := by
  unfold Net.erase
  split
  · rfl
  · exact traffic_destroy n _

theorem traffic_emplace (n : Net σ) (fd : Int) (h : SocketHandle) : (n.emplace fd h).traffic = n.traffic := by
  unfold Net.emplace
  split
  · rfl
  · exact traffic_destroy n _

/-- A disconnect pushes a chunk. -/
theorem traffic_disconnectClient (n : Net σ) (fd : Int) (control : Control) :
    ((disconnectClient n fd).goto control).traffic = n.traffic + 1 := by
  have herase := traffic_erase { n with kernel := n.kernel.epollDel fd } fd
  have hpush : ∀ m : Net σ, (m.push ⟨fd, []⟩).traffic = m.traffic + 1 := by
    intro m
    simp only [Net.traffic, Net.push, List.length_append, List.length_singleton]
    omega
  exact (hpush _).trans (congrArg (· + 1) herase)

theorem dispatch_descends {n : Net σ} {event : EpollEvent} {rest : List EpollEvent}
    (hc : n.control = .dispatching (event :: rest)) : n.Descends (dispatch n event rest) := by
  have hnow : n.control.distance = 5 + 3 * rest.length := by
    rw [hc]
    simp only [Control.distance, List.length_cons]
    omega
  have hto : ∀ control : Control, control.distance < 5 + 3 * rest.length → n.Descends (n.goto control) :=
    fun control hlt => ⟨le_rfl, Or.inr (hlt.trans_eq hnow.symm)⟩
  have hend : Control.distance .finished < n.control.distance := by
    rw [hnow, Control.distance]
    omega
  unfold dispatch
  split
  · exact ⟨le_rfl, Or.inr hend⟩
  split
  · exact hto _ (by simp only [Control.distance]; omega)
  split
  · have h := traffic_disconnectClient n event.fd (.dispatching rest)
    exact ⟨by omega, Or.inl (by omega)⟩
  split
  · exact hto _ (by simp only [Control.distance]; omega)
  · exact hto _ (by simp only [Control.distance]; omega)

theorem handleAccept_descends {n : Net σ} {rest : List EpollEvent} (hc : n.control = .accepting rest)
    (accepted : AcceptResult σ) (nonblocking added : Except String Unit) :
    n.Descends (handleAccept n rest accepted nonblocking added) := by
  have hdone : Control.distance (.dispatching rest) < n.control.distance := by
    rw [hc]
    simp only [Control.distance]
    omega
  cases accepted with
  | wouldBlock => exact ⟨le_rfl, Or.inr hdone⟩
  | error what => exact ⟨le_rfl, Or.inr hdone⟩
  | connection fd addr socket =>
    -- a connection more, whatever becomes of it
    have hone : ∀ m : Net σ, m.traffic = n.traffic + 1 → n.Descends m := by
      intro m h
      exact ⟨by omega, Or.inl (by omega)⟩
    have haccept : n.queue.length + (n.kernel.accept fd socket).connections.length = n.traffic + 1 := by
      simp only [Kernel.accept, Net.traffic, List.length_append, List.length_singleton]
      omega
    apply hone
    cases nonblocking with
    | error what => exact (traffic_destroy _ _).trans haccept
    | ok _ =>
      cases added with
      | error what => exact (traffic_destroy _ _).trans haccept
      | ok _ =>
        refine (traffic_destroy _ _).trans ((traffic_emplace _ _ _).trans ?_)
        simpa [Net.traffic, Net.pushLog, Kernel.epollAdd, length_updateBound] using haccept

/-- **Every step of a stopped event loop brings it nearer to its end, or accepts or receives something.** -/
theorem ListenerStep.descends {n n' : Net M.Socket} (h : ListenerStep M n n')
    (hmoves : n'.control ≠ n.control ∨ n'.kernel.sessions ≠ n.kernel.sessions) (hstop : n.stopRequested = true) :
    n.Descends n' := by
  cases h with
  | evolve hconn hopen h =>
    rcases hmoves with hne | hne
    · exact absurd rfl hne
    · exact absurd (by simp [Kernel.sessions, hconn]) hne
  | requestStop => exact (hmoves.elim (fun h => h rfl) fun h => h rfl).elim
  | test hc =>
    refine ⟨le_rfl, Or.inr ?_⟩
    rw [hc, hstop]
    exact Nat.zero_lt_one
  | interrupted hc =>
    refine ⟨le_rfl, Or.inr ?_⟩
    rw [hc]
    exact (by decide : Control.distance .loop < Control.distance .polling)
  | pollError hc what =>
    refine ⟨le_rfl, Or.inr ?_⟩
    rw [hc]
    exact Nat.succ_pos _
  | poll hc hlen =>
    refine ⟨le_rfl, Or.inr ?_⟩
    rw [hc]
    simp only [Net.goto, Control.distance]
    omega
  | dispatch hc => exact dispatch_descends hc
  | batchDone hc =>
    refine ⟨le_rfl, Or.inr ?_⟩
    rw [hc]
    exact Nat.lt_succ_self 1
  | accept hc accepted nonblocking added => exact handleAccept_descends hc accepted nonblocking added
  | @recv fd rest hc result k hr =>
    have hconn : k.connections.length = n.kernel.connections.length := by
      cases hr with
      | bound => exact length_updateBound _ _ _
      | unbound => rfl
    have hkept : ({ n with kernel := k } : Net M.Socket).traffic = n.traffic := by
      simp only [Net.traffic, hconn]
    have hleft : Control.distance (.disconnecting fd rest) < n.control.distance ∧
        Control.distance (.dispatching rest) < n.control.distance := by
      rw [hc]
      simp only [Control.distance]
      omega
    cases result with
    | data bytes =>
      have hpush : (handleClientData { n with kernel := k } fd rest (.data bytes)).traffic = n.traffic + 1 := by
        simp only [handleClientData, Net.push, Net.traffic, List.length_append, List.length_singleton, hconn]
        omega
      exact ⟨by omega, Or.inl (by omega)⟩
    | closed => exact ⟨hkept.ge, Or.inr hleft.1⟩
    | wouldBlock => exact ⟨hkept.ge, Or.inr hleft.2⟩
    | error what => exact ⟨hkept.ge, Or.inr hleft.1⟩
  | @disconnect fd rest hc =>
    have h := traffic_disconnectClient n fd (.dispatching rest)
    exact ⟨by omega, Or.inl (by omega)⟩

/-- `recv` on a socket that does not block returns, whatever the state of the socket. -/
def SocketModel.Nonblocking (M : SocketModel) : Prop := ∀ socket, ∃ result socket', M.recv socket result socket'

theorem receiveBuffers_nonblocking : receiveBuffers.Nonblocking := by
  intro b
  cases hu : b.unread with
  | cons byte rest => exact ⟨_, _, .data b [byte] rest hu (by simp) (by simp [RECV_BUF_SIZE])⟩
  | nil =>
    cases he : b.ended with
    | none => exact ⟨_, _, .wouldBlock b hu he⟩
    | some e =>
      cases e with
      | closed => exact ⟨_, _, .closed b hu he⟩
      | error what => exact ⟨_, _, .error b what hu he⟩

/-- A `recv` is a step of the event loop. -/
theorem exists_recvStep (hM : M.Nonblocking) {n : Net M.Socket} {fd : Int} {rest : List EpollEvent}
    (hc : n.control = .draining fd rest) :
    ∃ n', ListenerStep M n n' ∧ (n'.control ≠ n.control ∨ n'.kernel.sessions ≠ n.kernel.sessions) := by
  by_cases hbound : ∃ c ∈ n.kernel.connections, c.1.Bound fd
  · obtain ⟨c, hmem, hb⟩ := hbound
    obtain ⟨result, socket, hrecv⟩ := hM c.2
    refine ⟨_, .recv hc (.bound hmem hb hrecv), ?_⟩
    cases result with
    | data bytes =>
      -- the connection has received a chunk more
      refine Or.inr fun he => ?_
      have hsame : (n.kernel.received fd (.data bytes) socket).sessions = n.kernel.sessions := he
      simp only [Kernel.sessions, Kernel.received, updateBound, List.map_map, List.map_inj_left] at hsame
      have hreceived := congrArg (fun c : Connection => c.received.length) (hsame c hmem)
      simp [hb, RecvResult.chunks] at hreceived
    | closed | wouldBlock | error => exact Or.inl (by simp [handleClientData, Net.goto, hc])
  · refine ⟨_, .recv hc (.unbound (fun c hmem hb => hbound ⟨c, hmem, hb⟩) ""), Or.inl ?_⟩
    simp [handleClientData, Net.goto, hc]

/-- A step of the event loop in the process. -/
structure LoopMove (s : Server M.Socket) (n : Net M.Socket) : Prop where
  step : ListenerStep M s.net n
  moves : n.control ≠ s.net.control ∨ n.kernel.sessions ≠ s.net.kernel.sessions
  ready : EventReady s n

theorem LoopMove.of_control {s : Server M.Socket} {n : Net M.Socket} {c : Control} (hstep : ListenerStep M s.net n)
    (hc : s.net.control = c) (hne : n.control ≠ c) (hquiet : c ≠ .polling) : LoopMove s n :=
  ⟨hstep, Or.inl (hc ▸ hne), fun hp => absurd (hc.symm.trans hp) hquiet⟩

theorem dispatch_moves {σ : Type} (n : Net σ) (event : EpollEvent) (rest : List EpollEvent) :
    (dispatch n event rest).control ≠ .dispatching (event :: rest) := by
  unfold dispatch
  split
  · simp [Net.goto]
  split
  · simp [Net.goto]
  split
  · simp [Net.goto]
  split
  · simp [Net.goto]
  · simp [Net.goto]

/-- The event loop makes a step unless it is over. -/
theorem exists_loopMove (hM : M.Nonblocking) {s : Server M.Socket} (hc : s.net.control ≠ .finished) :
    ∃ n, LoopMove s n := by
  cases hcontrol : s.net.control with
  | finished => exact absurd hcontrol hc
  | loop =>
    refine ⟨_, .of_control (.test hcontrol) hcontrol ?_ (by simp)⟩
    simp only [Net.goto]
    split <;> simp
  | polling =>
    refine ⟨_, .interrupted hcontrol, Or.inl (by simp [Net.goto, hcontrol]), ?_⟩
    rintro - events ⟨⟩
  | dispatching events =>
    cases events with
    | nil => exact ⟨_, .of_control (.batchDone hcontrol) hcontrol (by simp [Net.goto]) (by simp)⟩
    | cons event rest => exact ⟨_, .of_control (.dispatch hcontrol) hcontrol (dispatch_moves _ _ _) (by simp)⟩
  | accepting rest =>
    refine ⟨_, .of_control (.accept hcontrol .wouldBlock (.ok ()) (.ok ()) (by simp)) hcontrol ?_ (by simp)⟩
    simp [handleAccept, Net.goto]
  | draining fd rest =>
    obtain ⟨n, hstep, hmoves⟩ := exists_recvStep hM hcontrol
    refine ⟨n, hstep, hmoves, ?_⟩
    intro hp
    rw [hcontrol] at hp
    cases hp
  | disconnecting fd rest => exact ⟨_, .of_control (.disconnect hcontrol) hcontrol (by simp [Net.goto]) (by simp)⟩

/-- The set-up of the listener can succeed: there are descriptors that are not open. -/
theorem exists_launch (n : Net M.Socket) : ∃ server epoll, HandedOut n.kernel.opened server epoll ∧
    (runSetup n 9000 server epoll).1 = .ok () := by
  obtain ⟨top, htop⟩ : ∃ top : Int, ∀ fd ∈ n.kernel.opened, fd ≤ top := n.kernel.opened.bddAbove
  have hfresh : ∀ k : Int, 0 < k → 0 ≤ max top 0 + k ∧ max top 0 + k ∉ n.kernel.opened := by
    intro k hk
    refine ⟨by omega, fun hmem => ?_⟩
    have := htop _ hmem
    omega
  refine ⟨⟨.ok (max top 0 + 1), .ok (), .ok 0, .ok (), .ok (), .ok ()⟩,
    ⟨.ok (max top 0 + 2), .ok (max top 0 + 3), .ok (), .ok ()⟩, ⟨?_, ?_, ?_⟩, rfl⟩
  · rintro fd ⟨⟩
    exact hfresh 1 (by omega)
  · rintro fd ⟨⟩
    exact ⟨(hfresh 2 (by omega)).1, (hfresh 2 (by omega)).2, by simp⟩
  · rintro fd ⟨⟩
    exact ⟨(hfresh 3 (by omega)).1, (hfresh 3 (by omega)).2, by simp, by simp⟩

end Loop

/-! ## The threads return -/

section Returns

variable {r : ServerRun M native fmt} {i : Nat}

/-- The listener begins. -/
theorem listener_begins (hfair : r.FairToAll) (i : Nat) : ∃ j, i ≤ j ∧ (r.state j).running .listener = true := by
  have h : r.Descends (Server.Ready native fmt) .listener (fun _ => 0) (fun _ => True)
      fun j => (r.state j).running .listener = true := by
    refine ⟨?_, ?_, fun _ _ _ _ => Or.inr ⟨trivial, le_rfl⟩⟩
    · intro j _ hq
      obtain ⟨server, epoll, hout, hok⟩ := exists_launch (r.state j).net
      exact ⟨⟨_, .launch (Bool.eq_false_of_not_eq_true hq) 9000 server epoll hout hok⟩, by simp,
        fun _ hr => absurd hr hq, by simp⟩
    · intro j _ hq ha
      have hstep := r.step_state ha
      generalize r.state (j + 1) = t at hstep
      cases hstep with
      | launch => exact Or.inl rfl
      | listener hr => exact absurd hr hq
  exact (hfair .listener).eventually h trivial

/-- While the listener makes no step. -/
theorem ServerRun.listener_kept (hi : r.actor i ≠ some .listener) :
    (r.state (i + 1)).net.control = (r.state i).net.control ∧
      (r.state (i + 1)).net.traffic = (r.state i).net.traffic ∧
      (r.state (i + 1)).running .listener = (r.state i).running .listener := by
  refine ServerRun.kept (R := fun s t => t.net.control = s.net.control ∧ t.net.traffic = s.net.traffic ∧
    t.running .listener = s.running .listener) (fun _ => ⟨rfl, rfl, rfl⟩) ?_ hi
  intro b s t h hb
  obtain ⟨hc, hsessions, hqueue, -, hrunning⟩ := h.other_than_listener hb
  refine ⟨hc, ?_, hrunning⟩
  have hlen := congrArg List.length hsessions
  simp only [Kernel.sessions, List.length_map] at hlen
  rw [Net.traffic, Net.traffic, hqueue, hlen]

/-- The signal has come. -/
theorem ServerRun.signalled {j : Nat} (hij : i ≤ j) (h : (r.state i).main ≠ .waiting) : (r.state j).main ≠ .waiting := by
  refine ServerRun.persists (P := fun s => s.main ≠ .waiting) ?_ hij h
  intro b s t _ hstep hs
  by_cases hb : b = .main
  · subst hb
    rcases hstep.main_cases with ⟨-, rfl⟩ | ⟨-, b, hmain, rfl⟩
    · exact hs
    · cases hmain with
      | @join p => cases p <;> simp [Server.moveLogging, afterJoin]
      | signal | requestStop | requestStopLogger | joinLogger => simp [Server.moveLogging]
  · rwa [(hstep.other_than_main hb).1]

/-- Once the stop has been requested and the callback has been called, there is no other callback. -/
theorem ServerRun.called {j : Nat} (hij : i ≤ j)
    (h : (r.state i).net.stopRequested = true ∧ (r.state i).wakePending = false) :
    (r.state j).net.stopRequested = true ∧ (r.state j).wakePending = false := by
  refine ServerRun.persists (P := fun s => s.net.stopRequested = true ∧ s.wakePending = false) ?_ hij h
  rintro b s t - hstep ⟨hstop, hcalled⟩
  refine ⟨hstep.stop_mono .listener hstop, ?_⟩
  by_cases hb : b = .main
  · subst hb
    rcases hstep.main_cases with ⟨-, rfl⟩ | ⟨-, b, hmain, rfl⟩
    · rfl
    · simp [hstop]
  · rw [(hstep.other_than_main hb).2.1, hcalled]

/-- `main` calls the callback of the listener. -/
theorem callback_called (hfair : r.FairToAll) (hsignal : (r.state i).main ≠ .waiting) :
    ∃ j, i ≤ j ∧ (r.state j).wakePending = false := by
  have h : r.Descends (Server.Ready native fmt) .main (fun _ => 0) (fun j => i ≤ j)
      fun j => (r.state j).wakePending = false := by
    refine ⟨?_, ?_, fun j hij _ _ => Or.inr ⟨by omega, le_rfl⟩⟩
    · intro j hij hq
      exact ⟨⟨_, .wake (Bool.eq_true_of_not_eq_false hq)⟩, by simp, by simp, fun _ => ServerRun.signalled hij hsignal⟩
    · intro j _ hq ha
      rcases (r.step_state ha).main_cases with ⟨-, he⟩ | ⟨hcalled, -⟩
      · rw [he]
        exact Or.inl rfl
      · exact absurd hcalled hq
  exact (hfair .main).eventually h le_rfl

/-- **A stopped listener returns**, if the peers connect and send only so often. -/
theorem listener_returns (hM : M.Nonblocking) (hfair : r.FairToAll) {K : Nat} (hK : ∀ j, (r.state j).net.traffic ≤ K)
    (hsignal : (r.state i).main ≠ .waiting) (hstop : (r.state i).stop .listener = true) :
    ∃ j, i ≤ j ∧ (r.state j).producer .listener = .returned := by
  obtain ⟨i₁, hi₁, hrun⟩ := listener_begins hfair i
  obtain ⟨i₂, hi₂, hcalled⟩ := callback_called hfair (ServerRun.signalled hi₁ hsignal)
  have h : r.Descends (Server.Ready native fmt) .listener
      (fun j => toLex (K - (r.state j).net.traffic, (r.state j).net.control.distance))
      (fun j => i₂ ≤ j ∧ (r.state j).running .listener = true) fun j => (r.state j).net.control = .finished := by
    have hpast : ∀ {j}, i₂ ≤ j → (r.state j).net.stopRequested = true ∧ (r.state j).wakePending = false :=
      fun hj => ServerRun.called hj ⟨ServerRun.stopped (hi₁.trans hi₂) hstop, hcalled⟩
    refine ⟨?_, ?_, ?_⟩
    · rintro j ⟨hj, hrun⟩ hq
      obtain ⟨n, hmove⟩ := exists_loopMove hM hq
      have hwoken := (reachable_wake (ServerRun.reachable r j)).woken hrun (hpast hj).1 (hpast hj).2 hq
      exact ⟨⟨_, .listener hrun hmove.step hmove.moves hmove.ready⟩, by simp, fun _ _ _ => hwoken, by simp⟩
    · rintro j ⟨hj, hrun⟩ hq ha
      obtain ⟨hrun', hstep, hmoves⟩ := (r.step_state ha).listener_cases hrun
      obtain ⟨hle, hdown⟩ := hstep.descends hmoves (hpast hj).1
      have hbound := hK (j + 1)
      refine Or.inr ⟨⟨by omega, hrun'⟩, Prod.Lex.toLex_lt_toLex.mpr ?_⟩
      rcases hdown with hmore | hless
      · exact Or.inl (by simp only; omega)
      · rcases hle.eq_or_lt with heq | hlt
        · exact Or.inr ⟨by rw [heq], hless⟩
        · exact Or.inl (by simp only; omega)
    · rintro j ⟨hj, hrun⟩ hq ha
      obtain ⟨hc, htraffic, hr⟩ := ServerRun.listener_kept ha
      refine Or.inr ⟨⟨by omega, hr.trans hrun⟩, ?_⟩
      rw [hc, htraffic]
  have hrun₂ : (r.state i₂).running .listener = true :=
    ServerRun.persists (P := fun s => s.running .listener = true) (fun _ hstep hr => hstep.running_mono hr) hi₂ hrun
  obtain ⟨j, hj, hfinished⟩ := (hfair .listener).eventually h ⟨le_rfl, hrun₂⟩
  have hij := (hi₁.trans hi₂).trans hj
  exact ⟨j, hij, listener_returned.mpr ⟨hfinished, ServerRun.stopped hij hstop⟩⟩

/-- Every step of a stopped parser brings it nearer to its return. -/
theorem PipelineStep.parser_left_lt {s p : Pipeline} (h : PipelineStep native fmt s p)
    (hmoves : p.parserControl ≠ s.parserControl) (hstop : s.parserStop = true) :
    p.parserControl.left < s.parserControl.left := by
  rcases h.parser_cases hmoves with ⟨hc, hc', -⟩ | ⟨hc, -, -, hc', -⟩ | ⟨chunk, hc, hc', -⟩ | ⟨chunk, -, -, -, hlt, -⟩
  · rw [hc, hc', if_pos hstop]
    exact Prod.Lex.toLex_lt_toLex.mpr (Or.inr ⟨rfl, Nat.zero_lt_one⟩)
  · rw [hc, hc']
    exact Prod.Lex.toLex_lt_toLex.mpr (Or.inl (by simp))
  · rw [hc']
    cases hs : s.parserControl with
    | popped | processing => exact Prod.Lex.toLex_lt_toLex.mpr (Or.inl (by simp))
    | test | popping | finished =>
      rw [hs] at hc
      cases hc
  · exact hlt

/-- **A stopped parser returns.** -/
theorem parser_returns (hfair : r.FairToAll) (hstop : (r.state i).stop .parser = true) :
    ∃ j, i ≤ j ∧ (r.state j).producer .parser = .returned := by
  obtain ⟨i₁, hi₁, hrun⟩ := parser_begins hfair i
  have h : r.Descends (Server.Ready native fmt) .parser (fun j => (r.state j).pipeline.parserControl.left)
      (fun j => i ≤ j ∧ (r.state j).running .parser = true) fun j => (r.state j).pipeline.parserControl = .finished := by
    have hpast : ∀ {j}, i ≤ j → (r.state j).pipeline.parserStop = true := fun hj => ServerRun.stopped hj hstop
    refine ⟨?_, ?_, ?_⟩
    · rintro j ⟨hj, hrun⟩ hq
      obtain ⟨p, hstep, hmoves⟩ := exists_parserStep native fmt hq fun _ => Or.inr (hpast hj)
      exact ⟨⟨_, .parser hrun hstep hmoves⟩, by simp, by simp, by simp⟩
    · rintro j ⟨hj, hrun⟩ hq ha
      obtain ⟨hsame, hstep, hmoves⟩ := (r.step_state ha).parser_cases hrun
      exact Or.inr ⟨⟨by omega, by rw [hsame, hrun]⟩, hstep.parser_left_lt hmoves (hpast hj)⟩
    · rintro j ⟨hj, hrun⟩ hq ha
      obtain ⟨hc, -, hr⟩ := ServerRun.parser_kept ha
      exact Or.inr ⟨⟨by omega, hr.trans hrun⟩, by rw [hc]⟩
  obtain ⟨j, hj, hfinished⟩ := (hfair .parser).eventually h ⟨hi₁, hrun⟩
  exact ⟨j, hi₁.trans hj, parser_returned.mpr hfinished⟩

/-- How far a stopped logic is from its return. -/
def LogicControl.left : LogicControl → Nat
  | .popping => 3
  | .popped _ => 2
  | .test => 1
  | .finished => 0

/-- Every step of a stopped logic brings it nearer to its return. -/
theorem PipelineStep.logic_left_lt {s p : Pipeline} (h : PipelineStep native fmt s p)
    (hmoves : p.logicControl ≠ s.logicControl) (hstop : s.logicStop = true) :
    p.logicControl.left < s.logicControl.left := by
  rcases h.logic_cases hmoves with ⟨hc, hc', -⟩ | ⟨hc, -, -, hc', -⟩ | ⟨telemetry, hc, hc', -⟩ | ⟨telemetry, hc, hc', -⟩
  · rw [hc, hc', if_pos hstop]
    exact Nat.zero_lt_one
  all_goals
    rw [hc, hc']
    simp [LogicControl.left]

/-- **A stopped logic returns.** -/
theorem logic_returns (hfair : r.FairToAll) (hstop : (r.state i).stop .logic = true) :
    ∃ j, i ≤ j ∧ (r.state j).producer .logic = .returned := by
  obtain ⟨i₁, hi₁, hrun⟩ := logic_begins hfair i
  have h : r.Descends (Server.Ready native fmt) .logic (fun j => (r.state j).pipeline.logicControl.left)
      (fun j => i ≤ j ∧ (r.state j).running .logic = true) fun j => (r.state j).pipeline.logicControl = .finished := by
    have hpast : ∀ {j}, i ≤ j → (r.state j).pipeline.logicStop = true := fun hj => ServerRun.stopped hj hstop
    refine ⟨?_, ?_, ?_⟩
    · rintro j ⟨hj, hrun⟩ hq
      obtain ⟨p, hstep, hmoves⟩ := exists_logicStep native fmt hq fun _ => Or.inr (hpast hj)
      exact ⟨⟨_, .logic hrun hstep hmoves⟩, by simp, by simp, by simp⟩
    · rintro j ⟨hj, hrun⟩ hq ha
      obtain ⟨hsame, hstep, hmoves⟩ := (r.step_state ha).logic_cases hrun
      exact Or.inr ⟨⟨by omega, by rw [hsame, hrun]⟩, hstep.logic_left_lt hmoves (hpast hj)⟩
    · rintro j ⟨hj, hrun⟩ hq ha
      obtain ⟨hc, -, hr⟩ := ServerRun.logic_kept ha
      exact Or.inr ⟨⟨by omega, hr.trans hrun⟩, by rw [hc]⟩
  obtain ⟨j, hj, hfinished⟩ := (hfair .logic).eventually h ⟨hi₁, hrun⟩
  exact ⟨j, hi₁.trans hj, logic_returned.mpr hfinished⟩

/-- Every step of a stopped logger brings it nearer to its return. -/
theorem LoggerStep.distance_lt {s t : Logging} (h : LoggerStep s t) (hstop : s.loggerStop = true) :
    t.logger.distance t.queue.items.length < s.logger.distance s.queue.items.length := by
  cases h with
  | test hl =>
    rw [hl]
    simp [hstop, LoggerControl.distance]
  | @pop hl q message hq =>
    rcases ThreadSafeQueue.pop_cases hq with ⟨item, -, hitems, -⟩ | ⟨hnone, -⟩
    · rw [hl, hitems]
      simp only [LoggerControl.distance, List.length_cons]
      omega
    · cases hnone
  | @stopped hl q hq =>
    rcases ThreadSafeQueue.pop_cases hq with ⟨item, hsome, -⟩ | ⟨-, rfl, -⟩
    · cases hsome
    · rw [hl]
      exact Nat.lt_succ_self _
  | write hl =>
    rw [hl]
    exact Nat.lt_succ_self _
  | @drain hl q message hq =>
    rcases ThreadSafeQueue.pop_cases hq with ⟨item, -, hitems, -⟩ | ⟨hnone, -⟩
    · rw [hl, hitems]
      simp only [LoggerControl.distance, List.length_cons]
      omega
    · cases hnone
  | drained hl =>
    rw [hl]
    exact Nat.succ_pos _
  | drainWrite hl =>
    rw [hl]
    exact Nat.lt_succ_self _

/-- When all other threads have returned, nobody pushes to the log queue. -/
theorem ServerStep.log_kept (h : ServerStep M native fmt a s t) (hinv : ServerInv M native s)
    (hall : ∀ p, s.producer p = .returned) (ha : a ≠ .logger) : t.pipeline.log = s.pipeline.log := by
  have hnot : ∀ p : Producer, a ≠ p.actor := fun p => h.not_returned hinv (hall p)
  cases h with
  | launch | listener => exact absurd rfl (hnot .listener)
  | startParser | parser => exact absurd rfl (hnot .parser)
  | startLogic | logic => exact absurd rfl (hnot .logic)
  | logger => exact absurd rfl ha
  | main hstep => cases hstep <;> rfl
  | kernel | wake => rfl

/-- **A stopped logger returns**, when all other threads have. -/
theorem logger_returns_fair (hfair : r.FairToAll) (hstop : (r.state i).loggerStop = true)
    (hall : ∀ p, (r.state i).producer p = .returned) : ∃ j, i ≤ j ∧ (r.state j).logger = .returned := by
  have h : r.Descends (Server.Ready native fmt) .logger
      (fun j => (r.state j).logger.distance (r.state j).pipeline.log.items.length)
      (fun j => i ≤ j) fun j => (r.state j).logger = .returned := by
    have hpast : ∀ {j}, i ≤ j → (r.state j).loggerStop = true ∧ ∀ p, (r.state j).producer p = .returned := by
      intro j hj
      refine ServerRun.persists (P := fun s => s.loggerStop = true ∧ ∀ p, s.producer p = .returned) ?_ hj ⟨hstop, hall⟩
      rintro b s t hs hstep ⟨hstop, hall⟩
      exact ⟨hstep.loggerStop_mono hstop, fun p => hstep.returned_stable (reachable_server hs) (hall p)⟩
    refine ⟨?_, ?_, ?_⟩
    · intro j hj hq
      obtain ⟨l, hstep, -⟩ := logger_progress (s := (r.state j).logging) (hpast hj).1 hq
      exact ⟨⟨_, .logger hstep⟩, by simp, by simp, by simp⟩
    · intro j hj hq ha
      refine Or.inr ⟨by omega, ?_⟩
      have hstep := r.step_state ha
      generalize r.state (j + 1) = t at hstep
      cases hstep with
      | logger hstep => exact hstep.distance_lt (hpast hj).1
    · intro j hj hq ha
      obtain ⟨hlogger, hlog⟩ := ServerRun.kept (a := .logger)
        (R := fun s t => (serverSystem M native fmt).Reachable s → (∀ p, s.producer p = .returned) →
          t.logger = s.logger ∧ t.pipeline.log = s.pipeline.log)
        (fun _ _ _ => ⟨rfl, rfl⟩)
        (fun h hb hs hall => ⟨h.other_than_logger hb, h.log_kept (reachable_server hs) hall hb⟩) ha
        (ServerRun.reachable r j) (hpast hj).2
      exact Or.inr ⟨by omega, by rw [hlogger, hlog]⟩
  exact (hfair .logger).eventually h le_rfl

end Returns

/-! ## `main` -/

/-- How many steps of the shutdown sequence are left. -/
def MainControl.rank : MainControl → Nat
  | waiting => 9
  | stopping .listener => 8
  | joining .listener => 7
  | stopping .parser => 6
  | joining .parser => 5
  | stopping .logic => 4
  | joining .logic => 3
  | stoppingLogger => 2
  | joiningLogger => 1
  | finished => 0

theorem MainStep.rank_lt {s t : Logging} (h : MainStep s t) : t.main.rank < s.main.rank := by
  cases h with
  | signal hm | requestStopLogger hm | joinLogger hm => simp [hm, MainControl.rank]
  | @requestStop p hm => cases p <;> simp [hm, MainControl.rank]
  | @join p hm => cases p <;> simp [hm, MainControl.rank, afterJoin]

/-- What `main` waits for has happened. -/
def Server.MainReady (s : Server M.Socket) : Prop :=
  match s.main with
  | .waiting => False
  | .stopping _ => True
  | .joining p => s.producer p = .returned
  | .stoppingLogger => True
  | .joiningLogger => s.logger = .returned
  | .finished => False

theorem Server.MainReady.step (h : s.MainReady) : s.main ≠ .waiting ∧ ∃ b, MainStep s.logging b := by
  unfold Server.MainReady at h
  cases hm : s.main with
  | waiting | finished =>
    rw [hm] at h
    exact h.elim
  | stopping p => exact ⟨by simp, _, .requestStop hm⟩
  | joining p =>
    rw [hm] at h
    exact ⟨by simp, _, .join hm h⟩
  | stoppingLogger => exact ⟨by simp, _, .requestStopLogger hm⟩
  | joiningLogger =>
    rw [hm] at h
    exact ⟨by simp, _, .joinLogger hm h⟩

/-- A thread that has returned does not change that: `main` stays ready until it has made its step. -/
theorem Server.MainReady.kept (h : s.MainReady) (hinv : ServerInv M native s) (hstep : ServerStep M native fmt a s t)
    (hmain : t.main = s.main) : t.MainReady := by
  unfold Server.MainReady at h ⊢
  rw [hmain]
  cases hm : s.main with
  | waiting | finished =>
    rw [hm] at h
    exact h.elim
  | stopping p => trivial
  | joining p =>
    rw [hm] at h
    exact hstep.returned_stable hinv h
  | stoppingLogger => trivial
  | joiningLogger =>
    rw [hm] at h
    exact hstep.logger_stable h

/-- `main` joins only what it has stopped. -/
theorem joins_stopped {l : Logging} (hl : loggingSystem.Reachable l) :
    (∀ p, l.main = .joining p → l.stops p = true) ∧ (l.main = .joiningLogger → l.loggerStop = true) := by
  refine hl.invariant (I := fun l => (∀ p, l.main = .joining p → l.stops p = true) ∧
    (l.main = .joiningLogger → l.loggerStop = true)) ?_ ?_
  · rintro l rfl
    exact ⟨nofun, nofun⟩
  · rintro l m - ih (hstep | hstep | hstep)
    · cases hstep <;> exact ih
    · cases hstep <;> exact ih
    · cases hstep with
      | requestStop =>
        refine ⟨?_, nofun⟩
        rintro p ⟨⟩
        exact Function.update_self _ _ _
      | requestStopLogger => exact ⟨nofun, fun _ => rfl⟩
      | signal | joinLogger => exact ⟨nofun, nofun⟩
      | @join p => cases p <;> exact ⟨nofun, nofun⟩

section Main

variable {r : ServerRun M native fmt} {i : Nat}

/-- `main` goes on when what it waits for has happened. -/
theorem main_next (hfair : r.FairToAll) (hready : (r.state i).MainReady) :
    ∃ j, i ≤ j ∧ (r.state j).main.rank < (r.state i).main.rank := by
  have h : r.Descends (Server.Ready native fmt) .main (fun j => if (r.state j).wakePending then 1 else 0)
      (fun j => (r.state j).MainReady ∧ (r.state j).main = (r.state i).main)
      fun j => (r.state j).main.rank < (r.state i).main.rank := by
    refine ⟨?_, ?_, ?_⟩
    · rintro j ⟨hready, hmain⟩ hq
      obtain ⟨hsignal, b, hstep⟩ := hready.step
      refine ⟨?_, by simp, by simp, fun _ => hsignal⟩
      cases hw : (r.state j).wakePending with
      | true => exact ⟨_, .wake hw⟩
      | false => exact ⟨_, .main hstep hw⟩
    · rintro j ⟨hready, hmain⟩ hq ha
      have hstep := r.step_state ha
      rcases hstep.main_cases with ⟨hw, he⟩ | ⟨-, b, hb, he⟩
      · have hsame : (r.state (j + 1)).main = (r.state j).main := by rw [he]; rfl
        refine Or.inr ⟨⟨hready.kept (reachable_server (ServerRun.reachable r j)) hstep hsame, hsame.trans hmain⟩, ?_⟩
        rw [he, hw]
        simp [Server.wake]
      · left
        rw [he, ← hmain]
        exact hb.rank_lt
    · rintro j ⟨hready, hmain⟩ hq ha
      obtain ⟨hsame, hpending, hkept⟩ := ServerRun.kept (a := .main)
        (R := fun s t => t.main = s.main ∧ t.wakePending = s.wakePending ∧
          ((serverSystem M native fmt).Reachable s → s.MainReady → t.MainReady))
        (fun _ => ⟨rfl, rfl, fun _ h => h⟩)
        (fun h hb => ⟨(h.other_than_main hb).1, (h.other_than_main hb).2.1,
          fun hs hr => hr.kept (reachable_server hs) h (h.other_than_main hb).1⟩) ha
      exact Or.inr ⟨⟨hkept (ServerRun.reachable r j) hready, hsame.trans hmain⟩, by rw [hpending]⟩
  exact (hfair .main).eventually h ⟨hready, rfl⟩

/-- `main` stays where it is, or it has fewer steps left. -/
theorem ServerRun.main_le {j : Nat} (hij : i ≤ j) :
    (r.state j).main = (r.state i).main ∨ (r.state j).main.rank < (r.state i).main.rank := by
  refine ServerRun.persists (P := fun s => s.main = (r.state i).main ∨ s.main.rank < (r.state i).main.rank) ?_ hij
    (Or.inl rfl)
  intro b s t _ hstep hs
  by_cases hb : b = .main
  · subst hb
    rcases hstep.main_cases with ⟨-, rfl⟩ | ⟨-, b, hmain, rfl⟩
    · exact hs
    · right
      have hlt : b.main.rank < s.main.rank := hmain.rank_lt
      rcases hs with he | hs
      · exact he ▸ hlt
      · exact hlt.trans hs
  · rwa [(hstep.other_than_main hb).1]

/-- `main` does not wait forever. -/
theorem main_ready (hM : M.Nonblocking) (hfair : r.FairToAll) {K : Nat} (hK : ∀ j, (r.state j).net.traffic ≤ K)
    (hsignal : (r.state i).main ≠ .waiting) (hmain : (r.state i).main ≠ .finished) :
    ∃ j, i ≤ j ∧ ((r.state j).main = (r.state i).main → (r.state j).MainReady) := by
  have hl := logging_refines (ServerRun.reachable r i)
  have hstops := joins_stopped hl
  cases hm : (r.state i).main with
  | waiting => exact absurd hm hsignal
  | finished => exact absurd hm hmain
  | stopping p => exact ⟨i, le_rfl, fun h => by rw [Server.MainReady, h]; trivial⟩
  | stoppingLogger => exact ⟨i, le_rfl, fun h => by rw [Server.MainReady, h]; trivial⟩
  | joining p =>
    have hstop : (r.state i).stop p = true := hstops.1 p hm
    obtain ⟨j, hj, hreturned⟩ : ∃ j, i ≤ j ∧ (r.state j).producer p = .returned := by
      cases p with
      | listener => exact listener_returns hM hfair hK hsignal hstop
      | parser => exact parser_returns hfair hstop
      | logic => exact logic_returns hfair hstop
    refine ⟨j, hj, ?_⟩
    intro h
    rw [Server.MainReady, h]
    exact hreturned
  | joiningLogger =>
    have hall : ∀ p, (r.state i).producer p = .returned := fun p => (reachable_logging hl).joined p (by
      rw [show (r.state i).logging.main = _ from hm]
      trivial)
    obtain ⟨j, hj, hreturned⟩ := logger_returns_fair hfair (hstops.2 hm) hall
    refine ⟨j, hj, ?_⟩
    intro h
    rw [Server.MainReady, h]
    exact hreturned

/-- `main` comes to its end. -/
theorem main_finishes (hM : M.Nonblocking) (hfair : r.FairToAll) {K : Nat} (hK : ∀ j, (r.state j).net.traffic ≤ K)
    (hsignal : (r.state i).main ≠ .waiting) : ∃ j, i ≤ j ∧ (r.state j).main = .finished := by
  generalize hrank : (r.state i).main.rank = k
  induction k using Nat.strong_induction_on generalizing i with
  | _ k ih =>
    by_cases hf : (r.state i).main = .finished
    · exact ⟨i, le_rfl, hf⟩
    · obtain ⟨i₁, hi₁, hready⟩ := main_ready hM hfair hK hsignal hf
      obtain ⟨i₂, hi₂, hlt⟩ : ∃ i₂, i₁ ≤ i₂ ∧ (r.state i₂).main.rank < k := by
        rcases ServerRun.main_le hi₁ with hsame | hlt
        · obtain ⟨i₂, hi₂, hlt⟩ := main_next hfair (hready hsame)
          exact ⟨i₂, hi₂, by rwa [hsame, hrank] at hlt⟩
        · exact ⟨i₁, le_rfl, hrank ▸ hlt⟩
      obtain ⟨j, hj, hfinished⟩ := ih _ hlt (ServerRun.signalled (hi₁.trans hi₂) hsignal) rfl
      exact ⟨j, (hi₁.trans hi₂).trans hj, hfinished⟩

end Main

/-! ## Main result -/

/-- What `main` leaves behind. -/
structure Server.Over (s : Server M.Socket) : Prop where
  main : s.main = .finished
  threads : ∀ p, s.producer p = .returned
  logger : s.logger = .returned
  written : s.written = s.logPushed

theorem over_of_finished (hs : (serverSystem M native fmt).Reachable s) (hf : s.main = .finished) : s.Over := by
  have hl := logging_refines hs
  have h := reachable_logging hl
  have hreturned : s.logger = .returned := logger_joined hl hf
  refine ⟨hf, ?_, hreturned, ?_⟩
  · intro p
    apply h.joined
    rw [show s.logging.main = .finished from hf]
    trivial
  · have hconserved : s.written ++ s.logger.inHand ++ s.pipeline.log.items = s.logPushed := h.conserved
    have hempty : s.pipeline.log.items = [] := h.emptied hreturned
    rw [hreturned, hempty] at hconserved
    simpa [LoggerControl.inHand] using hconserved

/-- **The shutdown completes.** In every run of the server that is fair to its threads and in which the peers connect and
send only so often: once the signal has come, `main` comes to its end; from then on every thread has returned, and every
message that any of them has pushed has been written. -/
theorem shutdown_completes (M : SocketModel) (native : Endian) (fmt : Format) (hM : M.Nonblocking)
    (r : ServerRun M native fmt) (hfair : r.FairToAll) (K : Nat) (hK : ∀ j, (r.state j).net.traffic ≤ K) (i : Nat)
    (hsignal : (r.state i).main ≠ .waiting) : ∃ j, i ≤ j ∧ ∀ k, j ≤ k → (r.state k).Over := by
  obtain ⟨j, hj, hf⟩ := main_finishes hM hfair hK hsignal
  refine ⟨j, hj, ?_⟩
  intro k hk
  apply over_of_finished (ServerRun.reachable r k)
  rcases ServerRun.main_le hk with hsame | hlt
  · exact hsame.trans hf
  · rw [hf] at hlt
    exact absurd hlt (Nat.not_lt_zero _)

/-- When all is over, nobody has anything left to do. -/
theorem Server.Over.not_ready (h : s.Over) (hs : (serverSystem M native fmt).Reachable s) (hcalled : s.wakePending = false)
    (a : Actor) : ¬Server.Ready native fmt a s := by
  rintro ⟨⟨t, hstep⟩, hthread, -, -⟩
  have hnot : ∀ p : Producer, a ≠ p.actor := fun p => hstep.not_returned (reachable_server hs) (h.threads p)
  cases a with
  | kernel => exact hthread rfl
  | listener => exact hnot .listener rfl
  | parser => exact hnot .parser rfl
  | logic => exact hnot .logic rfl
  | logger =>
    cases hstep with
    | logger hstep =>
      have hr : s.logging.logger = .returned := h.logger
      cases hstep with
      | test hl | pop hl | stopped hl | write hl | drain hl | drained hl | drainWrite hl =>
        rw [hr] at hl
        cases hl
  | main =>
    rcases hstep.main_cases with ⟨hw, -⟩ | ⟨-, b, hb, -⟩
    · rw [hcalled] at hw
      cases hw
    · have hlt := hb.rank_lt
      rw [show s.logging.main = .finished from h.main] at hlt
      exact absurd hlt (Nat.not_lt_zero _)

/-- A run in which the signal comes when a client is connected, and nothing happens any more when all is over. -/
theorem shutdown_completes_connected :
    ∃ (r : ServerRun receiveBuffers .little blankFormat) (i : Nat), r.FairToAll ∧
      (r.state i).main = .stopping .listener ∧ (∃ c ∈ (r.state i).net.kernel.sessions, c.Bound 7) ∧
      ∃ j, i ≤ j ∧ (r.state j).Over := by
  obtain ⟨s, t, hs, hmain, hsessions, hrun, hf, hcalled, -⟩ := exists_shutdown
  have ht := hs.runs hrun
  obtain ⟨r, i, N, -, hi, hlast⟩ := Run.exists_through (fun _ _ h => h) hs hrun
  have hfair : ServerRun.FairToAll r := by
    intro a i hready
    have h := hready (max i N) (le_max_left _ _)
    rw [(hlast _ (le_max_right _ _)).1] at h
    exact absurd h ((over_of_finished ht hf).not_ready ht hcalled a)
  -- the traffic is bounded: that of the last state stays
  obtain ⟨K, hK⟩ : ∃ K, ∀ j, (r.state j).net.traffic ≤ K := by
    refine ⟨(Finset.range (N + 1)).sup fun j => (r.state j).net.traffic, fun j => ?_⟩
    rcases Nat.lt_or_ge j N with hj | hj
    · exact Finset.le_sup (f := fun j => (r.state j).net.traffic) (Finset.mem_range.mpr (by omega))
    · rw [(hlast j hj).1, ← (hlast N le_rfl).1]
      exact Finset.le_sup (f := fun j => (r.state j).net.traffic) (Finset.mem_range.mpr (by omega))
  obtain ⟨j, hj, hover⟩ := shutdown_completes receiveBuffers .little blankFormat receiveBuffers_nonblocking r hfair K hK i
    (by rw [hi, hmain]; nofun)
  refine ⟨r, i, hfair, by rw [hi, hmain], ?_, j, hj, hover j le_rfl⟩
  rw [hi, hsessions]
  exact ⟨_, List.mem_singleton_self _, rfl, rfl⟩

end CounterDrone

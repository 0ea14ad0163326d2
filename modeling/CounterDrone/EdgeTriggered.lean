import Mathlib
import CounterDrone.Draining
import CounterDrone.Quiescence

/-!
# Edge-triggered input

The clients are registered with `EPOLLET`: `epoll_wait` reports a client when it becomes readable, and need not report it
again while it stays readable. The kernel keeps a list of the descriptors that it still has to report. What is relied on
of it (`EdgeRule`): a descriptor comes on the list when it becomes readable, or when it is registered and readable already;
it stays there, as long as it is readable, until it is reported; and what is reported is an input or a hangup. The kernel
may report more than that.

Because `handle_client_data` reads until there is nothing left, no input is stranded: a readable client is on the list, or
in the batch that the listener is working on (`input_not_stranded`). So when the process is at rest, every byte that has
arrived on an open connection has been received, and its packets are in the drone table (`arrived_handled`).
-/

namespace CounterDrone

/-! ## The ready list -/

/-- Sockets that know whether there is something to read: bytes, the end of the stream, or an error. -/
structure PollModel extends SocketModel where
  readable : Socket → Prop
  recv_wouldBlock : ∀ {s t}, recv s .wouldBlock t → ¬readable t

/-- Receive buffers. -/
abbrev pollBuffers : PollModel where
  toSocketModel := receiveBuffers
  readable b := b.unread ≠ [] ∨ b.ended ≠ none
  recv_wouldBlock := by
    intro b b' h
    cases h with
    | wouldBlock hu he => simp [hu, he]

variable {P : PollModel}

/-- A client is registered under the descriptor, and there is something to read. -/
def Net.Readable (P : PollModel) (n : Net P.Socket) (fd : Int) : Prop :=
  ∃ c ∈ n.kernel.connections, c.1.Bound fd ∧ c.1.registered = true ∧ P.readable c.2

/-- What the kernel does with its list in a step. -/
structure EdgeRule (P : PollModel) (n n' : Net P.Socket) (ready ready' : List Int) : Prop where
  edge : ∀ fd, n'.Readable P fd → ¬n.Readable P fd → fd ∈ ready'
  kept : ∀ fd ∈ ready, n'.Readable P fd →
    fd ∈ ready' ∨ (n.control = .polling ∧ ∃ events, n'.control = .dispatching events ∧ fd ∈ events.map EpollEvent.fd)
  reported : n.control = .polling → ∀ events, n'.control = .dispatching events →
    ∀ e ∈ events, e.events &&& (EPOLLERR ||| EPOLLHUP) ≠ 0 ∨ e.events &&& EPOLLIN ≠ 0

/-- The process with the ready list of its epoll instance. -/
def edgeSystem (P : PollModel) (native : Endian) (fmt : Format) : System (Server P.Socket × List Int) where
  init x := (serverSystem P.toSocketModel native fmt).init x.1 ∧ x.2 = []
  step x y := (serverSystem P.toSocketModel native fmt).step x.1 y.1 ∧ EdgeRule P x.1.net y.1.net x.2 y.2

/-- The descriptors that the listener still has to look at: the one it is reading from, and those of the batch. -/
def Control.fds : Control → List Int
  | .draining fd events => fd :: events.map EpollEvent.fd
  | .disconnecting fd events => fd :: events.map EpollEvent.fd
  | .dispatching events => events.map EpollEvent.fd
  | .accepting events => events.map EpollEvent.fd
  | .loop => []
  | .polling => []
  | .finished => []

/-- A readable client is on the list, or the listener still has to look at it. -/
structure EdgeInv (P : PollModel) (n : Net P.Socket) (ready : List Int) : Prop where
  flags : ∀ e ∈ n.control.batch, e.events &&& (EPOLLERR ||| EPOLLHUP) ≠ 0 ∨ e.events &&& EPOLLIN ≠ 0
  covered : n.control ≠ .finished → ∀ fd, n.Readable P fd → fd ∈ ready ∨ fd ∈ n.control.fds

section Steps

variable {n n' : Net P.Socket} {fd : Int} {rest : List EpollEvent}

/-- A connection that has been disconnected is not readable. -/
theorem not_readable_disconnected (hi : LoopInv n) (hl : Live n.kernel.sessions fd) (control : Control) :
    ¬((disconnectClient n fd).goto control).Readable P fd := by
  obtain ⟨pre, c, post, he, hb, hpre, hpost⟩ := hi.split hl
  have hc : c ∈ n.kernel.connections := by rw [he]; exact mem_middle
  obtain ⟨-, -, -, hpos, hclient⟩ := hi.owned.live c.1 (List.mem_map_of_mem hc) hb.2
  rw [hb.1] at hpos hclient
  rw [disconnectClient_eq he hb hpre hpost hpos hclient]
  rintro ⟨a, ha, hba, -, -⟩
  rcases mem_replace ha with rfl | ha | ha
  · exact absurd hba.2 (by simp)
  · exact hpre a ha hba
  · exact hpost a ha hba.1

/-- A client from which nothing more can be read is not readable. -/
theorem not_readable_read {k : Kernel P.Socket} (hr : n.kernel.Recv P.toSocketModel fd .wouldBlock k) (control : Control) :
    ¬(({ n with kernel := k } : Net P.Socket).goto control).Readable P fd := by
  cases hr with
  | bound hc hb hrecv =>
    rintro ⟨a, ha, hba, -, hread⟩
    obtain ⟨b, -, rfl⟩ := List.mem_map.mp ha
    by_cases hbb : b.1.Bound fd
    · rw [if_pos hbb] at hread
      exact P.recv_wouldBlock hrecv hread
    · rw [if_neg hbb] at hba
      exact hbb hba

/-- The server socket is not a client. -/
theorem not_readable_server (hi : LoopInv n) (control : Control) : ¬(n.goto control).Readable P n.listener.serverFd.fd := by
  rintro ⟨c, hc, hb, -, -⟩
  exact (hi.owned.apart c.1 (List.mem_map_of_mem hc) hb.2).1 hb.1

/-- The dispatch of an event. -/
theorem dispatch_fds (hi : LoopInv n) {event : EpollEvent} (hc : n.control = .dispatching (event :: rest))
    (hflag : event.events &&& (EPOLLERR ||| EPOLLHUP) ≠ 0 ∨ event.events &&& EPOLLIN ≠ 0)
    (hnot : (dispatch n event rest).control ≠ .finished) (hfd : fd = event.fd ∨ fd ∈ rest.map EpollEvent.fd) :
    fd ∈ (dispatch n event rest).control.fds ∨ ¬(dispatch n event rest).Readable P fd := by
  have hp := hi.pending
  rw [hc] at hp
  unfold dispatch at hnot ⊢
  by_cases hevent : event.fd = n.listener.eventFd.fd
  · rw [if_pos hevent] at hnot
    exact absurd rfl hnot
  rw [if_neg hevent]
  by_cases hserver : event.fd = n.listener.serverFd.fd
  · rw [if_pos hserver]
    rcases hfd with rfl | hfd
    · right
      rw [hserver]
      exact not_readable_server hi _
    · exact Or.inl hfd
  rw [if_neg hserver]
  -- the event is for a client
  have hlive : Live n.kernel.sessions event.fd := by
    rcases hp.2 event List.mem_cons_self with hx | hx | hx
    · exact absurd hx hserver
    · exact absurd hx hevent
    · exact hx
  by_cases hhup : event.events &&& (EPOLLERR ||| EPOLLHUP) ≠ 0
  · rw [if_pos hhup]
    rcases hfd with rfl | hfd
    · exact Or.inr (not_readable_disconnected hi hlive _)
    · exact Or.inl hfd
  · rw [if_neg hhup, if_pos (hflag.resolve_left hhup)]
    rcases hfd with rfl | hfd
    · exact Or.inl List.mem_cons_self
    · exact Or.inl (List.mem_cons_of_mem _ hfd)

/-- **What the listener has to look at, it looks at until there is nothing left to read.** -/
theorem ListenerStep.fds_cases (h : ListenerStep P.toSocketModel n n') (hi : LoopInv n)
    (hflags : ∀ e ∈ n.control.batch, e.events &&& (EPOLLERR ||| EPOLLHUP) ≠ 0 ∨ e.events &&& EPOLLIN ≠ 0)
    (hnot : n'.control ≠ .finished) (hfd : fd ∈ n.control.fds) : fd ∈ n'.control.fds ∨ ¬n'.Readable P fd := by
  cases h with
  | evolve | requestStop => exact Or.inl hfd
  | test hc | interrupted hc | pollError hc | poll hc | batchDone hc =>
    rw [hc] at hfd
    cases hfd
  | @dispatch event rest hc =>
    rw [hc] at hfd hflags
    exact dispatch_fds hi hc (hflags event List.mem_cons_self) hnot (List.mem_cons.mp hfd)
  | accept hc accepted nonblocking added hnew =>
    left
    rw [hc] at hfd
    rcases handleAccept_control n hc accepted nonblocking added with he | he
    · rw [he]
      exact hfd
    · rw [he]
      exact hfd
  | @recv fd' rest hc result k hr =>
    rw [hc] at hfd
    cases result with
    | data bytes =>
      left
      rw [show (handleClientData { n with kernel := k } fd' rest (.data bytes)).control = _ from hc]
      exact hfd
    | closed | error => exact Or.inl hfd
    | wouldBlock =>
      rcases List.mem_cons.mp hfd with rfl | hfd
      · exact Or.inr (not_readable_read hr _)
      · exact Or.inl hfd
  | @disconnect fd' rest hc =>
    have hp := hi.pending
    rw [hc] at hp hfd
    rcases List.mem_cons.mp hfd with rfl | hfd
    · exact Or.inr (not_readable_disconnected hi hp.2.1 _)
    · exact Or.inl hfd

/-- A loop that is over does not go on. -/
theorem ListenerStep.finished_stable {M : SocketModel} {n n' : Net M.Socket} (h : ListenerStep M n n')
    (hf : n.control = .finished) : n'.control = .finished := by
  by_contra hne
  exact h.control_ne (Or.inl fun he => hne (he.trans hf)) hf

/-- **Every step keeps the invariant.** -/
theorem EdgeInv.step {ready ready' : List Int} (h : EdgeInv P n ready) (hi : LoopInv n)
    (hs : ListenerStep P.toSocketModel n n') (hrule : EdgeRule P n n' ready ready') : EdgeInv P n' ready' := by
  constructor
  · intro e he
    rcases hs.batch_cases with hsub | ⟨hp, events, hd⟩
    · exact h.flags e (hsub he)
    · rw [hd] at he
      exact hrule.reported hp events hd e he
  · intro hnot fd hread
    by_cases hbefore : n.Readable P fd
    · have hnot' : n.control ≠ .finished := fun hf => hnot (hs.finished_stable hf)
      rcases h.covered hnot' fd hbefore with hlist | hfd
      · rcases hrule.kept fd hlist hread with hstays | ⟨-, events, hd, hmem⟩
        · exact Or.inl hstays
        · rw [hd]
          exact Or.inr hmem
      · exact Or.inr ((hs.fds_cases hi h.flags hnot hfd).resolve_right fun hn => hn hread)
    · exact Or.inl (hrule.edge fd hread hbefore)

/-- A step of another thread: the event loop and the sockets are as before. -/
theorem EdgeInv.frame {ready ready' : List Int} (h : EdgeInv P n ready) (hkernel : n'.kernel = n.kernel)
    (hcontrol : n'.control = n.control) (hrule : EdgeRule P n n' ready ready') : EdgeInv P n' ready' := by
  have hread : ∀ fd, n'.Readable P fd ↔ n.Readable P fd := by
    intro fd
    simp only [Net.Readable, hkernel]
  refine ⟨by rw [hcontrol]; exact h.flags, ?_⟩
  rw [hcontrol]
  intro hnot fd hr
  rcases h.covered hnot fd ((hread fd).mp hr) with hlist | hfd
  · rcases hrule.kept fd hlist hr with hstays | ⟨hp, events, hd, -⟩
    · exact Or.inl hstays
    · rw [hcontrol, hp] at hd
      cases hd
  · exact Or.inr hfd

/-- A listener without connections. -/
theorem EdgeInv.none {ready : List Int} (hconnections : n.kernel.connections = []) (hcontrol : n.control = .loop) :
    EdgeInv P n ready := by
  refine ⟨by rw [hcontrol]; nofun, ?_⟩
  rintro - fd ⟨c, hc, -⟩
  rw [hconnections] at hc
  cases hc

end Steps

section Runs

variable {native : Endian} {fmt : Format} {s t : Server P.Socket} {ready ready' : List Int}

/-- The process without the list. -/
theorem edge_reachable {x : Server P.Socket × List Int} (hx : (edgeSystem P native fmt).Reachable x) :
    (serverSystem P.toSocketModel native fmt).Reachable x.1 := by
  induction hx with
  | init h => exact .init h.1
  | step _ h ih => exact ih.step h.1

theorem ServerInv.loopInv {M : SocketModel} {s : Server M.Socket} (h : ServerInv M native s)
    (hr : s.running .listener = true) : LoopInv s.net :=
  reachable_inv (launched_reachable (h.launched hr))

/-- Every step of the process keeps the invariant. -/
theorem EdgeInv.server (h : EdgeInv P s.net ready) (hinv : ServerInv P.toSocketModel native s) {a : Actor}
    (hs : ServerStep P.toSocketModel native fmt a s t) (hrule : EdgeRule P s.net t.net ready ready') :
    EdgeInv P t.net ready' := by
  cases hs with
  | kernel hr hc hopen hev => exact h.step (hinv.loopInv hr) (.evolve hc hopen hev) hrule
  | launch hr port server epoll hout hok =>
    have hlaunched := ((setup_owning port (hinv.unlaunched hr) hout).2 hok).1
    exact .none hlaunched.toInitial.connections hlaunched.toInitial.control
  | listener hr hstep => exact h.step (hinv.loopInv hr) hstep hrule
  | startParser | startLogic | parser | logic | logger | main | wake => exact h.frame rfl rfl hrule

/-- The invariant holds throughout every run. -/
theorem reachable_edge {x : Server P.Socket × List Int} (hx : (edgeSystem P native fmt).Reachable x) :
    EdgeInv P x.1.net x.2 := by
  refine hx.invariant (I := fun x => EdgeInv P x.1.net x.2) ?_ ?_
  · rintro ⟨s, ready⟩ ⟨⟨n, hn, -, -, rfl⟩, -⟩
    exact .none hn.connections hn.control
  · rintro ⟨s, ready⟩ ⟨t, ready'⟩ hs h ⟨⟨a, hstep⟩, hrule⟩
    exact h.server (reachable_server (edge_reachable hs)) hstep hrule

/-- **No input is stranded.** In every run of the process with edge-triggered clients: as long as the listener has not left
its loop, a client with something to read is on the ready list of the kernel, or it is the one being read from, or in the
part of the batch that the listener has still to dispatch. So the listener never waits in `epoll_wait` for an input that is
already there. -/
theorem input_not_stranded (P : PollModel) (native : Endian) (fmt : Format) (s : Server P.Socket) (ready : List Int)
    (hs : (edgeSystem P native fmt).Reachable (s, ready)) (hnot : s.net.control ≠ .finished) (fd : Int)
    (hread : s.net.Readable P fd) :
    (fd ∈ ready ∨ fd ∈ s.net.control.fds) ∧ (s.net.control = .polling → fd ∈ ready) := by
  have h : EdgeInv P s.net ready := reachable_edge hs
  have hcovered := h.covered hnot fd hread
  refine ⟨hcovered, ?_⟩
  intro hp
  rw [hp] at hcovered
  exact hcovered.resolve_right (by simp [Control.fds])

/-- The descriptors of all connections: a kernel that reports every client again and again. -/
def Net.descriptors (n : Net P.Socket) : List Int := n.kernel.connections.map fun c => c.1.fd

theorem Net.Readable.mem_descriptors {n : Net P.Socket} {fd : Int} (h : n.Readable P fd) : fd ∈ n.descriptors := by
  obtain ⟨c, hc, hb, -, -⟩ := h
  exact List.mem_map.mpr ⟨c, hc, hb.1⟩

/-- Such a kernel follows the rule. -/
theorem edge_of_reads (hs : ((serverSystem P.toSocketModel native fmt).guarded Server.Reads).Reachable s) :
    (edgeSystem P native fmt).Reachable (s, s.net.descriptors) := by
  induction hs with
  | @init s h =>
    refine .init ⟨h, ?_⟩
    obtain ⟨n, hn, -, -, rfl⟩ := h
    rw [Net.descriptors, hn.connections]
    rfl
  | @step s t _ h ih =>
    refine ih.step ⟨h.1, fun _ hr _ => hr.mem_descriptors, fun _ _ hr => Or.inl hr.mem_descriptors, ?_⟩
    intro hp events hd e he
    right
    rw [h.2 hp events hd e he]
    decide

end Runs

/-- A client has sent a byte, and the listener is about to wait. -/
theorem input_not_stranded_one :
    ∃ s ready, (edgeSystem pollBuffers .little blankFormat).Reachable (s, ready) ∧ s.net.control = .polling ∧
      s.net.Readable pollBuffers 7 ∧ 7 ∈ ready := by
  obtain ⟨s, hs, -, -, hnet⟩ := exists_quiet .little blankFormat (@quiet_connected ⟨[0xAA], [0xAA], none⟩ rfl)
  have hcontrol : s.net.control = .polling := by rw [hnet]; rfl
  have hread : s.net.Readable pollBuffers 7 := by
    rw [hnet]
    exact ⟨(⟨7, true, false, []⟩, ⟨[0xAA], [0xAA], none⟩), List.mem_cons_self, ⟨rfl, rfl⟩, rfl, by simp⟩
  have hedge := edge_of_reads (P := pollBuffers) hs
  exact ⟨s, _, hedge, hcontrol, hread,
    (input_not_stranded pollBuffers .little blankFormat s _ hedge (by simp [hcontrol]) 7 hread).2 hcontrol⟩

/-! ## From the sockets to the drone table -/

/-- A handled packet is in the drone table. -/
theorem BusinessLogic.Tracks.present {b : BusinessLogic} {handled : List Telemetry} (h : b.Tracks handled) {t : Telemetry}
    (ht : t ∈ handled) : (b.drones.lookup t.droneId).isSome := by
  rw [h.drones, Option.isSome_iff_ne_none, Ne, List.getLast?_eq_none_iff]
  exact List.ne_nil_of_mem (List.mem_filter.mpr ⟨ht, by simp⟩)

/-- **What has arrived is in the drone table.** In every run of the process with edge-triggered clients: when no thread can
go on and `epoll_wait` has nothing to report, then of every open connection everything that has arrived has been received,
and every packet in it has been handled by the logic, so that its drone is in the table. -/
theorem arrived_handled (native : Endian) (fmt : Format) (s : Server ReceiveBuffer) (ready : List Int)
    (hs : (edgeSystem pollBuffers native fmt).Reachable (s, ready)) (hrest : s.AtRest (M := receiveBuffers) native fmt)
    (hpolling : s.net.control = .polling) (hready : ∀ fd ∈ ready, ¬s.net.Readable pollBuffers fd)
    (c : Connection × ReceiveBuffer) (hc : c ∈ s.net.kernel.connections) (hopen : c.1.closed = false) :
    c.2.ended = none ∧ c.1.received.flatten = c.2.arrived ∧
      ∀ t ∈ emitted (frameScan native c.2.arrived).1, t ∈ s.pipeline.packetsHandled ∧
        (s.pipeline.logic.drones.lookup t.droneId).isSome := by
  have hserver : (serverSystem receiveBuffers native fmt).Reachable s := edge_reachable hs
  have hinv := reachable_server hserver
  have hrun : s.running .listener = true := (hrest.listener receiveBuffers_nonblocking).1
  have hsession : c.1 ∈ s.net.kernel.sessions := List.mem_map_of_mem hc
  have hreg : c.1.registered = true := ((hinv.loopInv hrun).owned.live c.1 hsession hopen).1
  -- nothing is left to read
  have hnone : ¬pollBuffers.readable c.2 := by
    intro hread
    have hreadable : s.net.Readable pollBuffers c.1.fd := ⟨c, hc, ⟨rfl, hopen⟩, hreg, hread⟩
    have hcovered := (reachable_edge hs).covered (by simp [hpolling]) c.1.fd hreadable
    rw [hpolling] at hcovered
    exact hready c.1.fd (hcovered.resolve_right (by simp [Control.fds])) hreadable
  simp only [not_or, not_not] at hnone
  obtain ⟨hunread, hended⟩ := hnone
  have hreceived : c.1.received.flatten = c.2.arrived := by
    have hbalanced := reachable_balanced (launched_reachable (hinv.launched hrun)) c hc
    rwa [Balanced, hunread, List.append_nil] at hbalanced
  -- and everything received has been handled
  have hmain : s.main = .waiting := by
    by_contra hm
    have hover := over_of_finished hserver (hrest.finished receiveBuffers_nonblocking hserver hm)
    have hfinished := (@listener_returned receiveBuffers s).mp (hover.threads .listener) |>.1
    exact absurd (hpolling.symm.trans hfinished) (by simp)
  refine ⟨hended, hreceived, fun t ht => ?_⟩
  rw [← hreceived] at ht
  have hhandled : t ∈ s.pipeline.packetsHandled := by
    rw [(hrest.handled hserver hmain).2.1]
    exact hinv.emitted_sequential hsession hreg ht
  exact ⟨hhandled, hinv.pipeline.logic.present hhandled⟩

/-- A step inside the process is no return of `epoll_wait`. -/
theorem InsideRun.reads {M : SocketModel} {native : Endian} {fmt : Format} {s t : Server M.Socket}
    (hrun : InsideRun native fmt s t) (hs : ((serverSystem M native fmt).guarded Server.Reads).Reachable s) :
    ((serverSystem M native fmt).guarded Server.Reads).Reachable t := by
  induction hrun with
  | refl => exact hs
  | tail _ h ih =>
    refine ih.step ⟨h.step, ?_⟩
    intro hp events hd
    rw [h.net, hp] at hd
    cases hd

/-- A client has sent a packet. -/
theorem arrived_handled_one :
    ∃ s ready, (edgeSystem pollBuffers .little blankFormat).Reachable (s, ready) ∧
      s.AtRest (M := receiveBuffers) .little blankFormat ∧ s.net.control = .polling ∧
      oneRecord.toTelemetry ∈ s.pipeline.packetsHandled ∧
      (s.pipeline.logic.drones.lookup oneRecord.toTelemetry.droneId).isSome := by
  obtain ⟨s, hs, hu, hmain, hnet⟩ := exists_quiet .little blankFormat
    (quiet_received onePacket_ne (by rw [length_onePacket]; decide))
  obtain ⟨t, hinside, hwaits⟩ := received_rests hs.of_guarded hu hmain hnet
  have hnet' : t.net = (readNet (packetBytes [oneRecord])).goto .polling := hinside.same.net.trans hnet
  have hedge := edge_of_reads (P := pollBuffers) (hinside.reads hs)
  have hready : ∀ fd ∈ t.net.descriptors (P := pollBuffers), ¬t.net.Readable pollBuffers fd := by
    rw [hnet']
    rintro fd - ⟨c, hc, -, -, hread⟩
    rw [List.mem_singleton.mp hc] at hread
    simp at hread
  have hc : (({ fd := 7, registered := true, received := [packetBytes [oneRecord]] }, ⟨packetBytes [oneRecord], [], none⟩) :
      Connection × ReceiveBuffer) ∈ t.net.kernel.connections := by
    rw [hnet']
    exact List.mem_cons_self
  have hemitted : oneRecord.toTelemetry ∈ emitted (frameScan .little (packetBytes [oneRecord])).1 := by
    rw [(frameScan_packetBytes .little oneRecord_fits).1]
    exact List.mem_singleton_self _
  have hone := arrived_handled .little blankFormat t _ hedge hwaits.atRest hwaits.listener.1 hready _ hc rfl
  exact ⟨t, _, hedge, hwaits.atRest, hwaits.listener.1, hone.2.2 _ hemitted⟩

end CounterDrone

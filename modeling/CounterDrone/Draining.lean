import Mathlib
import CounterDrone.Framing

/-!
# Bytes at a disconnect

Over sockets with receive buffers: a connection that `handle_client_data` gives up has been read to its end, and so all
bytes that have arrived on it are on the raw queue. A connection that is disconnected because its event carries
`EPOLLERR` or `EPOLLHUP` is not read first: `hangup_drops_byte` is a run that drops a byte, and `no_byte_dropped` says
that no run does in which such an event finds the receive buffer empty (`HangupDrained`). In every run, what has arrived on
a connection is what was received from it and what is unread (`reachable_balanced`).
-/

namespace CounterDrone

/-- All bytes that have arrived on the connections that the listener has disconnected have been received from them. -/
def Lossless (n : Net ReceiveBuffer) : Prop :=
  ∀ c ∈ n.kernel.connections, c.1.registered = true → c.1.closed = true → c.1.received.flatten = c.2.arrived

/-- When a step dispatches an event with `EPOLLERR` or `EPOLLHUP` for a client, the client's receive buffer is empty. -/
def HangupDrained (n n' : Net ReceiveBuffer) : Prop :=
  ∀ event rest, n.control = .dispatching (event :: rest) → n' = dispatch n event rest →
    event.fd ≠ n.listener.eventFd.fd → event.fd ≠ n.listener.serverFd.fd →
    event.events &&& (EPOLLERR ||| EPOLLHUP) ≠ 0 → ∀ c ∈ n.kernel.connections, c.1.Bound event.fd → c.2.unread = []

/-! ## The bytes of a connection -/

/-- What one `recv` does to a receive buffer: bytes leave it in order, and it is empty when the stream is given up. -/
theorem ReceiveBuffer.Recv.spec {b b' : ReceiveBuffer} {result : RecvResult} (h : ReceiveBuffer.Recv b result b') :
    b'.arrived = b.arrived ∧ b.unread = result.chunks.flatten ++ b'.unread ∧
      ((∃ bytes, result = .data bytes) ∨ result = .wouldBlock ∨ b'.unread = [] ∧ b'.ended ≠ none) := by
  cases h with
  | data bytes rest he hne hlen => exact ⟨rfl, by simpa [RecvResult.chunks] using he, Or.inl ⟨bytes, rfl⟩⟩
  | wouldBlock hun hend => exact ⟨rfl, rfl, Or.inr (Or.inl rfl)⟩
  | closed hun hend => exact ⟨rfl, rfl, Or.inr (Or.inr ⟨hun, by rw [hend]; exact Option.some_ne_none _⟩)⟩
  | error what hun hend => exact ⟨rfl, rfl, Or.inr (Or.inr ⟨hun, Option.some_ne_none _⟩)⟩

/-- What has arrived on a connection is what was received from it and what is unread. -/
def Balanced (c : Connection × ReceiveBuffer) : Prop := c.1.received.flatten ++ c.2.unread = c.2.arrived

section Balanced

variable {n n' : Net receiveBuffers.Socket} {fd : Int}

theorem balanced_updateBound {g : Connection × ReceiveBuffer → Connection × ReceiveBuffer}
    (hg : ∀ c, Balanced c → Balanced (g c))
    {cs : List (Connection × ReceiveBuffer)} (h : ∀ c ∈ cs, Balanced c) : ∀ c ∈ updateBound fd g cs, Balanced c := by
  intro c hc
  obtain ⟨a, ha, rfl⟩ := List.mem_map.mp hc
  split
  · exact hg a (h a ha)
  · exact h a ha

theorem balanced_destroy (h : ∀ c ∈ n.kernel.connections, Balanced c) (handle : SocketHandle) :
    ∀ c ∈ (n.destroy handle).kernel.connections, Balanced c := by
  unfold Net.destroy SocketHandle.destroy
  split
  · exact @balanced_updateBound _ (fun c => ({ c.1 with closed := true }, c.2)) (fun _ hc => hc) _ h
  · exact h

theorem balanced_disconnectClient (h : ∀ c ∈ n.kernel.connections, Balanced c) (fd : Int) :
    ∀ c ∈ (disconnectClient n fd).kernel.connections, Balanced c := by
  have herase : ∀ {m : Net ReceiveBuffer}, (∀ c ∈ m.kernel.connections, Balanced c) →
      ∀ c ∈ (m.erase fd).kernel.connections, Balanced c := by
    intro m hm
    unfold Net.erase
    split
    · exact hm
    · exact balanced_destroy hm _
  exact herase (m := { n with kernel := n.kernel.epollDel fd }) h

theorem balanced_handleAccept (h : ∀ c ∈ n.kernel.connections, Balanced c) (rest : List EpollEvent)
    (accepted : AcceptResult ReceiveBuffer) (nonblocking added : Except String Unit)
    (hnew : ∀ fd addr socket, accepted = .connection fd addr socket → socket.unread = socket.arrived) :
    ∀ c ∈ (handleAccept n rest accepted nonblocking added).kernel.connections, Balanced c := by
  have hemplace : ∀ {m : Net ReceiveBuffer} {fd : Int} {handle : SocketHandle}, (∀ c ∈ m.kernel.connections, Balanced c) →
      ∀ c ∈ (m.emplace fd handle).kernel.connections, Balanced c := by
    intro m fd handle hm
    unfold Net.emplace
    split
    · exact hm
    · exact balanced_destroy hm _
  cases accepted with
  | wouldBlock => exact h
  | error what => exact h
  | connection fd addr socket =>
    have haccept : ∀ c ∈ (n.kernel.accept fd socket).connections, Balanced c := by
      intro c hc
      rcases List.mem_append.mp hc with hc | hc
      · exact h c hc
      · rw [List.mem_singleton.mp hc]
        exact hnew fd addr socket rfl
    cases nonblocking with
    | error what => exact balanced_destroy (n := { n with kernel := _ }) haccept _
    | ok _ =>
      cases added with
      | error what => exact balanced_destroy (n := { n with kernel := _ }) haccept _
      | ok _ =>
        have hadd : ∀ c ∈ ((n.kernel.accept fd socket).epollAdd fd).connections, Balanced c :=
          @balanced_updateBound fd (fun c => ({ c.1 with registered := true }, c.2)) (fun _ hc => hc) _ haccept
        exact balanced_destroy (hemplace hadd) _

/-- Every step of the listener or of a socket. -/
theorem balanced_step (h : ∀ c ∈ n.kernel.connections, Balanced c) (hi : LoopInv n) (hs : ListenerStep receiveBuffers n n') :
    ∀ c ∈ n'.kernel.connections, Balanced c := by
  cases hs with
  | @evolve c pre post t hc hopen hev =>
    intro a ha
    rw [hc] at h
    rcases mem_replace ha with rfl | ha
    · have hbalanced := h c mem_middle
      cases hev with
      | arrive bytes hnone =>
        simp only [Balanced] at hbalanced ⊢
        rw [← List.append_assoc, hbalanced]
      | finish e => exact hbalanced
    · exact h a (mem_others c ha)
  | requestStop | test | interrupted | pollError | poll | batchDone => exact h
  | @dispatch event rest hc =>
    unfold dispatch
    split
    · exact h
    split
    · exact h
    split
    · exact balanced_disconnectClient h event.fd
    split
    · exact h
    · exact h
  | accept hc accepted nonblocking added hnew =>
    exact balanced_handleAccept h _ accepted nonblocking added fun fd addr socket he => (hnew fd addr socket he).2.2
  | @recv fd rest hc result k hr =>
    have hp := hi.pending
    rw [hc] at hp
    obtain ⟨pre, c, post, t, he, hb, hpre, hpost, hrecv, rfl, hconn⟩ := hi.recv_split hp.2.1 hr
    obtain ⟨harrived, hunread, -⟩ := ReceiveBuffer.Recv.spec hrecv
    rw [he] at h
    have hall : ∀ a ∈ (n.kernel.received fd result t).connections, Balanced a := by
      intro a ha
      rw [hconn] at ha
      rcases mem_replace ha with rfl | ha
      · have hbalanced := h c mem_middle
        simp only [Balanced] at hbalanced ⊢
        rw [hunread, ← List.append_assoc] at hbalanced
        rw [List.flatten_append, harrived, hbalanced]
      · exact h a (mem_others c ha)
    cases result with
    | data | closed | wouldBlock | error => exact hall
  | @disconnect fd rest hc => exact balanced_disconnectClient h fd

/-- No byte is made up or lost between the socket and the listener. -/
theorem reachable_balanced (hn : (listenerSystem receiveBuffers).Reachable n) : ∀ c ∈ n.kernel.connections, Balanced c := by
  refine hn.invariant (I := fun n => ∀ c ∈ n.kernel.connections, Balanced c) ?_ ?_
  · intro n hn c hc
    rw [hn.connections] at hc
    cases hc
  · exact fun n n' hs h hstep => balanced_step h (reachable_inv hs) hstep

end Balanced

/-! ## The invariant -/

/-- Nothing is unread of a disconnected connection, nor of one that `handle_client_data` has given up. -/
structure Drained (n : Net ReceiveBuffer) : Prop where
  closed : ∀ c ∈ n.kernel.connections, c.1.registered = true → c.1.closed = true → c.2.unread = []
  ended : ∀ fd rest, n.control = .disconnecting fd rest → ∀ c ∈ n.kernel.connections, c.1.Bound fd →
    c.2.unread = [] ∧ c.2.ended ≠ none

section Steps

variable {n : Net ReceiveBuffer} {fd : Int} {rest : List EpollEvent}

theorem Drained.lossless (h : Drained n) (hall : ∀ c ∈ n.kernel.connections, Balanced c) : Lossless n := by
  intro c hc hreg hclosed
  have hbalanced := hall c hc
  rwa [Balanced, h.closed c hc hreg hclosed, List.append_nil] at hbalanced

/-- Only the control changes, and not to a disconnect. -/
theorem Drained.goto (h : Drained n) {control : Control} (hc : ∀ fd rest, control ≠ .disconnecting fd rest) :
    Drained (n.goto control) := ⟨h.closed, fun fd rest he => absurd he (hc fd rest)⟩

theorem Drained.pushLog (h : Drained n) (message : String) : Drained (n.pushLog message) := ⟨h.closed, h.ended⟩

/-- Something happens to the socket of an open connection. -/
theorem Drained.evolve (h : Drained n) {c : Connection × ReceiveBuffer} {pre post : List (Connection × ReceiveBuffer)}
    {t : ReceiveBuffer} (he : n.kernel.connections = pre ++ c :: post) (hopen : c.1.closed = false)
    (hev : ReceiveBuffer.Evolves c.2 t) :
    Drained { n with kernel := { n.kernel with connections := pre ++ (c.1, t) :: post } } := by
  have hc : c ∈ n.kernel.connections := by rw [he]; exact mem_middle
  have hold : ∀ a, a ∈ pre ∨ a ∈ post → a ∈ n.kernel.connections := fun a ha => by rw [he]; exact mem_others c ha
  constructor
  · intro a ha hreg hclosed
    rcases mem_replace ha with rfl | ha
    · rw [hopen] at hclosed
      cases hclosed
    · exact h.closed a (hold a ha) hreg hclosed
  · intro fd rest hctl a ha hb
    rcases mem_replace ha with rfl | ha
    · obtain ⟨hun, hend⟩ := h.ended fd rest hctl c hc hb
      cases hev with
      | arrive bytes hnone => exact absurd hnone hend
      | finish e => exact ⟨hun, nofun⟩
    · exact h.ended fd rest hctl a (hold a ha) hb

/-- A connection is disconnected when nothing is unread. -/
theorem Drained.disconnect (h : Drained n) (hi : LoopInv n) (hl : Live n.kernel.sessions fd)
    (hun : ∀ c ∈ n.kernel.connections, c.1.Bound fd → c.2.unread = []) :
    Drained ((disconnectClient n fd).goto (.dispatching rest)) := by
  obtain ⟨pre, c, post, he, hb, hpre, hpost⟩ := hi.split hl
  have hc : c ∈ n.kernel.connections := by rw [he]; exact mem_middle
  have hold : ∀ a, a ∈ pre ∨ a ∈ post → a ∈ n.kernel.connections := fun a ha => by rw [he]; exact mem_others c ha
  obtain ⟨_, _, _, hpos, hclient⟩ := hi.owned.live c.1 (List.mem_map_of_mem hc) hb.2
  rw [hb.1] at hpos hclient
  rw [disconnectClient_eq he hb hpre hpost hpos hclient]
  constructor
  · intro a ha hreg hclosed
    rcases mem_replace ha with rfl | ha
    · exact hun c hc hb
    · exact h.closed a (hold a ha) hreg hclosed
  · intro fd' rest' hctl
    cases hctl

/-- The dispatch of an event, when a hangup finds the receive buffer empty. -/
theorem Drained.dispatch (h : Drained n) (hi : LoopInv n) {event : EpollEvent} (hc : n.control = .dispatching (event :: rest))
    (hg : HangupDrained n (dispatch n event rest)) : Drained (dispatch n event rest) := by
  have hp := hi.pending
  rw [hc] at hp
  have hg := hg event rest hc rfl
  unfold CounterDrone.dispatch
  by_cases hevent : event.fd = n.listener.eventFd.fd
  · rw [if_pos hevent]
    exact (h.pushLog _).goto nofun
  rw [if_neg hevent]
  by_cases hserver : event.fd = n.listener.serverFd.fd
  · rw [if_pos hserver]
    exact h.goto nofun
  rw [if_neg hserver]
  by_cases hhup : event.events &&& (EPOLLERR ||| EPOLLHUP) ≠ 0
  · rw [if_pos hhup]
    rcases hp.2 event List.mem_cons_self with hx | hx | hx
    · exact absurd hx hserver
    · exact absurd hx hevent
    · exact h.disconnect hi hx (hg hevent hserver hhup)
  rw [if_neg hhup]
  by_cases hin : event.events &&& EPOLLIN ≠ 0
  · rw [if_pos hin]
    exact h.goto nofun
  · rw [if_neg hin]
    exact h.goto nofun

/-- A new connection, still open or never registered. -/
theorem Drained.append (h : Drained n) {n' : Net ReceiveBuffer} {c : Connection × ReceiveBuffer}
    (he : n'.kernel.connections = n.kernel.connections ++ [c]) (hctl : ∀ fd rest, n'.control ≠ .disconnecting fd rest)
    (hc : c.1.registered = true → c.1.closed = false) : Drained n' := by
  constructor
  · intro a ha hreg hclosed
    rw [he] at ha
    rcases List.mem_append.1 ha with ha | ha
    · exact h.closed a ha hreg hclosed
    · rw [List.mem_singleton.1 ha] at hreg hclosed
      rw [hc hreg] at hclosed
      cases hclosed
  · intro fd rest he
    exact absurd he (hctl fd rest)

/-- One iteration of `handle_accept`. -/
theorem Drained.accept (h : Drained n) (hi : LoopInv n) (hc : n.control = .accepting rest)
    (accepted : AcceptResult ReceiveBuffer) (nonblocking added : Except String Unit)
    (hnew : ∀ fd addr socket, accepted = .connection fd addr socket →
      0 ≤ fd ∧ fd ∉ n.kernel.opened ∧ socket.unread = socket.arrived) :
    Drained (handleAccept n rest accepted nonblocking added) := by
  cases accepted with
  | wouldBlock =>
    apply h.goto
    intro fd' rest' he
    cases he
  | error what =>
    apply (h.pushLog _).goto
    intro fd' rest' he
    cases he
  | connection fd addr socket =>
    obtain ⟨hpos, hfd, -⟩ := hnew fd addr socket rfl
    have hctl : ∀ fd' rest', n.control ≠ .disconnecting fd' rest' := by
      intro fd' rest' he
      rw [hc] at he
      cases he
    have hclose : ((SocketHandle.mk fd).destroy (n.kernel.accept fd socket)).connections =
        n.kernel.connections ++ [({ fd := fd, closed := true }, socket)] := by
      rw [SocketHandle.destroy, if_pos hpos, accept_close _ _ (hi.not_bound hfd)]
    cases nonblocking with
    | error what => exact h.append hclose hctl fun he => by cases he
    | ok _ =>
      cases added with
      | error what => exact h.append hclose hctl fun he => by cases he
      | ok _ =>
        rw [handleAccept_stored (hi.owned.not_client hfd)]
        exact h.append (accept_epollAdd _ _ (hi.not_bound hfd)) hctl fun _ => rfl

/-- One iteration of `handle_client_data`. -/
theorem Drained.recv (h : Drained n) (hi : LoopInv n) (hc : n.control = .draining fd rest) {result : RecvResult}
    {k : Kernel ReceiveBuffer} (hr : n.kernel.Recv receiveBuffers fd result k) :
    Drained (handleClientData { n with kernel := k } fd rest result) := by
  have hp := hi.pending
  rw [hc] at hp
  obtain ⟨pre, c, post, t, he, hb, hpre, hpost, hrecv, rfl, hconn⟩ := hi.recv_split hp.2.1 hr
  obtain ⟨-, -, hgiven⟩ := ReceiveBuffer.Recv.spec hrecv
  have hold : ∀ a, a ∈ pre ∨ a ∈ post → a ∈ n.kernel.connections := fun a ha => by rw [he]; exact mem_others c ha
  have hclosed : ∀ a ∈ (n.kernel.received fd result t).connections,
      a.1.registered = true → a.1.closed = true → a.2.unread = [] := by
    intro a ha hreg hcl
    rw [hconn] at ha
    rcases mem_replace ha with rfl | ha
    · rw [hb.2] at hcl
      cases hcl
    · exact h.closed a (hold a ha) hreg hcl
  -- the stream was given up: the only connection of the descriptor is the one just read
  have hended : t.unread = [] → t.ended ≠ none → ∀ a ∈ (n.kernel.received fd result t).connections,
      a.1.Bound fd → a.2.unread = [] ∧ a.2.ended ≠ none := by
    intro hnil hend a ha hba
    rw [hconn] at ha
    rcases mem_replace ha with rfl | ha | ha
    · exact ⟨hnil, hend⟩
    · exact absurd hba (hpre a ha)
    · exact absurd hba.1 (hpost a ha)
  have hover : (∀ bytes, result ≠ .data bytes) → result ≠ .wouldBlock → t.unread = [] ∧ t.ended ≠ none := by
    intro hdata hblock
    rcases hgiven with ⟨bytes, hx⟩ | hx | hx
    · exact absurd hx (hdata bytes)
    · exact absurd hx hblock
    · exact hx
  cases result with
  | data bytes => exact ⟨hclosed, fun fd' rest' he => by cases hc.symm.trans he⟩
  | wouldBlock => exact ⟨hclosed, nofun⟩
  | closed =>
    refine ⟨hclosed, fun fd' rest' he => ?_⟩
    cases he
    exact hended (hover nofun nofun).1 (hover nofun nofun).2
  | error what =>
    refine ⟨hclosed, fun fd' rest' he => ?_⟩
    cases he
    exact hended (hover nofun nofun).1 (hover nofun nofun).2

/-- Every step that meets the condition on hangups keeps the invariant. -/
theorem Drained.step {n n' : Net receiveBuffers.Socket} (h : Drained n) (hi : LoopInv n) (hs : ListenerStep receiveBuffers n n')
    (hg : HangupDrained n n') : Drained n' := by
  cases hs with
  | evolve he hopen hev => exact h.evolve he hopen hev
  | requestStop => exact ⟨h.closed, h.ended⟩
  | test hc =>
    apply h.goto
    split <;> nofun
  | interrupted hc => exact h.goto nofun
  | pollError hc what => exact (h.pushLog _).goto nofun
  | poll hc hlen hnodup hreg => exact h.goto nofun
  | dispatch hc => exact h.dispatch hi hc hg
  | batchDone hc => exact h.goto nofun
  | accept hc accepted nonblocking added hnew => exact h.accept hi hc accepted nonblocking added hnew
  | recv hc hr => exact h.recv hi hc hr
  | disconnect hc =>
    have hp := hi.pending
    rw [hc] at hp
    exact h.disconnect hi hp.2.1 fun c hcm hb => (h.ended _ _ hc c hcm hb).1

end Steps

theorem Drained.start {n : Net ReceiveBuffer} (h : n.Initial) : Drained n := by
  have hnone : ∀ c, c ∉ n.kernel.connections := by
    rw [h.connections]
    nofun
  exact ⟨fun c hc => absurd hc (hnone c), fun _ _ _ c hc => absurd hc (hnone c)⟩

/-! ## Main result -/

/-- **No received byte is dropped at a disconnect** in any run in which events with `EPOLLERR` or `EPOLLHUP` find the
receive buffer of their client empty: the chunks pushed under a descriptor are the blocks of the connections registered
under it, and the data chunks in the block of a connection that the listener has disconnected are all bytes that had
arrived on it. -/
theorem no_byte_dropped (n : Net ReceiveBuffer)
    (hn : ((listenerSystem receiveBuffers).guarded HangupDrained).Reachable n) :
    (∀ f, (n.queue.filter fun d => d.clientId = f) =
      ((n.kernel.sessions.filter fun c => c.registered ∧ c.fd = f).flatMap Connection.block)) ∧ Lossless n := by
  refine ⟨(reachable_inv hn.of_guarded).framed, Drained.lossless ?_ (reachable_balanced hn.of_guarded)⟩
  refine hn.invariant (I := Drained) (fun _ h => Drained.start h) ?_
  intro s t hs h hst
  exact h.step (reachable_inv hs.of_guarded) hst.1 hst.2

/-- A byte arrives and is read, and then the connection is disconnected by its hangup. -/
theorem no_byte_dropped_read :
    ∃ n, ((listenerSystem receiveBuffers).guarded HangupDrained).Reachable n ∧ n.queue = [⟨7, [0x41]⟩, ⟨7, []⟩] ∧
      (∃ c ∈ n.kernel.connections, c.1.registered = true ∧ c.1.closed = true ∧ c.2.arrived = [0x41]) ∧ Lossless n := by
  have hS : Serves ((listenerSystem receiveBuffers).guarded HangupDrained) := by
    intro n n' hs hcalm
    refine ⟨hs, ?_⟩
    intro event rest hc _ _ _ hhup
    rcases hcalm event rest hc with hin | hread
    · rw [hin] at hhup
      exact absurd rfl hhup
    · exact hread
  have hn := servedNet_reachable hS startNet_initial
  exact ⟨_, hn, rfl, ⟨_, List.mem_cons_self, rfl, rfl, rfl⟩, (no_byte_dropped _ hn).2⟩

/-- A run that drops a byte: it arrives, the connection is reset, and one event reports all of it. -/
theorem hangup_drops_byte :
    ∃ n, (listenerSystem receiveBuffers).Reachable n ∧ n.queue = [⟨7, []⟩] ∧
      (∃ c ∈ n.kernel.connections, c.1.registered = true ∧ c.1.closed = true ∧ c.2.arrived = [0x41] ∧ c.1.received = []) ∧
      ¬Lossless n := by
  have hpolling : (listenerSystem receiveBuffers).Reachable ((acceptedNet ⟨[0x41], [0x41], none⟩).goto .polling) :=
    acceptedNet_reachable (fun _ _ h _ => h) startNet_initial rfl
  have hreset : (listenerSystem receiveBuffers).Reachable
      ((acceptedNet ⟨[0x41], [0x41], some (.error "Connection reset by peer")⟩).goto .polling) :=
    .step hpolling (@ListenerStep.evolve receiveBuffers _
      ({ fd := 7, registered := true }, ⟨[0x41], [0x41], none⟩) [] [] _ rfl rfl (.finish _ _))
  have hbatch : (listenerSystem receiveBuffers).Reachable
      ((acceptedNet ⟨[0x41], [0x41], some (.error "Connection reset by peer")⟩).goto
        (.dispatching [⟨7, EPOLLIN ||| EPOLLERR ||| EPOLLHUP⟩])) :=
    .step hreset (.poll rfl (by decide) (by decide) (by decide))
  have hn := System.Reachable.step hbatch (.dispatch rfl)
  refine ⟨_, hn, rfl, ⟨_, List.mem_cons_self, rfl, rfl, rfl, rfl⟩, ?_⟩
  intro hall
  have := hall _ List.mem_cons_self rfl rfl
  cases this

end CounterDrone

import Mathlib
import CounterDrone.Lib.Reach
import CounterDrone.Telemetry

/-!
# The network listener

`NetworkListener` of `listener.cpp` over a model of the kernel: the open file descriptors, the epoll registrations and
every connection accepted so far, in order. The functions of the listener take what the system calls return as
arguments; `ListenerStep` lets these results be whatever the kernel allows, interleaves the event loop with arrivals
on the sockets and with the stop request, and is the step of `listenerSystem`.

How the sockets themselves behave is a parameter (`SocketModel`): the sockets of `receiveBuffers` hold the bytes that
have arrived and not been read, and report the end of the stream or an error only after these.
-/

namespace CounterDrone

/-! ## Sockets -/

/-- What `recv` on a socket returns. -/
inductive RecvResult
  /-- a positive number of bytes -/
  | data (bytes : List Byte)
  /-- zero: the peer has closed its end -/
  | closed
  /-- `EAGAIN` or `EWOULDBLOCK` -/
  | wouldBlock
  /-- another error, and its text -/
  | error (what : String)

/-- The bytes of a `recv`, as the chunks it makes. -/
def RecvResult.chunks : RecvResult → List (List Byte)
  | data bytes => [bytes]
  | closed => []
  | wouldBlock => []
  | error _ => []

/-- How sockets behave: the states in which `accept` can hand one out, what happens to it by itself, and what `recv`
does. A `recv` never returns more bytes than it was asked for. -/
structure SocketModel where
  Socket : Type
  accepted : Socket → Prop
  evolves : Socket → Socket → Prop
  recv : Socket → RecvResult → Socket → Prop
  recv_size : ∀ {s t bytes}, recv s (.data bytes) t → bytes ≠ [] ∧ bytes.length ≤ RECV_BUF_SIZE

/-- How a stream has ended. -/
inductive StreamEnd
  | closed
  | error (what : String)
  deriving DecidableEq

/-- A receive buffer: every byte that has arrived, those not read yet, and how the stream has ended. -/
structure ReceiveBuffer where
  arrived : List Byte
  unread : List Byte
  ended : Option StreamEnd := none
  deriving DecidableEq

/-- What happens to a receive buffer by itself. -/
inductive ReceiveBuffer.Evolves : ReceiveBuffer → ReceiveBuffer → Prop
  /-- bytes arrive -/
  | arrive (b : ReceiveBuffer) (bytes : List Byte) (h : b.ended = none) :
      Evolves b { b with arrived := b.arrived ++ bytes, unread := b.unread ++ bytes }
  /-- the peer closes its end, or the connection fails -/
  | finish (b : ReceiveBuffer) (e : StreamEnd) : Evolves b { b with ended := some e }

/-- `recv` on a receive buffer. -/
inductive ReceiveBuffer.Recv : ReceiveBuffer → RecvResult → ReceiveBuffer → Prop
  /-- bytes come in order, as long as there are any -/
  | data (b : ReceiveBuffer) (bytes rest : List Byte) (h : b.unread = bytes ++ rest) (hne : bytes ≠ [])
      (hlen : bytes.length ≤ RECV_BUF_SIZE) : Recv b (.data bytes) { b with unread := rest }
  | wouldBlock (b : ReceiveBuffer) (h : b.unread = []) (he : b.ended = none) : Recv b .wouldBlock b
  | closed (b : ReceiveBuffer) (h : b.unread = []) (he : b.ended = some .closed) : Recv b .closed b
  /-- an error is reported once; the stream is over -/
  | error (b : ReceiveBuffer) (what : String) (h : b.unread = []) (he : b.ended = some (.error what)) :
      Recv b (.error what) { b with ended := some .closed }

/-- Sockets with receive buffers. -/
abbrev receiveBuffers : SocketModel where
  Socket := ReceiveBuffer
  accepted b := b.unread = b.arrived
  evolves := ReceiveBuffer.Evolves
  recv := ReceiveBuffer.Recv
  recv_size := by
    intro s t bytes h
    cases h with
    | data _ _ _ hne hlen => exact ⟨hne, hlen⟩

/-! ## The kernel -/

/-- A connection: its descriptor, whether it was registered with epoll, whether it has been closed, and what each `recv`
returned for it. -/
structure Connection where
  fd : Int
  registered : Bool := false
  closed : Bool := false
  received : List (List Byte) := []
  deriving DecidableEq

/-- The connection that a descriptor refers to now. -/
def Connection.Bound (c : Connection) (fd : Int) : Prop := c.fd = fd ∧ c.closed = false

instance (c : Connection) (fd : Int) : Decidable (c.Bound fd) := inferInstanceAs (Decidable (_ ∧ _))

/-- A call that hands out or takes back a descriptor. -/
inductive Call
  | accepted (fd : Int)
  | closed (fd : Int)
  deriving DecidableEq

/-- The open descriptors, the epoll registrations, the connections in the order of `accept`, each with its socket, and
the calls made. -/
structure Kernel (σ : Type) where
  opened : Finset Int
  interest : Finset Int
  connections : List (Connection × σ) := []
  calls : List Call := []

variable {σ : Type}

/-- Change the connection that a descriptor refers to. -/
def updateBound (fd : Int) (g : Connection × σ → Connection × σ) (cs : List (Connection × σ)) : List (Connection × σ) :=
  cs.map fun c => if c.1.Bound fd then g c else c

namespace Kernel

/-- The connections without their sockets. -/
def sessions (k : Kernel σ) : List Connection := k.connections.map Prod.fst

/-- `accept` hands out `fd`. -/
def accept (k : Kernel σ) (fd : Int) (socket : σ) : Kernel σ :=
  { k with
    opened := insert fd k.opened
    connections := k.connections ++ [({ fd := fd }, socket)]
    calls := k.calls ++ [.accepted fd] }

/-- `epoll_ctl` with `EPOLL_CTL_ADD`, when it succeeds. -/
def epollAdd (k : Kernel σ) (fd : Int) : Kernel σ :=
  { k with
    interest := insert fd k.interest
    connections := updateBound fd (fun c => ({ c.1 with registered := true }, c.2)) k.connections }

/-- `epoll_ctl` with `EPOLL_CTL_DEL`. -/
def epollDel (k : Kernel σ) (fd : Int) : Kernel σ := { k with interest := k.interest.erase fd }

/-- `close`, which ends the registration too. -/
def close (k : Kernel σ) (fd : Int) : Kernel σ :=
  { opened := k.opened.erase fd
    interest := k.interest.erase fd
    connections := updateBound fd (fun c => ({ c.1 with closed := true }, c.2)) k.connections
    calls := k.calls ++ [.closed fd] }

/-- `recv` has returned `result` for the connection that `fd` refers to. -/
def received (k : Kernel σ) (fd : Int) (result : RecvResult) (socket : σ) : Kernel σ :=
  { k with
    connections := updateBound fd
      (fun c => ({ c.1 with received := c.1.received ++ result.chunks }, socket)) k.connections }

/-- What `recv` can return, and the kernel after it. -/
inductive Recv (M : SocketModel) (k : Kernel M.Socket) (fd : Int) : RecvResult → Kernel M.Socket → Prop
  | bound {c : Connection × M.Socket} (hc : c ∈ k.connections) (hb : c.1.Bound fd) {result : RecvResult} {t : M.Socket}
      (h : M.recv c.2 result t) : Recv M k fd result (k.received fd result t)
  /-- a descriptor that is not open -/
  | unbound (h : ∀ c ∈ k.connections, ¬c.1.Bound fd) (what : String) : Recv M k fd (.error what) k

end Kernel

/-! ## The listener -/

def EPOLLIN : BitVec 32 := 0x001

def EPOLLERR : BitVec 32 := 0x008

def EPOLLHUP : BitVec 32 := 0x010

/-- Maximum events returned per `epoll_wait` call. -/
def MAX_EPOLL_EVENTS : Nat := 64

/-- `epoll_event`: the descriptor it was registered with, and the flags. -/
structure EpollEvent where
  fd : Int
  events : BitVec 32
  deriving DecidableEq

/-- The owner of a descriptor, `-1` for none. -/
structure SocketHandle where
  fd : Int := -1
  deriving DecidableEq

namespace SocketHandle

/-- The destructor. -/
def destroy (h : SocketHandle) (k : Kernel σ) : Kernel σ := if h.fd ≥ 0 then k.close h.fd else k

/-- The move constructor: the new handle, and the one moved from. -/
def move (h : SocketHandle) : SocketHandle × SocketHandle := (⟨h.fd⟩, ⟨-1⟩)

end SocketHandle

/-- The descriptors of the listener and its active clients. -/
structure NetworkListener where
  serverFd : SocketHandle
  epollFd : SocketHandle
  eventFd : SocketHandle
  clients : Int → Option SocketHandle := fun _ => none

/-- Where the event loop is. -/
inductive Control
  /-- at the test of the stop token -/
  | loop
  /-- in `epoll_wait` -/
  | polling
  /-- before the dispatch of the events left in the batch -/
  | dispatching (events : List EpollEvent)
  /-- in the loop of `handle_accept` -/
  | accepting (events : List EpollEvent)
  /-- in the loop of `handle_client_data` -/
  | draining (fd : Int) (events : List EpollEvent)
  /-- `handle_client_data` has returned `false` -/
  | disconnecting (fd : Int) (events : List EpollEvent)
  /-- `run` has returned -/
  | finished

/-- The listener with the kernel, the chunks it has pushed to the raw queue, and its log messages. -/
structure Net (σ : Type) where
  kernel : Kernel σ
  listener : NetworkListener
  queue : List DataChunk := []
  log : List String := []
  control : Control := .loop
  stopRequested : Bool := false

namespace Net

/-- `m_queue.push`. -/
def push (n : Net σ) (chunk : DataChunk) : Net σ := { n with queue := n.queue ++ [chunk] }

/-- `m_log_queue.push`. -/
def pushLog (n : Net σ) (message : String) : Net σ := { n with log := n.log ++ [message] }

/-- Go on at another point of the event loop. -/
def goto (n : Net σ) (control : Control) : Net σ := { n with control := control }

/-- A handle goes out of scope. -/
def destroy (n : Net σ) (h : SocketHandle) : Net σ := { n with kernel := h.destroy n.kernel }

/-- `m_clients.emplace`: the handle goes into a new entry; when there is one already, it is destroyed. -/
def emplace (n : Net σ) (key : Int) (h : SocketHandle) : Net σ :=
  match n.listener.clients key with
  | none => { n with listener := { n.listener with clients := Function.update n.listener.clients key (some h) } }
  | some _ => n.destroy h

/-- `m_clients.erase`, which destroys the handle of the entry. -/
def erase (n : Net σ) (key : Int) : Net σ :=
  match n.listener.clients key with
  | none => n
  | some h =>
    { n.destroy h with listener := { n.listener with clients := Function.update n.listener.clients key none } }

end Net

/-- What `accept` returns. -/
inductive AcceptResult (σ : Type)
  /-- `EAGAIN` or `EWOULDBLOCK` -/
  | wouldBlock
  /-- another error, and its text -/
  | error (what : String)
  /-- a new connection, and the address of the peer -/
  | connection (fd : Int) (addr : String) (socket : σ)

/-- One iteration of the loop of `handle_accept`, with what `accept`, `set_nonblocking` and `epoll_ctl` return. -/
def handleAccept (n : Net σ) (rest : List EpollEvent) (accepted : AcceptResult σ)
    (nonblocking added : Except String Unit) : Net σ :=
  match accepted with
  | .wouldBlock => n.goto (.dispatching rest)
  | .error what => (n.pushLog ("[NetworkListener] accept() error: " ++ what ++ "\n")).goto (.dispatching rest)
  | .connection rawFd addr socket =>
    let n := { n with kernel := n.kernel.accept rawFd socket }
    let clientHandle : SocketHandle := ⟨rawFd⟩
    match nonblocking with
    | .error what =>
      (n.pushLog ("[NetworkListener] set_nonblocking failed for client fd=" ++ toString clientHandle.fd ++ ": " ++ what ++
        "\n")).destroy clientHandle
    | .ok () =>
      match added with
      | .error what =>
        (n.pushLog ("[NetworkListener] epoll_ctl add client failed: " ++ what ++ "\n")).destroy clientHandle
      | .ok () =>
        let n := { n with kernel := n.kernel.epollAdd clientHandle.fd }
        let n := n.pushLog ("[NetworkListener] Client connected (fd=" ++ toString clientHandle.fd ++ ", addr=" ++ addr ++
          ")\n")
        let (owner, movedFrom) := clientHandle.move
        (n.emplace clientHandle.fd owner).destroy movedFrom

/-- One iteration of the loop of `handle_client_data`, after `recv` has returned `result`. -/
def handleClientData (n : Net σ) (clientFd : Int) (rest : List EpollEvent) (result : RecvResult) : Net σ :=
  match result with
  | .data bytes => n.push ⟨clientFd, bytes⟩
  | .closed => n.goto (.disconnecting clientFd rest)
  | .wouldBlock => n.goto (.dispatching rest)
  | .error what =>
    (n.pushLog ("[NetworkListener] recv() error on fd " ++ toString clientFd ++ ": " ++ what ++ "\n")).goto
      (.disconnecting clientFd rest)

/-- `disconnect_client`. -/
def disconnectClient (n : Net σ) (clientFd : Int) : Net σ :=
  let n := { n with kernel := n.kernel.epollDel clientFd }
  let n := n.erase clientFd
  let n := n.push ⟨clientFd, []⟩
  n.pushLog ("[NetworkListener] Client disconnected (fd=" ++ toString clientFd ++ ")\n")

/-- The dispatch of one event. -/
def dispatch (n : Net σ) (event : EpollEvent) (rest : List EpollEvent) : Net σ :=
  if event.fd = n.listener.eventFd.fd then
    (n.pushLog "[NetworkListener] Shutdown event received. Shutting down...\n").goto .finished
  else if event.fd = n.listener.serverFd.fd then n.goto (.accepting rest)
  else if event.events &&& (EPOLLERR ||| EPOLLHUP) ≠ 0 then (disconnectClient n event.fd).goto (.dispatching rest)
  else if event.events &&& EPOLLIN ≠ 0 then n.goto (.draining event.fd rest)
  else n.goto (.dispatching rest)

/-! ## Runs -/

/-- One step of the event loop, of a socket, or the stop request. -/
inductive ListenerStep (M : SocketModel) : Net M.Socket → Net M.Socket → Prop
  /-- something happens to an open socket by itself -/
  | evolve {n : Net M.Socket} {c : Connection × M.Socket} {pre post : List (Connection × M.Socket)} {t : M.Socket}
      (hc : n.kernel.connections = pre ++ c :: post) (hopen : c.1.closed = false) (h : M.evolves c.2 t) :
      ListenerStep M n { n with kernel := { n.kernel with connections := pre ++ (c.1, t) :: post } }
  | requestStop (n : Net M.Socket) : ListenerStep M n { n with stopRequested := true }
  /-- the test of the loop -/
  | test {n : Net M.Socket} (h : n.control = .loop) :
      ListenerStep M n (n.goto (if n.stopRequested then .finished else .polling))
  /-- `epoll_wait` is interrupted by a signal -/
  | interrupted {n : Net M.Socket} (h : n.control = .polling) : ListenerStep M n (n.goto .loop)
  /-- `epoll_wait` fails otherwise -/
  | pollError {n : Net M.Socket} (h : n.control = .polling) (what : String) :
      ListenerStep M n ((n.pushLog ("[NetworkListener] epoll_wait error: " ++ what ++ "\n")).goto .finished)
  /-- `epoll_wait` returns events: any flags, at most one event for a descriptor, registered ones only -/
  | poll {n : Net M.Socket} (h : n.control = .polling) {events : List EpollEvent} (hlen : events.length ≤ MAX_EPOLL_EVENTS)
      (hnodup : (events.map EpollEvent.fd).Nodup) (hreg : ∀ e ∈ events, e.fd ∈ n.kernel.interest) :
      ListenerStep M n (n.goto (.dispatching events))
  | dispatch {n : Net M.Socket} {event : EpollEvent} {rest : List EpollEvent}
      (h : n.control = .dispatching (event :: rest)) : ListenerStep M n (dispatch n event rest)
  | batchDone {n : Net M.Socket} (h : n.control = .dispatching []) : ListenerStep M n (n.goto .loop)
  /-- `accept` hands out a descriptor that is not open; the other calls return anything -/
  | accept {n : Net M.Socket} {rest : List EpollEvent} (h : n.control = .accepting rest) (accepted : AcceptResult M.Socket)
      (nonblocking added : Except String Unit)
      (hnew : ∀ fd addr socket, accepted = .connection fd addr socket → 0 ≤ fd ∧ fd ∉ n.kernel.opened ∧ M.accepted socket) :
      ListenerStep M n (handleAccept n rest accepted nonblocking added)
  | recv {n : Net M.Socket} {fd : Int} {rest : List EpollEvent} (h : n.control = .draining fd rest) {result : RecvResult}
      {k : Kernel M.Socket} (hr : n.kernel.Recv M fd result k) :
      ListenerStep M n (handleClientData { n with kernel := k } fd rest result)
  | disconnect {n : Net M.Socket} {fd : Int} {rest : List EpollEvent} (h : n.control = .disconnecting fd rest) :
      ListenerStep M n ((disconnectClient n fd).goto (.dispatching rest))

/-- The state in which the event loop starts: the three descriptors of the listener are open, two of them registered. -/
structure Net.Initial (n : Net σ) : Prop where
  opened : n.listener.serverFd.fd ∈ n.kernel.opened ∧ n.listener.epollFd.fd ∈ n.kernel.opened ∧
    n.listener.eventFd.fd ∈ n.kernel.opened
  interest : n.kernel.interest = {n.listener.serverFd.fd, n.listener.eventFd.fd}
  connections : n.kernel.connections = []
  calls : n.kernel.calls = []
  clients : ∀ fd, n.listener.clients fd = none
  queue : n.queue = []
  control : n.control = .loop

/-- The runs of the event loop over sockets of the given kind. -/
def listenerSystem (M : SocketModel) : System (Net M.Socket) where
  init := Net.Initial
  step := ListenerStep M

end CounterDrone

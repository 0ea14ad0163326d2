import Mathlib
import CounterDrone.Ownership

/-!
# The listener from its set-up to its destructor

`setup_server_socket` and `setup_epoll` of `listener.cpp` take what their system calls return as arguments and may throw
after any of them. Whatever they return, the descriptors opened so far are owned by the three handles of the listener
(`Owning`, `setup_owning`), and when none of them fails the event loop starts in a launched state (`setup_launched`).
From there the open descriptors are those from before, the three of the listener and the keys of `m_clients`
(`OpenedInv`), so the destructor closes what was opened, each descriptor once:

* `setup_all_or_nothing`: after a set-up that throws, and after one that does not;
* `lifetime_leaves_nothing_open`: after any run of the event loop.
-/

namespace CounterDrone

open Std.Do

set_option mvcgen.warning false

variable {σ : Type}

/-! ## Set-up -/

/-- `SocketHandle::reset`: the handle and the kernel after it. -/
def SocketHandle.reset (h : SocketHandle) (fd : Int) (k : Kernel σ) : SocketHandle × Kernel σ := (⟨fd⟩, h.destroy k)

/-- `socket`, `epoll_create1` or `eventfd` hands out `fd`. -/
def Kernel.create (k : Kernel σ) (fd : Int) : Kernel σ := { k with opened := insert fd k.opened }

/-- What the system calls of `setup_server_socket` return: a value, or the text of the error. -/
structure ServerCalls where
  socket : Except String Int
  setsockopt : Except String Unit
  getFlags : Except String Nat
  setFlags : Except String Unit
  bind : Except String Unit
  listen : Except String Unit

/-- What the system calls of `setup_epoll` return. -/
structure EpollCalls where
  epollCreate : Except String Int
  eventfd : Except String Int
  addServer : Except String Unit
  addEvent : Except String Unit

/-- Code that changes the listener and the kernel until it returns, or throws a `std::system_error` with a text. -/
abbrev Setup (σ : Type) := ExceptT String (StateM (Net σ))

/-- Throw when a system call has failed. -/
def check {α : Type} (what : String) : Except String α → Setup σ α
  | .ok a => pure a
  | .error e => throw (what ++ ": " ++ e)

/-- `set_nonblocking`. -/
def setNonblocking (getFlags : Except String Nat) (setFlags : Except String Unit) : Setup σ Unit := do
  let _ ← check "fcntl F_GETFL failed" getFlags
  check "fcntl F_SETFL O_NONBLOCK failed" setFlags

/-- `m_server_fd.reset`. -/
def Net.resetServer (n : Net σ) (fd : Int) : Net σ :=
  let r := n.listener.serverFd.reset fd n.kernel
  { n with listener := { n.listener with serverFd := r.1 }, kernel := r.2 }

/-- `m_epoll_fd.reset`. -/
def Net.resetEpoll (n : Net σ) (fd : Int) : Net σ :=
  let r := n.listener.epollFd.reset fd n.kernel
  { n with listener := { n.listener with epollFd := r.1 }, kernel := r.2 }

/-- `m_event_fd.reset`. -/
def Net.resetEvent (n : Net σ) (fd : Int) : Net σ :=
  let r := n.listener.eventFd.reset fd n.kernel
  { n with listener := { n.listener with eventFd := r.1 }, kernel := r.2 }

/-- A system call has handed out a descriptor. -/
def Net.create (n : Net σ) (fd : Int) : Net σ := { n with kernel := n.kernel.create fd }

/-- `epoll_ctl` has added a descriptor. -/
def Net.watch (n : Net σ) (fd : Int) : Net σ := { n with kernel := n.kernel.epollAdd fd }

def listeningText (port : BitVec 16) : String := "[NetworkListener] Listening on port " ++ toString port.toNat ++ "\n"

/-- `setup_server_socket`. -/
def setupServerSocket (port : BitVec 16) (calls : ServerCalls) : Setup σ Unit := do
  let serverSocket ← check "Failed to create socket" calls.socket
  modify fun n => (n.create serverSocket).resetServer serverSocket
  check "setsockopt SO_REUSEADDR failed" calls.setsockopt
  setNonblocking calls.getFlags calls.setFlags
  check ("Failed to bind on port " ++ toString port.toNat) calls.bind
  check "Failed to listen" calls.listen
  modify fun n => n.pushLog (listeningText port)

/-- `setup_epoll`. -/
def setupEpoll (calls : EpollCalls) : Setup σ Unit := do
  let epollInstance ← check "epoll_create1 failed" calls.epollCreate
  modify fun n => (n.create epollInstance).resetEpoll epollInstance
  let shutdownFd ← check "eventfd failed" calls.eventfd
  modify fun n => (n.create shutdownFd).resetEvent shutdownFd
  check "epoll_ctl add server_fd failed" calls.addServer
  modify fun n => n.watch n.listener.serverFd.fd
  check "epoll_ctl add event_fd failed" calls.addEvent
  modify fun n => n.watch n.listener.eventFd.fd

/-- The beginning of `run`: both set-ups, the second only when the first has not thrown. -/
def setup (port : BitVec 16) (server : ServerCalls) (epoll : EpollCalls) : Setup σ Unit := do
  setupServerSocket port server
  setupEpoll epoll

/-- The listener before `run`: no handle owns a descriptor, and nothing has happened yet. -/
structure Net.Unlaunched (n : Net σ) : Prop where
  listener : n.listener = { serverFd := {}, epollFd := {}, eventFd := {} }
  interest : n.kernel.interest = ∅
  connections : n.kernel.connections = []
  calls : n.kernel.calls = []
  queue : n.queue = []
  control : n.control = .loop

/-- The system calls hand out descriptors that are not open when they do. -/
structure HandedOut (opened : Finset Int) (server : ServerCalls) (epoll : EpollCalls) : Prop where
  socket : ∀ fd, server.socket = .ok fd → 0 ≤ fd ∧ fd ∉ opened
  epollCreate : ∀ fd, epoll.epollCreate = .ok fd → 0 ≤ fd ∧ fd ∉ opened ∧ server.socket ≠ .ok fd
  eventfd : ∀ fd, epoll.eventfd = .ok fd → 0 ≤ fd ∧ fd ∉ opened ∧ server.socket ≠ .ok fd ∧ epoll.epollCreate ≠ .ok fd

/-! ## What the handles own -/

/-- The descriptors that the three handles of the listener own. -/
def NetworkListener.own (l : NetworkListener) : List Int :=
  [l.serverFd.fd, l.epollFd.fd, l.eventFd.fd].filter fun fd => 0 ≤ fd

/-- Before the event loop: beyond those of `base`, the open descriptors are the ones that the handles own. -/
structure Owning (base : Finset Int) (n : Net σ) : Prop where
  opened : ∀ fd, fd ∈ n.kernel.opened ↔ fd ∈ base ∨ fd ∈ n.listener.own
  apart : ∀ fd ∈ n.listener.own, fd ∉ base
  nodup : n.listener.own.Nodup
  connections : n.kernel.connections = []
  calls : n.kernel.calls = []
  clients : ∀ fd, n.listener.clients fd = none
  queue : n.queue = []
  control : n.control = .loop

namespace Owning

variable {base : Finset Int} {n : Net σ}

theorem pushLog (h : Owning base n) (message : String) : Owning base (n.pushLog message) :=
  ⟨h.opened, h.apart, h.nodup, h.connections, h.calls, h.clients, h.queue, h.control⟩

end Owning

/-- How far the set-up has come: what the handles own, what is registered, and the log. -/
structure Stage (base : Finset Int) (server epoll event : Int) (interest : Finset Int) (log : List String) (n : Net σ) :
    Prop extends Owning base n where
  serverFd : n.listener.serverFd = ⟨server⟩
  epollFd : n.listener.epollFd = ⟨epoll⟩
  eventFd : n.listener.eventFd = ⟨event⟩
  interest : n.kernel.interest = interest
  log : n.log = log

namespace Stage

variable {base interest : Finset Int} {server epoll event fd : Int} {log : List String} {n : Net σ}

theorem start (h : n.Unlaunched) : Stage n.kernel.opened (-1) (-1) (-1) ∅ n.log n := by
  have hown : n.listener.own = [] := by rw [h.listener]; rfl
  refine ⟨⟨?_, ?_, ?_, h.connections, h.calls, ?_, h.queue, h.control⟩, ?_, ?_, ?_, h.interest, rfl⟩
  · simp [hown]
  · simp [hown]
  · simp [hown]
  · simp [h.listener]
  all_goals rw [h.listener]

theorem pushLog (h : Stage base server epoll event interest log n) (message : String) :
    Stage base server epoll event interest (log ++ [message]) (n.pushLog message) :=
  ⟨h.toOwning.pushLog message, h.serverFd, h.epollFd, h.eventFd, h.interest, by rw [Net.pushLog, h.log]⟩

/-- The server socket is created and owned. -/
theorem resetServer (h : Stage base (-1) (-1) (-1) interest log n) (hpos : 0 ≤ fd) (hbase : fd ∉ base) :
    Stage base fd (-1) (-1) interest log ((n.create fd).resetServer fd) := by
  have hopened := h.opened
  simp only [NetworkListener.own, h.serverFd, h.epollFd, h.eventFd] at hopened
  have he : (n.create fd).resetServer fd =
      { n with listener := { n.listener with serverFd := ⟨fd⟩ }, kernel := n.kernel.create fd } := by
    simp [Net.resetServer, SocketHandle.reset, SocketHandle.destroy, Net.create, h.serverFd]
  rw [he]
  refine ⟨⟨?_, ?_, ?_, h.connections, h.calls, h.clients, h.queue, h.control⟩, rfl, h.epollFd, h.eventFd, h.interest, h.log⟩
  all_goals simp only [NetworkListener.own, Kernel.create, h.epollFd, h.eventFd]
  · intro a
    simp [hopened a, hpos, or_comm]
  · simp [hpos, hbase]
  · simp [hpos]

/-- The epoll instance is created and owned. -/
theorem resetEpoll (h : Stage base server (-1) (-1) interest log n) (hserver : 0 ≤ server) (hpos : 0 ≤ fd)
    (hbase : fd ∉ base) (hne : fd ≠ server) :
    Stage base server fd (-1) interest log ((n.create fd).resetEpoll fd) := by
  have hopened := h.opened
  have hapart := h.apart
  simp only [NetworkListener.own, h.serverFd, h.epollFd, h.eventFd] at hopened hapart
  have he : (n.create fd).resetEpoll fd =
      { n with listener := { n.listener with epollFd := ⟨fd⟩ }, kernel := n.kernel.create fd } := by
    simp [Net.resetEpoll, SocketHandle.reset, SocketHandle.destroy, Net.create, h.epollFd]
  rw [he]
  refine ⟨⟨?_, ?_, ?_, h.connections, h.calls, h.clients, h.queue, h.control⟩, h.serverFd, rfl, h.eventFd, h.interest, h.log⟩
  all_goals simp only [NetworkListener.own, Kernel.create, h.serverFd, h.eventFd]
  · intro a
    simp [hopened a, hpos, hserver]
    tauto
  · simpa [hpos, hbase, hserver] using hapart
  · simpa [hpos, hserver] using hne.symm

/-- The eventfd is created and owned. -/
theorem resetEvent (h : Stage base server epoll (-1) interest log n) (hserver : 0 ≤ server) (hepoll : 0 ≤ epoll)
    (hpos : 0 ≤ fd) (hbase : fd ∉ base) (hne : fd ≠ server) (hne' : fd ≠ epoll) :
    Stage base server epoll fd interest log ((n.create fd).resetEvent fd) := by
  have hopened := h.opened
  have hapart := h.apart
  have hnodup := h.nodup
  simp only [NetworkListener.own, h.serverFd, h.epollFd, h.eventFd] at hopened hapart hnodup
  have he : (n.create fd).resetEvent fd =
      { n with listener := { n.listener with eventFd := ⟨fd⟩ }, kernel := n.kernel.create fd } := by
    simp [Net.resetEvent, SocketHandle.reset, SocketHandle.destroy, Net.create, h.eventFd]
  rw [he]
  refine ⟨⟨?_, ?_, ?_, h.connections, h.calls, h.clients, h.queue, h.control⟩, h.serverFd, h.epollFd, rfl, h.interest, h.log⟩
  all_goals simp only [NetworkListener.own, Kernel.create, h.serverFd, h.epollFd]
  · intro a
    simp [hopened a, hpos, hserver, hepoll]
    tauto
  · simpa [hpos, hbase, hserver, hepoll] using hapart
  · simp [hpos, hserver, hepoll] at hnodup ⊢
    exact ⟨⟨hnodup, hne.symm⟩, hne'.symm⟩

/-- A descriptor is registered; there is no connection that it could be of. -/
theorem watch (h : Stage base server epoll event interest log n) (fd : Int) :
    Stage base server epoll event (insert fd interest) log (n.watch fd) := by
  refine ⟨⟨h.opened, h.apart, h.nodup, ?_, h.calls, h.clients, h.queue, h.control⟩, h.serverFd, h.epollFd, h.eventFd,
    ?_, h.log⟩
  · simp [Net.watch, Kernel.epollAdd, h.connections, updateBound]
  · simp [Net.watch, Kernel.epollAdd, h.interest]

theorem watchServer (h : Stage base server epoll event interest log n) :
    Stage base server epoll event (insert server interest) log (n.watch n.listener.serverFd.fd) := by
  rw [h.serverFd]
  exact h.watch server

theorem watchEvent (h : Stage base server epoll event interest log n) :
    Stage base server epoll event (insert event interest) log (n.watch n.listener.eventFd.fd) := by
  rw [h.eventFd]
  exact h.watch event

/-- At the last stage the event loop can start. -/
theorem launched (h : Stage base server epoll event {server, event} log n) (hserver : 0 ≤ server) (hepoll : 0 ≤ epoll)
    (hevent : 0 ≤ event) : n.Launched := by
  have hopened := h.opened
  have hnodup := h.nodup
  have hs : n.listener.serverFd.fd = server := by rw [h.serverFd]
  have he : n.listener.epollFd.fd = epoll := by rw [h.epollFd]
  have hv : n.listener.eventFd.fd = event := by rw [h.eventFd]
  have hown : n.listener.own = [server, epoll, event] := by
    simp [NetworkListener.own, hs, he, hv, hserver, hepoll, hevent]
  rw [hown] at hopened hnodup
  refine ⟨⟨?_, ?_, h.connections, h.calls, h.clients, h.queue, h.control⟩, ?_⟩
  · rw [hs, he, hv]
    simp [hopened]
  · rw [hs, hv]
    exact h.interest
  · rw [hs, he, hv]
    exact hnodup

end Stage

/-! ## The set-up in stages -/

section Specs

variable {α : Type} {base : Finset Int} {log : List String}

theorem setupServerSocket_spec (port : BitVec 16) (calls : ServerCalls)
    (hout : ∀ fd, calls.socket = .ok fd → 0 ≤ fd ∧ fd ∉ base) :
    ⦃fun n => ⌜Stage base (-1) (-1) (-1) ∅ log n⌝⦄ (setupServerSocket port calls : Setup σ Unit)
      ⦃post⟨fun _ n => ⌜∃ server, calls.socket = .ok server ∧ Stage base server (-1) (-1) ∅ (log ++ [listeningText port]) n⌝,
        fun _ n => ⌜Owning base n⌝⟩⦄ := by
  have hreset : ∀ {n : Net σ} {fd}, Stage base (-1) (-1) (-1) ∅ log n → calls.socket = .ok fd →
      Stage base fd (-1) (-1) ∅ log ((n.create fd).resetServer fd) :=
    fun hn hfd => hn.resetServer (hout _ hfd).1 (hout _ hfd).2
  mvcgen [setupServerSocket, setNonblocking, check]
  case vc1 => exact ⟨_, ‹_›, (hreset ‹_› ‹_›).pushLog _⟩
  case vc7 => exact Stage.toOwning ‹_›
  all_goals exact (hreset ‹_› ‹_›).toOwning

theorem setupEpoll_spec {server : Int} (hserver : 0 ≤ server) (calls : EpollCalls)
    (hepoll : ∀ fd, calls.epollCreate = .ok fd → 0 ≤ fd ∧ fd ∉ base ∧ fd ≠ server)
    (hevent : ∀ fd, calls.eventfd = .ok fd → 0 ≤ fd ∧ fd ∉ base ∧ fd ≠ server ∧ calls.epollCreate ≠ .ok fd) :
    ⦃fun n => ⌜Stage base server (-1) (-1) ∅ log n⌝⦄ (setupEpoll calls : Setup σ Unit)
      ⦃post⟨fun _ n => ⌜n.Launched ∧ n.log = log ∧ Owning base n⌝, fun _ n => ⌜Owning base n⌝⟩⦄ := by
  have hfirst : ∀ {n : Net σ} {fd}, Stage base server (-1) (-1) ∅ log n → calls.epollCreate = .ok fd →
      Stage base server fd (-1) ∅ log ((n.create fd).resetEpoll fd) := by
    intro n fd hn hfd
    obtain ⟨hpos, hbase, hne⟩ := hepoll fd hfd
    exact hn.resetEpoll hserver hpos hbase hne
  have hsecond : ∀ {n : Net σ} {epoll fd}, Stage base server epoll (-1) ∅ log n → calls.epollCreate = .ok epoll →
      calls.eventfd = .ok fd → Stage base server epoll fd ∅ log ((n.create fd).resetEvent fd) := by
    intro n epoll fd hn he hfd
    obtain ⟨hpos, hbase, hne, hne'⟩ := hevent fd hfd
    exact hn.resetEvent hserver (hepoll epoll he).1 hpos hbase hne fun heq => hne' (heq ▸ he)
  mvcgen [setupEpoll, check]
  case vc1 n hn epoll he _ event hv _ _ _ _ _ _ _ =>
    have hstage := hsecond (hfirst hn he) he hv
    have hlast := hstage.watchServer.watchEvent
    rw [show insert event (insert server ∅) = ({server, event} : Finset Int) from Finset.pair_comm event server] at hlast
    exact ⟨hlast.launched hserver (hepoll epoll he).1 (hevent event hv).1, hlast.log, hlast.toOwning⟩
  case vc2 => exact (hsecond (hfirst ‹_› ‹_›) ‹_› ‹_›).watchServer.toOwning
  case vc3 => exact (hsecond (hfirst ‹_› ‹_›) ‹_› ‹_›).toOwning
  case vc4 => exact (hfirst ‹_› ‹_›).toOwning
  case vc5 => exact Stage.toOwning ‹_›

theorem setup_spec (port : BitVec 16) (server : ServerCalls) (epoll : EpollCalls) (hout : HandedOut base server epoll) :
    ⦃fun n => ⌜Stage base (-1) (-1) (-1) ∅ log n⌝⦄ (setup port server epoll : Setup σ Unit)
      ⦃post⟨fun _ n => ⌜n.Launched ∧ n.log = log ++ [listeningText port] ∧ Owning base n⌝, fun _ n => ⌜Owning base n⌝⟩⦄ := by
  refine Triple.bind _ _ (setupServerSocket_spec port server hout.socket) ?_
  rintro ⟨⟩ n ⟨fd, hfd, hstage⟩
  refine setupEpoll_spec (hout.socket fd hfd).1 epoll ?_ ?_ n hstage
  · intro fd' hfd'
    obtain ⟨hpos, hbase, hne⟩ := hout.epollCreate fd' hfd'
    exact ⟨hpos, hbase, fun he => hne (he ▸ hfd)⟩
  · intro fd' hfd'
    obtain ⟨hpos, hbase, hne, hne'⟩ := hout.eventfd fd' hfd'
    exact ⟨hpos, hbase, fun he => hne (he ▸ hfd), hne'⟩

/-- The set-up does not touch the stop token. -/
theorem setup_stop_spec (port : BitVec 16) (server : ServerCalls) (epoll : EpollCalls) (stopped : Bool) :
    ⦃fun n => ⌜n.stopRequested = stopped⌝⦄ (setup port server epoll : Setup σ Unit)
      ⦃post⟨fun _ n => ⌜n.stopRequested = stopped⌝, fun _ n => ⌜n.stopRequested = stopped⌝⟩⦄ := by
  mvcgen [setup, setupServerSocket, setupEpoll, setNonblocking, check]

end Specs

/-- The beginning of `run` from a state: whether it threw, and the state after it. -/
def runSetup (n : Net σ) (port : BitVec 16) (server : ServerCalls) (epoll : EpollCalls) : Except String Unit × Net σ :=
  Id.run ((setup port server epoll).run.run n)

section Setup

variable {n : Net σ} (port : BitVec 16) {server : ServerCalls} {epoll : EpollCalls}

/-- **Whatever the calls return, what they have opened is owned.** -/
theorem setup_owning (hn : n.Unlaunched) (hout : HandedOut n.kernel.opened server epoll) :
    Owning n.kernel.opened (runSetup n port server epoll).2 ∧
      ((runSetup n port server epoll).1 = .ok () →
        (runSetup n port server epoll).2.Launched ∧
          (runSetup n port server epoll).2.log = n.log ++ [listeningText port]) := by
  have h := setup_spec port server epoll hout n (Stage.start hn)
  unfold runSetup
  cases hr : (Id.run ((setup port server epoll).run.run n)).1 with
  | ok u =>
    simp [wp, hr] at h
    exact ⟨h.2.2, fun _ => ⟨h.1, h.2.1⟩⟩
  | error what =>
    simp [wp, hr] at h
    exact ⟨h, fun he => by cases he⟩

theorem setup_stopRequested (n : Net σ) (server : ServerCalls) (epoll : EpollCalls) :
    (runSetup n port server epoll).2.stopRequested = n.stopRequested := by
  have h := setup_stop_spec port server epoll n.stopRequested n rfl
  unfold runSetup
  cases hr : (Id.run ((setup port server epoll).run.run n)).1 with
  | ok u => simpa [wp, hr] using h
  | error what => simpa [wp, hr] using h

end Setup

/-! ## The destructor -/

/-- `~NetworkListener`: the members in reverse order of their declaration. The entries of `m_clients` go in some order. -/
def Net.teardown (n : Net σ) (keys : List Int) : Net σ :=
  let n := keys.foldl Net.erase n
  [n.listener.eventFd, n.listener.epollFd, n.listener.serverFd].foldl Net.destroy n

/-- The open descriptors are those from before the set-up, the three of the listener and the keys of `m_clients`; the
calls on each of these numbers are accounted for. -/
structure OpenedInv (base : Finset Int) (n : Net σ) : Prop where
  ledger : LedgerInv n
  opened : ∀ fd, fd ∈ n.kernel.opened ↔ fd ∈ base ∨ fd ∈ n.listener.own ∨ (n.listener.clients fd).isSome
  own : ∀ fd ∈ n.listener.own, fd ∉ base ∧ callsOn fd n.kernel.calls = []
  nodup : n.listener.own.Nodup
  clients : ∀ fd, (n.listener.clients fd).isSome → fd ∉ base ∧ fd ∉ n.listener.own

namespace OpenedInv

variable {base : Finset Int} {n n' : Net σ}

theorem start (h : Owning base n) : OpenedInv base n where
  ledger := by
    constructor
    · intro fd
      exact ⟨0, by rw [h.calls, h.clients fd]; rfl⟩
    · intro fd hmem
      rw [h.calls] at hmem
      cases hmem
  opened := by
    intro fd
    simp [h.opened fd, h.clients fd]
  own := by
    intro fd hfd
    exact ⟨h.apart fd hfd, by rw [h.calls]; rfl⟩
  nodup := h.nodup
  clients := by
    intro fd hs
    rw [h.clients fd] at hs
    cases hs

/-- **Every move keeps the invariant.** -/
theorem moves (h : OpenedInv base n) (hm : Moves n n') : OpenedInv base n' := by
  have hledger := h.ledger.moves hm
  -- the calls of a move are on one number, which is not one of the listener's own
  have huntouched : ∀ {fd : Int} {new : List Call}, (∀ c ∈ new, c.fd = fd) → fd ∉ n.listener.own →
      ∀ own ∈ n.listener.own, callsOn own (n.kernel.calls ++ new) = [] := by
    intro fd new hnew hfd own hown
    rw [callsOn_append, (h.own own hown).2, callsOn_other hnew (ne_of_mem_of_not_mem hown hfd)]
    rfl
  cases hm with
  | quiet hopened hcalls hlistener =>
    refine ⟨hledger, ?_, ?_, ?_, ?_⟩
    all_goals rw [hlistener]
    · rw [hopened]
      exact h.opened
    · rw [hcalls]
      exact h.own
    · exact h.nodup
    · exact h.clients
  | keep fd hnew hfree hopened hcalls hlistener =>
    have hfd : fd ∉ base ∧ fd ∉ n.listener.own := by
      rw [h.opened fd, not_or, not_or] at hnew
      exact ⟨hnew.1, hnew.2.1⟩
    have hown : n'.listener.own = n.listener.own := by rw [hlistener]; rfl
    refine ⟨hledger, ?_, ?_, ?_, ?_⟩
    all_goals rw [hown]
    · intro a
      rw [hopened, hlistener, Finset.mem_insert, h.opened a]
      by_cases ha : a = fd
      · subst ha
        simp
      · simp [ha]
    · intro a ha
      rw [hcalls]
      exact ⟨(h.own a ha).1, huntouched (by simp [Call.fd]) hfd.2 a ha⟩
    · exact h.nodup
    · intro a ha
      by_cases he : a = fd
      · exact he ▸ hfd
      · rw [hlistener] at ha
        simp only [Function.update_of_ne he] at ha
        exact h.clients a ha
  | turnAway fd hnew hfree hopened hcalls hlistener =>
    have hfd : fd ∉ n.listener.own := by
      rw [h.opened fd, not_or, not_or] at hnew
      exact hnew.2.1
    refine ⟨hledger, ?_, ?_, ?_, ?_⟩
    all_goals rw [hlistener]
    · rw [hopened]
      exact h.opened
    · intro a ha
      rw [hcalls]
      exact ⟨(h.own a ha).1, huntouched (by simp [Call.fd]) hfd a ha⟩
    · exact h.nodup
    · exact h.clients
  | giveUp fd hkept hopened hcalls hlistener =>
    have hfd := h.clients fd (by rw [hkept]; rfl)
    have hown : n'.listener.own = n.listener.own := by rw [hlistener]; rfl
    refine ⟨hledger, ?_, ?_, ?_, ?_⟩
    all_goals rw [hown]
    · intro a
      rw [hopened, hlistener, Finset.mem_erase, h.opened a]
      by_cases ha : a = fd
      · subst ha
        simp [hfd]
      · simp [ha]
    · intro a ha
      rw [hcalls]
      exact ⟨(h.own a ha).1, huntouched (by simp [Call.fd]) hfd.2 a ha⟩
    · exact h.nodup
    · intro a ha
      by_cases he : a = fd
      · exact he ▸ hfd
      · rw [hlistener] at ha
        simp only [Function.update_of_ne he] at ha
        exact h.clients a ha

end OpenedInv

section Teardown

variable {base : Finset Int} {n : Net σ}

/-- Entries own their keys. -/
def EntriesOwn (n : Net σ) : Prop := ∀ fd h, n.listener.clients fd = some h → h = ⟨fd⟩ ∧ 0 ≤ fd

/-- Destroying an entry gives up its key. -/
theorem erase_moves {fd : Int} (hkept : n.listener.clients fd = some ⟨fd⟩) (hpos : 0 ≤ fd) : Moves n (n.erase fd) := by
  have he : n.erase fd = { n with
      kernel := n.kernel.close fd
      listener := { n.listener with clients := Function.update n.listener.clients fd none } } := by
    simp [Net.erase, hkept, Net.destroy, SocketHandle.destroy, hpos]
  rw [he]
  exact .giveUp fd hkept rfl rfl rfl

/-- The destruction of the entries, one key after the other. -/
theorem erase_entries {keys : List Int} (hkeys : keys.Nodup) : ∀ {n : Net σ}, OpenedInv base n → EntriesOwn n →
    (∀ fd, fd ∈ keys ↔ (n.listener.clients fd).isSome) →
    OpenedInv base (keys.foldl Net.erase n) ∧ (∀ fd, (keys.foldl Net.erase n).listener.clients fd = none) ∧
      (keys.foldl Net.erase n).listener.own = n.listener.own := by
  induction keys with
  | nil =>
    intro n h _ henum
    refine ⟨h, fun fd => ?_, rfl⟩
    have := henum fd
    simpa using this
  | cons key keys ih =>
    intro n h hentries henum
    obtain ⟨hnot, hnodup⟩ := List.nodup_cons.mp hkeys
    obtain ⟨a, ha⟩ := Option.isSome_iff_exists.mp ((henum key).mp List.mem_cons_self)
    obtain ⟨rfl, hpos⟩ := hentries key a ha
    have hlistener : (n.erase key).listener =
        { n.listener with clients := Function.update n.listener.clients key none } := by
      simp [Net.erase, ha]
    have hown : (n.erase key).listener.own = n.listener.own := by rw [hlistener]; rfl
    have hentries' : EntriesOwn (n.erase key) := by
      intro fd a' ha'
      rw [hlistener] at ha'
      by_cases he : fd = key
      · subst he
        simp at ha'
      · simp only [Function.update_of_ne he] at ha'
        exact hentries fd a' ha'
    have henum' : ∀ fd, fd ∈ keys ↔ ((n.erase key).listener.clients fd).isSome := by
      intro fd
      rw [hlistener]
      by_cases he : fd = key
      · subst he
        simp [hnot]
      · simp only [Function.update_of_ne he]
        rw [← henum fd, List.mem_cons, or_iff_right he]
    obtain ⟨hinv, hnone, hsame⟩ := ih hnodup (h.moves (erase_moves ha hpos)) hentries' henum'
    exact ⟨hinv, hnone, hsame.trans hown⟩

/-- Handles that go out of scope: the valid ones are closed. -/
theorem destroy_handles (hs : List SocketHandle) : ∀ n : Net σ,
    (∀ fd, fd ∈ (hs.foldl Net.destroy n).kernel.opened ↔
      fd ∈ n.kernel.opened ∧ fd ∉ (hs.map SocketHandle.fd).filter fun fd => 0 ≤ fd) ∧
    (hs.foldl Net.destroy n).kernel.calls =
      n.kernel.calls ++ ((hs.map SocketHandle.fd).filter fun fd => 0 ≤ fd).map Call.closed := by
  induction hs with
  | nil => simp
  | cons h hs ih =>
    intro n
    obtain ⟨hopened, hcalls⟩ := ih (n.destroy h)
    rw [List.foldl_cons, hcalls]
    by_cases hpos : 0 ≤ h.fd
    · have hk : (n.destroy h).kernel = n.kernel.close h.fd := by simp [Net.destroy, SocketHandle.destroy, hpos]
      constructor
      · intro fd
        rw [hopened fd, hk]
        simp [Kernel.close, hpos]
        tauto
      · rw [hk]
        simp [Kernel.close, hpos]
    · have hk : (n.destroy h).kernel = n.kernel := by simp [Net.destroy, SocketHandle.destroy, hpos]
      constructor
      · intro fd
        rw [hopened fd, hk]
        simp [hpos]
      · rw [hk]
        simp [hpos]

/-- Closing different descriptors closes each of them once. -/
theorem callsOn_closed (fd : Int) : ∀ {fds : List Int}, fds.Nodup →
    callsOn fd (fds.map Call.closed) = if fd ∈ fds then [.closed fd] else []
  | [], _ => rfl
  | a :: fds, h => by
    obtain ⟨hnot, hnodup⟩ := List.nodup_cons.mp h
    have ih := callsOn_closed fd hnodup
    by_cases ha : a = fd
    · subst ha
      rw [if_neg hnot] at ih
      rw [List.map_cons, callsOn, List.filter_cons_of_pos (by simp [Call.fd]), ← callsOn, ih]
      simp
    · rw [List.map_cons, callsOn, List.filter_cons_of_neg (by simp [Call.fd, ha]), ← callsOn, ih]
      simp [Ne.symm ha]

/-- The destructor once the entries are gone. -/
theorem teardown_own {keys : List Int} (hown : (keys.foldl Net.erase n).listener.own = n.listener.own) :
    (∀ fd, fd ∈ (n.teardown keys).kernel.opened ↔ fd ∈ (keys.foldl Net.erase n).kernel.opened ∧ fd ∉ n.listener.own) ∧
      (n.teardown keys).kernel.calls =
        (keys.foldl Net.erase n).kernel.calls ++ n.listener.own.reverse.map Call.closed := by
  have hreverse : (([(keys.foldl Net.erase n).listener.eventFd, (keys.foldl Net.erase n).listener.epollFd,
      (keys.foldl Net.erase n).listener.serverFd].map SocketHandle.fd).filter fun fd => 0 ≤ fd) =
      n.listener.own.reverse := by
    rw [← hown, NetworkListener.own, ← List.filter_reverse]
    rfl
  obtain ⟨hopened, hcalls⟩ := destroy_handles [(keys.foldl Net.erase n).listener.eventFd,
    (keys.foldl Net.erase n).listener.epollFd, (keys.foldl Net.erase n).listener.serverFd] (keys.foldl Net.erase n)
  rw [hreverse] at hcalls
  simp only [hreverse, List.mem_reverse] at hopened
  exact ⟨hopened, hcalls⟩

/-- **The destructor closes everything that was opened since before the set-up, each descriptor once.** -/
theorem OpenedInv.teardown (h : OpenedInv base n) (hentries : EntriesOwn n) {keys : List Int} (hkeys : keys.Nodup)
    (henum : ∀ fd, fd ∈ keys ↔ (n.listener.clients fd).isSome) :
    (n.teardown keys).kernel.opened = base ∧
      ∀ fd, if fd ∈ n.listener.own then callsOn fd (n.teardown keys).kernel.calls = [.closed fd]
        else ∃ m, callsOn fd (n.teardown keys).kernel.calls = lives fd m := by
  obtain ⟨hinv, hnone, hown⟩ := erase_entries hkeys h hentries henum
  obtain ⟨hopened, hcalls⟩ := teardown_own hown
  constructor
  · ext fd
    have hbase := h.own fd
    rw [hopened fd, hinv.opened fd, hown, hnone fd]
    simp only [Option.isSome_none, Bool.false_eq_true, or_false]
    tauto
  · intro fd
    have hclosed := callsOn_closed fd (List.nodup_reverse.mpr h.nodup)
    simp only [List.mem_reverse] at hclosed
    rw [hcalls, callsOn_append, hclosed]
    split
    · rename_i hfd
      rw [(hinv.own fd (hown ▸ hfd)).2]
      rfl
    · obtain ⟨m, hm⟩ := hinv.ledger.lives fd
      refine ⟨m, ?_⟩
      rw [hm, hnone fd]
      simp

end Teardown

/-! ## Main results -/

/-- **The set-up is all or nothing.** Whatever its system calls return, the destructor closes each descriptor that they
have opened, once, and leaves open what was open before. If none of them has failed, the event loop starts in a launched
state and the listener has said that it is listening. -/
theorem setup_all_or_nothing (n : Net σ) (port : BitVec 16) (server : ServerCalls) (epoll : EpollCalls) (hn : n.Unlaunched)
    (hout : HandedOut n.kernel.opened server epoll) :
    let r := runSetup n port server epoll
    (r.1 = .ok () → r.2.Launched ∧ r.2.log = n.log ++ [listeningText port]) ∧
    (∀ fd, fd ∈ r.2.kernel.opened ↔ fd ∈ n.kernel.opened ∨ fd ∈ r.2.listener.own) ∧
    (r.2.teardown []).kernel.opened = n.kernel.opened ∧
    ∀ fd, callsOn fd (r.2.teardown []).kernel.calls = if fd ∈ r.2.listener.own then [.closed fd] else [] := by
  intro r
  obtain ⟨hown, hok⟩ := setup_owning port hn hout
  obtain ⟨hopened, hcalls⟩ := @teardown_own _ r.2 [] rfl
  refine ⟨hok, hown.opened, ?_, ?_⟩
  · ext fd
    have hapart := hown.apart fd
    rw [hopened fd, List.foldl_nil, hown.opened fd]
    tauto
  · intro fd
    have hclosed := callsOn_closed fd (List.nodup_reverse.mpr hown.nodup)
    simp only [List.mem_reverse] at hclosed
    rw [hcalls, List.foldl_nil, hown.calls, List.nil_append]
    exact hclosed

/-- A process with its three standard descriptors. -/
def beforeRun : Net ReceiveBuffer :=
  { kernel := { opened := {0, 1, 2}, interest := ∅ }
    listener := { serverFd := {}, epollFd := {}, eventFd := {} } }

/-- All calls of `setup_server_socket` succeed. -/
def servingCalls : ServerCalls := ⟨.ok 3, .ok (), .ok 2, .ok (), .ok (), .ok ()⟩

/-- All calls of `setup_epoll` succeed. -/
def pollingCalls : EpollCalls := ⟨.ok 4, .ok 5, .ok (), .ok ()⟩

theorem beforeRun_unlaunched : beforeRun.Unlaunched := ⟨rfl, rfl, rfl, rfl, rfl, rfl⟩

theorem handedOut_beforeRun (bind : Except String Unit) :
    HandedOut beforeRun.kernel.opened { servingCalls with bind := bind } pollingCalls := by
  refine ⟨?_, ?_, ?_⟩
  all_goals
    intro fd hfd
    cases hfd
    simp [beforeRun, servingCalls, pollingCalls]

/-- The port is taken: the server socket has been opened and is closed again. -/
theorem setup_all_or_nothing_taken :
    let r := runSetup beforeRun 9000 { servingCalls with bind := .error "Address already in use" } pollingCalls
    r.1 = .error ("Failed to bind on port 9000" ++ ": " ++ "Address already in use") ∧
      (r.2.teardown []).kernel.opened = {0, 1, 2} ∧ callsOn 3 (r.2.teardown []).kernel.calls = [.closed 3] := by
  obtain ⟨-, -, hopened, hcalls⟩ := setup_all_or_nothing beforeRun 9000
    { servingCalls with bind := .error "Address already in use" } pollingCalls beforeRun_unlaunched (handedOut_beforeRun _)
  exact ⟨rfl, hopened, hcalls 3⟩

/-- The event loop from a given state on. -/
def runFrom (M : SocketModel) (start : Net M.Socket) : System (Net M.Socket) :=
  { listenerSystem M with init := fun n => n = start }

/-- **The lifetime of the listener leaves nothing open.** From a set-up that has not thrown, over any run of the event
loop and in whatever order `m_clients` is destroyed: the destructor leaves open what was open before the set-up; the three
descriptors of the listener have been closed once, and every other number as often as `accept` has handed it out, each
time before it was handed out again. -/
theorem lifetime_leaves_nothing_open (M : SocketModel) (n₀ : Net M.Socket) (port : BitVec 16) (server : ServerCalls)
    (epoll : EpollCalls) (hn : n₀.Unlaunched) (hout : HandedOut n₀.kernel.opened server epoll)
    (hok : (runSetup n₀ port server epoll).1 = .ok ()) (n : Net M.Socket)
    (hrun : (runFrom M (runSetup n₀ port server epoll).2).Reachable n) (keys : List Int) (hkeys : keys.Nodup)
    (henum : ∀ fd, fd ∈ keys ↔ (n.listener.clients fd).isSome) :
    (n.teardown keys).kernel.opened = n₀.kernel.opened ∧
    ∀ fd, if fd ∈ n.listener.own then callsOn fd (n.teardown keys).kernel.calls = [.closed fd]
      else ∃ m, callsOn fd (n.teardown keys).kernel.calls = lives fd m := by
  obtain ⟨hown, hlaunched⟩ := setup_owning port hn hout
  have hreach : ∀ {n}, (runFrom M (runSetup n₀ port server epoll).2).Reachable n → (listenerSystem M).Reachable n := by
    intro n hn
    refine System.Reachable.mono (S := runFrom M _) (T := listenerSystem M) ?_ (fun _ _ h => h) hn
    rintro s rfl
    exact (hlaunched hok).1.toInitial
  have hinv : OpenedInv n₀.kernel.opened n := by
    refine hrun.invariant (I := OpenedInv n₀.kernel.opened) ?_ ?_
    · rintro s rfl
      exact .start hown
    · intro s t hs h hstep
      exact h.moves ((reachable_inv (hreach hs)).step_moves hstep)
  have hloop := reachable_inv (hreach hrun)
  refine hinv.teardown ?_ hkeys henum
  intro fd a ha
  obtain ⟨c, hc, rfl, hopen⟩ := hloop.owned.clients fd a ha
  exact ⟨hloop.client_eq ha, (hloop.owned.live c hc hopen).2.2.2.1⟩

/-- The listener after a set-up in which all calls succeed. -/
def launchedNet : Net ReceiveBuffer := (runSetup beforeRun 9000 servingCalls pollingCalls).2

/-- A connection has been accepted, as descriptor 7. -/
def connectedNet (b : ReceiveBuffer) : Net ReceiveBuffer :=
  handleAccept (launchedNet.goto (.accepting [])) [] (.connection 7 "10.0.0.1" b) (.ok ()) (.ok ())

/-- The listener waits for a client and accepts it. -/
theorem quiet_connected {b : ReceiveBuffer} (hb : b.unread = b.arrived) :
    QuietRun launchedNet ((connectedNet b).goto .polling) :=
  .head (@quiet_test launchedNet rfl) (quiet_accepts (by decide) (by decide) (by decide) hb rfl nofun rfl)

/-- A client is connected when the listener is stopped: the destructor closes its descriptor and the three of the
listener. -/
theorem lifetime_stopped_connected :
    ∃ n, (runFrom receiveBuffers launchedNet).Reachable n ∧ n.control = .finished ∧ (n.listener.clients 7).isSome ∧
      (n.teardown [7]).kernel.opened = {0, 1, 2} ∧ callsOn 5 (n.teardown [7]).kernel.calls = [.closed 5] ∧
      ∃ m, callsOn 7 (n.teardown [7]).kernel.calls = lives 7 m := by
  have hS : Serves (runFrom receiveBuffers launchedNet) := fun _ _ h _ => h
  let connected := connectedNet ⟨[0x41], [0x41], none⟩
  have hconnected : (runFrom receiveBuffers launchedNet).Reachable (connected.goto .polling) :=
    hS.runs (.init rfl) (quiet_connected rfl)
  have hstopped : (runFrom receiveBuffers launchedNet).Reachable
      (({ connected with stopRequested := true } : Net ReceiveBuffer).goto .polling) :=
    hconnected.step (hS _ _ (.requestStop _) nofun)
  have hn := hS.event hstopped ⟨5, EPOLLIN⟩ (by decide) (Or.inl rfl)
  have henum : ∀ fd, fd ∈ [(7 : Int)] ↔ (connected.listener.clients fd).isSome := by
    intro fd
    show fd ∈ [(7 : Int)] ↔ (Function.update (fun _ => none) 7 (some (SocketHandle.mk 7)) fd).isSome
    by_cases hfd : fd = 7
    · simp [hfd]
    · simp [hfd]
  obtain ⟨hopened, hcalls⟩ := lifetime_leaves_nothing_open receiveBuffers beforeRun 9000 servingCalls pollingCalls
    beforeRun_unlaunched (handedOut_beforeRun (.ok ())) rfl _ hn [7] (List.nodup_singleton 7) henum
  exact ⟨_, hn, rfl, rfl, hopened, hcalls 5, hcalls 7⟩

end CounterDrone

import Mathlib
import CounterDrone.Framing

/-!
# Who owns a descriptor

A descriptor that `accept` hands out belongs to a local `SocketHandle`, then to the entry of `m_clients`, and its number
may be handed out again as soon as it is closed. Each step of the event loop does one of four things to the descriptors
(`Moves`, `step_moves`): nothing, keep a new one, turn a new one away, or give up a kept one. So the calls on a number are
lives of it, handed out and then closed, one after the other, the last one still open exactly when there is an entry
(`LedgerInv`), and the entries, the open client descriptors and their registrations are the same set
(`descriptor_ownership`).
-/

namespace CounterDrone

variable {σ : Type}

/-! ## Lives of a descriptor -/

/-- The descriptor of a call. -/
def Call.fd : Call → Int
  | accepted fd => fd
  | closed fd => fd

/-- The calls on one descriptor. -/
def callsOn (fd : Int) (calls : List Call) : List Call := calls.filter fun c => c.fd = fd

/-- A descriptor handed out and closed, a number of times. -/
def lives (fd : Int) (m : Nat) : List Call := (List.replicate m [Call.accepted fd, Call.closed fd]).flatten

theorem lives_succ (fd : Int) (m : Nat) : lives fd (m + 1) = lives fd m ++ [.accepted fd, .closed fd] := by
  rw [lives, List.replicate_succ', List.flatten_append, List.flatten_singleton]
  rfl

theorem callsOn_append (fd : Int) (as bs : List Call) : callsOn fd (as ++ bs) = callsOn fd as ++ callsOn fd bs :=
  List.filter_append as bs

theorem callsOn_self {fd : Int} {calls : List Call} (h : ∀ c ∈ calls, c.fd = fd) : callsOn fd calls = calls :=
  List.filter_eq_self.mpr fun c hc => by simpa using h c hc

theorem callsOn_other {fd fd' : Int} {calls : List Call} (h : ∀ c ∈ calls, c.fd = fd) (hne : fd' ≠ fd) :
    callsOn fd' calls = [] :=
  List.filter_eq_nil_iff.mpr fun c hc => by simpa [h c hc] using hne.symm

/-! ## What a step does to the descriptors -/

/-- What a step of the event loop does to the descriptors of clients. -/
inductive Moves (n n' : Net σ) : Prop
  /-- nothing -/
  | quiet (hopened : n'.kernel.opened = n.kernel.opened) (hcalls : n'.kernel.calls = n.kernel.calls)
      (hlistener : n'.listener = n.listener)
  /-- a new descriptor gets an entry -/
  | keep (fd : Int) (hnew : fd ∉ n.kernel.opened) (hfree : n.listener.clients fd = none)
      (hopened : n'.kernel.opened = insert fd n.kernel.opened) (hcalls : n'.kernel.calls = n.kernel.calls ++ [.accepted fd])
      (hlistener : n'.listener = { n.listener with clients := Function.update n.listener.clients fd (some ⟨fd⟩) })
  /-- a new descriptor is closed again by the destructor of the local handle -/
  | turnAway (fd : Int) (hnew : fd ∉ n.kernel.opened) (hfree : n.listener.clients fd = none)
      (hopened : n'.kernel.opened = n.kernel.opened)
      (hcalls : n'.kernel.calls = n.kernel.calls ++ [.accepted fd, .closed fd]) (hlistener : n'.listener = n.listener)
  /-- the entry of a descriptor is destroyed, which closes it -/
  | giveUp (fd : Int) (hkept : n.listener.clients fd = some ⟨fd⟩) (hopened : n'.kernel.opened = n.kernel.opened.erase fd)
      (hcalls : n'.kernel.calls = n.kernel.calls ++ [.closed fd])
      (hlistener : n'.listener = { n.listener with clients := Function.update n.listener.clients fd none })

section Steps

variable {n : Net σ} {fd : Int} {rest : List EpollEvent}

/-- `disconnect_client` gives up the descriptor of an open connection. -/
theorem LoopInv.disconnect_moves (h : LoopInv n) (hl : Live n.kernel.sessions fd) :
    Moves n ((disconnectClient n fd).goto (.dispatching rest)) := by
  obtain ⟨pre, c, post, he, hb, hpre, hpost⟩ := h.split hl
  have hmem : c.1 ∈ n.kernel.sessions := List.mem_map_of_mem (he ▸ mem_middle)
  obtain ⟨-, -, -, hpos, hclient⟩ := h.owned.live c.1 hmem hb.2
  rw [hb.1] at hpos hclient
  rw [disconnectClient_eq he hb hpre hpost hpos hclient]
  exact .giveUp fd hclient rfl rfl rfl

/-- The dispatch of an event gives up a descriptor or does nothing to them. -/
theorem LoopInv.dispatch_moves (h : LoopInv n) {event : EpollEvent} (hc : n.control = .dispatching (event :: rest)) :
    Moves n (CounterDrone.dispatch n event rest) := by
  have hp := h.pending
  rw [hc] at hp
  unfold CounterDrone.dispatch
  by_cases hevent : event.fd = n.listener.eventFd.fd
  · rw [if_pos hevent]
    exact .quiet rfl rfl rfl
  rw [if_neg hevent]
  by_cases hserver : event.fd = n.listener.serverFd.fd
  · rw [if_pos hserver]
    exact .quiet rfl rfl rfl
  rw [if_neg hserver]
  by_cases hhup : event.events &&& (EPOLLERR ||| EPOLLHUP) ≠ 0
  · rw [if_pos hhup]
    apply h.disconnect_moves
    rcases hp.2 event List.mem_cons_self with hx | hx | hx
    · exact absurd hx hserver
    · exact absurd hx hevent
    · exact hx
  rw [if_neg hhup]
  by_cases hin : event.events &&& EPOLLIN ≠ 0
  · rw [if_pos hin]
    exact .quiet rfl rfl rfl
  · rw [if_neg hin]
    exact .quiet rfl rfl rfl

/-- A new connection that could not be registered is turned away. -/
theorem LoopInv.turnAway_moves (h : LoopInv n) (hpos : 0 ≤ fd) (hfd : fd ∉ n.kernel.opened) (socket : σ) (message : String) :
    Moves n ((({ n with kernel := n.kernel.accept fd socket } : Net σ).pushLog message).destroy ⟨fd⟩) := by
  have hk : (SocketHandle.mk fd).destroy (n.kernel.accept fd socket) = (n.kernel.accept fd socket).close fd :=
    if_pos hpos
  refine .turnAway fd hfd (h.owned.not_client hfd) ?_ ?_ rfl
  · simp only [Net.destroy, Net.pushLog]
    rw [hk]
    exact Finset.erase_insert hfd
  · simp only [Net.destroy, Net.pushLog]
    rw [hk]
    exact List.append_assoc n.kernel.calls [.accepted fd] [.closed fd]

/-- One iteration of `handle_accept` keeps the new descriptor or turns it away. -/
theorem LoopInv.accept_moves (h : LoopInv n) (accepted : AcceptResult σ) (nonblocking added : Except String Unit)
    (hnew : ∀ fd addr socket, accepted = .connection fd addr socket → 0 ≤ fd ∧ fd ∉ n.kernel.opened) :
    Moves n (handleAccept n rest accepted nonblocking added) := by
  cases accepted with
  | wouldBlock => exact .quiet rfl rfl rfl
  | error what => exact .quiet rfl rfl rfl
  | connection fd addr socket =>
    obtain ⟨hpos, hfd⟩ := hnew fd addr socket rfl
    cases nonblocking with
    | error what => exact h.turnAway_moves hpos hfd socket _
    | ok _ =>
      cases added with
      | error what => exact h.turnAway_moves hpos hfd socket _
      | ok _ =>
        rw [handleAccept_stored (h.owned.not_client hfd)]
        exact .keep fd hfd (h.owned.not_client hfd) rfl rfl rfl

/-- `recv` does nothing to the descriptors. -/
theorem recv_moves {M : SocketModel} {n : Net M.Socket} {result : RecvResult} {k : Kernel M.Socket}
    (hr : n.kernel.Recv M fd result k) : Moves n (handleClientData { n with kernel := k } fd rest result) := by
  have hsame : k.opened = n.kernel.opened ∧ k.calls = n.kernel.calls := by
    cases hr with
    | bound => exact ⟨rfl, rfl⟩
    | unbound => exact ⟨rfl, rfl⟩
  cases result with
  | data bytes => exact .quiet hsame.1 hsame.2 rfl
  | closed => exact .quiet hsame.1 hsame.2 rfl
  | wouldBlock => exact .quiet hsame.1 hsame.2 rfl
  | error what => exact .quiet hsame.1 hsame.2 rfl

/-- **Every step makes one of the four moves.** -/
theorem LoopInv.step_moves {M : SocketModel} {n n' : Net M.Socket} (h : LoopInv n) (hs : ListenerStep M n n') :
    Moves n n' := by
  cases hs with
  | evolve => exact .quiet rfl rfl rfl
  | requestStop => exact .quiet rfl rfl rfl
  | test => exact .quiet rfl rfl rfl
  | interrupted => exact .quiet rfl rfl rfl
  | pollError => exact .quiet rfl rfl rfl
  | poll => exact .quiet rfl rfl rfl
  | dispatch hc => exact h.dispatch_moves hc
  | batchDone => exact .quiet rfl rfl rfl
  | accept hc accepted nonblocking added hnew =>
    apply h.accept_moves
    intro fd addr socket he
    obtain ⟨hpos, hfd, -⟩ := hnew fd addr socket he
    exact ⟨hpos, hfd⟩
  | recv hc hr => exact recv_moves hr
  | disconnect hc =>
    have hp := h.pending
    rw [hc] at hp
    exact h.disconnect_moves hp.2.1

end Steps

/-! ## The ledger of calls -/

/-- The calls on every number are lives of it, the last one still open exactly when there is an entry; a number that was
handed out and has no entry is not open. -/
structure LedgerInv (n : Net σ) : Prop where
  lives : ∀ fd, ∃ m, callsOn fd n.kernel.calls =
    lives fd m ++ if (n.listener.clients fd).isSome then [.accepted fd] else []
  closed : ∀ fd, .accepted fd ∈ n.kernel.calls → n.listener.clients fd = none → fd ∉ n.kernel.opened

namespace LedgerInv

variable {n n' : Net σ}

theorem start (h : n.Initial) : LedgerInv n := by
  constructor
  · intro fd
    exact ⟨0, by rw [h.calls, h.clients fd]; rfl⟩
  · intro fd hmem
    rw [h.calls] at hmem
    cases hmem

/-- A move that touches one number: the others keep their lives. -/
theorem touch (h : LedgerInv n) {fd : Int} {new : List Call} (hnew : ∀ c ∈ new, c.fd = fd)
    (hcalls : n'.kernel.calls = n.kernel.calls ++ new)
    (hsame : ∀ fd', fd' ≠ fd → n'.listener.clients fd' = n.listener.clients fd')
    (hopened : ∀ fd', fd' ≠ fd → fd' ∈ n'.kernel.opened → fd' ∈ n.kernel.opened)
    (hlives : ∃ m, callsOn fd n.kernel.calls ++ new =
      CounterDrone.lives fd m ++ if (n'.listener.clients fd).isSome then [.accepted fd] else [])
    (hclosed : n'.listener.clients fd = none → fd ∉ n'.kernel.opened) : LedgerInv n' := by
  constructor
  · intro fd'
    rw [hcalls, callsOn_append]
    by_cases hfd : fd' = fd
    · subst hfd
      rw [callsOn_self hnew]
      exact hlives
    · obtain ⟨m, hm⟩ := h.lives fd'
      exact ⟨m, by rw [callsOn_other hnew hfd, List.append_nil, hsame fd' hfd, hm]⟩
  · intro fd' hmem hnone
    by_cases hfd : fd' = fd
    · subst hfd
      exact hclosed hnone
    · have hold : Call.accepted fd' ∈ n.kernel.calls := by
        rw [hcalls, List.mem_append] at hmem
        rcases hmem with hmem | hmem
        · exact hmem
        · exact absurd (hnew _ hmem) hfd
      rw [hsame fd' hfd] at hnone
      exact fun ho => h.closed fd' hold hnone (hopened fd' hfd ho)

/-- **Every move keeps the ledger.** -/
theorem moves (h : LedgerInv n) (hm : Moves n n') : LedgerInv n' := by
  cases hm with
  | quiet hopened hcalls hlistener =>
    constructor
    · rw [hcalls, hlistener]
      exact h.lives
    · rw [hcalls, hlistener, hopened]
      exact h.closed
  | keep fd hnew hfree hopened hcalls hlistener =>
    have hon : ∀ c ∈ [Call.accepted fd], c.fd = fd := by simp [Call.fd]
    obtain ⟨m, hm⟩ := h.lives fd
    rw [hfree] at hm
    refine h.touch hon hcalls ?_ ?_ ⟨m, ?_⟩ ?_
    · intro fd' hfd
      rw [hlistener]
      exact Function.update_of_ne hfd _ _
    · intro fd' hfd ho
      rw [hopened, Finset.mem_insert] at ho
      exact ho.resolve_left hfd
    · rw [hm, hlistener]
      simp
    · rw [hlistener]
      simp
  | turnAway fd hnew hfree hopened hcalls hlistener =>
    have hon : ∀ c ∈ [Call.accepted fd, Call.closed fd], c.fd = fd := by simp [Call.fd]
    obtain ⟨m, hm⟩ := h.lives fd
    rw [hfree] at hm
    refine h.touch hon hcalls ?_ ?_ ⟨m + 1, ?_⟩ ?_
    · intro fd' _
      rw [hlistener]
    · intro fd' _ ho
      rwa [hopened] at ho
    · rw [hm, hlistener, hfree, lives_succ]
      simp
    · rw [hopened]
      exact fun _ => hnew
  | giveUp fd hkept hopened hcalls hlistener =>
    have hon : ∀ c ∈ [Call.closed fd], c.fd = fd := by simp [Call.fd]
    obtain ⟨m, hm⟩ := h.lives fd
    rw [hkept] at hm
    refine h.touch hon hcalls ?_ ?_ ⟨m + 1, ?_⟩ ?_
    · intro fd' hfd
      rw [hlistener]
      exact Function.update_of_ne hfd _ _
    · intro fd' _ ho
      rw [hopened] at ho
      exact Finset.mem_of_mem_erase ho
    · rw [hm, hlistener, lives_succ]
      simp
    · rw [hopened]
      exact fun _ => Finset.notMem_erase _ _

end LedgerInv

/-! ## Runs from the start of the event loop -/

/-- The state in which the event loop starts. `socket`, `epoll_create1` and `eventfd` have each returned a descriptor that
was not open, so the three descriptors of the listener are different. -/
structure Net.Launched (n : Net σ) : Prop extends n.Initial where
  distinct : [n.listener.serverFd.fd, n.listener.epollFd.fd, n.listener.eventFd.fd].Nodup

/-- The runs of the event loop from a launched state. -/
def launchedSystem (M : SocketModel) : System (Net M.Socket) := { listenerSystem M with init := Net.Launched }

theorem launched_reachable {M : SocketModel} {n : Net M.Socket} (hn : (launchedSystem M).Reachable n) :
    (listenerSystem M).Reachable n :=
  System.Reachable.mono (S := launchedSystem M) (T := listenerSystem M) (fun _ h => h.toInitial) (fun _ _ h => h) hn

/-- The places where the listener keeps a handle. -/
inductive HandlePlace
  | server
  | epoll
  | event
  | client (key : Int)

/-- The handle in a place. -/
def NetworkListener.handle (l : NetworkListener) : HandlePlace → Option SocketHandle
  | .server => some l.serverFd
  | .epoll => some l.epollFd
  | .event => some l.eventFd
  | .client key => l.clients key

/-- What holds of the descriptors between two dispatches. -/
structure DescriptorsOwned (n : Net σ) : Prop where
  /-- an entry owns the descriptor that is its key -/
  key : ∀ fd h, n.listener.clients fd = some h → h.fd = fd
  /-- the keys are the open descriptors among those that `accept` has handed out -/
  opened : ∀ fd, (n.listener.clients fd).isSome ↔ fd ∈ n.kernel.opened ∧ .accepted fd ∈ n.kernel.calls
  /-- the keys are the registered descriptors, without the two of the listener -/
  registered : ∀ fd, (n.listener.clients fd).isSome ↔
    fd ∈ n.kernel.interest ∧ fd ≠ n.listener.serverFd.fd ∧ fd ≠ n.listener.eventFd.fd
  /-- no descriptor is owned from two places -/
  single : ∀ p q a b, n.listener.handle p = some a → n.listener.handle q = some b → a.fd = b.fd → p = q
  /-- each life of a number ends with one close, and the next begins after it -/
  lives : ∀ fd, ∃ m, callsOn fd n.kernel.calls =
    lives fd m ++ if (n.listener.clients fd).isSome then [.accepted fd] else []

section Owned

variable {n : Net σ} {fd : Int}

/-- The descriptors of connections that are open now are the keys. -/
theorem LoopInv.client_iff_live (h : LoopInv n) : (n.listener.clients fd).isSome ↔ Live n.kernel.sessions fd := by
  constructor
  · intro hs
    obtain ⟨a, ha⟩ := Option.isSome_iff_exists.mp hs
    exact h.owned.clients fd a ha
  · rintro ⟨c, hc, rfl, hopen⟩
    rw [(h.owned.live c hc hopen).2.2.2.2]
    rfl

/-- The entry of a key owns it. -/
theorem LoopInv.client_eq (h : LoopInv n) {a : SocketHandle} (ha : n.listener.clients fd = some a) : a = ⟨fd⟩ := by
  obtain ⟨c, hc, rfl, hopen⟩ := h.owned.clients fd a ha
  have hkept := (h.owned.live c hc hopen).2.2.2.2
  rw [ha] at hkept
  exact Option.some.inj hkept

/-- A key is none of the descriptors of the listener. -/
theorem LoopInv.client_apart (h : LoopInv n) {a : SocketHandle} (ha : n.listener.clients fd = some a) :
    a.fd ≠ n.listener.serverFd.fd ∧ a.fd ≠ n.listener.epollFd.fd ∧ a.fd ≠ n.listener.eventFd.fd := by
  obtain ⟨c, hc, hfd, hopen⟩ := h.owned.clients fd a ha
  have hapart := h.owned.apart c hc hopen
  rw [hfd] at hapart
  rw [h.client_eq ha]
  exact hapart

/-- No two places of the listener own one descriptor. -/
theorem LoopInv.single (h : LoopInv n)
    (hdistinct : [n.listener.serverFd.fd, n.listener.epollFd.fd, n.listener.eventFd.fd].Nodup) (p q : HandlePlace)
    (a b : SocketHandle) (hp : n.listener.handle p = some a) (hq : n.listener.handle q = some b) (he : a.fd = b.fd) :
    p = q := by
  simp only [List.nodup_cons, List.mem_cons, List.not_mem_nil, or_false, not_or, List.nodup_nil, and_true,
    not_false_eq_true] at hdistinct
  obtain ⟨⟨hse, hsv⟩, hev⟩ := hdistinct
  cases p with
  | client key =>
    have hpa := h.client_apart hp
    cases q with
    | client key' => rw [show key = a.fd by rw [h.client_eq hp], show key' = b.fd by rw [h.client_eq hq], he]
    | server => cases hq; exact absurd he hpa.1
    | epoll => cases hq; exact absurd he hpa.2.1
    | event => cases hq; exact absurd he hpa.2.2
  | server =>
    cases hp
    cases q with
    | client key' => exact absurd he.symm (h.client_apart hq).1
    | server => rfl
    | epoll => cases hq; exact absurd he hse
    | event => cases hq; exact absurd he hsv
  | epoll =>
    cases hp
    cases q with
    | client key' => exact absurd he.symm (h.client_apart hq).2.1
    | server => cases hq; exact absurd he.symm hse
    | epoll => rfl
    | event => cases hq; exact absurd he hev
  | event =>
    cases hp
    cases q with
    | client key' => exact absurd he.symm (h.client_apart hq).2.2
    | server => cases hq; exact absurd he.symm hsv
    | epoll => cases hq; exact absurd he.symm hev
    | event => rfl

/-- A registered descriptor is open. -/
theorem LoopInv.interest_opened (h : LoopInv n) (hfd : fd ∈ n.kernel.interest) : fd ∈ n.kernel.opened := by
  rcases h.owned.watched fd hfd with rfl | rfl | ⟨c, hc, rfl, hopen⟩
  · exact h.owned.own.1
  · exact h.owned.own.2.2
  · exact (h.owned.live c hc hopen).2.1

/-- A registration that fails leaves the entries, the open descriptors and the registrations as they were. -/
theorem LoopInv.failed_registration (h : LoopInv n) (rest : List EpollEvent) (addr : String) (socket : σ)
    {nonblocking added : Except String Unit} (hpos : 0 ≤ fd) (hfd : fd ∉ n.kernel.opened)
    (hfail : ¬(nonblocking = .ok () ∧ added = .ok ())) :
    (handleAccept n rest (.connection fd addr socket) nonblocking added).listener = n.listener ∧
      (handleAccept n rest (.connection fd addr socket) nonblocking added).kernel.opened = n.kernel.opened ∧
      (handleAccept n rest (.connection fd addr socket) nonblocking added).kernel.interest = n.kernel.interest := by
  have hclosed : ∀ message, ((({ n with kernel := n.kernel.accept fd socket } : Net σ).pushLog message).destroy ⟨fd⟩).kernel =
      (n.kernel.accept fd socket).close fd := fun message => if_pos hpos
  have hinterest : n.kernel.interest.erase fd = n.kernel.interest :=
    Finset.erase_eq_of_notMem fun hi => hfd (h.interest_opened hi)
  cases nonblocking with
  | error what =>
    refine ⟨rfl, ?_, ?_⟩
    · exact (congrArg Kernel.opened (hclosed _)).trans (Finset.erase_insert hfd)
    · exact (congrArg Kernel.interest (hclosed _)).trans hinterest
  | ok _ =>
    cases added with
    | error what =>
      refine ⟨rfl, ?_, ?_⟩
      · exact (congrArg Kernel.opened (hclosed _)).trans (Finset.erase_insert hfd)
      · exact (congrArg Kernel.interest (hclosed _)).trans hinterest
    | ok _ => exact absurd ⟨rfl, rfl⟩ hfail

end Owned

/-- The ledger and the descriptors of the listener hold throughout every run. -/
theorem reachable_ledger {M : SocketModel} {n : Net M.Socket} (hn : (launchedSystem M).Reachable n) :
    LedgerInv n ∧ [n.listener.serverFd.fd, n.listener.epollFd.fd, n.listener.eventFd.fd].Nodup := by
  refine hn.invariant (I := fun n => LedgerInv n ∧
    [n.listener.serverFd.fd, n.listener.epollFd.fd, n.listener.eventFd.fd].Nodup) ?_ ?_
  · intro s hs
    exact ⟨LedgerInv.start hs.toInitial, hs.distinct⟩
  · rintro s t hreach ⟨hledger, hdistinct⟩ hstep
    have hm := (reachable_inv (launched_reachable hreach)).step_moves hstep
    refine ⟨hledger.moves hm, ?_⟩
    cases hm with
    | quiet _ _ hl => rw [hl]; exact hdistinct
    | keep _ _ _ _ _ hl => rw [hl]; exact hdistinct
    | turnAway _ _ _ _ _ hl => rw [hl]; exact hdistinct
    | giveUp _ _ _ _ hl => rw [hl]; exact hdistinct

/-! ## Main result -/

/-- **Ownership of descriptors.** In every state of a run, whatever the system calls return: entries, open client
descriptors and their registrations are the same set, each entry owns its key and nothing is owned twice, and each number
is closed once for each time it is handed out, before it is handed out again. Every step makes one of the four moves; a
descriptor that `accept` hands out has no entry yet, and a registration that fails changes none of the three sets. -/
theorem descriptor_ownership (M : SocketModel) (n : Net M.Socket) (hn : (launchedSystem M).Reachable n) :
    DescriptorsOwned n ∧
    (∀ n', ListenerStep M n n' → Moves n n') ∧
    ∀ rest fd addr socket (nonblocking added : Except String Unit), 0 ≤ fd → fd ∉ n.kernel.opened →
      n.listener.clients fd = none ∧
      (¬(nonblocking = .ok () ∧ added = .ok ()) →
        (handleAccept n rest (.connection fd addr socket) nonblocking added).listener = n.listener ∧
        (handleAccept n rest (.connection fd addr socket) nonblocking added).kernel.opened = n.kernel.opened ∧
        (handleAccept n rest (.connection fd addr socket) nonblocking added).kernel.interest = n.kernel.interest) := by
  have h := reachable_inv (launched_reachable hn)
  obtain ⟨hledger, hdistinct⟩ := reachable_ledger hn
  refine ⟨⟨?_, ?_, ?_, h.single hdistinct, hledger.lives⟩, fun n' hs => h.step_moves hs, ?_⟩
  · intro fd a ha
    rw [h.client_eq ha]
  · intro fd
    constructor
    · intro hs
      obtain ⟨c, hc, rfl, hopen⟩ := h.client_iff_live.mp hs
      obtain ⟨m, hm⟩ := hledger.lives c.fd
      rw [if_pos hs] at hm
      have hmem : Call.accepted c.fd ∈ callsOn c.fd n.kernel.calls := by rw [hm]; simp
      exact ⟨(h.owned.live c hc hopen).2.1, (List.mem_filter.mp hmem).1⟩
    · rintro ⟨ho, hmem⟩
      by_contra hnone
      exact hledger.closed fd hmem (Option.not_isSome_iff_eq_none.mp hnone) ho
  · intro fd
    rw [h.client_iff_live]
    constructor
    · rintro ⟨c, hc, rfl, hopen⟩
      obtain ⟨hserver, -, hevent⟩ := h.owned.apart c hc hopen
      exact ⟨(h.owned.live c hc hopen).2.2.1, hserver, hevent⟩
    · rintro ⟨hi, hserver, hevent⟩
      rcases h.owned.watched fd hi with hx | hx | hx
      · exact absurd hx hserver
      · exact absurd hx hevent
      · exact hx
  · intro rest fd addr socket nonblocking added hpos hfd
    exact ⟨h.owned.not_client hfd, h.failed_registration rest addr socket hpos hfd⟩

theorem startNet_launched : startNet.Launched := ⟨startNet_initial, by decide⟩

/-- Descriptor 7 has been handed out, closed and handed out again: it has an entry, is open and registered. -/
theorem descriptor_ownership_reused :
    ∃ n, (launchedSystem receiveBuffers).Reachable n ∧ (n.listener.clients 7).isSome ∧
      n.kernel.calls = [.accepted 7, .closed 7, .accepted 7] ∧ DescriptorsOwned n := by
  have hn : (launchedSystem receiveBuffers).Reachable (reusedNet.goto .polling) :=
    reusedNet_reachable (S := launchedSystem receiveBuffers) (fun _ _ h _ => h) startNet_launched
  exact ⟨_, hn, rfl, rfl, (descriptor_ownership receiveBuffers _ hn).1⟩

end CounterDrone

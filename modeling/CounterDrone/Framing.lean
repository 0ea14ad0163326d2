import Mathlib
import CounterDrone.Listener

/-!
# Sessions on the raw queue

A descriptor number is reused as soon as it is closed, and it is all that the parser sees of a connection. The
invariant of the event loop (`LoopInv`) ties the open connections, the epoll registrations, the active clients and the
events still to be dispatched together: every pending event is for a connection that is open now, because only its own
event can close it. So the chunks pushed under a descriptor are one block for each connection registered under it, in
the order of `accept` (`session_framing`), whatever the sockets do.
-/

namespace CounterDrone

variable {σ : Type}

/-! ## The connection of a descriptor -/

/-- Of two connections under one descriptor the earlier one is closed. -/
def Succeeds (a b : Connection) : Prop := a.fd = b.fd → a.closed = true

/-- A descriptor refers to one of the connections. -/
def Live (cs : List Connection) (fd : Int) : Prop := ∃ c ∈ cs, c.Bound fd

section Bound

variable {fd : Int} {cs pre post : List (Connection × σ)} {c : Connection × σ} {g : Connection × σ → Connection × σ}

/-- The connection that a descriptor refers to is the last one under it, and the only open one. -/
theorem exists_split (hord : (cs.map Prod.fst).Pairwise Succeeds) (hc : c ∈ cs) (hb : c.1.Bound fd) :
    ∃ pre post, cs = pre ++ c :: post ∧ (∀ a ∈ pre, ¬a.1.Bound fd) ∧ ∀ b ∈ post, b.1.fd ≠ fd := by
  obtain ⟨pre, post, rfl⟩ := List.append_of_mem hc
  rw [List.map_append, List.map_cons, List.pairwise_append, List.pairwise_cons] at hord
  obtain ⟨_, ⟨hafter, _⟩, hbefore⟩ := hord
  refine ⟨pre, post, rfl, fun a ha hab => ?_, fun b hb' he => ?_⟩
  · have := hbefore a.1 (List.mem_map_of_mem ha) c.1 List.mem_cons_self (hab.1.trans hb.1.symm)
    rw [hab.2] at this
    cases this
  · have := hafter b.1 (List.mem_map_of_mem hb') (hb.1.trans he.symm)
    rw [hb.2] at this
    cases this

theorem updateBound_none (h : ∀ a ∈ cs, ¬a.1.Bound fd) : updateBound fd g cs = cs := by
  unfold updateBound
  conv_rhs => rw [← List.map_id cs]
  exact List.map_congr_left fun a ha => if_neg (h a ha)

theorem updateBound_split (hpre : ∀ a ∈ pre, ¬a.1.Bound fd) (hpost : ∀ b ∈ post, b.1.fd ≠ fd) (hb : c.1.Bound fd) :
    updateBound fd g (pre ++ c :: post) = pre ++ g c :: post := by
  have h1 := @updateBound_none σ fd pre g hpre
  have h2 := @updateBound_none σ fd post g fun b hb' h => hpost b hb' h.1
  unfold updateBound at h1 h2 ⊢
  rw [List.map_append, List.map_cons, h1, h2, if_pos hb]

/-- A new connection that is registered. -/
theorem accept_epollAdd (k : Kernel σ) (socket : σ) (h : ∀ a ∈ k.connections, ¬a.1.Bound fd) :
    ((k.accept fd socket).epollAdd fd).connections = k.connections ++ [({ fd := fd, registered := true }, socket)] :=
  updateBound_split h nofun ⟨rfl, rfl⟩

/-- A new connection that is closed again. -/
theorem accept_close (k : Kernel σ) (socket : σ) (h : ∀ a ∈ k.connections, ¬a.1.Bound fd) :
    ((k.accept fd socket).close fd).connections = k.connections ++ [({ fd := fd, closed := true }, socket)] :=
  updateBound_split h nofun ⟨rfl, rfl⟩

end Bound

section Members

variable {α : Type*} {pre post : List α} {a c : α}

/-- A member is the one in the middle or one of the others. -/
theorem mem_replace (h : a ∈ pre ++ c :: post) : a = c ∨ a ∈ pre ∨ a ∈ post := by
  rcases List.mem_append.1 h with h | h
  · exact Or.inr (Or.inl h)
  · rcases List.mem_cons.1 h with h | h
    · exact Or.inl h
    · exact Or.inr (Or.inr h)

theorem mem_others (c : α) (h : a ∈ pre ∨ a ∈ post) : a ∈ pre ++ c :: post := by
  rcases h with h | h
  · exact List.mem_append_left _ h
  · exact List.mem_append_right _ (List.mem_cons_of_mem _ h)

theorem mem_middle : c ∈ pre ++ c :: post := List.mem_append_right _ List.mem_cons_self

end Members

section Replace

variable {cs pre post : List Connection} {a c c' : Connection} {fd : Int}

theorem Live.append (h : Live cs fd) (c : Connection) : Live (cs ++ [c]) fd := by
  obtain ⟨a, ha, hb⟩ := h
  exact ⟨a, List.mem_append_left _ ha, hb⟩

theorem Live.replace (h : Live (pre ++ c :: post) fd) (hc : c.Bound fd → c'.Bound fd) : Live (pre ++ c' :: post) fd := by
  obtain ⟨a, ha, hb⟩ := h
  rcases mem_replace ha with rfl | ha
  · exact ⟨c', mem_middle, hc hb⟩
  · exact ⟨a, mem_others c' ha, hb⟩

/-- The order only depends on descriptors and on what is closed, and closing more keeps it. -/
theorem order_replace (h : (pre ++ c :: post).Pairwise Succeeds) (hfd : c'.fd = c.fd)
    (hcl : c.closed = true → c'.closed = true) : (pre ++ c' :: post).Pairwise Succeeds := by
  rw [List.pairwise_append, List.pairwise_cons] at h ⊢
  obtain ⟨h1, ⟨h2, h3⟩, h4⟩ := h
  refine ⟨h1, ⟨?_, h3⟩, ?_⟩
  · intro b hb he
    exact hcl (h2 b hb (hfd.symm.trans he))
  · intro a ha b hb
    rcases List.mem_cons.1 hb with rfl | hb
    · exact fun he => h4 a ha c List.mem_cons_self (he.trans hfd)
    · exact h4 a ha b (List.mem_cons_of_mem _ hb)

/-- A new connection, under a descriptor that no open one has. -/
theorem order_append (h : cs.Pairwise Succeeds) (hne : ∀ a ∈ cs, a.closed = false → a.fd ≠ c.fd) :
    (cs ++ [c]).Pairwise Succeeds := by
  rw [List.pairwise_append]
  refine ⟨h, List.pairwise_singleton _ _, ?_⟩
  intro a ha b hb he
  rw [List.mem_singleton.1 hb] at he
  by_contra hopen
  exact hne a ha (Bool.eq_false_of_not_eq_true hopen) he

/-- No other open connection has the descriptor of an open one. -/
theorem fd_ne_of_others (h : (pre ++ c :: post).Pairwise Succeeds) (hc : c.closed = false) (ha : a ∈ pre ∨ a ∈ post)
    (hopen : a.closed = false) : a.fd ≠ c.fd := by
  rw [List.pairwise_append, List.pairwise_cons] at h
  obtain ⟨_, ⟨hafter, _⟩, hbefore⟩ := h
  intro he
  rcases ha with ha | ha
  · have := hbefore a ha c List.mem_cons_self he
    rw [hopen] at this
    cases this
  · have := hafter a ha he.symm
    rw [hc] at this
    cases this

end Replace

/-! ## Descriptors -/

/-- Open descriptors, registrations, connections and active clients agree. -/
structure Owned (opened interest : Finset Int) (cs : List Connection) (l : NetworkListener) : Prop where
  order : cs.Pairwise Succeeds
  live : ∀ c ∈ cs, c.closed = false →
    c.registered = true ∧ c.fd ∈ opened ∧ c.fd ∈ interest ∧ 0 ≤ c.fd ∧ l.clients c.fd = some ⟨c.fd⟩
  own : l.serverFd.fd ∈ opened ∧ l.epollFd.fd ∈ opened ∧ l.eventFd.fd ∈ opened
  apart : ∀ c ∈ cs, c.closed = false → c.fd ≠ l.serverFd.fd ∧ c.fd ≠ l.epollFd.fd ∧ c.fd ≠ l.eventFd.fd
  watched : ∀ fd ∈ interest, fd = l.serverFd.fd ∨ fd = l.eventFd.fd ∨ Live cs fd
  clients : ∀ fd h, l.clients fd = some h → Live cs fd
  sizes : ∀ c ∈ cs, ∀ d ∈ c.received, d ≠ [] ∧ d.length ≤ RECV_BUF_SIZE

namespace Owned

variable {opened interest : Finset Int} {cs pre post : List Connection} {c c' : Connection} {l : NetworkListener} {fd : Int}

/-- A descriptor that is not open refers to no connection. -/
theorem not_bound (h : Owned opened interest cs l) (hfd : fd ∉ opened) : ∀ c ∈ cs, ¬c.Bound fd := by
  rintro c hc ⟨rfl, hopen⟩
  exact hfd (h.live c hc hopen).2.1

theorem not_client (h : Owned opened interest cs l) (hfd : fd ∉ opened) : l.clients fd = none := by
  cases hl : l.clients fd with
  | none => rfl
  | some a =>
    obtain ⟨c, hc, hb⟩ := h.clients fd a hl
    exact absurd hb (h.not_bound hfd c hc)

/-- A connection that keeps its descriptor and stays as open as it is. -/
theorem replace (h : Owned opened interest (pre ++ c :: post) l) (hfd : c'.fd = c.fd) (hreg : c'.registered = c.registered)
    (hcl : c'.closed = c.closed) (hsize : ∀ d ∈ c'.received, d ≠ [] ∧ d.length ≤ RECV_BUF_SIZE) :
    Owned opened interest (pre ++ c' :: post) l := by
  have hbound : ∀ {fd}, c.Bound fd → c'.Bound fd := fun hb => ⟨hfd.trans hb.1, hcl.trans hb.2⟩
  constructor
  · exact order_replace h.order hfd fun hc => hcl.trans hc
  · intro a ha hopen
    rcases mem_replace ha with rfl | ha
    · rw [hfd, hreg]
      exact h.live c mem_middle (hcl.symm.trans hopen)
    · exact h.live a (mem_others c ha) hopen
  · exact h.own
  · intro a ha hopen
    rcases mem_replace ha with rfl | ha
    · rw [hfd]
      exact h.apart c mem_middle (hcl.symm.trans hopen)
    · exact h.apart a (mem_others c ha) hopen
  · intro fd hi
    rcases h.watched fd hi with he | he | hl
    · exact Or.inl he
    · exact Or.inr (Or.inl he)
    · exact Or.inr (Or.inr (hl.replace hbound))
  · intro fd a ha
    exact (h.clients fd a ha).replace hbound
  · intro a ha
    rcases mem_replace ha with rfl | ha
    · exact hsize
    · exact h.sizes a (mem_others c ha)

/-- An open connection is closed and its client erased. -/
theorem close (h : Owned opened interest (pre ++ c :: post) l) (hc : c.closed = false) :
    Owned (opened.erase c.fd) (interest.erase c.fd) (pre ++ { c with closed := true } :: post)
      { l with clients := Function.update l.clients c.fd none } := by
  have hap := h.apart c mem_middle hc
  -- what is open afterwards was open before, under another descriptor
  have hopened : ∀ a ∈ pre ++ { c with closed := true } :: post, a.closed = false →
      a ∈ pre ++ c :: post ∧ a.fd ≠ c.fd := by
    intro a ha hopen
    rcases mem_replace ha with rfl | ha
    · cases hopen
    · exact ⟨mem_others c ha, fd_ne_of_others h.order hc ha hopen⟩
  have hlive : ∀ {fd}, fd ≠ c.fd → Live (pre ++ c :: post) fd → Live (pre ++ { c with closed := true } :: post) fd :=
    fun hne hl => hl.replace fun hb => absurd hb.1.symm hne
  constructor
  · exact order_replace h.order rfl fun _ => rfl
  · intro a ha hopen
    obtain ⟨ha, hne⟩ := hopened a ha hopen
    obtain ⟨hreg, ho, hi, hpos, hcl⟩ := h.live a ha hopen
    refine ⟨hreg, Finset.mem_erase.2 ⟨hne, ho⟩, Finset.mem_erase.2 ⟨hne, hi⟩, hpos, ?_⟩
    rw [← hcl]
    exact Function.update_of_ne hne _ _
  · obtain ⟨h1, h2, h3⟩ := h.own
    exact ⟨Finset.mem_erase.2 ⟨hap.1.symm, h1⟩, Finset.mem_erase.2 ⟨hap.2.1.symm, h2⟩,
      Finset.mem_erase.2 ⟨hap.2.2.symm, h3⟩⟩
  · intro a ha hopen
    exact h.apart a (hopened a ha hopen).1 hopen
  · intro fd hi
    obtain ⟨hne, hi⟩ := Finset.mem_erase.1 hi
    rcases h.watched fd hi with he | he | hl
    · exact Or.inl he
    · exact Or.inr (Or.inl he)
    · exact Or.inr (Or.inr (hlive hne hl))
  · intro fd a ha
    by_cases hfd : fd = c.fd
    · subst hfd
      simp at ha
    · simp only [Function.update_of_ne hfd] at ha
      exact hlive hfd (h.clients fd a ha)
  · intro a ha
    rcases mem_replace ha with rfl | ha
    · exact h.sizes c mem_middle
    · exact h.sizes a (mem_others c ha)

/-- A new connection, registered and stored under a descriptor that was not open. -/
theorem accept (h : Owned opened interest cs l) (hfd : fd ∉ opened) (hpos : 0 ≤ fd) :
    Owned (insert fd opened) (insert fd interest) (cs ++ [{ fd := fd, registered := true }])
      { l with clients := Function.update l.clients fd (some ⟨fd⟩) } := by
  have hne : ∀ a ∈ cs, a.closed = false → a.fd ≠ fd := fun a ha hopen he => h.not_bound hfd a ha ⟨he, hopen⟩
  obtain ⟨hserver, hepoll, hevent⟩ := h.own
  constructor
  · exact order_append h.order hne
  · intro a ha hopen
    rcases List.mem_append.1 ha with ha | ha
    · obtain ⟨hreg, ho, hi, hp, hcl⟩ := h.live a ha hopen
      refine ⟨hreg, Finset.mem_insert_of_mem ho, Finset.mem_insert_of_mem hi, hp, ?_⟩
      rw [← hcl]
      exact Function.update_of_ne (hne a ha hopen) _ _
    · rw [List.mem_singleton.1 ha]
      exact ⟨rfl, Finset.mem_insert_self _ _, Finset.mem_insert_self _ _, hpos, Function.update_self _ _ _⟩
  · exact ⟨Finset.mem_insert_of_mem hserver, Finset.mem_insert_of_mem hepoll, Finset.mem_insert_of_mem hevent⟩
  · intro a ha hopen
    rcases List.mem_append.1 ha with ha | ha
    · exact h.apart a ha hopen
    · rw [List.mem_singleton.1 ha]
      exact ⟨(ne_of_mem_of_not_mem hserver hfd).symm, (ne_of_mem_of_not_mem hepoll hfd).symm,
        (ne_of_mem_of_not_mem hevent hfd).symm⟩
  · intro fd' hi
    rcases Finset.mem_insert.1 hi with rfl | hi
    · exact Or.inr (Or.inr ⟨_, List.mem_append_right _ List.mem_cons_self, rfl, rfl⟩)
    · rcases h.watched fd' hi with he | he | hl
      · exact Or.inl he
      · exact Or.inr (Or.inl he)
      · exact Or.inr (Or.inr (hl.append _))
  · intro fd' a ha
    by_cases he : fd' = fd
    · subst he
      exact ⟨_, List.mem_append_right _ List.mem_cons_self, rfl, rfl⟩
    · simp only [Function.update_of_ne he] at ha
      exact (h.clients fd' a ha).append _
  · intro a ha
    rcases List.mem_append.1 ha with ha | ha
    · exact h.sizes a ha
    · rw [List.mem_singleton.1 ha]
      nofun

/-- A new connection that could not be registered is closed at once. -/
theorem reject (h : Owned opened interest cs l) (hfd : fd ∉ opened) :
    Owned ((insert fd opened).erase fd) (interest.erase fd) (cs ++ [{ fd := fd, closed := true }]) l := by
  have hne : ∀ a ∈ cs, a.closed = false → a.fd ≠ fd := fun a ha hopen he => h.not_bound hfd a ha ⟨he, hopen⟩
  rw [Finset.erase_insert hfd]
  constructor
  · exact order_append h.order hne
  · intro a ha hopen
    rcases List.mem_append.1 ha with ha | ha
    · obtain ⟨hreg, ho, hi, hp, hcl⟩ := h.live a ha hopen
      exact ⟨hreg, ho, Finset.mem_erase.2 ⟨hne a ha hopen, hi⟩, hp, hcl⟩
    · rw [List.mem_singleton.1 ha] at hopen
      cases hopen
  · exact h.own
  · intro a ha hopen
    rcases List.mem_append.1 ha with ha | ha
    · exact h.apart a ha hopen
    · rw [List.mem_singleton.1 ha] at hopen
      cases hopen
  · intro fd' hi
    rcases h.watched fd' (Finset.mem_of_mem_erase hi) with he | he | hl
    · exact Or.inl he
    · exact Or.inr (Or.inl he)
    · exact Or.inr (Or.inr (hl.append _))
  · intro fd' a ha
    exact (h.clients fd' a ha).append _
  · intro a ha
    rcases List.mem_append.1 ha with ha | ha
    · exact h.sizes a ha
    · rw [List.mem_singleton.1 ha]
      nofun

end Owned

/-! ## Blocks on the raw queue -/

/-- The chunks of a connection: what each `recv` returned for it, and an empty one when it has been closed. -/
def Connection.block (c : Connection) : List DataChunk :=
  c.received.map (DataChunk.mk c.fd) ++ if c.closed then [⟨c.fd, []⟩] else []

/-- The connections that were registered under a descriptor, in the order of `accept`. -/
def under (f : Int) (cs : List Connection) : List Connection := cs.filter fun c => c.registered ∧ c.fd = f

/-- The chunks under every descriptor are the blocks of the connections that were registered under it. -/
def QueueFramed (cs : List Connection) (queue : List DataChunk) : Prop :=
  ∀ f, (queue.filter fun d => d.clientId = f) = (under f cs).flatMap Connection.block

namespace QueueFramed

variable {cs pre post : List Connection} {c c' : Connection} {queue : List DataChunk} {chunk : DataChunk}

theorem under_append (f : Int) (as bs : List Connection) : under f (as ++ bs) = under f as ++ under f bs :=
  List.filter_append as bs

/-- A new connection without a block. -/
theorem append (h : QueueFramed cs queue) (hc : c.registered = true → c.block = []) : QueueFramed (cs ++ [c]) queue := by
  intro f
  rw [h f, under_append, List.flatMap_append]
  by_cases hr : c.registered = true ∧ c.fd = f
  · rw [show under f [c] = [c] from List.filter_cons_of_pos (by simpa using hr), List.flatMap_singleton, hc hr.1,
      List.append_nil]
  · rw [show under f [c] = [] from List.filter_cons_of_neg (by simpa using hr), List.flatMap_nil, List.append_nil]

/-- The block of a connection grows by a chunk, which is pushed: no connection behind it has its descriptor. -/
theorem push (h : QueueFramed (pre ++ c :: post) queue) (hreg : c.registered = true) (hpost : ∀ b ∈ post, b.fd ≠ c.fd)
    (hfd : c'.fd = c.fd) (hreg' : c'.registered = true) (hchunk : chunk.clientId = c.fd)
    (hblock : c'.block = c.block ++ [chunk]) : QueueFramed (pre ++ c' :: post) (queue ++ [chunk]) := by
  intro f
  have hold := h f
  rw [under_append] at hold ⊢
  rw [List.filter_append, hold]
  by_cases hf : c.fd = f
  · have hnone : under f post = [] := by
      refine List.filter_eq_nil_iff.2 fun b hb => ?_
      have := hpost b hb
      rw [hf] at this
      simp [this]
    have hcons : ∀ a : Connection, a.registered = true → a.fd = f → under f (a :: post) = [a] := by
      intro a ha he
      rw [under, List.filter_cons_of_pos (by simp [ha, he]), ← under, hnone]
    rw [hcons c hreg hf, hcons c' hreg' (hfd.trans hf), List.filter_cons_of_pos (by simp [hchunk, hf])]
    simp [hblock]
  · have hcons : ∀ a : Connection, a.fd ≠ f → under f (a :: post) = under f post := by
      intro a ha
      rw [under, List.filter_cons_of_neg (by simp [ha]), ← under]
    rw [hcons c hf, hcons c' (by rw [hfd]; exact hf), List.filter_cons_of_neg (by simp [hchunk, hf])]
    simp

end QueueFramed

/-! ## Pending events -/

/-- A descriptor of the listener that is registered, or of an open connection. -/
def Watched (l : NetworkListener) (cs : List Connection) (fd : Int) : Prop :=
  fd = l.serverFd.fd ∨ fd = l.eventFd.fd ∨ Live cs fd

/-- At most one event is pending for a descriptor, and it is for a connection that is open now. -/
def Pending (l : NetworkListener) (cs : List Connection) : Control → Prop
  | .loop => True
  | .polling => True
  | .finished => True
  | .dispatching events => (events.map EpollEvent.fd).Nodup ∧ ∀ e ∈ events, Watched l cs e.fd
  | .accepting events => (events.map EpollEvent.fd).Nodup ∧ ∀ e ∈ events, Watched l cs e.fd
  | .draining fd events => (fd :: events.map EpollEvent.fd).Nodup ∧ Live cs fd ∧ ∀ e ∈ events, Watched l cs e.fd
  | .disconnecting fd events => (fd :: events.map EpollEvent.fd).Nodup ∧ Live cs fd ∧ ∀ e ∈ events, Watched l cs e.fd

/-- Pending events stay pending when every open connection stays open. -/
theorem Pending.mono {l l' : NetworkListener} {cs cs' : List Connection} {control : Control} (h : Pending l cs control)
    (hserver : l'.serverFd = l.serverFd) (hevent : l'.eventFd = l.eventFd) (hlive : ∀ fd, Live cs fd → Live cs' fd) :
    Pending l' cs' control := by
  have hw : ∀ fd, Watched l cs fd → Watched l' cs' fd := by
    intro fd hw
    rw [Watched, hserver, hevent]
    rcases hw with he | he | hl
    · exact Or.inl he
    · exact Or.inr (Or.inl he)
    · exact Or.inr (Or.inr (hlive fd hl))
  cases control with
  | loop => trivial
  | polling => trivial
  | finished => trivial
  | dispatching events => exact ⟨h.1, fun e he => hw _ (h.2 e he)⟩
  | accepting events => exact ⟨h.1, fun e he => hw _ (h.2 e he)⟩
  | draining fd events => exact ⟨h.1, hlive _ h.2.1, fun e he => hw _ (h.2.2 e he)⟩
  | disconnecting fd events => exact ⟨h.1, hlive _ h.2.1, fun e he => hw _ (h.2.2 e he)⟩

/-- The events behind the first one. -/
theorem Pending.tail {l : NetworkListener} {cs : List Connection} {event : EpollEvent} {rest : List EpollEvent}
    (h : Pending l cs (.dispatching (event :: rest))) : Pending l cs (.dispatching rest) :=
  ⟨(List.nodup_cons.1 h.1).2, fun e he => h.2 e (List.mem_cons_of_mem _ he)⟩

/-! ## The invariant -/

/-- The invariant of the event loop. -/
structure LoopInv (n : Net σ) : Prop where
  owned : Owned n.kernel.opened n.kernel.interest n.kernel.sessions n.listener
  framed : QueueFramed n.kernel.sessions n.queue
  pending : Pending n.listener n.kernel.sessions n.control

theorem LoopInv.start {n : Net σ} (h : n.Initial) : LoopInv n := by
  have hs : n.kernel.sessions = [] := by rw [Kernel.sessions, h.connections]; rfl
  constructor
  · rw [hs]
    refine ⟨List.Pairwise.nil, nofun, h.opened, nofun, ?_, ?_, nofun⟩
    · intro fd hfd
      rw [h.interest, Finset.mem_insert, Finset.mem_singleton] at hfd
      rcases hfd with he | he
      · exact Or.inl he
      · exact Or.inr (Or.inl he)
    · intro fd a ha
      rw [h.clients fd] at ha
      cases ha
  · rw [hs, h.queue]
    exact fun f => rfl
  · rw [h.control]
    trivial

/-- Only the control changes. -/
theorem LoopInv.goto {n : Net σ} (h : LoopInv n) {control : Control} (hp : Pending n.listener n.kernel.sessions control) :
    LoopInv (n.goto control) := ⟨h.owned, h.framed, hp⟩

theorem LoopInv.pushLog {n : Net σ} (h : LoopInv n) (message : String) : LoopInv (n.pushLog message) := ⟨h.owned, h.framed, h.pending⟩

/-! ## Steps -/

section Steps

variable {n : Net σ} {fd : Int} {rest : List EpollEvent}

/-- The connection that a descriptor refers to, among the others. -/
theorem LoopInv.split (h : LoopInv n) (hl : Live n.kernel.sessions fd) :
    ∃ pre c post, n.kernel.connections = pre ++ c :: post ∧ c.1.Bound fd ∧ (∀ a ∈ pre, ¬a.1.Bound fd) ∧
      ∀ b ∈ post, b.1.fd ≠ fd := by
  obtain ⟨a, ha, hb⟩ := hl
  obtain ⟨c, hc, rfl⟩ := List.mem_map.1 ha
  obtain ⟨pre, post, he, hpre, hpost⟩ := exists_split h.owned.order hc hb
  exact ⟨pre, c, post, he, hb, hpre, hpost⟩

theorem sessions_eq {pre post : List (Connection × σ)} {c : Connection × σ} (he : n.kernel.connections = pre ++ c :: post) :
    n.kernel.sessions = pre.map Prod.fst ++ c.1 :: post.map Prod.fst := by
  rw [Kernel.sessions, he, List.map_append, List.map_cons]

/-- `disconnect_client` on a descriptor that refers to a connection closes it, and pushes its empty chunk. -/
theorem disconnectClient_eq {pre post : List (Connection × σ)} {c : Connection × σ}
    (he : n.kernel.connections = pre ++ c :: post) (hb : c.1.Bound fd) (hpre : ∀ a ∈ pre, ¬a.1.Bound fd)
    (hpost : ∀ b ∈ post, b.1.fd ≠ fd) (hpos : 0 ≤ fd) (hclient : n.listener.clients fd = some ⟨fd⟩) :
    disconnectClient n fd =
      { n with
        kernel :=
          { opened := n.kernel.opened.erase fd
            interest := n.kernel.interest.erase fd
            connections := pre ++ ({ c.1 with closed := true }, c.2) :: post
            calls := n.kernel.calls ++ [.closed fd] }
        listener := { n.listener with clients := Function.update n.listener.clients fd none }
        queue := n.queue ++ [⟨fd, []⟩]
        log := n.log ++ ["[NetworkListener] Client disconnected (fd=" ++ toString fd ++ ")\n"] } := by
  simp only [disconnectClient, Net.erase, hclient, Net.destroy, SocketHandle.destroy, ge_iff_le, hpos, if_true,
    Kernel.epollDel, Kernel.close, he, updateBound_split hpre hpost hb, Finset.erase_idem, Net.push, Net.pushLog]

/-- A disconnect keeps the invariant: the events that are left are for other descriptors. -/
theorem LoopInv.disconnect (h : LoopInv n) (hl : Live n.kernel.sessions fd) (hnodup : (fd :: rest.map EpollEvent.fd).Nodup)
    (hw : ∀ e ∈ rest, Watched n.listener n.kernel.sessions e.fd) :
    LoopInv ((disconnectClient n fd).goto (.dispatching rest)) := by
  obtain ⟨pre, c, post, he, hb, hpre, hpost⟩ := h.split hl
  have hs := sessions_eq he
  have ho := h.owned
  have hq := h.framed
  rw [hs] at ho hq hw
  obtain ⟨rfl, hopen⟩ := hb
  obtain ⟨hreg, _, _, hpos, hclient⟩ := ho.live c.1 mem_middle hopen
  rw [disconnectClient_eq he ⟨rfl, hopen⟩ hpre hpost hpos hclient]
  obtain ⟨hnot, hnodup⟩ := List.nodup_cons.1 hnodup
  constructor
  · simp only [Net.goto, Kernel.sessions, List.map_append, List.map_cons]
    exact ho.close hopen
  · simp only [Net.goto, Kernel.sessions, List.map_append, List.map_cons]
    refine hq.push hreg ?_ rfl hreg rfl ?_
    · intro b hb
      obtain ⟨b', hb', rfl⟩ := List.mem_map.1 hb
      exact hpost b' hb'
    · simp [Connection.block, hopen]
  · simp only [Net.goto, Kernel.sessions, List.map_append, List.map_cons]
    refine ⟨hnodup, fun e hm => ?_⟩
    rcases hw e hm with hx | hx | hx
    · exact Or.inl hx
    · exact Or.inr (Or.inl hx)
    · refine Or.inr (Or.inr (hx.replace fun hbe => ?_))
      exact absurd (List.mem_map.2 ⟨e, hm, hbe.1.symm⟩) hnot

/-- The dispatch of an event. -/
theorem LoopInv.dispatch (h : LoopInv n) {event : EpollEvent} (hc : n.control = .dispatching (event :: rest)) :
    LoopInv (dispatch n event rest) := by
  have hp := h.pending
  rw [hc] at hp
  unfold CounterDrone.dispatch
  by_cases hevent : event.fd = n.listener.eventFd.fd
  · rw [if_pos hevent]
    exact (h.pushLog _).goto trivial
  rw [if_neg hevent]
  by_cases hserver : event.fd = n.listener.serverFd.fd
  · rw [if_pos hserver]
    exact h.goto (Pending.tail hp)
  rw [if_neg hserver]
  -- the event is for a connection that is open now
  have hlive : Live n.kernel.sessions event.fd := by
    rcases hp.2 event List.mem_cons_self with hx | hx | hx
    · exact absurd hx hserver
    · exact absurd hx hevent
    · exact hx
  have hw : ∀ e ∈ rest, Watched n.listener n.kernel.sessions e.fd := fun e he => hp.2 e (List.mem_cons_of_mem _ he)
  by_cases hhup : event.events &&& (EPOLLERR ||| EPOLLHUP) ≠ 0
  · rw [if_pos hhup]
    exact h.disconnect hlive hp.1 hw
  rw [if_neg hhup]
  by_cases hin : event.events &&& EPOLLIN ≠ 0
  · rw [if_pos hin]
    exact h.goto ⟨hp.1, hlive, hw⟩
  · rw [if_neg hin]
    exact h.goto (Pending.tail hp)

/-- A descriptor that is not open refers to no connection. -/
theorem LoopInv.not_bound (h : LoopInv n) (hfd : fd ∉ n.kernel.opened) : ∀ a ∈ n.kernel.connections, ¬a.1.Bound fd :=
  fun a ha => h.owned.not_bound hfd a.1 (List.mem_map_of_mem ha)

/-- An iteration of `handle_accept` in which the new connection is closed again. -/
theorem LoopInv.reject (h : LoopInv n) (hpos : 0 ≤ fd) (hfd : fd ∉ n.kernel.opened) (socket : σ) (message : String) :
    LoopInv ((({ n with kernel := n.kernel.accept fd socket } : Net σ).pushLog message).destroy ⟨fd⟩) := by
  have hs : ((n.kernel.accept fd socket).close fd).sessions = n.kernel.sessions ++ [{ fd := fd, closed := true }] := by
    rw [Kernel.sessions, accept_close _ _ (h.not_bound hfd), List.map_append]
    rfl
  have hk : (SocketHandle.mk fd).destroy (n.kernel.accept fd socket) = (n.kernel.accept fd socket).close fd :=
    if_pos hpos
  simp only [Net.destroy, Net.pushLog, hk]
  constructor
  · rw [hs]
    exact h.owned.reject hfd
  · rw [hs]
    exact h.framed.append nofun
  · rw [hs]
    exact h.pending.mono rfl rfl fun fd' hl => hl.append _

/-- An iteration of `handle_accept` in which the new connection is registered and stored. -/
theorem handleAccept_stored (hclient : n.listener.clients fd = none) (addr : String) (socket : σ) :
    handleAccept n rest (.connection fd addr socket) (.ok ()) (.ok ()) =
      { n with
        kernel := (n.kernel.accept fd socket).epollAdd fd
        listener := { n.listener with clients := Function.update n.listener.clients fd (some ⟨fd⟩) }
        log := n.log ++ ["[NetworkListener] Client connected (fd=" ++ toString fd ++ ", addr=" ++ addr ++ ")\n"] } := by
  simp only [handleAccept, SocketHandle.move, Net.emplace, Net.pushLog, hclient, Net.destroy, SocketHandle.destroy,
    show ¬((-1 : Int) ≥ 0) by decide, if_false]

/-- One iteration of `handle_accept`. -/
theorem LoopInv.accept (h : LoopInv n) (hc : n.control = .accepting rest) (accepted : AcceptResult σ)
    (nonblocking added : Except String Unit)
    (hnew : ∀ fd addr socket, accepted = .connection fd addr socket → 0 ≤ fd ∧ fd ∉ n.kernel.opened) :
    LoopInv (handleAccept n rest accepted nonblocking added) := by
  have hp := h.pending
  rw [hc] at hp
  cases accepted with
  | wouldBlock => exact h.goto hp
  | error what => exact (h.pushLog _).goto hp
  | connection fd addr socket =>
    obtain ⟨hpos, hfd⟩ := hnew fd addr socket rfl
    cases nonblocking with
    | error what => exact h.reject hpos hfd socket _
    | ok _ =>
      cases added with
      | error what => exact h.reject hpos hfd socket _
      | ok _ =>
        have hs : ((n.kernel.accept fd socket).epollAdd fd).sessions =
            n.kernel.sessions ++ [{ fd := fd, registered := true }] := by
          rw [Kernel.sessions, accept_epollAdd _ _ (h.not_bound hfd), List.map_append]
          rfl
        rw [handleAccept_stored (h.owned.not_client hfd)]
        constructor
        · rw [hs]
          exact h.owned.accept hfd hpos
        · rw [hs]
          exact h.framed.append fun _ => rfl
        · rw [hs]
          exact h.pending.mono rfl rfl fun fd' hl => hl.append _

/-- `recv` on a descriptor that refers to a connection reads from that connection. -/
theorem recv_bound {M : SocketModel} {k k' : Kernel M.Socket} {result : RecvResult} (hr : k.Recv M fd result k')
    (hl : Live k.sessions fd) :
    ∃ c ∈ k.connections, c.1.Bound fd ∧ ∃ t, M.recv c.2 result t ∧ k' = k.received fd result t := by
  cases hr with
  | bound hc hb h => exact ⟨_, hc, hb, _, h, rfl⟩
  | unbound hnone what =>
    obtain ⟨a, ha, hb⟩ := hl
    obtain ⟨c, hc, rfl⟩ := List.mem_map.1 ha
    exact absurd hb (hnone c hc)

/-- The connection that `recv` reads from, among the others, before and after. -/
theorem LoopInv.recv_split {M : SocketModel} {n : Net M.Socket} (h : LoopInv n) (hl : Live n.kernel.sessions fd)
    {result : RecvResult} {k : Kernel M.Socket} (hr : n.kernel.Recv M fd result k) :
    ∃ pre c post t, n.kernel.connections = pre ++ c :: post ∧ c.1.Bound fd ∧ (∀ a ∈ pre, ¬a.1.Bound fd) ∧
      (∀ b ∈ post, b.1.fd ≠ fd) ∧ M.recv c.2 result t ∧ k = n.kernel.received fd result t ∧
      k.connections = pre ++ ({ c.1 with received := c.1.received ++ result.chunks }, t) :: post := by
  obtain ⟨c, hcm, hb, t, hrecv, rfl⟩ := recv_bound hr hl
  obtain ⟨pre, post, he, hpre, hpost⟩ := exists_split h.owned.order hcm hb
  refine ⟨pre, c, post, t, he, hb, hpre, hpost, hrecv, rfl, ?_⟩
  rw [Kernel.received, he]
  exact updateBound_split hpre hpost hb

/-- What `recv` returned goes into the block of the connection that the descriptor refers to. -/
theorem LoopInv.recv {M : SocketModel} {n : Net M.Socket} (h : LoopInv n) (hc : n.control = .draining fd rest) {result : RecvResult}
    {k : Kernel M.Socket} (hr : n.kernel.Recv M fd result k) :
    LoopInv (handleClientData { n with kernel := k } fd rest result) := by
  have hp := h.pending
  rw [hc] at hp
  obtain ⟨hnodup, hl, hw⟩ := hp
  obtain ⟨pre, c, post, t, he, hb, hpre, hpost, hrecv, rfl, he'⟩ := h.recv_split hl hr
  have hs := sessions_eq he
  have ho := h.owned
  have hq := h.framed
  rw [hs] at ho hq
  obtain ⟨rfl, hopen⟩ := hb
  have hreg := (ho.live c.1 mem_middle hopen).1
  have hs' : (n.kernel.received c.1.fd result t).sessions =
      pre.map Prod.fst ++ { c.1 with received := c.1.received ++ result.chunks } :: post.map Prod.fst := by
    rw [Kernel.sessions, he', List.map_append, List.map_cons]
  have hsize : ∀ d ∈ c.1.received ++ result.chunks, d ≠ [] ∧ d.length ≤ RECV_BUF_SIZE := by
    intro d hd
    rcases List.mem_append.1 hd with hd | hd
    · exact ho.sizes c.1 mem_middle d hd
    · cases result with
      | data bytes =>
        rw [List.mem_singleton.1 hd]
        exact M.recv_size hrecv
      | closed => cases hd
      | wouldBlock => cases hd
      | error what => cases hd
  have ho' : Owned n.kernel.opened n.kernel.interest
      (pre.map Prod.fst ++ { c.1 with received := c.1.received ++ result.chunks } :: post.map Prod.fst) n.listener :=
    ho.replace rfl rfl rfl hsize
  have hlive : ∀ fd', Live n.kernel.sessions fd' → Live (n.kernel.received c.1.fd result t).sessions fd' := by
    intro fd' hl'
    rw [hs] at hl'
    rw [hs']
    exact hl'.replace fun hb' => hb'
  -- without data the block stays as it is
  have hquiet : result.chunks = [] → LoopInv { n with kernel := n.kernel.received c.1.fd result t } := by
    intro hnil
    constructor
    · rw [hs']
      exact ho'
    · rw [hs', hnil, List.append_nil]
      exact hq
    · exact h.pending.mono rfl rfl hlive
  have hw' : ∀ e ∈ rest, Watched n.listener (n.kernel.received c.1.fd result t).sessions e.fd := by
    intro e hm
    rcases hw e hm with hx | hx | hx
    · exact Or.inl hx
    · exact Or.inr (Or.inl hx)
    · exact Or.inr (Or.inr (hlive _ hx))
  cases result with
  | data bytes =>
    constructor
    · simp only [handleClientData, Net.push]
      rw [hs']
      exact ho'
    · simp only [handleClientData, Net.push]
      rw [hs']
      refine hq.push hreg ?_ rfl hreg rfl ?_
      · intro b hb
        obtain ⟨b', hb', rfl⟩ := List.mem_map.1 hb
        exact hpost b' hb'
      · simp [Connection.block, hopen, RecvResult.chunks]
    · exact h.pending.mono rfl rfl hlive
  | closed => exact (hquiet rfl).goto ⟨hnodup, hlive _ hl, hw'⟩
  | wouldBlock => exact (hquiet rfl).goto ⟨(List.nodup_cons.1 hnodup).2, hw'⟩
  | error what => exact ((hquiet rfl).pushLog _).goto ⟨hnodup, hlive _ hl, hw'⟩

/-- **Every step keeps the invariant.** -/
theorem LoopInv.step {M : SocketModel} {n n' : Net M.Socket} (h : LoopInv n) (hs : ListenerStep M n n') : LoopInv n' := by
  cases hs with
  | @evolve c pre post t hc hopen hev =>
    have hsame : ({ n.kernel with connections := pre ++ (c.1, t) :: post } : Kernel M.Socket).sessions =
        n.kernel.sessions := by
      rw [sessions_eq hc, Kernel.sessions, List.map_append, List.map_cons]
    constructor
    · rw [hsame]
      exact h.owned
    · rw [hsame]
      exact h.framed
    · rw [hsame]
      exact h.pending
  | requestStop => exact ⟨h.owned, h.framed, h.pending⟩
  | test hc =>
    apply h.goto
    split <;> trivial
  | interrupted hc => exact h.goto trivial
  | pollError hc what => exact (h.pushLog _).goto trivial
  | poll hc hlen hnodup hreg => exact h.goto ⟨hnodup, fun e he => h.owned.watched e.fd (hreg e he)⟩
  | dispatch hc => exact h.dispatch hc
  | batchDone hc => exact h.goto trivial
  | accept hc accepted nonblocking added hnew =>
    apply h.accept hc
    intro fd addr socket he
    obtain ⟨hpos, hfd, _⟩ := hnew fd addr socket he
    exact ⟨hpos, hfd⟩
  | recv hc hr => exact h.recv hc hr
  | disconnect hc =>
    have hp := h.pending
    rw [hc] at hp
    exact h.disconnect hp.2.1 hp.1 hp.2.2

end Steps

/-- The invariant holds throughout every run. -/
theorem reachable_inv {M : SocketModel} {n : Net M.Socket} (hn : (listenerSystem M).Reachable n) : LoopInv n :=
  hn.invariant (I := LoopInv) (fun _ h => LoopInv.start h) fun _ _ _ h hs => h.step hs

/-! ## Main result -/

/-- **Session framing.** Whatever the sockets do and the system calls return, in every state of a run the chunks pushed
under a descriptor are, in the order of `accept`, one block for each connection that was registered under it: what
`recv` returned for that connection, in non-empty chunks of at most 4096 bytes, and then one empty chunk if the listener
has closed it. -/
theorem session_framing (M : SocketModel) (n : Net M.Socket) (hn : (listenerSystem M).Reachable n) (f : Int) :
    (n.queue.filter fun d => d.clientId = f) =
        ((n.kernel.sessions.filter fun c => c.registered ∧ c.fd = f).flatMap fun c =>
          c.received.map (DataChunk.mk f) ++ if c.closed then [⟨f, []⟩] else []) ∧
      ∀ c ∈ n.kernel.sessions, ∀ d ∈ c.received, d ≠ [] ∧ d.length ≤ RECV_BUF_SIZE := by
  have h := reachable_inv hn
  refine ⟨(h.framed f).trans ?_, h.owned.sizes⟩
  rw [under, List.flatMap_def, List.flatMap_def]
  congr 1
  apply List.map_congr_left
  intro c hc
  have hf : c.fd = f := by
    have := (List.mem_filter.1 hc).2
    simp only [decide_eq_true_eq] at this
    exact this.2
  rw [Connection.block, hf]

/-! ## A run -/

/-- The event loop before any connection. -/
def startNet : Net ReceiveBuffer :=
  { kernel := { opened := {0, 1, 2, 3, 4, 5}, interest := {3, 5} }
    listener := { serverFd := ⟨3⟩, epollFd := ⟨4⟩, eventFd := ⟨5⟩ } }

/-- One connection has been accepted, as descriptor 7. -/
def acceptedNet (b : ReceiveBuffer) : Net ReceiveBuffer :=
  handleAccept (startNet.goto (.accepting [])) [] (.connection 7 "10.0.0.1" b) (.ok ()) (.ok ())

theorem startNet_initial : startNet.Initial := by
  refine ⟨?_, rfl, rfl, rfl, fun _ => rfl, rfl, rfl⟩
  decide

/-- A step of the event loop in which the eventfd is not reported, and only inputs are reported and dispatched. -/
structure Quiet {M : SocketModel} (n n' : Net M.Socket) : Prop where
  step : ListenerStep M n n'
  moves : n'.control ≠ n.control ∨ n'.kernel.sessions ≠ n.kernel.sessions
  quiet : n.control = .polling → ∀ events, n'.control = .dispatching events → ∀ e ∈ events, e.fd ≠ n.listener.eventFd.fd
  input : n.control = .polling → ∀ events, n'.control = .dispatching events → ∀ e ∈ events, e.events = EPOLLIN
  dispatched : ∀ event rest, n.control = .dispatching (event :: rest) → event.events = EPOLLIN

/-- A run of such steps over receive buffers. -/
abbrev QuietRun : Net ReceiveBuffer → Net ReceiveBuffer → Prop := Relation.ReflTransGen (@Quiet receiveBuffers)

section Quiet

variable {n m : Net ReceiveBuffer}

/-- A step outside of `epoll_wait`. -/
theorem Quiet.of_step {control : Control} (h : ListenerStep receiveBuffers (n.goto control) m)
    (hmoves : m.control ≠ control ∨ m.kernel.sessions ≠ n.kernel.sessions) (hpolling : control ≠ .polling)
    (hinput : ∀ event rest, control = .dispatching (event :: rest) → event.events = EPOLLIN) :
    @Quiet receiveBuffers (n.goto control) m :=
  ⟨h, hmoves, fun hp => absurd hp hpolling, fun hp => absurd hp hpolling, hinput⟩

/-- `epoll_wait` reports an input. -/
theorem quiet_poll {fd : Int} (hreg : fd ∈ n.kernel.interest) (hfd : fd ≠ n.listener.eventFd.fd) :
    @Quiet receiveBuffers (n.goto .polling) (n.goto (.dispatching [⟨fd, EPOLLIN⟩])) := by
  refine ⟨.poll rfl (by simp [MAX_EPOLL_EVENTS]) (by simp) ?_, Or.inl (by simp [Net.goto]), ?_, ?_, nofun⟩
  · intro e he
    rwa [List.mem_singleton.mp he]
  · intro _ events he e hm
    cases he
    rwa [List.mem_singleton.mp hm]
  · intro _ events he e hm
    cases he
    rw [List.mem_singleton.mp hm]

/-- The test of the stop token. -/
theorem quiet_test (hstop : n.stopRequested = false) : @Quiet receiveBuffers (n.goto .loop) (n.goto .polling) := by
  have htest : ListenerStep receiveBuffers (n.goto .loop)
      ((n.goto .loop).goto (if n.stopRequested then .finished else .polling)) := .test rfl
  rw [hstop] at htest
  exact .of_step htest (Or.inl nofun) nofun nofun

/-- The batch is done, and the loop goes on. -/
theorem quiet_goesOn (hstop : n.stopRequested = false) : QuietRun (n.goto (.dispatching [])) (n.goto .polling) :=
  .head (.of_step (.batchDone rfl) (Or.inl nofun) nofun nofun) (.single (quiet_test hstop))

/-- A connection is accepted as descriptor 7. -/
theorem quiet_accepts (hreg : n.listener.serverFd.fd ∈ n.kernel.interest)
    (hevent : n.listener.serverFd.fd ≠ n.listener.eventFd.fd) (hfd : 7 ∉ n.kernel.opened) {b : ReceiveBuffer}
    (hb : b.unread = b.arrived)
    (hm : handleAccept (n.goto (.accepting [])) [] (.connection 7 "10.0.0.1" b) (.ok ()) (.ok ()) = m.goto (.accepting []))
    (hsessions : m.kernel.sessions ≠ n.kernel.sessions) (hstop : m.stopRequested = false) :
    QuietRun (n.goto .polling) (m.goto .polling) := by
  have hdispatch : ListenerStep receiveBuffers (n.goto (.dispatching [⟨n.listener.serverFd.fd, EPOLLIN⟩]))
      (n.goto (.accepting [])) := by
    have h := @ListenerStep.dispatch receiveBuffers (n.goto (.dispatching [⟨n.listener.serverFd.fd, EPOLLIN⟩])) _ _ rfl
    rwa [dispatch, if_neg (by exact hevent), if_pos (by rfl)] at h
  have haccept : ListenerStep receiveBuffers (n.goto (.accepting [])) (m.goto (.accepting [])) := by
    rw [← hm]
    refine .accept rfl _ _ _ ?_
    intro fd addr socket he
    cases he
    exact ⟨by decide, hfd, hb⟩
  have hnone : ListenerStep receiveBuffers (m.goto (.accepting [])) (m.goto (.dispatching [])) :=
    .accept rfl .wouldBlock (.ok ()) (.ok ()) nofun
  calc QuietRun (n.goto .polling) (n.goto (.dispatching [⟨n.listener.serverFd.fd, EPOLLIN⟩])) := .single (quiet_poll hreg hevent)
    QuietRun _ (n.goto (.accepting [])) := .single (.of_step hdispatch (Or.inl nofun) nofun fun _ _ he => by cases he; rfl)
    QuietRun _ (m.goto (.accepting [])) := .single (.of_step haccept (Or.inr hsessions) nofun nofun)
    QuietRun _ (m.goto (.dispatching [])) := .single (.of_step hnone (Or.inl nofun) nofun nofun)
    QuietRun _ (m.goto .polling) := quiet_goesOn hstop

/-- The bytes that have arrived on descriptor 7 are read. -/
theorem quiet_reads (hreg : 7 ∈ n.kernel.interest) (hevent : 7 ≠ n.listener.eventFd.fd)
    (hserver : 7 ≠ n.listener.serverFd.fd) {c : Connection} {bytes : List Byte}
    (hc : (c, ⟨bytes, bytes, none⟩) ∈ n.kernel.connections) (hbound : c.Bound 7) (hne : bytes ≠ [])
    (hlen : bytes.length ≤ RECV_BUF_SIZE) (hstop : n.stopRequested = false) {k : Kernel ReceiveBuffer}
    (hk : (n.kernel.received 7 (.data bytes) ⟨bytes, [], none⟩).received 7 .wouldBlock ⟨bytes, [], none⟩ = k)
    (hsessions : (n.kernel.received 7 (.data bytes) (⟨bytes, [], none⟩ : ReceiveBuffer)).sessions ≠ n.kernel.sessions) :
    QuietRun (n.goto .polling)
      (({ n with kernel := k, queue := n.queue ++ [⟨7, bytes⟩] } : Net ReceiveBuffer).goto .polling) := by
  have hdispatch : ListenerStep receiveBuffers (n.goto (.dispatching [⟨7, EPOLLIN⟩])) (n.goto (.draining 7 [])) := by
    have h := @ListenerStep.dispatch receiveBuffers (n.goto (.dispatching [⟨7, EPOLLIN⟩])) _ _ rfl
    rwa [dispatch, if_neg (by exact hevent), if_neg (by exact hserver), if_neg (by decide), if_pos (by decide)] at h
  have hdata : ReceiveBuffer.Recv ⟨bytes, bytes, none⟩ (.data bytes) ⟨bytes, [], none⟩ :=
    .data ⟨bytes, bytes, none⟩ bytes [] (by simp) hne hlen
  have hnothing : ReceiveBuffer.Recv ⟨bytes, [], none⟩ .wouldBlock ⟨bytes, [], none⟩ := .wouldBlock _ rfl rfl
  -- the connection is then without unread bytes
  have hmem : (({ c with received := c.received ++ [bytes] }, ⟨bytes, [], none⟩) : Connection × ReceiveBuffer) ∈
      (n.kernel.received 7 (.data bytes) ⟨bytes, [], none⟩).connections :=
    List.mem_map.mpr ⟨_, hc, if_pos hbound⟩
  let read : Net ReceiveBuffer :=
    { n with kernel := n.kernel.received 7 (.data bytes) ⟨bytes, [], none⟩, queue := n.queue ++ [⟨7, bytes⟩] }
  have hread : ListenerStep receiveBuffers (n.goto (.draining 7 [])) (read.goto (.draining 7 [])) :=
    @ListenerStep.recv receiveBuffers (n.goto (.draining 7 [])) 7 [] rfl _ _
      (@Kernel.Recv.bound receiveBuffers _ 7 _ hc hbound _ _ hdata)
  have hdone := @ListenerStep.recv receiveBuffers (read.goto (.draining 7 [])) 7 [] rfl _ _
    (@Kernel.Recv.bound receiveBuffers _ 7 _ hmem hbound _ _ hnothing)
  rw [← hk]
  calc QuietRun (n.goto .polling) (n.goto (.dispatching [⟨7, EPOLLIN⟩])) := .single (quiet_poll hreg hevent)
    QuietRun _ (n.goto (.draining 7 [])) := .single (.of_step hdispatch (Or.inl nofun) nofun fun _ _ he => by cases he; rfl)
    QuietRun _ (read.goto (.draining 7 [])) := .single (.of_step hread (Or.inr hsessions) nofun nofun)
    QuietRun _ _ := .single (.of_step hdone (Or.inl nofun) nofun nofun)
    QuietRun _ _ := quiet_goesOn hstop

end Quiet

/-- The system makes every step of the listener in which a dispatched event is an input, or finds nothing unread. -/
def Serves (S : System (Net ReceiveBuffer)) : Prop :=
  ∀ n n' : Net receiveBuffers.Socket, ListenerStep receiveBuffers n n' →
    (∀ event rest, n.control = .dispatching (event :: rest) →
      event.events = EPOLLIN ∨ ∀ c ∈ n.kernel.connections, c.1.Bound event.fd → c.2.unread = []) → S.step n n'

section Serves

variable {S : System (Net ReceiveBuffer)} {n m : Net ReceiveBuffer}

theorem Serves.runs (hS : Serves S) (hn : S.Reachable n) (hrun : QuietRun n m) : S.Reachable m := by
  induction hrun with
  | refl => exact hn
  | tail _ h ih => exact ih.step (hS _ _ h.step fun event rest he => Or.inl (h.dispatched event rest he))

/-- `epoll_wait` reports one event, and it is dispatched. -/
theorem Serves.event (hS : Serves S) (hn : S.Reachable (n.goto .polling)) (event : EpollEvent)
    (hreg : event.fd ∈ n.kernel.interest)
    (hcalm : event.events = EPOLLIN ∨ ∀ c ∈ n.kernel.connections, c.1.Bound event.fd → c.2.unread = []) :
    S.Reachable (dispatch (n.goto (.dispatching [event])) event []) := by
  have hpoll : ListenerStep receiveBuffers (n.goto .polling) (n.goto (.dispatching [event])) := by
    refine .poll rfl (by simp [MAX_EPOLL_EVENTS]) (by simp) fun e he => ?_
    rw [List.mem_singleton.mp he]
    exact hreg
  refine (hn.step (hS _ _ hpoll nofun)).step (hS _ _ (.dispatch rfl) ?_)
  intro event' rest he
  cases he
  exact hcalm

/-- The connection of descriptor 7 hangs up, when its bytes have been read. -/
theorem Serves.hangsUp (hS : Serves S) (hn : S.Reachable (n.goto .polling)) (hreg : 7 ∈ n.kernel.interest)
    (hevent : 7 ≠ n.listener.eventFd.fd) (hserver : 7 ≠ n.listener.serverFd.fd)
    (hread : ∀ c ∈ n.kernel.connections, c.1.Bound 7 → c.2.unread = [])
    (hstop : (disconnectClient n 7).stopRequested = false) : S.Reachable ((disconnectClient n 7).goto .polling) := by
  have h := hS.event hn ⟨7, EPOLLHUP⟩ hreg (Or.inr hread)
  have hsame : (disconnectClient (n.goto (.dispatching [⟨7, EPOLLHUP⟩])) 7).goto (.dispatching []) =
      (disconnectClient n 7).goto (.dispatching []) := by
    simp only [disconnectClient, Net.erase, Net.goto]
    cases n.listener.clients 7 <;> rfl
  rw [dispatch, if_neg (by exact hevent), if_neg (by exact hserver), if_pos (by decide), hsame] at h
  exact hS.runs h (quiet_goesOn hstop)

/-- One connection has been accepted. -/
theorem acceptedNet_reachable (hS : Serves S) (hinit : S.init startNet) {b : ReceiveBuffer} (hb : b.unread = b.arrived) :
    S.Reachable ((acceptedNet b).goto .polling) := by
  have hstart : S.Reachable (startNet.goto .polling) := hS.runs (.init hinit) (.single (@quiet_test startNet rfl))
  exact hS.runs hstart (quiet_accepts (by decide) (by decide) (by decide) hb rfl nofun rfl)

/-- The byte of that connection has been read, and perhaps it has ended. -/
def servedNet (ended : Option StreamEnd) : Net ReceiveBuffer :=
  { acceptedNet ⟨[0x41], [0x41], none⟩ with
    kernel := { (acceptedNet ⟨[0x41], [0x41], none⟩).kernel with
      connections := [(⟨7, true, false, [[0x41]]⟩, ⟨[0x41], [], ended⟩)] }
    queue := [⟨7, [0x41]⟩] }

/-- A byte arrives on the connection and is read; then the peer closes it, and the hangup is reported. -/
theorem servedNet_reachable (hS : Serves S) (hinit : S.init startNet) :
    S.Reachable ((disconnectClient (servedNet (some .closed)) 7).goto .polling) := by
  have haccepted : S.Reachable ((acceptedNet ⟨[0x41], [0x41], none⟩).goto .polling) := acceptedNet_reachable hS hinit rfl
  have hserved : S.Reachable ((servedNet none).goto .polling) :=
    hS.runs haccepted (quiet_reads (by decide) (by decide) (by decide) List.mem_cons_self ⟨rfl, rfl⟩ (by decide) (by decide)
      rfl rfl (by decide))
  have hended : S.Reachable ((servedNet (some .closed)).goto .polling) :=
    hserved.step (hS _ _ (@ListenerStep.evolve receiveBuffers _ (⟨7, true, false, [[0x41]]⟩, ⟨[0x41], [], none⟩) [] [] _ rfl rfl
      (.finish _ .closed)) nofun)
  refine hS.hangsUp hended (by decide) (by decide) (by decide) ?_ rfl
  intro c hc _
  rw [List.mem_singleton.mp hc]

/-- The descriptor is handed out again, and a byte has arrived on the new connection. -/
def reusedNet : Net ReceiveBuffer :=
  handleAccept ((disconnectClient (servedNet (some .closed)) 7).goto (.accepting [])) []
    (.connection 7 "10.0.0.1" ⟨[0x42], [0x42], none⟩) (.ok ()) (.ok ())

theorem reusedNet_reachable (hS : Serves S) (hinit : S.init startNet) : S.Reachable (reusedNet.goto .polling) :=
  hS.runs (servedNet_reachable hS hinit) (quiet_accepts (by decide) (by decide) (by decide) rfl rfl (by decide) rfl)

end Serves

/-- Two connections under one descriptor: the block of the one that was closed, and that of the open one. -/
theorem session_framing_reused :
    ∃ n, (listenerSystem receiveBuffers).Reachable n ∧
      n.kernel.sessions = [⟨7, true, true, [[0x41]]⟩, ⟨7, true, false, [[0x42]]⟩] ∧
      (n.queue.filter fun d => d.clientId = 7) = [⟨7, [0x41]⟩, ⟨7, []⟩, ⟨7, [0x42]⟩] := by
  have hS : Serves (listenerSystem receiveBuffers) := fun _ _ h _ => h
  have hn := hS.runs (reusedNet_reachable hS startNet_initial) (quiet_reads (by decide) (by decide) (by decide)
    (List.mem_cons_of_mem _ List.mem_cons_self) ⟨rfl, rfl⟩ (by decide) (by decide) rfl rfl (by decide))
  refine ⟨_, hn, rfl, ?_⟩
  rw [(session_framing receiveBuffers _ hn 7).1]
  rfl

end CounterDrone

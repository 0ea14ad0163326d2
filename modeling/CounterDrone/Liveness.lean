import Mathlib
import CounterDrone.Lib.Fair
import CounterDrone.Waking

/-!
# Liveness of the server

Infinite runs of the process that are fair to its threads: a thread that can make a step for good makes one. A thread that
waits is not counted as able to (`Server.Ready`): the listener in `epoll_wait` only while the eventfd is ready, `main` only
once the signal has come. Nothing is asked of the kernel and the peers.

As long as they are not stopped, the parser and the logic handle everything that the listener has pushed, so that every
packet of a connection comes to the drone table (`handled_eventually`): the number of chunks or packets still to be handled,
and the stages and iterations within one, go down with every step of the thread, and no other thread raises them.
-/

namespace CounterDrone

variable {M : SocketModel} {native : Endian} {fmt : Format}

/-! ## Fair runs -/

/-- An actor can make a step and does not wait for anything from outside. -/
structure Server.Ready (native : Endian) (fmt : Format) (a : Actor) (s : Server M.Socket) : Prop where
  able : ∃ t, ServerStep M native fmt a s t
  thread : a ≠ .kernel
  /-- `epoll_wait` has the shutdown event to report -/
  polled : a = .listener → s.running .listener = true → s.net.control = .polling → 0 < s.eventCount
  /-- the signal has come -/
  signalled : a = .main → s.main ≠ .waiting

/-- The infinite runs of the process. -/
abbrev ServerRun (M : SocketModel) (native : Endian) (fmt : Format) :=
  Run (serverSystem M native fmt).init (ServerStep M native fmt)

/-- A run that is fair to every thread. -/
def ServerRun.FairToAll (r : ServerRun M native fmt) : Prop := ∀ a, r.Fair (Server.Ready native fmt) a

section Runs

variable (r : ServerRun M native fmt)

theorem ServerRun.reachable (i : Nat) : (serverSystem M native fmt).Reachable (r.state i) :=
  Run.reachable r (fun _ h => h) (fun a _ _ h => ⟨a, h⟩) i

variable {r} {i : Nat}

/-- What the steps of the other actors keep, a moment without a step keeps. -/
theorem ServerRun.kept {a : Actor} {R : Server M.Socket → Server M.Socket → Prop} (hrefl : ∀ s, R s s)
    (hkeep : ∀ {b s t}, ServerStep M native fmt b s t → b ≠ a → R s t) (hi : r.actor i ≠ some a) :
    R (r.state i) (r.state (i + 1)) := by
  cases hb : r.actor i with
  | none =>
    rw [r.idle_state hb]
    exact hrefl _
  | some b =>
    refine hkeep (r.step_state hb) ?_
    rintro rfl
    exact hi hb

/-- What grows from each step to the next. -/
theorem ServerRun.grows {α : Type} {f : Server M.Socket → List α}
    (hgrow : ∀ {b s t}, (serverSystem M native fmt).Reachable s → ServerStep M native fmt b s t → f s <+: f t) {j : Nat}
    (hij : i ≤ j) : f (r.state i) <+: f (r.state j) := by
  induction j, hij using Nat.le_induction with
  | base => exact List.prefix_rfl
  | succ j _ ih =>
    refine ih.trans ?_
    cases hb : r.actor j with
    | none => rw [r.idle_state hb]
    | some b => exact hgrow (ServerRun.reachable r j) (r.step_state hb)

/-- While the parser makes no step. -/
theorem ServerRun.parser_kept (hi : r.actor i ≠ some .parser) :
    (r.state (i + 1)).pipeline.parserControl = (r.state i).pipeline.parserControl ∧
      (r.state (i + 1)).pipeline.chunksHandled = (r.state i).pipeline.chunksHandled ∧
      (r.state (i + 1)).running .parser = (r.state i).running .parser :=
  ServerRun.kept (R := fun s t => t.pipeline.parserControl = s.pipeline.parserControl ∧
    t.pipeline.chunksHandled = s.pipeline.chunksHandled ∧ t.running .parser = s.running .parser)
    (fun _ => ⟨rfl, rfl, rfl⟩) (fun h hb => h.other_than_parser hb) hi

/-- While the logic makes no step. -/
theorem ServerRun.logic_kept (hi : r.actor i ≠ some .logic) :
    (r.state (i + 1)).pipeline.logicControl = (r.state i).pipeline.logicControl ∧
      (r.state (i + 1)).pipeline.packetsHandled = (r.state i).pipeline.packetsHandled ∧
      (r.state (i + 1)).running .logic = (r.state i).running .logic :=
  ServerRun.kept (R := fun s t => t.pipeline.logicControl = s.pipeline.logicControl ∧
    t.pipeline.packetsHandled = s.pipeline.packetsHandled ∧ t.running .logic = s.running .logic)
    (fun _ => ⟨rfl, rfl, rfl⟩) (fun h hb => h.other_than_logic hb) hi

/-- What every step keeps. -/
theorem ServerRun.persists {P : Server M.Socket → Prop}
    (hkeep : ∀ {b s t}, (serverSystem M native fmt).Reachable s → ServerStep M native fmt b s t → P s → P t) {j : Nat}
    (hij : i ≤ j) (h : P (r.state i)) : P (r.state j) := by
  refine Run.stable r (P := P) ?_ hij h
  intro k hk
  cases ha : r.actor k with
  | none => rwa [r.idle_state ha]
  | some a => exact hkeep (ServerRun.reachable r k) (r.step_state ha) hk

/-- A stop token stays stopped. -/
theorem ServerRun.stopped {p : Producer} {j : Nat} (hij : i ≤ j) (h : (r.state i).stop p = true) :
    (r.state j).stop p = true :=
  ServerRun.persists (P := fun s => s.stop p = true) (fun _ hstep hp => hstep.stop_mono p hp) hij h

end Runs

/-- Whose turn it is. -/
def Actor.turn (i : Nat) : Actor :=
  match i % 6 with
  | 0 => .kernel
  | 1 => .listener
  | 2 => .parser
  | 3 => .logic
  | 4 => .logger
  | _ => .main

theorem Actor.exists_turn (a : Actor) (i : Nat) : ∃ j, i ≤ j ∧ Actor.turn j = a := by
  have hturn : ∀ k < 6, Actor.turn (6 * i + k) = Actor.turn k := by
    intro k hk
    simp only [Actor.turn, Nat.mul_add_mod]
  cases a with
  | kernel => exact ⟨6 * i + 0, by omega, hturn 0 (by omega)⟩
  | listener => exact ⟨6 * i + 1, by omega, hturn 1 (by omega)⟩
  | parser => exact ⟨6 * i + 2, by omega, hturn 2 (by omega)⟩
  | logic => exact ⟨6 * i + 3, by omega, hturn 3 (by omega)⟩
  | logger => exact ⟨6 * i + 4, by omega, hturn 4 (by omega)⟩
  | main => exact ⟨6 * i + 5, by omega, hturn 5 (by omega)⟩

/-- Every reachable state comes in a fair run, in which the signal does not come if it has not come by then. -/
theorem exists_fair_run {s : Server M.Socket} (hs : (serverSystem M native fmt).Reachable s) (hmain : s.main = .waiting) :
    ∃ (r : ServerRun M native fmt) (N : Nat), r.state N = s ∧ r.FairToAll ∧
      ∀ i p, (r.state i).stop p = true → s.stop p = true := by
  have hable : ∀ (a : Actor) (s : Server M.Socket), Server.Ready native fmt a s → ∃ t, ServerStep M native fmt a s t :=
    fun _ _ h => h.able
  obtain ⟨r, N, rfl, hfair, hready⟩ := Run.exists_fair hable Actor.turn (fun _ _ h => h) Actor.exists_turn hs
  refine ⟨r, N, rfl, hfair, ?_⟩
  have hwaits : ∀ k, (r.state (N + k)).main = .waiting ∧ ∀ p, (r.state (N + k)).stop p = (r.state N).stop p := by
    intro k
    induction k with
    | zero => exact ⟨hmain, fun _ => rfl⟩
    | succ k ih =>
      obtain ⟨hm, hstops⟩ := ih
      have hother : r.actor (N + k) ≠ some .main := by
        intro ha
        exact (hready (N + k) .main (by omega) ha).signalled rfl hm
      obtain ⟨hm', hstops'⟩ := ServerRun.kept (R := fun s t => t.main = s.main ∧ ∀ p, t.stop p = s.stop p)
        (fun _ => ⟨rfl, fun _ => rfl⟩)
        (fun h hb => ⟨(h.other_than_main hb).1, (h.other_than_main hb).2.2.2⟩) hother
      exact ⟨hm'.trans hm, fun p => (hstops' p).trans (hstops p)⟩
  intro i p hp
  rcases Nat.le_total i N with hi | hi
  · exact ServerRun.stopped hi hp
  · obtain ⟨k, rfl⟩ := Nat.exists_eq_add_of_le hi
    rwa [← (hwaits k).2 p]

/-! ## What grows -/

section Grows

variable {s t : Server M.Socket} {a : Actor}

theorem queue_grows (hs : (serverSystem M native fmt).Reachable s) (h : ServerStep M native fmt a s t) :
    s.net.queue <+: t.net.queue := by
  by_cases ha : a = .listener
  · subst ha
    cases h with
    | launch hr =>
      rw [((reachable_server hs).unlaunched hr).queue]
      exact List.nil_prefix
    | listener hr hstep hmoves => exact (hstep.grows_of_moves hmoves).queue
  · rw [(h.other_than_listener ha).2.2.1]

/-- A step of the pipeline pushes packets to the end. -/
theorem PipelineStep.parsedPushed_grows {s p : Pipeline} (h : PipelineStep native fmt s p) :
    s.parsedPushed <+: p.parsedPushed := by
  cases h with
  | parserBegin | parserContinue => exact List.prefix_append _ _
  | parserTest | logicTest => split <;> exact List.prefix_rfl
  | listenerPush | stopParser | stopLogic | parserPop | parserPopStopped | logicPop | logicPopStopped | logicHandle =>
    exact List.prefix_rfl

/-- The parser finishes with one chunk after the other. -/
theorem PipelineStep.chunksHandled_grows {s p : Pipeline} (h : PipelineStep native fmt s p) :
    s.chunksHandled <+: p.chunksHandled := by
  cases h with
  | parserBegin | parserContinue => exact List.prefix_append _ _
  | parserTest | logicTest => split <;> exact List.prefix_rfl
  | listenerPush | stopParser | stopLogic | parserPop | parserPopStopped | logicPop | logicPopStopped | logicHandle =>
    exact List.prefix_rfl

theorem chunksHandled_grows (h : ServerStep M native fmt a s t) :
    s.pipeline.chunksHandled <+: t.pipeline.chunksHandled := by
  cases h with
  | parser hr hstep => exact hstep.chunksHandled_grows
  | logic hr hstep => exact hstep.chunksHandled_grows
  | kernel | launch | listener | startParser | startLogic | logger | main | wake => exact List.prefix_rfl

theorem parsedPushed_grows (h : ServerStep M native fmt a s t) : s.pipeline.parsedPushed <+: t.pipeline.parsedPushed := by
  cases h with
  | parser hr hstep => exact hstep.parsedPushed_grows
  | logic hr hstep => exact hstep.parsedPushed_grows
  | kernel | launch | listener | startParser | startLogic | logger | main | wake => exact List.prefix_rfl

end Grows

/-! ## The parser and the logic -/

section Handling

variable {r : ServerRun M native fmt}

/-- The parser begins. -/
theorem parser_begins (hfair : r.FairToAll) (i : Nat) : ∃ j, i ≤ j ∧ (r.state j).running .parser = true := by
  have h : r.Descends (Server.Ready native fmt) .parser (fun _ => 0) (fun _ => True)
      fun j => (r.state j).running .parser = true := by
    refine ⟨?_, ?_, fun _ _ _ _ => Or.inr ⟨trivial, le_rfl⟩⟩
    · intro j _ hq
      exact ⟨⟨_, .startParser (Bool.eq_false_of_not_eq_true hq)⟩, by simp, by simp, by simp⟩
    · intro j _ hq ha
      have hstep := r.step_state ha
      generalize r.state (j + 1) = t at hstep
      cases hstep with
      | startParser => exact Or.inl rfl
      | parser hr => exact absurd hr hq
  exact (hfair .parser).eventually h trivial

/-- The logic begins. -/
theorem logic_begins (hfair : r.FairToAll) (i : Nat) : ∃ j, i ≤ j ∧ (r.state j).running .logic = true := by
  have h : r.Descends (Server.Ready native fmt) .logic (fun _ => 0) (fun _ => True)
      fun j => (r.state j).running .logic = true := by
    refine ⟨?_, ?_, fun _ _ _ _ => Or.inr ⟨trivial, le_rfl⟩⟩
    · intro j _ hq
      exact ⟨⟨_, .startLogic (Bool.eq_false_of_not_eq_true hq) 0⟩, by simp, by simp, by simp⟩
    · intro j _ hq ha
      have hstep := r.step_state ha
      generalize r.state (j + 1) = t at hstep
      cases hstep with
      | startLogic => exact Or.inl rfl
      | logic hr => exact absurd hr hq
  exact (hfair .logic).eventually h trivial

/-- A step of the parser when it has begun. -/
theorem ServerStep.parser_cases {s t : Server M.Socket} (h : ServerStep M native fmt .parser s t)
    (hr : s.running .parser = true) :
    t.running = s.running ∧ PipelineStep native fmt s.pipeline t.pipeline ∧
      t.pipeline.parserControl ≠ s.pipeline.parserControl := by
  cases h with
  | startParser hf => exact absurd (hr.symm.trans hf) (by simp)
  | parser _ hstep hmoves => exact ⟨rfl, hstep, hmoves⟩

/-- A step of the logic when it has begun. -/
theorem ServerStep.logic_cases {s t : Server M.Socket} (h : ServerStep M native fmt .logic s t)
    (hr : s.running .logic = true) :
    t.running = s.running ∧ PipelineStep native fmt s.pipeline t.pipeline ∧
      t.pipeline.logicControl ≠ s.pipeline.logicControl := by
  cases h with
  | startLogic hf => exact absurd (hr.symm.trans hf) (by simp)
  | logic _ hstep hmoves => exact ⟨rfl, hstep, hmoves⟩

/-- A parser that is not stopped handles as many chunks as the listener has pushed. -/
theorem chunks_handled (hfair : r.FairToAll) (hstop : ∀ i, (r.state i).pipeline.parserStop = false) {k i : Nat}
    (hk : k ≤ (r.state i).net.queue.length) (hrun : (r.state i).running .parser = true) :
    ∃ j, i ≤ j ∧ k ≤ (r.state j).pipeline.chunksHandled.length := by
  have h : r.Descends (Server.Ready native fmt) .parser (fun j => (r.state j).pipeline.parserRank k)
      (fun j => k ≤ (r.state j).net.queue.length ∧ (r.state j).running .parser = true)
      fun j => k ≤ (r.state j).pipeline.chunksHandled.length := by
    refine ⟨?_, ?_, ?_⟩
    · rintro j ⟨hk, hrun⟩ hq
      have hs := ServerRun.reachable r j
      have hfinished : (r.state j).pipeline.parserControl ≠ .finished := by
        intro hf
        exact absurd ((reachable_stops hs).parser hf) (by simp [hstop j])
      obtain ⟨p, hstep, hmoves⟩ := exists_parserStep native fmt hfinished fun hc =>
        Or.inl ((reachable_server hs).chunk_left (by omega) (by rw [hc]; rfl))
      exact ⟨⟨_, .parser hrun hstep hmoves⟩, by simp, by simp, by simp⟩
    · rintro j ⟨hk, hrun⟩ hq ha
      obtain ⟨hsame, hstep, hmoves⟩ := (r.step_state ha).parser_cases hrun
      have hgrow := (queue_grows (ServerRun.reachable r j) (r.step_state ha)).length_le
      exact Or.inr ⟨⟨by omega, by rw [hsame, hrun]⟩, hstep.parserRank_lt hmoves (hstop j) (by omega)⟩
    · rintro j ⟨hk, hrun⟩ hq ha
      obtain ⟨hc, hh, hr⟩ := ServerRun.parser_kept ha
      have hgrow := (ServerRun.grows (r := r) queue_grows (Nat.le_succ j)).length_le
      refine Or.inr ⟨⟨hk.trans hgrow, hr.trans hrun⟩, ?_⟩
      simp only [Pipeline.parserRank, hc, hh]
      exact le_rfl
  exact (hfair .parser).eventually h ⟨hk, hrun⟩

/-- A logic that is not stopped handles as many packets as the parser has pushed. -/
theorem packets_handled (hfair : r.FairToAll) (hstop : ∀ i, (r.state i).pipeline.logicStop = false) {k i : Nat}
    (hk : k ≤ (r.state i).pipeline.parsedPushed.length) (hrun : (r.state i).running .logic = true) :
    ∃ j, i ≤ j ∧ k ≤ (r.state j).pipeline.packetsHandled.length := by
  have h : r.Descends (Server.Ready native fmt) .logic (fun j => (r.state j).pipeline.logicRank k)
      (fun j => k ≤ (r.state j).pipeline.parsedPushed.length ∧ (r.state j).running .logic = true)
      fun j => k ≤ (r.state j).pipeline.packetsHandled.length := by
    refine ⟨?_, ?_, ?_⟩
    · rintro j ⟨hk, hrun⟩ hq
      have hs := ServerRun.reachable r j
      have hfinished : (r.state j).pipeline.logicControl ≠ .finished := by
        intro hf
        exact absurd ((reachable_stops hs).logic hf) (by simp [hstop j])
      obtain ⟨p, hstep, hmoves⟩ := exists_logicStep native fmt hfinished fun hc =>
        Or.inl ((reachable_server hs).packet_left (by omega) (by rw [hc]; rfl))
      exact ⟨⟨_, .logic hrun hstep hmoves⟩, by simp, by simp, by simp⟩
    · rintro j ⟨hk, hrun⟩ hq ha
      obtain ⟨hsame, hstep, hmoves⟩ := (r.step_state ha).logic_cases hrun
      have hgrow := (parsedPushed_grows (r.step_state ha)).length_le
      exact Or.inr ⟨⟨by omega, by rw [hsame, hrun]⟩, hstep.logicRank_lt hmoves (hstop j) (by omega)⟩
    · rintro j ⟨hk, hrun⟩ hq ha
      obtain ⟨hc, hh, hr⟩ := ServerRun.logic_kept ha
      have hgrow := (ServerRun.grows (r := r) (fun _ h => parsedPushed_grows h) (Nat.le_succ j)).length_le
      refine Or.inr ⟨⟨hk.trans hgrow, hr.trans hrun⟩, ?_⟩
      simp only [Pipeline.logicRank, hc, hh]
      exact le_rfl
  exact (hfair .logic).eventually h ⟨hk, hrun⟩

/-- A sequential run over more chunks begins with the packets of the first ones. -/
theorem sequential_mono (native : Endian) {chunks chunks' : List DataChunk} (h : chunks <+: chunks') :
    sequential native chunks <+: sequential native chunks' := by
  obtain ⟨rest, rfl⟩ := h
  rw [sequential, sequential, handleChunks_append, List.map_append, parsed_append]
  exact List.prefix_append _ _

/-- The telemetry of a connection is among what a sequential run over the chunks pushes. -/
theorem ServerInv.emitted_sequential {s : Server M.Socket} (h : ServerInv M native s) {c : Connection}
    (hc : c ∈ s.net.kernel.sessions) (hreg : c.registered = true) {t : Telemetry}
    (ht : t ∈ emitted (frameScan native c.received.flatten).1) : t ∈ sequential native s.net.queue := by
  have hat : t ∈ valuesAt c.fd (tagged (handleChunks native {} s.net.queue).2) := by
    rw [valuesAt_tagged, (h.recorded.parser_at native c.fd).1, parsed_connections, List.mem_flatMap]
    exact ⟨c, mem_under.mpr ⟨hc, hreg, rfl⟩, ht⟩
  obtain ⟨⟨f, t'⟩, hm, rfl⟩ := List.mem_map.mp hat
  rw [sequential, ← map_snd_tagged]
  exact List.mem_map_of_mem (List.mem_filter.mp hm).1

/-- **What has been received is handled.** In every run of the server that is fair to its threads and in which the parser
and the logic are not stopped: for every moment there is a later one at which the parser has handled every chunk that the
listener had pushed, the logic has handled the packets of these chunks, in order, and so every packet that the scan of any
connection had found by then has been put into the drone table. -/
theorem handled_eventually (M : SocketModel) (native : Endian) (fmt : Format) (r : ServerRun M native fmt)
    (hfair : r.FairToAll)
    (hstop : ∀ i, (r.state i).pipeline.parserStop = false ∧ (r.state i).pipeline.logicStop = false) (i : Nat) :
    ∃ j, i ≤ j ∧ (r.state i).net.queue <+: (r.state j).pipeline.chunksHandled ∧
      sequential native (r.state i).net.queue <+: (r.state j).pipeline.packetsHandled ∧
      ∀ c ∈ (r.state i).net.kernel.sessions, c.registered = true →
        ∀ t ∈ emitted (frameScan native c.received.flatten).1, t ∈ (r.state j).pipeline.packetsHandled := by
  -- the parser
  obtain ⟨i₁, hi₁, hrun₁⟩ := parser_begins hfair i
  obtain ⟨i₂, hi₂, hhandled⟩ := chunks_handled hfair (fun j => (hstop j).1)
    (ServerRun.grows (r := r) queue_grows hi₁).length_le hrun₁
  have hqueue : (r.state i).net.queue <+: (r.state i₂).pipeline.chunksHandled := by
    have hinv := reachable_server (ServerRun.reachable r i₂)
    have hchunks : (r.state i₂).pipeline.chunksHandled <+: (r.state i₂).net.queue := by
      rw [← hinv.raw, hinv.pipeline.raw, List.append_assoc]
      exact List.prefix_append _ _
    exact List.prefix_of_prefix_length_le (ServerRun.grows (r := r) queue_grows (hi₁.trans hi₂)) hchunks hhandled
  have hpushed : sequential native (r.state i).net.queue <+: (r.state i₂).pipeline.parsedPushed :=
    (sequential_mono native hqueue).trans (reachable_server (ServerRun.reachable r i₂)).pipeline.pushed_between.1
  -- the logic
  obtain ⟨i₃, hi₃, hrun₃⟩ := logic_begins hfair i₂
  have hlater := hpushed.trans (ServerRun.grows (r := r) (fun _ h => parsedPushed_grows h) hi₃)
  obtain ⟨j, hj, hcount⟩ := packets_handled hfair (fun j => (hstop j).2) hlater.length_le hrun₃
  have hpackets : sequential native (r.state i).net.queue <+: (r.state j).pipeline.packetsHandled := by
    have hinv := reachable_server (ServerRun.reachable r j)
    have hall : (r.state j).pipeline.packetsHandled <+: (r.state j).pipeline.parsedPushed := by
      rw [hinv.pipeline.parsed, List.append_assoc]
      exact List.prefix_append _ _
    exact List.prefix_of_prefix_length_le (hlater.trans (ServerRun.grows (r := r) (fun _ h => parsedPushed_grows h) hj)) hall
      hcount
  have hchunks := ServerRun.grows (r := r) (fun _ h => chunksHandled_grows h) (hi₃.trans hj)
  refine ⟨j, (hi₁.trans hi₂).trans (hi₃.trans hj), hqueue.trans hchunks, hpackets, ?_⟩
  intro c hc hreg t ht
  exact hpackets.subset ((reachable_server (ServerRun.reachable r i)).emitted_sequential hc hreg ht)

/-- One packet, in a fair run. -/
theorem handled_eventually_one :
    ∃ r : ServerRun receiveBuffers .little blankFormat, r.FairToAll ∧
      (∀ i, (r.state i).pipeline.parserStop = false ∧ (r.state i).pipeline.logicStop = false) ∧
      ∃ j, oneRecord.toTelemetry ∈ (r.state j).pipeline.packetsHandled := by
  obtain ⟨s, hs, hu, hmain, hnet⟩ := exists_received .little blankFormat onePacket_ne (by rw [length_onePacket]; decide)
  have hsessions : s.net.kernel.sessions = [⟨7, true, false, [packetBytes [oneRecord]]⟩] := by rw [hnet]; rfl
  obtain ⟨r, N, rfl, hfair, hstops⟩ := exists_fair_run hs hmain
  have hstop : ∀ i, (r.state i).pipeline.parserStop = false ∧ (r.state i).pipeline.logicStop = false := by
    intro i
    constructor
    · by_contra h
      exact absurd (hstops i .parser (Bool.eq_true_of_not_eq_false h)) (by simp [Server.stop, hu.stops.1])
    · by_contra h
      exact absurd (hstops i .logic (Bool.eq_true_of_not_eq_false h)) (by simp [Server.stop, hu.stops.2])
  obtain ⟨j, -, -, -, hall⟩ := handled_eventually receiveBuffers .little blankFormat r hfair hstop N
  refine ⟨r, hfair, hstop, j, hall _ (by rw [hsessions]; exact List.mem_singleton_self _) rfl _ ?_⟩
  rw [List.flatten_singleton, (frameScan_packetBytes .little oneRecord_fits).1]
  exact List.mem_singleton_self _

end Handling

end CounterDrone

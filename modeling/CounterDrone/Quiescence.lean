import Mathlib
import CounterDrone.Shutdown

/-!
# When nothing can happen any more

The process is at rest when none of its threads can go on by itself (`Server.AtRest`). Before the signal this is only so
when everything that the listener has pushed has been handled and everything that was logged has been written; after it,
only when the shutdown is complete (`at_rest_complete`). In particular the threads never wait for each other in a circle,
and none of them waits for something that is already there.
-/

namespace CounterDrone

variable {M : SocketModel} {native : Endian} {fmt : Format} {s : Server M.Socket}

/-- No thread can go on by itself. -/
def Server.AtRest (native : Endian) (fmt : Format) (s : Server M.Socket) : Prop := ∀ a, ¬Server.Ready native fmt a s

namespace Server.AtRest

/-- The listener waits in `epoll_wait`, or it has left its loop. -/
theorem listener (h : s.AtRest native fmt) (hM : M.Nonblocking) :
    s.running .listener = true ∧ (s.net.control = .finished ∨ (s.net.control = .polling ∧ s.eventCount = 0)) := by
  have hrun : s.running .listener = true := by
    by_contra hr
    obtain ⟨server, epoll, hout, hok⟩ := exists_launch s.net
    exact h .listener ⟨⟨_, .launch (Bool.eq_false_of_not_eq_true hr) 9000 server epoll hout hok⟩, by simp,
      fun _ hr' => absurd hr' hr, by simp⟩
  refine ⟨hrun, ?_⟩
  by_cases hf : s.net.control = .finished
  · exact Or.inl hf
  · obtain ⟨n, hmove⟩ := exists_loopMove hM hf
    by_contra hne
    refine h .listener ⟨⟨_, .listener hrun hmove.step hmove.moves hmove.ready⟩, by simp, ?_, by simp⟩
    intro _ _ hp
    by_contra hzero
    exact hne (Or.inr ⟨hp, Nat.eq_zero_of_not_pos hzero⟩)

/-- The parser waits for a chunk, or it has left its loop. -/
theorem parser (h : s.AtRest native fmt) :
    s.pipeline.parserControl = .finished ∨
      (s.pipeline.parserControl = .popping ∧ s.pipeline.raw.items = [] ∧ s.pipeline.parserStop = false) := by
  have hrun : s.running .parser = true := by
    by_contra hr
    exact h .parser ⟨⟨_, .startParser (Bool.eq_false_of_not_eq_true hr)⟩, by simp, by simp, by simp⟩
  by_contra hne
  rw [not_or] at hne
  obtain ⟨hf, hwait⟩ := hne
  obtain ⟨p, hstep, hmoves⟩ := exists_parserStep native fmt hf fun hc => by
    by_contra hnone
    rw [not_or, not_not] at hnone
    exact hwait ⟨hc, hnone.1, Bool.eq_false_of_not_eq_true hnone.2⟩
  exact h .parser ⟨⟨_, .parser hrun hstep hmoves⟩, by simp, by simp, by simp⟩

/-- The logic waits for a packet, or it has left its loop. -/
theorem logic (h : s.AtRest native fmt) :
    s.pipeline.logicControl = .finished ∨
      (s.pipeline.logicControl = .popping ∧ s.pipeline.parsed.items = [] ∧ s.pipeline.logicStop = false) := by
  have hrun : s.running .logic = true := by
    by_contra hr
    exact h .logic ⟨⟨_, .startLogic (Bool.eq_false_of_not_eq_true hr) 0⟩, by simp, by simp, by simp⟩
  by_contra hne
  rw [not_or] at hne
  obtain ⟨hf, hwait⟩ := hne
  obtain ⟨p, hstep, hmoves⟩ := exists_logicStep native fmt hf fun hc => by
    by_contra hnone
    rw [not_or, not_not] at hnone
    exact hwait ⟨hc, hnone.1, Bool.eq_false_of_not_eq_true hnone.2⟩
  exact h .logic ⟨⟨_, .logic hrun hstep hmoves⟩, by simp, by simp, by simp⟩

/-- The logger waits for a message, or it has returned. -/
theorem logger (h : s.AtRest native fmt) :
    s.logger = .returned ∨ (s.logger = .popping ∧ s.pipeline.log.items = [] ∧ s.loggerStop = false) := by
  have hnone : ∀ l, ¬LoggerStep s.logging l := fun l hstep => h .logger ⟨⟨_, .logger hstep⟩, by simp, by simp, by simp⟩
  cases hl : s.logger with
  | returned => exact Or.inl rfl
  | test => exact absurd (.test hl) (hnone _)
  | writing message => exact absurd (.write hl) (hnone _)
  | drainWriting message => exact absurd (.drainWrite hl) (hnone _)
  | popping =>
    refine Or.inr ⟨rfl, ?_⟩
    cases hi : s.pipeline.log.items with
    | nil =>
      refine ⟨rfl, ?_⟩
      by_contra hstop
      have hq : s.logging.queue.pop s.logging.loggerStop = some (s.logging.queue, none) := by
        simp [ThreadSafeQueue.pop, Server.logging, hi, Bool.eq_true_of_not_eq_false hstop]
      exact hnone _ (.stopped hl hq)
    | cons message rest =>
      have hq : s.logging.queue.pop s.logging.loggerStop = some ({ s.logging.queue with items := rest }, some message) := by
        simp [ThreadSafeQueue.pop, Server.logging, hi]
      exact absurd (.pop hl hq) (hnone _)
  | draining =>
    cases hi : s.pipeline.log.items with
    | nil =>
      have hq : s.logging.queue.pop true = some (s.logging.queue, none) := by
        simp [ThreadSafeQueue.pop, Server.logging, hi]
      exact absurd (.drained hl hq) (hnone _)
    | cons message rest =>
      have hq : s.logging.queue.pop true = some ({ s.logging.queue with items := rest }, some message) := by
        simp [ThreadSafeQueue.pop, Server.logging, hi]
      exact absurd (.drain hl hq) (hnone _)

/-- `main` waits for the signal, for a thread, or it has come to its end. -/
theorem main (h : s.AtRest native fmt) (hm : s.main ≠ .waiting) : s.wakePending = false ∧ ¬s.MainReady := by
  have hcalled : s.wakePending = false := by
    by_contra hw
    exact h .main ⟨⟨_, .wake (Bool.eq_true_of_not_eq_false hw)⟩, by simp, by simp, fun _ => hm⟩
  refine ⟨hcalled, ?_⟩
  intro hready
  obtain ⟨b, hstep⟩ := hready.step.2
  exact h .main ⟨⟨_, .main hstep hcalled⟩, by simp, by simp, fun _ => hm⟩

/-- **A thread that has been stopped has returned.** -/
theorem returned (h : s.AtRest native fmt) (hM : M.Nonblocking) (hs : (serverSystem M native fmt).Reachable s)
    (hm : s.main ≠ .waiting) {p : Producer} (hstop : s.stop p = true) : s.producer p = .returned := by
  cases p with
  | listener =>
    obtain ⟨hrun, hf | ⟨hp, hzero⟩⟩ := h.listener hM
    · exact listener_returned.mpr ⟨hf, hstop⟩
    · -- the shutdown event would be there
      have hwoken := (reachable_wake hs).woken hrun hstop (h.main hm).1 (by simp [hp])
      omega
  | parser =>
    rcases h.parser with hf | ⟨-, -, hnot⟩
    · exact parser_returned.mpr hf
    · exact absurd (hstop.symm.trans hnot) (by simp)
  | logic =>
    rcases h.logic with hf | ⟨-, -, hnot⟩
    · exact logic_returned.mpr hf
    · exact absurd (hstop.symm.trans hnot) (by simp)

/-- After the signal, `main` has come to its end. -/
theorem finished (h : s.AtRest native fmt) (hM : M.Nonblocking) (hs : (serverSystem M native fmt).Reachable s)
    (hm : s.main ≠ .waiting) : s.main = .finished := by
  have hstops := joins_stopped (logging_refines hs)
  have hnot := (h.main hm).2
  unfold Server.MainReady at hnot
  cases hmain : s.main with
  | waiting => exact absurd hmain hm
  | finished => rfl
  | stopping p | stoppingLogger =>
    rw [hmain] at hnot
    exact absurd trivial hnot
  | joining p =>
    rw [hmain] at hnot
    exact absurd (h.returned hM hs hm (hstops.1 p hmain)) hnot
  | joiningLogger =>
    rw [hmain] at hnot
    rcases h.logger with hr | ⟨-, -, hrunning⟩
    · exact absurd hr hnot
    · exact absurd ((hstops.2 hmain).symm.trans hrunning) (by simp)

end Server.AtRest

/-- Before the signal nobody is stopped. -/
theorem waiting_unstopped {l : Logging} (hl : loggingSystem.Reachable l) :
    l.main = .waiting → (∀ p, l.stops p = false) ∧ l.loggerStop = false := by
  refine hl.invariant (I := fun l => l.main = .waiting → (∀ p, l.stops p = false) ∧ l.loggerStop = false) ?_ ?_
  · rintro l rfl -
    exact ⟨fun _ => rfl, rfl⟩
  · rintro l m - ih (hstep | hstep | hstep) hm
    · cases hstep <;> exact ih hm
    · cases hstep <;> exact ih hm
    · cases hstep with
      | signal | requestStop | requestStopLogger | joinLogger => cases hm
      | @join p => cases p <;> cases hm

/-- **A server that rests before the signal has handled everything.** -/
theorem Server.AtRest.handled (h : s.AtRest native fmt) (hs : (serverSystem M native fmt).Reachable s)
    (hm : s.main = .waiting) :
    s.pipeline.chunksHandled = s.net.queue ∧ s.pipeline.packetsHandled = sequential native s.net.queue ∧
      s.written = s.logPushed := by
  have hinv := reachable_server hs
  have hl := logging_refines hs
  obtain ⟨hstops, hlogger⟩ := waiting_unstopped hl hm
  have hparserStop : s.pipeline.parserStop = false := hstops .parser
  have hlogicStop : s.pipeline.logicStop = false := hstops .logic
  -- the parser waits at an empty queue
  obtain ⟨hpc, hraw⟩ : s.pipeline.parserControl = .popping ∧ s.pipeline.raw.items = [] := by
    rcases h.parser with hf | ⟨hc, hi, -⟩
    · exact absurd ((reachable_stops hs).parser hf) (by simp [hparserStop])
    · exact ⟨hc, hi⟩
  have hidle : CaughtUp s := ⟨hraw, by rw [hpc]; rfl⟩
  have hchunks : s.pipeline.chunksHandled = s.net.queue := by
    rw [← hinv.raw, hinv.pipeline.raw, hraw, hidle.parser, List.append_nil, List.append_nil]
  -- so does the logic
  have hpackets : s.pipeline.packetsHandled = sequential native s.net.queue := by
    rcases h.logic with hf | ⟨hc, hi, -⟩
    · exact absurd ((reachable_stops hs).logic hf) (by simp [hlogicStop])
    · have hparsed := hinv.pipeline.parsed
      rw [hc, hi, (hinv.caughtUp hidle).2] at hparsed
      simpa [LogicControl.packets] using hparsed.symm
  -- and the logger
  have hwritten : s.written = s.logPushed := by
    have hconserved : s.written ++ s.logger.inHand ++ s.pipeline.log.items = s.logPushed := (reachable_logging hl).conserved
    rcases h.logger with hr | ⟨hc, hi, -⟩
    · have hstopped : s.loggerStop = true := (reachable_logging hl).drains (by
        rw [show s.logging.logger = .returned from hr]
        trivial)
      exact absurd (hstopped.symm.trans hlogger) (by simp)
    · rw [hc, hi] at hconserved
      simpa [LoggerControl.inHand] using hconserved
  exact ⟨hchunks, hpackets, hwritten⟩

/-- **There is no deadlock, and rest means done.** In every run of the server, when no thread can go on by itself: either
all is over, or the signal has not come; then the listener waits in `epoll_wait` or its loop has failed, the parser has
handled all chunks that the listener has pushed, the logic has handled all their packets, and every message has been
written. -/
theorem at_rest_complete (M : SocketModel) (native : Endian) (fmt : Format) (hM : M.Nonblocking) (s : Server M.Socket)
    (hs : (serverSystem M native fmt).Reachable s) (h : s.AtRest native fmt) :
    s.Over ∨ (s.main = .waiting ∧ (s.net.control = .polling ∨ s.net.control = .finished) ∧
      s.pipeline.chunksHandled = s.net.queue ∧ s.pipeline.packetsHandled = sequential native s.net.queue ∧
      s.written = s.logPushed) := by
  by_cases hm : s.main = .waiting
  · have hlistener : s.net.control = .polling ∨ s.net.control = .finished := by
      rcases (h.listener hM).2 with hf | ⟨hp, -⟩
      · exact Or.inr hf
      · exact Or.inl hp
    exact Or.inr ⟨hm, hlistener, h.handled hs hm⟩
  · exact Or.inl (over_of_finished hs (h.finished hM hs hm))

/-! ## A server at rest -/

section Blocked

variable {s p : Pipeline}

/-- The parser does not go on without a chunk, unless it has been stopped. -/
theorem PipelineStep.parser_waits (h : PipelineStep native fmt s p) (hmoves : p.parserControl ≠ s.parserControl)
    (hc : s.parserControl = .popping) : s.raw.items ≠ [] ∨ s.parserStop = true := by
  cases h with
  | listenerPush | stopParser | stopLogic => exact absurd rfl hmoves
  | parserPop _ hpop | parserPopStopped _ hpop =>
    rcases ThreadSafeQueue.pop_cases hpop with ⟨item, -, hitems, -⟩ | ⟨-, -, -, hstop⟩
    · exact Or.inl (by simp [hitems])
    · exact Or.inr hstop
  | parserTest ht | parserBegin ht | parserContinue ht =>
    rw [hc] at ht
    cases ht
  | logicTest hl now =>
    refine absurd ?_ hmoves
    split <;> rfl
  | logicPop | logicPopStopped | logicHandle => exact absurd rfl hmoves

/-- The logic does not go on without a packet, unless it has been stopped. -/
theorem PipelineStep.logic_waits (h : PipelineStep native fmt s p) (hmoves : p.logicControl ≠ s.logicControl)
    (hc : s.logicControl = .popping) : s.parsed.items ≠ [] ∨ s.logicStop = true := by
  cases h with
  | listenerPush | stopParser | stopLogic => exact absurd rfl hmoves
  | parserTest ht =>
    refine absurd ?_ hmoves
    split <;> rfl
  | parserPop | parserPopStopped | parserBegin | parserContinue => exact absurd rfl hmoves
  | logicPop _ hpop | logicPopStopped _ _ hpop =>
    rcases ThreadSafeQueue.pop_cases hpop with ⟨item, -, hitems, -⟩ | ⟨-, -, -, hstop⟩
    · exact Or.inl (by simp [hitems])
    · exact Or.inr hstop
  | logicTest ht | logicHandle ht =>
    rw [hc] at ht
    cases ht

end Blocked

/-- Every thread waits for what its queue, the kernel or the user brings. -/
structure Server.Waits (s : Server M.Socket) : Prop where
  running : ∀ p, s.running p = true
  listener : s.net.control = .polling ∧ s.eventCount = 0
  parser : s.pipeline.parserControl = .popping ∧ s.pipeline.raw.items = [] ∧ s.pipeline.parserStop = false
  logic : s.pipeline.logicControl = .popping ∧ s.pipeline.parsed.items = [] ∧ s.pipeline.logicStop = false
  logger : s.logger = .popping ∧ s.pipeline.log.items = [] ∧ s.loggerStop = false
  main : s.main = .waiting

theorem Server.Waits.atRest (h : s.Waits) : s.AtRest native fmt := by
  rintro a ⟨⟨t, hstep⟩, hthread, hpolled, hsignalled⟩
  cases a with
  | kernel => exact hthread rfl
  | listener =>
    have hpos := hpolled rfl (h.running .listener) h.listener.1
    rw [h.listener.2] at hpos
    exact Nat.lt_irrefl 0 hpos
  | parser =>
    obtain ⟨-, hp, hmoves⟩ := hstep.parser_cases (h.running .parser)
    rcases hp.parser_waits hmoves h.parser.1 with hi | hstop
    · exact hi h.parser.2.1
    · exact absurd (hstop.symm.trans h.parser.2.2) (by simp)
  | logic =>
    obtain ⟨-, hp, hmoves⟩ := hstep.logic_cases (h.running .logic)
    rcases hp.logic_waits hmoves h.logic.1 with hi | hstop
    · exact hi h.logic.2.1
    · exact absurd (hstop.symm.trans h.logic.2.2) (by simp)
  | logger =>
    obtain ⟨hc, hi, hstop⟩ := h.logger
    cases hstep with
    | logger hstep =>
      have hc : s.logging.logger = .popping := hc
      have hpop : s.logging.queue.pop s.logging.loggerStop = none := by
        simp [ThreadSafeQueue.pop, Server.logging, hi, hstop]
      cases hstep with
      | pop hl hq | stopped hl hq =>
        rw [hpop] at hq
        cases hq
      | test hl | write hl | drain hl | drained hl | drainWrite hl =>
        rw [hc] at hl
        cases hl
  | main => exact hsignalled rfl h.main

/-- How far a logger that is not stopped is from the end of the queue. -/
def LoggerControl.behind (queued : Nat) : LoggerControl → Nat
  | writing _ => 3 * queued + 2
  | test => 3 * queued + 1
  | _ => 3 * queued

/-- A step of the logger. -/
theorem Inside.logger {l : Logging} (hstep : LoggerStep s.logging l) : Inside native fmt s (s.moveLogging l) := by
  refine ⟨⟨?_, ?_, rfl, rfl⟩, _, .logger hstep⟩
  · simp only [Server.moveLogging, loggerStep_stops hstep]
    rfl
  · cases hstep <;> rfl

/-- The logger can write everything that has been pushed. -/
theorem logger_rests (hstop : s.loggerStop = false) (hdrains : ¬s.logger.Drains) :
    ∃ written log, InsideRun native fmt s
      { s with logger := .popping, written := written, pipeline := { s.pipeline with log := log } } ∧ log.items = [] := by
  generalize hrank : s.logger.behind s.pipeline.log.items.length = k
  induction k using Nat.strong_induction_on generalizing s with
  | _ k ih =>
    cases hl : s.logger with
    | draining | drainWriting | returned =>
      rw [hl] at hdrains
      exact absurd trivial hdrains
    | test =>
      have htest : LoggerStep s.logging { s.logging with logger := .popping } := by
        have h := LoggerStep.test (s := s.logging) hl
        rwa [if_neg (by simp [Server.logging, hstop])] at h
      have hdown : 3 * s.pipeline.log.items.length < k := by
        rw [← hrank, hl]
        exact Nat.lt_succ_self _
      obtain ⟨written, log, hrun, hempty⟩ := ih _ hdown (s := s.moveLogging { s.logging with logger := .popping }) hstop
        (by exact id) rfl
      exact ⟨written, log, hrun.head (.logger htest), hempty⟩
    | writing message =>
      have hdown : 3 * s.pipeline.log.items.length + 1 < k := by
        rw [← hrank, hl]
        exact Nat.lt_succ_self _
      obtain ⟨written, log, hrun, hempty⟩ := ih _ hdown
        (s := s.moveLogging { s.logging with logger := .test, written := s.written ++ [message] }) hstop (by exact id) rfl
      exact ⟨written, log, hrun.head (.logger (.write hl)), hempty⟩
    | popping =>
      cases hi : s.pipeline.log.items with
      | nil =>
        refine ⟨s.written, s.pipeline.log, ?_, hi⟩
        rw [← hl]
      | cons message rest =>
        have hq : s.logging.queue.pop s.logging.loggerStop =
            some ({ s.logging.queue with items := rest }, some message) := by
          simp [ThreadSafeQueue.pop, Server.logging, hi]
        have hdown : 3 * rest.length + 2 < k := by
          rw [← hrank, hl, hi]
          simp only [LoggerControl.behind, List.length_cons]
          omega
        obtain ⟨written, log, hrun, hempty⟩ := ih _ hdown
          (s := s.moveLogging { s.logging with queue := { s.logging.queue with items := rest }, logger := .writing message })
          hstop (by exact id) rfl
        exact ⟨written, log, hrun.head (.logger (.pop hl hq)), hempty⟩

/-- The parser can handle all chunks and wait for another one. -/
theorem parser_rests (hs : (serverSystem M native fmt).Reachable s) (hu : s.Unstopped) :
    ∃ t, InsideRun native fmt s t ∧ t.Unstopped ∧ t.pipeline.parserControl = .popping ∧ t.pipeline.raw.items = [] := by
  obtain ⟨t, hrun, hut, hle⟩ := parser_catches_up hs hu
  have ht := hrun.reachable hs
  obtain ⟨hraw, hchunks⟩ := (reachable_server ht).caughtUp_of_le (by rw [hrun.same.net]; exact hle)
  cases hc : t.pipeline.parserControl with
  | popping => exact ⟨t, hrun, hut, hc, hraw⟩
  | popped | processing =>
    rw [hc] at hchunks
    cases hchunks
  | finished => exact absurd ((reachable_stops ht).parser hc) (by simp [hut.stops.1])
  | test =>
    have hstep : PipelineStep native fmt t.pipeline { t.pipeline with parserControl := .popping } := by
      have h := @PipelineStep.parserTest native fmt _ hc
      rwa [if_neg (by simp [hut.stops.1])] at h
    exact ⟨_, hrun.tail (.parser hut.running.1 hstep (by simp [hc])), ⟨hut.running, hut.stops⟩, rfl, hraw⟩

/-- The logic can handle all packets and wait for another one. -/
theorem logic_rests (hs : (serverSystem M native fmt).Reachable s) (hu : s.Unstopped) :
    ∃ t, InsideRun native fmt s t ∧ t.Unstopped ∧ t.pipeline.parserControl = s.pipeline.parserControl ∧
      t.pipeline.raw.items = s.pipeline.raw.items ∧ t.pipeline.logicControl = .popping ∧ t.pipeline.parsed.items = [] := by
  obtain ⟨t, hrun, hut, hchunks, hcontrol, hpushed, hle⟩ := logic_catches_up hs hu
  have ht := hrun.reachable hs
  have hinv := reachable_server ht
  have hraw : t.pipeline.raw.items = s.pipeline.raw.items := by
    have hinv' := reachable_server hs
    have h := hinv.raw.trans ((congrArg Net.queue hrun.same.net).trans hinv'.raw.symm)
    rw [hinv.pipeline.raw, hinv'.pipeline.raw, hchunks, hcontrol] at h
    exact List.append_cancel_left h
  have hparsed := hinv.pipeline.parsed
  rw [← hpushed, hparsed] at hle
  simp only [List.length_append] at hle
  have hempty : t.pipeline.parsed.items = [] := List.eq_nil_of_length_eq_zero (by omega)
  have hhand : t.pipeline.logicControl.packets = [] := List.eq_nil_of_length_eq_zero (by omega)
  cases hc : t.pipeline.logicControl with
  | popping => exact ⟨t, hrun, hut, hcontrol, hraw, hc, hempty⟩
  | popped =>
    rw [hc] at hhand
    cases hhand
  | finished => exact absurd ((reachable_stops ht).logic hc) (by simp [hut.stops.2])
  | test =>
    have hstep : PipelineStep native fmt t.pipeline { t.pipeline with logicControl := .popping } := by
      have h := @PipelineStep.logicTest native fmt _ hc 0
      rwa [if_neg (by simp [hut.stops.2])] at h
    exact ⟨_, hrun.tail (.logic hut.running.2 hstep (by simp [hc])), ⟨hut.running, hut.stops⟩, hcontrol, hraw, rfl,
      hempty⟩

/-- **While the listener waits, the other threads can come to rest.** -/
theorem comes_to_rest (hs : (serverSystem M native fmt).Reachable s) (hrun : s.running .listener = true)
    (hu : s.Unstopped) (hmain : s.main = .waiting) (hpolling : s.net.control = .polling) (hcount : s.eventCount = 0) :
    ∃ t, InsideRun native fmt s t ∧ t.Waits := by
  obtain ⟨t₁, hrun₁, hu₁, hparser, hraw⟩ := parser_rests hs hu
  obtain ⟨t₂, hrun₂, hu₂, hcontrol, hsame, hlogic, hparsed⟩ := logic_rests (hrun₁.reachable hs) hu₁
  have hinside : InsideRun native fmt s t₂ := hrun₁.trans hrun₂
  have hsame₂ := hinside.same
  have hl := logging_refines (hinside.reachable hs)
  have hstop : t₂.loggerStop = false := (waiting_unstopped hl (hsame₂.main.trans hmain)).2
  have hdrains : ¬t₂.logger.Drains := by
    intro hd
    exact absurd ((reachable_logging hl).drains hd) (by simp [Server.logging, hstop])
  obtain ⟨written, log, hrun₃, hempty⟩ := @logger_rests M native fmt t₂ hstop hdrains
  refine ⟨_, hinside.trans hrun₃, ?_, ⟨?_, ?_⟩, ⟨?_, ?_, hu₂.stops.1⟩, ⟨hlogic, hparsed, hu₂.stops.2⟩, ⟨rfl, hempty, hstop⟩,
    hsame₂.main.trans hmain⟩
  · intro p
    cases p with
    | listener => exact (congrFun hsame₂.running .listener).trans hrun
    | parser => exact hu₂.running.1
    | logic => exact hu₂.running.2
  · exact (congrArg Net.control hsame₂.net).trans hpolling
  · exact hsame₂.eventCount.trans hcount
  · exact hcontrol.trans hparser
  · exact hsame.trans hraw

/-- A client has sent bytes, and they have been received: then the process can come to rest. -/
theorem received_rests {s : Server receiveBuffers.Socket} (hs : (serverSystem receiveBuffers native fmt).Reachable s)
    (hu : s.Unstopped) (hmain : s.main = .waiting) {bytes : List Byte} (hnet : s.net = (readNet bytes).goto .polling) :
    ∃ t, InsideRun native fmt s t ∧ t.Waits := by
  have hrun : s.running .listener = true := by
    by_contra hr
    have hconn := ((reachable_server hs).unlaunched (Bool.eq_false_of_not_eq_true hr)).connections
    rw [hnet] at hconn
    cases hconn
  have hcount : s.eventCount = 0 := by
    by_contra hpos
    have hstop := ((reachable_wake hs).counted (Nat.pos_of_ne_zero hpos)).1
    rw [hnet] at hstop
    cases hstop
  exact comes_to_rest hs hrun hu hmain (by rw [hnet]; rfl) hcount

/-- A client has sent a packet. -/
theorem at_rest_complete_one :
    ∃ s, (serverSystem receiveBuffers .little blankFormat).Reachable s ∧ s.AtRest .little blankFormat ∧
      s.net.queue = [⟨7, packetBytes [oneRecord]⟩] ∧ s.pipeline.chunksHandled = s.net.queue ∧ s.written = s.logPushed := by
  obtain ⟨s, hs, hu, hmain, hnet⟩ := exists_received .little blankFormat onePacket_ne (by rw [length_onePacket]; decide)
  obtain ⟨t, hinside, hwaits⟩ := received_rests hs hu hmain hnet
  have ht := hinside.reachable hs
  rcases at_rest_complete receiveBuffers .little blankFormat receiveBuffers_nonblocking t ht hwaits.atRest with h | h
  · exact absurd (hwaits.main.symm.trans h.main) (by simp)
  · refine ⟨t, ht, hwaits.atRest, ?_, h.2.2.1, h.2.2.2.2⟩
    rw [hinside.same.net, hnet]
    rfl

end CounterDrone

import Mathlib
import CounterDrone.Termination
import CounterDrone.Server

/-!
# Progress of the parser and the logic

What a step of the parser thread or of the logic thread can be, with everything it needs to go on
(`PipelineStep.parser_cases`, `PipelineStep.logic_cases`), and when there is one (`exists_parserStep`, `exists_logicStep`).
While it handles a chunk, each step of the parser brings it nearer to the end of that chunk (`ParserControl.left`), so
that the parser and the logic can always come to the end of what the listener has pushed (`catches_up`).
-/

namespace CounterDrone

variable {native : Endian} {fmt : Format} {s p : Pipeline}

/-! ## The parser thread -/

/-- How far the parser is from the end of a chunk: the stages, and the iterations that `process_client` can still make. -/
def ParserControl.left : ParserControl → Nat ×ₗ Nat
  | .popping => toLex (3, 0)
  | .popped _ => toLex (2, 0)
  | .processing _ cs => toLex (1, cs.potential)
  | .test => toLex (0, 1)
  | .finished => toLex (0, 0)

/-- **The steps of the parser thread**: the test, the end of a `pop`, the end of a chunk, or a step within a chunk. -/
theorem PipelineStep.parser_cases (h : PipelineStep native fmt s p) (hmoves : p.parserControl ≠ s.parserControl) :
    (s.parserControl = .test ∧ p.parserControl = (if s.parserStop then .finished else .popping) ∧
      p.chunksHandled = s.chunksHandled) ∨
    (s.parserControl = .popping ∧ s.raw.items = [] ∧ s.parserStop = true ∧ p.parserControl = .finished ∧
      p.chunksHandled = s.chunksHandled) ∨
    (∃ chunk, s.parserControl.chunks = [chunk] ∧ p.parserControl = .test ∧
      p.chunksHandled = s.chunksHandled ++ [chunk]) ∨
    (∃ chunk, p.parserControl.chunks = [chunk] ∧ s.parserControl ≠ .test ∧ s.parserControl ≠ .finished ∧
      p.parserControl.left < s.parserControl.left ∧ p.chunksHandled = s.chunksHandled) := by
  cases h with
  | listenerPush | stopParser | stopLogic => exact absurd rfl hmoves
  | parserTest hc =>
    refine Or.inl ⟨hc, ?_, ?_⟩
    · split <;> rfl
    · split <;> rfl
  | @parserPop hc q chunk hpop =>
    refine Or.inr (Or.inr (Or.inr ⟨chunk, rfl, by simp [hc], by simp [hc], ?_, rfl⟩))
    rw [hc]
    exact Prod.Lex.toLex_lt_toLex.mpr (Or.inl (by simp))
  | parserPopStopped hc hpop =>
    rcases ThreadSafeQueue.pop_cases hpop with ⟨item, he, _⟩ | ⟨_, _, hitems, hstop⟩
    · cases he
    · exact Or.inr (Or.inl ⟨hc, hitems, hstop, rfl, rfl⟩)
  | @parserBegin chunk hc =>
    rcases beginChunk_cases native s.parser chunk with he | ⟨cs, he, -⟩
    · rw [he]
      exact Or.inr (Or.inr (Or.inl ⟨chunk, by rw [hc]; rfl, rfl, rfl⟩))
    · rw [he]
      refine Or.inr (Or.inr (Or.inr ⟨chunk, rfl, by simp [hc], by simp [hc], ?_, List.append_nil _⟩))
      rw [hc]
      exact Prod.Lex.toLex_lt_toLex.mpr (Or.inl (by simp))
  | @parserContinue chunk cs hc =>
    unfold continueChunk
    cases hit : processIteration native cs with
    | done => exact Or.inr (Or.inr (Or.inl ⟨chunk, by rw [hc]; rfl, rfl, rfl⟩))
    | throw e effects => exact Or.inr (Or.inr (Or.inl ⟨chunk, by rw [hc]; rfl, rfl, rfl⟩))
    | next cs' effects =>
      refine Or.inr (Or.inr (Or.inr ⟨chunk, rfl, by simp [hc], by simp [hc], ?_, List.append_nil _⟩))
      rw [hc]
      exact Prod.Lex.toLex_lt_toLex.mpr (Or.inr ⟨rfl, iteration_potential hit⟩)
  | logicTest hc now =>
    refine absurd ?_ hmoves
    split <;> rfl
  | logicPop | logicPopStopped | logicHandle => exact absurd rfl hmoves

/-- The parser makes a step unless it has finished or waits for a chunk. -/
theorem exists_parserStep (native : Endian) (fmt : Format) (hfinished : s.parserControl ≠ .finished)
    (hwait : s.parserControl = .popping → s.raw.items ≠ [] ∨ s.parserStop = true) :
    ∃ p, PipelineStep native fmt s p ∧ p.parserControl ≠ s.parserControl := by
  cases hc : s.parserControl with
  | finished => exact absurd hc hfinished
  | test =>
    refine ⟨_, .parserTest hc, ?_⟩
    split <;> simp
  | popping =>
    cases hi : s.raw.items with
    | nil =>
      have hstop := (hwait hc).resolve_left fun h => h hi
      have hpop : s.raw.pop s.parserStop = some (s.raw, none) := by simp [ThreadSafeQueue.pop, hi, hstop]
      exact ⟨_, .parserPopStopped hc hpop, by simp⟩
    | cons chunk rest =>
      have hpop : s.raw.pop s.parserStop = some ({ s.raw with items := rest }, some chunk) := by
        simp [ThreadSafeQueue.pop, hi]
      exact ⟨_, .parserPop hc hpop, by simp⟩
  | popped chunk =>
    refine ⟨_, .parserBegin hc, ?_⟩
    rcases beginChunk_cases native s.parser chunk with he | ⟨cs, he, -⟩
    · simp [he, Pipeline.moveParser]
    · simp [he, Pipeline.moveParser]
  | processing chunk cs =>
    refine ⟨_, .parserContinue hc, ?_⟩
    unfold continueChunk
    cases hit : processIteration native cs with
    | done => simp [Pipeline.moveParser]
    | throw e effects => simp [Pipeline.moveParser]
    | next cs' effects =>
      -- the client state is another one: it allows fewer iterations
      have hne : cs' ≠ cs := by
        rintro rfl
        exact lt_irrefl _ (iteration_potential hit)
      simpa [Pipeline.moveParser] using hne

/-! ## The logic thread -/

/-- **The steps of the logic thread**: the test, a `pop`, the end of a `pop`, or the end of a packet. -/
theorem PipelineStep.logic_cases (h : PipelineStep native fmt s p) (hmoves : p.logicControl ≠ s.logicControl) :
    (s.logicControl = .test ∧ p.logicControl = (if s.logicStop then .finished else .popping) ∧
      p.packetsHandled = s.packetsHandled) ∨
    (s.logicControl = .popping ∧ s.parsed.items = [] ∧ s.logicStop = true ∧ p.logicControl = .finished ∧
      p.packetsHandled = s.packetsHandled) ∨
    (∃ telemetry, s.logicControl = .popping ∧ p.logicControl = .popped telemetry ∧ p.packetsHandled = s.packetsHandled) ∨
    (∃ telemetry, s.logicControl = .popped telemetry ∧ p.logicControl = .test ∧
      p.packetsHandled = s.packetsHandled ++ [telemetry]) := by
  cases h with
  | listenerPush | stopParser | stopLogic => exact absurd rfl hmoves
  | parserTest hc =>
    refine absurd ?_ hmoves
    split <;> rfl
  | parserPop | parserPopStopped | parserBegin | parserContinue => exact absurd rfl hmoves
  | logicTest hc now =>
    refine Or.inl ⟨hc, ?_, ?_⟩
    · split <;> rfl
    · split <;> rfl
  | @logicPop hc q telemetry hpop => exact Or.inr (Or.inr (Or.inl ⟨telemetry, hc, rfl, rfl⟩))
  | logicPopStopped hc now hpop =>
    rcases ThreadSafeQueue.pop_cases hpop with ⟨item, he, _⟩ | ⟨_, _, hitems, hstop⟩
    · cases he
    · exact Or.inr (Or.inl ⟨hc, hitems, hstop, rfl, rfl⟩)
  | @logicHandle telemetry hc now => exact Or.inr (Or.inr (Or.inr ⟨telemetry, hc, rfl, rfl⟩))

/-- The logic makes a step unless it has finished or waits for a packet. -/
theorem exists_logicStep (native : Endian) (fmt : Format) (hfinished : s.logicControl ≠ .finished)
    (hwait : s.logicControl = .popping → s.parsed.items ≠ [] ∨ s.logicStop = true) :
    ∃ p, PipelineStep native fmt s p ∧ p.logicControl ≠ s.logicControl := by
  cases hc : s.logicControl with
  | finished => exact absurd hc hfinished
  | test =>
    refine ⟨_, .logicTest hc 0, ?_⟩
    split <;> simp
  | popping =>
    cases hi : s.parsed.items with
    | nil =>
      have hstop := (hwait hc).resolve_left fun h => h hi
      have hpop : s.parsed.pop s.logicStop = some (s.parsed, none) := by simp [ThreadSafeQueue.pop, hi, hstop]
      exact ⟨_, .logicPopStopped hc 0 hpop, by simp⟩
    | cons telemetry rest =>
      have hpop : s.parsed.pop s.logicStop = some ({ s.parsed with items := rest }, some telemetry) := by
        simp [ThreadSafeQueue.pop, hi]
      exact ⟨_, .logicPop hc hpop, by simp⟩
  | popped telemetry =>
    exact ⟨_, .logicHandle hc 0, by simp⟩

/-! ## Ranks -/

/-- The rank of the parser on the way to having handled `k` chunks. -/
def Pipeline.parserRank (k : Nat) (s : Pipeline) : Nat ×ₗ (Nat ×ₗ Nat) :=
  toLex (k - s.chunksHandled.length,
    match s.parserControl with
    | .test => toLex (4, 0)
    | control => control.left)

/-- The rank of the logic on the way to having handled `k` packets. -/
def Pipeline.logicRank (k : Nat) (s : Pipeline) : Nat ×ₗ Nat :=
  toLex (k - s.packetsHandled.length,
    match s.logicControl with
    | .test => 3
    | .popping => 2
    | .popped _ => 1
    | .finished => 0)

/-- Every step of a parser that is not stopped brings it nearer to its `k` chunks. -/
theorem PipelineStep.parserRank_lt (h : PipelineStep native fmt s p) (hmoves : p.parserControl ≠ s.parserControl)
    (hstop : s.parserStop = false) {k : Nat} (hk : s.chunksHandled.length < k) : p.parserRank k < s.parserRank k := by
  rcases h.parser_cases hmoves with ⟨hc, hc', hh⟩ | ⟨_, _, hs, _⟩ | ⟨chunk, _, hc', hh⟩ | ⟨chunk, hc', hne, _, hlt, hh⟩
  · rw [hstop] at hc'
    refine Prod.Lex.toLex_lt_toLex.mpr (Or.inr ⟨by rw [hh], ?_⟩)
    simp only [hc, hc']
    exact Prod.Lex.toLex_lt_toLex.mpr (Or.inl (by simp))
  · rw [hstop] at hs
    cases hs
  · refine Prod.Lex.toLex_lt_toLex.mpr (Or.inl ?_)
    rw [hh, List.length_append, List.length_singleton]
    omega
  · refine Prod.Lex.toLex_lt_toLex.mpr (Or.inr ⟨by rw [hh], ?_⟩)
    have hne' : p.parserControl ≠ .test := by
      intro h
      rw [h] at hc'
      cases hc'
    have hleft : ∀ c : ParserControl, c ≠ .test → (match c with
        | .test => toLex (4, 0)
        | control => control.left) = c.left := by
      intro c hc
      cases c with
      | test => exact absurd rfl hc
      | popping | popped | processing | finished => rfl
    rwa [hleft _ hne, hleft _ hne']

/-- Every step of a logic that is not stopped brings it nearer to its `k` packets. -/
theorem PipelineStep.logicRank_lt (h : PipelineStep native fmt s p) (hmoves : p.logicControl ≠ s.logicControl)
    (hstop : s.logicStop = false) {k : Nat} (hk : s.packetsHandled.length < k) : p.logicRank k < s.logicRank k := by
  rcases h.logic_cases hmoves with ⟨hc, hc', hh⟩ | ⟨_, _, hs, _⟩ | ⟨t, hc, hc', hh⟩ | ⟨t, hc, hc', hh⟩
  · rw [hstop] at hc'
    refine Prod.Lex.toLex_lt_toLex.mpr (Or.inr ⟨by rw [hh], ?_⟩)
    simp [hc, hc']
  · rw [hstop] at hs
    cases hs
  · refine Prod.Lex.toLex_lt_toLex.mpr (Or.inr ⟨by rw [hh], ?_⟩)
    simp [hc, hc']
  · refine Prod.Lex.toLex_lt_toLex.mpr (Or.inl ?_)
    rw [hh, List.length_append, List.length_singleton]
    omega

/-! ## The stop tokens -/

/-- A thread leaves its loop only when it has been stopped. -/
structure StopInv (s : Pipeline) : Prop where
  parser : s.parserControl = .finished → s.parserStop = true
  logic : s.logicControl = .finished → s.logicStop = true

theorem StopInv.of_parser (h : StopInv s) (hstep : PipelineStep native fmt s p)
    (hmoves : p.parserControl ≠ s.parserControl) : StopInv p := by
  obtain ⟨-, hlogic, hstop, hlstop, -⟩ := hstep.of_parser hmoves
  refine ⟨?_, fun hf => by rw [hlstop]; exact h.logic (hlogic.symm.trans hf)⟩
  intro hf
  rw [hstop]
  rcases hstep.parser_cases hmoves with ⟨hc, hc', hh⟩ | ⟨_, _, hs, _⟩ | ⟨chunk, _, hc', hh⟩ | ⟨chunk, hc', _⟩
  · by_contra hne
    rw [hf, if_neg hne] at hc'
    cases hc'
  · exact hs
  · rw [hf] at hc'
    cases hc'
  · rw [hf] at hc'
    cases hc'

theorem StopInv.of_logic (h : StopInv s) (hstep : PipelineStep native fmt s p)
    (hmoves : p.logicControl ≠ s.logicControl) : StopInv p := by
  obtain ⟨-, hparser, hstop, hlstop, -⟩ := hstep.of_logic hmoves
  refine ⟨fun hf => by rw [hstop]; exact h.parser (hparser.symm.trans hf), ?_⟩
  intro hf
  rw [hlstop]
  rcases hstep.logic_cases hmoves with ⟨hc, hc', hh⟩ | ⟨_, _, hs, _⟩ | ⟨t, _, hc', hh⟩ | ⟨t, _, hc', _⟩
  · by_contra hne
    rw [hf, if_neg hne] at hc'
    cases hc'
  · exact hs
  · rw [hf] at hc'
    cases hc'
  · rw [hf] at hc'
    cases hc'

section Server

variable {M : SocketModel} {s t : Server M.Socket}

/-- `main` and the logger only stop threads. -/
theorem moveLogging_stops {t : Logging} (h : LoggerStep s.logging t ∨ MainStep s.logging t) :
    (s.pipeline.parserStop = true → t.stops .parser = true) ∧ (s.pipeline.logicStop = true → t.stops .logic = true) := by
  have hkeep : ∀ q, s.logging.stops q = true → t.stops q = true := by
    intro q hq
    rcases h with h | h
    · rwa [loggerStep_stops h]
    · exact mainStep_stop_mono h hq
  exact ⟨hkeep .parser, hkeep .logic⟩

theorem StopInv.step (h : StopInv s.pipeline) {a : Actor} (hs : ServerStep M native fmt a s t) : StopInv t.pipeline := by
  cases hs with
  | kernel | launch | listener | startParser | startLogic | wake => exact ⟨h.parser, h.logic⟩
  | parser hr hstep hmoves => exact h.of_parser hstep hmoves
  | logic hr hstep hmoves => exact h.of_logic hstep hmoves
  | logger hstep =>
    obtain ⟨hparser, hlogic⟩ := moveLogging_stops (Or.inl hstep)
    exact ⟨fun hf => hparser (h.parser hf), fun hf => hlogic (h.logic hf)⟩
  | main hstep hcalled =>
    obtain ⟨hparser, hlogic⟩ := moveLogging_stops (Or.inr hstep)
    exact ⟨fun hf => hparser (h.parser hf), fun hf => hlogic (h.logic hf)⟩

theorem reachable_stops (hs : (serverSystem M native fmt).Reachable s) : StopInv s.pipeline := by
  refine hs.invariant (I := fun s => StopInv s.pipeline) ?_ ?_
  · rintro s ⟨n, -, -, -, rfl⟩
    exact ⟨by simp, by simp⟩
  · rintro s t - h ⟨a, hstep⟩
    exact h.step hstep

/-! ## Catching up -/

/-- The parser has handled all that the listener has pushed. -/
structure CaughtUp (s : Server M.Socket) : Prop where
  raw : s.pipeline.raw.items = []
  parser : s.pipeline.parserControl.chunks = []

theorem ServerInv.caughtUp_of_le (h : ServerInv M native s) (hle : s.net.queue.length ≤ s.pipeline.chunksHandled.length) :
    CaughtUp s := by
  rw [← h.raw, h.pipeline.raw] at hle
  simp only [List.length_append] at hle
  exact ⟨List.eq_nil_of_length_eq_zero (by omega), List.eq_nil_of_length_eq_zero (by omega)⟩

/-- When the parser has caught up, it is where a sequential run over the chunks of the listener would be. -/
theorem ServerInv.caughtUp (h : ServerInv M native s) (hidle : CaughtUp s) :
    s.pipeline.parser = (handleChunks native {} s.net.queue).1 ∧
      s.pipeline.parsedPushed = sequential native s.net.queue := by
  have hall : s.pipeline.chunksHandled = s.net.queue := by
    rw [← h.raw, h.pipeline.raw, hidle.raw, hidle.parser, List.append_nil, List.append_nil]
  have hat := h.pipeline.parser
  rw [hall] at hat
  cases hc : s.pipeline.parserControl with
  | processing chunk cs =>
    have := hidle.parser
    rw [hc] at this
    cases this
  | test => rw [hc] at hat; exact hat
  | popping => rw [hc] at hat; exact hat
  | popped chunk => rw [hc] at hat; exact hat
  | finished => rw [hc] at hat; exact hat

/-- The parser and the logic run and have not been stopped. -/
structure Server.Unstopped (s : Server M.Socket) : Prop where
  running : s.running .parser = true ∧ s.running .logic = true
  stops : s.pipeline.parserStop = false ∧ s.pipeline.logicStop = false

/-- The chunks that the parser still has to handle, while it has handled fewer than the listener has pushed. -/
theorem ServerInv.chunk_left (h : ServerInv M native s) (hlt : s.pipeline.chunksHandled.length < s.net.queue.length)
    (hc : s.pipeline.parserControl.chunks = []) : s.pipeline.raw.items ≠ [] := by
  intro hnil
  rw [← h.raw, h.pipeline.raw, hc, hnil] at hlt
  simp at hlt

theorem ServerInv.packet_left (h : ServerInv M native s)
    (hlt : s.pipeline.packetsHandled.length < s.pipeline.parsedPushed.length) (hc : s.pipeline.logicControl.packets = []) :
    s.pipeline.parsed.items ≠ [] := by
  intro hnil
  rw [h.pipeline.parsed, hc, hnil] at hlt
  simp at hlt

/-- The listener, `main` and the threads that have begun are as before. -/
structure Server.SameOutside (s t : Server M.Socket) : Prop where
  net : t.net = s.net
  main : t.main = s.main
  running : t.running = s.running
  eventCount : t.eventCount = s.eventCount

/-- A step that moves the parser, the logic or the logger only. -/
structure Inside (native : Endian) (fmt : Format) (s t : Server M.Socket) : Prop extends s.SameOutside t where
  step : (serverSystem M native fmt).step s t

/-- A run of such steps. -/
abbrev InsideRun (native : Endian) (fmt : Format) (s t : Server M.Socket) : Prop :=
  Relation.ReflTransGen (Inside native fmt) s t

theorem InsideRun.same (h : InsideRun native fmt s t) : s.SameOutside t := by
  induction h with
  | refl => exact ⟨rfl, rfl, rfl, rfl⟩
  | tail _ hstep ih =>
    exact ⟨hstep.net.trans ih.net, hstep.main.trans ih.main, hstep.running.trans ih.running,
      hstep.eventCount.trans ih.eventCount⟩

theorem InsideRun.reachable (h : InsideRun native fmt s t) (hs : (serverSystem M native fmt).Reachable s) :
    (serverSystem M native fmt).Reachable t := by
  induction h with
  | refl => exact hs
  | tail _ hstep ih => exact ih.step hstep.step

/-- A step of the parser. -/
theorem Inside.parser {p : Pipeline} (hr : s.running .parser = true) (hstep : PipelineStep native fmt s.pipeline p)
    (hmoves : p.parserControl ≠ s.pipeline.parserControl) : Inside native fmt s (s.movePipeline p) :=
  ⟨⟨rfl, rfl, rfl, rfl⟩, _, .parser hr hstep hmoves⟩

/-- A step of the logic. -/
theorem Inside.logic {p : Pipeline} (hr : s.running .logic = true) (hstep : PipelineStep native fmt s.pipeline p)
    (hmoves : p.logicControl ≠ s.pipeline.logicControl) : Inside native fmt s (s.movePipeline p) :=
  ⟨⟨rfl, rfl, rfl, rfl⟩, _, .logic hr hstep hmoves⟩

/-- The parser can handle all that the listener has pushed. -/
theorem parser_catches_up (hs : (serverSystem M native fmt).Reachable s) (hu : s.Unstopped) :
    ∃ t, InsideRun native fmt s t ∧ t.Unstopped ∧ s.net.queue.length ≤ t.pipeline.chunksHandled.length := by
  generalize hrank : s.pipeline.parserRank s.net.queue.length = x
  induction x using WellFoundedLT.induction generalizing s with
  | ind x ih =>
    by_cases hlt : s.pipeline.chunksHandled.length < s.net.queue.length
    · have hfinished : s.pipeline.parserControl ≠ .finished := by
        intro hf
        exact absurd ((reachable_stops hs).parser hf) (by simp [hu.stops.1])
      obtain ⟨p, hstep, hmoves⟩ := exists_parserStep native fmt hfinished fun hc =>
        Or.inl ((reachable_server hs).chunk_left hlt (by rw [hc]; rfl))
      obtain ⟨-, -, hstop, hlstop, -⟩ := hstep.of_parser hmoves
      have hdown := hrank ▸ hstep.parserRank_lt hmoves hu.stops.1 hlt
      have hfirst : Inside native fmt s (s.movePipeline p) := .parser hu.running.1 hstep hmoves
      obtain ⟨t, hrun, hut, hle⟩ := ih _ hdown (hs.step hfirst.step)
        ⟨hu.running, hstop.trans hu.stops.1, hlstop.trans hu.stops.2⟩ rfl
      exact ⟨t, hrun.head hfirst, hut, hle⟩
    · exact ⟨s, .refl, hu, by omega⟩

/-- The logic can handle all that the parser has pushed. -/
theorem logic_catches_up (hs : (serverSystem M native fmt).Reachable s) (hu : s.Unstopped) :
    ∃ t, InsideRun native fmt s t ∧ t.Unstopped ∧ t.pipeline.chunksHandled = s.pipeline.chunksHandled ∧
      t.pipeline.parserControl = s.pipeline.parserControl ∧ t.pipeline.parsedPushed = s.pipeline.parsedPushed ∧
      s.pipeline.parsedPushed.length ≤ t.pipeline.packetsHandled.length := by
  generalize hrank : s.pipeline.logicRank s.pipeline.parsedPushed.length = x
  induction x using WellFoundedLT.induction generalizing s with
  | ind x ih =>
    by_cases hlt : s.pipeline.packetsHandled.length < s.pipeline.parsedPushed.length
    · have hfinished : s.pipeline.logicControl ≠ .finished := by
        intro hf
        exact absurd ((reachable_stops hs).logic hf) (by simp [hu.stops.2])
      obtain ⟨p, hstep, hmoves⟩ := exists_logicStep native fmt hfinished fun hc =>
        Or.inl ((reachable_server hs).packet_left hlt (by rw [hc]; rfl))
      obtain ⟨-, hparser, hstop, hlstop, -, hhandled, hpushed⟩ := hstep.of_logic hmoves
      have hdown := hrank ▸ hstep.logicRank_lt hmoves hu.stops.2 hlt
      rw [← hpushed] at hdown
      have hfirst : Inside native fmt s (s.movePipeline p) := .logic hu.running.2 hstep hmoves
      obtain ⟨t, hrun, hut, hchunks, hcontrol, hsame, hle⟩ := ih _ hdown (hs.step hfirst.step)
        ⟨hu.running, hstop.trans hu.stops.1, hlstop.trans hu.stops.2⟩ rfl
      exact ⟨t, hrun.head hfirst, hut, hchunks.trans hhandled, hcontrol.trans hparser, hsame.trans hpushed, hpushed ▸ hle⟩
    · exact ⟨s, .refl, hu, rfl, rfl, rfl, by omega⟩

/-- **The parser and the logic can catch up**: with all that the listener has pushed, without the listener moving. -/
theorem catches_up (hs : (serverSystem M native fmt).Reachable s) (hu : s.Unstopped) :
    ∃ t, InsideRun native fmt s t ∧ t.Unstopped ∧ CaughtUp t ∧
      t.pipeline.packetsHandled = sequential native s.net.queue := by
  obtain ⟨t₁, hrun₁, hu₁, hle₁⟩ := parser_catches_up hs hu
  obtain ⟨t, hrun, hut, hchunks, -, hpushed, hle⟩ := logic_catches_up (hrun₁.reachable hs) hu₁
  have hall : InsideRun native fmt s t := hrun₁.trans hrun
  have h := reachable_server (hall.reachable hs)
  have hidle : CaughtUp t := h.caughtUp_of_le (by rw [hall.same.net, hchunks]; exact hle₁)
  refine ⟨t, hall, hut, hidle, ?_⟩
  have hhandled : t.pipeline.packetsHandled = t.pipeline.parsedPushed := by
    apply List.IsPrefix.eq_of_length_le
    · rw [h.pipeline.parsed, List.append_assoc]
      exact List.prefix_append _ _
    · rw [hpushed]
      exact hle
  rw [hhandled, (h.caughtUp hidle).2, hall.same.net]

end Server

/-! ## A run -/

section Run

variable {M : SocketModel} {s : Server M.Socket}

/-- In this step `epoll_wait` reports inputs only. -/
def Server.Reads (s t : Server M.Socket) : Prop :=
  s.net.control = .polling → ∀ events, t.net.control = .dispatching events → ∀ e ∈ events, e.events = EPOLLIN

/-- A run of the event loop alone is one of the server. -/
theorem reachable_quiet (hs : ((serverSystem M native fmt).guarded Server.Reads).Reachable s)
    (hr : s.running .listener = true) (hu : s.Unstopped) {n : Net M.Socket} (hrun : Relation.ReflTransGen Quiet s.net n) :
    ∃ t, ((serverSystem M native fmt).guarded Server.Reads).Reachable t ∧ t.running .listener = true ∧ t.Unstopped ∧
      t.main = s.main ∧ t.net = n := by
  induction hrun with
  | refl => exact ⟨s, hs, hr, hu, rfl, rfl⟩
  | @tail n n' _ h ih =>
    obtain ⟨t, ht, hrt, hut, hm, rfl⟩ := ih
    have hready : EventReady t n' := by
      rintro hc events he ⟨e, hm, hfd⟩
      exact absurd hfd (h.quiet hc events he e hm)
    exact ⟨_, ht.step ⟨⟨_, .listener hrt h.step h.moves hready⟩, h.input⟩, hrt, ⟨hut.running, hut.stops⟩, hm, rfl⟩

/-- A formatter that prints no digits. -/
def blankFormat : Format := ⟨fun _ => "", fun _ => "", fun _ _ => ""⟩

/-- Bytes have been received from the connection. -/
def readNet (bytes : List Byte) : Net ReceiveBuffer :=
  { connectedNet ⟨bytes, [], none⟩ with
    kernel := { (connectedNet ⟨bytes, [], none⟩).kernel with
      connections := [({ fd := 7, registered := true, received := [bytes] }, ⟨bytes, [], none⟩)] }
    queue := [⟨7, bytes⟩] }

theorem quiet_received {bytes : List Byte} (hne : bytes ≠ []) (hlen : bytes.length ≤ RECV_BUF_SIZE) :
    QuietRun launchedNet ((readNet bytes).goto .polling) := by
  have hreads : QuietRun ((connectedNet ⟨bytes, bytes, none⟩).goto .polling) ((readNet bytes).goto .polling) := by
    refine quiet_reads (by decide : (7 : Int) ∈ insert 7 launchedNet.kernel.interest) (by decide : (7 : Int) ≠ 5)
      (by decide : (7 : Int) ≠ 3) List.mem_cons_self ⟨rfl, rfl⟩ hne hlen rfl rfl ?_
    intro h
    have h' : [Connection.mk 7 true false [bytes]] = [Connection.mk 7 true false []] := h
    simp at h'
  exact (quiet_connected rfl).trans hreads

/-- A run of the server in which the listener makes these steps, with the parser and the logic running. -/
theorem exists_quiet (native : Endian) (fmt : Format) {n : Net ReceiveBuffer} (hrun : QuietRun launchedNet n) :
    ∃ s, ((serverSystem receiveBuffers native fmt).guarded Server.Reads).Reachable s ∧ s.Unstopped ∧ s.main = .waiting ∧
      s.net = n := by
  have hinit : ((serverSystem receiveBuffers native fmt).guarded Server.Reads).Reachable
      { net := beforeRun, pipeline := { logic := {} } } := .init ⟨beforeRun, beforeRun_unlaunched, rfl, rfl, rfl⟩
  have hparser := hinit.step ⟨⟨_, .startParser rfl⟩, nofun⟩
  have hlogic := hparser.step ⟨⟨_, .startLogic rfl 0⟩, nofun⟩
  have hlaunch := hlogic.step
    ⟨⟨_, .launch rfl 9000 servingCalls pollingCalls (handedOut_beforeRun (.ok ())) rfl⟩, nofun⟩
  obtain ⟨t, ht, -, hu, hmain, hnet⟩ := reachable_quiet hlaunch rfl ⟨⟨rfl, rfl⟩, rfl, rfl⟩ hrun
  exact ⟨t, ht, hu, hmain, hnet⟩

theorem exists_received (native : Endian) (fmt : Format) {bytes : List Byte} (hne : bytes ≠ [])
    (hlen : bytes.length ≤ RECV_BUF_SIZE) :
    ∃ s, (serverSystem receiveBuffers native fmt).Reachable s ∧ s.Unstopped ∧ s.main = .waiting ∧
      s.net = (readNet bytes).goto .polling := by
  obtain ⟨s, hs, hfacts⟩ := exists_quiet native fmt (quiet_received hne hlen)
  exact ⟨s, hs.of_guarded, hfacts⟩

end Run

end CounterDrone

import Mathlib
import CounterDrone.Lib.Reach
import CounterDrone.ThreadSafeQueue
import CounterDrone.Encoder
import CounterDrone.BusinessLogic

/-!
# The pipeline

The raw queue, the parser thread, the parsed queue and the logic thread, under any schedule: the listener may push any
chunk at any time, the threads test their stop tokens, pop and handle what they popped in steps of their own, and a stop
may be requested between any two steps (`PipelineStep`). The parser handles a chunk one iteration of `process_client` at
a time, so that its packets appear in the parsed queue one by one.

The invariant (`PipelineInv`) says how far each thread has come. It follows that the schedule and the stop requests only
decide how much has been handled (`pipeline_safety`).
-/

namespace CounterDrone

/-! ## The parser thread -/

/-- Where the loop of `StreamingParser::run` is. -/
inductive ParserControl
  /-- at the test of the stop token -/
  | test
  /-- in `pop` -/
  | popping
  /-- a chunk has been popped -/
  | popped (chunk : DataChunk)
  /-- in the loop of `process_client`, for the client of the chunk -/
  | processing (chunk : DataChunk) (cs : ClientState)
  /-- `run` has left the loop -/
  | finished

/-- The chunk in the hands of the parser. -/
def ParserControl.chunks : ParserControl → List DataChunk
  | test => []
  | popping => []
  | popped chunk => [chunk]
  | processing chunk _ => [chunk]
  | finished => []

/-- The parser after a step, what the step did besides, and where the loop goes on. -/
structure ParserMove where
  parser : StreamingParser
  effects : List Effect
  control : ParserControl

/-- From the popped chunk to the loop of `process_client`, or past it. -/
def beginChunk (p : StreamingParser) (chunk : DataChunk) : ParserMove :=
  if chunk.data = [] then ⟨p.erase chunk.clientId, [.pushLog (cleanedUpText chunk.clientId)], .test⟩
  else
    let cs := p.entry chunk.clientId
    match cs.ringBuffer.push chunk.data with
    | .error e => ⟨p.erase chunk.clientId, [.pushLog (overflowDropText e.what chunk.clientId)], .test⟩
    | .ok rb => ⟨p, [], .processing chunk { cs with ringBuffer := rb }⟩

/-- One iteration of the loop of `process_client`, and what `run` does when it is over. -/
def continueChunk (native : Endian) (p : StreamingParser) (chunk : DataChunk) (cs : ClientState) : ParserMove :=
  match processIteration native cs with
  | .done => ⟨p.store chunk.clientId cs [], [], .test⟩
  | .throw e effects =>
    ⟨{ p.erase chunk.clientId with crcFailures := p.crcFailures + BitVec.ofNat 64 (failures effects) },
      effects ++ [.pushLog (unexpectedDropText e.what chunk.clientId)], .test⟩
  | .next cs' effects => ⟨{ p with crcFailures := p.crcFailures + BitVec.ofNat 64 (failures effects) }, effects, .processing chunk cs'⟩

/-- The messages that effects push to the log queue. -/
def logged (effects : List Effect) : List String :=
  effects.filterMap fun
    | .pushLog message => some message
    | _ => none

def parserShutdownText (failures : BitVec 64) : String :=
  "[StreamingParser] Shutting down (CRC failures: " ++ toString failures.toNat ++ ")\n"

/-! ## The logic thread -/

/-- Where the loop of `BusinessLogic::run` is. -/
inductive LogicControl
  /-- at the test of the stop token -/
  | test
  /-- in `pop` -/
  | popping
  /-- a packet has been popped -/
  | popped (telemetry : Telemetry)
  /-- `run` has left the loop -/
  | finished

/-- The packet in the hands of the logic. -/
def LogicControl.packets : LogicControl → List Telemetry
  | test => []
  | popping => []
  | popped telemetry => [telemetry]
  | finished => []

/-! ## Steps -/

/-- The queues, the two threads with their stop tokens, and what has been pushed and handled so far. -/
structure Pipeline where
  raw : ThreadSafeQueue DataChunk := {}
  parsed : ThreadSafeQueue Telemetry := {}
  log : ThreadSafeQueue String := {}
  parser : StreamingParser := {}
  parserControl : ParserControl := .test
  parserStop : Bool := false
  logic : BusinessLogic
  logicControl : LogicControl := .test
  logicStop : Bool := false
  /-- every chunk that the listener has pushed -/
  rawPushed : List DataChunk := []
  /-- the chunks that the parser has finished with -/
  chunksHandled : List DataChunk := []
  /-- every packet that the parser has pushed -/
  parsedPushed : List Telemetry := []
  /-- the packets that the logic has finished with -/
  packetsHandled : List Telemetry := []

namespace Pipeline

/-- Push messages to the log queue. -/
def pushLogs (s : Pipeline) (messages : List String) : Pipeline :=
  { s with log := messages.foldl ThreadSafeQueue.pushed s.log }

/-- Push packets to the parsed queue. -/
def pushParsed (s : Pipeline) (packets : List Telemetry) : Pipeline :=
  { s with parsed := packets.foldl ThreadSafeQueue.pushed s.parsed, parsedPushed := s.parsedPushed ++ packets }

/-- The parser thread moves; it has finished with a chunk when it is back at the test. -/
def moveParser (s : Pipeline) (chunk : DataChunk) (m : ParserMove) : Pipeline :=
  let s := (s.pushParsed (CounterDrone.parsed m.effects)).pushLogs (logged m.effects)
  { s with
    parser := m.parser
    parserControl := m.control
    chunksHandled := s.chunksHandled ++ match m.control with
      | .test => [chunk]
      | _ => [] }

end Pipeline

/-- One step of a thread, a push of the listener, or a stop request. -/
inductive PipelineStep (native : Endian) (fmt : Format) : Pipeline → Pipeline → Prop
  | listenerPush (s : Pipeline) (chunk : DataChunk) :
      PipelineStep native fmt s { s with raw := s.raw.pushed chunk, rawPushed := s.rawPushed ++ [chunk] }
  | stopParser (s : Pipeline) : PipelineStep native fmt s { s with parserStop := true }
  | stopLogic (s : Pipeline) : PipelineStep native fmt s { s with logicStop := true }
  /-- `while (!stop_token.stop_requested())` -/
  | parserTest {s : Pipeline} (h : s.parserControl = .test) :
      PipelineStep native fmt s
        (if s.parserStop then { s.pushLogs [parserShutdownText s.parser.crcFailures] with parserControl := .finished }
        else { s with parserControl := .popping })
  | parserPop {s : Pipeline} (h : s.parserControl = .popping) {q : ThreadSafeQueue DataChunk} {chunk : DataChunk}
      (hpop : s.raw.pop s.parserStop = some (q, some chunk)) :
      PipelineStep native fmt s { s with raw := q, parserControl := .popped chunk }
  | parserPopStopped {s : Pipeline} (h : s.parserControl = .popping) {q : ThreadSafeQueue DataChunk}
      (hpop : s.raw.pop s.parserStop = some (q, none)) :
      PipelineStep native fmt s
        { s.pushLogs [parserShutdownText s.parser.crcFailures] with raw := q, parserControl := .finished }
  | parserBegin {s : Pipeline} {chunk : DataChunk} (h : s.parserControl = .popped chunk) :
      PipelineStep native fmt s (s.moveParser chunk (beginChunk s.parser chunk))
  | parserContinue {s : Pipeline} {chunk : DataChunk} {cs : ClientState} (h : s.parserControl = .processing chunk cs) :
      PipelineStep native fmt s (s.moveParser chunk (continueChunk native s.parser chunk cs))
  /-- `while (!stop_token.stop_requested())` -/
  | logicTest {s : Pipeline} (h : s.logicControl = .test) (now : Int) :
      PipelineStep native fmt s
        (if s.logicStop then { s.pushLogs [logicShutdownText fmt s.logic now] with logicControl := .finished }
        else { s with logicControl := .popping })
  | logicPop {s : Pipeline} (h : s.logicControl = .popping) {q : ThreadSafeQueue Telemetry} {telemetry : Telemetry}
      (hpop : s.parsed.pop s.logicStop = some (q, some telemetry)) :
      PipelineStep native fmt s { s with parsed := q, logicControl := .popped telemetry }
  | logicPopStopped {s : Pipeline} (h : s.logicControl = .popping) {q : ThreadSafeQueue Telemetry} (now : Int)
      (hpop : s.parsed.pop s.logicStop = some (q, none)) :
      PipelineStep native fmt s
        { s.pushLogs [logicShutdownText fmt s.logic now] with parsed := q, logicControl := .finished }
  | logicHandle {s : Pipeline} {telemetry : Telemetry} (h : s.logicControl = .popped telemetry) (now : Int) :
      PipelineStep native fmt s
        { s.pushLogs (s.logic.handleTelemetry fmt telemetry now).2 with
          logic := (s.logic.handleTelemetry fmt telemetry now).1
          logicControl := .test
          packetsHandled := s.packetsHandled ++ [telemetry] }

/-- The runs of the pipeline, from empty queues. -/
def pipelineSystem (native : Endian) (fmt : Format) : System Pipeline where
  init s := ∃ now, s = { logic := BusinessLogic.start now }
  step := PipelineStep native fmt

/-! ## A chunk in steps -/

section Chunk

variable {native : Endian} {p₀ p : StreamingParser} {chunk : DataChunk} {cs : ClientState} {emitted : List Effect}

/-- From the parser `p₀` the loop of `process_client` has come to the client state `cs`, with these effects so far. -/
structure Processing (native : Endian) (p₀ : StreamingParser) (chunk : DataChunk) (p : StreamingParser) (cs : ClientState)
    (emitted : List Effect) : Prop where
  data : chunk.data ≠ []
  loop : ∃ rb, (p₀.entry chunk.clientId).ringBuffer.push chunk.data = .ok rb ∧
    processClient native { p₀.entry chunk.clientId with ringBuffer := rb } =
      ((processClient native cs).1, emitted ++ (processClient native cs).2)
  clients : p.clients = p₀.clients
  crcFailures : p.crcFailures = p₀.crcFailures + BitVec.ofNat 64 (failures emitted)

/-- The chunk is handled at once, or the loop of `process_client` starts. -/
theorem beginChunk_cases (native : Endian) (p : StreamingParser) (chunk : DataChunk) :
    beginChunk p chunk = ⟨(handleChunk native p chunk).parser, (handleChunk native p chunk).effects, .test⟩ ∨
      ∃ cs, beginChunk p chunk = ⟨p, [], .processing chunk cs⟩ ∧ Processing native p chunk p cs [] := by
  obtain ⟨id, data⟩ := chunk
  by_cases hd : data = []
  · subst hd
    left
    rw [handleChunk_cleanedUp, beginChunk, if_pos rfl]
  · cases hpush : (p.entry id).ringBuffer.push data with
    | error e =>
      left
      rw [handleChunk_overflow hd hpush, beginChunk, if_neg hd]
      simp only [hpush]
    | ok rb =>
      right
      refine ⟨{ p.entry id with ringBuffer := rb }, ?_, hd, ⟨rb, hpush, rfl⟩, rfl, (BitVec.add_zero _).symm⟩
      rw [beginChunk, if_neg hd]
      simp only [hpush]

/-- The loop goes on, or the chunk has been handled. -/
theorem continueChunk_cases (h : Processing native p₀ chunk p cs emitted) :
    (∃ p' cs' effects, continueChunk native p chunk cs = ⟨p', effects, .processing chunk cs'⟩ ∧
      Processing native p₀ chunk p' cs' (emitted ++ effects)) ∨
    (continueChunk native p chunk cs = ⟨(handleChunk native p₀ chunk).parser, [], .test⟩ ∧
      (handleChunk native p₀ chunk).effects = emitted) := by
  obtain ⟨hd, ⟨rb, hpush, hloop⟩, hclients, hfail⟩ := h
  unfold continueChunk
  cases hit : processIteration native cs with
  | done =>
    right
    rw [processClient_done hit, List.append_nil] at hloop
    rw [handleChunk_processed hd hpush hloop]
    refine ⟨?_, rfl⟩
    simp only [StreamingParser.store, hclients, hfail, failures_nil, BitVec.add_zero]
  | throw e effects => exact absurd hit (processIteration_ne_throw native cs e effects)
  | next cs' effects =>
    left
    refine ⟨_, cs', effects, rfl, hd, ⟨rb, hpush, ?_⟩, hclients, ?_⟩
    · rw [hloop, processClient_next hit, List.append_assoc]
    · simp only [hfail, failures_append, BitVec.ofNat_add, BitVec.add_assoc]

/-- What the loop has pushed is the beginning of what handling the chunk pushes. -/
theorem Processing.emitted_le (h : Processing native p₀ chunk p cs emitted) :
    emitted <+: (handleChunk native p₀ chunk).effects := by
  obtain ⟨hd, ⟨rb, hpush, hloop⟩, _, _⟩ := h
  cases hr : (processClient native cs).1 with
  | ok cs' =>
    rw [hr] at hloop
    rw [handleChunk_processed hd hpush hloop]
    exact List.prefix_append _ _
  | error e =>
    rw [hr] at hloop
    rw [handleChunk_unexpected hd hpush hloop, List.append_assoc]
    exact List.prefix_append _ _

end Chunk

/-! ## The invariant -/

/-- The packets of a sequential run of the parser over chunks. -/
def sequential (native : Endian) (chunks : List DataChunk) : List Telemetry :=
  parsed ((handleChunks native {} chunks).2.map Prod.snd)

theorem sequential_append (native : Endian) (chunks : List DataChunk) (chunk : DataChunk) :
    sequential native (chunks ++ [chunk]) =
      sequential native chunks ++ parsed (handleChunk native (handleChunks native {} chunks).1 chunk).effects := by
  rw [sequential, handleChunks_append, List.map_append, parsed_append, sequential]
  simp [handleChunks]

theorem handleChunks_snoc (native : Endian) (chunks : List DataChunk) (chunk : DataChunk) :
    (handleChunks native {} (chunks ++ [chunk])).1 = (handleChunk native (handleChunks native {} chunks).1 chunk).parser := by
  rw [handleChunks_append]
  rfl

/-- How far the parser has come: it is where a sequential run over the chunks it has finished with would be, or it is in
the loop for one more chunk and has pushed some of its packets. -/
def ParserAt (native : Endian) (p : StreamingParser) (handled : List DataChunk) (pushed : List Telemetry) :
    ParserControl → Prop
  | .processing chunk cs => ∃ emitted, Processing native (handleChunks native {} handled).1 chunk p cs emitted ∧
      pushed = sequential native handled ++ parsed emitted
  | _ => p = (handleChunks native {} handled).1 ∧ pushed = sequential native handled

/-- How far each thread has come. -/
structure PipelineInv (native : Endian) (s : Pipeline) : Prop where
  unbounded : s.raw.maxSize = 0 ∧ s.parsed.maxSize = 0
  raw : s.rawPushed = s.chunksHandled ++ s.parserControl.chunks ++ s.raw.items
  parser : ParserAt native s.parser s.chunksHandled s.parsedPushed s.parserControl
  parsed : s.parsedPushed = s.packetsHandled ++ s.logicControl.packets ++ s.parsed.items
  logic : s.logic.Tracks s.packetsHandled

namespace PipelineInv

variable {native : Endian} {fmt : Format} {s : Pipeline}

theorem start (now : Int) : PipelineInv native { logic := BusinessLogic.start now } :=
  ⟨⟨rfl, rfl⟩, rfl, ⟨rfl, rfl⟩, rfl, BusinessLogic.tracks_start now⟩

theorem pushLogs (h : PipelineInv native s) (messages : List String) : PipelineInv native (s.pushLogs messages) :=
  ⟨h.unbounded, h.raw, h.parser, h.parsed, h.logic⟩

/-- The packets of a step of the parser go to the end of the parsed queue. -/
theorem pushParsed (h : PipelineInv native s) (packets : List Telemetry) :
    (s.pushParsed packets).parsed.maxSize = 0 ∧
      (s.pushParsed packets).parsedPushed = s.packetsHandled ++ s.logicControl.packets ++ (s.pushParsed packets).parsed.items := by
  simp only [Pipeline.pushParsed, ThreadSafeQueue.foldl_pushed_unbounded h.unbounded.2]
  refine ⟨h.unbounded.2, ?_⟩
  rw [h.parsed, List.append_assoc]

/-- The parser has finished with a chunk. -/
theorem finishChunk (h : PipelineInv native s) {chunk : DataChunk} (hc : s.parserControl.chunks = [chunk])
    {p : StreamingParser} {effects : List Effect} (hp : p = (handleChunks native {} (s.chunksHandled ++ [chunk])).1)
    (hpushed : s.parsedPushed ++ CounterDrone.parsed effects = sequential native (s.chunksHandled ++ [chunk])) :
    PipelineInv native (s.moveParser chunk ⟨p, effects, .test⟩) := by
  obtain ⟨hsize, hqueue⟩ := h.pushParsed (CounterDrone.parsed effects)
  refine ⟨⟨h.unbounded.1, hsize⟩, ?_, ⟨hp, hpushed⟩, hqueue, h.logic⟩
  rw [Pipeline.moveParser]
  simp only [Pipeline.pushLogs, Pipeline.pushParsed, ParserControl.chunks, List.append_nil]
  rw [h.raw, hc]

/-- The parser goes on with a chunk. -/
theorem continueChunk (h : PipelineInv native s) {chunk : DataChunk} (hc : s.parserControl.chunks = [chunk])
    {p : StreamingParser} {effects emitted : List Effect} {cs : ClientState}
    (hproc : Processing native (handleChunks native {} s.chunksHandled).1 chunk p cs emitted)
    (hpushed : s.parsedPushed ++ CounterDrone.parsed effects =
      sequential native s.chunksHandled ++ CounterDrone.parsed emitted) :
    PipelineInv native (s.moveParser chunk ⟨p, effects, .processing chunk cs⟩) := by
  obtain ⟨hsize, hqueue⟩ := h.pushParsed (CounterDrone.parsed effects)
  rw [Pipeline.moveParser]
  simp only [Pipeline.pushLogs, List.append_nil]
  have hraw := h.raw
  rw [hc] at hraw
  exact ⟨⟨h.unbounded.1, hsize⟩, hraw, ⟨emitted, hproc, hpushed⟩, hqueue, h.logic⟩

/-- **Every step keeps the invariant.** -/
theorem step {s' : Pipeline} (h : PipelineInv native s) (hs : PipelineStep native fmt s s') : PipelineInv native s' := by
  cases hs with
  | listenerPush chunk =>
    simp only [ThreadSafeQueue.pushed_unbounded h.unbounded.1]
    refine ⟨h.unbounded, ?_, h.parser, h.parsed, h.logic⟩
    rw [h.raw, List.append_assoc _ s.raw.items]
  | stopParser => exact ⟨h.unbounded, h.raw, h.parser, h.parsed, h.logic⟩
  | stopLogic => exact ⟨h.unbounded, h.raw, h.parser, h.parsed, h.logic⟩
  | parserTest hc =>
    have hraw := h.raw
    have hat := h.parser
    rw [hc] at hraw hat
    split
    · exact ⟨h.unbounded, hraw, hat, h.parsed, h.logic⟩
    · exact ⟨h.unbounded, hraw, hat, h.parsed, h.logic⟩
  | parserPop hc hpop =>
    have hraw := h.raw
    have hat := h.parser
    rw [hc] at hraw hat
    rcases ThreadSafeQueue.pop_cases hpop with ⟨item, he, hitems, hsize⟩ | ⟨he, _⟩
    · cases he
      refine ⟨⟨hsize.trans h.unbounded.1, h.unbounded.2⟩, ?_, hat, h.parsed, h.logic⟩
      rw [hraw, hitems]
      simp [ParserControl.chunks]
    · cases he
  | parserPopStopped hc hpop =>
    have hraw := h.raw
    have hat := h.parser
    rw [hc] at hraw hat
    rcases ThreadSafeQueue.pop_cases hpop with ⟨item, he, _⟩ | ⟨_, rfl, _⟩
    · cases he
    · exact ⟨h.unbounded, hraw, hat, h.parsed, h.logic⟩
  | @parserBegin chunk hc =>
    have hat := h.parser
    rw [hc] at hat
    obtain ⟨hp, hpushed⟩ := hat
    have hchunks : s.parserControl.chunks = [chunk] := by rw [hc]; rfl
    rcases beginChunk_cases native s.parser chunk with he | ⟨cs, he, hproc⟩
    · rw [he]
      apply h.finishChunk hchunks
      · rw [handleChunks_snoc, hp]
      · rw [sequential_append, hpushed, hp]
    · rw [he]
      rw [hp] at hproc ⊢
      exact h.continueChunk hchunks hproc (by rw [hpushed])
  | @parserContinue chunk cs hc =>
    have hat := h.parser
    rw [hc] at hat
    obtain ⟨emitted, hproc, hpushed⟩ := hat
    have hchunks : s.parserControl.chunks = [chunk] := by rw [hc]; rfl
    rcases continueChunk_cases hproc with ⟨p', cs', effects, he, hproc'⟩ | ⟨he, hall⟩
    · rw [he]
      apply h.continueChunk hchunks hproc'
      rw [hpushed, parsed_append, List.append_assoc]
    · rw [he]
      apply h.finishChunk hchunks
      · rw [handleChunks_snoc]
      · rw [sequential_append, hall, hpushed]
        exact List.append_nil _
  | logicTest hc now =>
    have hparsed := h.parsed
    rw [hc] at hparsed
    split
    · exact ⟨h.unbounded, h.raw, h.parser, hparsed, h.logic⟩
    · exact ⟨h.unbounded, h.raw, h.parser, hparsed, h.logic⟩
  | logicPop hc hpop =>
    have hparsed := h.parsed
    rw [hc] at hparsed
    rcases ThreadSafeQueue.pop_cases hpop with ⟨item, he, hitems, hsize⟩ | ⟨he, _⟩
    · cases he
      refine ⟨⟨h.unbounded.1, hsize.trans h.unbounded.2⟩, h.raw, h.parser, ?_, h.logic⟩
      rw [hparsed, hitems]
      simp [LogicControl.packets]
    · cases he
  | logicPopStopped hc now hpop =>
    have hparsed := h.parsed
    rw [hc] at hparsed
    rcases ThreadSafeQueue.pop_cases hpop with ⟨item, he, _⟩ | ⟨_, rfl, _⟩
    · cases he
    · exact ⟨h.unbounded, h.raw, h.parser, hparsed, h.logic⟩
  | @logicHandle telemetry hc now =>
    have hparsed := h.parsed
    rw [hc] at hparsed
    refine ⟨h.unbounded, h.raw, h.parser, ?_, h.logic.handleTelemetry telemetry now⟩
    simp only [LogicControl.packets, List.append_nil]
    exact hparsed

/-- What the parser has pushed lies between the sequential runs without and with the chunk in its hands. -/
theorem pushed_between (h : PipelineInv native s) : sequential native s.chunksHandled <+: s.parsedPushed ∧
    s.parsedPushed <+: sequential native (s.chunksHandled ++ s.parserControl.chunks) := by
  have hat := h.parser
  cases hc : s.parserControl with
  | processing chunk cs =>
    rw [hc] at hat
    obtain ⟨emitted, hproc, hpushed⟩ := hat
    rw [hpushed]
    refine ⟨List.prefix_append _ _, ?_⟩
    obtain ⟨rest, hrest⟩ := hproc.emitted_le
    rw [ParserControl.chunks, sequential_append, ← hrest, parsed_append, ← List.append_assoc]
    exact List.prefix_append _ _
  | popped chunk =>
    rw [hc] at hat
    rw [hat.2, ParserControl.chunks, sequential_append]
    exact ⟨List.prefix_rfl, List.prefix_append _ _⟩
  | test | popping | finished =>
    rw [hc] at hat
    rw [hat.2, ParserControl.chunks, List.append_nil]
    exact ⟨List.prefix_rfl, List.prefix_rfl⟩

end PipelineInv

/-! ## Main result -/

/-- **Pipeline safety.** In every state of every run, under any schedule and stop requests: the chunks that the parser has
finished with, the one in its hands and those in the raw queue are the chunks that the listener pushed, in order; the
packets that the parser has pushed are those of a sequential run over the finished chunks and some first packets of the
chunk in its hands; the packets that the logic has finished with, the one in its hands and those in the parsed queue are
the packets that the parser pushed, in order; and the drone table holds the last packet of each id among those the logic
has finished with, and no other id, with their number in the counter. -/
theorem pipeline_safety (native : Endian) (fmt : Format) (s : Pipeline) (hs : (pipelineSystem native fmt).Reachable s) :
    s.rawPushed = s.chunksHandled ++ s.parserControl.chunks ++ s.raw.items ∧
    parsed ((handleChunks native {} s.chunksHandled).2.map Prod.snd) <+: s.parsedPushed ∧
    s.parsedPushed <+: parsed ((handleChunks native {} (s.chunksHandled ++ s.parserControl.chunks)).2.map Prod.snd) ∧
    s.parsedPushed = s.packetsHandled ++ s.logicControl.packets ++ s.parsed.items ∧
    (∀ id, s.logic.drones.lookup id = (s.packetsHandled.filter fun t => t.droneId = id).getLast?) ∧
    s.logic.packetsProcessed.toNat = s.packetsHandled.length % 2 ^ 64 := by
  have h : PipelineInv native s := by
    refine hs.invariant (I := PipelineInv native) ?_ fun _ _ _ h hst => h.step hst
    rintro _ ⟨now, rfl⟩
    exact .start now
  exact ⟨h.raw, h.pushed_between.1, h.pushed_between.2, h.parsed, h.logic.drones, h.logic.count⟩

/-- The parser has handled a chunk, and nothing else has changed but what it has pushed. -/
structure ParserHandled (chunk : DataChunk) (s t : Pipeline) : Prop where
  control : t.parserControl = .test
  handled : t.chunksHandled = s.chunksHandled ++ [chunk]
  raw : t.raw = s.raw
  stop : t.parserStop = s.parserStop
  logic : t.logicControl = s.logicControl ∧ t.logicStop = s.logicStop ∧ t.packetsHandled = s.packetsHandled

/-- The loop of `process_client` can run to its end. -/
theorem exists_loopEnd (native : Endian) (fmt : Format) (chunk : DataChunk) (cs : ClientState) : ∀ s : Pipeline,
    s.parserControl = .processing chunk cs →
    ∃ t, Relation.ReflTransGen (PipelineStep native fmt) s t ∧ ParserHandled chunk s t := by
  induction cs using processClient_induction native with
  | hdone cs h =>
    intro s hc
    have hstep := @PipelineStep.parserContinue native fmt _ _ _ hc
    rw [continueChunk, h] at hstep
    exact ⟨_, .single hstep, rfl, rfl, rfl, rfl, rfl, rfl, rfl⟩
  | hnext cs cs' effects h ih =>
    intro s hc
    have hstep := @PipelineStep.parserContinue native fmt _ _ _ hc
    rw [continueChunk, h] at hstep
    obtain ⟨t, hrun, ht⟩ := ih (s.moveParser chunk
      ⟨{ s.parser with crcFailures := s.parser.crcFailures + BitVec.ofNat 64 (failures effects) }, effects,
        .processing chunk cs'⟩) rfl
    exact ⟨t, .head hstep hrun, ht.control, ht.handled.trans (by simp [Pipeline.moveParser, Pipeline.pushLogs,
      Pipeline.pushParsed]), ht.raw, ht.stop, ht.logic⟩

/-- A chunk that has been popped can be handled. -/
theorem exists_parserHandled (native : Endian) (fmt : Format) {chunk : DataChunk} {s : Pipeline}
    (hc : s.parserControl = .popped chunk) :
    ∃ t, Relation.ReflTransGen (PipelineStep native fmt) s t ∧ ParserHandled chunk s t := by
  have hstep := @PipelineStep.parserBegin native fmt _ _ hc
  rcases beginChunk_cases native s.parser chunk with he | ⟨cs, he, -⟩
  · rw [he] at hstep
    exact ⟨_, .single hstep, rfl, rfl, rfl, rfl, rfl, rfl, rfl⟩
  · rw [he] at hstep
    obtain ⟨t, hrun, ht⟩ := exists_loopEnd native fmt chunk cs
      (s.moveParser chunk ⟨s.parser, [], .processing chunk cs⟩) rfl
    exact ⟨t, .head hstep hrun, ht.control, ht.handled.trans (by simp [Pipeline.moveParser, Pipeline.pushLogs,
      Pipeline.pushParsed]), ht.raw, ht.stop, ht.logic⟩

/-- The sequential run over one packet. -/
theorem sequential_onePacket (native : Endian) (c : Int) :
    sequential native [⟨c, packetBytes [oneRecord]⟩] = [oneRecord.toTelemetry] := by
  have hcut : ∀ d ∈ [packetBytes [oneRecord]], d ≠ [] ∧ d.length ≤ RECV_BUF_SIZE := by
    simp [onePacket_ne, length_onePacket, RECV_BUF_SIZE]
  obtain ⟨p', hrun, -⟩ := handleChunks_session native (p := {}) (c := c) rfl hcut
  simp only [List.map_cons, List.map_nil, List.flatten_cons, List.flatten_nil, List.append_nil] at hrun
  rw [sequential, hrun, untag]
  exact (parsed_moves _).trans (frameScan_packetBytes native oneRecord_fits).1

/-- Two chunks are pushed. The parser is stopped while it holds the first one, a packet, and finishes with it; the packet
reaches the logic and the table. -/
theorem pipeline_safety_stopped :
    ∃ s, (pipelineSystem .little ⟨fun _ => "", fun _ => "", fun _ _ => ""⟩).Reachable s ∧ s.parserStop = true ∧
      s.raw.items = [⟨5, [0xAA]⟩] ∧ s.packetsHandled = [oneRecord.toTelemetry] ∧
      s.rawPushed = [⟨4, packetBytes [oneRecord]⟩, ⟨5, [0xAA]⟩] ∧
      s.logic.drones.lookup oneRecord.toTelemetry.droneId = some oneRecord.toTelemetry := by
  let fmt : Format := ⟨fun _ => "", fun _ => "", fun _ _ => ""⟩
  have hinit : (pipelineSystem .little fmt).Reachable { logic := BusinessLogic.start 0 } := .init ⟨0, rfl⟩
  have hpushed := (hinit.step (.listenerPush _ ⟨4, packetBytes [oneRecord]⟩)).step (.listenerPush _ ⟨5, [0xAA]⟩)
  have hpopped := (hpushed.step (.parserTest rfl)).step (.parserPop rfl rfl)
  have hstopped := hpopped.step (.stopParser _)
  obtain ⟨s, hs, hc, hstop, hraw, hpushed, hlogic, hfirst⟩ : ∃ s, (pipelineSystem .little fmt).Reachable s ∧
      s.parserControl = .popped ⟨4, packetBytes [oneRecord]⟩ ∧ s.parserStop = true ∧ s.raw.items = [⟨5, [0xAA]⟩] ∧
      s.rawPushed = [⟨4, packetBytes [oneRecord]⟩, ⟨5, [0xAA]⟩] ∧
      (s.logicControl = .test ∧ s.logicStop = false ∧ s.packetsHandled = []) ∧ s.chunksHandled = [] :=
    ⟨_, hstopped, rfl, rfl, rfl, rfl, ⟨rfl, rfl, rfl⟩, rfl⟩
  obtain ⟨t, hrun, ht⟩ := exists_parserHandled .little fmt hc
  have htr : (pipelineSystem .little fmt).Reachable t := hs.runs hrun
  -- the packet is in the parsed queue
  obtain ⟨hkept, hle, hge, hparsed, -⟩ := pipeline_safety .little fmt t htr
  have hitems : t.parsed.items = [oneRecord.toTelemetry] := by
    have hchunks : t.chunksHandled = [⟨4, packetBytes [oneRecord]⟩] := by rw [ht.handled, hfirst, List.nil_append]
    rw [ht.control, ParserControl.chunks, List.append_nil] at hge
    rw [ht.logic.1, ht.logic.2.2, hlogic.1, hlogic.2.2] at hparsed
    rw [hchunks] at hle hge
    have hall := hle.eq_of_length_le hge.length_le
    have hone : sequential .little [⟨4, packetBytes [oneRecord]⟩] = [oneRecord.toTelemetry] :=
      sequential_onePacket .little 4
    rw [← hone]
    exact hparsed.symm.trans hall.symm
  -- the logic takes it
  have htest := @PipelineStep.logicTest .little fmt _ (ht.logic.1.trans hlogic.1) 0
  rw [if_neg (by rw [ht.logic.2.1, hlogic.2.1]; decide)] at htest
  have hpop : t.parsed.pop t.logicStop = some ({ t.parsed with items := [] }, some oneRecord.toTelemetry) := by
    simp [ThreadSafeQueue.pop, hitems]
  obtain ⟨u, hu, hustop, huraw, hupushed, huhandled⟩ : ∃ u, (pipelineSystem .little fmt).Reachable u ∧
      u.parserStop = t.parserStop ∧ u.raw = t.raw ∧ u.rawPushed = t.rawPushed ∧
      u.packetsHandled = t.packetsHandled ++ [oneRecord.toTelemetry] :=
    ⟨_, ((htr.step htest).step (.logicPop rfl hpop)).step (.logicHandle rfl 0), rfl, rfl, rfl, rfl⟩
  rw [ht.logic.2.2, hlogic.2.2, List.nil_append] at huhandled
  rw [hkept, ht.handled, ht.control, ht.raw, hfirst, hraw] at hupushed
  rw [ht.raw] at huraw
  obtain ⟨-, -, -, -, hdrones, -⟩ := pipeline_safety .little fmt u hu
  refine ⟨u, hu, hustop.trans (ht.stop.trans hstop), by rw [huraw, hraw], huhandled, hupushed, ?_⟩
  rw [hdrones, huhandled]
  simp

end CounterDrone

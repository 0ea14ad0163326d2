import Mathlib
import CounterDrone.Accounting
import CounterDrone.Delivery

/-!
# The log of the server

In the logger's own system (`loggingSystem`) the threads push any messages until they return. The threads of the server
are such threads: a step of the process is a run of that system (`logging_refines`), although a step of the listener or
the parser pushes its messages and leaves its loop at once, and a listener that has failed has returned long before it is
stopped. So what is known of the logger holds for the process (`server_log_complete`).

What the threads push is told apart by how it begins: the listener never pushes an alert, nor does the parser, and the
parser alone reports failures. The alerts of the log are therefore those that the packets handled are owed, and the reports
of failures are as many as the parser has counted (`log_accounts`).
-/

namespace CounterDrone

/-! ## Runs of the logging system -/

section Producers

variable {s : Logging} {p : Producer}

/-- A thread in its loop pushes messages. -/
theorem logging_pushes (hu : s.queue.maxSize = 0) (hp : s.producers p = .running) (messages : List String) :
    Relation.ReflTransGen loggingSystem.step s
      { s with queue := messages.foldl ThreadSafeQueue.pushed s.queue, pushed := s.pushed ++ messages } := by
  induction messages generalizing s with
  | nil =>
    rw [List.foldl_nil, List.append_nil]
  | cons message messages ih =>
    have hq : s.queue.push message false = some (s.queue.pushed message, true) := by
      simp [ThreadSafeQueue.pushed, ThreadSafeQueue.push, hu]
    have hu' : (s.queue.pushed message).maxSize = 0 := by rw [ThreadSafeQueue.pushed_unbounded hu]; exact hu
    have hrest := @ih { s with queue := s.queue.pushed message, pushed := s.pushed ++ [message] } hu' hp
    rw [List.append_assoc] at hrest
    exact .head (Or.inl (.push hp message hq)) hrest

/-- A thread that has been stopped returns. -/
theorem logging_returns (hp : s.producers p = .running) (hstop : s.stops p = true) :
    Relation.ReflTransGen loggingSystem.step s { s with producers := Function.update s.producers p .returned } := by
  have hleave : loggingSystem.step s { s with producers := Function.update s.producers p .leaving } :=
    Or.inl (.leave hp hstop)
  have hreturn : loggingSystem.step { s with producers := Function.update s.producers p .leaving }
      { s with producers := Function.update (Function.update s.producers p .leaving) p .returned } :=
    Or.inl (.returns (Or.inl (Function.update_self _ _ _)))
  rw [Function.update_idem] at hreturn
  exact .head hleave (.single hreturn)

end Producers

/-! ## What the threads say -/

/-- A report of a failure. -/
def reportsFailure (message : String) : Bool := message = mismatchText ∨ message = malformedText

theorem begins_mismatchText : begins "[StreamingParser]" mismatchText = true := by
  simp [begins, mismatchText]

theorem begins_malformedText : begins "[StreamingParser]" malformedText = true := by
  simp [begins, malformedText]

/-- Only messages of the parser report failures. -/
theorem not_reportsFailure {message : String} (h : begins "[StreamingParser]" message = false) :
    reportsFailure message = false := by
  simp only [reportsFailure, decide_eq_false_iff_not]
  rintro (rfl | rfl)
  · rw [begins_mismatchText] at h
    cases h
  · rw [begins_malformedText] at h
    cases h

/-- A message of the listener is no alert and reports no failure. -/
theorem listener_message {message : String} (h : begins "[NetworkListener]" message = true) :
    BusinessLogic.isAlert message = false ∧ reportsFailure message = false :=
  ⟨@begins_false _ "[ALERT]" _ h (by simp) (by simp), not_reportsFailure (begins_false h (by simp) (by simp))⟩

/-- A message of the parser is no alert. -/
theorem parser_message {message : String} (h : begins "[StreamingParser]" message = true) :
    BusinessLogic.isAlert message = false := @begins_false _ "[ALERT]" _ h (by simp) (by simp)

/-- Where the buffer overflows, its message says so. -/
theorem push_error_what {r : Ring} {data : List Byte} {e : OverflowError} (h : r.push data = .error e) :
    ∃ wanted free, e.what = RingBuffer.overflowText wanted free := by
  have herror : ∀ {res : Except OverflowError RingBuffer} {hv : ∀ rb, res = .ok rb → rb.Valid},
      Ring.withValid res hv = .error e → res = .error e := by
    intro res hv he
    cases res with
    | ok rb => cases he
    | error e' =>
      cases he
      rfl
  have hraw := herror h
  rcases RingBuffer.push_spec r.valid data with ⟨-, rb, he, -⟩ | ⟨-, he⟩
  · rw [Ring.defined_eq he] at hraw
    cases hraw
  · rw [Ring.defined_eq he] at hraw
    cases hraw
    exact ⟨_, _, rfl⟩

section Pipeline

variable {native : Endian} {fmt : Format} {s p : Pipeline}

/-- What an iteration logs: a report for each failure that it counts. -/
theorem iteration_logged {cs cs' : ClientState} {effects : List Effect} (h : GoesOn native cs effects cs') :
    (logged effects).countP reportsFailure = failures effects ∧
      ∀ m ∈ logged effects, begins "[StreamingParser]" m = true := by
  have ho := processIteration_outcome native cs
  rw [h] at ho
  have hmismatch : reportsFailure mismatchText = true := by simp [reportsFailure]
  have hmalformed : reportsFailure malformedText = true := by simp [reportsFailure]
  cases ho with
  | headerSkip | headerFound | lengthBad | lengthGood => exact ⟨rfl, by simp [logged]⟩
  | crcMismatch => exact ⟨by simp [logged, failures, hmismatch], by simp [logged, begins_mismatchText]⟩
  | frame =>
    cases deserializePayload native ((cs.unread.drop 4).take cs.payloadLength.toNat) cs.payloadLength.toNat with
    | none =>
      exact ⟨by simp [frameEffects, logged, failures, hmalformed], by simp [frameEffects, logged, begins_malformedText]⟩
    | some telemetry => exact ⟨by simp [frameEffects, logged, failures], by simp [frameEffects, logged]⟩

/-- The other messages of the parser report no failure. -/
theorem parser_texts : (∀ n, begins "[StreamingParser]" (parserShutdownText n) = true ∧
      reportsFailure (parserShutdownText n) = false) ∧
    (∀ id, begins "[StreamingParser]" (cleanedUpText id) = true ∧ reportsFailure (cleanedUpText id) = false) ∧
    ∀ wanted free id, begins "[StreamingParser]" (overflowDropText (RingBuffer.overflowText wanted free) id) = true ∧
      reportsFailure (overflowDropText (RingBuffer.overflowText wanted free) id) = false := by
  have hother : ∀ message : String, begins "[StreamingParser] CRC" message = false →
      begins "[StreamingParser] Malformed" message = false → reportsFailure message = false := by
    intro message h₁ h₂
    simp only [reportsFailure, decide_eq_false_iff_not]
    rintro (rfl | rfl)
    · simp [begins, mismatchText] at h₁
    · simp [begins, malformedText] at h₂
  refine ⟨fun n => ⟨?_, hother _ ?_ ?_⟩, fun id => ⟨?_, hother _ ?_ ?_⟩, fun wanted free id => ⟨?_, hother _ ?_ ?_⟩⟩
  all_goals
    delta parserShutdownText cleanedUpText overflowDropText RingBuffer.overflowText
    simp [begins, List.isPrefixOf]

/-- **What the parser says**: a report for each failure that it counts, and nothing under another tag. -/
theorem PipelineStep.parser_says (h : PipelineStep native fmt s p) (hmoves : p.parserControl ≠ s.parserControl) :
    ∃ messages : List String, p.log = messages.foldl ThreadSafeQueue.pushed s.log ∧
      (∀ m ∈ messages, begins "[StreamingParser]" m = true) ∧
      p.parser.crcFailures = s.parser.crcFailures + BitVec.ofNat 64 (messages.countP reportsFailure) := by
  obtain ⟨hshutdown, hcleaned, hoverflow⟩ := parser_texts
  cases h with
  | listenerPush | stopParser | stopLogic => exact absurd rfl hmoves
  | parserTest hc =>
    split
    · refine ⟨[parserShutdownText s.parser.crcFailures], rfl, ?_, ?_⟩
      · simpa using (hshutdown _).1
      · simp [(hshutdown _).2, Pipeline.pushLogs]
    · exact ⟨[], rfl, by simp, (BitVec.add_zero _).symm⟩
  | parserPop => exact ⟨[], rfl, by simp, (BitVec.add_zero _).symm⟩
  | parserPopStopped =>
    refine ⟨[parserShutdownText s.parser.crcFailures], rfl, ?_, ?_⟩
    · simpa using (hshutdown _).1
    · simp [(hshutdown _).2, Pipeline.pushLogs]
  | @parserBegin chunk hc =>
    refine ⟨logged (beginChunk s.parser chunk).effects, rfl, ?_⟩
    unfold beginChunk
    split
    · refine ⟨?_, ?_⟩
      · simpa [logged] using (hcleaned _).1
      · simp [logged, (hcleaned _).2, Pipeline.moveParser, StreamingParser.erase]
    · simp only
      split
      · rename_i e he
        obtain ⟨wanted, free, hwhat⟩ := push_error_what he
        rw [hwhat]
        refine ⟨?_, ?_⟩
        · simpa [logged] using (hoverflow _ _ _).1
        · simp [logged, (hoverflow _ _ _).2, Pipeline.moveParser, StreamingParser.erase]
      · exact ⟨by simp [logged], (BitVec.add_zero _).symm⟩
  | @parserContinue chunk cs hc =>
    refine ⟨logged (continueChunk native s.parser chunk cs).effects, rfl, ?_⟩
    unfold continueChunk
    cases hit : processIteration native cs with
    | done => exact ⟨by simp [logged], rfl⟩
    | throw e effects => exact absurd hit (processIteration_ne_throw native cs e effects)
    | next cs' effects =>
      obtain ⟨hcount, htag⟩ := iteration_logged hit
      exact ⟨htag, by simp [Pipeline.moveParser, hcount]⟩
  | logicTest hc now =>
    refine absurd ?_ hmoves
    split <;> rfl
  | logicPop | logicPopStopped | logicHandle => exact absurd rfl hmoves

/-- The messages of the logic are not under the tag of the parser. -/
theorem logic_texts (fmt : Format) (b : BusinessLogic) (now : Int) :
    begins "[StreamingParser]" (logicShutdownText fmt b now) = false ∧
    BusinessLogic.isAlert (logicShutdownText fmt b now) = false ∧
    ∀ telemetry, ∀ m ∈ (b.handleTelemetry fmt telemetry now).2, begins "[StreamingParser]" m = false := by
  have htag := @BusinessLogic.begins_logicShutdownText fmt b now
  refine ⟨begins_false htag (by simp) (by simp), (BusinessLogic.own_message htag).1, ?_⟩
  intro telemetry m hm
  rcases BusinessLogic.handleTelemetry_tags hm with halert | hreport
  · exact @begins_false "[ALERT]" _ _ halert (by simp) (by simp)
  · exact @begins_false "[Throughput]" _ _ hreport (by simp) (by simp)

/-- **What the logic says**: the alerts of the packets that it has handled, and nothing under the tag of the parser. -/
theorem PipelineStep.logic_says (h : PipelineStep native fmt s p) (hmoves : p.logicControl ≠ s.logicControl) :
    ∃ (messages : List String) (handled : List Telemetry), p.log = messages.foldl ThreadSafeQueue.pushed s.log ∧
      (∀ m ∈ messages, begins "[StreamingParser]" m = false) ∧ p.packetsHandled = s.packetsHandled ++ handled ∧
      messages.filter BusinessLogic.isAlert = handled.flatMap (BusinessLogic.alertsOwed fmt) := by
  cases h with
  | listenerPush | stopParser | stopLogic => exact absurd rfl hmoves
  | parserTest hc =>
    refine absurd ?_ hmoves
    split <;> rfl
  | parserPop | parserPopStopped | parserBegin | parserContinue => exact absurd rfl hmoves
  | logicTest hc now =>
    obtain ⟨htag, halert, -⟩ := logic_texts fmt s.logic now
    split
    · exact ⟨[logicShutdownText fmt s.logic now], [], rfl, by simpa using htag, by simp [Pipeline.pushLogs], by simp [halert]⟩
    · exact ⟨[], [], rfl, by simp, by simp, rfl⟩
  | logicPop => exact ⟨[], [], rfl, by simp, by simp, rfl⟩
  | logicPopStopped hc now hpop =>
    obtain ⟨htag, halert, -⟩ := logic_texts fmt s.logic now
    exact ⟨[logicShutdownText fmt s.logic now], [], rfl, by simpa using htag, by simp [Pipeline.pushLogs], by simp [halert]⟩
  | @logicHandle telemetry hc now =>
    refine ⟨(s.logic.handleTelemetry fmt telemetry now).2, [telemetry], rfl,
      (logic_texts fmt s.logic now).2.2 telemetry, rfl, ?_⟩
    rw [(BusinessLogic.filter_handleTelemetry _ _ _).1]
    simp

end Pipeline

/-! ## The threads of the server -/

section Refinement

variable {M : SocketModel} {native : Endian} {fmt : Format} {s t : Server M.Socket}

/-- One thread has moved: what it has pushed, and whether it has returned. -/
structure ThreadMoves (p : Producer) (messages : List String) (s t : Server M.Socket) : Prop where
  queue : t.pipeline.log = messages.foldl ThreadSafeQueue.pushed s.pipeline.log
  pushed : t.logPushed = s.logPushed ++ messages
  before : s.producer p = .running
  after : t.producer p = .running ∨ (t.producer p = .returned ∧ s.stop p = true)
  others : ∀ q, q ≠ p → t.producer q = s.producer q
  stops : ∀ q, t.stop q = s.stop q
  logger : t.logger = s.logger ∧ t.loggerStop = s.loggerStop ∧ t.main = s.main ∧ t.written = s.written

/-- The move of a thread is a run of the logging system. -/
theorem ThreadMoves.refines {p : Producer} {messages : List String} (h : ThreadMoves p messages s t)
    (hu : s.pipeline.log.maxSize = 0) : Relation.ReflTransGen loggingSystem.step s.logging t.logging := by
  have hpush := @logging_pushes s.logging p hu h.before messages
  obtain ⟨hlogger, hlstop, hmain, hwritten⟩ := h.logger
  have hstops : t.stop = s.stop := funext h.stops
  have hview : ∀ producers, t.producer = producers → t.logging =
      { s.logging with
        queue := messages.foldl ThreadSafeQueue.pushed s.pipeline.log
        pushed := s.logPushed ++ messages
        producers := producers } := by
    intro producers hproducers
    simp only [Server.logging, h.queue, h.pushed, hproducers, hstops, hlogger, hlstop, hmain, hwritten]
  rcases h.after with hr | ⟨hr, hstop⟩
  · have hsame : t.producer = s.producer := by
      funext q
      by_cases hq : q = p
      · rw [hq, hr, h.before]
      · exact h.others q hq
    rw [hview _ hsame]
    exact hpush
  · have hupdate : t.producer = Function.update s.producer p .returned := by
      funext q
      by_cases hq : q = p
      · rw [hq, Function.update_self, hr]
      · rw [Function.update_of_ne hq]
        exact h.others q hq
    rw [hview _ hupdate]
    exact hpush.trans (logging_returns h.before hstop)

/-! ### The threads, step by step -/

/-- What a thread has pushed to an unbounded queue is at its end. -/
theorem drop_pushed {q : ThreadSafeQueue String} (hu : q.maxSize = 0) (messages : List String) :
    (messages.foldl ThreadSafeQueue.pushed q).items.drop q.items.length = messages := by
  rw [ThreadSafeQueue.foldl_pushed_unbounded hu, List.drop_left]

theorem listener_running (hc : s.net.control ≠ .finished) : s.producer .listener = .running := by
  unfold Server.producer
  cases h : s.net.control with
  | finished => exact absurd h hc
  | loop | polling | dispatching | accepting | draining | disconnecting => rfl

theorem parser_running (hc : s.pipeline.parserControl ≠ .finished) : s.producer .parser = .running := by
  unfold Server.producer
  cases h : s.pipeline.parserControl with
  | finished => exact absurd h hc
  | test | popping | popped | processing => rfl

theorem logic_running (hc : s.pipeline.logicControl ≠ .finished) : s.producer .logic = .running := by
  unfold Server.producer
  cases h : s.pipeline.logicControl with
  | finished => exact absurd h hc
  | test | popping | popped => rfl

/-- The listener is in its loop, or it has returned and had been stopped. -/
theorem listener_after (s : Server M.Socket) :
    s.producer .listener = .running ∨ (s.producer .listener = .returned ∧ s.net.stopRequested = true) := by
  by_cases hc : s.net.control = .finished
  · cases hs : s.net.stopRequested with
    | true => exact Or.inr ⟨by simp [Server.producer, hc, hs], rfl⟩
    | false => exact Or.inl (by simp [Server.producer, hc, hs])
  · exact Or.inl (listener_running hc)

/-- A step of the listener. -/
theorem listener_moves {n : Net M.Socket} (hc : s.net.control ≠ .finished) (hstop : n.stopRequested = s.net.stopRequested)
    (running : Producer → Bool) (eventCount : Nat) :
    ThreadMoves .listener (n.log.drop s.net.log.length) s
      { s.moveNet n with running := running, eventCount := eventCount } := by
  refine ⟨rfl, rfl, listener_running hc, ?_, ?_, ?_, rfl, rfl, rfl, rfl⟩
  · rw [← show n.stopRequested = s.stop .listener from hstop]
    exact listener_after { s.moveNet n with running := running, eventCount := eventCount }
  · intro q hq
    cases q with
    | listener => exact absurd rfl hq
    | parser | logic => rfl
  · intro q
    cases q with
    | listener => exact hstop
    | parser | logic => rfl

/-- A step of the parser. -/
theorem parser_moves {p : Pipeline} (hstep : PipelineStep native fmt s.pipeline p)
    (hmoves : p.parserControl ≠ s.pipeline.parserControl) (hinv : StopInv p) {messages : List String}
    (hlog : p.log = messages.foldl ThreadSafeQueue.pushed s.pipeline.log) (hu : s.pipeline.log.maxSize = 0) :
    ThreadMoves .parser messages s (s.movePipeline p) := by
  obtain ⟨-, hlogic, hstop, hlstop, -⟩ := hstep.of_parser hmoves
  have hbefore : s.pipeline.parserControl ≠ .finished := by
    intro hf
    rcases hstep.parser_cases hmoves with ⟨hc, -⟩ | ⟨hc, -⟩ | ⟨chunk, hc, -⟩ | ⟨chunk, -, -, hne, -⟩
    · rw [hf] at hc
      cases hc
    · rw [hf] at hc
      cases hc
    · rw [hf] at hc
      cases hc
    · exact hne hf
  refine ⟨hlog, ?_, parser_running hbefore, ?_, ?_, ?_, rfl, rfl, rfl, rfl⟩
  · simp only [Server.movePipeline, hlog, drop_pushed hu]
  · by_cases hc : p.parserControl = .finished
    · refine Or.inr ⟨by simp [Server.producer, Server.movePipeline, hc], ?_⟩
      exact hstop.symm.trans (hinv.parser hc)
    · exact Or.inl (parser_running hc)
  · intro q hq
    cases q with
    | parser => exact absurd rfl hq
    | listener => rfl
    | logic => simp only [Server.producer, Server.movePipeline, hlogic]
  · intro q
    cases q with
    | listener => rfl
    | parser => exact hstop
    | logic => exact hlstop

/-- A step of the logic. -/
theorem logic_moves {p : Pipeline} (hstep : PipelineStep native fmt s.pipeline p)
    (hmoves : p.logicControl ≠ s.pipeline.logicControl) (hinv : StopInv p) {messages : List String}
    (hlog : p.log = messages.foldl ThreadSafeQueue.pushed s.pipeline.log) (hu : s.pipeline.log.maxSize = 0) :
    ThreadMoves .logic messages s (s.movePipeline p) := by
  obtain ⟨-, hparser, hstop, hlstop, -⟩ := hstep.of_logic hmoves
  have hbefore : s.pipeline.logicControl ≠ .finished := by
    intro hf
    rcases hstep.logic_cases hmoves with ⟨hc, -⟩ | ⟨hc, -⟩ | ⟨t, hc, -⟩ | ⟨t, hc, -⟩
    all_goals
      rw [hf] at hc
      cases hc
  refine ⟨hlog, ?_, logic_running hbefore, ?_, ?_, ?_, rfl, rfl, rfl, rfl⟩
  · simp only [Server.movePipeline, hlog, drop_pushed hu]
  · by_cases hc : p.logicControl = .finished
    · refine Or.inr ⟨by simp [Server.producer, Server.movePipeline, hc], ?_⟩
      exact hlstop.symm.trans (hinv.logic hc)
    · exact Or.inl (logic_running hc)
  · intro q hq
    cases q with
    | logic => exact absurd rfl hq
    | listener => rfl
    | parser => simp only [Server.producer, Server.movePipeline, hparser]
  · intro q
    cases q with
    | listener => rfl
    | parser => exact hstop
    | logic => exact hlstop

/-- The parser or the logic begins: its first message. -/
theorem begin_moves {p : Producer} (hrun : s.producer p = .running) (message : String) (pipeline : Pipeline)
    (hlog : pipeline.log = s.pipeline.log.pushed message)
    (hparser : pipeline.parserControl = s.pipeline.parserControl ∧ pipeline.parserStop = s.pipeline.parserStop)
    (hlogic : pipeline.logicControl = s.pipeline.logicControl ∧ pipeline.logicStop = s.pipeline.logicStop)
    (running : Producer → Bool) :
    ThreadMoves p [message] s
      { s with pipeline := pipeline, logPushed := s.logPushed ++ [message], running := running } := by
  have hsame : ∀ q, Server.producer { s with
      pipeline := pipeline, logPushed := s.logPushed ++ [message], running := running } q = s.producer q := by
    intro q
    cases q with
    | listener => rfl
    | parser => simp only [Server.producer, hparser.1]
    | logic => simp only [Server.producer, hlogic.1]
  refine ⟨hlog, rfl, hrun, Or.inl ((hsame p).trans hrun), fun q _ => hsame q, ?_, rfl, rfl, rfl, rfl⟩
  intro q
  cases q with
  | listener => rfl
  | parser => exact hparser.2
  | logic => exact hlogic.2

/-! ### The logger and `main` -/

theorem loggerStep_frame {a b : Logging} (h : LoggerStep a b) : b.producers = a.producers ∧ b.pushed = a.pushed := by
  cases h <;> exact ⟨rfl, rfl⟩

theorem mainStep_frame {a b : Logging} (h : MainStep a b) : b.producers = a.producers ∧ b.pushed = a.pushed := by
  cases h <;> exact ⟨rfl, rfl⟩

/-- What is seen after a move of the logger or of `main`. -/
theorem logging_moveLogging {b : Logging} (hpushed : b.pushed = s.logPushed) (wakePending : Bool) :
    Server.logging { s.moveLogging b with wakePending := wakePending } =
      { b with producers := (s.moveLogging b).producer } := by
  have hstops : Server.stop { s.moveLogging b with wakePending := wakePending } = b.stops := by
    funext q
    cases q with
    | listener | parser | logic => rfl
  rw [Server.logging, hstops, hpushed]
  rfl

/-- The logger is seen to make its step. -/
theorem logging_of_logger {b : Logging} (h : LoggerStep s.logging b) : (s.moveLogging b).logging = b := by
  obtain ⟨hproducers, hpushed⟩ := loggerStep_frame h
  have hstop : b.stops .listener = s.net.stopRequested := by
    rw [loggerStep_stops h]
    rfl
  have hsame : (s.moveLogging b).producer = b.producers := by
    rw [hproducers]
    funext q
    cases q with
    | listener => simp only [Server.producer, Server.moveLogging, hstop, Server.logging]
    | parser | logic => rfl
  have hview := logging_moveLogging hpushed s.wakePending
  rwa [hsame] at hview

/-- A move of `main` is one of the logging system; a listener that has failed is seen to have returned only when it is
stopped. -/
theorem main_refines {b : Logging} (h : MainStep s.logging b) (wakePending : Bool) :
    Relation.ReflTransGen loggingSystem.step s.logging
      (Server.logging { s.moveLogging b with wakePending := wakePending }) := by
  obtain ⟨hproducers, hpushed⟩ := mainStep_frame h
  have hfirst : Relation.ReflTransGen loggingSystem.step s.logging b := .single (Or.inr (Or.inr h))
  rw [logging_moveLogging hpushed]
  have hothers : ∀ q, q ≠ .listener → (s.moveLogging b).producer q = b.producers q := by
    intro q hq
    rw [hproducers]
    cases q with
    | listener => exact absurd rfl hq
    | parser | logic => rfl
  by_cases hl : (s.moveLogging b).producer .listener = b.producers .listener
  · have hsame : (s.moveLogging b).producer = b.producers := by
      funext q
      by_cases hq : q = .listener
      · rw [hq, hl]
      · exact hothers q hq
    rw [hsame]
    exact hfirst
  · -- the listener had left its loop without a stop
    have hbefore : s.producer .listener = .running := by
      rcases listener_after s with hr | ⟨hr, hstop⟩
      · exact hr
      · refine absurd ?_ hl
        have hkept : b.stops .listener = true := mainStep_stop_mono h hstop
        simp only [Server.producer, Server.moveLogging, hkept, hproducers, Server.logging, hstop]
    have hrun : b.producers .listener = .running := by rw [hproducers]; exact hbefore
    rcases listener_after (s.moveLogging b) with hr | ⟨hr, hstop⟩
    · exact absurd (hr.trans hrun.symm) hl
    · have hupdate : (s.moveLogging b).producer = Function.update b.producers .listener .returned := by
        funext q
        by_cases hq : q = .listener
        · rw [hq, hr, Function.update_self]
        · rw [Function.update_of_ne hq]
          exact hothers q hq
      rw [hupdate]
      exact hfirst.trans (logging_returns hrun hstop)

/-- **Each step of the process is a run of the logging system.** -/
theorem step_refines (hinv : ServerInv M native s) (hstops : StopInv s.pipeline) (hu : s.pipeline.log.maxSize = 0)
    {a : Actor} (h : ServerStep M native fmt a s t) : Relation.ReflTransGen loggingSystem.step s.logging t.logging := by
  cases h with
  | kernel => exact .refl
  | wake => exact .refl
  | launch hr port server epoll hout hok =>
    have hc : s.net.control ≠ .finished := by simp [(hinv.unlaunched hr).control]
    exact (listener_moves hc (setup_stopRequested port s.net server epoll) _ _).refines hu
  | listener hr hstep hmoves hready =>
    exact (listener_moves (hstep.control_ne hmoves) (hstep.grows_of_moves hmoves).stop _ _).refines hu
  | startParser hr =>
    have hrun : s.producer .parser = .running := parser_running (by simp [hinv.parserIdle hr])
    exact (begin_moves hrun parserRunningText (s.pipeline.pushLogs [parserRunningText]) rfl ⟨rfl, rfl⟩ ⟨rfl, rfl⟩
      _).refines hu
  | startLogic hr now =>
    have hrun : s.producer .logic = .running := logic_running (by simp [hinv.logicIdle hr])
    exact (begin_moves hrun logicRunningText { s.pipeline.pushLogs [logicRunningText] with
      logic := { s.pipeline.logic with startTime := now, lastReportTime := now } } rfl ⟨rfl, rfl⟩ ⟨rfl, rfl⟩ _).refines hu
  | parser hr hstep hmoves =>
    obtain ⟨messages, hlog, -⟩ := hstep.parser_says hmoves
    exact (parser_moves hstep hmoves (hstops.of_parser hstep hmoves) hlog hu).refines hu
  | logic hr hstep hmoves =>
    obtain ⟨messages, handled, hlog, -⟩ := hstep.logic_says hmoves
    exact (logic_moves hstep hmoves (hstops.of_logic hstep hmoves) hlog hu).refines hu
  | logger hstep =>
    rw [logging_of_logger hstep]
    exact .single (Or.inr (Or.inl hstep))
  | main hstep hcalled => exact main_refines hstep _

/-- **The threads of the server are threads of the logging system.** -/
theorem logging_refines (hs : (serverSystem M native fmt).Reachable s) : loggingSystem.Reachable s.logging := by
  refine hs.simulates (S := serverSystem M native fmt) (T := loggingSystem) ?_ ?_
  · rintro s ⟨n, hn, -, hstop, rfl⟩
    have hproducers : Server.producer { net := n, pipeline := { logic := {} } } = fun _ => .running := by
      funext q
      cases q with
      | listener => exact listener_running (by simp [hn.control])
      | parser | logic => rfl
    have hstops : Server.stop { net := n, pipeline := { logic := {} } } = fun _ => false := by
      funext q
      cases q with
      | listener => exact hstop
      | parser | logic => rfl
    rw [Server.logging, hproducers, hstops]
    exact .init rfl
  · rintro s t hs hl ⟨a, hstep⟩
    exact step_refines (reachable_server hs) (reachable_stops hs) (reachable_logging hl).unbounded hstep

/-! ## The accounts of the log -/

/-- The alerts and the reports of failures that have been pushed so far. -/
structure LogInv (fmt : Format) (s : Server M.Socket) : Prop where
  alerts : s.logPushed.filter BusinessLogic.isAlert = s.pipeline.packetsHandled.flatMap (BusinessLogic.alertsOwed fmt)
  failures : s.pipeline.parser.crcFailures = BitVec.ofNat 64 (s.logPushed.countP reportsFailure)

/-- Messages that are no alerts and report no failure. -/
theorem LogInv.plain (h : LogInv fmt s) (messages : List String) (hpushed : t.logPushed = s.logPushed ++ messages)
    (hplain : ∀ m ∈ messages, BusinessLogic.isAlert m = false ∧ reportsFailure m = false)
    (hhandled : t.pipeline.packetsHandled = s.pipeline.packetsHandled)
    (hfailures : t.pipeline.parser.crcFailures = s.pipeline.parser.crcFailures) : LogInv fmt t := by
  have hnone : messages.filter BusinessLogic.isAlert = [] :=
    List.filter_eq_nil_iff.mpr fun m hm => by simp [(hplain m hm).1]
  have hzero : messages.countP reportsFailure = 0 := List.countP_eq_zero.mpr fun m hm => by simp [(hplain m hm).2]
  refine ⟨?_, ?_⟩
  · rw [hpushed, List.filter_append, hnone, List.append_nil, h.alerts, hhandled]
  · rw [hpushed, List.countP_append, hzero, Nat.add_zero, hfailures, h.failures]

/-- Every step keeps the accounts. -/
theorem LogInv.step (h : LogInv fmt s) (hinv : ServerInv M native s) (hu : s.pipeline.log.maxSize = 0) {a : Actor}
    (hs : ServerStep M native fmt a s t) : LogInv fmt t := by
  cases hs with
  | kernel | wake => exact ⟨h.alerts, h.failures⟩
  | logger | main => exact ⟨h.alerts, h.failures⟩
  | launch hr port server epoll hout hok =>
    have hlog := ((setup_owning port (hinv.unlaunched hr) hout).2 hok).2
    have htag : begins "[NetworkListener]" (listeningText port) = true := by
      delta listeningText
      simp [begins]
    refine h.plain [listeningText port] ?_ (by simpa using listener_message htag) rfl rfl
    simp only [Server.moveNet, hlog, List.drop_left]
  | listener hr hstep hmoves hready =>
    obtain ⟨messages, hlog, htag⟩ := (hstep.grows_of_moves hmoves).log
    refine h.plain messages ?_ (fun m hm => listener_message (htag m hm)) rfl rfl
    simp only [Server.moveNet, hlog, List.drop_left]
  | startParser hr =>
    have htag : begins "[StreamingParser]" parserRunningText = true := by
      delta parserRunningText
      simp [begins]
    have hplain : reportsFailure parserRunningText = false := by
      simp [reportsFailure, parserRunningText, mismatchText, malformedText]
    exact h.plain [parserRunningText] rfl (by simp [parser_message htag, hplain]) rfl rfl
  | startLogic hr now =>
    have htag := BusinessLogic.begins_logicRunningText
    have halert := (BusinessLogic.own_message htag).1
    have hplain := not_reportsFailure (begins_false htag (by simp) (by simp))
    exact h.plain [logicRunningText] rfl (by simp [halert, hplain]) rfl rfl
  | parser hr hstep hmoves =>
    obtain ⟨messages, hlog, htag, hcount⟩ := hstep.parser_says hmoves
    obtain ⟨-, -, -, -, -, hhandled⟩ := hstep.of_parser hmoves
    have hnone : messages.filter BusinessLogic.isAlert = [] :=
      List.filter_eq_nil_iff.mpr fun m hm => by simp [parser_message (htag m hm)]
    refine ⟨?_, ?_⟩
    · simp only [Server.movePipeline, hlog, drop_pushed hu, List.filter_append, hnone, List.append_nil, hhandled]
      exact h.alerts
    · simp only [Server.movePipeline, hlog, drop_pushed hu, List.countP_append, hcount, h.failures, BitVec.ofNat_add]
  | logic hr hstep hmoves =>
    obtain ⟨messages, handled, hlog, htag, hhandled, halerts⟩ := hstep.logic_says hmoves
    obtain ⟨-, -, -, -, hparser, -⟩ := hstep.of_logic hmoves
    have hzero : messages.countP reportsFailure = 0 :=
      List.countP_eq_zero.mpr fun m hm => by simp [not_reportsFailure (htag m hm)]
    refine ⟨?_, ?_⟩
    · simp only [Server.movePipeline, hlog, drop_pushed hu, List.filter_append, halerts, hhandled, List.flatMap_append,
        h.alerts]
    · simp only [Server.movePipeline, hlog, drop_pushed hu, List.countP_append, hzero, Nat.add_zero, hparser]
      exact h.failures

/-- The accounts hold throughout every run. -/
theorem reachable_log (hs : (serverSystem M native fmt).Reachable s) : LogInv fmt s := by
  refine hs.invariant (I := LogInv fmt) ?_ ?_
  · rintro s ⟨n, -, -, -, rfl⟩
    exact ⟨rfl, rfl⟩
  · rintro s t hs h ⟨a, hstep⟩
    exact h.step (reachable_server hs) (reachable_logging (logging_refines hs)).unbounded hstep

/-! ## Main results -/

/-- `main` joins the logger when it has returned. -/
theorem logger_joined {l : Logging} (hl : loggingSystem.Reachable l) : l.main = .finished → l.logger = .returned := by
  refine hl.invariant (I := fun l => l.main = .finished → l.logger = .returned) ?_ ?_
  · rintro l rfl h
    cases h
  · rintro l m - ih (hstep | hstep | hstep) hm
    · cases hstep <;> exact ih hm
    · -- a logger that has returned makes no step
      cases hstep with
      | drained => rfl
      | test h | pop h | stopped h | write h | drain h | drainWrite h =>
        have hr := ih hm
        rw [h] at hr
        cases hr
    · cases hstep with
      | joinLogger h hr => exact hr
      | signal | requestStop | requestStopLogger => cases hm
      | @join p h hr => cases p <;> cases hm

/-- **The log of the process is complete.** In every run of the server, when `main` has joined all threads, each of them
has left its loop, and what the logger has written is every message that any of them has pushed, each once and in the order
of the queue. -/
theorem server_log_complete (M : SocketModel) (native : Endian) (fmt : Format) (s : Server M.Socket)
    (hs : (serverSystem M native fmt).Reachable s) (hf : s.main = .finished) :
    s.written = s.logPushed ∧ s.pipeline.log.items = [] ∧ s.net.control = .finished ∧
    s.pipeline.parserControl = .finished ∧ s.pipeline.logicControl = .finished := by
  have hl := logging_refines hs
  have h := reachable_logging hl
  have hreturned : s.logger = .returned := logger_joined hl hf
  have hempty : s.pipeline.log.items = [] := h.emptied hreturned
  have hconserved : s.written ++ s.logger.inHand ++ s.pipeline.log.items = s.logPushed := h.conserved
  have hjoined : ∀ p, s.producer p = .returned := fun p =>
    h.joined p (by rw [show s.logging.main = .finished from hf]; trivial)
  refine ⟨?_, hempty, ?_, ?_, ?_⟩
  · rw [hreturned, hempty] at hconserved
    simpa [LoggerControl.inHand] using hconserved
  · by_contra hc
    exact absurd ((listener_running hc).symm.trans (hjoined .listener)) (by simp)
  · by_contra hc
    exact absurd ((parser_running hc).symm.trans (hjoined .parser)) (by simp)
  · by_contra hc
    exact absurd ((logic_running hc).symm.trans (hjoined .logic)) (by simp)

/-! ### A shutdown -/

/-- The parser and the logic have handled nothing in between. -/
structure Pipeline.Keeps (p q : Pipeline) : Prop where
  raw : q.raw = p.raw
  parsed : q.parsed = p.parsed
  parser : q.parser = p.parser
  logic : q.logic = p.logic
  handled : q.packetsHandled = p.packetsHandled

theorem Pipeline.Keeps.trans {p q r : Pipeline} (h : p.Keeps q) (h' : q.Keeps r) : p.Keeps r :=
  ⟨h'.raw.trans h.raw, h'.parsed.trans h.parsed, h'.parser.trans h.parser, h'.logic.trans h.logic,
    h'.handled.trans h.handled⟩

/-- They have not moved. -/
structure Pipeline.Rests (p q : Pipeline) : Prop extends p.Keeps q where
  parserControl : q.parserControl = p.parserControl
  logicControl : q.logicControl = p.logicControl

theorem Pipeline.Rests.trans {p q r : Pipeline} (h : p.Rests q) (h' : q.Rests r) : p.Rests r :=
  ⟨h.toKeeps.trans h'.toKeeps, h'.parserControl.trans h.parserControl, h'.logicControl.trans h.logicControl⟩

/-- The parser leaves its loop when it is stopped and has nothing to do. -/
theorem parser_leaves (native : Endian) (fmt : Format) {p : Pipeline}
    (hc : p.parserControl = .test ∨ p.parserControl = .popping) (hraw : p.raw.items = []) (hstop : p.parserStop = true) :
    PipelineStep native fmt p
      { p.pushLogs [parserShutdownText p.parser.crcFailures] with parserControl := .finished } := by
  rcases hc with hc | hc
  · have hstep := @PipelineStep.parserTest native fmt _ hc
    rwa [if_pos hstop] at hstep
  · have hpop : p.raw.pop p.parserStop = some (p.raw, none) := by simp [ThreadSafeQueue.pop, hraw, hstop]
    exact .parserPopStopped hc hpop

/-- So does the logic. -/
theorem logic_leaves (native : Endian) (fmt : Format) {p : Pipeline}
    (hc : p.logicControl = .test ∨ p.logicControl = .popping) (hparsed : p.parsed.items = []) (hstop : p.logicStop = true) :
    PipelineStep native fmt p { p.pushLogs [logicShutdownText fmt p.logic 0] with logicControl := .finished } := by
  rcases hc with hc | hc
  · have hstep := @PipelineStep.logicTest native fmt _ hc 0
    rwa [if_pos hstop] at hstep
  · have hpop : p.parsed.pop p.logicStop = some (p.parsed, none) := by simp [ThreadSafeQueue.pop, hparsed, hstop]
    exact .logicPopStopped hc 0 hpop

/-- The listener has returned, and nobody will wake it any more. -/
structure Server.ListenerOver (s : Server M.Socket) : Prop where
  stopped : s.net.stopRequested = true
  called : s.wakePending = false

/-- A step of `main` when the listener has returned. -/
theorem Server.ListenerOver.main (native : Endian) (fmt : Format) (h : s.ListenerOver) {b : Logging}
    (hb : MainStep s.logging b) (hkept : b.stops .listener = true) :
    ∃ t, (serverSystem M native fmt).step s t ∧ t.ListenerOver ∧ t.main = b.main ∧ t.loggerStop = b.loggerStop ∧
      t.running = s.running ∧ t.stop = b.stops ∧ s.pipeline.Rests t.pipeline := by
  refine ⟨_, ⟨_, .main hb h.called⟩, ⟨hkept, by simp [h.stopped]⟩, rfl, rfl, rfl, ?_, ⟨⟨rfl, rfl, rfl, rfl, rfl⟩, rfl, rfl⟩⟩
  funext p
  cases p <;> rfl

/-- The listener moves without a chunk. -/
theorem exists_listenerStep (native : Endian) (fmt : Format) (hr : s.running .listener = true) {n : Net M.Socket}
    (hstep : ListenerStep M s.net n) (hmoves : n.control ≠ s.net.control) (hready : EventReady s n)
    (hqueue : n.queue = s.net.queue) :
    ∃ t, (serverSystem M native fmt).step s t ∧ t.net = n ∧ t.main = s.main ∧ t.wakePending = s.wakePending ∧
      t.running = s.running ∧ s.pipeline.Rests t.pipeline := by
  refine ⟨_, ⟨_, .listener hr hstep (Or.inl hmoves) hready⟩, rfl, rfl, rfl, rfl, ⟨⟨?_, rfl, rfl, rfl, rfl⟩, rfl, rfl⟩⟩
  simp [Server.moveNet, Pipeline.receive, Pipeline.pushLogs, hqueue]

/-- The event loop, when it waits for events, is stopped, woken and joined. -/
theorem exists_listenerOver (native : Endian) (fmt : Format) (hr : s.running .listener = true)
    (hmain : s.main = .stopping .listener) (hwake : s.wakePending = false) (hc : s.net.control = .polling)
    (hstop : s.net.stopRequested = false) (hwatched : s.net.listener.eventFd.fd ∈ s.net.kernel.interest) :
    ∃ t, Relation.ReflTransGen (serverSystem M native fmt).step s t ∧ t.ListenerOver ∧ t.main = .stopping .parser ∧
      t.running = s.running ∧ s.pipeline.Rests t.pipeline := by
  -- `main` sets the flag, and the callback writes to the eventfd
  obtain ⟨s₁, h₁, hmain₁, hwake₁, hrun₁, hnet₁, hpipe₁⟩ : ∃ s₁, (serverSystem M native fmt).step s s₁ ∧
      s₁.main = .joining .listener ∧ s₁.wakePending = true ∧ s₁.running = s.running ∧
      s₁.net = { s.net with stopRequested := true } ∧ s₁.pipeline = s.pipeline :=
    ⟨_, ⟨_, .main (.requestStop hmain) hwake⟩, rfl, by simp [hr, hstop], rfl, rfl, rfl⟩
  have h₂ : (serverSystem M native fmt).step s₁ s₁.wake := ⟨_, .wake hwake₁⟩
  have hr₁ : s₁.wake.running .listener = true := hrun₁ ▸ hr
  -- the event loop receives the event
  let event : EpollEvent := ⟨s.net.listener.eventFd.fd, EPOLLIN⟩
  have hpoll : ListenerStep M s₁.wake.net (s₁.net.goto (.dispatching [event])) := by
    refine .poll (by simp [Server.wake, hnet₁, hc]) (by simp [MAX_EPOLL_EVENTS]) (by simp) fun e he => ?_
    rw [List.mem_singleton.mp he]
    simpa [Server.wake, hnet₁] using hwatched
  obtain ⟨s₃, h₃, hnet₃, hmain₃, hwake₃, hrun₃, hrests₃⟩ := exists_listenerStep native fmt hr₁ hpoll
    (by simp [Server.wake, hnet₁, hc, Net.goto]) (fun _ _ _ _ => Nat.succ_pos _) rfl
  have hcontrol₃ : s₃.net.control = .dispatching [event] := by rw [hnet₃]; rfl
  -- and leaves its loop
  have hdispatch : ListenerStep M s₃.net
      ((s₃.net.pushLog "[NetworkListener] Shutdown event received. Shutting down...\n").goto .finished) := by
    have hstep : ListenerStep M s₃.net (dispatch s₃.net event []) := .dispatch hcontrol₃
    rwa [dispatch, if_pos (by rw [hnet₃, hnet₁]; rfl)] at hstep
  obtain ⟨s₄, h₄, hnet₄, hmain₄, hwake₄, hrun₄, hrests₄⟩ := exists_listenerStep native fmt (hrun₃ ▸ hr₁)
    hdispatch (by simp [hcontrol₃, Net.goto]) (fun hp => by simp [hcontrol₃] at hp) rfl
  have hstopped : s₄.net.stopRequested = true := by
    simp [hnet₄, hnet₃, hnet₁, Net.goto, Net.pushLog]
  have hcontrol₄ : s₄.net.control = .finished := by rw [hnet₄]; rfl
  have hreturned : s₄.producer .listener = .returned := by simp [Server.producer, hstopped, hcontrol₄]
  have hover : s₄.ListenerOver := ⟨hstopped, hwake₄.trans hwake₃⟩
  obtain ⟨t, h₅, ht, htmain, -, htrun, -, hrests⟩ :=
    hover.main native fmt (.join ((hmain₄.trans hmain₃).trans hmain₁) hreturned) hstopped
  rw [← hpipe₁]
  exact ⟨t, ((((Relation.ReflTransGen.single h₁).tail h₂).tail h₃).tail h₄).tail h₅, ht, htmain,
    htrun.trans (hrun₄.trans (hrun₃.trans hrun₁)), (hrests₃.trans hrests₄).trans hrests⟩

/-- The parser is stopped and joined. -/
theorem Server.ListenerOver.joins_parser (native : Endian) (fmt : Format) (h : s.ListenerOver)
    (hmain : s.main = .stopping .parser) (hr : s.running .parser = true)
    (hc : s.pipeline.parserControl = .test ∨ s.pipeline.parserControl = .popping) (hraw : s.pipeline.raw.items = []) :
    ∃ t, Relation.ReflTransGen (serverSystem M native fmt).step s t ∧ t.ListenerOver ∧ t.main = .stopping .logic ∧
      t.running = s.running ∧ s.pipeline.Keeps t.pipeline ∧ t.pipeline.logicControl = s.pipeline.logicControl := by
  obtain ⟨s₁, h₁, hover₁, hmain₁, -, hrun₁, hstop₁, hrests₁⟩ := h.main native fmt (.requestStop hmain) h.stopped
  have hleaves := @parser_leaves native fmt s₁.pipeline (hrests₁.parserControl ▸ hc) (hrests₁.raw ▸ hraw)
    (congrFun hstop₁ .parser)
  obtain ⟨s₂, h₂, hover₂, hmain₂, hrun₂, hcontrol₂, hkeeps₂, hlogic₂⟩ : ∃ s₂, (serverSystem M native fmt).step s₁ s₂ ∧
      s₂.ListenerOver ∧ s₂.main = s₁.main ∧ s₂.running = s₁.running ∧ s₂.pipeline.parserControl = .finished ∧
      s₁.pipeline.Keeps s₂.pipeline ∧ s₂.pipeline.logicControl = s₁.pipeline.logicControl := by
    refine ⟨_, ⟨_, .parser (hrun₁ ▸ hr) hleaves ?_⟩, ⟨hover₁.stopped, hover₁.called⟩, rfl, rfl, rfl,
      ⟨rfl, rfl, rfl, rfl, rfl⟩, rfl⟩
    rw [hrests₁.parserControl]
    rcases hc with hc | hc <;> simp [hc]
  have hreturned : s₂.producer .parser = .returned := by simp [Server.producer, hcontrol₂]
  obtain ⟨t, h₃, ht, htmain, -, htrun, -, hrests⟩ :=
    hover₂.main native fmt (.join (hmain₂.trans hmain₁) hreturned) hover₂.stopped
  exact ⟨t, ((Relation.ReflTransGen.single h₁).tail h₂).tail h₃, ht, htmain, htrun.trans (hrun₂.trans hrun₁),
    (hrests₁.toKeeps.trans hkeeps₂).trans hrests.toKeeps,
    hrests.logicControl.trans (hlogic₂.trans hrests₁.logicControl)⟩

/-- The logic is stopped and joined. -/
theorem Server.ListenerOver.joins_logic (native : Endian) (fmt : Format) (h : s.ListenerOver)
    (hmain : s.main = .stopping .logic) (hr : s.running .logic = true)
    (hc : s.pipeline.logicControl = .test ∨ s.pipeline.logicControl = .popping) (hparsed : s.pipeline.parsed.items = []) :
    ∃ t, Relation.ReflTransGen (serverSystem M native fmt).step s t ∧ t.ListenerOver ∧ t.main = .stoppingLogger ∧
      s.pipeline.Keeps t.pipeline := by
  obtain ⟨s₁, h₁, hover₁, hmain₁, -, hrun₁, hstop₁, hrests₁⟩ := h.main native fmt (.requestStop hmain) h.stopped
  have hleaves := @logic_leaves native fmt s₁.pipeline (hrests₁.logicControl ▸ hc) (hrests₁.parsed ▸ hparsed)
    (congrFun hstop₁ .logic)
  obtain ⟨s₂, h₂, hover₂, hmain₂, hcontrol₂, hkeeps₂⟩ : ∃ s₂, (serverSystem M native fmt).step s₁ s₂ ∧
      s₂.ListenerOver ∧ s₂.main = s₁.main ∧ s₂.pipeline.logicControl = .finished ∧ s₁.pipeline.Keeps s₂.pipeline := by
    refine ⟨_, ⟨_, .logic (hrun₁ ▸ hr) hleaves ?_⟩, ⟨hover₁.stopped, hover₁.called⟩, rfl, rfl, ⟨rfl, rfl, rfl, rfl, rfl⟩⟩
    rw [hrests₁.logicControl]
    rcases hc with hc | hc <;> simp [hc]
  have hreturned : s₂.producer .logic = .returned := by simp [Server.producer, hcontrol₂]
  obtain ⟨t, h₃, ht, htmain, -, -, -, hrests⟩ :=
    hover₂.main native fmt (.join (hmain₂.trans hmain₁) hreturned) hover₂.stopped
  exact ⟨t, ((Relation.ReflTransGen.single h₁).tail h₂).tail h₃, ht, htmain,
    (hrests₁.toKeeps.trans hkeeps₂).trans hrests.toKeeps⟩

/-- A run of the logger alone. -/
theorem exists_loggerRun (native : Endian) (fmt : Format) {b : Logging}
    (h : Relation.ReflTransGen LoggerStep s.logging b) :
    ∃ t, Relation.ReflTransGen (serverSystem M native fmt).step s t ∧ t.logging = b ∧ t.main = s.main ∧
      t.wakePending = s.wakePending ∧ t.net.stopRequested = s.net.stopRequested ∧ s.pipeline.Keeps t.pipeline := by
  induction h with
  | refl => exact ⟨s, .refl, rfl, rfl, rfl, rfl, ⟨rfl, rfl, rfl, rfl, rfl⟩⟩
  | tail _ hstep ih =>
    obtain ⟨t, hrun, rfl, hmain, hwake, hstop, hkeeps⟩ := ih
    refine ⟨_, hrun.tail ⟨_, .logger hstep⟩, logging_of_logger hstep, ?_, hwake, ?_,
      hkeeps.trans ⟨rfl, rfl, rfl, rfl, rfl⟩⟩
    · cases hstep <;> exact hmain
    · refine Eq.trans ?_ hstop
      show _ = t.logging.stops .listener
      rw [← loggerStep_stops hstep]
      rfl

/-- The logger is stopped, empties its queue and is joined. -/
theorem Server.ListenerOver.joins_logger (native : Endian) (fmt : Format) (h : s.ListenerOver)
    (hmain : s.main = .stoppingLogger) :
    ∃ t, Relation.ReflTransGen (serverSystem M native fmt).step s t ∧ t.main = .finished ∧ t.wakePending = false ∧
      s.pipeline.Keeps t.pipeline := by
  obtain ⟨s₁, h₁, hover₁, hmain₁, hstop₁, -, -, hrests₁⟩ := h.main native fmt (.requestStopLogger hmain) h.stopped
  obtain ⟨b, hb, hreturned⟩ := logger_returns s₁.logging hstop₁
  obtain ⟨s₂, hrun, rfl, hmain₂, hwake₂, hstop₂, hkeeps₂⟩ := exists_loggerRun native fmt hb
  have hover₂ : s₂.ListenerOver := ⟨hstop₂.trans hover₁.stopped, hwake₂.trans hover₁.called⟩
  obtain ⟨t, h₃, ht, htmain, -, -, -, hrests⟩ :=
    hover₂.main native fmt (.joinLogger (hmain₂.trans hmain₁) hreturned) hover₂.stopped
  exact ⟨t, ((Relation.ReflTransGen.single h₁).trans hrun).tail h₃, htmain, ht.called,
    (hrests₁.toKeeps.trans hkeeps₂).trans hrests.toKeeps⟩

/-- A frame with the right checksum, whose payload is too short. -/
def malformedFrame : List Byte := frameWith [0x00] (frameCrc [0x00])

/-- The scan of a malformed frame and a packet. -/
theorem frameScan_malformed (native : Endian) :
    emitted (frameScan native (malformedFrame ++ packetBytes [oneRecord])).1 = [oneRecord.toTelemetry] ∧
      failed (frameScan native (malformedFrame ++ packetBytes [oneRecord])).1 = 1 := by
  obtain ⟨he, hf, -⟩ := frameScan_packetBytes native oneRecord_fits
  have hnone : deserializePayload native [0x00] 1 = none := by cases native <;> decide
  rw [malformedFrame, frameScan_frameWith native [0x00] _ (by decide) (by decide)]
  refine ⟨?_, ?_⟩
  · rw [emitted, List.filterMap_cons, ← emitted, he, List.length_singleton, hnone]
    rfl
  · rw [failed, List.countP_cons_of_pos (by rw [List.length_singleton, hnone]; rfl), ← failed, hf]

/-- A parser that has caught up and has not been stopped is in its `pop`, or on the way to it. -/
theorem parser_idle (hs : (serverSystem M native fmt).Reachable s) (hu : s.Unstopped) (hidle : CaughtUp s) :
    s.pipeline.parserControl = .test ∨ s.pipeline.parserControl = .popping := by
  have hchunks := hidle.parser
  have hstop := (reachable_stops hs).parser
  cases hc : s.pipeline.parserControl with
  | test => exact Or.inl rfl
  | popping => exact Or.inr rfl
  | popped chunk | processing chunk cs =>
    rw [hc] at hchunks
    cases hchunks
  | finished => exact absurd (hstop hc) (by simp [hu.stops.1])

/-- So is the logic, when it has handled what the parser has pushed. -/
theorem logic_idle (hs : (serverSystem M native fmt).Reachable s) (hu : s.Unstopped)
    (hall : s.pipeline.packetsHandled = s.pipeline.parsedPushed) :
    (s.pipeline.logicControl = .test ∨ s.pipeline.logicControl = .popping) ∧ s.pipeline.parsed.items = [] := by
  have hstop := (reachable_stops hs).logic
  have hparsed := (reachable_server hs).pipeline.parsed
  rw [← hall, List.append_assoc, List.self_eq_append_right, List.append_eq_nil_iff] at hparsed
  refine ⟨?_, hparsed.2⟩
  cases hc : s.pipeline.logicControl with
  | test => exact Or.inl rfl
  | popping => exact Or.inr rfl
  | popped packet =>
    rw [hc] at hparsed
    cases hparsed.1
  | finished => exact absurd (hstop hc) (by simp [hu.stops.2])

/-- From a state in which all threads wait and the signal has come, `main` can join them all, and nothing more is handled. -/
theorem exists_joined (hs : (serverSystem M native fmt).Reachable s) (hmain : s.main = .stopping .listener)
    (hwake : s.wakePending = false) (hc : s.net.control = .polling) (hstop : s.net.stopRequested = false)
    (hwatched : s.net.listener.eventFd.fd ∈ s.net.kernel.interest) (hu : s.Unstopped) (hidle : CaughtUp s)
    (hall : s.pipeline.packetsHandled = s.pipeline.parsedPushed) :
    ∃ t, Relation.ReflTransGen (serverSystem M native fmt).step s t ∧ t.main = .finished ∧ t.wakePending = false ∧
      s.pipeline.Keeps t.pipeline := by
  have hlistener : s.running .listener = true := by
    by_contra hr
    have hloop := ((reachable_server hs).unlaunched (Bool.eq_false_of_not_eq_true hr)).control
    rw [hc] at hloop
    cases hloop
  obtain ⟨hlogic, hparsed⟩ := logic_idle hs hu hall
  obtain ⟨t₁, hrun₁, hover₁, hmain₁, hr₁, hrests₁⟩ :=
    exists_listenerOver native fmt hlistener hmain hwake hc hstop hwatched
  obtain ⟨t₂, hrun₂, hover₂, hmain₂, hr₂, hkeeps₂, hlogic₂⟩ := hover₁.joins_parser native fmt hmain₁
    (hr₁ ▸ hu.running.1) (hrests₁.parserControl ▸ parser_idle hs hu hidle) (hrests₁.raw ▸ hidle.raw)
  have hkeeps := hrests₁.toKeeps.trans hkeeps₂
  obtain ⟨t₃, hrun₃, hover₃, hmain₃, hkeeps₃⟩ := hover₂.joins_logic native fmt hmain₂
    (by rw [hr₂, hr₁]; exact hu.running.2) (by rw [hlogic₂, hrests₁.logicControl]; exact hlogic) (hkeeps.parsed ▸ hparsed)
  obtain ⟨t, hrun₄, hmain₄, hwake₄, hkeeps₄⟩ := hover₃.joins_logger native fmt hmain₃
  exact ⟨t, ((hrun₁.trans hrun₂).trans hrun₃).trans hrun₄, hmain₄, hwake₄, (hkeeps.trans hkeeps₃).trans hkeeps₄⟩

/-- A run in which the signal comes when a client is connected, after a malformed frame and a packet of it have been
handled. -/
theorem exists_shutdown : ∃ s t, (serverSystem receiveBuffers .little blankFormat).Reachable s ∧
    s.main = .stopping .listener ∧
    s.net.kernel.sessions = [⟨7, true, false, [malformedFrame ++ packetBytes [oneRecord]]⟩] ∧
    Relation.ReflTransGen (serverSystem receiveBuffers .little blankFormat).step s t ∧ t.main = .finished ∧
    t.wakePending = false ∧ t.pipeline.packetsHandled = [oneRecord.toTelemetry] ∧ t.pipeline.parser.crcFailures = 1 := by
  have hlen : (malformedFrame ++ packetBytes [oneRecord]).length = 57 := by
    simp [malformedFrame, length_frameWith, length_onePacket]
  have hne : malformedFrame ++ packetBytes [oneRecord] ≠ [] := by simp [onePacket_ne]
  obtain ⟨s₀, hs₀, hu₀, hmain₀, hidle₀, hnet₀, hall₀, hhandled, hfailures⟩ :=
    exists_handled .little blankFormat hne (by simp [hlen, RECV_BUF_SIZE])
  -- no callback is pending
  obtain ⟨s₁, hs₁, hwake₁, hmain₁, hrun₁, hnet₁, hpipe₁⟩ : ∃ s₁,
      (serverSystem receiveBuffers .little blankFormat).Reachable s₁ ∧ s₁.wakePending = false ∧ s₁.main = .waiting ∧
      s₁.running = s₀.running ∧ s₁.net = s₀.net ∧ s₁.pipeline = s₀.pipeline := by
    cases hw : s₀.wakePending with
    | true => exact ⟨_, hs₀.step ⟨_, .wake hw⟩, rfl, hmain₀, rfl, rfl, rfl⟩
    | false => exact ⟨s₀, hs₀, hw, hmain₀, rfl, rfl, rfl⟩
  have hstop₁ : s₁.net.stopRequested = false := by rw [hnet₁, hnet₀]; rfl
  obtain ⟨s, hs, hmain, hwake, hrun, hnet, hpipe⟩ : ∃ s, (serverSystem receiveBuffers .little blankFormat).Reachable s ∧
      s.main = .stopping .listener ∧ s.wakePending = false ∧ s.running = s₀.running ∧
      s.net = (readNet (malformedFrame ++ packetBytes [oneRecord])).goto .polling ∧ s.pipeline = s₀.pipeline :=
    ⟨_, hs₁.step ⟨_, .main (.signal hmain₁) hwake₁⟩, rfl, by simp [Server.logging, Server.stop, hstop₁], hrun₁,
      hnet₁.trans hnet₀, hpipe₁⟩
  have hwatched : s.net.listener.eventFd.fd ∈ s.net.kernel.interest := by
    rw [hnet]
    exact (by decide : (5 : Int) ∈ insert 7 launchedNet.kernel.interest)
  obtain ⟨t, ht, hf, hcalled, hkeeps⟩ := exists_joined hs hmain hwake (by rw [hnet]; rfl) (by rw [hnet]; rfl) hwatched
    ⟨hrun ▸ hu₀.running, hpipe ▸ hu₀.stops⟩ ⟨hpipe ▸ hidle₀.raw, hpipe ▸ hidle₀.parser⟩ (hpipe ▸ hall₀)
  obtain ⟨hemitted, hfailed⟩ := frameScan_malformed .little
  refine ⟨s, t, hs, hmain, by rw [hnet]; rfl, ht, hf, hcalled, ?_, ?_⟩
  · rw [hkeeps.handled, hpipe, hhandled, hemitted]
  · rw [hkeeps.parser, hpipe, hfailures, hfailed]
    rfl

/-- The log of that run. -/
theorem server_log_complete_one :
    ∃ s, (serverSystem receiveBuffers .little blankFormat).Reachable s ∧ s.main = .finished ∧ s.written = s.logPushed := by
  obtain ⟨s, t, hs, -, -, hrun, hf, -⟩ := exists_shutdown
  have ht := hs.runs hrun
  exact ⟨t, ht, hf, (server_log_complete receiveBuffers .little blankFormat t ht hf).1⟩

/-- **The accounts of the log.** In every run of the server, between any two steps (iterations of `process_client`, packets
of the logic): what has been written is the beginning of what has been pushed; the alerts among the messages pushed are
those that the packets handled so far are owed, each once and in the order of the packets, and no thread has pushed another
one; and a checksum mismatch or a malformed payload has been reported as often as the parser has counted a failure, in its
64 bits. -/
theorem log_accounts (M : SocketModel) (native : Endian) (fmt : Format) (s : Server M.Socket)
    (hs : (serverSystem M native fmt).Reachable s) :
    s.written <+: s.logPushed ∧
    s.logPushed.filter BusinessLogic.isAlert = s.pipeline.packetsHandled.flatMap (BusinessLogic.alertsOwed fmt) ∧
    s.pipeline.parser.crcFailures = BitVec.ofNat 64 (s.logPushed.countP reportsFailure) := by
  have hconserved : s.written ++ s.logger.inHand ++ s.pipeline.log.items = s.logPushed :=
    (reachable_logging (logging_refines hs)).conserved
  refine ⟨?_, (reachable_log hs).alerts, (reachable_log hs).failures⟩
  rw [← hconserved, List.append_assoc]
  exact List.prefix_append _ _

/-- A drone at 200 metres has been seen. -/
theorem log_accounts_alert :
    let record := { oneRecord with alt := 0x4069000000000000 }
    ∃ s, (serverSystem receiveBuffers .little blankFormat).Reachable s ∧
      s.logPushed.filter BusinessLogic.isAlert = [BusinessLogic.altitudeAlert blankFormat record.toTelemetry] := by
  intro record
  have hfit : ∀ r ∈ [record], r.Fits := by
    intro r hr
    rw [List.mem_singleton.mp hr]
    exact oneRecord_fits oneRecord (by simp)
  have hlen : (packetBytes [record]).length = 50 := by
    simp [packetBytes, length_encodePayload, Record.toTelemetry, record, oneRecord]
  have hne : packetBytes [record] ≠ [] := by
    intro h
    rw [h] at hlen
    cases hlen
  obtain ⟨s, hs, -, -, hhandled⟩ := exists_delivered .little blankFormat hfit hne (by simp [hlen, RECV_BUF_SIZE])
  refine ⟨s, hs, ?_⟩
  have hhigh : doubleGt record.toTelemetry.altitude ALTITUDE_THRESHOLD = true := by decide
  have hslow : doubleGt record.toTelemetry.speed SPEED_THRESHOLD = false := by decide
  rw [(log_accounts receiveBuffers .little blankFormat s hs).2.1, hhandled]
  simp only [List.map_cons, List.map_nil, List.flatMap_cons, List.flatMap_nil, BusinessLogic.alertsOwed, hhigh, hslow]
  rfl

end Refinement

end CounterDrone

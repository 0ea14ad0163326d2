import Mathlib
import CounterDrone.Shutdown

/-!
# The summaries at the end of the log

When the parser and the logic leave their loops they log a summary: how many failures the parser has counted, how many
packets and drones the logic has seen. Nobody else's message looks like one, and each thread logs it once, in its last step,
when its counters have their last values (`SummaryInv`). So the messages that the logger has written when the process ends
are consistent in themselves: one of them is the summary of the parser, whose number is the number of those that report a
failure, and one is the summary of the logic, whose numbers are those of the packets that it has handled
(`summaries_true`). This is about messages, as the threads push them and the logger writes them, and not about the lines of
the output: a drone id may hold any bytes, a line break among them, and an alert writes it as it is.
-/

namespace CounterDrone

/-- The summary of the parser. -/
def isParserSummary (message : String) : Bool := begins "[StreamingParser] Shutting down" message

/-- The summary of the logic. -/
def isLogicSummary (message : String) : Bool := begins "[BusinessLogic] Shutting down" message

/-! ## Messages that are no summaries -/

/-- What begins with more begins with less. -/
theorem begins_shorter {tag tag' message : String} (hp : tag'.toList <+: tag.toList) (h : begins tag message = true) :
    begins tag' message = true :=
  List.isPrefixOf_iff_prefix.mpr (hp.trans (List.isPrefixOf_iff_prefix.mp h))

/-- Only messages of the parser are its summary. -/
theorem not_parserSummary {message : String} (h : begins "[StreamingParser]" message = false) :
    isParserSummary message = false := by
  by_contra hs
  have htag : begins "[StreamingParser]" message = true := begins_shorter (by simp) (Bool.eq_true_of_not_eq_false hs)
  rw [h] at htag
  cases htag

/-- Only messages of the logic are its summary. -/
theorem not_logicSummary {message : String} (h : begins "[BusinessLogic]" message = false) :
    isLogicSummary message = false := by
  by_contra hs
  have htag : begins "[BusinessLogic]" message = true := begins_shorter (by simp) (Bool.eq_true_of_not_eq_false hs)
  rw [h] at htag
  cases htag

theorem listener_no_summary {message : String} (h : begins "[NetworkListener]" message = true) :
    isParserSummary message = false ∧ isLogicSummary message = false :=
  ⟨not_parserSummary (begins_false h (by simp) (by simp)), not_logicSummary (begins_false h (by simp) (by simp))⟩

theorem parser_no_summary {message : String} (h : begins "[StreamingParser]" message = true) :
    isLogicSummary message = false := not_logicSummary (begins_false h (by simp) (by simp))

/-- The texts of the parser. -/
theorem parserSummary_texts : (∀ n, isParserSummary (parserShutdownText n) = true) ∧
    isParserSummary parserRunningText = false ∧ isParserSummary mismatchText = false ∧
    isParserSummary malformedText = false ∧ (∀ id, isParserSummary (cleanedUpText id) = false) ∧
    ∀ wanted free id, isParserSummary (overflowDropText (RingBuffer.overflowText wanted free) id) = false := by
  refine ⟨fun n => ?_, ?_, ?_, ?_, fun id => ?_, fun wanted free id => ?_⟩
  all_goals
    delta isParserSummary parserShutdownText parserRunningText mismatchText malformedText cleanedUpText overflowDropText
      RingBuffer.overflowText
    simp [begins, List.isPrefixOf]

/-- The texts of the logic. -/
theorem logicSummary_texts (fmt : Format) (b : BusinessLogic) (now : Int) :
    isLogicSummary (logicShutdownText fmt b now) = true ∧ isLogicSummary logicRunningText = false ∧
    ∀ telemetry, ∀ m ∈ (b.handleTelemetry fmt telemetry now).2, isLogicSummary m = false := by
  refine ⟨?_, ?_, ?_⟩
  · delta isLogicSummary logicShutdownText
    simp [begins]
  · delta isLogicSummary logicRunningText
    simp [begins, List.isPrefixOf]
  · intro telemetry m hm
    rcases BusinessLogic.handleTelemetry_tags hm with halert | hreport
    · exact not_logicSummary (@begins_false "[ALERT]" _ _ halert (by simp) (by simp))
    · exact not_logicSummary (@begins_false "[Throughput]" _ _ hreport (by simp) (by simp))

/-! ## The last step of a thread -/

/-- What the parser has logged as its summary: it is at its end, or it has logged none. -/
def ParserControl.summary (failures : BitVec 64) : ParserControl → List String
  | finished => [parserShutdownText failures]
  | _ => []

/-- What the logic has logged as its summary, at some clock reading. -/
def LogicControl.Summary (fmt : Format) (b : BusinessLogic) (messages : List String) : LogicControl → Prop
  | finished => ∃ now, messages = [logicShutdownText fmt b now]
  | _ => messages = []

section Pipeline

variable {native : Endian} {fmt : Format} {s p : Pipeline}

/-- Nothing in an iteration is a summary. -/
theorem iteration_no_summary {cs cs' : ClientState} {effects : List Effect} (h : GoesOn native cs effects cs') :
    (logged effects).filter isParserSummary = [] := by
  obtain ⟨-, -, hmismatch, hmalformed, -, -⟩ := parserSummary_texts
  have ho := processIteration_outcome native cs
  rw [h] at ho
  cases ho with
  | headerSkip | headerFound | lengthBad | lengthGood => rfl
  | crcMismatch => simp [logged, hmismatch]
  | frame =>
    cases deserializePayload native ((cs.unread.drop 4).take cs.payloadLength.toNat) cs.payloadLength.toNat with
    | none => simp [frameEffects, logged, hmalformed]
    | some telemetry => simp [frameEffects, logged]

/-- **The parser logs its summary in its last step**, with the count that it then has. -/
theorem PipelineStep.parser_summary (h : PipelineStep native fmt s p) (hmoves : p.parserControl ≠ s.parserControl) :
    ∃ messages : List String, p.log = messages.foldl ThreadSafeQueue.pushed s.log ∧
      (∀ n, s.parserControl.summary n = []) ∧
      messages.filter isParserSummary = p.parserControl.summary p.parser.crcFailures := by
  obtain ⟨hshutdown, -, -, -, hcleaned, hoverflow⟩ := parserSummary_texts
  cases h with
  | listenerPush | stopParser | stopLogic => exact absurd rfl hmoves
  | parserTest hc =>
    rw [hc]
    split
    · exact ⟨[parserShutdownText s.parser.crcFailures], rfl, fun _ => rfl, by
        simp [hshutdown, ParserControl.summary, Pipeline.pushLogs]⟩
    · exact ⟨[], rfl, fun _ => rfl, rfl⟩
  | parserPop hc =>
    rw [hc]
    exact ⟨[], rfl, fun _ => rfl, rfl⟩
  | parserPopStopped hc =>
    rw [hc]
    exact ⟨[parserShutdownText s.parser.crcFailures], rfl, fun _ => rfl, by
      simp [hshutdown, ParserControl.summary, Pipeline.pushLogs]⟩
  | @parserBegin chunk hc =>
    rw [hc]
    refine ⟨logged (beginChunk s.parser chunk).effects, rfl, fun _ => rfl, ?_⟩
    simp only [Pipeline.moveParser]
    unfold beginChunk
    split
    · simp [logged, hcleaned, ParserControl.summary]
    · simp only
      split
      · rename_i e he
        obtain ⟨wanted, free, hwhat⟩ := push_error_what he
        rw [hwhat]
        simp [logged, hoverflow, ParserControl.summary]
      · rfl
  | @parserContinue chunk cs hc =>
    rw [hc]
    refine ⟨logged (continueChunk native s.parser chunk cs).effects, rfl, fun _ => rfl, ?_⟩
    simp only [Pipeline.moveParser]
    unfold continueChunk
    cases hit : processIteration native cs with
    | done => rfl
    | throw e effects => exact absurd hit (processIteration_ne_throw native cs e effects)
    | next cs' effects => exact iteration_no_summary hit
  | logicTest hc now =>
    refine absurd ?_ hmoves
    split <;> rfl
  | logicPop | logicPopStopped | logicHandle => exact absurd rfl hmoves

/-- **The logic logs its summary in its last step**, with the counts that it then has. -/
theorem PipelineStep.logic_summary (h : PipelineStep native fmt s p) (hmoves : p.logicControl ≠ s.logicControl) :
    ∃ messages : List String, p.log = messages.foldl ThreadSafeQueue.pushed s.log ∧
      (∀ b before, s.logicControl.Summary fmt b before → before = []) ∧
      p.logicControl.Summary fmt p.logic (messages.filter isLogicSummary) := by
  cases h with
  | listenerPush | stopParser | stopLogic => exact absurd rfl hmoves
  | parserTest hc =>
    refine absurd ?_ hmoves
    split <;> rfl
  | parserPop | parserPopStopped | parserBegin | parserContinue => exact absurd rfl hmoves
  | logicTest hc now =>
    rw [hc]
    split
    · exact ⟨[logicShutdownText fmt s.logic now], rfl, fun _ _ hb => hb, now, by
        simp [(logicSummary_texts fmt s.logic now).1, Pipeline.pushLogs]⟩
    · exact ⟨[], rfl, fun _ _ hb => hb, rfl⟩
  | logicPop hc =>
    rw [hc]
    exact ⟨[], rfl, fun _ _ hb => hb, rfl⟩
  | logicPopStopped hc now =>
    rw [hc]
    exact ⟨[logicShutdownText fmt s.logic now], rfl, fun _ _ hb => hb, now, by
      simp [(logicSummary_texts fmt s.logic now).1, Pipeline.pushLogs]⟩
  | @logicHandle telemetry hc now =>
    rw [hc]
    refine ⟨(s.logic.handleTelemetry fmt telemetry now).2, rfl, fun _ _ hb => hb, ?_⟩
    exact List.filter_eq_nil_iff.mpr fun m hm => by simp [(logicSummary_texts fmt s.logic now).2.2 telemetry m hm]

end Pipeline

/-! ## The summaries of the log -/

section Server

variable {M : SocketModel} {native : Endian} {fmt : Format} {s t : Server M.Socket}

/-- Each thread has logged its summary if it has left its loop, and none before. -/
structure SummaryInv (fmt : Format) (s : Server M.Socket) : Prop where
  parser : s.logPushed.filter isParserSummary = s.pipeline.parserControl.summary s.pipeline.parser.crcFailures
  logic : s.pipeline.logicControl.Summary fmt s.pipeline.logic (s.logPushed.filter isLogicSummary)

/-- Messages that are no summaries. -/
theorem SummaryInv.plain (h : SummaryInv fmt s) (messages : List String) (hpushed : t.logPushed = s.logPushed ++ messages)
    (hplain : ∀ m ∈ messages, isParserSummary m = false ∧ isLogicSummary m = false)
    (hparser : t.pipeline.parserControl = s.pipeline.parserControl ∧ t.pipeline.parser = s.pipeline.parser)
    (hlogic : ∀ logged, s.pipeline.logicControl.Summary fmt s.pipeline.logic logged →
      t.pipeline.logicControl.Summary fmt t.pipeline.logic logged) : SummaryInv fmt t := by
  have hnone : messages.filter isParserSummary = [] :=
    List.filter_eq_nil_iff.mpr fun m hm => by simp [(hplain m hm).1]
  have hnone' : messages.filter isLogicSummary = [] :=
    List.filter_eq_nil_iff.mpr fun m hm => by simp [(hplain m hm).2]
  refine ⟨?_, ?_⟩
  · rw [hpushed, List.filter_append, hnone, List.append_nil, h.parser, hparser.1, hparser.2]
  · rw [hpushed, List.filter_append, hnone', List.append_nil]
    exact hlogic _ h.logic

/-- What has been pushed to the queue is determined by the queue. -/
theorem pushed_injective {q : ThreadSafeQueue String} (hu : q.maxSize = 0) {messages messages' : List String}
    (h : messages.foldl ThreadSafeQueue.pushed q = messages'.foldl ThreadSafeQueue.pushed q) : messages = messages' := by
  rw [← drop_pushed hu messages, h, drop_pushed hu]

/-- Every step keeps the invariant. -/
theorem SummaryInv.step (h : SummaryInv fmt s) (hinv : ServerInv M native s) (hu : s.pipeline.log.maxSize = 0) {a : Actor}
    (hs : ServerStep M native fmt a s t) : SummaryInv fmt t := by
  cases hs with
  | kernel | wake | logger | main => exact ⟨h.parser, h.logic⟩
  | launch hr port server epoll hout hok =>
    have hlog := ((setup_owning port (hinv.unlaunched hr) hout).2 hok).2
    have htag : begins "[NetworkListener]" (listeningText port) = true := by
      delta listeningText
      simp [begins]
    refine h.plain [listeningText port] ?_ (by simpa using listener_no_summary htag) ⟨rfl, rfl⟩ fun _ hl => hl
    simp only [Server.moveNet, hlog, List.drop_left]
  | listener hr hstep hmoves hready =>
    obtain ⟨messages, hlog, htag⟩ := (hstep.grows_of_moves hmoves).log
    refine h.plain messages ?_ (fun m hm => listener_no_summary (htag m hm)) ⟨rfl, rfl⟩ fun _ hl => hl
    simp only [Server.moveNet, hlog, List.drop_left]
  | startParser hr =>
    have htag : begins "[StreamingParser]" parserRunningText = true := by
      delta parserRunningText
      simp [begins]
    exact h.plain [parserRunningText] rfl (by simp [parser_no_summary htag, parserSummary_texts.2.1]) ⟨rfl, rfl⟩
      fun _ hl => hl
  | startLogic hr now =>
    have htag := BusinessLogic.begins_logicRunningText
    have hplain : isParserSummary logicRunningText = false := not_parserSummary (begins_false htag (by simp) (by simp))
    have hplain' : isLogicSummary logicRunningText = false := (logicSummary_texts fmt s.pipeline.logic now).2.1
    refine h.plain [logicRunningText] rfl (by simp [hplain, hplain']) ⟨rfl, rfl⟩ ?_
    -- it has not logged a summary yet
    intro logged hl
    show s.pipeline.logicControl.Summary fmt _ logged
    rw [hinv.logicIdle hr] at hl ⊢
    exact hl
  | parser hr hstep hmoves =>
    obtain ⟨messages, hlog, htag, -⟩ := hstep.parser_says hmoves
    obtain ⟨messages', hlog', hnone, hsummary⟩ := hstep.parser_summary hmoves
    obtain rfl := pushed_injective hu (hlog'.symm.trans hlog)
    obtain ⟨-, hcontrol, -, -, hlogic, -⟩ := hstep.of_parser hmoves
    have hother : messages'.filter isLogicSummary = [] :=
      List.filter_eq_nil_iff.mpr fun m hm => by simp [parser_no_summary (htag m hm)]
    refine ⟨?_, ?_⟩
    · simp only [Server.movePipeline, hlog, drop_pushed hu, List.filter_append, hsummary]
      rw [h.parser, hnone, List.nil_append]
    · simp only [Server.movePipeline, hlog, drop_pushed hu, List.filter_append, hother, List.append_nil, hcontrol, hlogic]
      exact h.logic
  | logic hr hstep hmoves =>
    obtain ⟨messages, -, hlog, htag, -⟩ := hstep.logic_says hmoves
    obtain ⟨messages', hlog', hnone, hsummary⟩ := hstep.logic_summary hmoves
    obtain rfl := pushed_injective hu (hlog'.symm.trans hlog)
    obtain ⟨-, hcontrol, -, -, hparser, -⟩ := hstep.of_logic hmoves
    have hother : messages'.filter isParserSummary = [] :=
      List.filter_eq_nil_iff.mpr fun m hm => by simp [not_parserSummary (htag m hm)]
    refine ⟨?_, ?_⟩
    · simp only [Server.movePipeline, hlog, drop_pushed hu, List.filter_append, hother, List.append_nil, hcontrol, hparser]
      exact h.parser
    · simp only [Server.movePipeline, hlog, drop_pushed hu, List.filter_append]
      rw [hnone _ _ h.logic, List.nil_append]
      exact hsummary

/-- The invariant holds throughout every run. -/
theorem reachable_summary (hs : (serverSystem M native fmt).Reachable s) : SummaryInv fmt s := by
  refine hs.invariant (I := SummaryInv fmt) ?_ ?_
  · rintro s ⟨n, -, -, -, rfl⟩
    exact ⟨rfl, rfl⟩
  · rintro s t hs h ⟨a, hstep⟩
    exact h.step (reachable_server hs) (reachable_logging (logging_refines hs)).unbounded hstep

/-- **The summaries are true.** In every run of the server, when `main` has joined all threads: among the messages that the
logger has written one is the summary of the parser, and its number is, in 64 bits, the number of messages among them that
report a failure; and one is the summary of the logic, made of its counters, which are, in 64 bits, the number of packets
that have been handled, and the number of drones among them. -/
theorem summaries_true (M : SocketModel) (native : Endian) (fmt : Format) (s : Server M.Socket)
    (hs : (serverSystem M native fmt).Reachable s) (hf : s.main = .finished) :
    s.written.filter isParserSummary = [parserShutdownText (BitVec.ofNat 64 (s.written.countP reportsFailure))] ∧
    (∃ now, s.written.filter isLogicSummary = [logicShutdownText fmt s.pipeline.logic now]) ∧
    s.pipeline.logic.packetsProcessed = BitVec.ofNat 64 s.pipeline.packetsHandled.length ∧
    s.pipeline.logic.activeDroneCount = (s.pipeline.packetsHandled.map (·.droneId)).toFinset.card := by
  have hover := over_of_finished hs hf
  have htracks := (reachable_server hs).pipeline.logic
  rw [hover.written]
  refine ⟨?_, ?_, ?_, htracks.activeDroneCount⟩
  · rw [(reachable_summary hs).parser, parser_returned.mp (hover.threads .parser), (reachable_log hs).failures]
    rfl
  · have h := (reachable_summary hs).logic
    rw [logic_returned.mp (hover.threads .logic)] at h
    exact h
  · apply BitVec.eq_of_toNat_eq
    rw [htracks.count, BitVec.toNat_ofNat]

/-- A run in which a malformed frame and a packet have been received: a failure has been reported, the parser sums up one,
and the logic one packet of one drone. -/
theorem summaries_true_one :
    ∃ s, (serverSystem receiveBuffers .little blankFormat).Reachable s ∧ s.main = .finished ∧
      0 < s.written.countP reportsFailure ∧ s.written.filter isParserSummary = [parserShutdownText 1] ∧
      (∃ now, s.written.filter isLogicSummary = [logicShutdownText blankFormat s.pipeline.logic now]) ∧
      s.pipeline.logic.packetsProcessed = 1 ∧ s.pipeline.logic.activeDroneCount = 1 := by
  obtain ⟨s, t, hs, -, -, hrun, hf, -, hhandled, hfailures⟩ := exists_shutdown
  have ht := hs.runs hrun
  obtain ⟨hparser, hlogic, hcount, hdrones⟩ := summaries_true receiveBuffers .little blankFormat t ht hf
  have hone : BitVec.ofNat 64 (t.written.countP reportsFailure) = 1 := by
    rw [(over_of_finished ht hf).written, ← (reachable_log ht).failures, hfailures]
  refine ⟨t, ht, hf, ?_, by rw [hparser, hone], hlogic, by rw [hcount, hhandled]; rfl, by rw [hdrones, hhandled]; rfl⟩
  apply Nat.pos_of_ne_zero
  intro hzero
  rw [hzero] at hone
  exact absurd hone (by decide)

end Server

end CounterDrone

import Mathlib
import CounterDrone.Lifetime
import CounterDrone.Pipeline
import CounterDrone.AsyncLogger

/-!
# The server process

All threads of `main.cpp` in one system. The listener with the kernel (`Net`), the parser and the logic with the queues
between them (`Pipeline`), the logger and the shutdown sequence of `main` (`LoggerStep`, `MainStep`) make the steps that
their own modules give them; here they are put together. A chunk that the listener pushes arrives in the raw queue, every
message goes to the one log queue, `main` stops and joins the threads that really run, and its stop of the listener writes
to the eventfd.

Each step is made by one actor (`ServerStep`). In every state of a run the listener is in a state that its event loop can
reach, the pipeline is as far as `PipelineInv` says, and the chunks pushed to it are the listener's (`ServerInv`,
`reachable_server`).
-/

namespace CounterDrone

variable {σ : Type}

/-! ## The process -/

/-- The threads, and the kernel with the peers of the sockets. -/
inductive Actor
  | kernel
  | listener
  | parser
  | logic
  | logger
  | main
  deriving DecidableEq

/-- The state of the process. -/
structure Server (σ : Type) where
  net : Net σ
  pipeline : Pipeline
  /-- the threads that have begun their `run` -/
  running : Producer → Bool := fun _ => false
  /-- the counter of the eventfd -/
  eventCount : Nat := 0
  /-- `request_stop` of the listener has set the flag and not yet called the callback -/
  wakePending : Bool := false
  logger : LoggerControl := .test
  loggerStop : Bool := false
  main : MainControl := .waiting
  /-- every message that was pushed to the log queue -/
  logPushed : List String := []
  written : List String := []

/-- Chunks arrive in the raw queue. -/
def Pipeline.receive (p : Pipeline) (chunks : List DataChunk) : Pipeline :=
  { p with raw := chunks.foldl ThreadSafeQueue.pushed p.raw, rawPushed := p.rawPushed ++ chunks }

namespace Server

/-- A thread pushes a message to the log queue. -/
def say (s : Server σ) (message : String) : Server σ :=
  { s with pipeline := s.pipeline.pushLogs [message], logPushed := s.logPushed ++ [message] }

/-- The listener moves: new chunks and messages go to the queues. -/
def moveNet (s : Server σ) (n : Net σ) : Server σ :=
  let messages := n.log.drop s.net.log.length
  { s with
    net := n
    pipeline := (s.pipeline.receive (n.queue.drop s.net.queue.length)).pushLogs messages
    logPushed := s.logPushed ++ messages }

/-- The parser or the logic moves. -/
def movePipeline (s : Server σ) (p : Pipeline) : Server σ :=
  { s with pipeline := p, logPushed := s.logPushed ++ p.log.items.drop s.pipeline.log.items.length }

/-- Where a thread is, as the shutdown sequence sees it. -/
def producer (s : Server σ) : Producer → ProducerControl
  | .listener =>
    match s.net.control with
    | .finished => if s.net.stopRequested then .returned else .running
    | _ => .running
  | .parser =>
    match s.pipeline.parserControl with
    | .finished => .returned
    | _ => .running
  | .logic =>
    match s.pipeline.logicControl with
    | .finished => .returned
    | _ => .running

/-- The stop tokens. -/
def stop (s : Server σ) : Producer → Bool
  | .listener => s.net.stopRequested
  | .parser => s.pipeline.parserStop
  | .logic => s.pipeline.logicStop

/-- The log queue, the logger and `main`, with the threads as the shutdown sequence sees them. -/
def logging (s : Server σ) : Logging where
  queue := s.pipeline.log
  producers := s.producer
  stops := s.stop
  logger := s.logger
  loggerStop := s.loggerStop
  main := s.main
  pushed := s.logPushed
  written := s.written

/-- The logger or `main` moves. -/
def moveLogging (s : Server σ) (t : Logging) : Server σ :=
  { s with
    net := { s.net with stopRequested := t.stops .listener }
    pipeline := { s.pipeline with log := t.queue, parserStop := t.stops .parser, logicStop := t.stops .logic }
    logger := t.logger
    loggerStop := t.loggerStop
    main := t.main
    written := t.written }

/-- The callback of the listener is called: it adds one to the counter of the eventfd. -/
def wake (s : Server σ) : Server σ := { s with eventCount := s.eventCount + 1, wakePending := false }

end Server

def parserRunningText : String := "[StreamingParser] Running\n"

/-- What `epoll_wait` reports is ready: an event of the eventfd only if its counter is not zero. -/
def EventReady (s : Server σ) (n : Net σ) : Prop :=
  s.net.control = .polling → ∀ events, n.control = .dispatching events →
    (∃ e ∈ events, e.fd = s.net.listener.eventFd.fd) → 0 < s.eventCount

/-- The counter after a step of the listener: the dispatch of an event of the eventfd reads it. -/
def countAfter (s : Server σ) : Nat :=
  match s.net.control with
  | .dispatching (event :: _) => if event.fd = s.net.listener.eventFd.fd then 0 else s.eventCount
  | _ => s.eventCount

/-- One step of an actor. -/
inductive ServerStep (M : SocketModel) (native : Endian) (fmt : Format) :
    Actor → Server M.Socket → Server M.Socket → Prop
  /-- something happens to an open socket by itself -/
  | kernel {s : Server M.Socket} {c : Connection × M.Socket} {pre post : List (Connection × M.Socket)} {t : M.Socket}
      (hr : s.running .listener = true) (hc : s.net.kernel.connections = pre ++ c :: post) (hopen : c.1.closed = false)
      (h : M.evolves c.2 t) :
      ServerStep M native fmt .kernel s
        { s with net := { s.net with kernel := { s.net.kernel with connections := pre ++ (c.1, t) :: post } } }
  /-- `NetworkListener::run` begins: its set-up returns, and the callback is registered, or called if the stop has been
  requested already -/
  | launch {s : Server M.Socket} (h : s.running .listener = false) (port : BitVec 16) (server : ServerCalls)
      (epoll : EpollCalls) (hout : HandedOut s.net.kernel.opened server epoll)
      (hok : (runSetup s.net port server epoll).1 = .ok ()) :
      ServerStep M native fmt .listener s
        { s.moveNet (runSetup s.net port server epoll).2 with
          running := Function.update s.running .listener true
          eventCount := if s.net.stopRequested then 1 else 0 }
  /-- a step of the event loop -/
  | listener {s : Server M.Socket} {n : Net M.Socket} (h : s.running .listener = true) (hstep : ListenerStep M s.net n)
      (hmoves : n.control ≠ s.net.control ∨ n.kernel.sessions ≠ s.net.kernel.sessions) (hready : EventReady s n) :
      ServerStep M native fmt .listener s { s.moveNet n with eventCount := countAfter s }
  | startParser {s : Server M.Socket} (h : s.running .parser = false) :
      ServerStep M native fmt .parser s
        { s.say parserRunningText with running := Function.update s.running .parser true }
  | parser {s : Server M.Socket} {p : Pipeline} (h : s.running .parser = true) (hstep : PipelineStep native fmt s.pipeline p)
      (hmoves : p.parserControl ≠ s.pipeline.parserControl) : ServerStep M native fmt .parser s (s.movePipeline p)
  /-- `BusinessLogic::run` begins: its first message, and the clock readings -/
  | startLogic {s : Server M.Socket} (h : s.running .logic = false) (now : Int) :
      ServerStep M native fmt .logic s
        { s.say logicRunningText with
          pipeline := { s.pipeline.pushLogs [logicRunningText] with
            logic := { s.pipeline.logic with startTime := now, lastReportTime := now } }
          running := Function.update s.running .logic true }
  | logic {s : Server M.Socket} {p : Pipeline} (h : s.running .logic = true) (hstep : PipelineStep native fmt s.pipeline p)
      (hmoves : p.logicControl ≠ s.pipeline.logicControl) : ServerStep M native fmt .logic s (s.movePipeline p)
  | logger {s : Server M.Socket} {t : Logging} (h : LoggerStep s.logging t) :
      ServerStep M native fmt .logger s (s.moveLogging t)
  /-- a step of `main`; the stop of a listener that runs leaves the callback to be called, before the `join` -/
  | main {s : Server M.Socket} {t : Logging} (h : MainStep s.logging t) (hcalled : s.wakePending = false) :
      ServerStep M native fmt .main s
        { s.moveLogging t with
          wakePending := s.running .listener && !s.net.stopRequested && t.stops .listener }
  | wake {s : Server M.Socket} (h : s.wakePending = true) : ServerStep M native fmt .main s s.wake

/-- The runs of the process, from the state in which `main` has made the threads. -/
def serverSystem (M : SocketModel) (native : Endian) (fmt : Format) : System (Server M.Socket) where
  init s := ∃ n : Net M.Socket, n.Unlaunched ∧ n.log = [] ∧ n.stopRequested = false ∧
    s = { net := n, pipeline := { logic := {} } }
  step s t := ∃ a, ServerStep M native fmt a s t

/-! ## What the listener has pushed -/

/-- The listener pushes to the ends of its queues, under its own tag, and changes neither the stop token nor the eventfd. -/
structure Net.Grows (n n' : Net σ) : Prop where
  queue : n.queue <+: n'.queue
  log : ∃ messages, n'.log = n.log ++ messages ∧ ∀ m ∈ messages, begins "[NetworkListener]" m = true
  stop : n'.stopRequested = n.stopRequested
  eventFd : n'.listener.eventFd = n.listener.eventFd

section Grows

variable {n n' : Net σ} {rest : List EpollEvent}

theorem Net.grows_silent (hqueue : n.queue <+: n'.queue) (hlog : n'.log = n.log)
    (hstop : n'.stopRequested = n.stopRequested) (hevent : n'.listener.eventFd = n.listener.eventFd) : n.Grows n' :=
  ⟨hqueue, ⟨[], by rw [hlog, List.append_nil], by simp⟩, hstop, hevent⟩

theorem Net.grows_says {message : String} (htag : begins "[NetworkListener]" message = true) (hqueue : n.queue <+: n'.queue)
    (hlog : n'.log = n.log ++ [message]) (hstop : n'.stopRequested = n.stopRequested)
    (hevent : n'.listener.eventFd = n.listener.eventFd) : n.Grows n' :=
  ⟨hqueue, ⟨[message], hlog, by simpa using htag⟩, hstop, hevent⟩

/-- A step that leaves the queues, the stop token and the eventfd as they are. -/
theorem Net.grows_goto (n : Net σ) (control : Control) : n.Grows (n.goto control) :=
  Net.grows_silent List.prefix_rfl rfl rfl rfl

theorem disconnectClient_grows (n : Net σ) (fd : Int) (control : Control) :
    n.Grows ((disconnectClient n fd).goto control) := by
  have herase : ∀ n : Net σ, (n.erase fd).queue = n.queue ∧ (n.erase fd).log = n.log ∧
      (n.erase fd).stopRequested = n.stopRequested ∧ (n.erase fd).listener.eventFd = n.listener.eventFd := by
    intro n
    unfold Net.erase
    split
    · exact ⟨rfl, rfl, rfl, rfl⟩
    · exact ⟨rfl, rfl, rfl, rfl⟩
  obtain ⟨hqueue, hlog, hstop, hevent⟩ := herase { n with kernel := n.kernel.epollDel fd }
  refine @Net.grows_says _ _ _ ("[NetworkListener] Client disconnected (fd=" ++ toString fd ++ ")\n") (by simp [begins])
    ?_ ?_ hstop hevent
  · simp only [disconnectClient, Net.goto, Net.pushLog, Net.push, hqueue]
    exact List.prefix_append _ _
  · simp only [disconnectClient, Net.goto, Net.pushLog, Net.push, hlog]

theorem dispatch_grows (n : Net σ) (event : EpollEvent) : n.Grows (dispatch n event rest) := by
  unfold dispatch
  split
  · exact Net.grows_says (by simp [begins]) List.prefix_rfl rfl rfl rfl
  split
  · exact n.grows_goto _
  split
  · exact disconnectClient_grows n event.fd _
  split
  · exact n.grows_goto _
  · exact n.grows_goto _

theorem handleAccept_grows (n : Net σ) (accepted : AcceptResult σ) (nonblocking added : Except String Unit) :
    n.Grows (handleAccept n rest accepted nonblocking added) := by
  have hemplace : ∀ (n : Net σ) (fd : Int) (h : SocketHandle), (n.emplace fd h).queue = n.queue ∧
      (n.emplace fd h).log = n.log ∧ (n.emplace fd h).stopRequested = n.stopRequested ∧
      (n.emplace fd h).listener.eventFd = n.listener.eventFd := by
    intro n fd h
    unfold Net.emplace
    split
    · exact ⟨rfl, rfl, rfl, rfl⟩
    · exact ⟨rfl, rfl, rfl, rfl⟩
  cases accepted with
  | wouldBlock => exact n.grows_goto _
  | error what => exact Net.grows_says (by simp [begins]) List.prefix_rfl rfl rfl rfl
  | connection fd addr socket =>
    cases nonblocking with
    | error what => exact Net.grows_says (by simp [begins]) List.prefix_rfl rfl rfl rfl
    | ok _ =>
      cases added with
      | error what => exact Net.grows_says (by simp [begins]) List.prefix_rfl rfl rfl rfl
      | ok _ =>
        refine Net.grows_says ?_ ?_ (hemplace _ fd ⟨fd⟩).2.1 (hemplace _ fd ⟨fd⟩).2.2.1 (hemplace _ fd ⟨fd⟩).2.2.2
        · simp [begins]
        · exact (hemplace _ fd ⟨fd⟩).1.symm ▸ List.prefix_rfl

theorem handleClientData_grows (n : Net σ) (fd : Int) (result : RecvResult) :
    n.Grows (handleClientData n fd rest result) := by
  cases result with
  | data bytes => exact Net.grows_silent (List.prefix_append _ _) rfl rfl rfl
  | closed => exact n.grows_goto _
  | wouldBlock => exact n.grows_goto _
  | error what => exact Net.grows_says (by simp [begins]) List.prefix_rfl rfl rfl rfl

/-- Every step of the listener pushes to the ends, or it is the stop request. -/
theorem ListenerStep.grows {M : SocketModel} {n n' : Net M.Socket} (h : ListenerStep M n n') :
    n.Grows n' ∨ n' = { n with stopRequested := true } := by
  cases h with
  | requestStop => exact Or.inr rfl
  | evolve => exact Or.inl (Net.grows_silent List.prefix_rfl rfl rfl rfl)
  | test => exact Or.inl (n.grows_goto _)
  | interrupted => exact Or.inl (n.grows_goto _)
  | pollError => exact Or.inl (Net.grows_says (by simp [begins]) List.prefix_rfl rfl rfl rfl)
  | poll => exact Or.inl (n.grows_goto _)
  | dispatch hc => exact Or.inl (dispatch_grows n _)
  | batchDone => exact Or.inl (n.grows_goto _)
  | accept hc accepted nonblocking added hnew => exact Or.inl (handleAccept_grows n accepted nonblocking added)
  | @recv fd rest hc result k hr =>
    have h := @handleClientData_grows _ rest { n with kernel := k } fd result
    exact Or.inl ⟨h.queue, h.log, h.stop, h.eventFd⟩
  | disconnect hc => exact Or.inl (disconnectClient_grows n _ _)

/-- A step of the listener in the process. -/
theorem ListenerStep.grows_of_moves {M : SocketModel} {n n' : Net M.Socket} (h : ListenerStep M n n')
    (hmoves : n'.control ≠ n.control ∨ n'.kernel.sessions ≠ n.kernel.sessions) : n.Grows n' := by
  rcases h.grows with hg | rfl
  · exact hg
  · exact (hmoves.elim (fun h => h rfl) fun h => h rfl).elim

/-- A listener that makes a step has not returned. -/
theorem ListenerStep.control_ne {M : SocketModel} {n n' : Net M.Socket} (h : ListenerStep M n n')
    (hmoves : n'.control ≠ n.control ∨ n'.kernel.sessions ≠ n.kernel.sessions) : n.control ≠ .finished := by
  intro hf
  cases h with
  | @evolve c pre post t hc hopen h =>
    rcases hmoves with hne | hne
    · exact hne rfl
    · exact hne (by simp [Kernel.sessions, hc])
  | requestStop => exact hmoves.elim (fun h => h rfl) fun h => h rfl
  | test hc | interrupted hc | pollError hc | poll hc | dispatch hc | batchDone hc | accept hc | recv hc | disconnect hc =>
    rw [hf] at hc
    cases hc

end Grows

/-! ## The invariant -/

/-- What `main` and the logger do to the stop tokens. -/
theorem loggerStep_stops {s t : Logging} (h : LoggerStep s t) : t.stops = s.stops := by
  cases h <;> rfl

theorem mainStep_stops {s t : Logging} (h : MainStep s t) :
    t.stops = s.stops ∨ ∃ p, t.stops = Function.update s.stops p true := by
  cases h with
  | requestStop => exact Or.inr ⟨_, rfl⟩
  | signal => exact Or.inl rfl
  | join => exact Or.inl rfl
  | requestStopLogger => exact Or.inl rfl
  | joinLogger => exact Or.inl rfl

/-- A stop token that is stopped stays stopped. -/
theorem mainStep_stop_mono {s t : Logging} (h : MainStep s t) {p : Producer} (hp : s.stops p = true) : t.stops p = true := by
  rcases mainStep_stops h with he | ⟨q, he⟩
  · rwa [he]
  · rw [he]
    by_cases hq : p = q
    · rw [hq, Function.update_self]
    · rwa [Function.update_of_ne hq]

/-- How the listener, the pipeline and the threads fit together. -/
structure ServerInv (M : SocketModel) (native : Endian) (s : Server M.Socket) : Prop where
  pipeline : PipelineInv native s.pipeline
  /-- the chunks in the pipeline are those of the listener -/
  raw : s.pipeline.rawPushed = s.net.queue
  launched : s.running .listener = true → (launchedSystem M).Reachable s.net
  unlaunched : s.running .listener = false → s.net.Unlaunched
  parserIdle : s.running .parser = false → s.pipeline.parserControl = .test
  logicIdle : s.running .logic = false → s.pipeline.logicControl = .test

namespace ServerInv

variable {M : SocketModel} {native : Endian} {fmt : Format} {s t : Server M.Socket}

/-- Chunks that arrive in the raw queue. -/
theorem receive {p : Pipeline} (h : PipelineInv native p) (chunks : List DataChunk) :
    PipelineInv native (p.receive chunks) := by
  rw [Pipeline.receive, ThreadSafeQueue.foldl_pushed_unbounded h.unbounded.1]
  refine ⟨h.unbounded, ?_, h.parser, h.parsed, h.logic⟩
  rw [h.raw, List.append_assoc _ p.raw.items]

/-- The listener moves, by steps that push to the ends of its queues. -/
theorem moveNet (h : ServerInv M native s) {n : Net M.Socket} (hgrows : s.net.queue <+: n.queue)
    (hn : (launchedSystem M).Reachable n) {running : Producer → Bool} (hlistener : running .listener = true)
    (hparser : running .parser = s.running .parser) (hlogic : running .logic = s.running .logic) (eventCount : Nat) :
    ServerInv M native { s.moveNet n with running := running, eventCount := eventCount } := by
  refine ⟨(receive h.pipeline _).pushLogs _, ?_, fun _ => hn, ?_, ?_, ?_⟩
  · obtain ⟨chunks, hq⟩ := hgrows
    simp only [Server.moveNet, Pipeline.pushLogs, Pipeline.receive, h.raw, ← hq, List.drop_left]
  · intro hf
    exact absurd (hlistener.symm.trans hf) (by decide)
  · intro hf
    exact h.parserIdle (hparser.symm.trans hf)
  · intro hf
    exact h.logicIdle (hlogic.symm.trans hf)

/-- The parser or the logic moves. -/
theorem movePipeline (h : ServerInv M native s) {p : Pipeline} (hstep : PipelineStep native fmt s.pipeline p)
    (hraw : p.rawPushed = s.pipeline.rawPushed)
    (hparser : s.running .parser = false → p.parserControl = s.pipeline.parserControl)
    (hlogic : s.running .logic = false → p.logicControl = s.pipeline.logicControl) :
    ServerInv M native (s.movePipeline p) := by
  refine ⟨h.pipeline.step hstep, hraw.trans h.raw, h.launched, h.unlaunched, ?_, ?_⟩
  · intro hf
    exact (hparser hf).trans (h.parserIdle hf)
  · intro hf
    exact (hlogic hf).trans (h.logicIdle hf)

end ServerInv

/-! ## Steps of the pipeline by thread -/

section Threads

variable {native : Endian} {fmt : Format} {s p : Pipeline}

/-- A step that moves the parser is one of the parser thread: the listener, the stop tokens and the logic are as before. -/
theorem PipelineStep.of_parser (h : PipelineStep native fmt s p) (hmoves : p.parserControl ≠ s.parserControl) :
    p.rawPushed = s.rawPushed ∧ p.logicControl = s.logicControl ∧ p.parserStop = s.parserStop ∧
      p.logicStop = s.logicStop ∧ p.logic = s.logic ∧ p.packetsHandled = s.packetsHandled := by
  cases h with
  | listenerPush | stopParser | stopLogic => exact absurd rfl hmoves
  | parserTest hc => split <;> exact ⟨rfl, rfl, rfl, rfl, rfl, rfl⟩
  | parserPop | parserPopStopped | parserBegin | parserContinue => exact ⟨rfl, rfl, rfl, rfl, rfl, rfl⟩
  | logicTest hc now =>
    refine absurd ?_ hmoves
    split <;> rfl
  | logicPop | logicPopStopped | logicHandle => exact absurd rfl hmoves

/-- A step that moves the logic is one of the logic thread. -/
theorem PipelineStep.of_logic (h : PipelineStep native fmt s p) (hmoves : p.logicControl ≠ s.logicControl) :
    p.rawPushed = s.rawPushed ∧ p.parserControl = s.parserControl ∧ p.parserStop = s.parserStop ∧
      p.logicStop = s.logicStop ∧ p.parser = s.parser ∧ p.chunksHandled = s.chunksHandled ∧
      p.parsedPushed = s.parsedPushed := by
  cases h with
  | listenerPush | stopParser | stopLogic => exact absurd rfl hmoves
  | parserTest hc =>
    refine absurd ?_ hmoves
    split <;> rfl
  | parserPop | parserPopStopped | parserBegin | parserContinue => exact absurd rfl hmoves
  | logicTest hc now => split <;> exact ⟨rfl, rfl, rfl, rfl, rfl, rfl, rfl⟩
  | logicPop | logicPopStopped | logicHandle => exact ⟨rfl, rfl, rfl, rfl, rfl, rfl, rfl⟩

end Threads

namespace ServerInv

variable {M : SocketModel} {native : Endian} {fmt : Format} {s t : Server M.Socket}

/-- The logger or `main` moves: a stop token may be stopped. -/
theorem moveLogging (h : ServerInv M native s) {t : Logging}
    (hstop : t.stops .listener = s.net.stopRequested ∨ t.stops .listener = true) (wakePending : Bool) :
    ServerInv M native { s.moveLogging t with wakePending := wakePending } := by
  refine ⟨?_, h.raw, ?_, ?_, h.parserIdle, h.logicIdle⟩
  · exact ⟨h.pipeline.unbounded, h.pipeline.raw, h.pipeline.parser, h.pipeline.parsed, h.pipeline.logic⟩
  · intro hr
    have hn := h.launched hr
    rcases hstop with hsame | htrue
    · simp only [Server.moveLogging, hsame]
      exact hn
    · simp only [Server.moveLogging, htrue]
      exact hn.step (.requestStop s.net)
  · intro hr
    have hn := h.unlaunched hr
    exact ⟨hn.listener, hn.interest, hn.connections, hn.calls, hn.queue, hn.control⟩

/-- The parser or the logic begins. -/
theorem begin (h : ServerInv M native s) {p : Producer} (hp : p ≠ .listener) {pipeline : Pipeline}
    (hpipeline : PipelineInv native pipeline) (hraw : pipeline.rawPushed = s.pipeline.rawPushed)
    (hparser : pipeline.parserControl = s.pipeline.parserControl)
    (hlogic : pipeline.logicControl = s.pipeline.logicControl) (logPushed : List String) :
    ServerInv M native
      { s with pipeline := pipeline, logPushed := logPushed, running := Function.update s.running p true } := by
  have hlistener : Function.update s.running p true .listener = s.running .listener :=
    Function.update_of_ne (Ne.symm hp) _ _
  have hidle : ∀ q, Function.update s.running p true q = false → s.running q = false := by
    intro q hq
    by_cases he : q = p
    · subst he
      simp at hq
    · rwa [Function.update_of_ne he] at hq
  refine ⟨hpipeline, hraw.trans h.raw, ?_, ?_, ?_, ?_⟩
  · exact fun hl => h.launched (hlistener.symm.trans hl)
  · exact fun hl => h.unlaunched (hidle _ hl)
  · exact fun hq => hparser.trans (h.parserIdle (hidle _ hq))
  · exact fun hq => hlogic.trans (h.logicIdle (hidle _ hq))

/-- **Every step keeps the invariant.** -/
theorem step (h : ServerInv M native s) {a : Actor} (hs : ServerStep M native fmt a s t) : ServerInv M native t := by
  cases hs with
  | kernel hr hc hopen hevolves =>
    refine ⟨h.pipeline, h.raw, fun _ => (h.launched hr).step (.evolve hc hopen hevolves), ?_, h.parserIdle, h.logicIdle⟩
    intro hf
    exact absurd (hr.symm.trans hf) (by simp)
  | launch hr port server epoll hout hok =>
    have hn := h.unlaunched hr
    obtain ⟨hown, hlaunched⟩ := setup_owning port hn hout
    obtain ⟨hinit, hlog⟩ := hlaunched hok
    refine h.moveNet ?_ (.init hinit) (Function.update_self _ _ _) ?_ ?_ _
    · rw [hn.queue]
      exact List.nil_prefix
    · exact Function.update_of_ne (by decide) _ _
    · exact Function.update_of_ne (by decide) _ _
  | listener hr hstep hmoves hready =>
    exact h.moveNet (hstep.grows_of_moves hmoves).queue ((h.launched hr).step hstep) hr rfl rfl (countAfter s)
  | startParser hr => exact h.begin (by decide) (h.pipeline.pushLogs _) rfl rfl rfl _
  | parser hr hstep hmoves =>
    obtain ⟨hraw, hlogic, -⟩ := hstep.of_parser hmoves
    refine h.movePipeline hstep hraw ?_ fun _ => hlogic
    intro hf
    exact absurd (hr.symm.trans hf) (by decide)
  | startLogic hr now =>
    have hp := h.pipeline.pushLogs [logicRunningText]
    have hclock : PipelineInv native { s.pipeline.pushLogs [logicRunningText] with
        logic := { s.pipeline.logic with startTime := now, lastReportTime := now } } :=
      ⟨hp.unbounded, hp.raw, hp.parser, hp.parsed, ⟨hp.logic.drones, hp.logic.count⟩⟩
    exact h.begin (by decide) hclock rfl rfl rfl _
  | logic hr hstep hmoves =>
    obtain ⟨hraw, hparser, -⟩ := hstep.of_logic hmoves
    refine h.movePipeline hstep hraw (fun _ => hparser) ?_
    intro hf
    exact absurd (hr.symm.trans hf) (by decide)
  | logger hstep =>
    refine h.moveLogging (Or.inl ?_) s.wakePending
    rw [loggerStep_stops hstep]
    rfl
  | main hstep hcalled =>
    refine h.moveLogging ?_ _
    rcases mainStep_stops hstep with hsame | ⟨p, hp⟩
    · rw [hsame]
      exact Or.inl rfl
    · rw [hp]
      by_cases he : p = .listener
      · subst he
        exact Or.inr (Function.update_self _ _ _)
      · exact Or.inl (Function.update_of_ne (Ne.symm he) _ _)
  | wake hw => exact ⟨h.pipeline, h.raw, h.launched, h.unlaunched, h.parserIdle, h.logicIdle⟩

end ServerInv

/-- The invariant holds throughout every run. -/
theorem reachable_server {M : SocketModel} {native : Endian} {fmt : Format} {s : Server M.Socket}
    (hs : (serverSystem M native fmt).Reachable s) : ServerInv M native s := by
  refine hs.invariant (I := ServerInv M native) ?_ ?_
  · rintro s ⟨n, hn, hlog, hstop, rfl⟩
    refine ⟨⟨⟨rfl, rfl⟩, rfl, ⟨rfl, rfl⟩, rfl, ⟨fun _ => rfl, rfl⟩⟩, hn.queue.symm, ?_, fun _ => hn, fun _ => rfl,
      fun _ => rfl⟩
    intro hr
    cases hr
  · rintro s t - h ⟨a, hstep⟩
    exact h.step hstep

end CounterDrone

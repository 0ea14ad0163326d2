import Mathlib
import CounterDrone.Lib.Reach
import CounterDrone.ThreadSafeQueue

/-!
# The logger and the shutdown

`AsyncLogger::run` of `asyncLogger.cpp`, the threads that push to its queue, and the shutdown sequence of `main.cpp`, as
steps of one system; each call on the queue is one atomic step. The listener, the parser and the business logic push
messages until they return, `main` stops and joins them one after the other, and only then stops the logger.

* When the logger has returned, it has written every message ever pushed, in order, and the queue is empty
  (`no_log_line_lost`).
* Once its stop is requested the logger does return, whatever it was doing (`logger_returns`).
-/

namespace CounterDrone

/-! ## The threads -/

/-- The threads that push log messages. -/
inductive Producer
  | listener
  | parser
  | logic
  deriving DecidableEq

/-- Where a producer is. -/
inductive ProducerControl
  /-- in the loop of its `run` -/
  | running
  /-- behind the loop, before its last message -/
  | leaving
  /-- behind its last message -/
  | closing
  | returned
  deriving DecidableEq

/-- Where `AsyncLogger::run` is. -/
inductive LoggerControl
  /-- at the test of the primary loop -/
  | test
  /-- in the `pop` of the primary loop -/
  | popping
  /-- before `write_message` in the primary loop -/
  | writing (message : String)
  /-- in the `pop` of the drain loop -/
  | draining
  /-- before `write_message` in the drain loop -/
  | drainWriting (message : String)
  | returned
  deriving DecidableEq

/-- Where the shutdown sequence of `main` is. -/
inductive MainControl
  /-- before the signal -/
  | waiting
  /-- before `request_stop` of a thread -/
  | stopping (p : Producer)
  /-- in `join` of a thread -/
  | joining (p : Producer)
  | stoppingLogger
  | joiningLogger
  | finished

/-- The log queue, the threads with their stop tokens, and what has been pushed and written so far. -/
structure Logging where
  queue : ThreadSafeQueue String := {}
  producers : Producer → ProducerControl := fun _ => .running
  stops : Producer → Bool := fun _ => false
  logger : LoggerControl := .test
  loggerStop : Bool := false
  main : MainControl := .waiting
  pushed : List String := []
  written : List String := []

/-! ## Steps -/

/-- A producer pushes a message, without a stop token, and goes on. -/
inductive ProducerStep : Logging → Logging → Prop
  | push {s : Logging} {p : Producer} (h : s.producers p = .running) (message : String) {q : ThreadSafeQueue String}
      (hq : s.queue.push message false = some (q, true)) :
      ProducerStep s { s with queue := q, pushed := s.pushed ++ [message] }
  /-- its loop ends because of the stop request -/
  | leave {s : Logging} {p : Producer} (h : s.producers p = .running) (hstop : s.stops p = true) :
      ProducerStep s { s with producers := Function.update s.producers p .leaving }
  | last {s : Logging} {p : Producer} (h : s.producers p = .leaving) (message : String) {q : ThreadSafeQueue String}
      (hq : s.queue.push message false = some (q, true)) :
      ProducerStep s { s with
        queue := q
        pushed := s.pushed ++ [message]
        producers := Function.update s.producers p .closing }
  | returns {s : Logging} {p : Producer} (h : s.producers p = .leaving ∨ s.producers p = .closing) :
      ProducerStep s { s with producers := Function.update s.producers p .returned }

/-- `AsyncLogger::run`. -/
inductive LoggerStep : Logging → Logging → Prop
  | test {s : Logging} (h : s.logger = .test) :
      LoggerStep s { s with logger := if s.loggerStop then .draining else .popping }
  | pop {s : Logging} (h : s.logger = .popping) {q : ThreadSafeQueue String} {message : String}
      (hq : s.queue.pop s.loggerStop = some (q, some message)) :
      LoggerStep s { s with queue := q, logger := .writing message }
  /-- `pop` has returned nothing -/
  | stopped {s : Logging} (h : s.logger = .popping) {q : ThreadSafeQueue String}
      (hq : s.queue.pop s.loggerStop = some (q, none)) : LoggerStep s { s with queue := q, logger := .draining }
  | write {s : Logging} {message : String} (h : s.logger = .writing message) :
      LoggerStep s { s with written := s.written ++ [message], logger := .test }
  /-- the drain token is stopped from the start -/
  | drain {s : Logging} (h : s.logger = .draining) {q : ThreadSafeQueue String} {message : String}
      (hq : s.queue.pop true = some (q, some message)) :
      LoggerStep s { s with queue := q, logger := .drainWriting message }
  | drained {s : Logging} (h : s.logger = .draining) {q : ThreadSafeQueue String}
      (hq : s.queue.pop true = some (q, none)) : LoggerStep s { s with queue := q, logger := .returned }
  | drainWrite {s : Logging} {message : String} (h : s.logger = .drainWriting message) :
      LoggerStep s { s with written := s.written ++ [message], logger := .draining }

/-- What `main` does when a thread has been joined. -/
def afterJoin : Producer → MainControl
  | .listener => .stopping .parser
  | .parser => .stopping .logic
  | .logic => .stoppingLogger

/-- The shutdown sequence of `main`. -/
inductive MainStep : Logging → Logging → Prop
  | signal {s : Logging} (h : s.main = .waiting) : MainStep s { s with main := .stopping .listener }
  | requestStop {s : Logging} {p : Producer} (h : s.main = .stopping p) :
      MainStep s { s with stops := Function.update s.stops p true, main := .joining p }
  | join {s : Logging} {p : Producer} (h : s.main = .joining p) (hr : s.producers p = .returned) :
      MainStep s { s with main := afterJoin p }
  | requestStopLogger {s : Logging} (h : s.main = .stoppingLogger) :
      MainStep s { s with loggerStop := true, main := .joiningLogger }
  | joinLogger {s : Logging} (h : s.main = .joiningLogger) (hr : s.logger = .returned) :
      MainStep s { s with main := .finished }

/-- The runs of all threads, from the state in which `main` has launched them. -/
def loggingSystem : System Logging where
  init s := s = {}
  step s t := ProducerStep s t ∨ LoggerStep s t ∨ MainStep s t

/-! ## The invariant -/

/-- The message that the logger has popped and not written. -/
def LoggerControl.inHand : LoggerControl → List String
  | writing message => [message]
  | drainWriting message => [message]
  | _ => []

/-- The drain loop has begun. -/
def LoggerControl.Drains : LoggerControl → Prop
  | draining => True
  | drainWriting _ => True
  | returned => True
  | _ => False

/-- The threads that `main` has joined. -/
def MainControl.Joined : MainControl → Producer → Prop
  | waiting, _ => False
  | stopping .listener, _ => False
  | joining .listener, _ => False
  | stopping .parser, p => p = .listener
  | joining .parser, p => p = .listener
  | stopping .logic, p => p = .listener ∨ p = .parser
  | joining .logic, p => p = .listener ∨ p = .parser
  | stoppingLogger, _ => True
  | joiningLogger, _ => True
  | finished, _ => True

/-- The logger has been stopped. -/
def MainControl.StoppedLogger : MainControl → Prop
  | joiningLogger => True
  | finished => True
  | _ => False

structure LoggingInv (s : Logging) : Prop where
  unbounded : s.queue.maxSize = 0
  /-- what is written, in hand and queued is what was pushed -/
  conserved : s.written ++ s.logger.inHand ++ s.queue.items = s.pushed
  joined : ∀ p, s.main.Joined p → s.producers p = .returned
  stopped : s.loggerStop = true → s.main.StoppedLogger
  drains : s.logger.Drains → s.loggerStop = true
  emptied : s.logger = .returned → s.queue.items = []

namespace LoggingInv

variable {s t : Logging}

theorem start : LoggingInv {} where
  unbounded := rfl
  conserved := rfl
  joined := nofun
  stopped := nofun
  drains := nofun
  emptied := fun _ => rfl

/-- Nobody pushes any more once the logger has been stopped. -/
theorem all_returned (h : LoggingInv s) (hstop : s.loggerStop = true) (p : Producer) : s.producers p = .returned := by
  apply h.joined
  have hmain := h.stopped hstop
  cases hm : s.main with
  | joiningLogger => trivial
  | finished => trivial
  | waiting => rw [hm] at hmain; exact hmain.elim
  | stopping p => rw [hm] at hmain; exact hmain.elim
  | joining p => rw [hm] at hmain; exact hmain.elim
  | stoppingLogger => rw [hm] at hmain; exact hmain.elim

/-- A push into the unbounded log queue. -/
theorem push_eq (h : LoggingInv s) {message : String} {q : ThreadSafeQueue String}
    (hq : s.queue.push message false = some (q, true)) :
    q.maxSize = 0 ∧ s.written ++ s.logger.inHand ++ q.items = s.pushed ++ [message] := by
  simp only [ThreadSafeQueue.push, h.unbounded] at hq
  cases hq
  exact ⟨rfl, by rw [← h.conserved, List.append_assoc _ s.queue.items]⟩

/-- While a producer has not returned, the logger has not. -/
theorem not_returned (h : LoggingInv s) {p : Producer} (hp : s.producers p ≠ .returned) : s.logger ≠ .returned := by
  intro hr
  have hd : s.logger.Drains := by rw [hr]; trivial
  exact hp (h.all_returned (h.drains hd) p)

/-- A producer moves on to a place that is not `returned`, or returns. -/
theorem joined_update (h : LoggingInv s) {p : Producer} (hp : s.producers p ≠ .returned) (c : ProducerControl) :
    ∀ r, s.main.Joined r → Function.update s.producers p c r = .returned := by
  intro r hr
  have hne : r ≠ p := by
    rintro rfl
    exact hp (h.joined r hr)
  rw [Function.update_of_ne hne]
  exact h.joined r hr

theorem producerStep (h : LoggingInv s) (hs : ProducerStep s t) : LoggingInv t := by
  cases hs with
  | @push p hp message q hq =>
    obtain ⟨hmax, hconserved⟩ := h.push_eq hq
    have hnr := h.not_returned (p := p) (by rw [hp]; decide)
    exact ⟨hmax, hconserved, h.joined, h.stopped, h.drains, fun hr => absurd hr hnr⟩
  | @leave p hp hstop =>
    exact ⟨h.unbounded, h.conserved, h.joined_update (by rw [hp]; decide) _, h.stopped, h.drains, h.emptied⟩
  | @last p hp message q hq =>
    obtain ⟨hmax, hconserved⟩ := h.push_eq hq
    have hp' : s.producers p ≠ .returned := by rw [hp]; decide
    exact ⟨hmax, hconserved, h.joined_update hp' _, h.stopped, h.drains, fun hr => absurd hr (h.not_returned hp')⟩
  | @returns p hp =>
    have hp' : s.producers p ≠ .returned := by
      rcases hp with hp | hp
      · rw [hp]; decide
      · rw [hp]; decide
    exact ⟨h.unbounded, h.conserved, h.joined_update hp' _, h.stopped, h.drains, h.emptied⟩

/-- What `pop` returns is the oldest message; it returns nothing only from an empty queue. -/
theorem loggerStep (h : LoggingInv s) (hs : LoggerStep s t) : LoggingInv t := by
  have hconserved := h.conserved
  cases hs with
  | test hl =>
    rw [hl] at hconserved
    by_cases hstop : s.loggerStop = true
    · simp only [hstop, if_true]
      exact ⟨h.unbounded, hconserved, h.joined, fun _ => h.stopped hstop, fun _ => rfl, nofun⟩
    · simp only [if_neg hstop]
      exact ⟨h.unbounded, hconserved, h.joined, h.stopped, nofun, nofun⟩
  | @pop hl q message hq =>
    rw [hl] at hconserved
    rcases ThreadSafeQueue.pop_cases hq with ⟨item, hr, hitems, hmax⟩ | ⟨hr, -, -, -⟩
    · cases hr
      refine ⟨hmax.trans h.unbounded, ?_, h.joined, h.stopped, nofun, nofun⟩
      simpa [LoggerControl.inHand, hitems] using hconserved
    · cases hr
  | @stopped hl q hq =>
    rw [hl] at hconserved
    rcases ThreadSafeQueue.pop_cases hq with ⟨item, hr, -, -⟩ | ⟨-, rfl, -, hstop⟩
    · cases hr
    · exact ⟨h.unbounded, hconserved, h.joined, h.stopped, fun _ => hstop, nofun⟩
  | @write message hl =>
    rw [hl] at hconserved
    refine ⟨h.unbounded, ?_, h.joined, h.stopped, nofun, nofun⟩
    simpa [LoggerControl.inHand] using hconserved
  | @drain hl q message hq =>
    have hstop : s.loggerStop = true := h.drains (by rw [hl]; trivial)
    rw [hl] at hconserved
    rcases ThreadSafeQueue.pop_cases hq with ⟨item, hr, hitems, hmax⟩ | ⟨hr, -, -, -⟩
    · cases hr
      refine ⟨hmax.trans h.unbounded, ?_, h.joined, h.stopped, fun _ => hstop, nofun⟩
      simpa [LoggerControl.inHand, hitems] using hconserved
    · cases hr
  | @drained hl q hq =>
    have hstop : s.loggerStop = true := h.drains (by rw [hl]; trivial)
    rw [hl] at hconserved
    rcases ThreadSafeQueue.pop_cases hq with ⟨item, hr, -, -⟩ | ⟨-, rfl, hitems, -⟩
    · cases hr
    · exact ⟨h.unbounded, hconserved, h.joined, h.stopped, fun _ => hstop, fun _ => hitems⟩
  | @drainWrite message hl =>
    have hstop : s.loggerStop = true := h.drains (by rw [hl]; trivial)
    rw [hl] at hconserved
    refine ⟨h.unbounded, ?_, h.joined, h.stopped, fun _ => hstop, nofun⟩
    simpa [LoggerControl.inHand] using hconserved

/-- The logger is not stopped before `main` comes to it. -/
theorem not_stopped (h : LoggingInv s) (hm : ¬s.main.StoppedLogger) : s.loggerStop ≠ true := fun hs => hm (h.stopped hs)

theorem mainStep (h : LoggingInv s) (hs : MainStep s t) : LoggingInv t := by
  cases hs with
  | signal hm =>
    have hnot := h.not_stopped (by rw [hm]; exact id)
    exact ⟨h.unbounded, h.conserved, nofun, fun hs => absurd hs hnot, h.drains, h.emptied⟩
  | @requestStop p hm =>
    have hnot := h.not_stopped (by rw [hm]; exact id)
    have hjoined := h.joined
    rw [hm] at hjoined
    refine ⟨h.unbounded, h.conserved, ?_, fun hs => absurd hs hnot, h.drains, h.emptied⟩
    cases p with
    | listener => exact hjoined
    | parser => exact hjoined
    | logic => exact hjoined
  | @join p hm hr =>
    have hnot := h.not_stopped (by rw [hm]; exact id)
    have hjoined := h.joined
    rw [hm] at hjoined
    refine ⟨h.unbounded, h.conserved, ?_, fun hs => absurd hs hnot, h.drains, h.emptied⟩
    -- the thread just joined, and those before it
    cases p with
    | listener =>
      rintro r rfl
      exact hr
    | parser =>
      rintro r (rfl | rfl)
      · exact hjoined _ rfl
      · exact hr
    | logic =>
      intro r _
      cases r with
      | listener => exact hjoined _ (Or.inl rfl)
      | parser => exact hjoined _ (Or.inr rfl)
      | logic => exact hr
  | requestStopLogger hm =>
    have hjoined := h.joined
    rw [hm] at hjoined
    exact ⟨h.unbounded, h.conserved, hjoined, fun _ => trivial, fun _ => rfl, h.emptied⟩
  | joinLogger hm hr =>
    have hjoined := h.joined
    rw [hm] at hjoined
    exact ⟨h.unbounded, h.conserved, hjoined, fun _ => trivial, h.drains, h.emptied⟩

end LoggingInv

/-- The invariant holds throughout every run. -/
theorem reachable_logging {s : Logging} (hs : loggingSystem.Reachable s) : LoggingInv s := by
  refine hs.invariant (I := LoggingInv) ?_ ?_
  · rintro s rfl
    exact LoggingInv.start
  · rintro s t - h (hstep | hstep | hstep)
    · exact h.producerStep hstep
    · exact h.loggerStep hstep
    · exact h.mainStep hstep

/-! ## Main results -/

/-- **No log line is lost at shutdown.** In every run, when the logger has returned, what it has written is every message
ever pushed, each once and in queue order, and the queue is empty. -/
theorem no_log_line_lost (s : Logging) (hs : loggingSystem.Reachable s) (hr : s.logger = .returned) :
    s.written = s.pushed ∧ s.queue.items = [] := by
  have h := reachable_logging hs
  have hconserved := h.conserved
  rw [hr, h.emptied hr] at hconserved
  exact ⟨by simpa [LoggerControl.inHand] using hconserved, h.emptied hr⟩

/-- The listener pushes two messages, the threads are stopped and joined, and the logger drains both. -/
theorem no_log_line_lost_two :
    ∃ s, loggingSystem.Reachable s ∧ s.logger = .returned ∧ s.pushed = ["up\n", "down\n"] ∧ s.written = s.pushed ∧
      s.queue.items = [] := by
  have h0 : loggingSystem.Reachable {} := .init rfl
  have h1 := h0.step (Or.inl (.push (p := .listener) rfl "up\n" rfl))
  have h2 := h1.step (Or.inr (Or.inr (.signal rfl)))
  have h3 := h2.step (Or.inr (Or.inr (.requestStop rfl)))
  have h4 := h3.step (Or.inl (.leave (p := .listener) rfl rfl))
  have h5 := h4.step (Or.inl (.last (p := .listener) rfl "down\n" rfl))
  have h6 := h5.step (Or.inl (.returns (p := .listener) (Or.inr rfl)))
  have h7 := h6.step (Or.inr (Or.inr (.join rfl rfl)))
  have h8 := h7.step (Or.inr (Or.inr (.requestStop rfl)))
  have h9 := h8.step (Or.inl (.leave (p := .parser) rfl rfl))
  have h10 := h9.step (Or.inl (.returns (p := .parser) (Or.inl rfl)))
  have h11 := h10.step (Or.inr (Or.inr (.join rfl rfl)))
  have h12 := h11.step (Or.inr (Or.inr (.requestStop rfl)))
  have h13 := h12.step (Or.inl (.leave (p := .logic) rfl rfl))
  have h14 := h13.step (Or.inl (.returns (p := .logic) (Or.inl rfl)))
  have h15 := h14.step (Or.inr (Or.inr (.join rfl rfl)))
  have h16 := h15.step (Or.inr (Or.inr (.requestStopLogger rfl)))
  have h17 := h16.step (Or.inr (Or.inl (.test rfl)))
  have h18 := h17.step (Or.inr (Or.inl (.drain rfl rfl)))
  have h19 := h18.step (Or.inr (Or.inl (.drainWrite rfl)))
  have h20 := h19.step (Or.inr (Or.inl (.drain rfl rfl)))
  have h21 := h20.step (Or.inr (Or.inl (.drainWrite rfl)))
  have h22 := h21.step (Or.inr (Or.inl (.drained rfl rfl)))
  exact ⟨_, h22, rfl, rfl, no_log_line_lost _ h22 rfl⟩

/-- How far the logger is from returning once it has been stopped. -/
def LoggerControl.distance (queued : Nat) : LoggerControl → Nat
  | returned => 0
  | draining => 2 * queued + 1
  | drainWriting _ => 2 * queued + 2
  | test => 2 * queued + 2
  | writing _ => 2 * queued + 3
  | popping => 2 * queued + 2

/-- A logger that has been stopped makes a step, and each brings it nearer to its return. -/
theorem logger_progress {s : Logging} (hstop : s.loggerStop = true) (hr : s.logger ≠ .returned) :
    ∃ t, LoggerStep s t ∧ t.loggerStop = true ∧
      t.logger.distance t.queue.items.length < s.logger.distance s.queue.items.length := by
  cases hl : s.logger with
  | returned => exact absurd hl hr
  | test =>
    refine ⟨_, .test hl, hstop, ?_⟩
    simp [hstop, LoggerControl.distance]
  | writing message => exact ⟨_, .write hl, hstop, Nat.lt_succ_self _⟩
  | drainWriting message => exact ⟨_, .drainWrite hl, hstop, Nat.lt_succ_self _⟩
  | popping =>
    cases hi : s.queue.items with
    | nil =>
      have hq : s.queue.pop s.loggerStop = some (s.queue, none) := by simp [ThreadSafeQueue.pop, hi, hstop]
      refine ⟨_, .stopped hl hq, hstop, ?_⟩
      simp [hi, LoggerControl.distance]
    | cons message rest =>
      have hq : s.queue.pop s.loggerStop = some ({ s.queue with items := rest }, some message) := by
        simp [ThreadSafeQueue.pop, hi]
      refine ⟨_, .pop hl hq, hstop, ?_⟩
      simp only [LoggerControl.distance, List.length_cons]
      omega
  | draining =>
    cases hi : s.queue.items with
    | nil =>
      have hq : s.queue.pop true = some (s.queue, none) := by simp [ThreadSafeQueue.pop, hi]
      refine ⟨_, .drained hl hq, hstop, ?_⟩
      simp [LoggerControl.distance]
    | cons message rest =>
      have hq : s.queue.pop true = some ({ s.queue with items := rest }, some message) := by
        simp [ThreadSafeQueue.pop, hi]
      refine ⟨_, .drain hl hq, hstop, ?_⟩
      simp only [LoggerControl.distance, List.length_cons]
      omega

/-- **The logger returns.** From every state in which its stop has been requested, its own steps bring it to its return. -/
theorem logger_returns (s : Logging) (hstop : s.loggerStop = true) :
    ∃ t, Relation.ReflTransGen LoggerStep s t ∧ t.logger = .returned := by
  generalize hd : s.logger.distance s.queue.items.length = d
  induction d using Nat.strong_induction_on generalizing s with
  | _ d ih =>
    by_cases hr : s.logger = .returned
    · exact ⟨s, .refl, hr⟩
    · obtain ⟨u, hstep, hu, hlt⟩ := logger_progress hstop hr
      rw [hd] at hlt
      obtain ⟨t, hrun, ht⟩ := ih _ hlt u hu rfl
      exact ⟨t, .head hstep hrun, ht⟩

end CounterDrone

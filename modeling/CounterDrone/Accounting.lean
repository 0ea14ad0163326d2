import Mathlib
import CounterDrone.BusinessLogic

/-!
# Accounts of the business logic

`BusinessLogic::run` over a whole sequence of packets and clock readings: the table, the counters, the alerts and the
report windows. `Ledger` is the state of the loop with what it has logged and the reports it has made; `Accounts` says
how all of them follow from the packets handled, one packet keeps it (`Accounts.handle`) and so does a run
(`accounts_handleAll`). `run_accounts` is the whole of `run`, its first and last messages included.
-/

namespace CounterDrone

namespace BusinessLogic

/-! ## Messages -/

/-- The alerts a packet is owed: altitude first, then speed. -/
def alertsOwed (fmt : Format) (telemetry : Telemetry) : List String :=
  (if doubleGt telemetry.altitude ALTITUDE_THRESHOLD then [altitudeAlert fmt telemetry] else []) ++
    if doubleGt telemetry.speed SPEED_THRESHOLD then [speedAlert fmt telemetry] else []

/-- Messages that begin with the alert tag. -/
def isAlert : String → Bool := begins "[ALERT]"

/-- Messages that begin with the tag of the reports. -/
def isThroughput : String → Bool := begins "[Throughput]"

/-- A throughput report: when it is made, the nanoseconds and the packets of its interval, and the packets and the drones
of the whole run. -/
structure Report where
  time : Int
  interval : Int
  intervalPackets : BitVec 64
  packets : BitVec 64
  drones : Nat

/-- The report that `report_throughput` makes at a clock reading, if the interval has elapsed. -/
def reportDue (b : BusinessLogic) (now : Int) : List Report :=
  if now - b.lastReportTime < REPORT_INTERVAL then []
  else [⟨now, now - b.lastReportTime, b.packetsProcessed - b.packetsAtLastReport, b.packetsProcessed, b.activeDroneCount⟩]

/-- The line of a report, in a run that has started at a clock reading. -/
def reportLine (fmt : Format) (startTime : Int) (r : Report) : String :=
  throughputText fmt r.intervalPackets r.interval r.packets (r.time - startTime) r.drones

variable {fmt : Format} {b : BusinessLogic}

theorem checkAlerts_eq (telemetry : Telemetry) : checkAlerts fmt telemetry = alertsOwed fmt telemetry := rfl

/-- What is logged by `report_throughput` is the line of the report that is due. -/
theorem reportThroughput_log (b : BusinessLogic) (now : Int) :
    (b.reportThroughput fmt now).2 = (b.reportDue now).map (reportLine fmt b.startTime) := by
  unfold reportThroughput reportDue
  split
  · rfl
  · rfl

/-! ### How they begin -/

theorem isAlert_alertsOwed (telemetry : Telemetry) : ∀ m ∈ alertsOwed fmt telemetry, isAlert m = true := by
  intro m hm
  simp only [alertsOwed, List.mem_append, List.mem_ite_nil_right, List.mem_singleton] at hm
  rcases hm with ⟨-, rfl⟩ | ⟨-, rfl⟩
  · delta isAlert altitudeAlert
    simp [begins]
  · delta isAlert speedAlert
    simp [begins]

theorem isThroughput_reportLine (startTime : Int) (r : Report) : isThroughput (reportLine fmt startTime r) = true := by
  delta isThroughput reportLine throughputText
  simp [begins]

theorem begins_logicRunningText : begins "[BusinessLogic]" logicRunningText = true := by
  simp [begins, logicRunningText]

theorem begins_logicShutdownText (now : Int) : begins "[BusinessLogic]" (logicShutdownText fmt b now) = true := by
  delta logicShutdownText
  simp [begins]

/-- An alert is no report, and the first and last messages are neither. -/
theorem not_isThroughput {message : String} (h : isAlert message = true) : isThroughput message = false :=
  @begins_false "[ALERT]" _ _ h (by simp) (by simp)

theorem not_isAlert {message : String} (h : isThroughput message = true) : isAlert message = false :=
  @begins_false "[Throughput]" _ _ h (by simp) (by simp)

theorem own_message {message : String} (h : begins "[BusinessLogic]" message = true) :
    isAlert message = false ∧ isThroughput message = false :=
  ⟨@begins_false _ "[ALERT]" _ h (by simp) (by simp), @begins_false _ "[Throughput]" _ h (by simp) (by simp)⟩

/-! ## The loop -/

/-- The loop of `run`: its state, what it has logged, and the reports it has made. -/
structure Ledger where
  state : BusinessLogic
  log : List String
  reports : List Report

/-- A packet in the table and in the counter. -/
def countPacket (b : BusinessLogic) (telemetry : Telemetry) : BusinessLogic :=
  { b with
    drones := b.drones.insert telemetry.droneId telemetry
    packetsProcessed := b.packetsProcessed + 1 }

/-- One packet, handled at a clock reading. -/
def Ledger.handle (fmt : Format) (l : Ledger) (p : Telemetry × Int) : Ledger where
  state := (l.state.handleTelemetry fmt p.1 p.2).1
  log := l.log ++ (l.state.handleTelemetry fmt p.1 p.2).2
  reports := l.reports ++ (l.state.countPacket p.1).reportDue p.2

/-- The loop over a sequence of packets, each with the clock reading at which it is handled. -/
def handleAll (fmt : Format) (startTime : Int) (packets : List (Telemetry × Int)) : Ledger :=
  packets.foldl (Ledger.handle fmt) ⟨start startTime, [], []⟩

/-- What `run` logs: its first message, the messages of the loop, its last message. -/
def runLog (fmt : Format) (startTime : Int) (packets : List (Telemetry × Int)) (stopTime : Int) : List String :=
  logicRunningText :: (handleAll fmt startTime packets).log ++
    [logicShutdownText fmt (handleAll fmt startTime packets).state stopTime]

/-! ## The accounts -/

/-- How the ledger follows from the packets handled since the start. -/
structure Accounts (fmt : Format) (startTime : Int) (l : Ledger) (handled : List Telemetry) : Prop where
  tracks : Tracks l.state handled
  started : l.state.startTime = startTime
  alerts : l.log.filter isAlert = handled.flatMap (alertsOwed fmt)
  lines : l.log.filter isThroughput = l.reports.map (reportLine fmt startTime)
  /-- the subtraction of `report_throughput` does not wrap -/
  snapshot_le : l.state.packetsAtLastReport.toNat ≤ l.state.packetsProcessed.toNat
  /-- reports are an interval apart, the first from the start -/
  spaced : List.IsChain (fun earlier later => earlier + REPORT_INTERVAL ≤ later) (startTime :: l.reports.map (·.time))
  lastReport : l.state.lastReportTime = (startTime :: l.reports.map (·.time)).getLast (List.cons_ne_nil _ _)
  /-- what has been reported is what there was at the last report -/
  reported : (l.reports.map (·.intervalPackets.toNat)).sum = l.state.packetsAtLastReport.toNat

theorem accounts_start (fmt : Format) (startTime : Int) : Accounts fmt startTime ⟨start startTime, [], []⟩ [] where
  tracks := tracks_start startTime
  started := rfl
  alerts := rfl
  lines := rfl
  snapshot_le := le_rfl
  spaced := by simp
  lastReport := rfl
  reported := rfl

/-- One packet counts it in the table and may then report. -/
theorem handleTelemetry_eq (b : BusinessLogic) (telemetry : Telemetry) (now : Int) :
    b.handleTelemetry fmt telemetry now = (((b.countPacket telemetry).reportThroughput fmt now).1,
      alertsOwed fmt telemetry ++ ((b.countPacket telemetry).reportDue now).map (reportLine fmt b.startTime)) := by
  rw [← checkAlerts_eq]
  exact Prod.ext rfl (congrArg (checkAlerts fmt telemetry ++ ·) (reportThroughput_log (b.countPacket telemetry) now))

/-- What is logged for one packet are alerts and reports. -/
theorem handleTelemetry_tags {telemetry : Telemetry} {now : Int} {m : String}
    (hm : m ∈ (b.handleTelemetry fmt telemetry now).2) : isAlert m = true ∨ isThroughput m = true := by
  rw [handleTelemetry_eq] at hm
  rcases List.mem_append.mp hm with hm | hm
  · exact Or.inl (isAlert_alertsOwed telemetry m hm)
  · obtain ⟨r, -, rfl⟩ := List.mem_map.mp hm
    exact Or.inr (isThroughput_reportLine b.startTime r)

/-- The alerts and the reports among the messages of one packet. -/
theorem filter_handleTelemetry (b : BusinessLogic) (telemetry : Telemetry) (now : Int) :
    (b.handleTelemetry fmt telemetry now).2.filter isAlert = alertsOwed fmt telemetry ∧
    (b.handleTelemetry fmt telemetry now).2.filter isThroughput =
      ((b.countPacket telemetry).reportDue now).map (reportLine fmt b.startTime) := by
  have hreport : ∀ m ∈ ((b.countPacket telemetry).reportDue now).map (reportLine fmt b.startTime), isThroughput m = true := by
    intro m hm
    obtain ⟨r, -, rfl⟩ := List.mem_map.mp hm
    exact isThroughput_reportLine b.startTime r
  have halert := @isAlert_alertsOwed fmt telemetry
  rw [handleTelemetry_eq, List.filter_append, List.filter_append, List.filter_eq_self.mpr halert,
    List.filter_eq_self.mpr hreport]
  refine ⟨?_, ?_⟩
  · rw [List.filter_eq_nil_iff.mpr fun m hm => by simp [not_isAlert (hreport m hm)], List.append_nil]
  · rw [List.filter_eq_nil_iff.mpr fun m hm => by simp [not_isThroughput (halert m hm)], List.nil_append]

/-- The two ways a report goes: not due and nothing changes, or made now with the counter as its snapshot. -/
theorem reportThroughput_cases (fmt : Format) (b : BusinessLogic) (now : Int) :
    (b.reportDue now = [] ∧ (b.reportThroughput fmt now).1 = b) ∨
    (b.reportDue now = [⟨now, now - b.lastReportTime, b.packetsProcessed - b.packetsAtLastReport, b.packetsProcessed,
        b.activeDroneCount⟩] ∧ b.lastReportTime + REPORT_INTERVAL ≤ now ∧
      (b.reportThroughput fmt now).1 = { b with lastReportTime := now, packetsAtLastReport := b.packetsProcessed }) := by
  unfold reportDue reportThroughput
  split
  · exact Or.inl ⟨rfl, rfl⟩
  · exact Or.inr ⟨rfl, by omega, rfl⟩

/-- The counter goes up by one below its range. -/
theorem Tracks.toNat_succ {handled : List Telemetry} (h : Tracks b handled) (hlen : handled.length + 1 < 2 ^ 64) :
    (b.packetsProcessed + 1).toNat = b.packetsProcessed.toNat + 1 := by
  have := h.count
  rw [BitVec.toNat_add]
  simp only [BitVec.ofNat_eq_ofNat, BitVec.toNat_ofNat]
  omega

variable {startTime : Int} {l : Ledger} {handled : List Telemetry}

/-- **One packet keeps the accounts.** -/
theorem Accounts.handle (h : Accounts fmt startTime l handled) (p : Telemetry × Int)
    (hlen : handled.length + 1 < 2 ^ 64) : Accounts fmt startTime (l.handle fmt p) (handled ++ [p.1]) := by
  have hsucc := h.tracks.toNat_succ hlen
  have hstate : (l.handle fmt p).state = ((l.state.countPacket p.1).reportThroughput fmt p.2).1 := rfl
  have hreports : (l.handle fmt p).reports = l.reports ++ (l.state.countPacket p.1).reportDue p.2 := rfl
  have htracks : Tracks (l.handle fmt p).state (handled ++ [p.1]) := h.tracks.handleTelemetry p.1 p.2
  have halerts : (l.handle fmt p).log.filter isAlert = (handled ++ [p.1]).flatMap (alertsOwed fmt) := by
    rw [Ledger.handle, List.filter_append, h.alerts, (filter_handleTelemetry _ _ _).1, List.flatMap_append]
    simp
  have hlines : (l.handle fmt p).log.filter isThroughput = (l.handle fmt p).reports.map (reportLine fmt startTime) := by
    rw [hreports, Ledger.handle, List.filter_append, h.lines, (filter_handleTelemetry _ _ _).2, h.started, List.map_append]
  rcases reportThroughput_cases fmt (l.state.countPacket p.1) p.2 with ⟨hdue, hafter⟩ | ⟨hdue, htime, hafter⟩
  · rw [hdue, List.append_nil] at hreports
    rw [hafter] at hstate
    refine ⟨htracks, ?_, halerts, hlines, ?_, ?_, ?_, ?_⟩
    · rw [hstate]
      exact h.started
    · rw [hstate]
      have := h.snapshot_le
      simp only [countPacket, hsucc]
      omega
    · rw [hreports]
      exact h.spaced
    · simp only [hstate, hreports]
      exact h.lastReport
    · rw [hstate, hreports]
      exact h.reported
  · rw [hdue] at hreports
    rw [hafter] at hstate
    refine ⟨htracks, ?_, halerts, hlines, ?_, ?_, ?_, ?_⟩
    · rw [hstate]
      exact h.started
    · rw [hstate]
    · rw [hreports, List.map_append, ← List.cons_append, List.isChain_append]
      refine ⟨h.spaced, by simp, ?_⟩
      intro x hx y hy
      rw [List.getLast?_eq_some_getLast (List.cons_ne_nil _ _), Option.mem_some_iff] at hx
      simp only [List.map_cons, List.map_nil, List.head?_cons, Option.mem_some_iff] at hy
      have hlast := h.lastReport
      rw [hx] at hlast
      rw [← hlast, ← hy]
      exact htime
    · simp only [hstate, hreports]
      simp
    · rw [hstate, hreports, List.map_append, List.sum_append, h.reported]
      have hle := h.snapshot_le
      simp only [countPacket, List.map_cons, List.map_nil, List.sum_cons, List.sum_nil, hsucc, BitVec.toNat_sub]
      omega

/-- **A run keeps the accounts.** -/
theorem accounts_handleAll (fmt : Format) (startTime : Int) (packets : List (Telemetry × Int))
    (hlen : packets.length < 2 ^ 64) : Accounts fmt startTime (handleAll fmt startTime packets) (packets.map (·.1)) := by
  induction packets using List.reverseRecOn with
  | nil => exact accounts_start fmt startTime
  | append_singleton packets p ih =>
    rw [List.length_append, List.length_singleton] at hlen
    have hstep := (ih (by omega)).handle p (by rw [List.length_map]; omega)
    rw [handleAll, List.foldl_append, List.map_append]
    exact hstep

/-- **The accounts of a whole run**: the last packet of each id and the number of ids, the number of packets, the alerts
in packet order and no others, the lines of the reports in order and no others, and report windows that are an interval
apart and count each packet once. -/
theorem run_accounts (fmt : Format) (startTime stopTime : Int) (packets : List (Telemetry × Int))
    (hlen : packets.length < 2 ^ 64) :
    (∀ id, (handleAll fmt startTime packets).state.drones.lookup id =
      ((packets.map (·.1)).filter fun t => t.droneId = id).getLast?) ∧
    (handleAll fmt startTime packets).state.activeDroneCount = ((packets.map (·.1)).map (·.droneId)).toFinset.card ∧
    (handleAll fmt startTime packets).state.packetsProcessed.toNat = packets.length ∧
    (runLog fmt startTime packets stopTime).filter isAlert = (packets.map (·.1)).flatMap (alertsOwed fmt) ∧
    (runLog fmt startTime packets stopTime).filter isThroughput =
      (handleAll fmt startTime packets).reports.map (reportLine fmt startTime) ∧
    (handleAll fmt startTime packets).state.packetsAtLastReport.toNat ≤
      (handleAll fmt startTime packets).state.packetsProcessed.toNat ∧
    List.IsChain (fun earlier later => earlier + REPORT_INTERVAL ≤ later)
      (startTime :: (handleAll fmt startTime packets).reports.map (·.time)) ∧
    ((handleAll fmt startTime packets).reports.map (·.intervalPackets.toNat)).sum +
      ((handleAll fmt startTime packets).state.packetsProcessed -
        (handleAll fmt startTime packets).state.packetsAtLastReport).toNat =
      (handleAll fmt startTime packets).state.packetsProcessed.toNat := by
  have h := accounts_handleAll fmt startTime packets hlen
  obtain ⟨hfirst, hfirst'⟩ := own_message begins_logicRunningText
  obtain ⟨hlast, hlast'⟩ := own_message (@begins_logicShutdownText fmt (handleAll fmt startTime packets).state stopTime)
  refine ⟨h.tracks.drones, h.tracks.activeDroneCount, ?_, ?_, ?_, h.snapshot_le, h.spaced, ?_⟩
  · rw [h.tracks.count, List.length_map, Nat.mod_eq_of_lt hlen]
  · simp [runLog, List.filter_append, h.alerts, hfirst, hlast]
  · simp [runLog, List.filter_append, h.lines, hfirst', hlast']
  · rw [h.reported, BitVec.toNat_sub_of_le h.snapshot_le]
    have := h.snapshot_le
    omega

/-- Two packets of one drone, the second of them six seconds after the start: one alert and one report. -/
theorem run_accounts_two :
    let fmt : Format := ⟨fun _ => "D", fun _ => "0.0", fun _ _ => "0.0"⟩
    let high : Telemetry := ⟨[0x44], 0, 0, 0x4069000000000000, 0, 1⟩
    let packets : List (Telemetry × Int) := [(high, 1000), (⟨[0x44], 0, 0, 0, 0, 2⟩, 6000000000)]
    (handleAll fmt 0 packets).state.packetsProcessed.toNat = 2 ∧
    (runLog fmt 0 packets 7000000000).filter isAlert = [altitudeAlert fmt high] ∧
    (runLog fmt 0 packets 7000000000).filter isThroughput = [throughputText fmt 2 6000000000 2 6000000000 1] := by
  intro fmt high packets
  obtain ⟨-, -, hcount, halerts, hlines, -⟩ := run_accounts fmt 0 7000000000 packets (by decide)
  have hgt : doubleGt high.altitude ALTITUDE_THRESHOLD = true := by decide
  have hle : doubleGt 0 ALTITUDE_THRESHOLD = false := by decide
  have hspeed : doubleGt 0 SPEED_THRESHOLD = false := by decide
  refine ⟨hcount, halerts.trans ?_, hlines.trans ?_⟩
  · simp only [packets, List.map_cons, List.map_nil, List.flatMap_cons, List.flatMap_nil, alertsOwed, hgt, hle,
      show doubleGt high.speed SPEED_THRESHOLD = false from hspeed, hspeed]
    rfl
  · rfl

end BusinessLogic

end CounterDrone

import Mathlib
import CounterDrone.Telemetry

/-!
# The business logic

`BusinessLogic` of `businessLogic.cpp`: the table of drones, the packet counters, the alerts and the throughput
reports. `double` values are their 64-bit patterns, compared as IEEE 754 says; how they are printed is a parameter
(`Format`). Times are nanoseconds of the steady clock.
-/

namespace CounterDrone

/-! ## Doubles -/

/-- The exponent is all ones and the significand is not zero. -/
def isNaN (x : BitVec 64) : Bool := (x.toNat / 2 ^ 52) % 2 ^ 11 = 2 ^ 11 - 1 ∧ x.toNat % 2 ^ 52 ≠ 0

/-- The place of a pattern in the order of doubles: both zeros are at `0`. -/
def doubleRank (x : BitVec 64) : Int := if x.toNat < 2 ^ 63 then x.toNat else -((x.toNat - 2 ^ 63 : Nat) : Int)

/-- `x > y` on doubles. -/
def doubleGt (x y : BitVec 64) : Bool := !isNaN x && !isNaN y && decide (doubleRank x > doubleRank y)

/-- Altitude alert threshold, `120.0`. -/
def ALTITUDE_THRESHOLD : BitVec 64 := 0x405E000000000000

/-- Speed alert threshold, `50.0`. -/
def SPEED_THRESHOLD : BitVec 64 := 0x4049000000000000

/-- Interval between periodic throughput reports: five seconds. -/
def REPORT_INTERVAL : Int := 5000000000

/-- How values are printed. -/
structure Format where
  /-- the bytes of a string -/
  bytes : List Byte → String
  /-- a `double` -/
  double : BitVec 64 → String
  /-- packets for each second over a number of nanoseconds, with one decimal -/
  rate : BitVec 64 → Int → String

/-! ## Messages -/

/-- A message begins with a tag. -/
def begins (tag message : String) : Bool := tag.toList.isPrefixOf message.toList

/-- Two tags of which neither begins with the other. -/
theorem begins_false {tag tag' message : String} (h : begins tag message = true) (hne : ¬tag'.toList <+: tag.toList)
    (hne' : ¬tag.toList <+: tag'.toList) : begins tag' message = false := by
  by_contra hb
  have h₁ : tag.toList <+: message.toList := List.isPrefixOf_iff_prefix.mp h
  have h₂ : tag'.toList <+: message.toList := List.isPrefixOf_iff_prefix.mp (Bool.eq_true_of_not_eq_false hb)
  rcases List.prefix_or_prefix_of_prefix h₁ h₂ with hp | hp
  · exact hne' hp
  · exact hne hp

/-- The first message of `BusinessLogic::run`. -/
def logicRunningText : String := "[BusinessLogic] Running\n"

/-! ## The state -/

/-- The drone table and the counters. -/
structure BusinessLogic where
  drones : AList fun _ : List Byte => Telemetry := ∅
  packetsProcessed : BitVec 64 := 0
  startTime : Int := 0
  lastReportTime : Int := 0
  packetsAtLastReport : BitVec 64 := 0

namespace BusinessLogic

/-- The state in which the loop of `run` starts. -/
def start (now : Int) : BusinessLogic := { startTime := now, lastReportTime := now }

/-- `active_drone_count`. -/
def activeDroneCount (b : BusinessLogic) : Nat := b.drones.keys.length

variable (fmt : Format)

/-- The altitude alert of a packet. -/
def altitudeAlert (telemetry : Telemetry) : String :=
  "[ALERT] Drone " ++ fmt.bytes telemetry.droneId ++ " altitude " ++ fmt.double telemetry.altitude ++
    " exceeds threshold " ++ fmt.double ALTITUDE_THRESHOLD ++ "\n"

/-- The speed alert of a packet. -/
def speedAlert (telemetry : Telemetry) : String :=
  "[ALERT] Drone " ++ fmt.bytes telemetry.droneId ++ " speed " ++ fmt.double telemetry.speed ++
    " exceeds threshold " ++ fmt.double SPEED_THRESHOLD ++ "\n"

/-- `check_alerts`: the messages it pushes. -/
def checkAlerts (telemetry : Telemetry) : List String :=
  (if doubleGt telemetry.altitude ALTITUDE_THRESHOLD then [altitudeAlert fmt telemetry] else []) ++
    if doubleGt telemetry.speed SPEED_THRESHOLD then [speedAlert fmt telemetry] else []

/-- A throughput report: the packets of the interval and of the whole run, with the nanoseconds that each has lasted, and
the number of drones. -/
def throughputText (intervalPackets : BitVec 64) (interval : Int) (packets : BitVec 64) (elapsed : Int) (drones : Nat) :
    String :=
  "[Throughput] " ++ fmt.rate intervalPackets interval ++ " pkt/s (interval), " ++ fmt.rate packets elapsed ++
    " pkt/s (avg), " ++ toString packets.toNat ++ " total, " ++ toString drones ++ " drones\n"

/-- `report_throughput` at a clock reading: the state after it, and the messages it pushes. Elapsed nanoseconds below five
seconds are below `5.0` as a `double` of seconds, and only these. -/
def reportThroughput (b : BusinessLogic) (now : Int) : BusinessLogic × List String :=
  if now - b.lastReportTime < REPORT_INTERVAL then (b, [])
  else
    let intervalPackets := b.packetsProcessed - b.packetsAtLastReport
    ({ b with lastReportTime := now, packetsAtLastReport := b.packetsProcessed },
      [throughputText fmt intervalPackets (now - b.lastReportTime) b.packetsProcessed (now - b.startTime)
        b.activeDroneCount])

/-- The body of the loop of `run` for one packet, at a clock reading. -/
def handleTelemetry (b : BusinessLogic) (telemetry : Telemetry) (now : Int) : BusinessLogic × List String :=
  let b := { b with
    drones := b.drones.insert telemetry.droneId telemetry
    packetsProcessed := b.packetsProcessed + 1 }
  let report := b.reportThroughput fmt now
  (report.1, checkAlerts fmt telemetry ++ report.2)

/-! ## The table -/

variable {fmt}

/-- A report changes neither the table nor the counter. -/
theorem drones_reportThroughput (b : BusinessLogic) (now : Int) :
    (b.reportThroughput fmt now).1.drones = b.drones ∧
      (b.reportThroughput fmt now).1.packetsProcessed = b.packetsProcessed := by
  unfold reportThroughput
  split
  · exact ⟨rfl, rfl⟩
  · exact ⟨rfl, rfl⟩

/-- What the table and the counter are after the packets handled so far: the last packet of each id, and no other id. -/
structure Tracks (b : BusinessLogic) (handled : List Telemetry) : Prop where
  drones : ∀ id, b.drones.lookup id = (handled.filter fun t => t.droneId = id).getLast?
  count : b.packetsProcessed.toNat = handled.length % 2 ^ 64

theorem tracks_start (now : Int) : Tracks (start now) [] := ⟨fun _ => rfl, rfl⟩

/-- One more packet. -/
theorem Tracks.handleTelemetry {b : BusinessLogic} {handled : List Telemetry} (h : Tracks b handled) (telemetry : Telemetry)
    (now : Int) : Tracks (b.handleTelemetry fmt telemetry now).1 (handled ++ [telemetry]) := by
  obtain ⟨hdrones, hcount⟩ := @drones_reportThroughput fmt
    { b with drones := b.drones.insert telemetry.droneId telemetry, packetsProcessed := b.packetsProcessed + 1 } now
  constructor
  · intro id
    rw [BusinessLogic.handleTelemetry, hdrones, List.filter_append]
    by_cases hid : telemetry.droneId = id
    · rw [List.filter_cons_of_pos (by simpa using hid), List.filter_nil, List.getLast?_concat, ← hid, AList.lookup_insert]
    · rw [List.filter_cons_of_neg (by simpa using hid), List.filter_nil, List.append_nil,
        AList.lookup_insert_ne (Ne.symm hid), h.drones id]
  · rw [BusinessLogic.handleTelemetry, hcount, BitVec.toNat_add, h.count, List.length_append, List.length_singleton]
    simp

/-- The table has one entry for each id that occurred. -/
theorem Tracks.activeDroneCount {b : BusinessLogic} {handled : List Telemetry} (h : b.Tracks handled) :
    b.activeDroneCount = (handled.map (·.droneId)).toFinset.card := by
  rw [BusinessLogic.activeDroneCount, ← List.toFinset_card_of_nodup b.drones.keys_nodup]
  congr 1
  ext id
  rw [List.mem_toFinset, List.mem_toFinset, ← AList.mem_keys, ← AList.lookup_isSome, h.drones,
    Option.isSome_iff_ne_none, Ne, List.getLast?_eq_none_iff, List.filter_eq_nil_iff]
  simp

end BusinessLogic

/-- The last message of `BusinessLogic::run`, at a clock reading. -/
def logicShutdownText (fmt : Format) (b : BusinessLogic) (now : Int) : String :=
  "[BusinessLogic] Shutting down (processed " ++ toString b.packetsProcessed.toNat ++ " packets, " ++
    toString b.activeDroneCount ++ " unique drones, avg " ++ fmt.rate b.packetsProcessed (now - b.startTime) ++ " pkt/s)\n"

end CounterDrone

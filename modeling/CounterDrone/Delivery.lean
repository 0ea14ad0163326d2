import Mathlib
import CounterDrone.Isolation
import CounterDrone.Resync
import CounterDrone.Encoder
import CounterDrone.Progress

/-!
# From a connection to the parsed queue

The parser only sees descriptor numbers, which the listener reuses. Over the chunks of one descriptor it nevertheless
makes, for each connection that was registered under it, the moves of the reference scan of the bytes of that connection,
and then forgets them (`run_connections`). So in every run of the server:

* `server_delivers`: once the raw queue is empty, what has been pushed to the parsed queue is, for each descriptor, the
  telemetry that the scans of its connections emit, and the failure counter adds up their failures;
* `parser_state_of_connections`: the parser then has state exactly for the open connections from which something has been
  received;
* `drone_traced`: at every moment, an entry of the drone table was read from a valid frame of one connection;
* `packets_delivered`: where the peers send packets of the encoder, every packet that has been received as a whole is
  delivered once and no failure is counted.
-/

namespace CounterDrone

variable {native : Endian}

/-! ## One connection -/

/-- What the parser does with the chunks of a connection. -/
def connectionEffects (native : Endian) (c : Connection) : List Effect :=
  scanEffects native c.received.flatten ++ if c.closed then [.pushLog (cleanedUpText c.fd)] else []

/-- The entry of the parser after the chunks of a connection. -/
structure EntryAfter (native : Endian) (chunks : List (List Byte)) (entry : Option ClientState) : Prop where
  isSome : entry.isSome ↔ chunks ≠ []
  state : ∀ st, entry = some st → Sound st ∧ st.unread = (frameScan native chunks.flatten).2

/-- The chunks of a connection from no entry. -/
theorem run_session (f : Int) {chunks : List (List Byte)} (hcut : ∀ d ∈ chunks, d ≠ [] ∧ d.length ≤ RECV_BUF_SIZE) :
    ∃ entry, runKey (clientStep native f) none chunks = (entry, scanEffects native chunks.flatten) ∧
      EntryAfter native chunks entry := by
  obtain ⟨p', hrun, hs, hrest, _, hsome⟩ := handleChunks_session native (p := {}) (c := f) rfl hcut
  have hown : chunksOf f (chunks.map (DataChunk.mk f)) = chunks.map (DataChunk.mk f) :=
    List.filter_eq_self.mpr fun chunk hm => by
      obtain ⟨d, -, rfl⟩ := List.mem_map.mp hm
      simp
  have hdata : (chunks.map (DataChunk.mk f)).map DataChunk.data = chunks := by
    rw [List.map_map]
    exact List.map_id chunks
  obtain ⟨hstate, hout⟩ := handleChunks_at native f {} (chunks.map (DataChunk.mk f))
  rw [hrun, hown, hdata] at hstate hout
  rw [valuesAt_tag_self] at hout
  refine ⟨p'.clients f, Prod.ext hstate.symm hout.symm, hsome, ?_⟩
  intro st hst
  have hentry : p'.entry f = st := by rw [StreamingParser.entry, hst]; rfl
  rw [← hentry]
  exact ⟨hs, hrest⟩

/-- The data of the chunks of a connection. -/
theorem map_data_block (c : Connection) :
    c.block.map DataChunk.data = c.received ++ if c.closed then [[]] else [] := by
  have hdata : (c.received.map (DataChunk.mk c.fd)).map DataChunk.data = c.received := by
    rw [List.map_map]
    exact List.map_id c.received
  rw [Connection.block, List.map_append, hdata]
  split <;> rfl

/-- The block of a connection from no entry: an entry is left while the connection is open. -/
theorem run_connection {c : Connection} (hcut : ∀ d ∈ c.received, d ≠ [] ∧ d.length ≤ RECV_BUF_SIZE) :
    ∃ entry, runKey (clientStep native c.fd) none (c.block.map DataChunk.data) = (entry, connectionEffects native c) ∧
      (c.closed = true → entry = none) ∧ (c.closed = false → EntryAfter native c.received entry) := by
  obtain ⟨entry, hrun, hentry⟩ := @run_session native c.fd _ hcut
  rw [map_data_block, connectionEffects]
  cases hc : c.closed with
  | false =>
    refine ⟨entry, ?_, ?_, fun _ => hentry⟩
    · simpa using hrun
    · intro h
      cases h
  | true =>
    have hlast : ∀ e, (clientStep native c.fd e []).2 = [.pushLog (cleanedUpText c.fd)] := fun e => by
      simp [clientStep, handleChunk]
    refine ⟨none, ?_, fun _ => rfl, ?_⟩
    · rw [if_pos rfl, runKey_append, hrun]
      simp [runKey, clientStep_empty, hlast]
    · intro h
      cases h

/-! ## The connections of one descriptor -/

/-- The connections of one descriptor, one after the other: each is scanned on its own, and an entry is left for the one
that is open. -/
theorem run_connections {f : Int} : ∀ {cs : List Connection}, (∀ c ∈ cs, c.fd = f) → cs.Pairwise Succeeds →
    (∀ c ∈ cs, ∀ d ∈ c.received, d ≠ [] ∧ d.length ≤ RECV_BUF_SIZE) →
    ∃ entry, runKey (clientStep native f) none ((cs.flatMap Connection.block).map DataChunk.data) =
        (entry, cs.flatMap (connectionEffects native)) ∧
      ((∀ c ∈ cs, c.closed = true) → entry = none) ∧ ∀ c ∈ cs, c.closed = false → EntryAfter native c.received entry
  | [], _, _, _ => ⟨none, rfl, fun _ => rfl, fun _ h => by cases h⟩
  | c :: cs, hfd, hord, hcut => by
    obtain ⟨hafter, hord'⟩ := List.pairwise_cons.mp hord
    have hc := hfd c List.mem_cons_self
    obtain ⟨entry, hrun, hclosed, hopen⟩ := @run_connection native _ (hcut c List.mem_cons_self)
    rw [hc] at hrun
    rw [List.flatMap_cons, List.flatMap_cons, List.map_append, runKey_append, hrun]
    cases hcl : c.closed with
    | true =>
      -- the next connection starts from no entry
      obtain ⟨entry', hrun', hclosed', hopen'⟩ := run_connections (fun a ha => hfd a (List.mem_cons_of_mem _ ha)) hord'
        fun a ha => hcut a (List.mem_cons_of_mem _ ha)
      rw [hclosed hcl, hrun']
      refine ⟨entry', rfl, fun hall => hclosed' fun a ha => hall a (List.mem_cons_of_mem _ ha), ?_⟩
      intro a ha hao
      rcases List.mem_cons.mp ha with rfl | ha
      · rw [hcl] at hao
        cases hao
      · exact hopen' a ha hao
    | false =>
      -- an open connection is the last one
      have hnil : cs = [] := by
        cases cs with
        | nil => rfl
        | cons b cs =>
          have := hafter b List.mem_cons_self (hc.trans (hfd b (List.mem_cons_of_mem _ List.mem_cons_self)).symm)
          rw [hcl] at this
          cases this
      subst hnil
      refine ⟨entry, by simp [runKey], ?_, ?_⟩
      · intro hall
        have := hall c List.mem_cons_self
        rw [hcl] at this
        cases this
      · intro a ha _
        rw [List.mem_singleton.mp ha]
        exact hopen hcl

/-! ## The listener and the parser -/

/-- What the listener has pushed, said of its connections. -/
structure Recorded {σ : Type} (n : Net σ) : Prop where
  order : n.kernel.sessions.Pairwise Succeeds
  framed : QueueFramed n.kernel.sessions n.queue
  sizes : ∀ c ∈ n.kernel.sessions, ∀ d ∈ c.received, d ≠ [] ∧ d.length ≤ RECV_BUF_SIZE
  live : ∀ c ∈ n.kernel.sessions, c.closed = false → c.registered = true

theorem LoopInv.recorded {σ : Type} {n : Net σ} (h : LoopInv n) : Recorded n :=
  ⟨h.owned.order, h.framed, h.owned.sizes, fun c hc hopen => (h.owned.live c hc hopen).1⟩

theorem Net.Unlaunched.recorded {σ : Type} {n : Net σ} (h : n.Unlaunched) : Recorded n := by
  have hs : n.kernel.sessions = [] := by rw [Kernel.sessions, h.connections]; rfl
  refine ⟨?_, ?_, ?_, ?_⟩
  · rw [hs]
    exact List.Pairwise.nil
  · rw [hs, h.queue]
    exact fun f => rfl
  all_goals
    rw [hs]
    intro c hc
    cases hc

theorem ServerInv.recorded {M : SocketModel} {s : Server M.Socket} (h : ServerInv M native s) : Recorded s.net := by
  cases hr : s.running .listener with
  | true => exact (reachable_inv (launched_reachable (h.launched hr))).recorded
  | false => exact (h.unlaunched hr).recorded

theorem mem_under {f : Int} {cs : List Connection} {c : Connection} :
    c ∈ under f cs ↔ c ∈ cs ∧ c.registered = true ∧ c.fd = f := by
  simp [under]

section Recorded

variable {σ : Type} {n : Net σ}

/-- **What the parser does under one descriptor** is what it does for the connections registered under it. -/
theorem Recorded.parser_at (h : Recorded n) (native : Endian) (f : Int) :
    valuesAt f (handleChunks native {} n.queue).2 = (under f n.kernel.sessions).flatMap (connectionEffects native) ∧
    ((∀ c ∈ under f n.kernel.sessions, c.closed = true) → (handleChunks native {} n.queue).1.clients f = none) ∧
    ∀ c ∈ under f n.kernel.sessions, c.closed = false →
      EntryAfter native c.received ((handleChunks native {} n.queue).1.clients f) := by
  obtain ⟨hstate, hout⟩ := handleChunks_at native f {} n.queue
  obtain ⟨entry, hrun, hclosed, hopen⟩ := @run_connections native f (under f n.kernel.sessions)
    (fun c hc => (mem_under.mp hc).2.2) (h.order.filter _) fun c hc => h.sizes c (mem_under.mp hc).1
  have hchunks : chunksOf f n.queue = (under f n.kernel.sessions).flatMap Connection.block := h.framed f
  rw [hchunks, hrun] at hstate hout
  rw [hstate]
  exact ⟨hout, hclosed, hopen⟩

/-- The telemetry of the connections of one descriptor. -/
theorem parsed_connections (native : Endian) (cs : List Connection) :
    parsed (cs.flatMap (connectionEffects native)) =
      cs.flatMap fun c => emitted (frameScan native c.received.flatten).1 := by
  induction cs with
  | nil => rfl
  | cons c cs ih =>
    have hlast : parsed (if c.closed then [Effect.pushLog (cleanedUpText c.fd)] else []) = [] := by split <;> rfl
    rw [List.flatMap_cons, parsed_append, ih, connectionEffects, parsed_append, parsed_moves, hlast, List.append_nil,
      List.flatMap_cons]

/-- The failures of the connections of one descriptor. -/
theorem failures_connections (native : Endian) (cs : List Connection) :
    failures (cs.flatMap (connectionEffects native)) =
      (cs.map fun c => failed (frameScan native c.received.flatten).1).sum := by
  induction cs with
  | nil => rfl
  | cons c cs ih =>
    have hlast : failures (if c.closed then [Effect.pushLog (cleanedUpText c.fd)] else []) = 0 := by split <;> rfl
    rw [List.flatMap_cons, failures_append, ih, connectionEffects, failures_append, failures_moves, hlast, Nat.add_zero,
      List.map_cons, List.sum_cons]

/-- A sum over the registered connections, descriptor by descriptor. -/
theorem sum_under (ids : Finset Int) (g : Connection → Nat) : ∀ {cs : List Connection},
    (∀ c ∈ cs, c.registered = true → c.fd ∈ ids) →
    ∑ f ∈ ids, ((under f cs).map g).sum = ((cs.filter fun c => c.registered).map g).sum
  | [], _ => by simp [under]
  | c :: cs, h => by
    have ih := @sum_under ids g cs fun a ha => h a (List.mem_cons_of_mem _ ha)
    cases hr : c.registered with
    | false =>
      have hskip : ∀ f, under f (c :: cs) = under f cs := fun f => by simp [under, hr]
      simp only [hskip, ih]
      simp [hr]
    | true =>
      have hstep : ∀ f, ((under f (c :: cs)).map g).sum = (if f = c.fd then g c else 0) + ((under f cs).map g).sum := by
        intro f
        by_cases hf : f = c.fd
        · subst hf
          simp [under, hr]
        · simp [under, hr, Ne.symm hf, hf]
      rw [Finset.sum_congr rfl fun f _ => hstep f, Finset.sum_add_distrib, ih, Finset.sum_ite_eq' ids c.fd,
        if_pos (h c List.mem_cons_self hr)]
      simp [hr]

/-- The failures over the chunks of the listener are those of the connections. -/
theorem Recorded.failures (h : Recorded n) (native : Endian) :
    CounterDrone.failures ((handleChunks native {} n.queue).2.map Prod.snd) =
      ((n.kernel.sessions.filter fun c => c.registered).map fun c => failed (frameScan native c.received.flatten).1).sum := by
  rw [failures_sum ((n.queue.map DataChunk.clientId).toFinset ∪ (n.kernel.sessions.map Connection.fd).toFinset)]
  · rw [Finset.sum_congr rfl fun f _ => by rw [(h.parser_at native f).1, failures_connections]]
    apply sum_under
    intro c hc _
    rw [Finset.mem_union, List.mem_toFinset, List.mem_toFinset]
    exact Or.inr (List.mem_map_of_mem hc)
  · intro e he
    obtain ⟨chunk, hm, hid⟩ := exists_chunk_of_mem native he
    rw [Finset.mem_union, List.mem_toFinset, ← hid]
    exact Or.inl (List.mem_map_of_mem hm)

/-- The failure counter adds them up, in 64 bits. -/
theorem Recorded.crcFailures (h : Recorded n) (native : Endian) : (handleChunks native {} n.queue).1.crcFailures =
    BitVec.ofNat 64
      ((n.kernel.sessions.filter fun c => c.registered).map fun c => failed (frameScan native c.received.flatten).1).sum := by
  rw [(handleChunks_keyed native n.queue {}).2.2, h.failures native]
  exact BitVec.zero_add _

end Recorded

/-! ## Telemetry with its descriptor -/

/-- The telemetry that a run pushes, with the descriptor whose chunk was being handled. -/
def tagged (trace : List (Int × Effect)) : List (Int × Telemetry) :=
  trace.filterMap fun
    | (f, .pushParsed t) => some (f, t)
    | _ => none

theorem map_snd_tagged (trace : List (Int × Effect)) : (tagged trace).map Prod.snd = parsed (trace.map Prod.snd) := by
  induction trace with
  | nil => rfl
  | cons e trace ih =>
    obtain ⟨f, effect⟩ := e
    cases effect with
    | pushParsed t => exact congrArg (t :: ·) ih
    | consume n => exact ih
    | crcFailure => exact ih
    | pushLog message => exact ih

theorem valuesAt_tagged (f : Int) (trace : List (Int × Effect)) : valuesAt f (tagged trace) = parsed (valuesAt f trace) := by
  induction trace with
  | nil => rfl
  | cons e trace ih =>
    obtain ⟨g, effect⟩ := e
    by_cases hg : g = f
    · subst hg
      rw [valuesAt_cons_self]
      cases effect with
      | pushParsed t => exact (valuesAt_cons_self g t (tagged trace)).trans (congrArg (t :: ·) ih)
      | consume n => exact ih
      | crcFailure => exact ih
      | pushLog message => exact ih
    · rw [valuesAt_cons_ne hg]
      cases effect with
      | pushParsed t => exact (valuesAt_cons_ne hg t (tagged trace)).trans ih
      | consume n => exact ih
      | crcFailure => exact ih
      | pushLog message => exact ih

/-! ## Packets -/

/-- A whole frame is unfinished while bytes of it are missing. -/
theorem Whole.unfinished {xs ys : List Byte} (h : Whole (xs ++ ys)) (hlt : xs.length < payloadLen (xs ++ ys) + 6) :
    Unfinished xs := by
  by_cases h4 : 4 ≤ xs.length
  · refine Or.inr (Or.inr ⟨(framed_append ys h4).mp h.1, ?_⟩)
    rwa [payloadLen_append ys h4] at hlt
  · by_cases h2 : 2 ≤ xs.length
    · refine Or.inr (Or.inl ⟨?_, by omega⟩)
      rw [← take2_append ys h2]
      exact h.1.1
    · exact Or.inl (by omega)

/-- The length of the packet of a record. -/
def Record.packetLength (r : Record) : Nat := 48 + r.droneId.length

/-- The records whose packets lie as a whole in the first `n` bytes of the stream. -/
def wholePackets : List Record → Nat → List Record
  | [], _ => []
  | r :: records, n => if r.packetLength ≤ n then r :: wholePackets records (n - r.packetLength) else []

theorem length_packet (r : Record) (crc : BitVec 16) :
    (frameWith (encodePayload r.toTelemetry) crc).length = r.packetLength := by
  rw [length_frameWith, length_encodePayload, Record.packetLength, Record.toTelemetry, List.length_map, String.length_toList]
  omega

/-- All packets, where the stream has been received as a whole. -/
theorem wholePackets_all : ∀ records : List Record, wholePackets records (packetBytes records).length = records
  | [] => rfl
  | r :: records => by
    have hlen : (packetBytes (r :: records)).length = r.packetLength + (packetBytes records).length := by
      rw [packetBytes, List.flatMap_cons, List.length_append, length_packet, ← packetBytes]
    rw [wholePackets, hlen, if_pos (Nat.le_add_right _ _), Nat.add_sub_cancel_left, wholePackets_all records]

/-- **The scan of the beginning of a packet stream**: the whole packets, and no failure. -/
theorem frameScan_packets (native : Endian) : ∀ {records : List Record} {xs : List Byte}, (∀ r ∈ records, r.Fits) →
    xs <+: packetBytes records →
    emitted (frameScan native xs).1 = (wholePackets records xs.length).map Record.toTelemetry ∧
      failed (frameScan native xs).1 = 0
  | [], xs, _, h => by
    have hnil : xs = [] := List.prefix_nil.mp h
    rw [hnil, frameScan_nil]
    exact ⟨rfl, rfl⟩
  | r :: records, xs, hfit, h => by
    have hid := (hfit r List.mem_cons_self).length
    have hsize := length_encodePayload r.toTelemetry
    have hlen := length_packet r (frameCrc (encodePayload r.toTelemetry))
    rw [packetBytes, List.flatMap_cons, ← packetBytes] at h
    by_cases hle : r.packetLength ≤ xs.length
    · -- the packet has been received: the scan takes it
      obtain ⟨rest, rfl⟩ := List.prefix_of_prefix_length_le (List.prefix_append _ _) h (hlen.trans_le hle)
      obtain ⟨he, hf⟩ := frameScan_packets native (fun r' hr' => hfit r' (List.mem_cons_of_mem _ hr'))
        ((List.prefix_append_right_inj _).mp h)
      have hd : deserializePayload native (encodePayload r.toTelemetry) (encodePayload r.toTelemetry).length =
          some r.toTelemetry := by
        simpa using deserialize_encode native r.toTelemetry (by omega) [] (encodePayload r.toTelemetry).length (by omega)
      have hscan := frameScan_frameWith native (encodePayload r.toTelemetry) rest (by omega) (by omega)
      rw [hd] at hscan
      rw [hscan, List.length_append, hlen, wholePackets, if_pos (Nat.le_add_right _ _), Nat.add_sub_cancel_left]
      refine ⟨?_, ?_⟩
      · rw [emitted, List.filterMap_cons, ← emitted, he]
        rfl
      · rw [failed, List.countP_cons_of_neg (by simp), ← failed, hf]
    · -- bytes of the packet are missing: the scan waits for them
      obtain ⟨rest, hrest⟩ := List.prefix_of_prefix_length_le h (List.prefix_append _ _) (by omega)
      have hfrom : 1 ≤ (encodePayload r.toTelemetry).length := by omega
      have hto : (encodePayload r.toTelemetry).length ≤ 256 := by omega
      have hwhole := whole_frameWith (frameCrc (encodePayload r.toTelemetry)) [] hfrom hto
      have hpay := payloadLen_frameWith (frameCrc (encodePayload r.toTelemetry)) [] hto
      rw [List.append_nil, ← hrest] at hwhole hpay
      have hmissing : xs.length < payloadLen (xs ++ rest) + 6 := by
        rw [hpay]
        rw [length_frameWith] at hlen
        omega
      rw [frameScan_wait (hwhole.unfinished hmissing), wholePackets, if_neg hle]
      exact ⟨rfl, rfl⟩

/-! ## Runs of the server -/

section Runs

variable {M : SocketModel} {fmt : Format} {s : Server M.Socket}

/-- Bytes have been received on descriptor 7, in one chunk, and the parser and the logic have caught up. -/
theorem exists_handled (native : Endian) (fmt : Format) {bytes : List Byte} (hne : bytes ≠ [])
    (hlen : bytes.length ≤ RECV_BUF_SIZE) :
    ∃ s, (serverSystem receiveBuffers native fmt).Reachable s ∧ s.Unstopped ∧ s.main = .waiting ∧ CaughtUp s ∧
      s.net = (readNet bytes).goto .polling ∧ s.pipeline.packetsHandled = s.pipeline.parsedPushed ∧
      s.pipeline.packetsHandled = emitted (frameScan native bytes).1 ∧
      s.pipeline.parser.crcFailures = BitVec.ofNat 64 (failed (frameScan native bytes).1) := by
  obtain ⟨s, hs, hu, hmain, hnet⟩ := exists_received native fmt hne hlen
  have hqueue : s.net.queue = [⟨7, bytes⟩] := by rw [hnet]; rfl
  obtain ⟨t, hrun, hut, hidle, hhandled⟩ := catches_up hs hu
  obtain ⟨hparser, hpushed⟩ := (reachable_server (hrun.reachable hs)).caughtUp hidle
  have hcut : ∀ d ∈ [bytes], d ≠ [] ∧ d.length ≤ RECV_BUF_SIZE := by simp [hne, hlen]
  obtain ⟨p', hchunks, -, -, hfailures, -⟩ := handleChunks_session native (p := {}) (c := 7) rfl hcut
  simp only [List.map_cons, List.map_nil, List.flatten_cons, List.flatten_nil, List.append_nil] at hchunks hfailures
  refine ⟨t, hrun.reachable hs, hut, hrun.same.main.trans hmain, hidle, hrun.same.net.trans hnet, ?_, ?_, ?_⟩
  · rw [hhandled, hpushed, hrun.same.net]
  · rw [hhandled, hqueue, sequential, hchunks, untag]
    exact parsed_moves _
  · rw [hparser, hrun.same.net, hqueue, hchunks, hfailures]
    exact BitVec.zero_add _

/-- Packets have been received. -/
theorem exists_delivered (native : Endian) (fmt : Format) {records : List Record} (hfit : ∀ r ∈ records, r.Fits)
    (hne : packetBytes records ≠ []) (hlen : (packetBytes records).length ≤ RECV_BUF_SIZE) :
    ∃ s, (serverSystem receiveBuffers native fmt).Reachable s ∧ CaughtUp s ∧
      s.net.kernel.sessions = [⟨7, true, false, [packetBytes records]⟩] ∧
      s.pipeline.packetsHandled = records.map Record.toTelemetry := by
  obtain ⟨s, hs, -, -, hidle, hnet, -, hhandled, -⟩ := exists_handled native fmt hne hlen
  exact ⟨s, hs, hidle, by rw [hnet]; rfl, hhandled.trans (frameScan_packetBytes native hfit).1⟩

/-- The packet of one record. -/
theorem exists_delivered_one (native : Endian) (fmt : Format) :
    ∃ s, (serverSystem receiveBuffers native fmt).Reachable s ∧ CaughtUp s ∧
      s.net.kernel.sessions = [⟨7, true, false, [packetBytes [oneRecord]]⟩] ∧
      s.pipeline.packetsHandled = [oneRecord.toTelemetry] :=
  exists_delivered native fmt oneRecord_fits onePacket_ne (by simp [length_onePacket, RECV_BUF_SIZE])

/-- **Delivery.** In every run of the server, whatever the sockets do, the system calls return and the schedule is: when
the parser has caught up with the listener, the packets in the parsed queue and behind it are an interleaving of what the
descriptors delivered, each descriptor the telemetry that the reference scans of the connections registered under it emit,
in the order of `accept`, each over the bytes of that connection alone; and the failure counter adds up the failures of
these scans, in 64 bits. -/
theorem server_delivers (M : SocketModel) (native : Endian) (fmt : Format) (s : Server M.Socket)
    (hs : (serverSystem M native fmt).Reachable s) (hidle : CaughtUp s) :
    (∃ trace : List (Int × Telemetry), s.pipeline.parsedPushed = trace.map Prod.snd ∧
      ∀ f, valuesAt f trace =
        (under f s.net.kernel.sessions).flatMap fun c => emitted (frameScan native c.received.flatten).1) ∧
    s.pipeline.parser.crcFailures = BitVec.ofNat 64
      ((s.net.kernel.sessions.filter fun c => c.registered).map fun c =>
        failed (frameScan native c.received.flatten).1).sum := by
  have h := reachable_server hs
  obtain ⟨hparser, hpushed⟩ := h.caughtUp hidle
  refine ⟨⟨tagged (handleChunks native {} s.net.queue).2, ?_, ?_⟩, ?_⟩
  · rw [hpushed, map_snd_tagged]
    rfl
  · intro f
    rw [valuesAt_tagged, (h.recorded.parser_at native f).1, parsed_connections]
  · rw [hparser]
    exact h.recorded.crcFailures native

/-- One packet on descriptor 7. -/
theorem server_delivers_one :
    ∃ s, (serverSystem receiveBuffers .little blankFormat).Reachable s ∧ CaughtUp s ∧ s.pipeline.parser.crcFailures = 0 ∧
      ∃ trace : List (Int × Telemetry), s.pipeline.parsedPushed = trace.map Prod.snd ∧
        valuesAt 7 trace = [oneRecord.toTelemetry] := by
  obtain ⟨s, hs, hidle, hsessions, -⟩ := exists_delivered_one .little blankFormat
  obtain ⟨⟨trace, hpushed, hvalues⟩, hfailures⟩ := server_delivers receiveBuffers .little blankFormat s hs hidle
  obtain ⟨he, hf, -⟩ := frameScan_packetBytes .little oneRecord_fits
  refine ⟨s, hs, hidle, ?_, trace, hpushed, ?_⟩
  · simp [hfailures, hsessions, hf]
  · rw [hvalues, hsessions]
    simp [under, he]

/-- **The parser has state for the open connections only.** When it has caught up with the listener, it has an entry for a
descriptor exactly if a connection is open under it from which something has been received, and this entry holds the bytes
that the scan of that connection leaves: at most 261, in a ring buffer of the default capacity. -/
theorem parser_state_of_connections (M : SocketModel) (native : Endian) (fmt : Format) (s : Server M.Socket)
    (hs : (serverSystem M native fmt).Reachable s) (hidle : CaughtUp s) (f : Int) :
    ((s.pipeline.parser.clients f).isSome ↔ ∃ c ∈ s.net.kernel.sessions, c.Bound f ∧ c.received ≠ []) ∧
    ∀ c ∈ s.net.kernel.sessions, c.Bound f → ∀ st, s.pipeline.parser.clients f = some st →
      Suspended st ∧ st.unread = (frameScan native c.received.flatten).2 ∧ st.ringBuffer.size ≤ 261 ∧
      st.ringBuffer.raw.capacity = DEFAULT_CAPACITY := by
  have h := reachable_server hs
  have hrec := h.recorded
  obtain ⟨hparser, -⟩ := h.caughtUp hidle
  obtain ⟨-, hclosed, hopen⟩ := hrec.parser_at native f
  rw [← hparser] at hclosed hopen
  have hunder : ∀ c ∈ s.net.kernel.sessions, c.Bound f → c ∈ under f s.net.kernel.sessions :=
    fun c hc hb => mem_under.mpr ⟨hc, hrec.live c hc hb.2, hb.1⟩
  refine ⟨⟨?_, ?_⟩, ?_⟩
  · intro hsome
    by_contra hnone
    have hall : ∀ c ∈ under f s.net.kernel.sessions, c.closed = true := by
      intro c hc
      by_contra hcl
      have hcl' := Bool.eq_false_of_not_eq_true hcl
      have hrecv := (hopen c hc hcl').isSome.mp hsome
      exact hnone ⟨c, (mem_under.mp hc).1, ⟨(mem_under.mp hc).2.2, hcl'⟩, hrecv⟩
    rw [hclosed hall] at hsome
    cases hsome
  · rintro ⟨c, hc, hb, hrecv⟩
    exact (hopen c (hunder c hc hb) hb.2).isSome.mpr hrecv
  · intro c hc hb st hst
    obtain ⟨hsound, hunread⟩ := (hopen c (hunder c hc hb) hb.2).state st hst
    have h261 := hsound.1.length_le
    rw [length_unread] at h261
    exact ⟨hsound.1, hunread, h261, hsound.2⟩

/-- After one packet: an entry for descriptor 7, with nothing left in it. -/
theorem parser_state_of_one :
    ∃ s, (serverSystem receiveBuffers .little blankFormat).Reachable s ∧ ∃ st, s.pipeline.parser.clients 7 = some st ∧
      st.unread = [] := by
  obtain ⟨s, hs, hidle, hsessions, -⟩ := exists_delivered_one .little blankFormat
  obtain ⟨hsome, hstate⟩ := parser_state_of_connections receiveBuffers .little blankFormat s hs hidle 7
  obtain ⟨-, -, hrest⟩ := frameScan_packetBytes .little oneRecord_fits
  obtain ⟨st, hst⟩ := Option.isSome_iff_exists.mp
    (hsome.mpr ⟨_, by rw [hsessions]; exact List.mem_cons_self, ⟨rfl, rfl⟩, by simp⟩)
  have hunread := (hstate _ (by rw [hsessions]; exact List.mem_cons_self) ⟨rfl, rfl⟩ st hst).2.1
  refine ⟨s, hs, st, hst, ?_⟩
  rw [hunread]
  simpa using hrest

/-- **Packets are delivered once.** In every run of the server in which the peers send packets of the encoder: when the
parser has caught up with the listener, each descriptor has delivered the records of the packets that have been received
as a whole, connection by connection, however the bytes of all connections were cut and interleaved, and no failure has
been counted. -/
theorem packets_delivered (M : SocketModel) (native : Endian) (fmt : Format) (s : Server M.Socket)
    (hs : (serverSystem M native fmt).Reachable s) (hidle : CaughtUp s) (sent : Connection → List Record)
    (hfit : ∀ c ∈ s.net.kernel.sessions, ∀ r ∈ sent c, r.Fits)
    (hsent : ∀ c ∈ s.net.kernel.sessions, ∃ stream, packetStream (sent c) = some stream ∧ c.received.flatten <+: stream) :
    (∃ trace : List (Int × Telemetry), s.pipeline.parsedPushed = trace.map Prod.snd ∧
      ∀ f, valuesAt f trace = (under f s.net.kernel.sessions).flatMap fun c =>
        (wholePackets (sent c) c.received.flatten.length).map Record.toTelemetry) ∧
    failures ((handleChunks native {} s.net.queue).2.map Prod.snd) = 0 ∧ s.pipeline.parser.crcFailures = 0 := by
  have h := reachable_server hs
  obtain ⟨hparser, hpushed⟩ := h.caughtUp hidle
  have hscan : ∀ c ∈ s.net.kernel.sessions, emitted (frameScan native c.received.flatten).1 =
      (wholePackets (sent c) c.received.flatten.length).map Record.toTelemetry ∧
      failed (frameScan native c.received.flatten).1 = 0 := by
    intro c hc
    obtain ⟨stream, hstream, hpre⟩ := hsent c hc
    rw [packetStream_eq (hfit c hc), Option.some.injEq] at hstream
    exact frameScan_packets native (hfit c hc) (hstream ▸ hpre)
  have hnone : ((s.net.kernel.sessions.filter fun c => c.registered).map fun c =>
      failed (frameScan native c.received.flatten).1).sum = 0 := by
    apply List.sum_eq_zero
    intro n hn
    obtain ⟨c, hc, rfl⟩ := List.mem_map.mp hn
    exact (hscan c (List.mem_filter.mp hc).1).2
  refine ⟨⟨tagged (handleChunks native {} s.net.queue).2, ?_, ?_⟩, ?_, ?_⟩
  · rw [hpushed, map_snd_tagged]
    rfl
  · intro f
    rw [valuesAt_tagged, (h.recorded.parser_at native f).1, parsed_connections]
    exact List.flatMap_congr fun c hc => (hscan c (mem_under.mp hc).1).1
  · rw [h.recorded.failures native, hnone]
  · rw [hparser, h.recorded.crcFailures native, hnone]
    rfl

theorem packets_delivered_one :
    ∃ s, (serverSystem receiveBuffers .little blankFormat).Reachable s ∧ s.pipeline.parser.crcFailures = 0 ∧
      ∃ trace : List (Int × Telemetry), s.pipeline.parsedPushed = trace.map Prod.snd ∧
        valuesAt 7 trace = [oneRecord.toTelemetry] := by
  obtain ⟨s, hs, hidle, hsessions, -⟩ := exists_delivered_one .little blankFormat
  obtain ⟨⟨trace, hpushed, hvalues⟩, -, hfailures⟩ :=
    packets_delivered receiveBuffers .little blankFormat s hs hidle (fun _ => [oneRecord])
    (fun _ _ => oneRecord_fits) (by
      rw [hsessions]
      intro c hc
      rw [List.mem_singleton.mp hc]
      exact ⟨_, packetStream_eq oneRecord_fits, by simp⟩)
  refine ⟨s, hs, hfailures, trace, hpushed, ?_⟩
  rw [hvalues, hsessions]
  simp [under, wholePackets_all]

/-- Emitted telemetry was read from a valid frame. -/
theorem carries_of_emitted {xs : List Byte} {t : Telemetry} (h : t ∈ emitted (frameScan native xs).1) :
    ∃ i, Carries native (xs.drop i) t := by
  rw [← parsed_moves, ← map_snd_pushes _ 0 0] at h
  obtain ⟨⟨i, t'⟩, hm, rfl⟩ := List.mem_map.mp h
  obtain ⟨n, hplaced⟩ := (mem_pushes_moves _ 0 0).mp hm
  have hlook := look_placed hplaced
  rcases look_cases native (xs.drop i) with ⟨_, he⟩ | ⟨hv, he⟩ | ⟨_, _, he⟩ | ⟨_, _, he⟩
  all_goals rw [hlook] at he
  · cases he
  · injection he with _ hframe
    injection hframe with hd
    exact ⟨i, hv, hd.symm⟩
  · cases he
  · cases he

/-- The packets that the logic has handled were pushed by the sequential run of the parser over the listener's chunks. -/
theorem ServerInv.handled_sequential (h : ServerInv M native s) {t : Telemetry} (ht : t ∈ s.pipeline.packetsHandled) :
    t ∈ sequential native s.net.queue := by
  have hpushed : t ∈ s.pipeline.parsedPushed := by
    rw [h.pipeline.parsed]
    simp [ht]
  have hbetween : s.pipeline.parsedPushed <+:
      sequential native (s.pipeline.chunksHandled ++ s.pipeline.parserControl.chunks) :=
    h.pipeline.pushed_between.2
  have hmore : sequential native (s.pipeline.chunksHandled ++ s.pipeline.parserControl.chunks) <+:
      sequential native s.net.queue := by
    rw [← h.raw, h.pipeline.raw, sequential, sequential, handleChunks_append _ _ (_ ++ _), List.map_append, parsed_append]
    exact List.prefix_append _ _
  exact (hbetween.trans hmore).subset hpushed

/-- **Every entry of the drone table is traced to a frame.** At every moment of every run of the server, an entry of the
table is under its own id, and there is a connection in whose bytes, contiguously, lies a frame with a header, a length in
range and the right checksum whose payload decodes to that entry: nothing is made up, and nothing is put together from two
connections. -/
theorem drone_traced (M : SocketModel) (native : Endian) (fmt : Format) (s : Server M.Socket)
    (hs : (serverSystem M native fmt).Reachable s) (id : List Byte) (t : Telemetry)
    (ht : s.pipeline.logic.drones.lookup id = some t) :
    t.droneId = id ∧ ∃ c ∈ s.net.kernel.sessions, c.registered = true ∧
      ∃ i, Carries native (c.received.flatten.drop i) t := by
  have h := reachable_server hs
  rw [h.pipeline.logic.drones id] at ht
  obtain ⟨hhandled, hid⟩ := List.mem_filter.mp (List.mem_of_getLast? ht)
  refine ⟨by simpa using hid, ?_⟩
  have hseq := h.handled_sequential hhandled
  rw [sequential, ← map_snd_tagged] at hseq
  obtain ⟨⟨f, t'⟩, hm, rfl⟩ := List.mem_map.mp hseq
  have hat : t' ∈ valuesAt f (tagged (handleChunks native {} s.net.queue).2) :=
    List.mem_map.mpr ⟨(f, t'), List.mem_filter.mpr ⟨hm, by simp⟩, rfl⟩
  rw [valuesAt_tagged, (h.recorded.parser_at native f).1, parsed_connections, List.mem_flatMap] at hat
  obtain ⟨c, hc, hemitted⟩ := hat
  obtain ⟨hc, hreg, -⟩ := mem_under.mp hc
  exact ⟨c, hc, hreg, carries_of_emitted hemitted⟩

/-- The drone of one packet. -/
theorem drone_traced_one :
    ∃ s, (serverSystem receiveBuffers .little blankFormat).Reachable s ∧
      ∃ c ∈ s.net.kernel.sessions, c.registered = true ∧
        ∃ i, Carries .little (c.received.flatten.drop i) oneRecord.toTelemetry := by
  obtain ⟨s, hs, -, -, hhandled⟩ := exists_delivered_one .little blankFormat
  have hentry : s.pipeline.logic.drones.lookup oneRecord.toTelemetry.droneId = some oneRecord.toTelemetry := by
    rw [(reachable_server hs).pipeline.logic.drones, hhandled]
    simp
  exact ⟨s, hs, (drone_traced receiveBuffers .little blankFormat s hs _ _ hentry).2⟩

end Runs

end CounterDrone

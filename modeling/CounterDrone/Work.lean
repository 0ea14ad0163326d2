import Mathlib
import CounterDrone.Termination
import CounterDrone.Delivery

/-!
# The work of the parser is linear

A call of `process_client` goes over the bytes that earlier calls have left, so a bound on each call does not bound a
session: what carries over is the potential of `iteration_potential`. An iteration is paid for by the potential that it
lowers, and the bytes of a checksum by the bytes that the iteration consumes (`loopHeads_paid`). A chunk raises the
potential by its bytes, and an empty chunk does not raise it (`chunkHeads_paid`). So in every run of the server the
iterations and the bytes of checksums that a client causes are linear in the bytes received from it, however they are
cut into chunks and whatever they are (`work_linear`).
-/

namespace CounterDrone

/-! ## What is counted -/

/-- The bytes that `compute_crc16` reads in the iteration from a client state. -/
def ClientState.crcRead (cs : ClientState) : Nat :=
  match cs.state with
  | .waitPayloadAndCrc =>
    if cs.ringBuffer.size < HEADER_SIZE + LENGTH_SIZE + cs.payloadLength.toNat + CRC_SIZE then 0
    else HEADER_SIZE + LENGTH_SIZE + cs.payloadLength.toNat
  | _ => 0

/-- The client states at the head of the loop of `process_client`, up to the one where it returns. -/
def loopHeads (native : Endian) (cs : ClientState) : List ClientState :=
  match _h : processIteration native cs with
  | .done => [cs]
  | .throw _ _ => [cs]
  | .next cs' _ => cs :: loopHeads native cs'
termination_by (cs.ringBuffer.size, cs.state.rank)
decreasing_by exact processIteration_decreases native _h

/-- The heads of the loop while a chunk is handled. -/
def chunkHeads (native : Endian) (p : StreamingParser) (chunk : DataChunk) : List ClientState :=
  if chunk.data = [] then []
  else
    match (p.entry chunk.clientId).ringBuffer.push chunk.data with
    | .error _ => []
    | .ok rb => loopHeads native { p.entry chunk.clientId with ringBuffer := rb }

/-- The heads of the loop for one client, in the loop of `run`. -/
def runHeads (native : Endian) (c : Int) : StreamingParser → List DataChunk → List ClientState
  | _, [] => []
  | p, chunk :: chunks =>
    (if chunk.clientId = c then chunkHeads native p chunk else []) ++
      runHeads native c (handleChunk native p chunk).parser chunks

/-- The bytes of checksums that are read from these heads. -/
def crcWork (heads : List ClientState) : Nat := (heads.map ClientState.crcRead).sum

/-- Heads of the loop that are paid for: by what has gone from the potential, and by bytes and chunks that have come. -/
structure Paid (heads : List ClientState) (cs cs' : ClientState) (bytes chunks : Nat) : Prop where
  iterations : heads.length + cs'.potential ≤ cs.potential + 3 * bytes + chunks
  crc : crcWork heads + 260 * cs'.ringBuffer.size ≤ 260 * (cs.ringBuffer.size + bytes)

theorem Paid.refl (cs : ClientState) : Paid [] cs cs 0 0 := ⟨by simp, by simp [crcWork]⟩

theorem Paid.trans {heads heads' : List ClientState} {a b c : ClientState} {bytes bytes' chunks chunks' : Nat}
    (h : Paid heads a b bytes chunks) (h' : Paid heads' b c bytes' chunks') :
    Paid (heads ++ heads') a c (bytes + bytes') (chunks + chunks') := by
  obtain ⟨hi, hc⟩ := h
  obtain ⟨hi', hc'⟩ := h'
  refine ⟨?_, ?_⟩
  · rw [List.length_append]
    omega
  · rw [crcWork, List.map_append, List.sum_append]
    unfold crcWork at hc hc'
    omega

/-! ## One call -/

section Call

variable {native : Endian} {cs cs' : ClientState} {effects : List Effect}

theorem loopHeads_done (h : processIteration native cs = .done) : loopHeads native cs = [cs] := by
  rw [loopHeads]
  split
  · rfl
  · rfl
  · rename_i h'; rw [h] at h'; cases h'

theorem loopHeads_next (h : processIteration native cs = .next cs' effects) :
    loopHeads native cs = cs :: loopHeads native cs' := by
  rw [loopHeads]
  split
  · rename_i h'; rw [h] at h'; cases h'
  · rename_i h'; rw [h] at h'; cases h'
  · rename_i h'; rw [h] at h'; cases h'; rfl

/-- An iteration that returns reads no checksum. -/
theorem crcRead_done (h : processIteration native cs = .done) : cs.crcRead = 0 := by
  have ho := processIteration_outcome native cs
  rw [h] at ho
  cases ho with
  | headerShort hs => simp only [ClientState.crcRead, hs]
  | lengthShort hs => simp only [ClientState.crcRead, hs]
  | payloadShort hs hlt =>
    rw [length_unread] at hlt
    simp only [ClientState.crcRead, hs, total_eq, if_pos hlt]

/-- A coherent client reads at most 260 bytes for a checksum. -/
theorem Coherent.crcRead_le (hc : Coherent cs) : cs.crcRead ≤ 260 := by
  unfold ClientState.crcRead
  split
  · rename_i hs
    simp only [Coherent, hs] at hc
    obtain ⟨⟨-, -, -, h256⟩, hl⟩ := hc
    have hbody : HEADER_SIZE + LENGTH_SIZE + cs.payloadLength.toNat ≤ 260 := by
      simp only [HEADER_SIZE, LENGTH_SIZE]
      omega
    split
    · exact Nat.zero_le _
    · exact hbody
  · exact Nat.zero_le _

/-- The bytes of a checksum are paid for by the bytes that the iteration consumes. -/
theorem crcRead_next (hc : Coherent cs) (h : GoesOn native cs effects cs') :
    cs.crcRead ≤ 260 * consumed effects := by
  have hle := hc.crcRead_le
  have ho := processIteration_outcome native cs
  rw [h] at ho
  cases ho with
  | headerSkip hs => simp [ClientState.crcRead, hs]
  | headerFound hs => simp [ClientState.crcRead, hs]
  | lengthBad hs => simp [ClientState.crcRead, hs]
  | lengthGood hs => simp [ClientState.crcRead, hs]
  | crcMismatch => exact hle
  | frame =>
    rw [consumed_frameEffects]
    omega

/-- **A call pays for itself**: its iterations but the last by the potential, its checksums by the bytes that leave. -/
theorem loopHeads_paid (native : Endian) (cs : ClientState) : Coherent cs →
    ∃ cs' effects, processClient native cs = (.ok cs', effects) ∧ Paid (loopHeads native cs) cs cs' 0 1 := by
  induction cs using processClient_induction native with
  | hdone cs h =>
    intro _
    refine ⟨cs, [], processClient_done h, ?_⟩
    rw [loopHeads_done h]
    exact ⟨by simp; omega, by simp [crcWork, crcRead_done h]⟩
  | hnext cs cs₁ effects h ih =>
    intro hc
    obtain ⟨cs', effects', hrun, hpaid⟩ := ih (iteration_next hc h).1
    refine ⟨cs', effects ++ effects', by rw [processClient_next h, hrun], ?_⟩
    rw [loopHeads_next h]
    have hone : Paid [cs] cs cs₁ 0 0 := by
      have hdown := iteration_potential h
      have hread := crcRead_next hc h
      have hleft := iteration_consumed h
      refine ⟨by simp; omega, ?_⟩
      simp only [crcWork, List.map_cons, List.map_nil, List.sum_cons, List.sum_nil]
      omega
    have hall := hone.trans hpaid
    simpa using hall

end Call

/-! ## One chunk -/

theorem size_fresh : ({} : ClientState).ringBuffer.size = 0 := by
  rw [← length_unread, unread_fresh]
  rfl

/-- A suspended client has the potential of a fresh one, at least. -/
theorem Suspended.potential_le {cs : ClientState} (h : Suspended cs) : ({} : ClientState).potential ≤ cs.potential := by
  have hfresh : ({} : ClientState).potential = 2 := by
    rw [ClientState.potential, size_fresh]
    rfl
  have hlen := length_unread cs
  rw [hfresh, ClientState.potential, ← hlen]
  unfold Suspended at h
  split at h
  · rename_i hs
    rw [hs]
    exact Nat.le_add_left 2 _
  · omega
  · omega

section Chunk

variable (native : Endian) {p : StreamingParser}

/-- **The chunk of a sound client is paid for by its bytes**, and by one more iteration when there are any. -/
theorem chunkHeads_paid {chunk : DataChunk} (hp : Sound (p.entry chunk.clientId))
    (hle : chunk.data.length ≤ RECV_BUF_SIZE) :
    Paid (chunkHeads native p chunk) (p.entry chunk.clientId)
      ((handleChunk native p chunk).parser.entry chunk.clientId) chunk.data.length (if chunk.data = [] then 0 else 1) := by
  obtain ⟨c, data⟩ := chunk
  by_cases hd : data = []
  · -- the client is forgotten: nothing is read, and a fresh entry has the least potential
    subst hd
    have hentry : (p.erase c).entry c = {} := by simp [StreamingParser.entry, StreamingParser.erase]
    rw [handleChunk_cleanedUp, chunkHeads, if_pos rfl, hentry]
    have hpot : ({} : ClientState).potential ≤ (p.entry c).potential := hp.1.potential_le
    refine ⟨?_, ?_⟩
    · simp only [List.length_nil, if_true]
      omega
    · rw [size_fresh]
      simp [crcWork]
  · obtain ⟨rb, hpush, hb, -⟩ := hp.push_ok hle
    obtain ⟨cs', effects, hrun, hpaid⟩ := loopHeads_paid native _ (hp.1.coherent_append hb)
    have hentry : (p.store c cs' effects).entry c = cs' := by simp [StreamingParser.entry, StreamingParser.store]
    rw [handleChunk_processed hd hpush hrun, chunkHeads, if_neg hd, hpush, hentry]
    -- the potential before the loop is the one that was left, and three for each byte
    have hsize : rb.size = (p.entry c).ringBuffer.size + data.length := by
      rw [← Ring.length_bytes, hb, List.length_append, length_unread]
    obtain ⟨hi, hcrc⟩ := hpaid
    simp only [ClientState.potential, hsize] at hi hcrc ⊢
    refine ⟨?_, ?_⟩
    · simp only [if_neg hd, ClientState.potential]
      omega
    · exact hcrc

/-- A chunk of another client leaves the entry as it is. -/
theorem handleChunk_entry_ne {chunk : DataChunk} {c : Int} (h : chunk.clientId ≠ c) :
    (handleChunk native p chunk).parser.entry c = p.entry c := by
  obtain ⟨j, data⟩ := chunk
  rw [StreamingParser.entry, (handleChunk_local native p j data).1, Function.update_of_ne (Ne.symm h)]
  rfl

end Chunk

/-! ## Runs -/

/-- The bytes of the chunks of a client. -/
def bytesFrom (c : Int) (chunks : List DataChunk) : Nat := ((chunksOf c chunks).map fun chunk => chunk.data.length).sum

/-- The chunks of a client that are not empty. -/
def callsFrom (c : Int) (chunks : List DataChunk) : Nat :=
  ((chunksOf c chunks).map fun chunk => if chunk.data = [] then 0 else 1).sum

theorem bytesFrom_append (c : Int) (xs ys : List DataChunk) : bytesFrom c (xs ++ ys) = bytesFrom c xs + bytesFrom c ys := by
  rw [bytesFrom, chunksOf_append, List.map_append, List.sum_append]
  rfl

theorem callsFrom_append (c : Int) (xs ys : List DataChunk) : callsFrom c (xs ++ ys) = callsFrom c xs + callsFrom c ys := by
  rw [callsFrom, chunksOf_append, List.map_append, List.sum_append]
  rfl

/-- **A run is paid for by the bytes of the client**, whatever the other clients send in between. -/
theorem runHeads_paid (native : Endian) (c : Int) : ∀ {chunks : List DataChunk} {p : StreamingParser}, Healthy p →
    (∀ chunk ∈ chunks, chunk.data.length ≤ RECV_BUF_SIZE) →
    Paid (runHeads native c p chunks) (p.entry c) ((handleChunks native p chunks).1.entry c) (bytesFrom c chunks)
      (callsFrom c chunks)
  | [], p, _, _ => Paid.refl (p.entry c)
  | chunk :: chunks, p, hp, hle => by
    have hchunk := hle chunk List.mem_cons_self
    have hrest := runHeads_paid native c (handleChunk_healthy native hp hchunk) fun ch hch =>
      hle ch (List.mem_cons_of_mem _ hch)
    have hone : Paid (if chunk.clientId = c then chunkHeads native p chunk else []) (p.entry c)
        ((handleChunk native p chunk).parser.entry c) (bytesFrom c [chunk]) (callsFrom c [chunk]) := by
      by_cases hc : chunk.clientId = c
      · subst hc
        have hpaid := chunkHeads_paid native (hp.entry chunk.clientId) hchunk
        simpa [bytesFrom, callsFrom, chunksOf] using hpaid
      · rw [if_neg hc, handleChunk_entry_ne native hc]
        have hpaid := Paid.refl (p.entry c)
        simpa [bytesFrom, callsFrom, chunksOf, hc] using hpaid
    have hall := hone.trans hrest
    rwa [← bytesFrom_append, ← callsFrom_append] at hall

/-- A run from no client: the potential that is left pays for the one there was. -/
theorem runHeads_le (native : Endian) (c : Int) {chunks : List DataChunk}
    (hle : ∀ chunk ∈ chunks, chunk.data.length ≤ RECV_BUF_SIZE) :
    (runHeads native c {} chunks).length ≤ 3 * bytesFrom c chunks + callsFrom c chunks ∧
    crcWork (runHeads native c {} chunks) ≤ 260 * bytesFrom c chunks := by
  obtain ⟨hi, hcrc⟩ := runHeads_paid native c healthy_start hle
  have hpot := ((handleChunks_healthy native healthy_start hle).entry c).1.potential_le
  have hentry : (({} : StreamingParser).entry c) = {} := rfl
  rw [hentry] at hi hcrc
  rw [size_fresh] at hcrc
  exact ⟨by omega, by omega⟩

/-! ## The server -/

/-- The bytes received from a connection. -/
def Connection.bytes (c : Connection) : Nat := c.received.flatten.length

/-- The bytes of the chunks of a connection. -/
theorem bytes_block (c : Connection) : (c.block.map fun chunk => chunk.data.length).sum = c.bytes := by
  rw [Connection.block, List.map_append, List.sum_append, List.map_map, Connection.bytes, List.length_flatten]
  have hlast : ((if c.closed then [(⟨c.fd, []⟩ : DataChunk)] else []).map fun chunk => chunk.data.length).sum = 0 := by
    split <;> rfl
  rw [hlast]
  rfl

/-- The chunks of a connection that are not empty. -/
theorem calls_block {c : Connection} (h : ∀ d ∈ c.received, d ≠ []) :
    (c.block.map fun chunk => if chunk.data = [] then 0 else 1).sum = c.received.length := by
  rw [Connection.block, List.map_append, List.sum_append, List.map_map]
  have hlast : ((if c.closed then [(⟨c.fd, []⟩ : DataChunk)] else []).map fun chunk =>
      if chunk.data = [] then 0 else 1).sum = 0 := by
    split <;> rfl
  have hone : c.received.map ((fun chunk : DataChunk => if chunk.data = [] then 0 else 1) ∘ DataChunk.mk c.fd) =
      c.received.map fun _ => 1 := List.map_congr_left fun d hd => if_neg (h d hd)
  rw [hlast, hone]
  simp

section Recorded

variable {σ : Type} {n : Net σ}

/-- The chunks that the listener has pushed fit a receive buffer. -/
theorem Recorded.chunk_le (h : Recorded n) : ∀ chunk ∈ n.queue, chunk.data.length ≤ RECV_BUF_SIZE := by
  intro chunk hm
  have hown : chunk ∈ n.queue.filter fun d => d.clientId = chunk.clientId := List.mem_filter.mpr ⟨hm, by simp⟩
  rw [h.framed chunk.clientId] at hown
  obtain ⟨c, hc, hblock⟩ := List.mem_flatMap.mp hown
  rcases List.mem_append.mp hblock with hr | hlast
  · obtain ⟨d, hd, rfl⟩ := List.mem_map.mp hr
    exact (h.sizes c (mem_under.mp hc).1 d hd).2
  · split at hlast
    · rw [List.mem_singleton.mp hlast]
      exact Nat.zero_le _
    · cases hlast

/-- What has been pushed for a descriptor, said of the connections registered under it. -/
theorem Recorded.from_connections (h : Recorded n) (f : Int) :
    bytesFrom f n.queue = ((under f n.kernel.sessions).map Connection.bytes).sum ∧
    callsFrom f n.queue = ((under f n.kernel.sessions).map fun c => c.received.length).sum := by
  have hchunks : chunksOf f n.queue = (under f n.kernel.sessions).flatMap Connection.block := h.framed f
  rw [bytesFrom, callsFrom, hchunks, List.map_flatMap, List.map_flatMap, List.flatMap_def, List.flatMap_def,
    List.sum_flatten, List.sum_flatten, List.map_map, List.map_map]
  refine ⟨?_, ?_⟩
  · exact congrArg List.sum (List.map_congr_left fun c _ => bytes_block c)
  · exact congrArg List.sum (List.map_congr_left fun c hc =>
      calls_block fun d hd => (h.sizes c (mem_under.mp hc).1 d hd).1)

end Recorded

/-- **The work of the parser is linear in what is received.** In every run of the server, whatever the sockets do, the
system calls return and the schedule is: in handling the chunks popped so far, the loop of `process_client` makes for the
client of a descriptor at most three iterations for each byte received under it and one for each `recv` that returned
bytes, and `compute_crc16` reads at most 260 bytes for each of them. -/
theorem work_linear (M : SocketModel) (native : Endian) (fmt : Format) (s : Server M.Socket)
    (hs : (serverSystem M native fmt).Reachable s) (f : Int) :
    let heads := runHeads native f {} (s.pipeline.chunksHandled ++ s.pipeline.parserControl.chunks)
    let own := under f s.net.kernel.sessions
    heads.length ≤ 3 * (own.map Connection.bytes).sum + (own.map fun c => c.received.length).sum ∧
      (heads.map ClientState.crcRead).sum ≤ 260 * (own.map Connection.bytes).sum := by
  dsimp only
  have h := reachable_server hs
  have hqueue : s.net.queue = s.pipeline.chunksHandled ++ s.pipeline.parserControl.chunks ++ s.pipeline.raw.items := by
    rw [← h.raw, h.pipeline.raw]
  obtain ⟨hbytes, hcalls⟩ := h.recorded.from_connections f
  rw [hqueue, bytesFrom_append] at hbytes
  rw [hqueue, callsFrom_append] at hcalls
  obtain ⟨hi, hcrc⟩ := @runHeads_le native f (s.pipeline.chunksHandled ++ s.pipeline.parserControl.chunks)
    fun chunk hm => h.recorded.chunk_le chunk (by rw [hqueue]; exact List.mem_append_left _ hm)
  unfold crcWork at hcrc
  exact ⟨by omega, by omega⟩

/-- One packet of fifty bytes, in one chunk: at most 151 iterations. -/
theorem work_linear_one :
    ∃ s, (serverSystem receiveBuffers .little blankFormat).Reachable s ∧
      s.pipeline.packetsHandled = [oneRecord.toTelemetry] ∧
      (runHeads .little 7 {} (s.pipeline.chunksHandled ++ s.pipeline.parserControl.chunks)).length ≤ 151 := by
  obtain ⟨s, hs, -, hsessions, hhandled⟩ := exists_delivered_one .little blankFormat
  have hwork := (work_linear receiveBuffers .little blankFormat s hs 7).1
  rw [hsessions] at hwork
  have hown : under 7 [(⟨7, true, false, [packetBytes [oneRecord]]⟩ : Connection)] =
      [⟨7, true, false, [packetBytes [oneRecord]]⟩] := by simp [under]
  rw [hown] at hwork
  refine ⟨s, hs, hhandled, hwork.trans ?_⟩
  simp [Connection.bytes, length_onePacket]

end CounterDrone

import Mathlib
import CounterDrone.FrameScan

/-!
# The state machine runs the reference scan

A client state vouches for some of its unread bytes (`Coherent`): in `WAIT_LENGTH` they start with the header, in
`WAIT_PAYLOAD_AND_CRC` with a header and a length in range, which is the cached one. From such a state an iteration
either moves on to the next state or makes the move of the reference scan (`iteration_next`), and it returns where the
scan waits (`iteration_done`); so the loop makes exactly the moves of the scan of the unread bytes
(`processClient_scan`) and ends in a `Suspended` state. This is carried over chunks (`handleChunk_scan`) and over whole
runs: of all clients for the invariant (`handleChunks_healthy`), of one client for the scan (`handleChunks_scan`).
-/

namespace CounterDrone

/-! ## The tests of the code and of the scan -/

section Tests

variable {xs : List Byte}

theorem header_iff (h : 2 ≤ xs.length) : beWord 2 (xs.take 2) = PACKET_HEADER ↔ xs.take 2 = headerBytes := by
  have hlen : (xs.take 2).length = 2 := by rw [List.length_take]; omega
  constructor
  · intro hw
    have hn := congrArg BitVec.toNat hw
    rw [toNat_beWord hlen] at hn
    have hb := beBytes_beNat (xs.take 2)
    rw [hlen, hn] at hb
    rw [← hb]
    decide
  · intro hw
    rw [hw]
    decide

theorem toNat_lengthField (h : 4 ≤ xs.length) : (lengthField xs).toNat = payloadLen xs :=
  toNat_beWord (w := 2) (by rw [List.length_take, List.length_drop]; omega)

theorem inRange_iff (h : 4 ≤ xs.length) : InRange (lengthField xs) ↔ 1 ≤ payloadLen xs ∧ payloadLen xs ≤ 256 := by
  have hzero : lengthField xs = 0 ↔ payloadLen xs = 0 := by
    rw [← toNat_lengthField h]
    constructor
    · intro he
      rw [he]
      rfl
    · intro he
      exact BitVec.eq_of_toNat_eq he
  have hmax : lengthField xs > MAX_PAYLOAD_SIZE ↔ 256 < payloadLen xs := by
    rw [← toNat_lengthField h]
    exact Iff.rfl
  rw [InRange, hzero, hmax]
  omega

end Tests

/-! ## Client states -/

/-- What a state says of the unread bytes while the loop runs. -/
def Coherent (cs : ClientState) : Prop :=
  match cs.state with
  | .waitHeader => True
  | .waitLength => 2 ≤ cs.unread.length ∧ cs.unread.take 2 = headerBytes
  | .waitPayloadAndCrc => Framed cs.unread ∧ cs.payloadLength.toNat = payloadLen cs.unread

/-- What a state says of the unread bytes once the loop has returned. -/
def Suspended (cs : ClientState) : Prop :=
  match cs.state with
  | .waitHeader => cs.unread.length ≤ 1
  | .waitLength => (cs.unread.length = 2 ∨ cs.unread.length = 3) ∧ cs.unread.take 2 = headerBytes
  | .waitPayloadAndCrc => cs.unread.take 2 = headerBytes ∧ cs.payloadLength.toNat = beNat ((cs.unread.drop 2).take 2) ∧
      1 ≤ cs.payloadLength.toNat ∧ cs.payloadLength.toNat ≤ 256 ∧
      4 ≤ cs.unread.length ∧ cs.unread.length < cs.payloadLength.toNat + 6

theorem Suspended.unfinished {cs : ClientState} (h : Suspended cs) : Unfinished cs.unread := by
  unfold Suspended at h
  split at h
  · exact Or.inl (by omega)
  · exact Or.inr (Or.inl ⟨h.2, by omega⟩)
  · obtain ⟨hh, hl, h1, h256, h4, hlt⟩ := h
    have hlen : cs.payloadLength.toNat = payloadLen cs.unread := hl
    exact Or.inr (Or.inr ⟨⟨hh, h4, by omega, by omega⟩, by omega⟩)

/-- A suspended client has at most 261 unread bytes. -/
theorem Suspended.length_le {cs : ClientState} (h : Suspended cs) : cs.unread.length ≤ 261 := by
  unfold Suspended at h
  split at h <;> omega

/-- With at most one unread byte a suspended client is in `WAIT_HEADER`. -/
theorem Suspended.waitHeader {cs : ClientState} (h : Suspended cs) (h1 : cs.unread.length ≤ 1) :
    cs.state = .waitHeader := by
  unfold Suspended at h
  split at h
  · assumption
  · omega
  · omega

/-- A suspended client stays coherent when bytes arrive. -/
theorem Suspended.coherent_append {cs : ClientState} (h : Suspended cs) {rb : Ring} {data : List Byte}
    (hb : rb.bytes = cs.unread ++ data) : Coherent { cs with ringBuffer := rb } := by
  unfold Suspended at h
  unfold Coherent
  simp only [ClientState.unread] at hb h ⊢
  split at h
  · trivial
  · simp only [hb]
    refine ⟨by rw [List.length_append]; omega, ?_⟩
    rw [take2_append data (by omega)]
    exact h.2
  · obtain ⟨hh, hl, h1, h256, h4, hlt⟩ := h
    have hlen : cs.payloadLength.toNat = payloadLen cs.ringBuffer.bytes := hl
    simp only [hb]
    refine ⟨(framed_append data h4).2 ⟨hh, h4, by omega, by omega⟩, ?_⟩
    rw [payloadLen_append data h4]
    exact hlen

/-! ## One iteration -/

/-- The effects of a move of the scan. -/
def effectsOf : Nat × Found → List Effect
  | (n, .noFrame) => [.consume n]
  | (n, .crcMismatch) => [.crcFailure, .pushLog mismatchText, .consume n]
  | (n, .frame t) => frameEffects n t

variable {native : Endian}

/-- The loop returns in a suspended state. -/
theorem iteration_done {cs : ClientState} (hc : Coherent cs) (hit : processIteration native cs = .done) :
    Suspended cs := by
  have ho := processIteration_outcome native cs
  rw [hit] at ho
  cases ho with
  | headerShort hs h =>
    simp only [Suspended, hs]
    omega
  | lengthShort hs h =>
    simp only [Coherent, hs] at hc
    simp only [Suspended, hs]
    exact ⟨by omega, hc.2⟩
  | payloadShort hs h =>
    simp only [Coherent, hs] at hc
    obtain ⟨⟨hh, h4, h1, h256⟩, hl⟩ := hc
    simp only [Suspended, hs]
    exact ⟨hh, hl, by omega, by omega, h4, h⟩

/-- **One iteration makes the move of the scan**, or moves on to the next state over the same bytes. -/
theorem iteration_next {cs cs' : ClientState} {effects : List Effect} (hc : Coherent cs)
    (hit : processIteration native cs = .next cs' effects) :
    Coherent cs' ∧ cs'.ringBuffer.raw.capacity = cs.ringBuffer.raw.capacity ∧
      ((effects = [] ∧ cs'.unread = cs.unread) ∨
        ∃ n o, look native cs.unread = .move n o ∧ effects = effectsOf (n, o) ∧ cs'.unread = cs.unread.drop n) := by
  have ho := processIteration_outcome native cs
  rw [hit] at ho
  cases ho with
  | headerSkip hs h hne rb hb hcap =>
    refine ⟨by simp only [Coherent, hs], hcap, Or.inr ⟨1, .noFrame, ?_, rfl, hb⟩⟩
    exact look_noHeader h fun hh => hne ((header_iff h).2 hh)
  | headerFound hs h heq => exact ⟨⟨h, (header_iff h).1 heq⟩, rfl, Or.inl ⟨rfl, rfl⟩⟩
  | lengthBad hs h hbad rb hb hcap =>
    refine ⟨trivial, hcap, Or.inr ⟨1, .noFrame, ?_, rfl, hb⟩⟩
    exact look_badLength h fun hf => hbad ((inRange_iff h).2 hf.2.2)
  | lengthGood hs h hgood =>
    simp only [Coherent, hs] at hc
    exact ⟨⟨⟨hc.2, h, (inRange_iff h).1 hgood⟩, toNat_lengthField h⟩, rfl, Or.inl ⟨rfl, rfl⟩⟩
  | crcMismatch hs h hbad rb scratch hb hcap =>
    simp only [Coherent, hs] at hc
    refine ⟨trivial, hcap, Or.inr ⟨1, .crcMismatch, ?_, rfl, hb⟩⟩
    rw [hc.2] at h hbad
    exact look_mismatch ⟨hc.1, h⟩ hbad
  | frame hs h hgood rb scratch hb hcap =>
    simp only [Coherent, hs] at hc
    rw [hc.2] at h hgood hb
    refine ⟨trivial, hcap, Or.inr ⟨_, _, look_frame ⟨⟨hc.1, h⟩, hgood⟩, ?_, hb⟩⟩
    rw [hc.2]
    rfl

/-! ## The loop -/

variable (native)

/-- **The loop makes the moves of the scan of the unread bytes** and leaves what the scan leaves, suspended. -/
theorem processClient_scan {cs : ClientState} (hc : Coherent cs) :
    ∃ cs', processClient native cs = (.ok cs', (frameScan native cs.unread).1.flatMap effectsOf) ∧
      cs'.unread = (frameScan native cs.unread).2 ∧ Suspended cs' ∧
      cs'.ringBuffer.raw.capacity = cs.ringBuffer.raw.capacity := by
  induction cs using processClient_induction native with
  | hdone cs hit =>
    have hs := iteration_done hc hit
    have hw : frameScan native cs.unread = ([], cs.unread) := frameScan_wait hs.unfinished
    exact ⟨cs, by rw [processClient_done hit, hw]; rfl, by rw [hw], hs, rfl⟩
  | hnext cs cs' effects hit ih =>
    obtain ⟨hc', hcap', hmove⟩ := iteration_next hc hit
    obtain ⟨fin, hrun, hrest, hs, hcap⟩ := ih hc'
    refine ⟨fin, ?_, ?_, hs, hcap.trans hcap'⟩
    · rw [processClient_next hit, hrun]
      rcases hmove with ⟨rfl, he⟩ | ⟨n, o, hl, rfl, hd⟩
      · rw [he]
        rfl
      · rw [hd, frameScan_move hl]
        rfl
    · rw [hrest]
      rcases hmove with ⟨rfl, he⟩ | ⟨n, o, hl, rfl, hd⟩
      · rw [he]
      · rw [hd, frameScan_move hl]

/-! ## Telemetry and failures of moves -/

/-- Moves push the telemetry that the scan emits. -/
theorem parsed_moves : ∀ ms : List (Nat × Found), parsed (ms.flatMap effectsOf) = emitted ms
  | [] => rfl
  | (n, o) :: ms => by
    rw [List.flatMap_cons, parsed_append, parsed_moves ms]
    cases o with
    | noFrame => rfl
    | crcMismatch => rfl
    | frame t => cases t <;> rfl

/-- Moves count the failures of the scan. -/
theorem failures_moves : ∀ ms : List (Nat × Found), failures (ms.flatMap effectsOf) = failed ms
  | [] => rfl
  | (n, o) :: ms => by
    rw [List.flatMap_cons, failures_append, failures_moves ms, failed, failed, List.countP_cons, Nat.add_comm]
    congr 1
    cases o with
    | noFrame => rfl
    | crcMismatch => rfl
    | frame t => cases t <;> rfl

/-! ## One chunk -/

/-- A suspended client whose buffer has the default capacity. -/
def Sound (cs : ClientState) : Prop := Suspended cs ∧ cs.ringBuffer.raw.capacity = DEFAULT_CAPACITY

theorem unread_fresh : ({} : ClientState).unread = [] := Ring.bytes_empty

theorem sound_fresh : Sound {} := by
  refine ⟨?_, Ring.capacity_empty⟩
  simp only [Suspended, unread_fresh]
  exact Nat.zero_le _

/-- A chunk fits behind the unread bytes of a sound client. -/
theorem Sound.push_ok {cs : ClientState} (h : Sound cs) {data : List Byte} (hle : data.length ≤ RECV_BUF_SIZE) :
    ∃ rb, cs.ringBuffer.push data = .ok rb ∧ rb.bytes = cs.unread ++ data ∧ rb.raw.capacity = DEFAULT_CAPACITY := by
  obtain ⟨hs, hcap⟩ := h
  have h261 := hs.length_le
  rw [length_unread] at h261
  obtain ⟨rb, he, hb, hc⟩ := Ring.push_ok cs.ringBuffer data
    (by rw [hcap]; unfold DEFAULT_CAPACITY; unfold RECV_BUF_SIZE at hle; omega)
  exact ⟨rb, he, hb, hc.trans hcap⟩

/-- **A chunk makes the moves of the scan** of the unread bytes and the chunk, and neither branch that drops the client
is taken. -/
theorem handleChunk_scan {p : StreamingParser} {chunk : DataChunk} (hp : Sound (p.entry chunk.clientId))
    (hne : chunk.data ≠ []) (hle : chunk.data.length ≤ RECV_BUF_SIZE) :
    ∃ cs', Sound cs' ∧ cs'.unread = (frameScan native ((p.entry chunk.clientId).unread ++ chunk.data)).2 ∧
      handleChunk native p chunk =
        ⟨p.store chunk.clientId cs'
            ((frameScan native ((p.entry chunk.clientId).unread ++ chunk.data)).1.flatMap effectsOf),
          (frameScan native ((p.entry chunk.clientId).unread ++ chunk.data)).1.flatMap effectsOf, .processed⟩ := by
  obtain ⟨rb, hpush, hb, hcap⟩ := hp.push_ok hle
  obtain ⟨cs', hrun, hrest, hs, hcap'⟩ := processClient_scan native (hp.1.coherent_append hb)
  have hu : ({ p.entry chunk.clientId with ringBuffer := rb } : ClientState).unread =
      (p.entry chunk.clientId).unread ++ chunk.data := hb
  rw [hu] at hrun hrest
  refine ⟨cs', ⟨hs, hcap'.trans hcap⟩, hrest, ?_⟩
  exact handleChunk_processed hne hpush hrun

/-! ## Runs over all clients -/

/-- Every client of the parser is sound. -/
def Healthy (p : StreamingParser) : Prop := ∀ c cs, p.clients c = some cs → Sound cs

theorem healthy_start : Healthy {} := fun _ _ h => by cases h

theorem Healthy.entry {p : StreamingParser} (h : Healthy p) (c : Int) : Sound (p.entry c) := by
  unfold StreamingParser.entry
  cases hc : p.clients c with
  | none => exact sound_fresh
  | some cs => exact h c cs hc

/-- One chunk keeps every client sound. -/
theorem handleChunk_healthy {p : StreamingParser} (hp : Healthy p) {chunk : DataChunk}
    (hle : chunk.data.length ≤ RECV_BUF_SIZE) : Healthy (handleChunk native p chunk).parser := by
  by_cases hne : chunk.data = []
  · obtain ⟨j, data⟩ := chunk
    simp only at hne
    subst hne
    rw [handleChunk_cleanedUp]
    intro c cs h
    by_cases hc : c = j
    · subst hc
      simp [StreamingParser.erase] at h
    · exact hp c cs (by simpa [StreamingParser.erase, hc] using h)
  · obtain ⟨cs', hs, _, he⟩ := handleChunk_scan native (hp.entry chunk.clientId) hne hle
    rw [he]
    intro c cs h
    by_cases hc : c = chunk.clientId
    · subst hc
      simp only [StreamingParser.store, Function.update_self, Option.some.injEq] at h
      rw [← h]
      exact hs
    · exact hp c cs (by simpa [StreamingParser.store, hc] using h)

/-- A run keeps every client sound. -/
theorem handleChunks_healthy : ∀ {chunks : List DataChunk} {p : StreamingParser}, Healthy p →
    (∀ chunk ∈ chunks, chunk.data.length ≤ RECV_BUF_SIZE) → Healthy (handleChunks native p chunks).1
  | [], _, hp, _ => hp
  | chunk :: chunks, p, hp, hle => by
    have hstep := handleChunk_healthy native hp (hle chunk List.mem_cons_self)
    have hrest := handleChunks_healthy hstep fun ch hch => hle ch (List.mem_cons_of_mem _ hch)
    exact hrest

/-! ## Runs of one client -/

/-- **The chunks of one client make the moves of one scan**, from any sound state of that client. -/
theorem handleChunks_feed (c : Int) : ∀ {chunks : List (List Byte)} {p : StreamingParser}, Sound (p.entry c) →
    (∀ d ∈ chunks, d ≠ [] ∧ d.length ≤ RECV_BUF_SIZE) →
    ∃ p', handleChunks native p (chunks.map (DataChunk.mk c)) =
        (p', (((frameScanner native).feed (p.entry c).unread chunks).1.flatMap effectsOf).map (Prod.mk c)) ∧
      Sound (p'.entry c) ∧ (p'.entry c).unread = ((frameScanner native).feed (p.entry c).unread chunks).2 ∧
      p'.crcFailures =
        p.crcFailures + BitVec.ofNat 64 (failed ((frameScanner native).feed (p.entry c).unread chunks).1) ∧
      ((p'.clients c).isSome ↔ (p.clients c).isSome ∨ chunks ≠ [])
  | [], p, hp, _ => ⟨p, rfl, hp, rfl, (BitVec.add_zero _).symm, by simp⟩
  | d :: chunks, p, hp, hcut => by
    obtain ⟨hne, hle⟩ := hcut d List.mem_cons_self
    obtain ⟨cs, hs, hrest, he⟩ := @handleChunk_scan native p ⟨c, d⟩ hp hne hle
    have hentry : ∀ effects, (p.store c cs effects).entry c = cs := by
      intro effects
      simp [StreamingParser.entry, StreamingParser.store]
    obtain ⟨p', hrun, hs', hrest', hfail, hsome⟩ := handleChunks_feed c
      (p := p.store c cs ((frameScan native ((p.entry c).unread ++ d)).1.flatMap effectsOf))
      (by rw [hentry]; exact hs) fun d' hd' => hcut d' (List.mem_cons_of_mem _ hd')
    rw [hentry, hrest] at hrun hrest' hfail
    refine ⟨p', ?_, hs', hrest', ?_, ?_⟩
    · simp only [List.map_cons, handleChunks, he, hrun, Scanner.feed, List.flatMap_append, List.map_append]
    · rw [hfail, StreamingParser.store, failures_moves, Scanner.feed, failed, failed, failed, List.countP_append,
        BitVec.ofNat_add, ← BitVec.add_assoc]
    · rw [hsome]
      simp [StreamingParser.store]

/-- Effects without their tags. -/
theorem untag (c : Int) (effects : List Effect) : (effects.map (Prod.mk c)).map Prod.snd = effects := by
  rw [List.map_map]
  exact List.map_id _

/-- A session: the chunks of a client that has no state yet make the moves of the scan of all their bytes. -/
theorem handleChunks_session {c : Int} {chunks : List (List Byte)} {p : StreamingParser} (hfresh : p.clients c = none)
    (hcut : ∀ d ∈ chunks, d ≠ [] ∧ d.length ≤ RECV_BUF_SIZE) :
    ∃ p', handleChunks native p (chunks.map (DataChunk.mk c)) =
        (p', ((frameScan native chunks.flatten).1.flatMap effectsOf).map (Prod.mk c)) ∧
      Sound (p'.entry c) ∧ (p'.entry c).unread = (frameScan native chunks.flatten).2 ∧
      p'.crcFailures = p.crcFailures + BitVec.ofNat 64 (failed (frameScan native chunks.flatten).1) ∧
      ((p'.clients c).isSome ↔ chunks ≠ []) := by
  have hentry : p.entry c = {} := by rw [StreamingParser.entry, hfresh]; rfl
  have hunread : (p.entry c).unread = [] := by rw [hentry, unread_fresh]
  obtain ⟨p', hrun, hs, hrest, hfail, hsome⟩ := handleChunks_feed native c (p := p) (by rw [hentry]; exact sound_fresh) hcut
  rw [hunread, Scanner.feed_eq_scan Scanner.look_nil, List.nil_append] at hrun hrest hfail
  rw [hfresh] at hsome
  exact ⟨p', hrun, hs, hrest, hfail, by simpa using hsome⟩

/-! ## Main results -/

/-- **Fragmentation independence.** However the bytes of a client are cut into chunks, the parser does exactly what the
reference scan of the whole byte string does: it pushes the telemetry that the scan emits, counts its failures, has
the same effects in the same order, and keeps unread what the scan leaves, in the state that these bytes determine. -/
theorem fragmentation_independence (native : Endian) (c : Int) (p : StreamingParser) (chunks : List (List Byte))
    (hfresh : p.clients c = none) (hcut : ∀ d ∈ chunks, d ≠ [] ∧ d.length ≤ RECV_BUF_SIZE) :
    let r := handleChunks native p (chunks.map (DataChunk.mk c))
    let s := frameScan native chunks.flatten
    parsed (r.2.map Prod.snd) = emitted s.1 ∧ r.1.crcFailures = p.crcFailures + BitVec.ofNat 64 (failed s.1) ∧
      r.2.map Prod.snd = s.1.flatMap effectsOf ∧ (r.1.entry c).unread = s.2 ∧ Suspended (r.1.entry c) ∧
      ((r.1.clients c).isSome ↔ chunks ≠ []) := by
  obtain ⟨p', hrun, hs, hrest, hfail, hsome⟩ := handleChunks_session native hfresh hcut
  simp only [hrun, untag]
  exact ⟨parsed_moves _, hfail, trivial, hrest, hs.1, hsome⟩

/-- A frame in three chunks, whose payload is too short for telemetry: one failure, nothing left. -/
theorem fragmentation_three_chunks :
    let chunks : List (List Byte) := [[0xAA], [0x55, 0x00, 0x01], [0x00, 0x44, 0x2C]]
    (handleChunks .little {} (chunks.map (DataChunk.mk 5))).1.crcFailures = 1 ∧
      ((handleChunks .little {} (chunks.map (DataChunk.mk 5))).1.entry 5).unread = [] := by
  have hlook : look .little [0xAA, 0x55, 0x00, 0x01, 0x00, 0x44, 0x2C] = .move 7 (.frame none) := by
    rw [look_frame (by decide +kernel)]
    decide +kernel
  have hscan : frameScan .little [0xAA, 0x55, 0x00, 0x01, 0x00, 0x44, 0x2C] = ([(7, .frame none)], []) := by
    rw [frameScan_move hlook, show List.drop 7 [0xAA, 0x55, 0x00, 0x01, 0x00, 0x44, (0x2C : Byte)] = [] from rfl,
      frameScan_nil]
  have h := fragmentation_independence .little 5 {} [[0xAA], [0x55, 0x00, 0x01], [0x00, 0x44, 0x2C]] rfl (by decide)
  refine ⟨h.2.1.trans ?_, h.2.2.2.1.trans ?_⟩
  · rw [show List.flatten [[0xAA], [0x55, 0x00, 0x01], [0x00, 0x44, 0x2C]] =
      [0xAA, 0x55, 0x00, 0x01, 0x00, 0x44, (0x2C : Byte)] from rfl, hscan]
    rfl
  · rw [show List.flatten [[0xAA], [0x55, 0x00, 0x01], [0x00, 0x44, 0x2C]] =
      [0xAA, 0x55, 0x00, 0x01, 0x00, 0x44, (0x2C : Byte)] from rfl, hscan]

/-- One iteration of the loop of `process_client` leads to another. -/
def Continues (native : Endian) (cs cs' : ClientState) : Prop := ∃ effects, processIteration native cs = .next cs' effects

/-- **The invariant of the parser.** After any run over chunks of at most 4096 bytes every client is suspended as its
state says and has at most 261 unread bytes; while the next such chunk is handled the push fits, no iteration that the
loop reaches throws, and neither branch that drops the client is taken. -/
theorem parser_invariant (native : Endian) (chunks : List DataChunk)
    (hle : ∀ chunk ∈ chunks, chunk.data.length ≤ RECV_BUF_SIZE) :
    let p := (handleChunks native {} chunks).1
    (∀ c cs, p.clients c = some cs →
      (match cs.state with
        | .waitHeader => cs.ringBuffer.size ≤ 1
        | .waitLength => (cs.ringBuffer.size = 2 ∨ cs.ringBuffer.size = 3) ∧ cs.unread.take 2 = headerBytes
        | .waitPayloadAndCrc => cs.unread.take 2 = headerBytes ∧
            cs.payloadLength.toNat = beNat ((cs.unread.drop 2).take 2) ∧ 1 ≤ cs.payloadLength.toNat ∧
            cs.payloadLength.toNat ≤ 256 ∧ 4 ≤ cs.ringBuffer.size ∧ cs.ringBuffer.size < cs.payloadLength.toNat + 6) ∧
      cs.ringBuffer.size ≤ 261) ∧
    ∀ chunk : DataChunk, chunk.data.length ≤ RECV_BUF_SIZE →
      (∃ rb, (p.entry chunk.clientId).ringBuffer.push chunk.data = .ok rb ∧
        ∀ cs', Relation.ReflTransGen (Continues native) { p.entry chunk.clientId with ringBuffer := rb } cs' →
          ∀ e effects, processIteration native cs' ≠ .throw e effects) ∧
      (handleChunk native p chunk).exit ≠ .overflow ∧ (handleChunk native p chunk).exit ≠ .unexpected := by
  intro p
  have hp : Healthy p := handleChunks_healthy native healthy_start hle
  refine ⟨fun c cs hc => ?_, fun chunk hchunk => ?_⟩
  · have hs := (hp c cs hc).1
    have h261 := hs.length_le
    simp only [Suspended, length_unread] at hs h261
    exact ⟨hs, h261⟩
  · obtain ⟨rb, hpush, _⟩ := (hp.entry chunk.clientId).push_ok hchunk
    refine ⟨⟨rb, hpush, fun cs' _ => processIteration_ne_throw native cs'⟩, ?_⟩
    by_cases hne : chunk.data = []
    · obtain ⟨c, data⟩ := chunk
      simp only at hne
      subst hne
      rw [handleChunk_cleanedUp]
      exact ⟨nofun, nofun⟩
    · obtain ⟨cs', _, _, he⟩ := handleChunk_scan native (hp.entry chunk.clientId) hne hchunk
      rw [he]
      exact ⟨nofun, nofun⟩

/-- Two clients have sent and one has left. The other has sent a header and a length: its entry waits for the rest of that
frame, and no chunk that may come makes it overflow. -/
theorem parser_invariant_two_clients :
    let chunks : List DataChunk := [⟨4, [0xAA]⟩, ⟨7, [0xAA, 0x55, 0x00, 0x2A]⟩, ⟨4, []⟩]
    (∀ chunk ∈ chunks, chunk.data.length ≤ RECV_BUF_SIZE) ∧
      (∃ cs, (handleChunks .big {} chunks).1.clients 7 = some cs ∧ cs.state = .waitPayloadAndCrc ∧
        cs.payloadLength.toNat = 42 ∧ cs.ringBuffer.size = 4) ∧
      ∀ chunk : DataChunk, chunk.data.length ≤ RECV_BUF_SIZE →
        (handleChunk .big (handleChunks .big {} chunks).1 chunk).exit ≠ .overflow := by
  intro chunks
  have hle : ∀ chunk ∈ chunks, chunk.data.length ≤ RECV_BUF_SIZE := by decide
  obtain ⟨hstates, hnext⟩ := parser_invariant .big chunks hle
  refine ⟨hle, ?_, fun chunk hchunk => (hnext chunk hchunk).2.1⟩
  -- the bytes in the entry of the other client
  obtain ⟨cs₁, -, -, h₁⟩ := @handleChunk_scan .big {} ⟨4, [0xAA]⟩ (healthy_start.entry 4) (by decide) (by decide)
  obtain ⟨cs, -, hunread, h₂⟩ := @handleChunk_scan .big (handleChunk .big {} ⟨4, [0xAA]⟩).parser ⟨7, [0xAA, 0x55, 0x00, 0x2A]⟩
    ((handleChunk_healthy .big healthy_start (by decide)).entry 7) (by decide) (by decide)
  have hfresh : (handleChunk .big {} ⟨4, [0xAA]⟩).parser.entry 7 = {} := by
    rw [h₁]
    rfl
  rw [hfresh, unread_fresh, List.nil_append, frameScan_wait (by decide)] at hunread
  have hentry : (handleChunks .big {} chunks).1.clients 7 = some cs := by
    simp only [chunks, handleChunks, h₂, handleChunk_cleanedUp]
    simp [StreamingParser.store, StreamingParser.erase]
  have hsize : cs.ringBuffer.size = 4 := by rw [← length_unread, hunread]; rfl
  have hstate := (hstates 7 cs hentry).1
  cases hc : cs.state with
  | waitHeader =>
    simp only [hc, hsize] at hstate
    omega
  | waitLength =>
    simp only [hc, hsize] at hstate
    omega
  | waitPayloadAndCrc =>
    simp only [hc, hunread] at hstate
    exact ⟨cs, hentry, hc, hstate.2.1, hsize⟩

end CounterDrone

import Mathlib
import CounterDrone.Simulation

/-!
# Resynchronisation

What the parser does with the offsets of a session, read off its effects: the frames it took as a whole
(`takenFrames`) and the telemetry it pushed for them (`pushedFrames`). It takes every valid frame that does not start
inside an earlier one, up to the offset at which it waits (`resync_never_skips`), and it never waits for more than 261
bytes. At a disconnect the bytes it waits on are dropped: what is lost then is said by `session_complete_iff`, with the
offsets that a reading of the whole session arrives at (`Arrives`).
-/

namespace CounterDrone

/-! ## Offsets of effects -/

/-- Every `consume` with the offset of the bytes it removed, the first at `pos`. -/
def consumes : Nat → List Effect → List (Nat × Nat)
  | _, [] => []
  | pos, .consume n :: effects => (pos, n) :: consumes (pos + n) effects
  | pos, .crcFailure :: effects => consumes pos effects
  | pos, .pushParsed _ :: effects => consumes pos effects
  | pos, .pushLog _ :: effects => consumes pos effects

/-- The frames that were consumed as a whole, offset and length: a resynchronisation consumes one byte. -/
def takenFrames (effects : List Effect) : List (Nat × Nat) := (consumes 0 effects).filter fun f => f.2 ≠ 1

/-- Every telemetry record pushed, with the offset of the bytes consumed last before the push. -/
def pushes : Nat → Nat → List Effect → List (Nat × Telemetry)
  | _, _, [] => []
  | _, pos, .consume n :: effects => pushes pos (pos + n) effects
  | last, pos, .crcFailure :: effects => pushes last pos effects
  | last, pos, .pushParsed t :: effects => (last, t) :: pushes last pos effects
  | last, pos, .pushLog _ :: effects => pushes last pos effects

/-- The telemetry pushed, with the offset of the frame each record was read from. -/
def pushedFrames (effects : List Effect) : List (Nat × Telemetry) := pushes 0 0 effects

/-- Pushed frames are the telemetry pushed, in order. -/
theorem map_snd_pushes : ∀ (effects : List Effect) (last pos : Nat), (pushes last pos effects).map Prod.snd = parsed effects
  | [], _, _ => rfl
  | .consume n :: effects, _, pos => map_snd_pushes effects pos (pos + n)
  | .crcFailure :: effects, last, pos => map_snd_pushes effects last pos
  | .pushParsed t :: effects, last, pos => congrArg (t :: ·) (map_snd_pushes effects last pos)
  | .pushLog _ :: effects, last, pos => map_snd_pushes effects last pos

/-- The effects of moves consume what the moves advance over. -/
theorem consumes_moves : ∀ (ms : List (Nat × Found)) (pos : Nat),
    consumes pos (ms.flatMap effectsOf) = (place pos ms).map fun m => (m.1, m.2.1)
  | [], _ => rfl
  | (n, .noFrame) :: ms, pos => congrArg ((pos, n) :: ·) (consumes_moves ms (pos + n))
  | (n, .crcMismatch) :: ms, pos => congrArg ((pos, n) :: ·) (consumes_moves ms (pos + n))
  | (n, .frame (some _)) :: ms, pos => congrArg ((pos, n) :: ·) (consumes_moves ms (pos + n))
  | (n, .frame none) :: ms, pos => congrArg ((pos, n) :: ·) (consumes_moves ms (pos + n))

/-- The effects of moves push the telemetry of frames at the offsets of the frames. -/
theorem mem_pushes_moves {i : Nat} {t : Telemetry} : ∀ (ms : List (Nat × Found)) (last pos : Nat),
    (i, t) ∈ pushes last pos (ms.flatMap effectsOf) ↔ ∃ n, (i, n, .frame (some t)) ∈ place pos ms
  | [], _, _ => by simp [pushes, place]
  | (n, .noFrame) :: ms, _, pos => by
    simpa [effectsOf, pushes, place] using mem_pushes_moves ms pos (pos + n)
  | (n, .crcMismatch) :: ms, _, pos => by
    simpa [effectsOf, pushes, place] using mem_pushes_moves ms pos (pos + n)
  | (n, .frame none) :: ms, _, pos => by
    simpa [effectsOf, frameEffects, pushes, place] using mem_pushes_moves ms pos (pos + n)
  | (n, .frame (some t')) :: ms, _, pos => by
    simp only [List.flatMap_cons, effectsOf, frameEffects, List.cons_append, List.nil_append, pushes, place,
      List.mem_cons, mem_pushes_moves ms pos (pos + n)]
    constructor
    · rintro (h | ⟨n', h⟩)
      · cases h
        exact ⟨n, Or.inl rfl⟩
      · exact ⟨n', Or.inr h⟩
    · rintro ⟨n', h | h⟩
      · cases h
        exact Or.inl rfl
      · exact Or.inr ⟨n', h⟩

/-! ## Frames of the scan -/

section Scan

variable {native : Endian} {xs : List Byte}

/-- The effects of the scan of a byte string. -/
abbrev scanEffects (native : Endian) (xs : List Byte) : List Effect := (frameScan native xs).1.flatMap effectsOf

/-- The offset at which the scan waits. -/
abbrev waitsAt (native : Endian) (xs : List Byte) : Nat := span (frameScan native xs).1

theorem rest_eq_drop (native : Endian) (xs : List Byte) : (frameScan native xs).2 = xs.drop (waitsAt native xs) :=
  (Scanner.scan_rest (S := frameScanner native) xs).1

theorem waitsAt_add_rest (native : Endian) (xs : List Byte) :
    waitsAt native xs + (frameScan native xs).2.length = xs.length := Scanner.span_add_rest (S := frameScanner native) xs

theorem unfinished_rest (native : Endian) (xs : List Byte) : Unfinished (frameScan native xs).2 :=
  unfinished_of_wait (Scanner.look_rest (S := frameScanner native) xs)

theorem mem_takenFrames {i n : Nat} : (i, n) ∈ takenFrames (scanEffects native xs) ↔
    (∃ o, (i, n, o) ∈ place 0 (frameScan native xs).1) ∧ n ≠ 1 := by
  simp [takenFrames, consumes_moves]

/-- A move of the scan at an offset, said of the bytes there. -/
theorem look_placed {i n : Nat} {o : Found} (h : (i, n, o) ∈ place 0 (frameScan native xs).1) :
    look native (xs.drop i) = .move n o := by
  have := Scanner.look_of_mem_place (S := frameScanner native) xs h
  rwa [Nat.sub_zero] at this

theorem placed_le {i n : Nat} {o : Found} (h : (i, n, o) ∈ place 0 (frameScan native xs).1) :
    i + n ≤ waitsAt native xs := by
  have := le_span_of_mem_place h
  rwa [Nat.zero_add] at this

/-- A frame taken as a whole is valid. -/
theorem takenFrames_valid {i n : Nat} (h : (i, n) ∈ takenFrames (scanEffects native xs)) :
    ValidFrame (xs.drop i) ∧ n = payloadLen (xs.drop i) + 6 := by
  obtain ⟨⟨o, hm⟩, hn⟩ := mem_takenFrames.1 h
  have hl := look_placed hm
  rcases look_cases native (xs.drop i) with ⟨_, he⟩ | ⟨hv, he⟩ | ⟨_, _, he⟩ | ⟨_, _, he⟩
  all_goals rw [hl] at he
  · cases he
  · cases he
    exact ⟨hv, rfl⟩
  · cases he
    exact absurd rfl hn
  · cases he
    exact absurd rfl hn

/-- A valid frame before the offset at which the scan waits, and not inside one taken before, has its place in the
scan. -/
theorem valid_placed {i : Nat} (hv : ValidFrame (xs.drop i)) (hi : i < waitsAt native xs)
    (hout : ∀ f ∈ takenFrames (scanEffects native xs), ¬(f.1 < i ∧ i < f.1 + f.2)) :
    (i, payloadLen (xs.drop i) + 6, .frame (deserializePayload native (payloadOf (xs.drop i)) (payloadLen (xs.drop i)))) ∈
      place 0 (frameScan native xs).1 := by
  obtain ⟨j, n, o, hm, hj, hn⟩ := exists_mem_place_of_lt (p := 0) (Nat.zero_le i)
    (show i < 0 + span (frameScan native xs).1 by rw [Nat.zero_add]; exact hi)
  -- the move that covers `i` is made at `i`: one made before would be a frame with `i` inside
  have hji : j = i := by
    by_contra hne
    have hn1 : n ≠ 1 := by omega
    exact hout (j, n) (mem_takenFrames.2 ⟨⟨o, hm⟩, hn1⟩) ⟨show j < i by omega, hn⟩
  subst hji
  have hl := look_placed hm
  rw [look_frame hv] at hl
  cases hl
  exact hm

/-- Frames taken end before the offset at which the scan waits. -/
theorem takenFrames_le {i n : Nat} (h : (i, n) ∈ takenFrames (scanEffects native xs)) : i + n ≤ waitsAt native xs := by
  obtain ⟨⟨o, hm⟩, _⟩ := mem_takenFrames.1 h
  exact placed_le hm

theorem takenFrames_pairwise : (takenFrames (scanEffects native xs)).Pairwise fun a b => a.1 + a.2 ≤ b.1 := by
  rw [takenFrames, consumes_moves]
  refine List.Pairwise.filter _ ?_
  rw [List.pairwise_map]
  exact place_pairwise _ 0

end Scan

/-! ## No valid frame is skipped -/

/-- **Resynchronisation never skips valid data.** After all bytes of a session have been fed, in any chunks, the unread
bytes are those from some offset on; every frame taken as a whole is valid, and the taken frames are disjoint and in
increasing order of offset; every valid frame that does not start strictly inside a taken one was itself taken, unless
the unread bytes start before it; and this exception is impossible once 261 bytes from its start have arrived, so for
a frame of 261 or 262 bytes it never applies. -/
theorem resync_never_skips (native : Endian) (c : Int) (p : StreamingParser) (chunks : List (List Byte))
    (hfresh : p.clients c = none) (hcut : ∀ d ∈ chunks, d ≠ [] ∧ d.length ≤ RECV_BUF_SIZE) :
    let xs := chunks.flatten
    let r := handleChunks native p (chunks.map (DataChunk.mk c))
    let taken := takenFrames (r.2.map Prod.snd)
    let pos := xs.length - (r.1.entry c).unread.length
    (r.1.entry c).unread = xs.drop pos ∧
    (∀ f ∈ taken, ValidFrame (xs.drop f.1) ∧ f.2 = payloadLen (xs.drop f.1) + 6) ∧
    taken.Pairwise (fun a b => a.1 + a.2 ≤ b.1) ∧
    (∀ i, ValidFrame (xs.drop i) → (∀ f ∈ taken, ¬(f.1 < i ∧ i < f.1 + f.2)) →
      (i, payloadLen (xs.drop i) + 6) ∈ taken ∨ pos < i) ∧
    (∀ i, i + 261 ≤ xs.length → ¬pos < i) ∧
    (∀ i, ValidFrame (xs.drop i) → (∀ f ∈ taken, ¬(f.1 < i ∧ i < f.1 + f.2)) →
      (261 ≤ payloadLen (xs.drop i) + 6 ∨ i + 261 ≤ xs.length) → (i, payloadLen (xs.drop i) + 6) ∈ taken) := by
  obtain ⟨p', hrun, hs, hrest, _⟩ := handleChunks_session native hfresh hcut
  have hspan := waitsAt_add_rest native chunks.flatten
  have hdrop := rest_eq_drop native chunks.flatten
  have h261 := hs.1.length_le
  rw [hrest] at h261
  have hpos : chunks.flatten.length - (p'.entry c).unread.length = waitsAt native chunks.flatten := by
    rw [hrest]
    omega
  simp only [hrun, untag, hpos]
  have htaken : ∀ i, ValidFrame (chunks.flatten.drop i) →
      (∀ f ∈ takenFrames (scanEffects native chunks.flatten), ¬(f.1 < i ∧ i < f.1 + f.2)) →
      i < waitsAt native chunks.flatten →
      (i, payloadLen (chunks.flatten.drop i) + 6) ∈ takenFrames (scanEffects native chunks.flatten) :=
    fun i hv hout hi => mem_takenFrames.2 ⟨⟨_, valid_placed hv hi hout⟩, by omega⟩
  have hbound : ∀ i, i + 261 ≤ chunks.flatten.length → ¬waitsAt native chunks.flatten < i := by
    intro i hi hlt
    omega
  have hne : ∀ i, ValidFrame (chunks.flatten.drop i) → i ≠ waitsAt native chunks.flatten := by
    rintro i hv rfl
    rw [← hdrop] at hv
    exact (unfinished_rest native chunks.flatten).not_whole hv.1
  refine ⟨hrest.trans hdrop, fun f hf => takenFrames_valid hf, takenFrames_pairwise, ?_, hbound, ?_⟩
  · intro i hv hout
    by_cases hi : waitsAt native chunks.flatten < i
    · exact Or.inr hi
    · exact Or.inl (htaken i hv hout (Nat.lt_of_le_of_ne (Nat.not_lt.mp hi) (hne i hv)))
  · intro i hv hout hlong
    have hlen := hv.1.2
    rw [List.length_drop] at hlen
    have h4 := hv.1.1.2.1
    rw [List.length_drop] at h4
    have hi := hbound i (by omega)
    exact htaken i hv hout (Nat.lt_of_le_of_ne (Nat.not_lt.mp hi) (hne i hv))

/-- A frame behind one byte of garbage and before many others, in two chunks that cut its header: it is taken. -/
theorem resync_after_garbage :
    let chunks : List (List Byte) := [[0x00, 0xAA], [0x55, 0x00, 0x01, 0x00, 0x44, 0x2C] ++ List.replicate 300 0]
    (1, 7) ∈ takenFrames ((handleChunks .little {} (chunks.map (DataChunk.mk 5))).2.map Prod.snd) := by
  obtain ⟨-, hvalid, -, -, -, htaken⟩ := resync_never_skips .little 5 {}
    [[0x00, 0xAA], [0x55, 0x00, 0x01, 0x00, 0x44, 0x2C] ++ List.replicate 300 0] rfl (by decide +kernel)
  refine htaken 1 (by decide +kernel) (fun f hf hin => ?_) (Or.inr (by decide +kernel))
  have hzero : f.1 = 0 := by omega
  have hv := (hvalid f hf).1
  rw [hzero] at hv
  exact absurd hv (by decide +kernel)

/-! ## The end of a session -/

/-- The offsets that a reading of the whole byte string arrives at, when it takes every valid frame as a whole, skips
every other byte and waits for nothing. -/
inductive Arrives (xs : List Byte) : Nat → Prop
  | start : Arrives xs 0
  | frame {i : Nat} (h : Arrives xs i) (hv : ValidFrame (xs.drop i)) : Arrives xs (i + (payloadLen (xs.drop i) + 6))
  | skip {i : Nat} (h : Arrives xs i) (hv : ¬ValidFrame (xs.drop i)) : Arrives xs (i + 1)

/-- A header and a length in range, of a frame that runs past the end of the bytes. -/
def CutOff (xs : List Byte) : Prop := Framed xs ∧ xs.length < payloadLen xs + 6

/-- A valid frame whose payload deserializes. -/
def Carries (native : Endian) (xs : List Byte) (t : Telemetry) : Prop :=
  ValidFrame xs ∧ deserializePayload native (payloadOf xs) (payloadLen xs) = some t

/-- No frame that is cut off by the end of the session hides a frame with telemetry behind its start. -/
def EndsClean (native : Endian) (xs : List Byte) : Prop :=
  ∀ q, Arrives xs q → CutOff (xs.drop q) → ∀ i t, q < i → ¬Carries native (xs.drop i) t

/-- The telemetry of every frame of a session that does not start strictly inside a frame the parser took has been
pushed when its empty chunk has been handled. -/
def SessionComplete (native : Endian) (p : StreamingParser) (c : Int) (chunks : List (List Byte)) : Prop :=
  let effects := (handleChunks native p (chunks.map (DataChunk.mk c) ++ [⟨c, []⟩])).2.map Prod.snd
  ∀ i t, Carries native (chunks.flatten.drop i) t →
    (∀ f ∈ takenFrames effects, ¬(f.1 < i ∧ i < f.1 + f.2)) → (i, t) ∈ pushedFrames effects

theorem consumes_log (message : String) : ∀ (effects : List Effect) (pos : Nat),
    consumes pos (effects ++ [.pushLog message]) = consumes pos effects
  | [], _ => rfl
  | .consume n :: effects, pos => congrArg ((pos, n) :: ·) (consumes_log message effects (pos + n))
  | .crcFailure :: effects, pos => consumes_log message effects pos
  | .pushParsed _ :: effects, pos => consumes_log message effects pos
  | .pushLog _ :: effects, pos => consumes_log message effects pos

theorem pushes_log (message : String) : ∀ (effects : List Effect) (last pos : Nat),
    pushes last pos (effects ++ [.pushLog message]) = pushes last pos effects
  | [], _, _ => rfl
  | .consume n :: effects, _, pos => pushes_log message effects pos (pos + n)
  | .crcFailure :: effects, last, pos => pushes_log message effects last pos
  | .pushParsed t :: effects, last, pos => congrArg ((last, t) :: ·) (pushes_log message effects last pos)
  | .pushLog _ :: effects, last, pos => pushes_log message effects last pos

section Session

variable {native : Endian} {xs : List Byte}

/-- A session takes and pushes the frames of the scan of its bytes. -/
theorem session_frames (native : Endian) {c : Int} {chunks : List (List Byte)} {p : StreamingParser} (hfresh : p.clients c = none)
    (hcut : ∀ d ∈ chunks, d ≠ [] ∧ d.length ≤ RECV_BUF_SIZE) :
    let effects := (handleChunks native p (chunks.map (DataChunk.mk c) ++ [⟨c, []⟩])).2.map Prod.snd
    takenFrames effects = takenFrames (scanEffects native chunks.flatten) ∧
      pushedFrames effects = pushedFrames (scanEffects native chunks.flatten) := by
  obtain ⟨p', hrun, _⟩ := handleChunks_session native hfresh hcut
  simp only [handleChunks_append, hrun, handleChunks, handleChunk_cleanedUp, List.map_append, untag, List.map_cons,
    List.map_nil, List.append_nil]
  constructor
  · rw [takenFrames, consumes_log, takenFrames]
  · exact pushes_log _ _ 0 0

theorem mem_pushedFrames {i : Nat} {t : Telemetry} :
    (i, t) ∈ pushedFrames (scanEffects native xs) ↔ ∃ n, (i, n, .frame (some t)) ∈ place 0 (frameScan native xs).1 :=
  mem_pushes_moves _ 0 0

/-- The scan waits at an offset that a reading of the whole arrives at. -/
theorem arrives_waitsAt (native : Endian) (ys : List Byte) : ∀ {q : Nat}, Arrives xs q → xs.drop q = ys →
    Arrives xs (q + span (frameScan native ys).1) := by
  induction ys using Scanner.scan_induction (S := frameScanner native) with
  | hwait ys h =>
    intro q hq _
    rw [frameScan_wait (unfinished_of_wait h)]
    exact hq
  | hmove ys n o h ih =>
    rintro q hq rfl
    have hnext : Arrives xs (q + n) := by
      rcases look_cases native (xs.drop q) with ⟨_, he⟩ | ⟨hv, he⟩ | ⟨_, hbad, he⟩ | ⟨_, hw, he⟩
      all_goals rw [show look native (xs.drop q) = _ from h] at he
      all_goals cases he
      · exact hq.frame hv
      · exact hq.skip fun hv => hbad hv.2
      · exact hq.skip fun hv => hw hv.1
    rw [frameScan_move h, span_cons, ← Nat.add_assoc]
    exact ih hnext List.drop_drop.symm

/-- Up to the offset at which the scan waits, a reading of the whole arrives only at moves of the scan. -/
theorem arrives_placed (native : Endian) {q : Nat} (h : Arrives xs q) :
    waitsAt native xs ≤ q ∨ ∃ n o, (q, n, o) ∈ place 0 (frameScan native xs).1 := by
  -- a move of the scan that is followed by a step of the reading of the same length
  have hstep : ∀ {i n : Nat} {o : Found}, (i, n, o) ∈ place 0 (frameScan native xs).1 →
      waitsAt native xs ≤ i + n ∨ ∃ n' o', (i + n, n', o') ∈ place 0 (frameScan native xs).1 := by
    intro i n o hm
    rcases next_mem_place hm with he | hnext
    · rw [he, Nat.zero_add]
      exact Or.inl (Nat.le_refl _)
    · exact Or.inr hnext
  induction h with
  | start =>
    cases hms : (frameScan native xs).1 with
    | nil =>
      left
      rw [waitsAt, hms]
      exact Nat.le_refl _
    | cons m ms => exact Or.inr ⟨m.1, m.2, List.mem_cons_self⟩
  | frame _ hv ih =>
    rcases ih with hle | ⟨n, o, hm⟩
    · exact Or.inl (by omega)
    · have hl := look_placed hm
      rw [look_frame hv] at hl
      cases hl
      exact hstep hm
  | @skip i _ hv ih =>
    rcases ih with hle | ⟨n, o, hm⟩
    · exact Or.inl (by omega)
    · have hl := look_placed hm
      rcases look_cases native (xs.drop i) with ⟨_, he⟩ | ⟨hv', _⟩ | ⟨_, _, he⟩ | ⟨_, _, he⟩
      · rw [hl] at he
        cases he
      · exact absurd hv' hv
      all_goals
        rw [hl] at he
        cases he
        exact hstep hm

/-- The scan waits at or before every offset at which a reading of the whole arrives at a cut-off frame. -/
theorem waitsAt_le_of_cutOff (native : Endian) {q : Nat} (h : Arrives xs q) (hcut : CutOff (xs.drop q)) : waitsAt native xs ≤ q := by
  rcases arrives_placed native h with hle | ⟨n, o, hm⟩
  · exact hle
  · have hl := look_placed hm
    rw [look_wait (Or.inr (Or.inr hcut))] at hl
    cases hl

/-- When four bytes are unread they start with a cut-off frame. -/
theorem cutOff_rest (h : 4 ≤ (frameScan native xs).2.length) : CutOff (xs.drop (waitsAt native xs)) := by
  rw [← rest_eq_drop]
  rcases unfinished_rest native xs with hu | ⟨_, hu⟩ | hu
  · omega
  · omega
  · exact hu

end Session

/-- **When a session is complete.** However a session is cut into chunks, the telemetry of every frame that does not
start strictly inside a taken one has been pushed at its end exactly when no cut-off frame hides one: the parser waits
for the rest of the cut-off frame, and the disconnect drops the bytes it holds. -/
theorem session_complete_iff (native : Endian) (c : Int) (p : StreamingParser) (chunks : List (List Byte))
    (hfresh : p.clients c = none) (hcut : ∀ d ∈ chunks, d ≠ [] ∧ d.length ≤ RECV_BUF_SIZE) :
    SessionComplete native p c chunks ↔ EndsClean native chunks.flatten := by
  obtain ⟨htaken, hpushed⟩ := session_frames native hfresh hcut
  simp only [SessionComplete, htaken, hpushed]
  constructor
  · intro hall q hq hoff i t hi hc
    have hwait := waitsAt_le_of_cutOff native hq hoff
    have hout : ∀ f ∈ takenFrames (scanEffects native chunks.flatten), ¬(f.1 < i ∧ i < f.1 + f.2) := by
      intro f hf hin
      have := takenFrames_le hf
      omega
    obtain ⟨n, hm⟩ := mem_pushedFrames.1 (hall i t hc hout)
    have := placed_le hm
    omega
  · rintro hclean i t ⟨hv, hd⟩ hout
    have h4 := hv.1.1.2.1
    rw [List.length_drop] at h4
    have hspan := waitsAt_add_rest native chunks.flatten
    rcases Nat.lt_trichotomy i (waitsAt native chunks.flatten) with hi | rfl | hi
    · have hm := valid_placed hv hi hout
      rw [hd] at hm
      exact mem_pushedFrames.2 ⟨_, hm⟩
    · rw [← rest_eq_drop] at hv
      exact absurd hv.1 (unfinished_rest native _).not_whole
    · have harr := arrives_waitsAt native chunks.flatten Arrives.start List.drop_zero
      rw [Nat.zero_add] at harr
      exact absurd ⟨hv, hd⟩ (hclean _ harr (cutOff_rest (by omega)) i t hi)

/-- The telemetry of a payload of 42 zero bytes. -/
def zeroTelemetry : Telemetry := ⟨[], 0, 0, 0, 0, 0⟩

/-- Its frame. -/
def zeroFrame : List Byte := [0xAA, 0x55, 0x00, 0x2A] ++ List.replicate 42 0 ++ [0xF9, 0x46]

/-- A session of one frame, in one chunk, is complete. -/
theorem session_complete_zeroFrame :
    (∀ d ∈ [zeroFrame], d ≠ [] ∧ d.length ≤ RECV_BUF_SIZE) ∧ SessionComplete .little {} 5 [zeroFrame] := by
  have hcut : ∀ d ∈ [zeroFrame], d ≠ [] ∧ d.length ≤ RECV_BUF_SIZE := by decide +kernel
  have hnone : ∀ i < 48, 0 < i → ¬ValidFrame (zeroFrame.drop i) := by decide +kernel
  refine ⟨hcut, (session_complete_iff .little 5 {} _ rfl hcut).2 ?_⟩
  intro q _ _ i t hi hc
  rw [List.flatten_cons, List.flatten_nil, List.append_nil] at hc
  by_cases h48 : i < 48
  · exact hnone i h48 (by omega) hc.1
  · have h4 := hc.1.1.1.2.1
    rw [List.length_drop, show zeroFrame.length = 48 from rfl] at h4
    omega

/-- Four bytes that start a frame with 256 bytes of payload, and a valid frame of 48 bytes behind them. -/
def cutOffSession : List Byte := [0xAA, 0x55, 0x01, 0x00] ++ zeroFrame

/-- The session in one chunk, then the disconnect: the frame behind the cut-off one is not pushed. -/
theorem session_incomplete_cutOff :
    Carries .little (cutOffSession.drop 4) zeroTelemetry ∧
      parsed ((handleChunks .little {} [⟨5, cutOffSession⟩, ⟨5, []⟩]).2.map Prod.snd) = [] ∧
      ¬SessionComplete .little {} 5 [cutOffSession] := by
  have hcarries : Carries .little (cutOffSession.drop 4) zeroTelemetry := by
    constructor
    · decide +kernel
    · decide +kernel
  have hscan : frameScan .little [cutOffSession].flatten = ([], cutOffSession) := frameScan_wait (by decide +kernel)
  obtain ⟨htaken, hpushed⟩ := @session_frames .little 5 [cutOffSession] {} rfl (by decide +kernel)
  rw [scanEffects, hscan] at htaken hpushed
  refine ⟨hcarries, ?_, fun hall => ?_⟩
  · exact (map_snd_pushes _ 0 0).symm.trans (congrArg (List.map Prod.snd) hpushed)
  · have h := hall 4 zeroTelemetry (by simpa using hcarries) (by rw [htaken]; nofun)
    rw [hpushed] at h
    cases h

end CounterDrone

import Mathlib
import CounterDrone.Lib.Turns
import CounterDrone.StreamingParser

/-!
# The loop of `process_client` ends

From every client state, reachable or not: an iteration that continues lowers the number of unread bytes, or keeps it and
lowers the rank of the state, so the loop makes at most `ClientState.potential` iterations (`iteration_potential`). What
an iteration consumes leaves the ring buffer (`iteration_consumed`), and every failure that it counts and every record
that it pushes is paid for by a consumed byte (`iteration_paid`). Iterations are put together in
`process_client_terminates`.
-/

namespace CounterDrone

/-! ## One iteration -/

/-- An iteration that continues. -/
def GoesOn (native : Endian) (cs : ClientState) (effects : List Effect) (cs' : ClientState) : Prop :=
  processIteration native cs = .next cs' effects

/-- The bytes that an effect takes from the ring buffer. -/
def Effect.bytes : Effect → Nat
  | consume count => count
  | _ => 0

/-- The bytes that effects take from the ring buffer. -/
def consumed (effects : List Effect) : Nat := (effects.map Effect.bytes).sum

/-- The failures counted and the records pushed. -/
def charged (effects : List Effect) : Nat := failures effects + (parsed effects).length

theorem consumed_append (as bs : List Effect) : consumed (as ++ bs) = consumed as + consumed bs := by
  simp [consumed]

theorem charged_append (as bs : List Effect) : charged (as ++ bs) = charged as + charged bs := by
  rw [charged, charged, charged, failures_append, parsed_append, List.length_append]
  omega

theorem consumed_frameEffects (total : Nat) (telemetry : Option Telemetry) :
    consumed (frameEffects total telemetry) = total := by
  cases telemetry <;> simp [frameEffects, consumed, Effect.bytes]

theorem charged_frameEffects (total : Nat) (telemetry : Option Telemetry) :
    charged (frameEffects total telemetry) = 1 := by
  cases telemetry <;> rfl

/-- How many iterations there can be: each byte may be looked at in the three states. -/
def ClientState.potential (cs : ClientState) : Nat := 3 * cs.ringBuffer.size + cs.state.rank

section Iteration

variable {native : Endian} {cs cs' : ClientState} {effects : List Effect}

theorem State.rank_le (s : State) : s.rank ≤ 2 := by
  cases s <;> decide

/-- The lexicographic descent, as one number. -/
theorem iteration_potential (h : GoesOn native cs effects cs') : cs'.potential < cs.potential := by
  have hlex := processIteration_decreases native h
  have hrank := cs'.state.rank_le
  unfold ClientState.potential
  rcases Prod.lex_def.1 hlex with hsize | ⟨hsize, hlt⟩
  · simp only at hsize
    omega
  · simp only at hsize hlt
    omega

/-- What an iteration consumes leaves the ring buffer. -/
theorem iteration_consumed (h : GoesOn native cs effects cs') :
    cs'.ringBuffer.size + consumed effects = cs.ringBuffer.size := by
  have ho := processIteration_outcome native cs
  rw [h] at ho
  cases ho with
  | headerSkip _ hlen _ rb hb _ => exact size_of_drop (n := 1) (by omega) hb
  | headerFound => rfl
  | lengthBad _ hlen _ rb hb _ => exact size_of_drop (n := 1) (by omega) hb
  | lengthGood => rfl
  | crcMismatch _ hlen _ rb scratch hb _ => exact size_of_drop (n := 1) (by omega) hb
  | frame _ hlen _ rb scratch hb _ =>
    rw [consumed_frameEffects]
    exact size_of_drop hlen hb

/-- A failure or a record goes with at least one byte. -/
theorem iteration_paid (h : GoesOn native cs effects cs') : charged effects ≤ consumed effects := by
  have ho := processIteration_outcome native cs
  rw [h] at ho
  cases ho with
  | headerSkip => decide
  | headerFound => decide
  | lengthBad => decide
  | lengthGood => decide
  | crcMismatch => decide
  | frame =>
    rw [charged_frameEffects, consumed_frameEffects]
    omega

/-- Where no iteration continues, the loop returns. -/
theorem done_of_no_turn (h : ∀ effects cs', ¬GoesOn native cs effects cs') : processIteration native cs = .done := by
  cases hit : processIteration native cs with
  | done => rfl
  | throw e effects => exact absurd hit (processIteration_ne_throw native cs e effects)
  | next cs' effects => exact absurd hit (h effects cs')

end Iteration

/-! ## The loop -/

section Loop

variable {native : Endian} {cs cs' : ClientState} {effects : List Effect} {n : Nat}

/-- The loop, from where it is after some iterations. -/
theorem processClient_turns (h : Turns (GoesOn native) n cs effects cs') :
    processClient native cs = ((processClient native cs').1, effects ++ (processClient native cs').2) := by
  induction h with
  | none cs => rfl
  | turn h _ ih => rw [processClient_next h, ih, List.append_assoc]

theorem turns_paid (h : Turns (GoesOn native) n cs effects cs') : charged effects ≤ consumed effects :=
  h.bounded (Nat.le_refl 0) charged_append consumed_append fun _ _ _ => iteration_paid

theorem turns_consumed (h : Turns (GoesOn native) n cs effects cs') :
    cs'.ringBuffer.size + consumed effects = cs.ringBuffer.size := by
  have hturn : ∀ a es b, GoesOn native a es b → b.unread.length + consumed es = a.unread.length := by
    intro a es b h
    rw [length_unread, length_unread]
    exact iteration_consumed h
  have hsum := h.balance rfl consumed_append hturn
  rwa [length_unread, length_unread] at hsum

theorem turns_le (h : Turns (GoesOn native) n cs effects cs') : n ≤ cs.potential := by
  have hdown : ∀ a es b, GoesOn native a es b → b.potential < a.potential := fun _ _ _ => iteration_potential
  have := h.count_le hdown
  omega

end Loop

/-- **The loop of `process_client` ends, from every client state.** An iteration that continues lowers the number of unread
bytes, or keeps it and lowers the rank of the state; the loop returns after finitely many iterations and never throws;
and after each of them the failures counted and the records pushed are at most the bytes consumed, which are those that
have left the ring buffer. -/
theorem process_client_terminates (native : Endian) (cs : ClientState) :
    (∀ effects cs', GoesOn native cs effects cs' →
      Prod.Lex (· < ·) (· < ·) (cs'.ringBuffer.size, cs'.state.rank) (cs.ringBuffer.size, cs.state.rank)) ∧
    (∃ n effects cs', Turns (GoesOn native) n cs effects cs' ∧ processIteration native cs' = .done ∧
      processClient native cs = (.ok cs', effects)) ∧
    ∀ n effects cs', Turns (GoesOn native) n cs effects cs' →
      n ≤ cs.potential ∧ (∀ e thrown, processIteration native cs' ≠ .throw e thrown) ∧
      failures effects + (parsed effects).length ≤ consumed effects ∧
      cs'.ringBuffer.size + consumed effects = cs.ringBuffer.size := by
  refine ⟨fun effects cs' h => processIteration_decreases native h, ?_, ?_⟩
  · have hwf : WellFounded (Prod.Lex (· < ·) (· < ·) : Nat × Nat → Nat × Nat → Prop) :=
      WellFounded.prod_lex Nat.lt_wfRel.wf Nat.lt_wfRel.wf
    obtain ⟨n, effects, cs', hs, hlast⟩ := exists_last_turn hwf
      (fun cs : ClientState => (cs.ringBuffer.size, cs.state.rank))
      (fun _ _ _ h => processIteration_decreases native h) cs
    have hdone := done_of_no_turn hlast
    refine ⟨n, effects, cs', hs, hdone, ?_⟩
    rw [processClient_turns hs, processClient_done hdone, List.append_nil]
  · intro n effects cs' hs
    exact ⟨turns_le hs, processIteration_ne_throw native cs', turns_paid hs, turns_consumed hs⟩

/-- A client state that no run reaches: waiting for a payload of length zero, with six unread bytes of a frame whose
checksum is wrong. -/
theorem process_client_terminates_zero : ∃ cs : ClientState,
    cs.state = .waitPayloadAndCrc ∧ cs.payloadLength = 0 ∧ cs.unread = [1, 2, 3, 4, 5, 6] ∧
    (∃ effects cs', GoesOn .little cs effects cs' ∧
      Prod.Lex (· < ·) (· < ·) (cs'.ringBuffer.size, cs'.state.rank) (cs.ringBuffer.size, cs.state.rank)) ∧
    ∃ n effects cs', Turns (GoesOn .little) n cs effects cs' ∧ n ≤ 18 ∧
      processClient .little cs = (.ok cs', effects) ∧ failures effects + (parsed effects).length ≤ consumed effects := by
  obtain ⟨rb, hbytes⟩ := Ring.exists_bytes [1, 2, 3, 4, 5, 6] (by decide)
  let cs : ClientState := { state := .waitPayloadAndCrc, ringBuffer := rb }
  have hunread : cs.unread = [1, 2, 3, 4, 5, 6] := hbytes
  have hzero : cs.payloadLength.toNat = 0 := rfl
  have hmismatch : ¬CrcMatches cs.unread cs.payloadLength.toNat := by rw [hunread, hzero]; decide +kernel
  obtain ⟨rb', scratch, hit, -, -⟩ := waitPayload_mismatch .little (by rw [hunread, hzero]; decide) hmismatch
  obtain ⟨hdown, ⟨n, effects, cs', hs, -, hloop⟩, hall⟩ := process_client_terminates .little cs
  obtain ⟨hn, -, hpaid, -⟩ := hall n effects cs' hs
  have hpot : cs.potential = 18 := by
    have hlen := length_unread cs
    rw [hunread] at hlen
    rw [ClientState.potential, ← hlen]
    rfl
  exact ⟨cs, rfl, rfl, hunread, ⟨_, _, hit, hdown _ _ hit⟩, n, effects, cs', hs, hpot ▸ hn, hloop, hpaid⟩

end CounterDrone

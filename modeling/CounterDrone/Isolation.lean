import Mathlib
import CounterDrone.Lib.Keyed
import CounterDrone.Simulation

/-!
# Clients do not influence one another

Handling a chunk reads and writes the entry of its own client only (`handleChunk_local`), whichever way the body of the
loop of `run` ends; so a run of the parser is a machine with one state for each client (`handleChunks_keyed`), and each
client fares as if its chunks were the only ones (`client_isolation`).
-/

namespace CounterDrone

variable (native : Endian)

/-- The step of one client: what handling a chunk does when the parser knows no other client. -/
def clientStep : KeyStep Int ClientState (List Byte) Effect := fun c entry data =>
  let h := handleChunk native { clients := Function.update (fun _ => none) c entry } ⟨c, data⟩
  (h.parser.clients c, h.effects)

/-- **A chunk is handled on the entry of its client alone.** -/
theorem handleChunk_local (p : StreamingParser) (c : Int) (data : List Byte) :
    (handleChunk native p ⟨c, data⟩).parser.clients =
        Function.update p.clients c (clientStep native c (p.clients c) data).1 ∧
      (handleChunk native p ⟨c, data⟩).effects = (clientStep native c (p.clients c) data).2 ∧
      (handleChunk native p ⟨c, data⟩).parser.crcFailures =
        p.crcFailures + BitVec.ofNat 64 (failures (handleChunk native p ⟨c, data⟩).effects) := by
  have hentry : (StreamingParser.mk 0 (Function.update (fun _ => none) c (p.clients c))).entry c = p.entry c := by
    simp only [StreamingParser.entry, Function.update_self]
  simp only [clientStep]
  by_cases hd : data = []
  · subst hd
    rw [handleChunk_cleanedUp, handleChunk_cleanedUp]
    simp [StreamingParser.erase, failures]
  · cases hpush : (p.entry c).ringBuffer.push data with
    | error e =>
      rw [handleChunk_overflow hd hpush, handleChunk_overflow hd (by rw [hentry]; exact hpush)]
      simp [StreamingParser.erase, failures]
    | ok rb =>
      cases hrun : processClient native { p.entry c with ringBuffer := rb } with
      | mk res effects =>
        cases res with
        | error e =>
          rw [handleChunk_unexpected hd hpush hrun,
            handleChunk_unexpected hd (by rw [hentry]; exact hpush) (by rw [hentry]; exact hrun)]
          simp [StreamingParser.erase, failures]
        | ok cs =>
          rw [handleChunk_processed hd hpush hrun,
            handleChunk_processed hd (by rw [hentry]; exact hpush) (by rw [hentry]; exact hrun)]
          simp [StreamingParser.store]

/-- A chunk as an input for its client. -/
def DataChunk.toInput (chunk : DataChunk) : Int × List Byte := (chunk.clientId, chunk.data)

/-- A run of the parser is a run of the machine with one state for each client, and the failure counter adds up its
effects. -/
theorem handleChunks_keyed : ∀ (chunks : List DataChunk) (p : StreamingParser),
    (handleChunks native p chunks).1.clients =
        (runKeyed (clientStep native) p.clients (chunks.map DataChunk.toInput)).1 ∧
      (handleChunks native p chunks).2 = (runKeyed (clientStep native) p.clients (chunks.map DataChunk.toInput)).2 ∧
      (handleChunks native p chunks).1.crcFailures =
        p.crcFailures + BitVec.ofNat 64 (failures ((handleChunks native p chunks).2.map Prod.snd))
  | [], _ => ⟨rfl, rfl, (BitVec.add_zero _).symm⟩
  | ⟨c, data⟩ :: chunks, p => by
    obtain ⟨hc, he, hf⟩ := handleChunk_local native p c data
    obtain ⟨ihc, ihe, ihf⟩ := handleChunks_keyed chunks (handleChunk native p ⟨c, data⟩).parser
    rw [hc] at ihc ihe
    refine ⟨ihc, ?_, ?_⟩
    · simp only [handleChunks, ihe, he]
      rfl
    · simp only [handleChunks, List.map_append, untag, failures_append, ihf, hf, BitVec.ofNat_add, BitVec.add_assoc]

/-- The chunks of a client. -/
def chunksOf (c : Int) (chunks : List DataChunk) : List DataChunk := chunks.filter fun chunk => chunk.clientId = c

theorem valuesAt_toInput (c : Int) : ∀ chunks : List DataChunk,
    valuesAt c (chunks.map DataChunk.toInput) = (chunksOf c chunks).map DataChunk.data
  | [] => rfl
  | ⟨j, data⟩ :: chunks => by
    rw [List.map_cons, DataChunk.toInput]
    by_cases h : j = c
    · subst h
      rw [valuesAt_cons_self, valuesAt_toInput j chunks]
      simp [chunksOf]
    · rw [valuesAt_cons_ne h, valuesAt_toInput c chunks]
      simp [chunksOf, h]

/-- What a run does to a client is a function of its entry and of its own chunks. -/
theorem handleChunks_at (c : Int) (p : StreamingParser) (chunks : List DataChunk) :
    (handleChunks native p chunks).1.clients c =
        (runKey (clientStep native c) (p.clients c) ((chunksOf c chunks).map DataChunk.data)).1 ∧
      valuesAt c (handleChunks native p chunks).2 =
        (runKey (clientStep native c) (p.clients c) ((chunksOf c chunks).map DataChunk.data)).2 := by
  obtain ⟨hc, he, _⟩ := handleChunks_keyed native chunks p
  rw [hc, he, ← valuesAt_toInput, ← runKeyed_at]
  exact ⟨rfl, rfl⟩

/-- Every effect of a run is tagged with the client of one of its chunks. -/
theorem exists_chunk_of_mem : ∀ {chunks : List DataChunk} {p : StreamingParser} {e : Int × Effect},
    e ∈ (handleChunks native p chunks).2 → ∃ chunk ∈ chunks, chunk.clientId = e.1
  | [], _, _, h => by cases h
  | chunk :: chunks, p, e, h => by
    rcases List.mem_append.mp h with h | h
    · obtain ⟨effect, _, rfl⟩ := List.mem_map.mp h
      exact ⟨chunk, List.mem_cons_self, rfl⟩
    · obtain ⟨ch, hm, he⟩ := exists_chunk_of_mem h
      exact ⟨ch, List.mem_cons_of_mem _ hm, he⟩

/-- A run over the chunks of one client has effects of that client only. -/
theorem valuesAt_own (c : Int) (p : StreamingParser) (chunks : List DataChunk) :
    valuesAt c (handleChunks native p (chunksOf c chunks)).2 =
      (handleChunks native p (chunksOf c chunks)).2.map Prod.snd := by
  rw [valuesAt, List.filter_eq_self.mpr]
  intro e he
  obtain ⟨chunk, hm, hid⟩ := exists_chunk_of_mem native he
  have hc := (List.mem_filter.mp hm).2
  rw [hid] at hc
  exact hc

theorem chunksOf_chunksOf (c : Int) (chunks : List DataChunk) : chunksOf c (chunksOf c chunks) = chunksOf c chunks :=
  List.filter_eq_self.mpr fun _ h => (List.mem_filter.mp h).2

theorem chunksOf_append (c : Int) (xs ys : List DataChunk) : chunksOf c (xs ++ ys) = chunksOf c xs ++ chunksOf c ys :=
  List.filter_append _ _

/-- The failures of a trace are the failures of its clients, added up over any set of clients that has them all. -/
theorem failures_sum (ids : Finset Int) : ∀ {trace : List (Int × Effect)}, (∀ e ∈ trace, e.1 ∈ ids) →
    failures (trace.map Prod.snd) = ∑ c ∈ ids, failures (valuesAt c trace)
  | [], _ => by simp [failures, valuesAt]
  | (j, effect) :: trace, h => by
    have ih := failures_sum ids fun e he => h e (List.mem_cons_of_mem _ he)
    have hstep : ∀ c, failures (valuesAt c ((j, effect) :: trace)) =
        (if c = j then failures [effect] else 0) + failures (valuesAt c trace) := by
      intro c
      by_cases hc : c = j
      · subst hc
        rw [valuesAt_cons_self, if_pos rfl, ← failures_append]
        rfl
      · rw [valuesAt_cons_ne (Ne.symm hc), if_neg hc, Nat.zero_add]
    rw [List.map_cons, ← List.singleton_append, failures_append, ih, Finset.sum_congr rfl fun c _ => hstep c,
      Finset.sum_add_distrib, Finset.sum_ite_eq' ids j, if_pos (h _ List.mem_cons_self)]

/-- The clear effect of an empty chunk on its client. -/
theorem clientStep_empty (c : Int) (entry : Option ClientState) : (clientStep native c entry []).1 = none := by
  simp [clientStep, handleChunk, StreamingParser.erase]

/-- After an empty chunk for a client, a run is for that client one that starts from nothing. -/
theorem handleChunks_after_empty (p : StreamingParser) (chunks later : List DataChunk) (c : Int) :
    (handleChunks native p (chunks ++ ⟨c, []⟩ :: later)).1.clients c =
        (handleChunks native {} (chunksOf c later)).1.clients c ∧
      valuesAt c (handleChunks native p (chunks ++ ⟨c, []⟩ :: later)).2 =
        valuesAt c (handleChunks native p (chunks ++ [⟨c, []⟩])).2 ++
          (handleChunks native {} (chunksOf c later)).2.map Prod.snd := by
  have hsplit : chunksOf c (chunks ++ ⟨c, []⟩ :: later) = chunksOf c (chunks ++ [⟨c, []⟩]) ++ chunksOf c later := by
    rw [← chunksOf_append, List.append_assoc]
    rfl
  have hnone : (runKey (clientStep native c) (p.clients c)
      ((chunksOf c (chunks ++ [⟨c, []⟩])).map DataChunk.data)).1 = none := by
    have hlast : chunksOf c [⟨c, []⟩] = [⟨c, []⟩] := by simp [chunksOf]
    rw [chunksOf_append, hlast, List.map_append, runKey_append]
    exact clientStep_empty native c _
  obtain ⟨hstate, hout⟩ := handleChunks_at native c p (chunks ++ ⟨c, []⟩ :: later)
  obtain ⟨_, hcut⟩ := handleChunks_at native c p (chunks ++ [⟨c, []⟩])
  obtain ⟨hfresh, hfreshOut⟩ := handleChunks_at native c {} (chunksOf c later)
  rw [chunksOf_chunksOf] at hfresh hfreshOut
  rw [hsplit, List.map_append, runKey_append, hnone] at hstate hout
  refine ⟨hstate.trans hfresh.symm, ?_⟩
  rw [← valuesAt_own, hcut, hfreshOut]
  exact hout

/-- **Multi-client isolation.** For every client `c`:

* the effects of a run while it handles `c`'s chunks, the failures among them and the entry of `c` at the end are those
  of a run over `c`'s chunks alone;
* they are the same in every run, from every parser with the same entry for `c`, whose chunks for `c` are the same;
* the failure counter adds up the failures of the clients;
* no chunk, whichever way its handling ends, changes the entry of another client;
* after an empty chunk for `c` the run is, for `c`, one that starts from nothing. -/
theorem client_isolation (native : Endian) (p : StreamingParser) (chunks : List DataChunk) (c : Int) :
    let all := handleChunks native p chunks
    let own := handleChunks native p (chunksOf c chunks)
    (parsed (valuesAt c all.2) = parsed (own.2.map Prod.snd) ∧
      own.1.crcFailures = p.crcFailures + BitVec.ofNat 64 (failures (valuesAt c all.2)) ∧
      valuesAt c all.2 = own.2.map Prod.snd ∧ all.1.clients c = own.1.clients c) ∧
    (∀ (q : StreamingParser) (others : List DataChunk), q.clients c = p.clients c →
      chunksOf c others = chunksOf c chunks →
      valuesAt c (handleChunks native q others).2 = valuesAt c all.2 ∧
        (handleChunks native q others).1.clients c = all.1.clients c) ∧
    failures (all.2.map Prod.snd) = ∑ k ∈ (chunks.map DataChunk.clientId).toFinset, failures (valuesAt k all.2) ∧
    all.1.crcFailures =
      p.crcFailures + BitVec.ofNat 64 (∑ k ∈ (chunks.map DataChunk.clientId).toFinset, failures (valuesAt k all.2)) ∧
    (∀ chunk : DataChunk, chunk.clientId ≠ c → (handleChunk native p chunk).parser.clients c = p.clients c) ∧
    ∀ later : List DataChunk,
      let whole := handleChunks native p (chunks ++ ⟨c, []⟩ :: later)
      let fresh := handleChunks native {} (chunksOf c later)
      whole.1.clients c = fresh.1.clients c ∧
        valuesAt c whole.2 = valuesAt c (handleChunks native p (chunks ++ [⟨c, []⟩])).2 ++ fresh.2.map Prod.snd := by
  intro all own
  have hall := handleChunks_at native c p chunks
  have hown := handleChunks_at native c p (chunksOf c chunks)
  rw [chunksOf_chunksOf] at hown
  have heffects : valuesAt c all.2 = own.2.map Prod.snd := by
    rw [← valuesAt_own]
    exact hall.2.trans hown.2.symm
  have hsum : failures (all.2.map Prod.snd) =
      ∑ k ∈ (chunks.map DataChunk.clientId).toFinset, failures (valuesAt k all.2) := by
    refine failures_sum _ fun e he => ?_
    obtain ⟨chunk, hm, hid⟩ := exists_chunk_of_mem native he
    rw [List.mem_toFinset, ← hid]
    exact List.mem_map_of_mem hm
  refine ⟨⟨by rw [heffects], ?_, heffects, hall.1.trans hown.1.symm⟩, ?_, hsum, ?_, ?_, ?_⟩
  · rw [heffects]
    exact (handleChunks_keyed native (chunksOf c chunks) p).2.2
  · intro q others hq hothers
    have h := handleChunks_at native c q others
    rw [hq, hothers] at h
    exact ⟨h.2.trans hall.2.symm, h.1.trans hall.1.symm⟩
  · rw [← hsum]
    exact (handleChunks_keyed native chunks p).2.2
  · intro chunk hne
    rw [(handleChunk_local native p chunk.clientId chunk.data).1, Function.update_of_ne (Ne.symm hne)]
  · exact fun later => handleChunks_after_empty native p chunks later c

end CounterDrone

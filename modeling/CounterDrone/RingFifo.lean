import Mathlib
import CounterDrone.Lib.Refine
import CounterDrone.RingBuffer

/-!
# The ring buffer is a bounded FIFO

The calls of `RingBuffer` as one object, `RingBuffer.call`, beside the object it is meant to be: a byte list of bounded
length, `Fifo.call`. `Represents` relates the two states; every call keeps it and gives the reply of the list
(`call_represents`), so over any sequence of calls the two cannot be told apart (`ring_refines_fifo`).
-/

namespace CounterDrone

/-- The calls that read or change a buffer. `peek` is given its destination span. -/
inductive RingCall
  | push (data : List Byte)
  | peek (dest : List Byte)
  | consume (count : Nat)
  | clear

/-- What a call comes back with. -/
inductive RingReply
  | done
  | copied (bytes : List Byte)
  | overflowError (e : OverflowError)
  | outOfRange (e : OutOfRange)
  deriving DecidableEq

/-- The replies that are exceptions. -/
def RingReply.Threw : RingReply → Prop
  | overflowError _ => True
  | outOfRange _ => True
  | _ => False

/-- One call. A throw leaves the object as it is when the exception is thrown; the reply is `none` when a copy leaves
its arrays. -/
def RingBuffer.call (rb : RingBuffer) : RingCall → RingBuffer × Option RingReply
  | .push data =>
    match rb.push data with
    | some (.ok rb') => (rb', some .done)
    | some (.error e) => (rb, some (.overflowError e))
    | none => (rb, none)
  | .peek dest =>
    match rb.peek dest with
    | some (.ok bytes) => (rb, some (.copied bytes))
    | some (.error e) => (rb, some (.outOfRange e))
    | none => (rb, none)
  | .consume count =>
    match rb.consume count with
    | .ok rb' => (rb', some .done)
    | .error e => (rb, some (.outOfRange e))
  | .clear => (rb.clear, some .done)

/-! ## The bounded FIFO -/

namespace Fifo

/-- One call on a byte list that holds at most `capacity` bytes. -/
def call (capacity : Nat) (q : List Byte) : RingCall → List Byte × Option RingReply
  | .push data =>
    if data.length > capacity - q.length then
      (q, some (.overflowError ⟨RingBuffer.overflowText data.length (capacity - q.length)⟩))
    else (q ++ data, some .done)
  | .peek dest =>
    if dest.length > q.length then (q, some (.outOfRange ⟨RingBuffer.peekText dest.length q.length⟩))
    else (q, some (.copied (q.take dest.length)))
  | .consume count =>
    if count > q.length then (q, some (.outOfRange ⟨RingBuffer.consumeText count q.length⟩))
    else (q.drop count, some .done)
  | .clear => ([], some .done)

theorem call_ne_none (capacity : Nat) (q : List Byte) (c : RingCall) : (call capacity q c).2 ≠ none := by
  cases c with
  | push data => simp only [call]; split <;> exact Option.some_ne_none _
  | peek dest => simp only [call]; split <;> exact Option.some_ne_none _
  | consume count => simp only [call]; split <;> exact Option.some_ne_none _
  | clear => exact Option.some_ne_none _

end Fifo

/-! ## The relation -/

/-- The buffer `rb` of capacity `capacity` holds the bytes `q`. -/
structure Represents (capacity : Nat) (rb : RingBuffer) (q : List Byte) : Prop where
  valid : rb.Valid
  capacity_eq : rb.capacity = capacity
  contents_eq : rb.contents = q

namespace Represents

variable {capacity : Nat} {rb : RingBuffer} {q : List Byte}

theorem count_eq (h : Represents capacity rb q) : rb.count = q.length := by
  rw [← h.contents_eq, h.valid.length_contents]

theorem length_le (h : Represents capacity rb q) : q.length ≤ capacity := by
  rw [← h.count_eq, ← h.capacity_eq]
  exact h.valid.count_le

/-- **Every call keeps the relation and gives the reply of the list.** -/
theorem call_represents (h : Represents capacity rb q) (c : RingCall) :
    (rb.call c).2 = (Fifo.call capacity q c).2 ∧ Represents capacity (rb.call c).1 (Fifo.call capacity q c).1 := by
  have hcount := h.count_eq
  have hcap := h.capacity_eq
  cases c with
  | push data =>
    simp only [RingBuffer.call, Fifo.call]
    rcases RingBuffer.push_spec h.valid data with ⟨hfit, rb', he, hv, hc, hcap'⟩ | ⟨hover, he⟩
    · rw [hcount, hcap] at hfit
      rw [he, if_neg (by omega)]
      exact ⟨rfl, hv, hcap'.trans hcap, by rw [hc, h.contents_eq]⟩
    · rw [hcount, hcap] at hover he
      rw [he, if_pos hover]
      exact ⟨rfl, h⟩
  | peek dest =>
    simp only [RingBuffer.call, Fifo.call]
    rcases RingBuffer.peek_spec h.valid dest with ⟨hle, he⟩ | ⟨hlt, he⟩
    · rw [hcount] at hle
      rw [he, if_neg (by omega), h.contents_eq]
      exact ⟨rfl, h⟩
    · rw [hcount] at hlt he
      rw [he, if_pos hlt]
      exact ⟨rfl, h⟩
  | consume count =>
    simp only [RingBuffer.call, Fifo.call]
    rcases RingBuffer.consume_spec h.valid count with ⟨hle, rb', he, hv, hc, hcap'⟩ | ⟨hlt, he⟩
    · rw [hcount] at hle
      rw [he, if_neg (by omega)]
      exact ⟨rfl, hv, hcap'.trans hcap, by rw [hc, h.contents_eq]⟩
    · rw [hcount] at hlt he
      rw [he, if_pos hlt]
      exact ⟨rfl, h⟩
  | clear => exact ⟨rfl, RingBuffer.clear_valid h.valid, hcap, RingBuffer.contents_clear rb⟩

end Represents

/-- A call that throws changes nothing. -/
theorem RingBuffer.call_threw (rb : RingBuffer) (c : RingCall) {r : RingReply} (hr : (rb.call c).2 = some r)
    (ht : r.Threw) : (rb.call c).1 = rb := by
  cases c with
  | push data =>
    simp only [RingBuffer.call] at hr ⊢
    rcases hp : rb.push data with _ | (e | rb')
    · rfl
    · rfl
    · rw [hp] at hr
      cases hr
      exact ht.elim
  | peek dest =>
    simp only [RingBuffer.call]
    rcases rb.peek dest with _ | (e | bytes) <;> rfl
  | consume count =>
    simp only [RingBuffer.call] at hr ⊢
    rcases hp : rb.consume count with e | rb'
    · rfl
    · rw [hp] at hr
      cases hr
      exact ht.elim
  | clear =>
    cases hr
    exact ht.elim

/-! ## Runs -/

/-- What holds of a buffer and its byte list between two calls. -/
structure FifoState (capacity : Nat) (rb : RingBuffer) (q : List Byte) : Prop where
  contents : rb.contents = q
  length_le : q.length ≤ capacity
  size : rb.size = q.length
  freeSpace : rb.freeSpace = capacity - q.length
  length_buf : rb.buf.length = capacity
  head_lt : rb.head < capacity
  tail_lt : rb.tail < capacity
  head_eq : rb.head = (rb.tail + rb.count) % capacity

theorem Represents.fifoState {capacity : Nat} {rb : RingBuffer} {q : List Byte} (h : Represents capacity rb q) :
    FifoState capacity rb q where
  contents := h.contents_eq
  length_le := h.length_le
  size := h.count_eq
  freeSpace := by rw [h.valid.freeSpace_eq, h.capacity_eq, h.count_eq]
  length_buf := by rw [h.valid.length_buf, h.capacity_eq]
  head_lt := by
    have := h.valid.head_lt
    rwa [h.capacity_eq] at this
  tail_lt := by
    have := h.valid.tail_lt
    rwa [h.capacity_eq] at this
  head_eq := by
    have := h.valid.head_eq
    rwa [h.capacity_eq] at this

theorem represents_new {capacity : Nat} (hpos : 0 < capacity) (hlt : capacity < 2 ^ 63) :
    Represents capacity (.new capacity) [] :=
  ⟨RingBuffer.new_valid hpos hlt, rfl, RingBuffer.contents_new capacity⟩

/-- **The ring buffer refines the bounded FIFO**: over every sequence of calls it gives the replies of the list, its
indices stay in range, no copy leaves its arrays, and a further call that throws leaves every field as it is. -/
theorem ring_refines_fifo {capacity : Nat} (hpos : 0 < capacity) (hlt : capacity < 2 ^ 63) (calls : List RingCall) :
    (runCalls RingBuffer.call (.new capacity) calls).2 = (runCalls (Fifo.call capacity) [] calls).2 ∧
    FifoState capacity (runCalls RingBuffer.call (.new capacity) calls).1
      (runCalls (Fifo.call capacity) [] calls).1 ∧
    ∀ c, ∃ r, ((runCalls RingBuffer.call (.new capacity) calls).1.call c).2 = some r ∧
      (Fifo.call capacity (runCalls (Fifo.call capacity) [] calls).1 c).2 = some r ∧
      (r.Threw → ((runCalls RingBuffer.call (.new capacity) calls).1.call c).1 =
        (runCalls RingBuffer.call (.new capacity) calls).1) := by
  obtain ⟨hreplies, hrep⟩ := runCalls_refines (R := Represents capacity)
    (fun _ _ c h => h.call_represents c) (represents_new hpos hlt) calls
  refine ⟨hreplies, hrep.fifoState, ?_⟩
  intro c
  obtain ⟨hreply, -⟩ := hrep.call_represents c
  obtain ⟨r, hr⟩ := Option.ne_none_iff_exists'.mp
    (Fifo.call_ne_none capacity (runCalls (Fifo.call capacity) [] calls).1 c)
  refine ⟨r, hreply.trans hr, hr, ?_⟩
  exact RingBuffer.call_threw _ c (hreply.trans hr)

/-- A buffer of four bytes that wraps, is read across its end and then overflows. -/
theorem ring_refines_fifo_wraps :
    (runCalls RingBuffer.call (.new 4) [.push [1, 2, 3], .consume 2, .push [4, 5, 6], .peek [0, 0, 0, 0],
      .push [7]]).2 =
    [some .done, some .done, some .done, some (.copied [3, 4, 5, 6]),
      some (.overflowError ⟨RingBuffer.overflowText 1 0⟩)] := by
  rw [(ring_refines_fifo (by decide) (by decide) _).1]
  rfl

end CounterDrone

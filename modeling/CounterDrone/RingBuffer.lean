import Mathlib
import CounterDrone.Lib.Bytes
import CounterDrone.Lib.Circular

/-!
# The ring buffer

`RingBuffer` of `ringBuffer.cpp`, with its indices in 64-bit unsigned arithmetic and every `memcpy` checked against
both its arrays (a copy outside them is `none`). `RingBuffer.Valid` is the invariant of a buffer built by the
constructor; under it no copy leaves its arrays, and the calls are those of a bounded FIFO on `contents`:

* `push` appends or throws (`push_spec`), `peek` copies the first bytes or throws (`peek_spec`), `consume` drops the
  first bytes or throws (`consume_spec`).

`Ring` is a buffer with its invariant; the parser holds these.
-/

namespace CounterDrone

/-! ## Unsigned 64-bit arithmetic and checked copies -/

/-- `size_t` addition. -/
def uadd (a b : Nat) : Nat := (a + b) % 2 ^ 64

/-- `size_t` subtraction. -/
def usub (a b : Nat) : Nat := (a + (2 ^ 64 - b)) % 2 ^ 64

theorem uadd_eq {a b : Nat} (h : a + b < 2 ^ 64) : uadd a b = a + b := by
  rw [uadd]
  exact Nat.mod_eq_of_lt h

theorem usub_eq {a b : Nat} (ha : a < 2 ^ 64) (hb : b ≤ a) : usub a b = a - b := by
  unfold usub
  omega

/-- `memcpy(dst + dstOff, src + srcOff, n)`: the destination after the copy, `none` when it leaves an array. -/
def memcpy (dst : List Byte) (dstOff : Nat) (src : List Byte) (srcOff n : Nat) : Option (List Byte) :=
  if dstOff + n ≤ dst.length ∧ srcOff + n ≤ src.length then some (splice dst dstOff ((src.drop srcOff).take n)) else none

theorem memcpy_eq {dst src : List Byte} {dstOff srcOff n : Nat} (hd : dstOff + n ≤ dst.length)
    (hs : srcOff + n ≤ src.length) : memcpy dst dstOff src srcOff n = some (splice dst dstOff ((src.drop srcOff).take n)) :=
  if_pos ⟨hd, hs⟩

/-- `std::overflow_error`. -/
structure OverflowError where
  what : String
  deriving DecidableEq

/-- `std::out_of_range`. -/
structure OutOfRange where
  what : String
  deriving DecidableEq

/-! ## The class -/

/-- Default capacity in bytes (64 KiB). -/
def DEFAULT_CAPACITY : Nat := 65536

structure RingBuffer where
  /-- backing storage -/
  buf : List Byte
  /-- fixed capacity -/
  capacity : Nat
  /-- write index -/
  head : Nat
  /-- read index -/
  tail : Nat
  /-- number of unread bytes -/
  count : Nat
  deriving DecidableEq

namespace RingBuffer

/-- The constructor. -/
def new (capacity : Nat) : RingBuffer := ⟨List.replicate capacity 0, capacity, 0, 0, 0⟩

def size (rb : RingBuffer) : Nat := rb.count

def freeSpace (rb : RingBuffer) : Nat := usub rb.capacity rb.count

def overflowText (wanted free : Nat) : String :=
  "RingBuffer overflow: tried to push " ++ toString wanted ++ " bytes, only " ++ toString free ++ " free"

def peekText (wanted available : Nat) : String :=
  "RingBuffer peek: requested " ++ toString wanted ++ " bytes, only " ++ toString available ++ " available"

def consumeText (wanted available : Nat) : String :=
  "RingBuffer consume: tried to discard " ++ toString wanted ++ " bytes, only " ++ toString available ++ " available"

def push (rb : RingBuffer) (data : List Byte) : Option (Except OverflowError RingBuffer) :=
  if data.length > rb.freeSpace then
    some (.error ⟨overflowText data.length rb.freeSpace⟩)
  else
    let firstChunk := min data.length (usub rb.capacity rb.head)
    (memcpy rb.buf rb.head data 0 firstChunk).bind fun buf =>
    -- wrap around: the remainder goes to the start of the array
    (if firstChunk < data.length then memcpy buf 0 data firstChunk (usub data.length firstChunk) else some buf).map
      fun buf => .ok { rb with
        buf := buf
        head := uadd rb.head data.length % rb.capacity
        count := uadd rb.count data.length }

/-- `dest` is the destination span; its length is the number of bytes asked for. -/
def peek (rb : RingBuffer) (dest : List Byte) : Option (Except OutOfRange (List Byte)) :=
  let count := dest.length
  if count > rb.count then
    some (.error ⟨peekText count rb.count⟩)
  else
    let firstChunk := min count (usub rb.capacity rb.tail)
    (memcpy dest 0 rb.buf rb.tail firstChunk).bind fun dest =>
    (if firstChunk < count then memcpy dest firstChunk rb.buf 0 (usub count firstChunk) else some dest).map .ok

def consume (rb : RingBuffer) (count : Nat) : Except OutOfRange RingBuffer :=
  if count > rb.count then
    .error ⟨consumeText count rb.count⟩
  else
    .ok { rb with tail := uadd rb.tail count % rb.capacity, count := usub rb.count count }

def clear (rb : RingBuffer) : RingBuffer := { rb with head := 0, tail := 0, count := 0 }

/-! ## The invariant and the contents -/

/-- The invariant of a buffer. -/
structure Valid (rb : RingBuffer) : Prop where
  length_buf : rb.buf.length = rb.capacity
  capacity_pos : 0 < rb.capacity
  capacity_lt : rb.capacity < 2 ^ 63
  tail_lt : rb.tail < rb.capacity
  count_le : rb.count ≤ rb.capacity
  head_eq : rb.head = (rb.tail + rb.count) % rb.capacity

/-- The unread bytes, oldest first. -/
def contents (rb : RingBuffer) : List Byte := window rb.buf rb.tail rb.count

theorem new_valid {capacity : Nat} (hpos : 0 < capacity) (hlt : capacity < 2 ^ 63) : (new capacity).Valid where
  length_buf := List.length_replicate
  capacity_pos := hpos
  capacity_lt := hlt
  tail_lt := hpos
  count_le := Nat.zero_le _
  head_eq := by simp [new]

@[simp] theorem contents_new (capacity : Nat) : (new capacity).contents = [] := by
  simp [contents, new]

variable {rb : RingBuffer}

theorem Valid.head_lt (h : rb.Valid) : rb.head < rb.capacity := by
  rw [h.head_eq]
  exact Nat.mod_lt _ h.capacity_pos

theorem Valid.freeSpace_eq (h : rb.Valid) : rb.freeSpace = rb.capacity - rb.count := by
  have := h.capacity_lt
  exact usub_eq (by omega) h.count_le

theorem Valid.length_contents (h : rb.Valid) : rb.contents.length = rb.count :=
  length_window (by rw [h.length_buf]; exact h.tail_lt.le) (by rw [h.length_buf]; exact h.count_le)

/-! ## Push -/

/-- The buffer after a push that fits. -/
def pushed (rb : RingBuffer) (data : List Byte) : RingBuffer :=
  { rb with
    buf := wrapWrite rb.buf rb.head data
    head := (rb.head + data.length) % rb.capacity
    count := rb.count + data.length }

/-- The two copies of `push` are one circular write. -/
theorem push_eq (h : rb.Valid) {data : List Byte} (hfit : data.length ≤ rb.capacity - rb.count) :
    rb.push data = some (.ok (rb.pushed data)) := by
  have hcap := h.capacity_lt
  have hcount := h.count_le
  have hhead := h.head_lt
  have hlen := h.length_buf
  have hfirst : usub rb.capacity rb.head = rb.capacity - rb.head := usub_eq (by omega) hhead.le
  have hadd : uadd rb.head data.length = rb.head + data.length := uadd_eq (by omega)
  have hcnt : uadd rb.count data.length = rb.count + data.length := uadd_eq (by omega)
  unfold push
  rw [if_neg (by rw [h.freeSpace_eq]; omega), hfirst, hadd, hcnt]
  simp only []
  rw [memcpy_eq (by omega) (by omega), Option.bind_some, List.drop_zero]
  -- the second copy is made exactly when the data goes round the end
  by_cases hwrap : min data.length (rb.capacity - rb.head) < data.length
  · have hrest : usub data.length (min data.length (rb.capacity - rb.head)) =
        data.length - min data.length (rb.capacity - rb.head) := usub_eq (by omega) (by omega)
    have hall : (data.drop (min data.length (rb.capacity - rb.head))).take
        (data.length - min data.length (rb.capacity - rb.head)) =
        data.drop (min data.length (rb.capacity - rb.head)) := List.take_of_length_le (by rw [List.length_drop])
    rw [if_pos hwrap, hrest, memcpy_eq (by rw [length_splice (by rw [List.length_take]; omega)]; omega) (by omega),
      hall]
    simp only [Option.map_some, pushed, wrapWrite, hlen]
  · rw [if_neg hwrap, List.take_of_length_le (by omega)]
    simp only [Option.map_some, pushed]
    rw [wrapWrite_of_fits (by omega)]

theorem pushed_valid (h : rb.Valid) {data : List Byte} (hfit : data.length ≤ rb.capacity - rb.count) :
    (rb.pushed data).Valid where
  length_buf := by
    rw [pushed, length_wrapWrite (by rw [h.length_buf]; exact h.head_lt) (by rw [h.length_buf]; omega)]
    exact h.length_buf
  capacity_pos := h.capacity_pos
  capacity_lt := h.capacity_lt
  tail_lt := h.tail_lt
  count_le := by
    have := h.count_le
    simp only [pushed]
    omega
  head_eq := by
    simp only [pushed]
    rw [h.head_eq, Nat.mod_add_mod, Nat.add_assoc]

theorem contents_pushed (h : rb.Valid) {data : List Byte} (hfit : data.length ≤ rb.capacity - rb.count) :
    (rb.pushed data).contents = rb.contents ++ data := by
  have hcount := h.count_le
  have hlen := h.length_buf
  refine window_wrapWrite (by rw [hlen]; exact h.tail_lt) (by omega) ?_
  rw [hlen]
  exact h.head_eq

/-- **`push` appends what fits and throws otherwise**, with no copy outside its arrays. -/
theorem push_spec (h : rb.Valid) (data : List Byte) :
    (data.length ≤ rb.capacity - rb.count ∧ ∃ rb', rb.push data = some (.ok rb') ∧ rb'.Valid ∧
      rb'.contents = rb.contents ++ data ∧ rb'.capacity = rb.capacity) ∨
    (rb.capacity - rb.count < data.length ∧
      rb.push data = some (.error ⟨overflowText data.length (rb.capacity - rb.count)⟩)) := by
  by_cases hfit : data.length ≤ rb.capacity - rb.count
  · exact Or.inl ⟨hfit, rb.pushed data, push_eq h hfit, pushed_valid h hfit, contents_pushed h hfit, rfl⟩
  · refine Or.inr ⟨by omega, ?_⟩
    rw [push, h.freeSpace_eq, if_pos (by omega)]

/-! ## Peek -/

/-- Two copies that fill a destination leave the copied bytes. -/
theorem splice_splice (dest a b : List Byte) (h : dest.length = a.length + b.length) :
    splice (splice dest 0 a) a.length b = a ++ b := by
  have hdrop : (dest.drop a.length).length = b.length := by rw [List.length_drop]; omega
  simp only [splice, List.take_zero, List.nil_append, Nat.zero_add, List.take_left]
  rw [← List.drop_drop, List.drop_left, List.drop_of_length_le hdrop.le, List.append_nil]

/-- **`peek` copies the first bytes and throws when there are too few**, with no copy outside its arrays. -/
theorem peek_spec (h : rb.Valid) (dest : List Byte) :
    (dest.length ≤ rb.count ∧ rb.peek dest = some (.ok (rb.contents.take dest.length))) ∨
    (rb.count < dest.length ∧ rb.peek dest = some (.error ⟨peekText dest.length rb.count⟩)) := by
  by_cases hle : dest.length ≤ rb.count
  · refine Or.inl ⟨hle, ?_⟩
    have hcap := h.capacity_lt
    have hcount := h.count_le
    have htail := h.tail_lt
    have hlen := h.length_buf
    have hfirst : usub rb.capacity rb.tail = rb.capacity - rb.tail := usub_eq (by omega) htail.le
    have hread := read_window rb.buf (s := rb.tail) (n := dest.length) (by omega) (by omega)
    rw [hlen] at hread
    rw [contents, take_window hle, ← hread]
    unfold peek
    simp only []
    rw [if_neg (by omega), hfirst, memcpy_eq (by omega) (by omega), Option.bind_some]
    -- the second copy is made exactly when the bytes asked for go round the end
    by_cases hwrap : min dest.length (rb.capacity - rb.tail) < dest.length
    · have hrest : usub dest.length (min dest.length (rb.capacity - rb.tail)) =
          dest.length - min dest.length (rb.capacity - rb.tail) := usub_eq (by omega) (by omega)
      have ha : ((rb.buf.drop rb.tail).take (min dest.length (rb.capacity - rb.tail))).length =
          min dest.length (rb.capacity - rb.tail) := by
        rw [List.length_take, List.length_drop]
        omega
      have hb : (rb.buf.take (dest.length - min dest.length (rb.capacity - rb.tail))).length =
          dest.length - min dest.length (rb.capacity - rb.tail) := by
        rw [List.length_take]
        omega
      have hcopy := splice_splice dest ((rb.buf.drop rb.tail).take (min dest.length (rb.capacity - rb.tail)))
        (rb.buf.take (dest.length - min dest.length (rb.capacity - rb.tail))) (by omega)
      rw [ha] at hcopy
      rw [if_pos hwrap, hrest, memcpy_eq (by rw [length_splice (by omega)]; omega) (by omega), List.drop_zero, hcopy,
        Option.map_some]
    · have hall : min dest.length (rb.capacity - rb.tail) = dest.length := by omega
      rw [if_neg hwrap, hall, Nat.sub_self, List.take_zero, List.append_nil, Option.map_some]
      have hfill : ((rb.buf.drop rb.tail).take dest.length).length = dest.length := by
        rw [List.length_take, List.length_drop]
        omega
      simp only [splice, List.take_zero, List.nil_append, Nat.zero_add, hfill, List.drop_length, List.append_nil]
  · refine Or.inr ⟨by omega, ?_⟩
    rw [peek, if_pos (by omega)]

/-! ## Consume and clear -/

/-- **`consume` drops the first bytes and throws when there are too few.** -/
theorem consume_spec (h : rb.Valid) (n : Nat) :
    (n ≤ rb.count ∧ ∃ rb', rb.consume n = .ok rb' ∧ rb'.Valid ∧ rb'.contents = rb.contents.drop n ∧
      rb'.capacity = rb.capacity) ∨
    (rb.count < n ∧ rb.consume n = .error ⟨consumeText n rb.count⟩) := by
  by_cases hle : n ≤ rb.count
  · have hcap := h.capacity_lt
    have hcount := h.count_le
    have htail := h.tail_lt
    have hadd : uadd rb.tail n = rb.tail + n := uadd_eq (by omega)
    have hsub : usub rb.count n = rb.count - n := usub_eq (by omega) hle
    refine Or.inl ⟨hle, { rb with tail := (rb.tail + n) % rb.capacity, count := rb.count - n }, ?_, ?_, ?_, rfl⟩
    · rw [consume, if_neg (by omega), hadd, hsub]
    · refine ⟨h.length_buf, h.capacity_pos, hcap, Nat.mod_lt _ h.capacity_pos, Nat.le_trans (Nat.sub_le _ _) hcount, ?_⟩
      rw [Nat.mod_add_mod, h.head_eq, show rb.tail + n + (rb.count - n) = rb.tail + rb.count by omega]
    · have hdrop := drop_window rb.buf (s := rb.tail) (n := rb.count) (k := n)
        (by rw [h.length_buf]; exact htail) (by rw [h.length_buf]; exact hcount) hle
      rw [h.length_buf] at hdrop
      exact hdrop.symm
  · refine Or.inr ⟨by omega, ?_⟩
    rw [consume, if_pos (by omega)]

theorem clear_valid (h : rb.Valid) : rb.clear.Valid where
  length_buf := h.length_buf
  capacity_pos := h.capacity_pos
  capacity_lt := h.capacity_lt
  tail_lt := h.capacity_pos
  count_le := Nat.zero_le _
  head_eq := by simp [clear]

@[simp] theorem contents_clear (rb : RingBuffer) : rb.clear.contents = [] := by
  simp [contents, clear]

end RingBuffer

/-! ## Buffers with their invariant -/

/-- A ring buffer that satisfies its invariant. -/
structure Ring where
  raw : RingBuffer
  valid : raw.Valid

namespace Ring

/-- The buffer that `ClientState` starts with. -/
@[irreducible] def empty : Ring :=
  ⟨.new DEFAULT_CAPACITY, RingBuffer.new_valid (by unfold DEFAULT_CAPACITY; omega) (by unfold DEFAULT_CAPACITY; omega)⟩

def size (r : Ring) : Nat := r.raw.size

/-- The unread bytes, oldest first. -/
def bytes (r : Ring) : List Byte := r.raw.contents

/-- The outcome of a call that makes no copy outside its arrays. -/
def defined {ε σ : Type} : (res : Option (Except ε σ)) → res ≠ none → Except ε σ
  | some r, _ => r
  | none, h => absurd rfl h

/-- A buffer returned by a call, with its invariant. -/
def withValid {ε : Type} : (res : Except ε RingBuffer) → (∀ rb, res = .ok rb → rb.Valid) → Except ε Ring
  | .ok rb, h => .ok ⟨rb, h rb rfl⟩
  | .error e, _ => .error e

theorem defined_eq {ε σ : Type} {res : Option (Except ε σ)} {h : res ≠ none} {x : Except ε σ} (hx : res = some x) :
    defined res h = x := by
  subst hx
  rfl

theorem withValid_ok {ε : Type} {res : Except ε RingBuffer} {h : ∀ rb, res = .ok rb → rb.Valid} {rb : RingBuffer}
    (hx : res = .ok rb) : withValid res h = .ok ⟨rb, h rb hx⟩ := by
  subst hx
  rfl

theorem push_defined (r : Ring) (data : List Byte) : r.raw.push data ≠ none := by
  rcases RingBuffer.push_spec r.valid data with ⟨_, rb', he, _⟩ | ⟨_, he⟩
  · rw [he]; exact Option.some_ne_none _
  · rw [he]; exact Option.some_ne_none _

theorem push_keeps (r : Ring) (data : List Byte) (rb : RingBuffer)
    (h : defined (r.raw.push data) (push_defined r data) = .ok rb) : rb.Valid := by
  rcases RingBuffer.push_spec r.valid data with ⟨_, rb', he, hv, _⟩ | ⟨_, he⟩
  · rw [defined_eq he] at h; cases h; exact hv
  · rw [defined_eq he] at h; cases h

theorem peek_defined (r : Ring) (dest : List Byte) : r.raw.peek dest ≠ none := by
  rcases RingBuffer.peek_spec r.valid dest with ⟨_, he⟩ | ⟨_, he⟩
  · rw [he]; exact Option.some_ne_none _
  · rw [he]; exact Option.some_ne_none _

theorem consume_keeps (r : Ring) (count : Nat) (rb : RingBuffer) (h : r.raw.consume count = .ok rb) : rb.Valid := by
  rcases RingBuffer.consume_spec r.valid count with ⟨_, rb', he, hv, _⟩ | ⟨_, he⟩
  · rw [he] at h; cases h; exact hv
  · rw [he] at h; cases h

/-- `RingBuffer::push`. -/
def push (r : Ring) (data : List Byte) : Except OverflowError Ring :=
  withValid (defined (r.raw.push data) (push_defined r data)) (push_keeps r data)

/-- `RingBuffer::peek`. -/
def peek (r : Ring) (dest : List Byte) : Except OutOfRange (List Byte) :=
  defined (r.raw.peek dest) (peek_defined r dest)

/-- `RingBuffer::consume`. -/
def consume (r : Ring) (count : Nat) : Except OutOfRange Ring := withValid (r.raw.consume count) (consume_keeps r count)

@[simp] theorem bytes_empty : empty.bytes = [] := by
  unfold bytes empty
  exact RingBuffer.contents_new DEFAULT_CAPACITY

@[simp] theorem capacity_empty : empty.raw.capacity = DEFAULT_CAPACITY := by
  unfold empty
  rfl

@[simp] theorem length_bytes (r : Ring) : r.bytes.length = r.size := r.valid.length_contents

/-- A push that fits appends. -/
theorem push_ok (r : Ring) (data : List Byte) (h : data.length ≤ r.raw.capacity - r.size) :
    ∃ r', r.push data = .ok r' ∧ r'.bytes = r.bytes ++ data ∧ r'.raw.capacity = r.raw.capacity := by
  rcases RingBuffer.push_spec r.valid data with ⟨_, rb', he, hv, hc, hcap⟩ | ⟨hlt, _⟩
  · exact ⟨⟨rb', hv⟩, withValid_ok (defined_eq he), hc, hcap⟩
  · exact absurd h (by unfold size RingBuffer.size; omega)

/-- Every byte string that fits is the content of a buffer. -/
theorem exists_bytes (data : List Byte) (h : data.length ≤ DEFAULT_CAPACITY) : ∃ r : Ring, r.bytes = data := by
  have hsize : empty.size = 0 := by
    rw [← length_bytes, bytes_empty]
    rfl
  obtain ⟨r, -, hbytes, -⟩ := push_ok empty data (by rw [hsize, capacity_empty]; exact h)
  rw [bytes_empty, List.nil_append] at hbytes
  exact ⟨r, hbytes⟩

/-- A peek of what is there copies it. -/
theorem peek_ok (r : Ring) (dest : List Byte) (h : dest.length ≤ r.size) :
    r.peek dest = .ok (r.bytes.take dest.length) := by
  rcases RingBuffer.peek_spec r.valid dest with ⟨_, he⟩ | ⟨hlt, _⟩
  · exact defined_eq he
  · exact absurd h (by unfold size RingBuffer.size; omega)

/-- A consume of what is there drops it. -/
theorem consume_ok (r : Ring) {n : Nat} (h : n ≤ r.size) :
    ∃ r', r.consume n = .ok r' ∧ r'.bytes = r.bytes.drop n ∧ r'.raw.capacity = r.raw.capacity := by
  rcases RingBuffer.consume_spec r.valid n with ⟨_, rb', he, hv, hc, hcap⟩ | ⟨hlt, _⟩
  · exact ⟨⟨rb', hv⟩, withValid_ok he, hc, hcap⟩
  · exact absurd h (by unfold size RingBuffer.size; omega)

end Ring

end CounterDrone

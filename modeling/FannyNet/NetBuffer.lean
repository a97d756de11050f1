import FannyNet.Primitives

/-!
# `NetBuffer`, the growable byte buffer

The allocation is kept as a list of bytes beside the capacity and the two
positions, so that every `memcpy` and `memmove` of the source is an explicit
overwrite.  The operations are the release build's: `MYASSERT` is compiled out.

Main results:

- Definition `NetBuffer.Valid`: the allocation has `maxLen` bytes and the
  positions are ordered.
- Theorems `NetBuffer.valid_writeBytes`, `NetBuffer.valid_clearReadBuffer` and
  `NetBuffer.valid_tailData`: the operations of the receive path keep the
  invariant.
- Theorems `NetBuffer.unread_writeBytes`, `NetBuffer.unread_clearReadBuffer` and
  `NetBuffer.unread_tailData`: what each of them does to the unread bytes.
- Theorem `NetBuffer.readBuffer_spec`: what moves between two buffers.
-/

namespace FannyNet

/-- `memcpy(dst + pos, src, src.length)` on the contents of an allocation. -/
def overwrite (dst : Bytes) (pos : Nat) (src : Bytes) : Bytes :=
  dst.take pos ++ src ++ dst.drop (pos + src.length)

theorem overwrite_length {dst src : Bytes} {pos : Nat} (h : pos + src.length ≤ dst.length) :
    (overwrite dst pos src).length = dst.length := by
  simp only [overwrite, List.length_append, List.length_take, List.length_drop]
  omega

theorem take_overwrite {dst : Bytes} (src : Bytes) {pos : Nat} (h : pos ≤ dst.length) :
    (overwrite dst pos src).take (pos + src.length) = dst.take pos ++ src := by
  have hlen : (dst.take pos ++ src).length = pos + src.length := by
    simp only [List.length_append, List.length_take]
    omega
  rw [overwrite, List.take_append_of_le_length (by omega), List.take_of_length_le (by omega)]

/-- The class `NetBuffer`. -/
structure NetBuffer where
  buffer : Bytes
  maxLen : Nat
  writePos : Nat
  readPos : Nat
  lock : Bool
deriving DecidableEq, Repr

namespace NetBuffer

/-- The constructor `NetBuffer(size_t len)`. -/
def create (len : Nat) : NetBuffer where
  buffer := List.replicate len 0
  maxLen := len
  writePos := 0
  readPos := 0
  lock := false

/-! ## Accessors -/

def length (b : NetBuffer) : Nat := b.writePos

def maxLength (b : NetBuffer) : Nat := b.maxLen

def needReadLength (b : NetBuffer) : Nat := b.writePos - b.readPos

def hasWrite (b : NetBuffer) : Bool := decide (b.length > 0)

def hasRead (b : NetBuffer) : Bool := decide (b.needReadLength > 0)

def isFull (b : NetBuffer) : Bool := decide (b.writePos ≥ b.maxLen)

def canRead (b : NetBuffer) (len : Nat) : Bool := decide (len ≤ b.needReadLength)

/-- `data()` up to `length()`. -/
def data (b : NetBuffer) : Bytes := b.buffer.take b.writePos

/-- The bytes at `readData()` that have not been read. -/
def unread (b : NetBuffer) : Bytes := b.data.drop b.readPos

/-! ## Operations -/

/-- `writeData(len)`, and whether the returned pointer is not null.  The `size_t` sum of a
length that is not the length of anything stored can wrap. -/
def writeData (b : NetBuffer) (len : Nat) : NetBuffer × Bool :=
  if sizeAdd b.writePos len > b.maxLen then (b, false)
  else ({ b with writePos := sizeAdd b.writePos len }, true)

/-- Bytes stored at `writeData()`, as far as there is room for them. -/
def stored (b : NetBuffer) (bytes : Bytes) : NetBuffer :=
  if b.writePos + bytes.length > b.maxLen then b
  else { b with buffer := overwrite b.buffer b.writePos bytes }

/-- Bytes stored at `writeData()`, then `writeData(len)` with their number. -/
def writeBytes (b : NetBuffer) (bytes : Bytes) : NetBuffer :=
  if b.writePos + bytes.length > b.maxLen then b
  else
    { b with
      buffer := overwrite b.buffer b.writePos bytes
      writePos := b.writePos + bytes.length }

/-- `readData(len)`: the bytes at the returned pointer, `none` for `nullptr`. -/
def readData (b : NetBuffer) (len : Nat) : NetBuffer × Option Bytes :=
  if b.canRead len then
    ({ b with readPos := b.readPos + len }, some ((b.buffer.drop b.readPos).take len))
  else (b, none)

def clearReadBuffer (b : NetBuffer) : NetBuffer :=
  { b with
    buffer := overwrite b.buffer 0 b.unread
    writePos := b.writePos - b.readPos
    readPos := 0 }

def reset (b : NetBuffer) : NetBuffer :=
  if b.lock then b
  else
    { b with
      buffer := overwrite b.buffer 0 (List.replicate b.writePos 0)
      writePos := 0
      readPos := 0 }

/-- Grow to twice the requested length when it does not fit. -/
def resize (b : NetBuffer) (len : Nat) : NetBuffer × Bool :=
  if b.lock then (b, false)
  else if len > b.maxLen then
    ({ b with
        maxLen := len * 2
        buffer := overwrite (List.replicate (len * 2) 0) 0 b.data }, true)
  else (b, true)

def tail (b : NetBuffer) (base : Bytes) : NetBuffer × Bool :=
  if b.lock then (b, false)
  else if base.length ≤ 0 then (b, false)
  else
    ({ b with
        buffer := overwrite b.buffer b.writePos base
        writePos := b.writePos + base.length }, true)

def tailData (b : NetBuffer) (base : Bytes) : NetBuffer × Bool :=
  (b.resize (b.writePos + base.length)).1.tail base

/-- `tailPod(t)`, with the bytes of `t` in memory. -/
def tailPod (b : NetBuffer) (t : Bytes) : NetBuffer × Bool := b.tailData t

/-- `tailNetBuffer(buffer)` of two distinct buffers. -/
def tailNetBuffer (b other : NetBuffer) : NetBuffer × Bool := b.tailData other.data

/-- `readPod(t)`, with the bytes that are assigned to `t`. -/
def readPod (b : NetBuffer) (size : Nat) : NetBuffer × Option Bytes := b.readData size

def setHead (b : NetBuffer) (base : Bytes) : NetBuffer × Bool :=
  if b.lock then (b, false)
  else if base.length ≤ b.writePos then ({ b with buffer := overwrite b.buffer 0 base }, true)
  else (b, false)

/-- `setHeadPod(t)`. -/
def setHeadPod (b : NetBuffer) (t : Bytes) : NetBuffer × Bool := b.setHead t

/-- The written bytes are moved behind `base`; the read position stays where it is. -/
def head (b : NetBuffer) (base : Bytes) : NetBuffer × Bool :=
  if b.lock then (b, false)
  else if base.length ≤ 0 then (b, false)
  else
    ({ b with
        buffer := overwrite (overwrite b.buffer base.length b.data) 0 base
        writePos := b.writePos + base.length }, true)

def headData (b : NetBuffer) (base : Bytes) : NetBuffer × Bool :=
  (b.resize (b.writePos + base.length)).1.head base

/-- `headPod(t)`. -/
def headPod (b : NetBuffer) (t : Bytes) : NetBuffer × Bool := b.headData t

/-- `headNetBuffer(buffer)` of two distinct buffers. -/
def headNetBuffer (b other : NetBuffer) : NetBuffer × Bool := b.headData other.data

/-- `readBuffer(buffer)` of two distinct buffers: the source, the destination
and the result. -/
def readBuffer (b dst : NetBuffer) : NetBuffer × NetBuffer × Bool :=
  if dst.isFull then (b, dst, false)
  else if !b.hasWrite then (b, dst, false)
  else
    let len := min (b.writePos - b.readPos) (dst.maxLength - dst.writePos)
    match b.readData len with
    | (b', none) => (b', dst, false)
    | (b', some p) => (b', dst.tail p)

/-- `m_lock = true`. -/
def setLock (b : NetBuffer) : NetBuffer := { b with lock := true }

/-! ## The representation invariant -/

/-- The allocation has the recorded size and the positions are ordered. -/
structure Valid (b : NetBuffer) : Prop where
  alloc : b.buffer.length = b.maxLen
  readPos_le : b.readPos ≤ b.writePos
  writePos_le : b.writePos ≤ b.maxLen

theorem valid_create (len : Nat) : (create len).Valid :=
  ⟨by simp [create], le_rfl, Nat.zero_le _⟩

@[simp]
theorem unread_create (len : Nat) : (create len).unread = [] := by
  simp [create, unread, data]

theorem Valid.length_data {b : NetBuffer} (h : b.Valid) : b.data.length = b.writePos := by
  have halloc := h.alloc
  have hw := h.writePos_le
  simp only [data, List.length_take]
  omega

theorem Valid.length_unread {b : NetBuffer} (h : b.Valid) :
    b.unread.length = b.writePos - b.readPos := by
  rw [unread, List.length_drop, h.length_data]

theorem Valid.needReadLength_eq {b : NetBuffer} (h : b.Valid) :
    b.needReadLength = b.unread.length :=
  h.length_unread.symm

/-- With nothing in front of the unread bytes, `hasWrite()` says whether there are any. -/
theorem Valid.hasWrite_iff {b : NetBuffer} (h : b.Valid) (hpos : b.readPos = 0) :
    b.hasWrite = true ↔ b.unread ≠ [] := by
  have hlen := h.length_unread
  rw [hpos, Nat.sub_zero] at hlen
  rw [hasWrite, decide_eq_true_eq, length, ← hlen, gt_iff_lt, List.length_pos_iff]

/-- Unread bytes from the allocation, as `readData` reads them. -/
theorem take_drop_buffer {b : NetBuffer} {len : Nat} (hlen : len ≤ b.needReadLength) :
    (b.buffer.drop b.readPos).take len = b.unread.take len := by
  simp only [needReadLength] at hlen
  rw [unread, data, List.drop_take, List.take_take, Nat.min_eq_left hlen]

/-! ## Writing behind the unread bytes -/

theorem valid_writeBytes {b : NetBuffer} (h : b.Valid) (bytes : Bytes) :
    (b.writeBytes bytes).Valid := by
  unfold writeBytes
  split
  · exact h
  · rename_i hfit
    have halloc := h.alloc
    have hr := h.readPos_le
    refine ⟨?_, ?_, ?_⟩
    · simp only
      rw [overwrite_length (by omega), h.alloc]
    · simp only
      omega
    · simp only
      omega

/-- As many bytes as exist in memory are written by the source's `writeData`. -/
theorem writeBytes_eq {b : NetBuffer} {bytes : Bytes}
    (hsum : b.writePos + bytes.length < 18446744073709551616) :
    b.writeBytes bytes = ((b.stored bytes).writeData bytes.length).1 := by
  unfold writeBytes stored writeData
  split
  · rename_i hfull
    rw [sizeAdd_of_lt hsum, if_pos hfull]
  · rename_i hfits
    simp only [sizeAdd_of_lt hsum, if_neg hfits]

/-- Bytes that fit the free space are appended to the unread bytes. -/
theorem unread_writeBytes {b : NetBuffer} (h : b.Valid) {bytes : Bytes}
    (hfit : b.writePos + bytes.length ≤ b.maxLen) :
    (b.writeBytes bytes).unread = b.unread ++ bytes := by
  have halloc := h.alloc
  have hr := h.readPos_le
  have hdata : b.readPos ≤ b.data.length := by rw [h.length_data]; exact hr
  rw [writeBytes, if_neg (by omega), unread, data]
  simp only
  rw [take_overwrite _ (by omega), ← data, List.drop_append_of_le_length hdata, unread]

/-- Any bytes can be the unread bytes of a buffer. -/
theorem exists_unread (bytes : Bytes) : ∃ b : NetBuffer, b.Valid ∧ b.unread = bytes := by
  have hvalid := valid_create bytes.length
  refine ⟨(create bytes.length).writeBytes bytes, valid_writeBytes hvalid bytes, ?_⟩
  rw [unread_writeBytes hvalid (by simp [create]), unread_create, List.nil_append]

theorem writePos_writeBytes {b : NetBuffer} {bytes : Bytes}
    (hfit : b.writePos + bytes.length ≤ b.maxLen) :
    (b.writeBytes bytes).writePos = b.writePos + bytes.length := by
  rw [writeBytes, if_neg (by omega)]

@[simp]
theorem maxLen_writeBytes (b : NetBuffer) (bytes : Bytes) :
    (b.writeBytes bytes).maxLen = b.maxLen := by
  unfold writeBytes
  split <;> rfl

@[simp]
theorem lock_writeBytes (b : NetBuffer) (bytes : Bytes) :
    (b.writeBytes bytes).lock = b.lock := by
  unfold writeBytes
  split <;> rfl

@[simp]
theorem readPos_writeBytes (b : NetBuffer) (bytes : Bytes) :
    (b.writeBytes bytes).readPos = b.readPos := by
  unfold writeBytes
  split <;> rfl

/-! ## `readData` and `clearReadBuffer` -/

theorem readData_of_le {b : NetBuffer} {len : Nat} (hlen : len ≤ b.needReadLength) :
    b.readData len = ({ b with readPos := b.readPos + len }, some (b.unread.take len)) := by
  rw [readData, if_pos (by simpa [canRead] using hlen), take_drop_buffer hlen]

theorem readData_of_lt {b : NetBuffer} {len : Nat} (hlen : b.needReadLength < len) :
    b.readData len = (b, none) := by
  rw [readData, if_neg (by simpa [canRead] using hlen)]

theorem valid_advance {b : NetBuffer} (h : b.Valid) {len : Nat} (hlen : len ≤ b.needReadLength) :
    ({ b with readPos := b.readPos + len } : NetBuffer).Valid := by
  have hr := h.readPos_le
  simp only [needReadLength] at hlen
  exact ⟨h.alloc, by simp only; omega, h.writePos_le⟩

@[simp]
theorem unread_advance (b : NetBuffer) (len : Nat) :
    ({ b with readPos := b.readPos + len } : NetBuffer).unread = b.unread.drop len := by
  simp only [unread, data, List.drop_drop]

theorem valid_clearReadBuffer {b : NetBuffer} (h : b.Valid) : b.clearReadBuffer.Valid := by
  have halloc := h.alloc
  have hw := h.writePos_le
  have hlen := h.length_unread
  refine ⟨?_, Nat.zero_le _, ?_⟩
  · simp only [clearReadBuffer]
    rw [overwrite_length (by omega), h.alloc]
  · simp only [clearReadBuffer]
    omega

/-- Compaction keeps the unread bytes. -/
@[simp]
theorem unread_clearReadBuffer {b : NetBuffer} (h : b.Valid) :
    b.clearReadBuffer.unread = b.unread := by
  have hlen := h.length_unread
  have htake := take_overwrite b.unread (Nat.zero_le b.buffer.length)
  rw [Nat.zero_add, hlen] at htake
  simp only [clearReadBuffer, unread, data, List.drop_zero] at htake ⊢
  simpa using htake

@[simp]
theorem readPos_clearReadBuffer (b : NetBuffer) : b.clearReadBuffer.readPos = 0 :=
  rfl

@[simp]
theorem maxLen_clearReadBuffer (b : NetBuffer) : b.clearReadBuffer.maxLen = b.maxLen :=
  rfl

@[simp]
theorem lock_clearReadBuffer (b : NetBuffer) : b.clearReadBuffer.lock = b.lock :=
  rfl

@[simp]
theorem writePos_clearReadBuffer (b : NetBuffer) :
    b.clearReadBuffer.writePos = b.writePos - b.readPos :=
  rfl

/-- What a `recv` leaves of the buffer it was given: a valid buffer of the same
capacity with nothing in front of the unread bytes. -/
structure Compacted (b b' : NetBuffer) : Prop where
  valid : b'.Valid
  readPos : b'.readPos = 0
  maxLen : b'.maxLen = b.maxLen
  lock : b'.lock = b.lock
  writePos_le : b'.writePos ≤ b.writePos

theorem Compacted.trans {b b' b'' : NetBuffer} (h : b.Compacted b') (h' : b'.Compacted b'') :
    b.Compacted b'' :=
  ⟨h'.valid, h'.readPos, h'.maxLen.trans h.maxLen, h'.lock.trans h.lock,
    h'.writePos_le.trans h.writePos_le⟩

/-- A compacted buffer is as long as what is unread. -/
theorem Compacted.writePos_eq {b b' : NetBuffer} (h : b.Compacted b') :
    b'.writePos = b'.unread.length := by
  rw [h.valid.length_unread, h.readPos, Nat.sub_zero]

/-- Reading `len` bytes and compacting, the way every `recv` uses the buffer. -/
theorem readData_clearReadBuffer {b : NetBuffer} (h : b.Valid) {len : Nat}
    (hlen : len ≤ b.needReadLength) :
    b.Compacted (b.readData len).1.clearReadBuffer ∧
      (b.readData len).1.clearReadBuffer.unread = b.unread.drop len ∧
      (b.readData len).2 = some (b.unread.take len) := by
  have hadvance := valid_advance h hlen
  rw [readData_of_le hlen]
  refine ⟨⟨valid_clearReadBuffer hadvance, rfl, rfl, rfl, Nat.sub_le _ _⟩, ?_, rfl⟩
  rw [unread_clearReadBuffer hadvance, unread_advance]

/-! ## `reset` -/

theorem valid_reset {b : NetBuffer} (h : b.Valid) : b.reset.Valid := by
  have halloc := h.alloc
  have hw := h.writePos_le
  unfold reset
  split
  · exact h
  · refine ⟨?_, le_rfl, Nat.zero_le _⟩
    simp only
    rw [overwrite_length (by rw [List.length_replicate]; omega), h.alloc]

/-- Nothing is left to read in a buffer that was not locked. -/
theorem unread_reset {b : NetBuffer} (hlock : b.lock = false) : b.reset.unread = [] := by
  simp [reset, hlock, unread, data]

@[simp]
theorem lock_reset (b : NetBuffer) : b.reset.lock = b.lock := by
  unfold reset
  split <;> rfl

/-! ## Appending -/

theorem valid_resize {b : NetBuffer} (h : b.Valid) (len : Nat) : (b.resize len).1.Valid := by
  have hr := h.readPos_le
  have hw := h.writePos_le
  unfold resize
  split
  · exact h
  · split
    · rename_i hlen
      refine ⟨?_, ?_, ?_⟩
      · simp only
        rw [overwrite_length, List.length_replicate]
        rw [List.length_replicate, h.length_data]
        omega
      · exact hr
      · simp only
        omega
    · exact h

/-- Growth changes no written byte. -/
theorem data_resize {b : NetBuffer} (h : b.Valid) (len : Nat) :
    (b.resize len).1.data = b.data := by
  unfold resize
  split
  · rfl
  · split
    · have htake :=
        take_overwrite b.data (Nat.zero_le (List.replicate (len * 2) (0 : UInt8)).length)
      rw [Nat.zero_add, h.length_data] at htake
      simpa [data] using htake
    · rfl

@[simp]
theorem writePos_resize (b : NetBuffer) (len : Nat) : (b.resize len).1.writePos = b.writePos := by
  unfold resize
  split <;> [rfl; split <;> rfl]

@[simp]
theorem readPos_resize (b : NetBuffer) (len : Nat) : (b.resize len).1.readPos = b.readPos := by
  unfold resize
  split <;> [rfl; split <;> rfl]

@[simp]
theorem lock_resize (b : NetBuffer) (len : Nat) : (b.resize len).1.lock = b.lock := by
  unfold resize
  split <;> [rfl; split <;> rfl]

/-- An unlocked buffer has room for the length it was resized to. -/
theorem le_maxLen_resize {b : NetBuffer} (hlock : b.lock = false) (len : Nat) :
    len ≤ (b.resize len).1.maxLen := by
  unfold resize
  rw [if_neg (by simp [hlock])]
  split
  · simp only
    omega
  · simp only
    omega

theorem valid_tail {b : NetBuffer} (h : b.Valid) {base : Bytes}
    (hfit : b.writePos + base.length ≤ b.maxLen) : (b.tail base).1.Valid := by
  have halloc := h.alloc
  have hr := h.readPos_le
  unfold tail
  split
  · exact h
  · split
    · exact h
    · refine ⟨?_, ?_, hfit⟩
      · simp only
        rw [overwrite_length (by omega), h.alloc]
      · simp only
        omega

/-- Appending to an unlocked buffer with enough room. -/
theorem data_tail {b : NetBuffer} (h : b.Valid) {base : Bytes} (hlock : b.lock = false)
    (hfit : b.writePos + base.length ≤ b.maxLen) : (b.tail base).1.data = b.data ++ base := by
  have halloc := h.alloc
  unfold tail
  rw [if_neg (by simp [hlock])]
  split
  · rename_i hempty
    have : base = [] := List.length_eq_zero_iff.mp (by omega)
    simp [this]
  · simp only [data]
    exact take_overwrite _ (by omega)

theorem writePos_tail {b : NetBuffer} {base : Bytes} (hlock : b.lock = false) :
    (b.tail base).1.writePos = b.writePos + base.length := by
  unfold tail
  rw [if_neg (by simp [hlock])]
  split
  · simp only
    omega
  · rfl

@[simp]
theorem readPos_tail (b : NetBuffer) (base : Bytes) : (b.tail base).1.readPos = b.readPos := by
  unfold tail
  split <;> [rfl; split <;> rfl]

@[simp]
theorem maxLen_tail (b : NetBuffer) (base : Bytes) : (b.tail base).1.maxLen = b.maxLen := by
  unfold tail
  split <;> [rfl; split <;> rfl]

@[simp]
theorem lock_tail (b : NetBuffer) (base : Bytes) : (b.tail base).1.lock = b.lock := by
  unfold tail
  split <;> [rfl; split <;> rfl]

theorem valid_tailData {b : NetBuffer} (h : b.Valid) (hlock : b.lock = false) (base : Bytes) :
    (b.tailData base).1.Valid := by
  refine valid_tail (valid_resize h _) ?_
  rw [writePos_resize]
  exact le_maxLen_resize hlock _

/-- `tailData` appends to the written bytes, growing the allocation if needed. -/
theorem data_tailData {b : NetBuffer} (h : b.Valid) (hlock : b.lock = false) (base : Bytes) :
    (b.tailData base).1.data = b.data ++ base := by
  have hfit := le_maxLen_resize hlock (b.writePos + base.length)
  rw [tailData, data_tail (valid_resize h _) (by simpa using hlock) (by simpa using hfit),
    data_resize h]

@[simp]
theorem readPos_tailData (b : NetBuffer) (base : Bytes) :
    (b.tailData base).1.readPos = b.readPos := by
  simp [tailData]

@[simp]
theorem lock_tailData (b : NetBuffer) (base : Bytes) : (b.tailData base).1.lock = b.lock := by
  simp [tailData]

theorem length_tailData {b : NetBuffer} (hlock : b.lock = false) (base : Bytes) :
    (b.tailData base).1.length = b.length + base.length := by
  have hlock' : (b.resize (b.writePos + base.length)).1.lock = false := by
    rw [lock_resize, hlock]
  rw [length, tailData, writePos_tail hlock', writePos_resize, length]

/-- The capacity grows when the bytes do not fit. -/
theorem maxLen_tailData {b : NetBuffer} (hlock : b.lock = false) (base : Bytes) :
    (b.tailData base).1.maxLen =
      if b.length + base.length > b.maxLen then (b.length + base.length) * 2 else b.maxLen := by
  rw [tailData, maxLen_tail, resize, if_neg (by simp [hlock]), length]
  split <;> rfl

/-- Appending adds to what will be read. -/
theorem unread_tailData {b : NetBuffer} (h : b.Valid) (hlock : b.lock = false) (base : Bytes) :
    (b.tailData base).1.unread = b.unread ++ base := by
  have hr : b.readPos ≤ b.data.length := by rw [h.length_data]; exact h.readPos_le
  rw [unread, data_tailData h hlock, readPos_tailData, List.drop_append_of_le_length hr, unread]

/-- `setHead` on an unlocked buffer replaces the first bytes. -/
theorem data_setHead {b : NetBuffer} (h : b.Valid) {base : Bytes} (hlock : b.lock = false)
    (hlen : base.length ≤ b.writePos) :
    (b.setHead base).1.data = base ++ b.data.drop base.length := by
  have hw := h.writePos_le
  have halloc := h.alloc
  rw [setHead, if_neg (by simp [hlock]), if_pos hlen]
  simp only [data, overwrite, List.take_zero, List.nil_append, Nat.zero_add]
  rw [List.take_append, List.take_of_length_le hlen, List.drop_take]

theorem valid_setHead {b : NetBuffer} (h : b.Valid) (base : Bytes) : (b.setHead base).1.Valid := by
  have hw := h.writePos_le
  have halloc := h.alloc
  unfold setHead
  split
  · exact h
  · split
    · refine ⟨?_, h.readPos_le, h.writePos_le⟩
      simp only
      rw [overwrite_length (by omega), h.alloc]
    · exact h

@[simp]
theorem readPos_setHead (b : NetBuffer) (base : Bytes) :
    (b.setHead base).1.readPos = b.readPos := by
  unfold setHead
  split <;> [rfl; split <;> rfl]

@[simp]
theorem lock_setHead (b : NetBuffer) (base : Bytes) : (b.setHead base).1.lock = b.lock := by
  unfold setHead
  split <;> [rfl; split <;> rfl]

@[simp]
theorem length_setHead (b : NetBuffer) (base : Bytes) : (b.setHead base).1.length = b.length := by
  unfold setHead
  split <;> [rfl; split <;> rfl]

@[simp]
theorem maxLen_setHead (b : NetBuffer) (base : Bytes) : (b.setHead base).1.maxLen = b.maxLen := by
  unfold setHead
  split <;> [rfl; split <;> rfl]

/-- Fewer bytes than the head are left as they are. -/
theorem setHead_of_lt {b : NetBuffer} {base : Bytes} (h : b.length < base.length) :
    b.setHead base = (b, false) := by
  rw [length] at h
  unfold setHead
  split
  · rfl
  · rw [if_neg (Nat.not_le.mpr h)]

/-! ## Putting bytes in front -/

theorem valid_head {b : NetBuffer} (h : b.Valid) {base : Bytes}
    (hfit : b.writePos + base.length ≤ b.maxLen) : (b.head base).1.Valid := by
  have halloc := h.alloc
  have hr := h.readPos_le
  have hlen := h.length_data
  unfold head
  split
  · exact h
  · split
    · exact h
    · refine ⟨?_, ?_, hfit⟩
      · simp only
        have hmoved : (overwrite b.buffer base.length b.data).length = b.buffer.length :=
          overwrite_length (by omega)
        rw [overwrite_length (by omega), hmoved, h.alloc]
      · simp only
        omega

/-- An unlocked buffer with enough room holds the new bytes in front of the written ones. -/
theorem data_head {b : NetBuffer} (h : b.Valid) {base : Bytes} (hlock : b.lock = false)
    (hfit : b.writePos + base.length ≤ b.maxLen) : (b.head base).1.data = base ++ b.data := by
  have halloc := h.alloc
  have hlen := h.length_data
  unfold head
  rw [if_neg (by simp [hlock])]
  split
  · rename_i hempty
    have : base = [] := List.length_eq_zero_iff.mp (by omega)
    simp [this]
  · have hmoved : (overwrite b.buffer base.length b.data).take (base.length + b.data.length) =
        b.buffer.take base.length ++ b.data := take_overwrite b.data (by omega)
    rw [hlen] at hmoved
    have hbehind := congrArg (List.drop base.length) hmoved
    rw [List.drop_left' (by rw [List.length_take]; omega), List.drop_take,
      Nat.add_sub_cancel_left] at hbehind
    simp only [data, overwrite, List.take_zero, List.nil_append, Nat.zero_add] at hbehind ⊢
    rw [Nat.add_comm, List.take_append, List.take_of_length_le (by omega), Nat.add_sub_cancel_left,
      hbehind]

@[simp]
theorem readPos_head (b : NetBuffer) (base : Bytes) : (b.head base).1.readPos = b.readPos := by
  unfold head
  split <;> [rfl; split <;> rfl]

@[simp]
theorem lock_head (b : NetBuffer) (base : Bytes) : (b.head base).1.lock = b.lock := by
  unfold head
  split <;> [rfl; split <;> rfl]

theorem valid_headData {b : NetBuffer} (h : b.Valid) (hlock : b.lock = false) (base : Bytes) :
    (b.headData base).1.Valid := by
  apply valid_head (valid_resize h _)
  rw [writePos_resize]
  exact le_maxLen_resize hlock _

/-- `headData` puts its bytes in front of the written ones, growing the allocation if needed. -/
theorem data_headData {b : NetBuffer} (h : b.Valid) (hlock : b.lock = false) (base : Bytes) :
    (b.headData base).1.data = base ++ b.data := by
  have hfit := le_maxLen_resize hlock (b.writePos + base.length)
  rw [headData, data_head (valid_resize h _) (by simpa using hlock) (by simpa using hfit),
    data_resize h]

@[simp]
theorem readPos_headData (b : NetBuffer) (base : Bytes) :
    (b.headData base).1.readPos = b.readPos := by
  simp [headData]

@[simp]
theorem lock_headData (b : NetBuffer) (base : Bytes) : (b.headData base).1.lock = b.lock := by
  simp [headData]

/-! ## Locked buffers -/

/-- A locked buffer takes nothing behind its bytes. -/
theorem tailData_of_lock {b : NetBuffer} (hlock : b.lock = true) (base : Bytes) :
    b.tailData base = (b, false) := by
  simp [tailData, resize, tail, hlock]

/-- A locked buffer takes nothing in front of its bytes. -/
theorem headData_of_lock {b : NetBuffer} (hlock : b.lock = true) (base : Bytes) :
    b.headData base = (b, false) := by
  simp [headData, resize, head, hlock]

theorem setHead_of_lock {b : NetBuffer} (hlock : b.lock = true) (base : Bytes) :
    b.setHead base = (b, false) := by
  simp [setHead, hlock]

theorem reset_of_lock {b : NetBuffer} (hlock : b.lock = true) : b.reset = b := by
  simp [reset, hlock]

/-! ## Moving bytes between buffers -/

/-- What `readBuffer` moves: as much as is unread and as fits. -/
def moved (b dst : NetBuffer) : Nat :=
  min b.unread.length (dst.maxLen - dst.writePos)

/-- `readBuffer` reads on by `moved` bytes, and hands them to `tail`. -/
theorem readBuffer_eq {b : NetBuffer} (hb : b.Valid) (dst : NetBuffer) :
    b.readBuffer dst = ({ b with readPos := b.readPos + moved b dst },
      dst.tail (b.unread.take (moved b dst))) := by
  have hlen := hb.length_unread
  -- nothing is moved behind the early returns
  have hnone : moved b dst = 0 → (b, dst, false) =
      ({ b with readPos := b.readPos + moved b dst }, dst.tail (b.unread.take (moved b dst))) := by
    intro hmoved
    rw [hmoved, List.take_zero, Nat.add_zero]
    simp [tail]
  unfold readBuffer
  split
  · rename_i hfull
    rw [isFull, decide_eq_true_eq] at hfull
    apply hnone
    simp only [moved]
    omega
  · split
    · rename_i hempty
      have hwrite : b.writePos = 0 := by simpa [hasWrite, length] using hempty
      apply hnone
      simp only [moved]
      omega
    · have hmoved : min (b.writePos - b.readPos) (dst.maxLength - dst.writePos) = moved b dst := by
        simp only [moved, hlen, maxLength]
      have hle : moved b dst ≤ b.needReadLength := by
        rw [hb.needReadLength_eq]
        exact Nat.min_le_left _ _
      simp only [hmoved, readData_of_le hle]

/-- As many bytes are taken as are moved. -/
theorem length_take_moved (b dst : NetBuffer) :
    (b.unread.take (moved b dst)).length = moved b dst := by
  rw [List.length_take]
  exact Nat.min_eq_left (Nat.min_le_left _ _)

/-- What is moved fits. -/
theorem moved_fits {dst : NetBuffer} (hdst : dst.Valid) (b : NetBuffer) :
    dst.writePos + (b.unread.take (moved b dst)).length ≤ dst.maxLen := by
  have hw := hdst.writePos_le
  have hle : moved b dst ≤ dst.maxLen - dst.writePos := Nat.min_le_right _ _
  rw [length_take_moved]
  omega

/-- `readBuffer` into an unlocked buffer takes the first `moved` unread bytes of
the source and appends them to the destination. -/
theorem readBuffer_spec {b dst : NetBuffer} (hb : b.Valid) (hdst : dst.Valid)
    (hlock : dst.lock = false) :
    ∃ b' dst' r, b.readBuffer dst = (b', dst', r) ∧ b'.Valid ∧ dst'.Valid ∧
      b'.unread = b.unread.drop (moved b dst) ∧
      dst'.data = dst.data ++ b.unread.take (moved b dst) ∧
      dst'.readPos = dst.readPos ∧ dst'.maxLen = dst.maxLen ∧ dst'.lock = false ∧
      b'.maxLen = b.maxLen ∧ b'.lock = b.lock ∧ dst'.writePos = dst.writePos + moved b dst := by
  have hle : moved b dst ≤ b.needReadLength := by
    rw [hb.needReadLength_eq]
    exact Nat.min_le_left _ _
  have hfit := moved_fits hdst b
  refine ⟨{ b with readPos := b.readPos + moved b dst },
    (dst.tail (b.unread.take (moved b dst))).1, (dst.tail (b.unread.take (moved b dst))).2,
    readBuffer_eq hb dst, valid_advance hb hle, valid_tail hdst hfit, ?_, ?_, ?_, ?_, ?_, rfl, rfl,
    ?_⟩
  · rw [unread_advance]
  · exact data_tail hdst hlock hfit
  · exact readPos_tail _ _
  · exact maxLen_tail _ _
  · simpa using hlock
  · rw [writePos_tail hlock, length_take_moved]

end NetBuffer

/-! ## The base class of the messages -/

/-- `NetBlockBase::State`. -/
inductive BlockState where
  | init
  | body
  | done
deriving DecidableEq, Repr

/-- The members of `NetBlockBase`; `data` is `none` for a null `m_data`. -/
structure NetBlockBase where
  data : Option NetBuffer
  state : BlockState
  session : SessionId
deriving DecidableEq, Repr

/-- The constructor `NetBlockBase(s, size)`.  A sized block gets a buffer whose
capacity is taken from the session id, as the source has it. -/
def NetBlockBase.create (s : SessionId) (size : Nat) : NetBlockBase where
  data := if size > 0 then some (NetBuffer.create s) else none
  state := .init
  session := s

def NetBlockBase.bodyDone (b : NetBlockBase) : Bool := b.state == .done

/-- The virtual functions through which a connection receives: the factory
`_blockMakerFun`, the base part of a block and `recv`. -/
structure BlockClass (β : Type) where
  make : SessionId → Nat → β
  base : β → NetBlockBase
  recv : β → NetBuffer → Except Exn (β × NetBuffer × Bool)

def BlockClass.bodyDone {β : Type} (K : BlockClass β) (b : β) : Bool := (K.base b).bodyDone

end FannyNet

import FannyNet.ByteQueue

/-!
# Calls on buffers

All member functions of `NetBuffer` that change a buffer, on any number of buffers: those of
a byte queue, those that put bytes in front of others, `lock`, and `writeData` with any length.

Main results:

- Definitions `BufferCall.apply` and `MemberCall.apply`: a call on a family of buffers.
- Theorem `readBuffer_conserves_iff`: when `readBuffer` moves bytes or changes nothing.
- Theorem `headData_prepends_iff`: when what is put in front is what is read next.
- Theorem `locked_only_reads`: what a locked buffer goes through.
-/

namespace FannyNet

open Library Library.Transition

/-! ## Locked or not -/

namespace NetBuffer

theorem Valid.tailData {b : NetBuffer} (h : b.Valid) (base : Bytes) :
    (b.tailData base).1.Valid := by
  cases hlock : b.lock with
  | true =>
      rw [tailData_of_lock hlock]
      exact h
  | false => exact valid_tailData h hlock base

theorem Valid.headData {b : NetBuffer} (h : b.Valid) (base : Bytes) :
    (b.headData base).1.Valid := by
  cases hlock : b.lock with
  | true =>
      rw [headData_of_lock hlock]
      exact h
  | false => exact valid_headData h hlock base

theorem Valid.readData {b : NetBuffer} (h : b.Valid) (len : Nat) : (b.readData len).1.Valid := by
  by_cases hlen : len ≤ b.needReadLength
  · rw [readData_of_le hlen]
    exact valid_advance h hlen
  · rw [readData_of_lt (Nat.lt_of_not_le hlen)]
    exact h

theorem Valid.readBuffer {b dst : NetBuffer} (hb : b.Valid) (hdst : dst.Valid) :
    (b.readBuffer dst).1.Valid ∧ (b.readBuffer dst).2.1.Valid := by
  have hle : moved b dst ≤ b.needReadLength := by
    rw [hb.needReadLength_eq]
    exact Nat.min_le_left _ _
  rw [readBuffer_eq hb]
  exact ⟨valid_advance hb hle, valid_tail hdst (moved_fits hdst b)⟩

end NetBuffer

/-! ## Calls -/

/-- A call of a member function of one of several buffers. -/
inductive BufferCall (ι : Type) where
  | op (o : BufferOp ι)
  | headData (i : ι) (base : Bytes)
  | headPod (i : ι) (t : Bytes)
  | headNetBuffer (i other : ι)
  | setHeadPod (i : ι) (t : Bytes)
  | lock (i : ι)
deriving DecidableEq, Repr

/-- A call, or a move assignment. -/
inductive BufferStep (ι : Type) where
  | call (c : BufferCall ι)
  | assign (i other : ι)
deriving DecidableEq, Repr

section
variable {ι : Type} [DecidableEq ι]

/-- The buffers after a call. -/
def BufferCall.apply (bs : Buffers ι) : BufferCall ι → Buffers ι
  | .op o => (o.apply bs).1
  | .headData i base => Function.update bs i ((bs i).headData base).1
  | .headPod i t => Function.update bs i ((bs i).headPod t).1
  | .headNetBuffer i other =>
      if i = other then bs else Function.update bs i ((bs i).headNetBuffer (bs other)).1
  | .setHeadPod i t => Function.update bs i ((bs i).setHeadPod t).1
  | .lock i => Function.update bs i (bs i).setLock

/-- The buffers after a call or a move assignment, which takes the other buffer's allocation
away. -/
def BufferStep.apply (bs : Buffers ι) : BufferStep ι → Buffers ι
  | .call c => c.apply bs
  | .assign i other => Function.update (Function.update bs i (bs other)) other (NetBuffer.create 0)

namespace Buffers

/-- New buffers of the given sizes. -/
def create (len : ι → Nat) : Buffers ι :=
  fun i => NetBuffer.create (len i)

/-- New buffers after a sequence of steps. -/
def after (len : ι → Nat) (steps : List (BufferStep ι)) : Buffers ι :=
  steps.foldl BufferStep.apply (create len)

/-- Every buffer is well formed. -/
def Valid (bs : Buffers ι) : Prop :=
  ∀ i, (bs i).Valid

omit [DecidableEq ι] in
theorem valid_create (len : ι → Nat) : (create len).Valid :=
  fun i => NetBuffer.valid_create (len i)

theorem Valid.update {bs : Buffers ι} (h : bs.Valid) (i : ι) {b : NetBuffer} (hb : b.Valid) :
    Valid (Function.update bs i b) := by
  intro j
  by_cases hj : j = i
  · subst hj
    rw [Function.update_self]
    exact hb
  · rw [Function.update_of_ne hj]
    exact h j

end Buffers

theorem BufferOp.valid_apply {bs : Buffers ι} (h : bs.Valid) (o : BufferOp ι) :
    Buffers.Valid (o.apply bs).1 := by
  cases o with
  | tailData i base => exact h.update i ((h i).tailData base)
  | tailPod i t => exact h.update i ((h i).tailData t)
  | tailNetBuffer i other =>
      by_cases hsame : i = other
      · rw [apply, if_pos hsame]
        exact h
      · rw [apply, if_neg hsame]
        exact h.update i ((h i).tailData (bs other).data)
  | writeData i bytes => exact h.update i (NetBuffer.valid_writeBytes (h i) bytes)
  | readData i len =>
      rw [apply, Buffers.fst_handOut]
      exact h.update i ((h i).readData len)
  | readPod i size =>
      rw [apply, Buffers.fst_handOut]
      exact h.update i ((h i).readData size)
  | clearReadBuffer i => exact h.update i (NetBuffer.valid_clearReadBuffer (h i))
  | reset i => exact h.update i (NetBuffer.valid_reset (h i))
  | readBuffer i dst =>
      by_cases hsame : i = dst
      · rw [apply, if_pos hsame]
        exact h
      · rw [fst_readBuffer hsame]
        rcases (h i).readBuffer (h dst) with ⟨hsource, hdest⟩
        exact (h.update i hsource).update dst hdest

/-- A call keeps the buffers well formed. -/
theorem BufferCall.valid_apply {bs : Buffers ι} (h : bs.Valid) (c : BufferCall ι) :
    Buffers.Valid (c.apply bs) := by
  cases c with
  | op o => exact BufferOp.valid_apply h o
  | headData i base => exact h.update i ((h i).headData base)
  | headPod i t => exact h.update i ((h i).headData t)
  | headNetBuffer i other =>
      by_cases hsame : i = other
      · rw [apply, if_pos hsame]
        exact h
      · rw [apply, if_neg hsame]
        exact h.update i ((h i).headData (bs other).data)
  | setHeadPod i t => exact h.update i (NetBuffer.valid_setHead (h i) t)
  | lock i => exact h.update i ⟨(h i).alloc, (h i).readPos_le, (h i).writePos_le⟩

theorem BufferStep.valid_apply {bs : Buffers ι} (h : bs.Valid) (st : BufferStep ι) :
    Buffers.Valid (st.apply bs) := by
  cases st with
  | call c => exact c.valid_apply h
  | assign i other => exact (h.update i (h other)).update other (NetBuffer.valid_create 0)

/-- Whatever was called, the buffers are well formed. -/
theorem Buffers.valid_after (len : ι → Nat) (steps : List (BufferStep ι)) :
    (after len steps).Valid := by
  have hfold : ∀ bs : Buffers ι, bs.Valid → Valid (steps.foldl BufferStep.apply bs) := by
    induction steps with
    | nil =>
        intro bs h
        exact h
    | cons st steps ih =>
        intro bs h
        exact ih (st.apply bs) (st.valid_apply h)
  exact hfold _ (valid_create len)

end

/-! ## Moving bytes -/

/-- `readBuffer` conserves the bytes of two buffers: it moves as many as are unread and fit when
it returns `true`, and changes nothing when it returns `false`. -/
def NetBuffer.Conserves (src dst : NetBuffer) : Prop :=
  match src.readBuffer dst with
  | (src', dst', ok) =>
      let len := min src.unread.length (dst.maxLength - dst.length)
      dst'.data ++ src'.unread = dst.data ++ src.unread ∧
        (ok = true → src'.unread = src.unread.drop len ∧
          dst'.data = dst.data ++ src.unread.take len) ∧
        (ok = false → src' = src ∧ dst' = dst)

namespace NetBuffer

/-- Nothing can be moved when there is no room, or nothing to read. -/
theorem moved_eq_zero_iff (src : NetBuffer) (dst : NetBuffer) :
    moved src dst = 0 ↔ dst.isFull = true ∨ src.unread = [] := by
  rw [moved, isFull, decide_eq_true_iff, ← List.length_eq_zero_iff]
  omega

/-- A locked destination takes nothing, but the source has been read. -/
theorem readBuffer_of_lock {src dst : NetBuffer} (hsrc : src.Valid) (hlock : dst.lock = true) :
    src.readBuffer dst =
      ({ src with readPos := src.readPos + moved src dst }, dst, false) := by
  rw [readBuffer_eq hsrc]
  simp [tail, hlock]

/-- When there is nothing to move, nothing happens. -/
theorem readBuffer_of_moved_eq_zero {src dst : NetBuffer} (hsrc : src.Valid)
    (hmoved : moved src dst = 0) : src.readBuffer dst = (src, dst, false) := by
  rw [readBuffer_eq hsrc, hmoved, List.take_zero, Nat.add_zero]
  simp [tail]

theorem conserves_iff {src dst : NetBuffer} (hsrc : src.Valid) (hdst : dst.Valid) :
    src.Conserves dst ↔ dst.lock = false ∨ moved src dst = 0 := by
  by_cases hmoved : moved src dst = 0
  · simp only [Conserves, readBuffer_of_moved_eq_zero hsrc hmoved, hmoved, or_true,
      Bool.false_eq_true, false_imp_iff, imp_self, and_self]
  · cases hlock : dst.lock with
    | true =>
        -- the bytes that were read are in neither buffer
        simp only [Conserves, readBuffer_of_lock hsrc hlock, hmoved, or_false, reduceCtorEq,
          iff_false]
        rintro ⟨-, -, hfalse⟩
        have hpos := congrArg NetBuffer.readPos (hfalse trivial).1
        simp only at hpos
        omega
    | false =>
        have hdata := data_tail hdst hlock (moved_fits hdst src)
        have hok : (dst.tail (src.unread.take (moved src dst))).2 = true := by
          rw [tail_eq_true_iff hlock, ← List.length_pos_iff, length_take_moved]
          omega
        simp only [Conserves, readBuffer_eq hsrc, hdata, hok, unread_advance, true_or, iff_true,
          List.append_assoc, List.take_append_drop]
        exact ⟨trivial, fun _ => ⟨rfl, rfl⟩, fun h => by cases h⟩

end NetBuffer

/-- Whatever was done to two buffers before, `readBuffer` conserves their bytes if and only if the
destination is not locked, or is full, or there is nothing to read. -/
theorem readBuffer_conserves_iff {ι : Type} [DecidableEq ι] (len : ι → Nat)
    (steps : List (BufferStep ι)) (i dst : ι) :
    (Buffers.after len steps i).Conserves (Buffers.after len steps dst) ↔
      (Buffers.after len steps dst).lock = false ∨
        (Buffers.after len steps dst).isFull = true ∨ (Buffers.after len steps i).unread = [] := by
  have hvalid := Buffers.valid_after len steps
  rw [NetBuffer.conserves_iff (hvalid i) (hvalid dst), NetBuffer.moved_eq_zero_iff]

/-- Two bytes are read out of one buffer and never arrive in the other, which is locked. -/
theorem locked_destination_loses :
    let bs := Buffers.after (fun _ : Bool => 4)
      [.call (.op (.tailData true (text "hi"))), .call (.lock false)]
    (bs true).unread = text "hi" ∧ ((bs true).readBuffer (bs false)).2.2 = false ∧
      ((bs true).readBuffer (bs false)).1.unread = [] ∧
      ((bs true).readBuffer (bs false)).2.1.data = [] ∧ ¬ (bs true).Conserves (bs false) := by
  refine ⟨by decide +kernel, by decide +kernel, by decide +kernel, by decide +kernel, ?_⟩
  rintro ⟨-, -, hfalse⟩
  have hsame := (hfalse (by decide +kernel)).1
  exact absurd hsame (by decide +kernel)

/-! ## Putting bytes in front -/

/-- A list is the end of a longer one that ends with `p`: it is the end of `p`, or goes on in
front of it. -/
theorem suffix_append_iff_of_lt {α : Type} {b p : List α} (h : p.length < b.length) (l : List α) :
    b <:+ l ++ p ↔ ∃ b', b = b' ++ p ∧ b' <:+ l := by
  constructor
  · intro hb
    rcases List.suffix_of_suffix_length_le (List.suffix_append l p) hb h.le with ⟨b', rfl⟩
    exact ⟨b', rfl, List.suffix_append_self_iff.mp hb⟩
  · rintro ⟨b', rfl, hb'⟩
    exact List.suffix_append_self_iff.mpr hb'

theorem suffix_append_iff_of_le {α : Type} {b p : List α} (h : b.length ≤ p.length) (l : List α) :
    b <:+ l ++ p ↔ b <:+ p := by
  constructor
  · intro hb
    exact List.suffix_of_suffix_length_le hb (List.suffix_append l p) h
  · intro hb
    exact hb.trans (List.suffix_append l p)

/-- A list still is the end when `p` is put behind it exactly if it is the end of `p` repeated. -/
theorem suffix_append_iff {α : Type} {b p : List α} (hp : p ≠ []) :
    b <:+ b ++ p ↔ b <:+ (List.replicate b.length p).flatten := by
  have hpos := List.length_pos_iff.mpr hp
  have hrepeat : ∀ n, b.length ≤ n → (b <:+ b ++ p ↔ b <:+ (List.replicate n p).flatten) := by
    intro n
    induction n generalizing b with
    | zero =>
        intro hb
        have hnil : b = [] := List.length_eq_zero_iff.mp (Nat.le_zero.mp hb)
        simp [hnil]
    | succ n ih =>
        intro hb
        rw [List.replicate_succ', List.flatten_append, List.flatten_singleton]
        by_cases hle : b.length ≤ p.length
        · rw [suffix_append_iff_of_le hle, suffix_append_iff_of_le hle]
        · rw [suffix_append_iff_of_lt (by omega), suffix_append_iff_of_lt (by omega)]
          -- one `p` is taken off, and what is in front of it is shorter
          constructor
          · rintro ⟨b', rfl, hb'⟩
            rw [List.length_append] at hb
            exact ⟨b', rfl, (ih (by omega)).mp hb'⟩
          · rintro ⟨b', rfl, hb'⟩
            rw [List.length_append] at hb
            exact ⟨b', rfl, (ih (by omega)).mpr hb'⟩
  exact hrepeat b.length le_rfl

namespace NetBuffer

/-- The bytes in front of the unread ones, which have been read since the last compaction. -/
def passedOver (b : NetBuffer) : Bytes :=
  b.data.take b.readPos

theorem Valid.length_passedOver {b : NetBuffer} (h : b.Valid) :
    b.passedOver.length = b.readPos := by
  rw [passedOver, List.length_take, h.length_data]
  exact Nat.min_eq_left h.readPos_le

theorem passedOver_append_unread (b : NetBuffer) : b.passedOver ++ b.unread = b.data :=
  List.take_append_drop b.readPos b.data

/-- The read position stays, so that as many bytes are passed over as before. -/
theorem unread_headData {b : NetBuffer} (h : b.Valid) (hlock : b.lock = false) (base : Bytes) :
    (b.headData base).1.unread = (base ++ b.passedOver).drop b.passedOver.length ++ b.unread := by
  have hle : b.passedOver.length ≤ (base ++ b.passedOver).length := by
    rw [List.length_append]
    omega
  rw [unread, data_headData h hlock, readPos_headData, ← h.length_passedOver,
    ← b.passedOver_append_unread, ← List.append_assoc, List.drop_append_of_le_length hle]

/-- What is put in front is read next: nothing has been passed over, or what has been goes on
with the same bytes when it is repeated. -/
def ReadsNext (b : NetBuffer) (base : Bytes) : Prop :=
  b.readPos = 0 ∨ base <:+ (List.replicate base.length b.passedOver).flatten

theorem unread_headData_iff {b : NetBuffer} (h : b.Valid) (hlock : b.lock = false)
    (base : Bytes) : (b.headData base).1.unread = base ++ b.unread ↔ b.ReadsNext base := by
  have hlen : (base ++ b.passedOver).length - base.length = b.passedOver.length := by
    rw [List.length_append, Nat.add_sub_cancel_left]
  rw [unread_headData h hlock, List.append_left_inj, ReadsNext, ← h.length_passedOver,
    List.length_eq_zero_iff]
  have hsuffix : (base ++ b.passedOver).drop b.passedOver.length = base ↔
      base <:+ base ++ b.passedOver := by
    rw [List.suffix_iff_eq_drop, hlen, eq_comm]
  rw [hsuffix]
  by_cases hp : b.passedOver = []
  · simp [hp]
  · rw [suffix_append_iff hp, or_iff_right hp]

end NetBuffer

/-- Whatever was done to an unlocked buffer before, the functions that put bytes in front make
them what is read next if and only if nothing has been read since the last compaction, or they are
the end of the bytes that have been, repeated. -/
theorem headData_prepends_iff {ι : Type} [DecidableEq ι] (len : ι → Nat)
    (steps : List (BufferStep ι)) {i : ι} (hlock : (Buffers.after len steps i).lock = false) :
    (∀ base, ((Buffers.after len steps i).headData base).1.unread =
        base ++ (Buffers.after len steps i).unread ↔
      (Buffers.after len steps i).ReadsNext base) ∧
    (∀ t, ((Buffers.after len steps i).headPod t).1.unread =
        t ++ (Buffers.after len steps i).unread ↔
      (Buffers.after len steps i).ReadsNext t) ∧
    ∀ other : NetBuffer, ((Buffers.after len steps i).headNetBuffer other).1.unread =
        other.data ++ (Buffers.after len steps i).unread ↔
      (Buffers.after len steps i).ReadsNext other.data := by
  have hvalid := Buffers.valid_after len steps i
  refine ⟨?_, ?_, ?_⟩
  · exact NetBuffer.unread_headData_iff hvalid hlock
  · exact NetBuffer.unread_headData_iff hvalid hlock
  · intro other
    exact NetBuffer.unread_headData_iff hvalid hlock other.data

/-- A buffer that `hi` was written to. -/
def hiSteps : List (BufferStep Unit) :=
  [.call (.op (.tailData () (text "hi")))]

/-- Nothing of it has been read, so that whatever is put in front is read next. -/
theorem headData_prepends_iff_hi :
    ((Buffers.after (fun _ => 1) hiSteps ()).headData (text "x")).1.unread =
        text "x" ++ (Buffers.after (fun _ => 1) hiSteps ()).unread ∧
      ((Buffers.after (fun _ => 1) hiSteps ()).headPod (podBytes 5)).1.unread =
        podBytes 5 ++ (Buffers.after (fun _ => 1) hiSteps ()).unread ∧
      ∀ other : NetBuffer, ((Buffers.after (fun _ => 1) hiSteps ()).headNetBuffer other).1.unread =
        other.data ++ (Buffers.after (fun _ => 1) hiSteps ()).unread := by
  rcases headData_prepends_iff (fun _ => 1) hiSteps (i := ()) (by decide +kernel) with
    ⟨hdata, hpod, hbuffer⟩
  have hnext : ∀ base, (Buffers.after (fun _ => 1) hiSteps ()).ReadsNext base :=
    fun _ => Or.inl (by decide +kernel)
  exact ⟨(hdata _).mpr (hnext _), (hpod _).mpr (hnext _),
    fun other => (hbuffer other).mpr (hnext _)⟩

/-- One of two bytes is read, and one put in front: it is passed over, and the byte that was read
comes again. -/
theorem head_of_partly_read :
    let b := Buffers.after (fun _ => 4) (hiSteps ++ [.call (.op (.readData () 1))]) ()
    b.lock = false ∧ b.unread = text "i" ∧ (b.headData (text "x")).2 = true ∧
      (b.headData (text "x")).1.unread = text "hi" ∧
      (b.headData (text "x")).1.unread ≠ text "x" ++ b.unread := by
  refine ⟨?_, ?_, ?_, ?_, ?_⟩ <;> decide +kernel

/-! ## Locked buffers -/

/-- A buffer whose lock stays as it is, whose positions are still in order, and that at most is
read. -/
structure NetBuffer.OnlyRead (b b' : NetBuffer) : Prop where
  lock : b'.lock = b.lock
  ordered : b'.readPos ≤ b'.writePos
  unread : b'.unread <:+ b.unread

namespace NetBuffer

/-- What a call does to a locked buffer that it does not write to: nothing, a read, or a
compaction. -/
inductive Reads (b : NetBuffer) : NetBuffer → Prop where
  | same : Reads b b
  | read {len : Nat} (hlen : len ≤ b.needReadLength) : Reads b { b with readPos := b.readPos + len }
  | clear : Reads b b.clearReadBuffer

theorem reads_readData (b : NetBuffer) (len : Nat) : b.Reads (b.readData len).1 := by
  by_cases hlen : len ≤ b.needReadLength
  · rw [readData_of_le hlen]
    exact .read hlen
  · rw [readData_of_lt (Nat.lt_of_not_le hlen)]
    exact .same

/-- A source is read, whatever becomes of the destination. -/
theorem reads_readBuffer {b : NetBuffer} (h : b.Valid) (dst : NetBuffer) :
    b.Reads (b.readBuffer dst).1 := by
  rw [readBuffer_eq h]
  apply Reads.read
  rw [h.needReadLength_eq]
  exact Nat.min_le_left _ _

/-- A locked destination takes nothing, from whatever source. -/
theorem destination_of_lock (b : NetBuffer) {dst : NetBuffer} (hlock : dst.lock = true) :
    (b.readBuffer dst).2.1 = dst := by
  have htail : ∀ p, dst.tail p = (dst, false) := by
    intro p
    rw [tail, if_pos hlock]
  unfold readBuffer
  split
  · rfl
  · split
    · rfl
    · simp only
      split
      · rfl
      · rw [htail]

theorem Reads.valid {b b' : NetBuffer} (h : b.Reads b') (hb : b.Valid) : b'.Valid := by
  cases h with
  | same => exact hb
  | read hlen => exact valid_advance hb hlen
  | clear => exact valid_clearReadBuffer hb

theorem Reads.onlyRead {b b' : NetBuffer} (h : b.Reads b') (hb : b.Valid) : b.OnlyRead b' := by
  refine ⟨?_, (h.valid hb).readPos_le, ?_⟩
  · cases h with
    | same => rfl
    | read => rfl
    | clear => rfl
  · cases h with
    | same => exact List.suffix_refl _
    | read hlen =>
        rw [unread_advance]
        exact List.drop_suffix _ b.unread
    | clear => rw [unread_clearReadBuffer hb]

theorem OnlyRead.trans {b b' b'' : NetBuffer} (h : b.OnlyRead b') (h' : b'.OnlyRead b'') :
    b.OnlyRead b'' :=
  ⟨h'.lock.trans h.lock, h'.ordered, h'.unread.trans h.unread⟩

/-- Bytes that fit are added to what is unread. -/
theorem onlyRead_writeBytes_iff {b : NetBuffer} (h : b.Valid) (bytes : Bytes) :
    b.OnlyRead (b.writeBytes bytes) ↔ ¬ (bytes ≠ [] ∧ b.writePos + bytes.length ≤ b.maxLen) := by
  by_cases hfit : b.writePos + bytes.length ≤ b.maxLen
  · have hunread := unread_writeBytes h hfit
    constructor
    · rintro ⟨-, -, hsuffix⟩ ⟨hbytes, -⟩
      have hlen := hsuffix.length_le
      have hpos := List.length_pos_iff.mpr hbytes
      rw [hunread, List.length_append] at hlen
      omega
    · intro hnone
      have hbytes : bytes = [] := by
        by_contra hne
        exact hnone ⟨hne, hfit⟩
      refine ⟨lock_writeBytes b bytes, (valid_writeBytes h bytes).readPos_le, ?_⟩
      rw [hunread, hbytes, List.append_nil]
  · rw [writeBytes, if_pos (Nat.lt_of_not_le hfit)]
    simp only [hfit, and_false, not_false_eq_true, iff_true]
    exact Reads.same.onlyRead h

/-- `writeData(len)` moves the write position, on or by a sum that wraps back, and what is then
unread is not the end of what was: it is longer, or the bytes that are cut off behind leave
others at the end. -/
def Moves (b : NetBuffer) (len : Nat) : Prop :=
  sizeAdd b.writePos len ≤ b.maxLen ∧ sizeAdd b.writePos len ≠ b.writePos ∧
    ¬ (b.readPos ≤ sizeAdd b.writePos len ∧ sizeAdd b.writePos len < b.writePos ∧
      b.unread.take (sizeAdd b.writePos len - b.readPos) <:+ b.unread)

instance (b : NetBuffer) (len : Nat) : Decidable (b.Moves len) :=
  inferInstanceAs (Decidable (_ ∧ _ ∧ ¬ (_ ∧ _ ∧ _)))

/-- What is unread up to another write position in front of the old one. -/
theorem unread_of_le {b : NetBuffer} {w : Nat} (hw : w ≤ b.writePos) :
    ({ b with writePos := w } : NetBuffer).unread = b.unread.take (w - b.readPos) := by
  simp only [unread, data, List.drop_take, List.take_take]
  rw [Nat.min_eq_left (by omega)]

theorem onlyRead_writeData_iff {b : NetBuffer} (h : b.Valid) (len : Nat) :
    b.OnlyRead (b.writeData len).1 ↔ ¬ b.Moves len := by
  unfold writeData Moves
  generalize sizeAdd b.writePos len = w
  by_cases hfit : w ≤ b.maxLen
  · rw [if_neg (Nat.not_lt.mpr hfit), and_iff_right hfit, not_and, not_not]
    rcases Nat.lt_trichotomy w b.writePos with hback | heq | hon
    · -- the positions stay in order, and the end is cut off
      constructor
      · rintro ⟨-, hordered, hsuffix⟩ -
        rw [unread_of_le hback.le] at hsuffix
        exact ⟨hordered, hback, hsuffix⟩
      · intro hmoves
        rcases hmoves (Nat.ne_of_lt hback) with ⟨hordered, -, hsuffix⟩
        refine ⟨rfl, hordered, ?_⟩
        rw [unread_of_le hback.le]
        exact hsuffix
    · subst heq
      exact iff_of_true (Reads.same.onlyRead h) fun hne => absurd rfl hne
    · -- more is unread than before
      have hlen : ({ b with writePos := w } : NetBuffer).unread.length = w - b.readPos :=
        Valid.length_unread ⟨h.alloc, h.readPos_le.trans hon.le, hfit⟩
      have hlonger : ¬ b.OnlyRead { b with writePos := w } := by
        rintro ⟨-, -, hsuffix⟩
        have hle := hsuffix.length_le
        have hr := h.readPos_le
        rw [hlen, h.length_unread] at hle
        omega
      apply iff_of_false hlonger
      intro hmoves
      exact absurd (hmoves (Nat.ne_of_gt hon)).2.1 (Nat.not_lt.mpr hon.le)
  · rw [if_pos (Nat.lt_of_not_le hfit)]
    exact iff_of_true (Reads.same.onlyRead h) fun hmoves => hfit hmoves.1

/-- A `writeData` keeps a buffer well formed as long as its positions stay in order. -/
theorem valid_writeData {b : NetBuffer} (h : b.Valid) {len : Nat}
    (hordered : (b.writeData len).1.readPos ≤ (b.writeData len).1.writePos) :
    (b.writeData len).1.Valid := by
  unfold writeData at hordered ⊢
  split
  · exact h
  · rename_i hfit
    rw [if_neg hfit] at hordered
    exact ⟨h.alloc, hordered, Nat.not_lt.mp hfit⟩

end NetBuffer

/-- A call of any of the member functions.  Behind `writeData(len)` there may be anything in the
free space, and `len` may be any number. -/
inductive MemberCall (ι : Type) where
  | call (c : BufferCall ι)
  | writeData (i : ι) (len : Nat)
deriving DecidableEq, Repr

section
variable {ι : Type} [DecidableEq ι]

/-- The buffers after a call. -/
def MemberCall.apply (bs : Buffers ι) : MemberCall ι → Buffers ι
  | .call c => c.apply bs
  | .writeData i len => Function.update bs i ((bs i).writeData len).1

/-- A call writes to buffer `i`, which `writeData` does without a look at the lock: it stores
bytes for which there is room, or moves the write position. -/
def MemberCall.Writes (bs : Buffers ι) (i : ι) : MemberCall ι → Prop
  | .call (.op (.writeData j bytes)) =>
      j = i ∧ bytes ≠ [] ∧ (bs i).writePos + bytes.length ≤ (bs i).maxLen
  | .call _ => False
  | .writeData j len => j = i ∧ (bs i).Moves len

instance (bs : Buffers ι) (i : ι) (c : MemberCall ι) : Decidable (c.Writes bs i) := by
  unfold MemberCall.Writes
  split <;> infer_instance

/-- A buffer is at most read when it is where something else is put, or is left as it was. -/
theorem Buffers.reads_update {bs : Buffers ι} {i j : ι} {b : NetBuffer}
    (h : j = i → (bs i).Reads b) : (bs i).Reads (Function.update bs j b i) := by
  by_cases hj : i = j
  · subst hj
    rw [Function.update_self]
    exact h rfl
  · rw [Function.update_of_ne hj]
    exact .same

/-- The functions that append leave a locked buffer as it is. -/
theorem Buffers.reads_tailData {bs : Buffers ι} {i : ι} (hlock : (bs i).lock = true) (j : ι)
    (base : Bytes) : (bs i).Reads (Function.update bs j ((bs j).tailData base).1 i) := by
  apply Buffers.reads_update
  rintro rfl
  rw [NetBuffer.tailData_of_lock hlock]
  exact .same

/-- The functions that put bytes in front leave a locked buffer as it is. -/
theorem Buffers.reads_headData {bs : Buffers ι} {i : ι} (hlock : (bs i).lock = true) (j : ι)
    (base : Bytes) : (bs i).Reads (Function.update bs j ((bs j).headData base).1 i) := by
  apply Buffers.reads_update
  rintro rfl
  rw [NetBuffer.headData_of_lock hlock]
  exact .same

/-- What the operations of a queue do to a locked buffer, `writeData` apart. -/
theorem BufferOp.reads_apply {bs : Buffers ι} {i : ι} (h : (bs i).Valid)
    (hlock : (bs i).lock = true) {o : BufferOp ι} (ho : ∀ j bytes, o ≠ .writeData j bytes) :
    (bs i).Reads ((o.apply bs).1 i) := by
  cases o with
  | tailData j base => exact Buffers.reads_tailData hlock j base
  | tailPod j t => exact Buffers.reads_tailData hlock j t
  | tailNetBuffer j other =>
      by_cases hsame : j = other
      · rw [apply, if_pos hsame]
        exact .same
      · rw [apply, if_neg hsame]
        exact Buffers.reads_tailData hlock j (bs other).data
  | writeData j bytes => exact absurd rfl (ho j bytes)
  | readData j len =>
      rw [apply, Buffers.fst_handOut]
      apply Buffers.reads_update
      rintro rfl
      exact (bs j).reads_readData len
  | readPod j size =>
      rw [apply, Buffers.fst_handOut]
      apply Buffers.reads_update
      rintro rfl
      exact (bs j).reads_readData size
  | clearReadBuffer j =>
      apply Buffers.reads_update
      rintro rfl
      exact .clear
  | reset j =>
      apply Buffers.reads_update
      rintro rfl
      rw [NetBuffer.reset_of_lock hlock]
      exact .same
  | readBuffer j dst =>
      by_cases hsame : j = dst
      · rw [apply, if_pos hsame]
        exact .same
      · rw [fst_readBuffer hsame]
        by_cases hdst : i = dst
        · -- as a destination it takes nothing
          subst hdst
          rw [Function.update_self, NetBuffer.destination_of_lock _ hlock]
          exact .same
        · rw [Function.update_of_ne hdst]
          apply Buffers.reads_update
          rintro rfl
          exact NetBuffer.reads_readBuffer h (bs dst)

theorem BufferCall.reads_apply {bs : Buffers ι} {i : ι} (h : (bs i).Valid)
    (hlock : (bs i).lock = true) {c : BufferCall ι}
    (hc : ∀ j bytes, c ≠ .op (.writeData j bytes)) : (bs i).Reads (c.apply bs i) := by
  cases c with
  | op o =>
      apply BufferOp.reads_apply h hlock
      rintro j bytes rfl
      exact hc j bytes rfl
  | headData j base => exact Buffers.reads_headData hlock j base
  | headPod j t => exact Buffers.reads_headData hlock j t
  | headNetBuffer j other =>
      by_cases hsame : j = other
      · rw [apply, if_pos hsame]
        exact .same
      · rw [apply, if_neg hsame]
        exact Buffers.reads_headData hlock j (bs other).data
  | setHeadPod j t =>
      apply Buffers.reads_update
      rintro rfl
      rw [NetBuffer.setHeadPod, NetBuffer.setHead_of_lock hlock]
      exact .same
  | lock j =>
      apply Buffers.reads_update
      rintro rfl
      have hsame : (bs j).setLock = bs j := by
        rw [NetBuffer.setLock, ← hlock]
      rw [hsame]
      exact .same

/-- A call at most reads a locked buffer, unless it writes to it. -/
theorem MemberCall.onlyRead_apply_iff {bs : Buffers ι} {i : ι} (h : (bs i).Valid)
    (hlock : (bs i).lock = true) (c : MemberCall ι) :
    ((bs i).OnlyRead (c.apply bs i) ↔ ¬ c.Writes bs i) ∧
      (¬ c.Writes bs i → (c.apply bs i).Valid) := by
  -- a call for another buffer
  have hother : ∀ {j : ι} {b : NetBuffer}, j ≠ i → (bs i).OnlyRead (Function.update bs j b i) ∧
      (Function.update bs j b i).Valid := by
    intro j b hj
    rw [Function.update_of_ne (Ne.symm hj)]
    exact ⟨NetBuffer.Reads.same.onlyRead h, h⟩
  cases c with
  | call c =>
      by_cases hwrite : ∃ j bytes, c = .op (.writeData j bytes)
      · rcases hwrite with ⟨j, bytes, rfl⟩
        change ((bs i).OnlyRead (Function.update bs j ((bs j).writeBytes bytes) i) ↔
            ¬ (j = i ∧ bytes ≠ [] ∧ (bs i).writePos + bytes.length ≤ (bs i).maxLen)) ∧
          (_ → (Function.update bs j ((bs j).writeBytes bytes) i).Valid)
        by_cases hj : j = i
        · subst hj
          rw [Function.update_self, NetBuffer.onlyRead_writeBytes_iff h, and_iff_right rfl]
          exact ⟨Iff.rfl, fun _ => NetBuffer.valid_writeBytes h bytes⟩
        · exact ⟨iff_of_true (hother hj).1 fun hsame => hj hsame.1, fun _ => (hother hj).2⟩
      · have hreads := BufferCall.reads_apply h hlock fun j bytes hc => hwrite ⟨j, bytes, hc⟩
        have hnone : ¬ (MemberCall.call c).Writes bs i := by
          intro hwrites
          unfold MemberCall.Writes at hwrites
          split at hwrites
          · rename_i j bytes heq
            cases heq
            exact hwrite ⟨j, bytes, rfl⟩
          · exact hwrites
          · rename_i heq
            cases heq
        exact ⟨iff_of_true (hreads.onlyRead h) hnone, fun _ => hreads.valid h⟩
  | writeData j len =>
      change ((bs i).OnlyRead (Function.update bs j ((bs j).writeData len).1 i) ↔
          ¬ (j = i ∧ (bs i).Moves len)) ∧
        (¬ (j = i ∧ (bs i).Moves len) → (Function.update bs j ((bs j).writeData len).1 i).Valid)
      by_cases hj : j = i
      · subst hj
        have hiff := NetBuffer.onlyRead_writeData_iff h len
        rw [Function.update_self, and_iff_right rfl]
        exact ⟨hiff, fun hmoves => NetBuffer.valid_writeData h (hiff.mpr hmoves).ordered⟩
      · exact ⟨iff_of_true (hother hj).1 fun hsame => hj hsame.1, fun _ => (hother hj).2⟩

/-- A call, as a step of a run. -/
def MemberCall.step (bs : Buffers ι) (c : MemberCall ι) : Option (Buffers ι) :=
  some (c.apply bs)

/-- For a well-formed buffer that is locked, among others in any state: a run of calls at most
reads it if and only if none of them writes to it, and then what is unread behind the run is the
end of what was unread before. -/
theorem locked_only_reads {bs : Buffers ι} {i : ι} (hvalid : (bs i).Valid)
    (hlock : (bs i).lock = true) (calls : List (MemberCall ι)) :
    (Along MemberCall.step (fun bs c => (bs i).OnlyRead (c.apply bs i)) bs calls ↔
      Along MemberCall.step (fun bs c => ¬ c.Writes bs i) bs calls) ∧
    ∀ bs', Along MemberCall.step (fun bs c => ¬ c.Writes bs i) bs calls →
      run MemberCall.step bs calls = some bs' → (bs' i).unread <:+ (bs i).unread := by
  constructor
  · refine along_iff_along (I := fun bs : Buffers ι => (bs i).Valid ∧ (bs i).lock = true) ?_ ?_
      ⟨hvalid, hlock⟩
    · rintro bs c ⟨h, hl⟩
      exact (c.onlyRead_apply_iff h hl).1
    · rintro bs c bs' ⟨h, hl⟩ hc hstep
      cases hstep
      rcases c.onlyRead_apply_iff h hl with ⟨hiff, hkept⟩
      exact ⟨hkept hc, (hiff.mpr hc).lock.trans hl⟩
  · intro bs' halong hrun
    have hinv : (bs' i).Valid ∧ (bs i).OnlyRead (bs' i) := by
      refine run_invariant_of_along (I := fun bs' => (bs' i).Valid ∧ (bs i).OnlyRead (bs' i)) ?_
        ⟨hvalid, NetBuffer.Reads.same.onlyRead hvalid⟩ halong hrun
      rintro bs₁ c bs₂ ⟨h, hread⟩ hc hstep
      cases hstep
      rcases c.onlyRead_apply_iff h (hread.lock.trans hlock) with ⟨hiff, hkept⟩
      exact ⟨hkept hc, hread.trans (hiff.mpr hc)⟩
    exact hinv.2.unread

end

/-- A buffer of four bytes that holds `hi` and is locked. -/
def lockedHi : Buffers Unit :=
  Buffers.after (fun _ => 4) (hiSteps ++ [.call (.lock ())])

/-- Behind the lock one byte is read, and the rest refused, a `writeData` that does not fit
included. -/
theorem locked_only_reads_hi :
    ∃ bs', run MemberCall.step lockedHi [.call (.op (.readData () 1)),
        .call (.headData () (text "x")), .writeData () 3, .call (.op (.reset ()))] = some bs' ∧
      (bs' ()).unread = text "i" ∧ (bs' ()).unread <:+ (lockedHi ()).unread := by
  have hvalid : (lockedHi ()).Valid := Buffers.valid_after _ _ ()
  have hreads := locked_only_reads hvalid (by decide +kernel) [.call (.op (.readData () 1)),
    .call (.headData () (text "x")), .writeData () 3, .call (.op (.reset ()))]
  exact ⟨_, rfl, by decide +kernel, hreads.2 _ (by decide +kernel) rfl⟩

/-- A locked buffer that is not full takes a byte from `writeData`, and loses one to a length
whose sum wraps. -/
theorem write_behind_lock :
    let stored := (MemberCall.call (.op (.writeData () (text "x")))).apply lockedHi
    let wrapped := (MemberCall.writeData () 18446744073709551615).apply lockedHi
    (lockedHi ()).lock = true ∧ (lockedHi ()).unread = text "hi" ∧
      ((stored ()).unread = text "hix" ∧ ¬ (stored ()).unread <:+ (lockedHi ()).unread) ∧
      ((wrapped ()).unread = text "h" ∧ ¬ (wrapped ()).unread <:+ (lockedHi ()).unread) := by
  refine ⟨?_, ?_, ⟨?_, ?_⟩, ?_, ?_⟩ <;> decide +kernel

end FannyNet

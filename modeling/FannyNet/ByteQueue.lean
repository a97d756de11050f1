import FannyNet.Library.Queue
import FannyNet.NetBuffer

/-!
# `NetBuffer` as a byte queue

Sequences of operations on any number of unlocked buffers.  What an operation is to append and
hand out follows from its arguments and from how much is unread and free; it is the history of
queues in which the unread bytes wait, and the operations answer accordingly.

Main results:

- Definition `BufferOp.apply`: an operation on a family of buffers, with what it answers.
- Definition `BufferOp.events`: what an operation is to do to the queues.
- Theorem `BufferOp.answers_eq`: the answers of an operation are its events.
- Theorem `BufferOp.apply_refines`: an operation keeps the invariant, and what it does to
  the unread bytes is a run of its events.
- Theorem `buffers_are_queues`: the same over sequences of operations.
-/

namespace FannyNet

open Library Library.Transition

namespace NetBuffer

/-- The bytes that the read position has passed over, from `b` to `b'`. -/
def passed (b b' : NetBuffer) : Bytes :=
  b.unread.take (b'.readPos - b.readPos)

/-- Appending nothing is refused, and only that. -/
theorem tail_eq_true_iff {b : NetBuffer} (hlock : b.lock = false) {base : Bytes} :
    (b.tail base).2 = true ↔ base ≠ [] := by
  unfold tail
  rw [if_neg (by simp [hlock])]
  by_cases hbase : base = []
  · simp [hbase]
  · have hlen : ¬ base.length ≤ 0 := by
      rw [Nat.le_zero, List.length_eq_zero_iff]
      exact hbase
    simp [hlen, hbase]

theorem tailData_eq_true_iff {b : NetBuffer} (hlock : b.lock = false) {base : Bytes} :
    (b.tailData base).2 = true ↔ base ≠ [] := by
  have hlock' : (b.resize (b.writePos + base.length)).1.lock = false := by
    rw [lock_resize, hlock]
  exact tail_eq_true_iff hlock'

/-- How far the source of `readBuffer` is read, and when it returns `true`. -/
theorem readBuffer_moves {b dst : NetBuffer} (hb : b.Valid) (hlock : dst.lock = false) :
    (b.readBuffer dst).1.readPos = b.readPos + moved b dst ∧
      ((b.readBuffer dst).2.2 = true ↔ moved b dst ≠ 0) := by
  rw [readBuffer_eq hb]
  refine ⟨rfl, ?_⟩
  rw [tail_eq_true_iff hlock, ← List.length_pos_iff, length_take_moved, Nat.pos_iff_ne_zero]

/-- What the source of `readBuffer` has been read by is what is moved. -/
theorem passed_readBuffer {b : NetBuffer} (hb : b.Valid) (dst : NetBuffer) :
    b.passed (b.readBuffer dst).1 = b.unread.take (moved b dst) := by
  rw [readBuffer_eq hb, passed, Nat.add_sub_cancel_left]

/-- Growth moves no unread byte. -/
theorem unread_resize {b : NetBuffer} (h : b.Valid) (len : Nat) :
    (b.resize len).1.unread = b.unread := by
  rw [unread, data_resize h, readPos_resize, unread]

end NetBuffer

/-! ## Operations -/

/-- An operation on one or two of several buffers.  The bytes passed to an operation are not
part of the buffer it is called on. -/
inductive BufferOp (ι : Type) where
  | tailData (i : ι) (base : Bytes)
  | tailPod (i : ι) (t : Bytes)
  | tailNetBuffer (i other : ι)
  | writeData (i : ι) (bytes : Bytes)
  | readData (i : ι) (len : Nat)
  | readPod (i : ι) (size : Nat)
  | clearReadBuffer (i : ι)
  | reset (i : ι)
  | readBuffer (i dst : ι)
deriving DecidableEq, Repr

/-- Several buffers. -/
abbrev Buffers (ι : Type) := ι → NetBuffer

namespace Buffers

variable {ι : Type} [DecidableEq ι]

/-- A buffer after an operation that appends `base` if it returns `true`. -/
def append (bs : Buffers ι) (i : ι) (base : Bytes) :
    NetBuffer × Bool → Buffers ι × List (Queue.Event ι UInt8)
  | (b, ok) => (Function.update bs i b, if ok then [.append i base] else [])

/-- A buffer after an operation that reads, and the bytes behind the pointer it returns. -/
def handOut (bs : Buffers ι) (i : ι) :
    NetBuffer × Option Bytes → Buffers ι × List (Queue.Event ι UInt8)
  | (b, none) => (Function.update bs i b, [])
  | (b, some p) => (Function.update bs i b, [.take i p])

end Buffers

namespace BufferOp

variable {ι : Type} [DecidableEq ι]

/-- An operation, and what it answers: that it has appended its bytes, or the bytes that it hands
out. -/
def apply (bs : Buffers ι) : BufferOp ι → Buffers ι × List (Queue.Event ι UInt8)
  | .tailData i base => bs.append i base ((bs i).tailData base)
  | .tailPod i t => bs.append i t ((bs i).tailPod t)
  | .tailNetBuffer i other =>
      if i = other then (bs, [])
      else bs.append i (bs other).data ((bs i).tailNetBuffer (bs other))
  | .writeData i bytes =>
      -- the returned pointer is null when the bytes do not fit
      bs.append i bytes
        ((bs i).writeBytes bytes, decide ((bs i).writePos + bytes.length ≤ (bs i).maxLen))
  | .readData i len => bs.handOut i ((bs i).readData len)
  | .readPod i size => bs.handOut i ((bs i).readPod size)
  | .clearReadBuffer i => (Function.update bs i (bs i).clearReadBuffer, [])
  | .reset i => (Function.update bs i (bs i).reset, [.reset i])
  | .readBuffer i dst =>
      if i = dst then (bs, [])
      else
        match (bs i).readBuffer (bs dst) with
        | (b, d, ok) =>
            let p := (bs i).passed b
            (Function.update (Function.update bs i b) dst d,
              .take i p :: if ok then [.append dst p] else [])

/-- The buffers after a sequence of operations, and the answers of all of them. -/
def applyAll (bs : Buffers ι) : List (BufferOp ι) → Buffers ι × List (Queue.Event ι UInt8)
  | [] => (bs, [])
  | op :: ops =>
      match apply bs op with
      | (bs', es) =>
          match applyAll bs' ops with
          | (bs'', es') => (bs'', es ++ es')

/-- What an operation is to append: bytes that are not empty. -/
def appending (i : ι) (base : Bytes) : List (Queue.Event ι UInt8) :=
  if base = [] then [] else [.append i base]

/-- What an operation is to hand out: the first `len` unread bytes, if there are as many. -/
def handing (bs : Buffers ι) (i : ι) (len : Nat) : List (Queue.Event ι UInt8) :=
  if len ≤ (bs i).unread.length then [.take i ((bs i).unread.take len)] else []

/-- What an operation is to do to the queues, by its arguments and by what is unread and free in
the buffers before it. -/
def events (bs : Buffers ι) : BufferOp ι → List (Queue.Event ι UInt8)
  | .tailData i base => appending i base
  | .tailPod i t => appending i t
  | .tailNetBuffer i other => if i = other then [] else appending i (bs other).data
  | .writeData i bytes =>
      if (bs i).writePos + bytes.length ≤ (bs i).maxLen then [.append i bytes] else []
  | .readData i len => handing bs i len
  | .readPod i size => handing bs i size
  | .clearReadBuffer _ => []
  | .reset i => [.reset i]
  | .readBuffer i dst =>
      if i = dst then []
      else
        let p := (bs i).unread.take
          (min (bs i).unread.length ((bs dst).maxLen - (bs dst).writePos))
        .take i p :: appending dst p

/-- `readBuffer` is to move as much as is unread and as is free. -/
theorem events_readBuffer {bs : Buffers ι} {i dst : ι} (hne : i ≠ dst) :
    events bs (.readBuffer i dst) =
      .take i ((bs i).unread.take (NetBuffer.moved (bs i) (bs dst))) ::
        appending dst ((bs i).unread.take (NetBuffer.moved (bs i) (bs dst))) := by
  rw [events, if_neg hne]
  rfl

/-- What a sequence of operations is to do to the queues. -/
def eventsAll (bs : Buffers ι) : List (BufferOp ι) → List (Queue.Event ι UInt8)
  | [] => []
  | op :: ops => events bs op ++ eventsAll (apply bs op).1 ops

end BufferOp

/-! ## One operation -/

namespace Buffers

variable {ι : Type} [DecidableEq ι]

/-- Every buffer is well formed and unlocked. -/
def Sound (bs : Buffers ι) : Prop :=
  ∀ i, (bs i).Valid ∧ (bs i).lock = false

/-- What waits in the buffers, as queues. -/
def unread (bs : Buffers ι) : ι → Bytes :=
  fun i => (bs i).unread

omit [DecidableEq ι] in
theorem sound_create (len : ι → Nat) : Sound fun i => NetBuffer.create (len i) :=
  fun i => ⟨NetBuffer.valid_create (len i), rfl⟩

theorem Sound.update {bs : Buffers ι} (h : bs.Sound) {i : ι} {b : NetBuffer} (hb : b.Valid)
    (hlock : b.lock = false) : Sound (Function.update bs i b) := by
  intro j
  by_cases hj : j = i
  · subst hj
    rw [Function.update_self]
    exact ⟨hb, hlock⟩
  · rw [Function.update_of_ne hj]
    exact h j

/-- Replacing a buffer replaces what waits in it. -/
theorem unread_update (bs : Buffers ι) (i : ι) (b : NetBuffer) :
    unread (Function.update bs i b) = Function.update bs.unread i b.unread := by
  ext1 j
  by_cases hj : j = i
  · subst hj
    simp [unread]
  · simp [unread, hj]

/-- A buffer whose unread bytes have not changed. -/
theorem unread_update_self {bs : Buffers ι} {i : ι} {b : NetBuffer}
    (h : b.unread = (bs i).unread) : unread (Function.update bs i b) = bs.unread := by
  rw [unread_update, h]
  exact Function.update_eq_self i bs.unread

/-- What an operation leaves: sound buffers, whose unread bytes have moved as its events say. -/
def Refines (bs : Buffers ι) (x : Buffers ι × List (Queue.Event ι UInt8)) : Prop :=
  x.1.Sound ∧ run Queue.step bs.unread x.2 = some x.1.unread

theorem refines_nil {bs : Buffers ι} (h : bs.Sound) : bs.Refines (bs, []) :=
  ⟨h, rfl⟩

/-- Nothing is appended, handed out or emptied. -/
theorem refines_quiet {bs : Buffers ι} (h : bs.Sound) {i : ι} {b : NetBuffer} (hb : b.Valid)
    (hlock : b.lock = false) (hunread : b.unread = (bs i).unread) :
    bs.Refines (Function.update bs i b, []) := by
  refine ⟨h.update hb hlock, ?_⟩
  rw [run_nil, unread_update_self hunread]

/-- Bytes behind the unread bytes. -/
theorem refines_append {bs : Buffers ι} (h : bs.Sound) {i : ι} {base : Bytes} {b : NetBuffer}
    (hb : b.Valid) (hlock : b.lock = false) (hunread : b.unread = (bs i).unread ++ base) :
    bs.Refines (Function.update bs i b, BufferOp.appending i base) := by
  by_cases hbase : base = []
  · rw [BufferOp.appending, if_pos hbase]
    apply refines_quiet h hb hlock
    rw [hunread, hbase, List.append_nil]
  · rw [BufferOp.appending, if_neg hbase]
    refine ⟨h.update hb hlock, ?_⟩
    simp only [run, Queue.step, Option.bind_some]
    rw [unread_update, hunread]
    rfl

/-- Bytes from the front of the unread bytes, if there are as many. -/
theorem refines_readData {bs : Buffers ι} (h : bs.Sound) (i : ι) (len : Nat) :
    bs.Refines (Function.update bs i ((bs i).readData len).1, BufferOp.handing bs i len) := by
  rcases h i with ⟨hvalid, hlock⟩
  by_cases hlen : len ≤ (bs i).unread.length
  · have hneed : len ≤ (bs i).needReadLength := by
      rw [hvalid.needReadLength_eq]
      exact hlen
    rw [BufferOp.handing, if_pos hlen, NetBuffer.readData_of_le hneed]
    refine ⟨h.update (NetBuffer.valid_advance hvalid hneed) hlock, ?_⟩
    have hfront : (bs i).unread.take len <+: bs.unread i := List.take_prefix len _
    have htake : ((bs i).unread.take len).length = len := by
      rw [List.length_take, Nat.min_eq_left hlen]
    simp only [run, Queue.step, if_pos hfront, Option.bind_some, htake]
    rw [unread_update, NetBuffer.unread_advance]
    rfl
  · have hneed : (bs i).needReadLength < len := by
      rw [hvalid.needReadLength_eq]
      exact Nat.lt_of_not_le hlen
    rw [BufferOp.handing, if_neg hlen, NetBuffer.readData_of_lt hneed]
    exact refines_quiet h hvalid hlock rfl

/-- Unread bytes of one buffer become unread bytes of another. -/
theorem refines_readBuffer {bs : Buffers ι} (h : bs.Sound) {i dst : ι} (hne : i ≠ dst) :
    bs.Refines (Function.update (Function.update bs i ((bs i).readBuffer (bs dst)).1) dst
        ((bs i).readBuffer (bs dst)).2.1,
      BufferOp.events bs (.readBuffer i dst)) := by
  rcases h i with ⟨hvalid, hlock⟩
  rcases h dst with ⟨hvalid', hlock'⟩
  rcases NetBuffer.readBuffer_spec hvalid hvalid' hlock' with
    ⟨b, d, ok, heq, hb, hd, hrest, hdata, hdpos, -, hdlock, -, hblock, -⟩
  generalize hp : (bs i).unread.take (NetBuffer.moved (bs i) (bs dst)) = p at hdata
  have hlen : p.length = NetBuffer.moved (bs i) (bs dst) := by
    rw [← hp, NetBuffer.length_take_moved]
  have hdest : d.unread = (bs dst).unread ++ p := by
    have hread : (bs dst).readPos ≤ (bs dst).data.length := by
      rw [hvalid'.length_data]
      exact hvalid'.readPos_le
    rw [NetBuffer.unread, hdata, hdpos, List.drop_append_of_le_length hread]
    rfl
  -- the bytes leave the source, and then arrive if there are any
  have hfront : p <+: bs.unread i := hp ▸ List.take_prefix _ _
  have hsource : run Queue.step bs.unread [.take i p] =
      some (unread (Function.update bs i b)) := by
    simp only [run, Queue.step, if_pos hfront, Option.bind_some, hlen]
    rw [unread_update, hrest]
    rfl
  have hother : Function.update bs i b dst = bs dst := Function.update_of_ne (Ne.symm hne) _ _
  have hmid : Sound (Function.update bs i b) := h.update hb (hblock.trans hlock)
  have hbehind : d.unread = (Function.update bs i b dst).unread ++ p := by rw [hother, hdest]
  have harrive := refines_append hmid hd hdlock hbehind
  rw [BufferOp.events_readBuffer hne, hp, heq]
  refine ⟨harrive.1, ?_⟩
  rw [← List.singleton_append, run_append, hsource, Option.bind_some]
  exact harrive.2

/-! ### What the operations answer -/

theorem fst_handOut (bs : Buffers ι) (i : ι) (x : NetBuffer × Option Bytes) :
    (bs.handOut i x).1 = Function.update bs i x.1 := by
  rcases x with ⟨b, _ | p⟩
  · rfl
  · rfl

theorem snd_append {bs : Buffers ι} {i : ι} {base : Bytes} {x : NetBuffer × Bool}
    (hok : x.2 = true ↔ base ≠ []) : (bs.append i base x).2 = BufferOp.appending i base := by
  rcases x with ⟨b, ok⟩
  change (if ok = true then _ else _) = _
  by_cases hbase : base = []
  · rw [BufferOp.appending, if_pos hbase, if_neg (fun h => hok.mp h hbase)]
  · rw [BufferOp.appending, if_neg hbase, if_pos (hok.mpr hbase)]

theorem snd_handOut {bs : Buffers ι} {i : ι} (hvalid : (bs i).Valid) (len : Nat) :
    (bs.handOut i ((bs i).readData len)).2 = BufferOp.handing bs i len := by
  have hneed := hvalid.needReadLength_eq
  by_cases hlen : len ≤ (bs i).unread.length
  · rw [BufferOp.handing, if_pos hlen, NetBuffer.readData_of_le (hneed ▸ hlen)]
    rfl
  · rw [BufferOp.handing, if_neg hlen,
      NetBuffer.readData_of_lt (hneed ▸ Nat.lt_of_not_le hlen)]
    rfl

end Buffers

namespace BufferOp

variable {ι : Type} [DecidableEq ι]

/-- The two buffers that `readBuffer` changes. -/
theorem fst_readBuffer {bs : Buffers ι} {i dst : ι} (hne : i ≠ dst) :
    (apply bs (.readBuffer i dst)).1 =
      Function.update (Function.update bs i ((bs i).readBuffer (bs dst)).1) dst
        ((bs i).readBuffer (bs dst)).2.1 := by
  rw [apply, if_neg hne]

theorem snd_readBuffer {bs : Buffers ι} {i dst : ι} (hne : i ≠ dst) :
    (apply bs (.readBuffer i dst)).2 =
      .take i ((bs i).passed ((bs i).readBuffer (bs dst)).1) ::
        if ((bs i).readBuffer (bs dst)).2.2 then
          [.append dst ((bs i).passed ((bs i).readBuffer (bs dst)).1)]
        else [] := by
  rw [apply, if_neg hne]

/-- An operation answers what it is to do: it appends what is not empty and what has room, and
hands out as many bytes as it was asked for if they are there. -/
theorem answers_eq {bs : Buffers ι} (h : bs.Sound) (op : BufferOp ι) :
    (apply bs op).2 = events bs op := by
  cases op with
  | tailData i base => exact Buffers.snd_append (NetBuffer.tailData_eq_true_iff (h i).2)
  | tailPod i t => exact Buffers.snd_append (NetBuffer.tailData_eq_true_iff (h i).2)
  | tailNetBuffer i other =>
      by_cases hsame : i = other
      · rw [apply, events, if_pos hsame, if_pos hsame]
      · rw [apply, events, if_neg hsame, if_neg hsame]
        exact Buffers.snd_append (NetBuffer.tailData_eq_true_iff (h i).2)
  | writeData i bytes =>
      rw [events]
      by_cases hfit : (bs i).writePos + bytes.length ≤ (bs i).maxLen
      · rw [apply, Buffers.append, decide_eq_true hfit, if_pos rfl, if_pos hfit]
      · rw [apply, Buffers.append, decide_eq_false hfit, if_neg Bool.false_ne_true, if_neg hfit]
  | readData i len => exact Buffers.snd_handOut (h i).1 len
  | readPod i size => exact Buffers.snd_handOut (h i).1 size
  | clearReadBuffer i => rfl
  | reset i => rfl
  | readBuffer i dst =>
      by_cases hsame : i = dst
      · rw [apply, events, if_pos hsame, if_pos hsame]
      · have hpassed := NetBuffer.passed_readBuffer (h i).1 (bs dst)
        have hok := (NetBuffer.readBuffer_moves (h i).1 (h dst).2).2
        have hempty : (bs i).unread.take (NetBuffer.moved (bs i) (bs dst)) = [] ↔
            NetBuffer.moved (bs i) (bs dst) = 0 := by
          rw [← List.length_eq_zero_iff, NetBuffer.length_take_moved]
        rw [events_readBuffer hsame, snd_readBuffer hsame, hpassed]
        by_cases hzero : NetBuffer.moved (bs i) (bs dst) = 0
        · rw [appending, if_pos (hempty.mpr hzero), if_neg (fun h => hok.mp h hzero)]
        · rw [appending, if_neg (fun h => hzero (hempty.mp h)), if_pos (hok.mpr hzero)]

/-- An operation keeps the buffers well formed, and what it does to the unread bytes is what
its events do to queues. -/
theorem apply_refines {bs : Buffers ι} (h : bs.Sound) (op : BufferOp ι) :
    bs.Refines ((apply bs op).1, events bs op) := by
  -- the operations that go through `tailData`
  have htail : ∀ (i : ι) (base : Bytes),
      bs.Refines (Function.update bs i ((bs i).tailData base).1, appending i base) := by
    intro i base
    rcases h i with ⟨hvalid, hlock⟩
    apply Buffers.refines_append h (NetBuffer.valid_tailData hvalid hlock base)
    · rw [NetBuffer.lock_tailData, hlock]
    · exact NetBuffer.unread_tailData hvalid hlock base
  cases op with
  | tailData i base => exact htail i base
  | tailPod i t => exact htail i t
  | tailNetBuffer i other =>
      by_cases hsame : i = other
      · rw [apply, events, if_pos hsame, if_pos hsame]
        exact Buffers.refines_nil h
      · rw [apply, events, if_neg hsame, if_neg hsame]
        exact htail i (bs other).data
  | writeData i bytes =>
      rcases h i with ⟨hvalid, hlock⟩
      have hvalid' := NetBuffer.valid_writeBytes hvalid bytes
      have hlock' : ((bs i).writeBytes bytes).lock = false := by
        rw [NetBuffer.lock_writeBytes, hlock]
      rw [events]
      by_cases hfit : (bs i).writePos + bytes.length ≤ (bs i).maxLen
      · rw [if_pos hfit]
        refine ⟨h.update hvalid' hlock', ?_⟩
        simp only [run, Queue.step, Option.bind_some, apply, Buffers.append]
        rw [Buffers.unread_update, NetBuffer.unread_writeBytes hvalid hfit]
        rfl
      · rw [if_neg hfit]
        apply Buffers.refines_quiet h hvalid' hlock'
        rw [NetBuffer.writeBytes, if_pos (Nat.lt_of_not_le hfit)]
  | readData i len =>
      rw [apply, Buffers.fst_handOut]
      exact Buffers.refines_readData h i len
  | readPod i size =>
      rw [apply, Buffers.fst_handOut]
      exact Buffers.refines_readData h i size
  | clearReadBuffer i =>
      rcases h i with ⟨hvalid, hlock⟩
      exact Buffers.refines_quiet h (NetBuffer.valid_clearReadBuffer hvalid) hlock
        (NetBuffer.unread_clearReadBuffer hvalid)
  | reset i =>
      rcases h i with ⟨hvalid, hlock⟩
      refine ⟨h.update (NetBuffer.valid_reset hvalid) ?_, ?_⟩
      · rw [NetBuffer.lock_reset, hlock]
      · simp only [apply, events, run, Queue.step, Option.bind_some]
        rw [Buffers.unread_update, NetBuffer.unread_reset hlock]
  | readBuffer i dst =>
      by_cases hsame : i = dst
      · rw [apply, events, if_pos hsame, if_pos hsame]
        exact Buffers.refines_nil h
      · rw [fst_readBuffer hsame]
        exact Buffers.refines_readBuffer h hsame

/-! ## Sequences of operations -/

/-- The same over a sequence of operations. -/
theorem applyAll_refines {bs : Buffers ι} (h : bs.Sound) (ops : List (BufferOp ι)) :
    (applyAll bs ops).2 = eventsAll bs ops ∧
      bs.Refines ((applyAll bs ops).1, eventsAll bs ops) := by
  induction ops generalizing bs with
  | nil => exact ⟨rfl, Buffers.refines_nil h⟩
  | cons op ops ih =>
      rcases apply_refines h op with ⟨hsound, hrun⟩
      rcases ih hsound with ⟨hanswers, hsound', hrun'⟩
      refine ⟨?_, hsound', ?_⟩
      · rw [eventsAll, ← answers_eq h op, ← hanswers]
        rfl
      · rw [eventsAll, run_append, hrun, Option.bind_some]
        exact hrun'

/-- The buffers after a sequence of operations on new buffers. -/
def buffers (len : ι → Nat) (ops : List (BufferOp ι)) : Buffers ι :=
  (applyAll (fun j => NetBuffer.create (len j)) ops).1

/-- What these operations have answered. -/
def answers (len : ι → Nat) (ops : List (BufferOp ι)) : List (Queue.Event ι UInt8) :=
  (applyAll (fun j => NetBuffer.create (len j)) ops).2

/-- What these operations were to append, hand out and empty. -/
def history (len : ι → Nat) (ops : List (BufferOp ι)) : List (Queue.Event ι UInt8) :=
  eventsAll (fun j => NetBuffer.create (len j)) ops

end BufferOp

open BufferOp in
/-- After any operations on any number of new buffers, every buffer is well formed, and the
bytes that reads have handed out since it was last emptied, followed by its unread bytes, are
the bytes appended since, in order; growth and compaction change no unread byte.  What was
appended and handed out is what the arguments ask for, and what the operations answer. -/
theorem buffers_are_queues {ι : Type} [DecidableEq ι] (len : ι → Nat) (ops : List (BufferOp ι))
    (i : ι) :
    ((buffers len ops i).readPos ≤ (buffers len ops i).writePos ∧
        (buffers len ops i).writePos ≤ (buffers len ops i).maxLen ∧
        (buffers len ops i).buffer.length = (buffers len ops i).maxLen) ∧
      answers len ops = history len ops ∧
      Queue.taken i (history len ops) ++ (buffers len ops i).unread =
        Queue.appended i (history len ops) ∧
      (∀ n, ((buffers len ops i).resize n).1.unread = (buffers len ops i).unread) ∧
      (buffers len ops i).clearReadBuffer.unread = (buffers len ops i).unread := by
  rcases BufferOp.applyAll_refines (Buffers.sound_create len) ops with ⟨hanswers, hsound, hrun⟩
  have hvalid := (hsound i).1
  have hempty : Buffers.unread (fun j => NetBuffer.create (len j)) = fun _ => [] := by
    ext1 j
    exact NetBuffer.unread_create (len j)
  rw [hempty] at hrun
  exact ⟨⟨hvalid.readPos_le, hvalid.writePos_le, hvalid.alloc⟩, hanswers,
    Queue.taken_append_of_run hrun i, NetBuffer.unread_resize hvalid,
    NetBuffer.unread_clearReadBuffer hvalid⟩

end FannyNet

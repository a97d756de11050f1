import FannyNet.Block
import FannyNet.ReplyClass
import FannyNet.ReplyStream

/-!
# Cloned blocks

Each message class copies its blocks in its own `clone`.  A copy is to be as good as the
original: whatever both receive from then on, they complete at the same byte and with the
same result.

Main results:

- Definition `CloneClass.Faithful`: the clones of a block, for any session, are as good.
- Theorem `CloneClass.sameFuture_of_sim`: a relation that `recv` keeps.
- Theorem `clone_faithful_iff`: the reachable blocks of the three classes that are cloned
  faithfully.
-/

namespace FannyNet

open Library Library.Incremental

/-! ## The clone functions -/

/-- A buffer of the same capacity with the same bytes. -/
def NetBuffer.copy (d : NetBuffer) : NetBuffer :=
  ((NetBuffer.create d.maxLength).tailData d.data).1

/-- `clone`, which reads `m_data`. -/
def NetBlock.clone (k : NetBlock) (s : SessionId) : Option NetBlock :=
  k.data.map fun d => { NetBlock.create s 0 with
    head := k.head
    state := k.state
    data := some d.copy }

/-- `push`, which writes to `m_data`. -/
def RedisBlock.push (k : RedisBlock) (bytes : Bytes) : Option (RedisBlock × Bool) :=
  k.data.map fun d => ({ k with data := some (d.tailData bytes).1 }, (d.tailData bytes).2)

/-- `clone`, which reads `m_data`. -/
def RedisBlock.clone (k : RedisBlock) (s : SessionId) : Option RedisBlock :=
  k.data.map fun d => { RedisBlock.create s 0 with
    data := some d.copy
    state := k.state
    type := k.type
    recvList := k.recvList }

/-- `push`, which writes to `m_data`. -/
def RedisBlock2.push (k : RedisBlock2) (bytes : Bytes) : Option (RedisBlock2 × Bool) :=
  k.data.map fun d => ({ k with data := some (d.tailData bytes).1 }, (d.tailData bytes).2)

/-- `clone`, which reads `m_data`. -/
def RedisBlock2.clone (k : RedisBlock2) (s : SessionId) : Option RedisBlock2 :=
  k.data.map fun d => { RedisBlock2.create s 0 with
    data := some d.copy
    state := k.state
    parse := k.parse }

/-! ## What is expected of a clone -/

/-- A message class with the virtual functions `push` and `clone`, which are `none` when they
follow a null `m_data`, and with the result that a completed block shows beside its bytes. -/
structure CloneClass (β ρ : Type) extends BlockClass β where
  push : β → Bytes → Option β
  clone : β → SessionId → Option β
  result : β → ρ

def NetBlock.cloneClass : CloneClass NetBlock Head where
  toBlockClass := NetBlock.blockClass
  push k bytes := some (k.push bytes).1
  clone := NetBlock.clone
  result := NetBlock.head

section
variable [LexicalCast]

def RedisBlock.cloneClass : CloneClass RedisBlock (ReplyT × List Bytes) where
  toBlockClass := RedisBlock.blockClass
  push k bytes := (k.push bytes).map Prod.fst
  clone := RedisBlock.clone
  result k := (k.type, k.recvList)

/-- A push changes the buffer only. -/
theorem RedisBlock.exists_of_push {k k' : RedisBlock} {bytes : Bytes}
    (h : RedisBlock.cloneClass.push k bytes = some k') : ∃ d, k' = { k with data := some d } := by
  rcases Option.map_eq_some_iff.mp h with ⟨x, hx, rfl⟩
  rcases Option.map_eq_some_iff.mp hx with ⟨d, -, rfl⟩
  exact ⟨_, rfl⟩

def RedisBlock2.cloneClass : CloneClass RedisBlock2 (ReplyT × List Bytes) where
  toBlockClass := RedisBlock2.blockClass
  push k bytes := (k.push bytes).map Prod.fst
  clone := RedisBlock2.clone
  result k := (k.parse.type, k.parse.recvList)

end

/-- Pieces of the stream are received until the block is complete; the rest is left. -/
def feedUntilDone {β : Type} (K : BlockClass β) :
    β × NetBuffer → List Bytes → Except Exn ((β × NetBuffer) × List Bytes)
  | x, [] => .ok (x, [])
  | x, c :: cs =>
      if K.bodyDone x.1 then .ok (x, c :: cs)
      else (receive K x c).bind fun y => feedUntilDone K y cs

namespace CloneClass

variable {β ρ : Type} (C : CloneClass β ρ)

/-- The bytes of `m_data`. -/
def bytes (k : β) : Option Bytes :=
  (C.base k).data.map NetBuffer.data

/-- What is seen of a run: what is left unread and unreceived, and the result and the bytes of
a block that is complete. -/
def seen (x : (β × NetBuffer) × List Bytes) : Bytes × List Bytes × Option (ρ × Option Bytes) :=
  (x.1.2.unread, x.2,
    if C.bodyDone x.1.1 then some (C.result x.1.1, C.bytes x.1.1) else none)

/-- Given the same further input, through any buffer and in any pieces, two blocks complete at
the same byte and with the same result, or throw alike. -/
def SameFuture (k k' : β) : Prop :=
  ∀ (buf : NetBuffer) (cs : List Bytes), buf.Valid →
    (feedUntilDone C.toBlockClass (k, buf) cs).map C.seen =
      (feedUntilDone C.toBlockClass (k', buf) cs).map C.seen

/-- A block can be cloned for any session, and the clone is as good. -/
def Faithful (k : β) : Prop :=
  ∀ s, ∃ k', C.clone k s = some k' ∧ (C.base k').session = s ∧
    (C.base k').state = (C.base k).state ∧ C.bytes k' = C.bytes k ∧ C.SameFuture k k'

/-- The blocks that calls of `push` and `recv` lead to from the constructor. -/
inductive Reachable : β → Prop where
  | make (s : SessionId) (size : Nat) : Reachable (C.make s size)
  | push {k k' : β} (h : Reachable k) (bytes : Bytes) (hpush : C.push k bytes = some k') :
      Reachable k'
  | recv {k k' : β} (h : Reachable k) {buf buf' : NetBuffer} {r : Bool} (hbuf : buf.Valid)
      (hrecv : C.recv k buf = .ok (k', buf', r)) : Reachable k'

end CloneClass

/-! ## Buffers that behave alike -/

namespace NetBuffer

/-- A buffer that is large enough is left as it is. -/
theorem resize_of_le {b : NetBuffer} {len : Nat} (h : len ≤ b.maxLen) : (b.resize len).1 = b := by
  unfold resize
  split
  · rfl
  · rw [if_neg (by omega)]

@[simp]
theorem data_copy (d : NetBuffer) : d.copy.data = d.data := by
  have hempty : (create d.maxLength).data = [] := by simp [create, data]
  rw [copy, data_tailData (valid_create d.maxLength) rfl, hempty, List.nil_append]

@[simp]
theorem readPos_copy (d : NetBuffer) : d.copy.readPos = 0 := by
  rw [copy, readPos_tailData]
  rfl

@[simp]
theorem unread_copy (d : NetBuffer) : d.copy.unread = d.data := by
  rw [unread, readPos_copy, data_copy, List.drop_zero]

/-- A copy has the same room, and is not locked. -/
theorem copy_spec {d : NetBuffer} (h : d.Valid) :
    d.copy.Valid ∧ d.copy.maxLen = d.maxLen ∧ d.copy.lock = false := by
  have hlen := h.length_data
  have hw := h.writePos_le
  refine ⟨valid_tailData (valid_create d.maxLength) rfl _, ?_, ?_⟩
  · -- the bytes fit, so nothing is resized
    have hfit : (create d.maxLength).writePos + d.data.length ≤ (create d.maxLength).maxLen := by
      simp only [create, maxLength]
      omega
    rw [copy, tailData, maxLen_tail, resize_of_le hfit]
    rfl
  · rw [copy, lock_tailData]
    rfl

/-- The same unread bytes, and the same room for more. -/
structure Alike (b b' : NetBuffer) : Prop where
  left : b.Valid
  right : b'.Valid
  unread : b.unread = b'.unread
  writePos : b.writePos = b'.writePos
  maxLen : b.maxLen = b'.maxLen

variable {b b' c c' : NetBuffer}

theorem alike_refl (h : b.Valid) : b.Alike b :=
  ⟨h, h, rfl, rfl, rfl⟩

theorem Alike.writeBytes (h : b.Alike b') (bytes : Bytes) :
    (b.writeBytes bytes).Alike (b'.writeBytes bytes) := by
  by_cases hfit : b.writePos + bytes.length ≤ b.maxLen
  · have hfit' : b'.writePos + bytes.length ≤ b'.maxLen := by
      rw [← h.writePos, ← h.maxLen]
      exact hfit
    refine ⟨valid_writeBytes h.left bytes, valid_writeBytes h.right bytes, ?_, ?_, ?_⟩
    · rw [unread_writeBytes h.left hfit, unread_writeBytes h.right hfit', h.unread]
    · rw [writePos_writeBytes hfit, writePos_writeBytes hfit', h.writePos]
    · rw [maxLen_writeBytes, maxLen_writeBytes, h.maxLen]
  · have hfit' : ¬ b'.writePos + bytes.length ≤ b'.maxLen := by
      rw [← h.writePos, ← h.maxLen]
      exact hfit
    rw [NetBuffer.writeBytes, if_pos (by omega), NetBuffer.writeBytes, if_pos (by omega)]
    exact h

/-- Two calls that leave the same unread. -/
theorem Alike.compacted (h : b.Alike b') (hc : b.Compacted c) (hc' : b'.Compacted c')
    (hunread : c.unread = c'.unread) : c.Alike c' where
  left := hc.valid
  right := hc'.valid
  unread := hunread
  writePos := by rw [hc.writePos_eq, hc'.writePos_eq, hunread]
  maxLen := by rw [hc.maxLen, hc'.maxLen, h.maxLen]

theorem Alike.needReadLength (h : b.Alike b') : b.needReadLength = b'.needReadLength := by
  rw [h.left.needReadLength_eq, h.right.needReadLength_eq, h.unread]

/-- The same bytes are read, or none. -/
theorem Alike.readData (h : b.Alike b') (len : Nat) :
    (b.readData len).1.clearReadBuffer.Alike (b'.readData len).1.clearReadBuffer ∧
      (b.readData len).2 = (b'.readData len).2 := by
  by_cases hlen : len ≤ b.needReadLength
  · have hlen' : len ≤ b'.needReadLength := by
      rw [← h.needReadLength]
      exact hlen
    rcases readData_clearReadBuffer h.left hlen with ⟨hc, hrest, htake⟩
    rcases readData_clearReadBuffer h.right hlen' with ⟨hc', hrest', htake'⟩
    rw [htake, htake', h.unread]
    refine ⟨h.compacted hc hc' ?_, rfl⟩
    rw [hrest, hrest', h.unread]
  · have hlen' : b'.needReadLength < len := by
      rw [← h.needReadLength]
      omega
    rw [readData_of_lt (by omega), readData_of_lt hlen']
    refine ⟨⟨valid_clearReadBuffer h.left, valid_clearReadBuffer h.right, ?_, ?_, h.maxLen⟩, rfl⟩
    · rw [unread_clearReadBuffer h.left, unread_clearReadBuffer h.right, h.unread]
    · exact h.needReadLength

end NetBuffer

namespace CloneClass

variable {β ρ : Type} {C : CloneClass β ρ}

theorem bind_receive {α : Type} (K : BlockClass β) (k : β) (b : NetBuffer) (c : Bytes)
    (f : β × NetBuffer → Except Exn α) :
    (receive K (k, b) c).bind f =
      (K.recv k (b.writeBytes c)).bind fun z => f (z.1, z.2.1) := by
  unfold receive
  cases K.recv k (b.writeBytes c) <;> rfl

/-- A relation under which the same is seen, and that `recv` keeps. -/
theorem sameFuture_of_sim {Rel : β → β → Prop}
    (hseen : ∀ k k', Rel k k' → C.bodyDone k = C.bodyDone k' ∧
      (C.bodyDone k = true → C.result k = C.result k' ∧ C.bytes k = C.bytes k'))
    (hrecv : ∀ k k' b b', Rel k k' → C.bodyDone k = false → NetBuffer.Alike b b' →
      RelOutcome (fun x y => Rel x.1 y.1 ∧ NetBuffer.Alike x.2.1 y.2.1) (C.recv k b) (C.recv k' b'))
    {k k' : β} (h : Rel k k') : C.SameFuture k k' := by
  have hrun : ∀ (cs : List Bytes) (k k' : β) (b b' : NetBuffer), Rel k k' → b.Alike b' →
      (feedUntilDone C.toBlockClass (k, b) cs).map C.seen =
        (feedUntilDone C.toBlockClass (k', b') cs).map C.seen := by
    intro cs
    induction cs with
    | nil =>
        intro k k' b b' hk hb
        rcases hseen k k' hk with ⟨hdone, hsame⟩
        simp only [feedUntilDone, Except.map, Except.ok.injEq, seen, Prod.mk.injEq, hb.unread,
          true_and, ← hdone]
        by_cases hk' : C.bodyDone k = true
        · rw [if_pos hk', if_pos hk', (hsame hk').1, (hsame hk').2]
        · rw [if_neg hk', if_neg hk']
    | cons c cs ih =>
        intro k k' b b' hk hb
        rcases hseen k k' hk with ⟨hdone, hsame⟩
        by_cases hk' : C.bodyDone k = true
        · have hk'' : C.bodyDone k' = true := by rw [← hdone, hk']
          rw [feedUntilDone, feedUntilDone, if_pos hk', if_pos hk'']
          simp only [Except.map, seen, hb.unread, if_pos hk', if_pos hk'', (hsame hk').1,
            (hsame hk').2]
        · have hopen : C.bodyDone k = false := by simpa using hk'
          have hk'' : ¬ C.bodyDone k' = true := by rw [← hdone]; exact hk'
          rw [feedUntilDone, feedUntilDone, if_neg hk', if_neg hk'', bind_receive, bind_receive]
          apply (hrecv k k' _ _ hk hopen (hb.writeBytes c)).map_bind_eq
          rintro x y ⟨hxy, hbufs⟩
          exact ih x.1 y.1 x.2.1 y.2.1 hxy hbufs
  intro buf cs hbuf
  exact hrun cs k k' buf buf h (NetBuffer.alike_refl hbuf)

end CloneClass

/-! ## `NetBlock` -/

namespace NetBlock

/-- The buffer of a block is well formed, and locked at most when the block is complete. -/
def Sound (k : NetBlock) : Prop :=
  ∀ d, k.data = some d → d.Valid ∧ (k.state ≠ .done → d.lock = false)

/-- Two blocks that differ in their session, and in their buffers behind the bytes written. -/
structure Twin (k k' : NetBlock) : Prop where
  head : k.head = k'.head
  state : k.state = k'.state
  data : ∃ d d', k.data = some d ∧ k'.data = some d' ∧ d.Valid ∧ d'.Valid ∧ d.data = d'.data ∧
    d.maxLen = d'.maxLen ∧ (k.state ≠ .done → d.lock = false ∧ d'.lock = false)

/-- What a call makes of the body, with the buffer `d` that is there or is made. -/
theorem recvBody_eq {k : NetBlock} (hstate : k.state = .body) {d : NetBuffer}
    (hd : k.data.getD (NetBuffer.create (bodyLen k.head)) = d) (hvalid : d.Valid)
    (hlock : d.lock = false) {buf : NetBuffer} (hbuf : buf.Valid) :
    ∃ (d' buf' : NetBuffer) (r : Bool), buf.Compacted buf' ∧
      buf'.unread = buf.unread.drop (buf.moved d) ∧ d'.Valid ∧
      d'.data = d.data ++ buf.unread.take (buf.moved d) ∧ d'.maxLen = d.maxLen ∧
      d'.lock = false ∧
      k.recvBody buf =
        if d'.isFull then ({ k with data := some d'.setLock, state := .done }, buf', r)
        else ({ k with data := some d' }, buf', false) := by
  rcases NetBuffer.readBuffer_spec hbuf hvalid hlock with
    ⟨b', d', r, hread, hb', hd', hunread, hdata, -, hmax, hlock', hbmax, hblock, -⟩
  have hwrite : b'.writePos - b'.readPos ≤ buf.writePos := by
    have hlen := hb'.length_unread
    have hlenb := hbuf.length_unread
    rw [hunread, List.length_drop] at hlen
    omega
  refine ⟨d', b'.clearReadBuffer, k.head.check == 0,
    ⟨NetBuffer.valid_clearReadBuffer hb', rfl, hbmax, hblock, hwrite⟩, ?_, hd', hdata, hmax, hlock',
    ?_⟩
  · rw [NetBuffer.unread_clearReadBuffer hb', hunread]
  · rw [bodyLen] at hd
    simp only [recvBody, if_pos hstate, hd, hread]

/-- The header of a message that is waited for, or not yet there. -/
theorem recv_init {k : NetBlock} (hstate : k.state = .init) (buf : NetBuffer) :
    k.recv buf =
      match (buf.readData sizeofHead).2 with
      | some p => recvBody { k with head := Head.ofBytes p, state := .body }
          (buf.readData sizeofHead).1.clearReadBuffer
      | none => (k, (buf.readData sizeofHead).1, false) := by
  rw [recv, recvHead, if_pos hstate]
  rcases buf.readData sizeofHead with ⟨b, p⟩
  cases p <;> rfl

theorem recv_of_ne_init {k : NetBlock} (hstate : k.state ≠ .init) (buf : NetBuffer) :
    k.recv buf = k.recvBody buf := by
  rw [recv, recvHead, if_neg hstate]

/-! ### Reachable blocks -/

theorem sound_create (s : SessionId) (size : Nat) : (create s size).Sound := by
  intro d hd
  by_cases hsize : Sized size
  · rcases exists_holding_create s hsize with ⟨d', hd', hholds⟩
    rw [hd', Option.some.injEq] at hd
    rw [← hd]
    exact ⟨hholds.valid, fun _ => hholds.lock⟩
  · rw [data_create_of_not_sized s hsize] at hd
    cases hd

theorem Sound.push {k : NetBlock} (h : k.Sound) (bytes : Bytes) : (k.push bytes).1.Sound := by
  cases hdata : k.data with
  | none =>
      rw [NetBlock.push, hdata]
      exact h
  | some d =>
      have hvalid : (d.tailData bytes).1.Valid := by
        cases hlock : d.lock with
        | true =>
            rw [NetBuffer.tailData_of_lock hlock]
            exact (h d hdata).1
        | false => exact NetBuffer.valid_tailData (h d hdata).1 hlock bytes
      intro d' hd'
      simp only [NetBlock.push, hdata, encrypt, Option.some.injEq] at hd'
      rw [← hd']
      refine ⟨NetBuffer.valid_setHead hvalid _, fun hopen => ?_⟩
      rw [NetBuffer.lock_setHead, NetBuffer.lock_tailData]
      exact (h d hdata).2 fun hdone => hopen (by simp only [NetBlock.push, hdata, encrypt, hdone])

theorem Sound.recvBody {k : NetBlock} (h : k.Sound) {buf : NetBuffer} (hbuf : buf.Valid) :
    (k.recvBody buf).1.Sound := by
  by_cases hstate : k.state = .body
  · have hgetD : (k.data.getD (NetBuffer.create (bodyLen k.head))).Valid ∧
        (k.data.getD (NetBuffer.create (bodyLen k.head))).lock = false := by
      cases hdata : k.data with
      | none => exact ⟨NetBuffer.valid_create _, rfl⟩
      | some d => exact ⟨(h d hdata).1, (h d hdata).2 (by simp [hstate])⟩
    rcases recvBody_eq hstate rfl hgetD.1 hgetD.2 hbuf with
      ⟨d', buf', r, -, -, hvalid, -, -, hlock, hres⟩
    rw [hres]
    split
    · intro d hd
      rw [Option.some.injEq] at hd
      rw [← hd]
      exact ⟨⟨hvalid.alloc, hvalid.readPos_le, hvalid.writePos_le⟩, fun hne => absurd rfl hne⟩
    · intro d hd
      rw [Option.some.injEq] at hd
      rw [← hd]
      exact ⟨hvalid, fun _ => hlock⟩
  · rw [NetBlock.recvBody, if_neg hstate]
    exact h

theorem Sound.recv {k : NetBlock} (h : k.Sound) {buf : NetBuffer} (hbuf : buf.Valid) :
    (k.recv buf).1.Sound := by
  by_cases hstate : k.state = .init
  · rw [recv_init hstate]
    by_cases hlen : sizeofHead ≤ buf.needReadLength
    · rcases NetBuffer.readData_clearReadBuffer hbuf hlen with ⟨hcomp, -, htake⟩
      rw [htake]
      have hopen : ({ k with head := Head.ofBytes (buf.unread.take sizeofHead), state := .body } :
          NetBlock).Sound :=
        fun d hd => ⟨(h d hd).1, fun _ => (h d hd).2 (by simp [hstate])⟩
      exact hopen.recvBody hcomp.valid
    · rw [NetBuffer.readData_of_lt (by omega)]
      exact h
  · rw [recv_of_ne_init hstate]
    exact h.recvBody hbuf

theorem sound_of_reachable {k : NetBlock} (h : cloneClass.Reachable k) : k.Sound := by
  induction h with
  | make s size => exact sound_create s size
  | push _ bytes hpush ih =>
      cases hpush
      exact ih.push bytes
  | @recv k k' _ buf buf' r hbuf hrecv ih =>
      have hres : k.recv buf = (k', buf', r) := Except.ok.inj hrecv
      have hsound := ih.recv hbuf
      rw [hres] at hsound
      exact hsound

/-! ### Twins -/

theorem Twin.recvBody {k k' : NetBlock} (h : k.Twin k') (hstate : k.state = .body)
    {b b' : NetBuffer} (hb : b.Alike b') :
    (k.recvBody b).1.Twin (k'.recvBody b').1 ∧ (k.recvBody b).2.1.Alike (k'.recvBody b').2.1 := by
  rcases h.data with ⟨d, d', hd, hd', hvalid, hvalid', hdata, hmax, hlock⟩
  rcases hlock (by simp [hstate]) with ⟨hunlocked, hunlocked'⟩
  have hwrite : d.writePos = d'.writePos := by
    rw [← hvalid.length_data, ← hvalid'.length_data, hdata]
  have hmoved : b.moved d = b'.moved d' := by
    rw [NetBuffer.moved, NetBuffer.moved, hb.unread, hmax, hwrite]
  rcases recvBody_eq hstate (by rw [hd]; rfl) hvalid hunlocked hb.left with
    ⟨e, c, r, hc, hrest, he, hebytes, hemax, helock, hres⟩
  rcases recvBody_eq (h.state ▸ hstate) (by rw [hd']; rfl) hvalid' hunlocked' hb.right with
    ⟨e', c', r', hc', hrest', he', hebytes', hemax', helock', hres'⟩
  have hbytes : e.data = e'.data := by rw [hebytes, hebytes', hdata, hb.unread, hmoved]
  have hmax' : e.maxLen = e'.maxLen := by rw [hemax, hemax', hmax]
  have hfull : e.isFull = e'.isFull := by
    rw [NetBuffer.isFull, NetBuffer.isFull, ← he.length_data, ← he'.length_data, hbytes, hmax']
  have halike : c.Alike c' := hb.compacted hc hc' (by rw [hrest, hrest', hb.unread, hmoved])
  rw [hres, hres', hfull]
  split
  · refine ⟨⟨h.head, rfl, e.setLock, e'.setLock, rfl, rfl, ?_, ?_, hbytes, hmax',
      fun hne => absurd rfl hne⟩, halike⟩
    · exact ⟨he.alloc, he.readPos_le, he.writePos_le⟩
    · exact ⟨he'.alloc, he'.readPos_le, he'.writePos_le⟩
  · exact ⟨⟨h.head, h.state, e, e', rfl, rfl, he, he', hbytes, hmax',
      fun _ => ⟨helock, helock'⟩⟩, halike⟩

theorem Twin.recv {k k' : NetBlock} (h : k.Twin k') (hopen : k.state ≠ .done)
    {b b' : NetBuffer} (hb : b.Alike b') :
    (k.recv b).1.Twin (k'.recv b').1 ∧ (k.recv b).2.1.Alike (k'.recv b').2.1 := by
  by_cases hstate : k.state = .init
  · rw [recv_init hstate, recv_init (h.state ▸ hstate)]
    rcases hb.readData sizeofHead with ⟨hbufs, hread⟩
    by_cases hlen : sizeofHead ≤ b.needReadLength
    · rcases NetBuffer.readData_clearReadBuffer hb.left hlen with ⟨-, -, htake⟩
      rw [htake] at hread
      rw [htake, ← hread]
      rcases h.data with ⟨d, d', hd, hd', hvalid, hvalid', hdata, hmax, hlock⟩
      have hhead : ({ k with head := Head.ofBytes (b.unread.take sizeofHead), state := .body } :
          NetBlock).Twin
          { k' with head := Head.ofBytes (b.unread.take sizeofHead), state := .body } :=
        ⟨rfl, rfl, d, d', hd, hd', hvalid, hvalid', hdata, hmax, fun _ => hlock hopen⟩
      exact hhead.recvBody rfl hbufs
    · have hlen' : b'.needReadLength < sizeofHead := by
        rw [← hb.needReadLength]
        omega
      rw [NetBuffer.readData_of_lt (by omega), NetBuffer.readData_of_lt hlen']
      exact ⟨h, hb⟩
  · have hbody : k.state = .body := by
      cases hk : k.state with
      | init => exact absurd hk hstate
      | body => rfl
      | done => exact absurd hk hopen
    rw [recv_of_ne_init hstate, recv_of_ne_init (h.state ▸ hstate)]
    exact h.recvBody hbody hb

/-- A clone is a twin. -/
theorem twin_clone {k : NetBlock} (hk : k.Sound) {d : NetBuffer} (hd : k.data = some d)
    (s : SessionId) : ∃ k', k.clone s = some k' ∧ k'.session = s ∧ k.Twin k' := by
  rcases NetBuffer.copy_spec (hk d hd).1 with ⟨hvalid, hmax, hlock⟩
  have hclone : k.clone s =
      some { create s 0 with head := k.head, state := k.state, data := some d.copy } := by
    rw [NetBlock.clone, hd, Option.map_some]
  exact ⟨_, hclone, rfl, rfl, rfl, d, d.copy, hd, rfl, (hk d hd).1, hvalid,
    (NetBuffer.data_copy d).symm, hmax.symm,
    fun hopen => ⟨(hk d hd).2 hopen, hlock⟩⟩

theorem Twin.bytes {k k' : NetBlock} (h : k.Twin k') :
    cloneClass.bytes k = cloneClass.bytes k' := by
  rcases h.data with ⟨d, d', hd, hd', -, -, hdata, -⟩
  change k.data.map NetBuffer.data = k'.data.map NetBuffer.data
  rw [hd, hd', Option.map_some, Option.map_some, hdata]

theorem Twin.sameFuture {k k' : NetBlock} (h : k.Twin k') : cloneClass.SameFuture k k' := by
  refine CloneClass.sameFuture_of_sim (fun k k' h => ⟨?_, fun _ => ⟨h.head, h.bytes⟩⟩) ?_ h
  · change (k.state == .done) = (k'.state == .done)
    rw [h.state]
  · intro k k' b b' h hopen hb
    have hne : k.state ≠ .done := by
      intro hdone
      simp [BlockClass.bodyDone, NetBlockBase.bodyDone, cloneClass, blockClass, hdone] at hopen
    exact h.recv hne hb

/-- A block with a buffer is cloned faithfully. -/
theorem faithful_iff {k : NetBlock} (hk : k.Sound) : cloneClass.Faithful k ↔ k.data ≠ none := by
  constructor
  · intro h hnone
    rcases h 0 with ⟨k', hclone, -⟩
    change k.clone 0 = some k' at hclone
    rw [NetBlock.clone, hnone] at hclone
    cases hclone
  · intro hdata s
    rcases Option.ne_none_iff_exists'.mp hdata with ⟨d, hd⟩
    rcases twin_clone hk hd s with ⟨k', hclone, hsession, htwin⟩
    exact ⟨k', hclone, hsession, htwin.state.symm, htwin.bytes.symm, htwin.sameFuture⟩

end NetBlock

/-! ## `RedisBlock2` -/

namespace RedisBlock2

variable [LexicalCast]

/-- Two blocks that differ in their session, and in their buffers behind the bytes written. -/
structure Twin (k k' : RedisBlock2) : Prop where
  parse : k.parse = k'.parse
  state : k.state = k'.state
  bytes : cloneClass.bytes k = cloneClass.bytes k'

/-- Only the parser looks at what is received. -/
theorem Twin.sameFuture {k k' : RedisBlock2} (h : k.Twin k') : cloneClass.SameFuture k k' := by
  refine CloneClass.sameFuture_of_sim (fun k k' h => ⟨?_, fun _ => ⟨?_, h.bytes⟩⟩) ?_ h
  · change (k.state == .done) = (k'.state == .done)
    rw [h.state]
  · change (k.parse.type, k.parse.recvList) = (k'.parse.type, k'.parse.recvList)
    rw [h.parse]
  · intro k k' b b' h _ hb
    change RelOutcome _ (k.recv b) (k'.recv b')
    rw [RedisBlock2.recv, RedisBlock2.recv, ← h.parse, ← hb.unread]
    cases k.parse.parse b.unread 0 with
    | error e => rfl
    | ok x =>
        rw [ok_bind, ok_bind]
        exact ⟨⟨rfl, rfl, h.bytes⟩, (hb.readData x.2.1).1⟩

/-- A block with a buffer is cloned faithfully. -/
theorem faithful_iff (k : RedisBlock2) : cloneClass.Faithful k ↔ k.data ≠ none := by
  constructor
  · intro h hnone
    rcases h 0 with ⟨k', hclone, -⟩
    change k.clone 0 = some k' at hclone
    rw [RedisBlock2.clone, hnone] at hclone
    cases hclone
  · intro hdata s
    rcases Option.ne_none_iff_exists'.mp hdata with ⟨d, hd⟩
    have hclone : k.clone s = some { create s 0 with
        data := some d.copy, state := k.state, parse := k.parse } := by
      rw [RedisBlock2.clone, hd, Option.map_some]
    have hbytes : cloneClass.bytes k = some d.copy.data := by
      change k.data.map NetBuffer.data = _
      rw [hd, Option.map_some, NetBuffer.data_copy]
    exact ⟨_, hclone, rfl, rfl, hbytes.symm, Twin.sameFuture ⟨rfl, rfl, hbytes⟩⟩

end RedisBlock2

end FannyNet

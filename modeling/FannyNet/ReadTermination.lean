import FannyNet.DefaultProtocol
import FannyNet.ReplyStream
import FannyNet.Library.Loop

/-!
# The loops of a read end

The `while` loop of `handleReadSome` and the element loops inside the two `recv` for Redis
replies, as loops that nothing bounds.  The condition `hasWrite()` tests the total length of
the receive buffer; between two calls of `recv` nothing in front of the unread bytes is left
in it, and every call that completes a block has taken bytes out.

Main results:

- Definition `BlockClass.Pending`: the blocks that can wait.
- Theorem `Decodes.progresses`: a class that decodes its stream completes no block without
  taking bytes out of the buffer.
- Theorem `Connection.Settled.of_readMessage`: one round of the loop.
- Theorems `RedisBlock.recvElement_takes` and `RedisParse.parseElement_takes`: one pass of an
  element loop.
-/

namespace FannyNet

open Library

section
variable {β : Type}

/-- The blocks that can wait: a new one, and one that a `recv` leaves waiting, whatever the
buffer held. -/
inductive BlockClass.Pending (K : BlockClass β) : β → Prop where
  | make (s : SessionId) : Pending K (K.make s 0)
  | recv {k k' : β} {buf buf' : NetBuffer} {r : Bool} (hk : Pending K k) (hbuf : buf.Valid)
      (hpos : buf.readPos = 0) (hcall : K.recv k buf = .ok (k', buf', r))
      (hopen : K.bodyDone k' = false) : Pending K k'

/-- A `recv` on a block that can wait compacts the buffer, and takes bytes out of it when it
completes the block. -/
def BlockClass.Progresses (K : BlockClass β) : Prop :=
  ∀ k buf k' buf' r, K.Pending k → buf.Valid → buf.readPos = 0 →
    K.recv k buf = .ok (k', buf', r) →
    buf.Compacted buf' ∧ (K.bodyDone k' = true → buf'.length < buf.length)

/-! ## Classes that decode their stream -/

namespace Decodes

variable {σ μ : Type} {K : BlockClass β} {D : Decoder UInt8 σ μ Exn} (R : Decodes K D)
include R

/-- A `recv` that returns either completes a message, which takes bytes, or waits again. -/
theorem recv_outcome {s : σ} {k k' : β} {buf buf' : NetBuffer} {r : Bool} (hs : R.Waits s k [])
    (hbuf : buf.Valid) (hpos : buf.readPos = 0) (hcall : K.recv k buf = .ok (k', buf', r)) :
    buf.Compacted buf' ∧
      if K.bodyDone k' = true then buf'.length < buf.length
      else ∃ s', R.Waits s' k' buf'.unread := by
  have hstep := R.recv s k [] buf.unread buf hs hbuf hpos (List.nil_append _).symm
  cases hfeed : D.feed s buf.unread with
  | error e =>
      rw [hfeed] at hstep
      have hthrow : K.recv k buf = .error e := hstep
      rw [hcall] at hthrow
      cases hthrow
  | ok x =>
      rw [hfeed] at hstep
      cases x with
      | inl s' =>
          rcases hstep with ⟨k₁, buf₁, r₁, hrecv, hcomp, hopen, hwaits⟩
          rw [hcall] at hrecv
          cases hrecv
          constructor
          · exact hcomp
          · rw [if_neg (by simp [hopen])]
            exact ⟨s', hwaits⟩
      | inr y =>
          rcases y with ⟨m, rest⟩
          rcases hstep with ⟨k₁, buf₁, r₁, hrecv, hcomp, hdone, -, hrest⟩
          rw [hcall] at hrecv
          cases hrecv
          constructor
          · exact hcomp
          · rw [if_pos hdone]
            have hlt := R.lawful.progress s buf.unread m rest (R.waits_open s k [] hs) hfeed
            have hafter := hcomp.writePos_eq
            have hbefore := hbuf.length_unread
            rw [hrest] at hafter
            simp only [NetBuffer.length]
            omega

variable (halone : ∀ s k u, R.Waits s k u → ∃ s', R.Waits s' k [])
include halone

/-- Without the bytes it left behind, a block that can wait does so in some state. -/
theorem waits_of_pending {k : β} (hk : K.Pending k) : ∃ s, R.Waits s k [] := by
  induction hk with
  | make s => exact ⟨D.init, R.make_waits s⟩
  | recv _ hbuf hpos hcall hopen ih =>
      rcases ih with ⟨s, hs⟩
      have hout := (R.recv_outcome hs hbuf hpos hcall).2
      rw [if_neg (by simp [hopen])] at hout
      rcases hout with ⟨s', hs'⟩
      exact halone s' _ _ hs'

theorem progresses : K.Progresses := by
  intro k buf k' buf' r hk hbuf hpos hcall
  rcases R.waits_of_pending halone hk with ⟨s, hs⟩
  rcases R.recv_outcome hs hbuf hpos hcall with ⟨hcomp, hout⟩
  constructor
  · exact hcomp
  · intro hdone
    rw [if_pos hdone] at hout
    exact hout

end Decodes

/-! ## The three classes -/

theorem NetBlock.progresses : NetBlock.blockClass.Progresses := by
  apply NetBlock.decodes.progresses
  intro v k u hk
  cases hk with
  | head _ hstate hdata _ => exact ⟨[], .head (by decide) hstate hdata rfl⟩
  | body hlen hopen hrecv hdata _ => exact ⟨v, .body hlen hopen hrecv hdata rfl⟩

/-- A block keeps all it has been given, so nothing is left behind. -/
theorem RedisBlock.waits_alone [LexicalCast] (a : Reader) (k : RedisBlock) (u : Bytes)
    (h : RedisBlock.readsReplies.decodes.Waits a k u) :
    ∃ a', RedisBlock.readsReplies.decodes.Waits a' k [] := by
  rcases h with ⟨hwaits, hreader, hopen⟩
  have hdone : k.bodyDone = false := by
    rw [← RedisBlock.isDone_reader k u]
    have hreader' : k.reader u = a := hreader
    rw [hreader', hopen.isDone_eq]
  have hu : u = [] := hwaits.2 hdone
  rw [hu] at hreader hwaits
  exact ⟨a, hwaits, hreader, hopen⟩

theorem RedisBlock.progresses [LexicalCast] : RedisBlock.blockClass.Progresses :=
  RedisBlock.readsReplies.decodes.progresses RedisBlock.waits_alone

/-- An unfinished line that is left in the buffer is no part of the parser. -/
theorem RedisParse.waits_alone {p : RedisParse} {u : Bytes} (h : p.Waits u) : p.Waits [] := by
  cases h with
  | done hdone htemp => exact .done hdone htemp
  | line hdone htype htemp hlist _ => exact .line hdone htype htemp hlist List.not_mem_nil
  | body hdone htype hlist _ htemp hlen => exact .body hdone htype hlist rfl htemp hlen
  | elements hdone htype _ => exact .elements hdone htype List.not_mem_nil

theorem RedisBlock2.progresses [LexicalCast] : RedisBlock2.blockClass.Progresses := by
  apply RedisBlock2.readsReplies.decodes.progresses
  rintro a k u ⟨hwaits, hreader, hopen⟩
  refine ⟨k.parse.reader [], ⟨RedisParse.waits_alone hwaits.1, hwaits.2⟩, rfl, ?_⟩
  have hreader' : k.parse.reader u = a := hreader
  rw [← hreader'] at hopen
  cases hwaits.1 with
  | done hdone _ =>
      have hisDone := hopen.isDone_eq
      rw [RedisParse.isDone_reader, hdone] at hisDone
      cases hisDone
  | line hdone htype => simp [Reader.Open, RedisParse.reader, RedisParse.phase, hdone, htype]
  | body _ _ _ hu =>
      rw [hu] at hopen
      exact hopen
  | elements hdone htype => simp [Reader.Open, RedisParse.reader, RedisParse.phase, hdone, htype]

/-! ## The loop over one read -/

namespace Connection

/-- A connection between two calls of `recv`: anything may be in the receive buffer, from its
start on, and the block that waits, if there is one, is any block that can. -/
structure Settled (K : BlockClass β) (conn : Connection β) : Prop where
  valid : conn.bufferRecv.Valid
  readPos : conn.bufferRecv.readPos = 0
  waiting : conn.Waiting K.Pending

/-- One pass of the loop of `handleReadSome`, with the blocks posted so far. -/
def readPass (K : BlockClass β) (x : Connection β × List β) :
    Loop.Pass (Connection β × List β) (Except Fault (Connection β × List β)) :=
  if !x.1.bufferRecv.hasWrite then .leave (.ok x)
  else
    match readMessage K x.1 with
    | .error e => .leave (.error (.thrown e))
    | .ok (conn, none) => .leave (.ok (conn, x.2))
    | .ok (conn, some p) => .again (conn, x.2 ++ [p])

/-- What a handler leaves: such a connection again, or an exception on its way out. -/
def Leaves {α : Type} (K : BlockClass β) : Except Fault (Connection β × α) → Prop
  | .ok (conn, _) => conn.Settled K
  | .error f => ∃ e, f = .thrown e

variable {K : BlockClass β}

theorem settled_create (s : SessionId) (size : Nat) : (create s size : Connection β).Settled K where
  valid := NetBuffer.valid_create size
  readPos := rfl
  waiting := by
    intro k hk
    cases hk

namespace Settled

variable {conn : Connection β}

theorem received (h : conn.Settled K) (bytes : Bytes) : (conn.received bytes).Settled K where
  valid := NetBuffer.valid_writeBytes h.valid bytes
  readPos := (NetBuffer.readPos_writeBytes _ _).trans h.readPos
  waiting := h.waiting

variable (hK : K.Progresses)
include hK

/-- One round: a block that is posted has taken bytes out of the buffer. -/
theorem of_readMessage {conn' : Connection β} {out : Option β} (h : conn.Settled K)
    (hread : readMessage K conn = .ok (conn', out)) :
    conn'.Settled K ∧ (out ≠ none → conn'.bufferRecv.length < conn.bufferRecv.length) := by
  have hpending := h.waiting.getD (K := K) .make
  unfold readMessage at hread
  rcases exists_of_bind hread with ⟨⟨k, buf, r⟩, hrecv, hrest⟩
  rcases hK _ _ _ _ _ hpending h.valid h.readPos hrecv with ⟨hcomp, hprogress⟩
  dsimp only at hrest
  split at hrest
  · rename_i hdone
    cases hrest
    refine ⟨⟨hcomp.valid, hcomp.readPos, ?_⟩, fun _ => hprogress hdone⟩
    intro k' hk'
    cases hk'
  · rename_i hdone
    cases hrest
    refine ⟨⟨hcomp.valid, hcomp.readPos, ?_⟩, fun hout => absurd rfl hout⟩
    intro k' hk'
    cases hk'
    exact .recv hpending h.valid h.readPos hrecv (by simpa using hdone)

/-- A pass that goes on. -/
theorem of_again {x y : Connection β × List β} (h : x.1.Settled K)
    (hpass : readPass K x = .again y) :
    y.1.Settled K ∧ y.1.bufferRecv.length < x.1.bufferRecv.length := by
  unfold readPass at hpass
  split at hpass
  · cases hpass
  · split at hpass
    · cases hpass
    · cases hpass
    · rename_i conn' p hread
      cases hpass
      rcases h.of_readMessage hK hread with ⟨hsettled, hlt⟩
      exact ⟨hsettled, hlt (by simp)⟩

/-- A pass that leaves the loop, never for want of fuel. -/
theorem of_leave {x : Connection β × List β} (h : x.1.Settled K)
    {r : Except Fault (Connection β × List β)} (hpass : readPass K x = .leave r) :
    Leaves K r := by
  unfold readPass at hpass
  split at hpass
  · cases hpass
    exact h
  · split at hpass
    · rename_i e _
      cases hpass
      exact ⟨e, rfl⟩
    · rename_i conn' hread
      cases hpass
      exact (h.of_readMessage hK hread).1
    · cases hpass

end Settled

/-- `readLoop` computes the loop. -/
theorem computes_readLoop (K : BlockClass β) :
    Loop.Computes (readPass K) fun n x =>
      (readLoop K n x.1).map fun y => (y.1, x.2 ++ y.2) := by
  intro n x
  unfold readPass
  beta_reduce
  by_cases hwrite : x.1.bufferRecv.hasWrite = true
  · rw [Decodes.readLoop_succ hwrite]
    simp only [hwrite, Bool.not_true, Bool.false_eq_true, if_false]
    cases hread : readMessage K x.1 with
    | error e => rfl
    | ok y =>
        rcases y with ⟨conn, _ | p⟩
        · simp only [Except.map, List.append_nil]
        · dsimp only
          cases readLoop K n conn with
          | error f => rfl
          | ok z => simp only [Except.map, List.append_assoc, List.cons_append, List.nil_append]
  · rw [Decodes.readLoop_empty hwrite]
    rw [Bool.not_eq_true] at hwrite
    simp only [hwrite, Bool.not_false, if_true, Except.map, List.append_nil]

/-- What the loop of `handleReadSome` does on every connection between two calls of `recv`. -/
structure ReadLoopEnds (K : BlockClass β) : Prop where
  created : ∀ s size, (create s size : Connection β).Settled K
  /-- The loop, which nothing bounds, ends, and `readLoop` is its result. -/
  ends : ∀ conn : Connection β, conn.Settled K →
    Loop.Ends (readPass K) (conn, []) (readLoop K (conn.bufferRecv.length + 1) conn)
  /-- Each posted block has removed bytes. -/
  shrinks : ∀ conn : Connection β, conn.Settled K →
    Loop.Shrinks (readPass K) (fun x => x.1.bufferRecv.length) (conn, [])
  /-- Whenever the condition of the loop is evaluated. -/
  hasWrite_iff : ∀ (conn : Connection β) x, conn.Settled K →
    Loop.Reaches (readPass K) (conn, []) x →
    (x.1.bufferRecv.hasWrite = true ↔ x.1.bufferRecv.unread ≠ [])
  handled : ∀ (conn : Connection β) error bytes, conn.Settled K →
    Leaves K (handleReadSome K conn error bytes)

variable (hK : K.Progresses)
include hK

theorem Settled.shrinks {conn : Connection β} (h : conn.Settled K) :
    Loop.Shrinks (readPass K) (fun x => x.1.bufferRecv.length) (conn, []) := by
  have hstep : ∀ x y : Connection β × List β, x.1.Settled K → readPass K x = .again y →
      y.1.Settled K ∧ y.1.bufferRecv.length < x.1.bufferRecv.length :=
    fun _ _ hx hpass => hx.of_again hK hpass
  exact Loop.shrinks_of_step (s := (conn, [])) hstep h

theorem Settled.ends {conn : Connection β} (h : conn.Settled K) :
    Loop.Ends (readPass K) (conn, []) (readLoop K (conn.bufferRecv.length + 1) conn) := by
  have hends := Loop.ends_of_shrinks (computes_readLoop K) (h.shrinks hK)
    (Nat.lt_succ_self conn.bufferRecv.length)
  have hmap : ∀ r : Except Fault (Connection β × List β),
      (r.map fun y => (y.1, ([] : List β) ++ y.2)) = r := by
    intro r
    cases r <;> rfl
  rw [hmap] at hends
  exact hends

/-- Every pass begins between two calls of `recv`. -/
theorem Settled.of_reaches {conn : Connection β} (h : conn.Settled K)
    {x : Connection β × List β} (hreach : Loop.Reaches (readPass K) (conn, []) x) :
    x.1.Settled K := by
  have hstep : ∀ x y : Connection β × List β, x.1.Settled K → readPass K x = .again y →
      y.1.Settled K :=
    fun _ _ hx hpass => (hx.of_again hK hpass).1
  exact hreach.invariant hstep h

/-- What the loop leaves. -/
theorem Settled.of_readLoop {conn : Connection β} (h : conn.Settled K) :
    Leaves K (readLoop K (conn.bufferRecv.length + 1) conn) := by
  rcases (h.ends hK).exists_leave with ⟨x, hreach, hleave⟩
  exact (h.of_reaches hK hreach).of_leave hK hleave

theorem Settled.of_handleReadSome {conn : Connection β} (h : conn.Settled K) (error : NetErrorType)
    (bytes : Bytes) : Leaves K (handleReadSome K conn error bytes) := by
  unfold handleReadSome
  by_cases hconn : conn.connected = true
  · cases error with
    | true =>
        simp only [hconn, Bool.not_true, Bool.false_eq_true, if_false, if_true]
        exact h
    | false =>
        have hloop := (h.received bytes).of_readLoop hK
        simp only [hconn, Bool.not_true, Bool.false_eq_true, if_false]
        cases hres : readLoop K _ _ with
        | error f =>
            rw [hres] at hloop
            exact hloop
        | ok x =>
            rw [hres] at hloop
            exact hloop
  · simp only [hconn, Bool.not_false, if_true]
    exact h

theorem readLoopEnds : ReadLoopEnds K where
  created := settled_create
  ends _ h := h.ends hK
  shrinks _ h := h.shrinks hK
  hasWrite_iff conn x h hreach := by
    have hsettled := h.of_reaches hK hreach
    exact hsettled.valid.hasWrite_iff hsettled.readPos
  handled _ error bytes h := h.of_handleReadSome hK error bytes

end Connection

end

/-! ## The element loops -/

section
variable [LexicalCast]

namespace RedisBlock

/-- A pass of the element loop compacts the buffer, and takes bytes out of it when it reads an
element. -/
theorem recvElement_takes {k k' : RedisBlock} {buf buf' : NetBuffer} {out : Option Bool}
    (hbuf : buf.Valid) (h : k.recvElement buf = .ok (k', buf', out)) :
    buf.Compacted buf' ∧ (out ≠ some false → buf'.needReadLength < buf.needReadLength) := by
  rcases k.readline_spec hbuf with ⟨buf₁, hcomp₁, hline⟩
  unfold recvElement at h
  cases hsplit : Lines.splitAfter LF buf.unread with
  | none =>
      simp only [hsplit] at hline
      rw [hline.1] at h
      cases h
      exact ⟨hcomp₁, fun hout => absurd rfl hout⟩
  | some lr =>
      rcases lr with ⟨l, r⟩
      simp only [hsplit] at hline
      rcases hline with ⟨hcall, hrest⟩
      have hlt : buf₁.needReadLength < buf.needReadLength := by
        rw [hcomp₁.valid.needReadLength_eq, hbuf.needReadLength_eq, hrest]
        exact Lines.splitAfter_length_lt hsplit
      rw [hcall] at h
      rcases exists_of_bind h with ⟨ssub, -, h⟩
      rcases exists_of_bind h with ⟨n, -, h⟩
      dsimp only at h
      split at h
      · split at h
        · rcases exists_of_bind h with ⟨k₂, -, h⟩
          cases h
          exact ⟨hcomp₁, fun _ => hlt⟩
        · cases h
          exact ⟨hcomp₁, fun _ => hlt⟩
      · rcases readLen_refines { k with
            temp := [], state := .body, bufSize := toSize (toSize n + 2) } hcomp₁.valid
          (Nat.zero_le (toSize (toSize n + 2))) (toSize_lt _) with ⟨buf₂, hcomp₂, hread⟩
        have hle : buf₂.needReadLength ≤ buf₁.needReadLength := by
          have hpos := hcomp₂.writePos_le
          simp only [NetBuffer.needReadLength, hcomp₁.readPos, hcomp₂.readPos]
          omega
        rcases hread with ⟨hpart, -⟩ | ⟨content, hall, -⟩
        · rw [hpart] at h
          cases h
          exact ⟨hcomp₁.trans hcomp₂, fun hout => absurd rfl hout⟩
        · rw [hall] at h
          rcases exists_of_bind h with ⟨body, -, h⟩
          split at h
          · rcases exists_of_bind h with ⟨k₃, -, h⟩
            cases h
            exact ⟨hcomp₁.trans hcomp₂, fun _ => hle.trans_lt hlt⟩
          · cases h
            exact ⟨hcomp₁.trans hcomp₂, fun _ => hle.trans_lt hlt⟩

/-- One pass of the element loop of `recv`. -/
def elementPass (x : RedisBlock × NetBuffer) :
    Loop.Pass (RedisBlock × NetBuffer) (Except Exn (RedisBlock × NetBuffer × Bool)) :=
  match x.1.recvElement x.2 with
  | .error e => .leave (.error e)
  | .ok (k, buf, some r) => .leave (.ok (k, buf, r))
  | .ok (k, buf, none) => .again (k, buf)

theorem computes_recvElements :
    Loop.Computes elementPass fun n x => recvElements n x.1 x.2 := by
  intro n x
  simp only [recvElements, elementPass]
  cases x.1.recvElement x.2 with
  | error e => rfl
  | ok y => rcases y with ⟨k, buf, _ | r⟩ <;> rfl

theorem elementPass_again {x y : RedisBlock × NetBuffer} (hx : x.2.Valid)
    (h : elementPass x = .again y) :
    y.2.Valid ∧ y.2.needReadLength < x.2.needReadLength := by
  unfold elementPass at h
  split at h
  · cases h
  · cases h
  · rename_i k buf hcall
    cases h
    rcases recvElement_takes hx hcall with ⟨hcomp, hlt⟩
    exact ⟨hcomp.valid, hlt (by simp)⟩

/-- The element loop ends, and each pass that reads an element has removed bytes. -/
structure ElementsEnd (k : RedisBlock) (buf : NetBuffer) : Prop where
  ends : Loop.Ends elementPass (k, buf) (recvElements (buf.needReadLength + 1) k buf)
  takes : ∀ x k' buf' out, Loop.Reaches elementPass (k, buf) x →
    x.1.recvElement x.2 = .ok (k', buf', out) → out ≠ some false →
    buf'.needReadLength < x.2.needReadLength

theorem elementsEnd (k : RedisBlock) {buf : NetBuffer} (hbuf : buf.Valid) : k.ElementsEnd buf := by
  have hshrinks : Loop.Shrinks elementPass (fun x => x.2.needReadLength) (k, buf) :=
    Loop.shrinks_of_step (I := fun x => x.2.Valid) (fun _ _ => elementPass_again) hbuf
  constructor
  · exact Loop.ends_of_shrinks computes_recvElements hshrinks (Nat.lt_succ_self _)
  · intro x k' buf' out hreach hcall hout
    have hx : x.2.Valid :=
      hreach.invariant (I := fun x => x.2.Valid) (fun _ _ hx h => (elementPass_again hx h).1) hbuf
    exact (recvElement_takes hx hcall).2 hout

end RedisBlock

namespace RedisParse

/-- A pass of the element loop stays inside the bytes it was given, and moves the read position
when it reads an element. -/
theorem parseElement_takes {p p' : RedisParse} {buf : Bytes} {readPos pos : Nat} {r : Bool}
    (hpos : readPos ≤ buf.length) (h : p.parseElement buf readPos = .ok (p', pos, r)) :
    pos ≤ buf.length ∧ (r = true → readPos < pos) := by
  have helem := p.parseElement_refines hpos
  rw [h] at helem
  cases r with
  | false => exact ⟨helem.2.2.2.1, fun hr => by cases hr⟩
  | true =>
      rcases helem with ⟨v, -, -, -, -, hlt, hle⟩
      exact ⟨hle, fun _ => hlt⟩

/-- One pass of the element loop of `parseBule`. -/
def elementPass (buf : Bytes) (x : RedisParse × Nat) :
    Loop.Pass (RedisParse × Nat) (Except Exn (RedisParse × Nat × Bool)) :=
  match x.1.parseElement buf x.2 with
  | .error e => .leave (.error e)
  | .ok (p, readPos, false) => .leave (.ok (p, readPos, false))
  | .ok (p, readPos, true) =>
      if p.multiCount = p.recvList.length then .leave (.ok ({ p with done := true }, readPos, true))
      else .again (p, readPos)

theorem computes_parseElements (buf : Bytes) :
    Loop.Computes (elementPass buf) fun n x => parseElements n x.1 buf x.2 := by
  intro n x
  simp only [parseElements, elementPass]
  cases x.1.parseElement buf x.2 with
  | error e => rfl
  | ok y =>
      rcases y with ⟨p, pos, _ | _⟩
      · rfl
      · simp only [ok_bind, Bool.not_true, Bool.false_eq_true, if_false]
        split
        · rfl
        · rfl

theorem elementPass_again {buf : Bytes} {x y : RedisParse × Nat} (hx : x.2 ≤ buf.length)
    (h : elementPass buf x = .again y) :
    y.2 ≤ buf.length ∧ buf.length - y.2 < buf.length - x.2 := by
  unfold elementPass at h
  split at h
  · cases h
  · cases h
  · rename_i p pos hcall
    rcases parseElement_takes hx hcall with ⟨hle, hlt⟩
    split at h
    · cases h
    · cases h
      have hmoved := hlt rfl
      dsimp only
      omega

/-- The element loop ends, and each pass that reads an element has moved the read position. -/
structure ElementsEnd (p : RedisParse) (buf : Bytes) (readPos : Nat) : Prop where
  ends : Loop.Ends (elementPass buf) (p, readPos)
    (parseElements (buf.length - readPos + 1) p buf readPos)
  takes : ∀ x p' pos, Loop.Reaches (elementPass buf) (p, readPos) x →
    x.1.parseElement buf x.2 = .ok (p', pos, true) → x.2 < pos ∧ pos ≤ buf.length

theorem elementsEnd (p : RedisParse) {buf : Bytes} {readPos : Nat} (hpos : readPos ≤ buf.length) :
    p.ElementsEnd buf readPos := by
  have hshrinks : Loop.Shrinks (elementPass buf) (fun x => buf.length - x.2) (p, readPos) :=
    Loop.shrinks_of_step (I := fun x => x.2 ≤ buf.length) (fun _ _ => elementPass_again) hpos
  constructor
  · exact Loop.ends_of_shrinks (computes_parseElements buf) hshrinks (Nat.lt_succ_self _)
  · intro x p' pos hreach hcall
    have hx : x.2 ≤ buf.length :=
      hreach.invariant (I := fun x => x.2 ≤ buf.length)
        (fun _ _ hx h => (elementPass_again hx h).1) hpos
    rcases parseElement_takes hx hcall with ⟨hle, hlt⟩
    exact ⟨hlt rfl, hle⟩

end RedisParse

end

/-! ## Termination -/

/-- The read loop terminates, on every receive buffer and every block that can wait, for each of
the three classes, and so do the element loops of the two classes for Redis replies. -/
theorem reading_terminates [LexicalCast] :
    (Connection.ReadLoopEnds NetBlock.blockClass ∧ Connection.ReadLoopEnds RedisBlock.blockClass ∧
      Connection.ReadLoopEnds RedisBlock2.blockClass) ∧
    (∀ (k : RedisBlock) (buf : NetBuffer), buf.Valid → k.ElementsEnd buf) ∧
    ∀ (p : RedisParse) (buf : Bytes) (readPos : Nat), readPos ≤ buf.length →
      p.ElementsEnd buf readPos := by
  refine ⟨⟨?_, ?_, ?_⟩, ?_, ?_⟩
  · exact Connection.readLoopEnds NetBlock.progresses
  · exact Connection.readLoopEnds RedisBlock.progresses
  · exact Connection.readLoopEnds RedisBlock2.progresses
  · intro k buf hbuf
    exact k.elementsEnd hbuf
  · intro p buf readPos hpos
    exact p.elementsEnd hpos

theorem reading_terminates_nil_array :
    ∃ conn block, Loop.Ends (Connection.readPass RedisBlock2.blockClass)
      ((Connection.create 7 64).received (text "*1\r\n$-1\r\n"), []) (.ok (conn, [block])) :=
  ⟨_, _, reading_terminates.1.2.2.ends _ ((Connection.settled_create 7 64).received _)⟩

end FannyNet

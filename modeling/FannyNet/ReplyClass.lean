import FannyNet.Library.Incremental
import FannyNet.RedisBlockRefinement

/-!
# Message classes that read replies

What a connection needs to know about `RedisBlock` and `RedisBlock2`: each block
stands for a reader, and each `recv` is one feeding step of it.  Results about
either class are proved from this interface once.

Main results:

- Structure `ReadsReplies`: a message class together with the reader its blocks
  stand for.
- Definitions `RedisBlock.readsReplies` and `RedisBlock2.readsReplies`: the two
  classes.
- Theorems `ReadsReplies.recv_make_of_feed` and `ReadsReplies.feed_of_recv_make`: a
  reply that is complete in one buffer.
- Theorem `ReadsReplies.receiveAll_rel`: a block that is fed piece by piece through
  a large enough buffer behaves like its reader.
-/

namespace FannyNet

open Library Library.Incremental

section
variable [LexicalCast]

/-- A `recv` on `buf` that corresponds to the reader outcome `out`. -/
def Receives {β : Type} (reader : β → Bytes → Reader) (Waits : β → Bytes → Prop)
    (buf : NetBuffer) (out : Except Exn Reader) (res : Except Exn (β × NetBuffer × Bool)) : Prop :=
  match res with
  | .error e => out = .error e
  | .ok (k, buf', _) =>
      out = .ok (reader k buf'.unread) ∧ buf.Compacted buf' ∧ Waits k buf'.unread

/-- A message class whose blocks, together with the bytes left in the buffer, stand
for readers. -/
structure ReadsReplies {β : Type} (K : BlockClass β) (cfg : ReaderConfig) where
  type : β → ReplyT
  recvList : β → List Bytes
  reader : β → Bytes → Reader
  /-- The state of a block between two calls, with the bytes left in the buffer. -/
  Waits : β → Bytes → Prop
  make_reader : ∀ s size, reader (K.make s size) [] = Reader.fresh
  make_waits : ∀ s size, Waits (K.make s size) []
  reader_held : ∀ k u, u <:+ (reader k u).held
  /-- What is left in the buffer may as well be read again with what follows. -/
  feed_unread : ∀ k u c, Waits k u → K.bodyDone k = false →
    (reader k u).feed cfg c = (reader k []).feed cfg (u ++ c)
  isDone_reader : ∀ k u, Waits k u → (reader k u).isDone = K.bodyDone k
  reader_done : ∀ k u, Waits k u → K.bodyDone k = true →
    reader k u = ⟨.done (type k), u, recvList k⟩
  recv_refines : ∀ k u c (buf : NetBuffer), Waits k u → K.bodyDone k = false → buf.Valid →
    buf.unread = u ++ c → Receives reader Waits buf ((reader k u).feed cfg c) (K.recv k buf)

/-! ## The two classes -/

/-- `RedisBlock` holds everything itself. -/
def RedisBlock.readsReplies : ReadsReplies RedisBlock.blockClass RedisBlock.readerConfig where
  type := RedisBlock.type
  recvList := RedisBlock.recvList
  reader := RedisBlock.reader
  Waits k u := k.Waits ∧ (k.bodyDone = false → u = [])
  make_reader := RedisBlock.reader_create
  make_waits s size := ⟨RedisBlock.waits_create s size, fun _ => rfl⟩
  reader_held k u := List.suffix_append k.temp u
  feed_unread k u c hwaits hdone := by
    have hu : u = [] := hwaits.2 hdone
    rw [hu, List.nil_append]
  isDone_reader k u _ := RedisBlock.isDone_reader k u
  reader_done k u hwaits hdone := RedisBlock.reader_of_done hwaits.1 hdone u
  recv_refines k u c buf hwaits hdone hbuf hunread := by
    have hu : u = [] := hwaits.2 hdone
    have hc : buf.unread = c := by rw [hunread, hu, List.nil_append]
    have hrecv := RedisBlock.recv_refines hwaits.1 hdone hbuf
    rw [hu, ← hc]
    change RedisBlock.Returns buf _ (k.recv buf) at hrecv
    change Receives _ _ buf _ (k.recv buf)
    cases hres : k.recv buf with
    | error e =>
        rw [hres] at hrecv
        exact hrecv
    | ok x =>
        rw [hres] at hrecv
        exact ⟨hrecv.1, hrecv.2.1, hrecv.2.2.1, hrecv.2.2.2⟩

/-- `RedisBlock2` leaves an unfinished line in the buffer. -/
def RedisBlock2.readsReplies :
    ReadsReplies RedisBlock2.blockClass RedisParse.readerConfig where
  type k := k.parse.type
  recvList k := k.parse.recvList
  reader k u := k.parse.reader u
  Waits k u := k.parse.Waits u ∧ k.bodyDone = k.parse.done
  make_reader _ _ := rfl
  make_waits _ _ := ⟨RedisParse.waits_fresh, rfl⟩
  reader_held k u := List.suffix_append k.parse.temp u
  feed_unread k u c hwaits hdone := RedisParse.feed_unread hwaits.1 (hwaits.2.symm.trans hdone) c
  isDone_reader k u hwaits := (RedisParse.isDone_reader k.parse u).trans hwaits.2.symm
  reader_done k u hwaits hdone := by
    have hp : k.parse.done = true := hwaits.2.symm.trans hdone
    exact RedisParse.reader_of_done hwaits.1 hp
  recv_refines k u c buf hwaits hdone hbuf hunread := by
    have hparse := RedisParse.parse_refines hwaits.1 (hwaits.2.symm.trans hdone) c
    change Receives _ _ buf _ (k.recv buf)
    unfold RedisBlock2.recv
    rw [hunread]
    cases hres : k.parse.parse (u ++ c) 0 with
    | error e =>
        rw [hres] at hparse
        exact hparse
    | ok x =>
        rcases x with ⟨p, pos, r⟩
        rw [hres] at hparse
        rcases hparse with ⟨hfeed, hpos, hwaits'⟩
        have hneed : pos ≤ buf.needReadLength := by
          rw [hbuf.needReadLength_eq, hunread]
          exact hpos
        rcases NetBuffer.readData_clearReadBuffer hbuf hneed with ⟨hcomp, hrest, -⟩
        rw [hunread] at hrest
        simp only [ok_bind, Receives, hrest]
        refine ⟨hfeed, hcomp, hwaits', ?_⟩
        unfold RedisParse.isDone NetBlockBase.bodyDone
        cases p.done <;> rfl

/-! ## Feeding a block through a buffer -/

/-- One more piece of the stream is appended to the buffer, and `recv` called. -/
def receive {β : Type} (K : BlockClass β) (x : β × NetBuffer) (c : Bytes) :
    Except Exn (β × NetBuffer) := do
  let (k, buf, _) ← K.recv x.1 (x.2.writeBytes c)
  .ok (k, buf)

/-- A new block and a new buffer. -/
def start {β : Type} (K : BlockClass β) (s : SessionId) (size cap : Nat) : β × NetBuffer :=
  (K.make s size, NetBuffer.create cap)

namespace ReadsReplies

variable {β : Type} {K : BlockClass β} {cfg : ReaderConfig} (R : ReadsReplies K cfg)

/-- A new block completes a reply in one `recv` when its reader does. -/
theorem recv_make_of_feed {buf : NetBuffer} (hbuf : buf.Valid) {t : ReplyT} {rest : Bytes}
    {items : List Bytes} (h : Reader.fresh.feed cfg buf.unread = .ok ⟨.done t, rest, items⟩)
    (s : SessionId) (size : Nat) :
    ∃ k buf' r, K.recv (K.make s size) buf = .ok (k, buf', r) ∧ K.bodyDone k = true ∧
      buf'.unread = rest ∧ R.type k = t ∧ R.recvList k = items := by
  have hopen : K.bodyDone (K.make s size) = false := by
    rw [← R.isDone_reader _ _ (R.make_waits s size), R.make_reader]
    rfl
  have hrecv := R.recv_refines _ [] buf.unread buf (R.make_waits s size) hopen hbuf rfl
  rw [R.make_reader, h] at hrecv
  cases hres : K.recv (K.make s size) buf with
  | error e =>
      rw [hres] at hrecv
      cases hrecv
  | ok x =>
      rcases x with ⟨k, buf', r⟩
      rw [hres] at hrecv
      rcases hrecv with ⟨hfeed, -, hwaits⟩
      have hdone : K.bodyDone k = true := by
        rw [← R.isDone_reader _ _ hwaits, ← Except.ok.inj hfeed]
        rfl
      rw [R.reader_done _ _ hwaits hdone] at hfeed
      simp only [Except.ok.injEq, Reader.mk.injEq, Phase.done.injEq] at hfeed
      exact ⟨k, buf', r, rfl, hdone, hfeed.2.1.symm, hfeed.1.symm, hfeed.2.2.symm⟩

/-- A new block that completes a reply in one `recv` reads what its reader reads. -/
theorem feed_of_recv_make {buf buf' : NetBuffer} (hbuf : buf.Valid) {s : SessionId} {size : Nat}
    {k : β} {r : Bool} (h : K.recv (K.make s size) buf = .ok (k, buf', r))
    (hdone : K.bodyDone k = true) :
    Reader.fresh.feed cfg buf.unread = .ok ⟨.done (R.type k), buf'.unread, R.recvList k⟩ := by
  have hopen : K.bodyDone (K.make s size) = false := by
    rw [← R.isDone_reader _ _ (R.make_waits s size), R.make_reader]
    rfl
  have hrecv := R.recv_refines _ [] buf.unread buf (R.make_waits s size) hopen hbuf rfl
  rw [R.make_reader, h] at hrecv
  rcases hrecv with ⟨hfeed, -, hwaits⟩
  rw [hfeed, R.reader_done _ _ hwaits hdone]

/-- A block with its buffer, after the bytes `u`, stands for the reader `a`. -/
structure Follows (cap : Nat) (u : Bytes) (x : β × NetBuffer) (a : Reader) : Prop where
  reader_eq : R.reader x.1 x.2.unread = a
  waits : R.Waits x.1 x.2.unread
  valid : x.2.Valid
  maxLen : x.2.maxLen = cap
  writePos_le : x.2.writePos ≤ u.length

theorem follows_start (s : SessionId) (size cap : Nat) :
    R.Follows cap [] (start K s size cap) Reader.fresh where
  reader_eq := by
    simp only [start, NetBuffer.unread_create]
    exact R.make_reader s size
  waits := by
    simp only [start, NetBuffer.unread_create]
    exact R.make_waits s size
  valid := NetBuffer.valid_create cap
  maxLen := rfl
  writePos_le := le_rfl

theorem Follows.bodyDone_eq {cap : Nat} {u : Bytes} {x : β × NetBuffer} {a : Reader}
    (h : R.Follows cap u x a) : K.bodyDone x.1 = a.isDone := by
  rw [← h.reader_eq, R.isDone_reader _ _ h.waits]

/-- One piece, as long as the buffer can hold the whole stream. -/
theorem receive_follows {cap : Nat} {w u c : Bytes} (hcap : w.length ≤ cap)
    {x : β × NetBuffer} {a : Reader} (h : R.Follows cap u x a) (hopen : a.isDone = false)
    (hw : u ++ c <+: w) :
    RelOutcome (R.Follows cap (u ++ c)) (receive K x c) (a.feed cfg c) := by
  have hroom : x.2.writePos + c.length ≤ x.2.maxLen := by
    have hlen := hw.length_le
    have hpos := h.writePos_le
    rw [List.length_append] at hlen
    rw [h.maxLen]
    omega
  have hunread := NetBuffer.unread_writeBytes h.valid hroom
  have hrecv := R.recv_refines x.1 x.2.unread c (x.2.writeBytes c) h.waits
    (by rw [h.bodyDone_eq, hopen]) (NetBuffer.valid_writeBytes h.valid c) hunread
  rw [h.reader_eq] at hrecv
  unfold receive
  cases hres : K.recv x.1 (x.2.writeBytes c) with
  | error e =>
      rw [hres] at hrecv
      rw [show a.feed cfg c = .error e from hrecv]
      rfl
  | ok y =>
      rcases y with ⟨k, buf, r⟩
      rw [hres] at hrecv
      rcases hrecv with ⟨hfeed, hcomp, hwaits⟩
      rw [hfeed]
      refine ⟨rfl, hwaits, hcomp.valid, ?_, ?_⟩
      · rw [hcomp.maxLen, NetBuffer.maxLen_writeBytes, h.maxLen]
      · have hpos := h.writePos_le
        have hle := hcomp.writePos_le
        rw [NetBuffer.writePos_writeBytes hroom] at hle
        rw [List.length_append]
        exact hle.trans (Nat.add_le_add_right hpos c.length)

/-- A run over the pieces of `w` follows the reader's, until the reply is complete. -/
theorem receiveAll_rel {cap : Nat} {cs : List Bytes} (hcap : cs.flatten.length ≤ cap)
    (hcs : ∀ c ∈ cs, c ≠ []) (s : SessionId) (size : Nat)
    (hopen : ∀ pre c post a, cs = pre ++ c :: post →
      feedAll (Reader.feed cfg) Reader.fresh pre = .ok a → a.isDone = false) :
    RelOutcome (R.Follows cap cs.flatten) (feedAll (receive K) (start K s size cap) cs)
      (feedAll (Reader.feed cfg) Reader.fresh cs) := by
  have hrel : RelOutcome (R.Follows cap ([] ++ cs.flatten))
      (feedAll (receive K) (start K s size cap) cs)
      (feedAll (Reader.feed cfg) Reader.fresh cs) := by
    refine feedAll_rel (R := R.Follows cap) (w := cs.flatten) ?_ (R.follows_start s size cap)
      (by simp) hcs hopen
    intro u c x a h ha hw _
    exact R.receive_follows hcap h ha hw
  exact hrel

end ReadsReplies

end

end FannyNet

import FannyNet.Clone
import FannyNet.Layout
import FannyNet.Lengths

/-!
# Clones of `RedisBlock`

`clone` leaves out the line or body that has begun, and the sizes that a body or an array
goes by.  What is needed first is what a block looks like after any calls, those on a
complete block included: it reads on then, and may become incomplete again.

Main results:

- Theorem `RedisBlock.recv_stores`: a block that becomes complete lays out its result.
- Theorem `RedisBlock.inv_of_reachable`: the invariant of the reachable blocks.
- Theorem `RedisBlock.faithful_iff`: the blocks that are cloned faithfully.
- Theorem `clone_faithful_iff`: the same for the three classes.
-/

namespace FannyNet

open Library Library.Incremental

namespace RedisBlock

section
variable [LexicalCast]

/-! ## What a call stores -/

/-- The result of a block is laid out in its `m_data`. -/
def Laid (k : RedisBlock) : Prop :=
  ∃ d, k.data = some d ∧ d.Writes (layout k.type k.recvList)

theorem Makes.laid {k k' : RedisBlock} (h : Makes k k') : k'.Laid := by
  rcases h with ⟨d, rfl, hpacks, -⟩
  exact ⟨d, rfl, hpacks.toWrites⟩

/-- An incomplete block stays incomplete. -/
def StaysOpen (k k' : RedisBlock) : Prop :=
  k.bodyDone = false → k'.bodyDone = false

/-- A block becomes complete with its result laid out only. -/
def Stores (k k' : RedisBlock) : Prop :=
  k.bodyDone = false → k'.bodyDone = true → k'.Laid

theorem StaysOpen.stores {k₁ k₂ k₃ : RedisBlock} (h : StaysOpen k₁ k₂) (h' : Stores k₂ k₃) :
    Stores k₁ k₃ := by
  intro hopen
  exact h' (h hopen)

theorem StaysOpen.onOk {α : Type} {k₁ k₂ : RedisBlock} (h : StaysOpen k₁ k₂)
    {x : Except Exn (RedisBlock × α)} (hx : OnOk (fun k' _ => Stores k₂ k') x) :
    OnOk (fun k' _ => Stores k₁ k') x := by
  cases x with
  | error e => trivial
  | ok y => exact h.stores hx

theorem stores_refl (k : RedisBlock) : Stores k k := by
  intro hopen hdone
  rw [hopen] at hdone
  cases hdone

theorem StaysOpen.to_stores {k k' : RedisBlock} (h : StaysOpen k k') : Stores k k' :=
  h.stores (stores_refl k')

theorem recvBulk_stores (k : RedisBlock) (buf : NetBuffer) :
    OnOk (fun k' _ => Stores k k') (k.recvBulk buf) := by
  apply (k.recvBulk_pass buf).imp
  rintro k' ⟨buf', r⟩ hpass
  change BulkPass k k' r at hpass
  cases hpass with
  | wait t =>
      have hopen : StaysOpen k { k with temp := t } := id
      exact hopen.to_stores
  | last hmakes => exact fun _ _ => hmakes.laid

/-- A pass that goes on leaves the block incomplete. -/
theorem recvElements_stores (fuel : Nat) (k : RedisBlock) (buf : NetBuffer) :
    OnOk (fun k' _ => Stores k k') (recvElements fuel k buf) := by
  apply recvElements_loop (I := StaysOpen k) (J := fun k' _ => Stores k k')
  · intro k₁ hopen
    exact hopen.to_stores
  · intro k₁ k₂ out hopen hpass
    cases hpass with
    | wait hst =>
        apply StaysOpen.to_stores
        intro hdone
        rcases hst with rfl | rfl
        · exact hopen hdone
        · rfl
    | more hv hsize => exact fun _ => rfl
    | last hv hsize hall hmakes => exact fun _ _ => hmakes.laid
  · exact id

theorem recvBody_stores (k : RedisBlock) (buf : NetBuffer) :
    OnOk (fun k' _ => Stores k k') (k.recvBody buf) := by
  unfold recvBody
  split
  · exact k.recvBulk_stores buf
  · split
    · exact recvElements_stores _ k buf
    · exact stores_refl k

theorem recvType_stores (k : RedisBlock) (buf : NetBuffer) (str : Bytes) :
    OnOk (fun k' _ => Stores k k') (k.recvType buf str) := by
  have hmake : ∀ k₁ : RedisBlock, OnOk (fun k' (_ : NetBuffer × Bool) => Stores k k')
      (k₁.makeRedisBuffer >>= fun k' => .ok (k', buf, true)) := by
    intro k₁
    exact onOk_make (f := id) fun _ hmakes _ _ => hmakes.laid
  have hbody : ∀ k₁ : RedisBlock, k₁.bodyDone = false →
      OnOk (fun k' (_ : NetBuffer × Bool) => Stores k k') (k₁.recvBody buf) := by
    intro k₁ hdone
    have hopen : StaysOpen k k₁ := fun _ => hdone
    exact hopen.onOk (k₁.recvBody_stores buf)
  unfold recvType
  cases getReplyType str with
  | noReply => exact hmake _
  | statusCodeReply => exact onOk_bind fun v _ => hmake _
  | errorReply => exact onOk_bind fun v _ => hmake _
  | intReply => exact onOk_bind fun v _ => hmake _
  | bulkReply =>
      refine onOk_bind fun v _ => onOk_bind fun n _ => ?_
      split
      · exact hmake _
      · exact hbody _ rfl
  | multiBulkReply =>
      refine onOk_bind fun v _ => onOk_bind fun n _ => ?_
      split
      · exact hmake _
      · exact hbody _ rfl

/-- A call that completes a block lays out its result. -/
theorem recv_stores (k : RedisBlock) (buf : NetBuffer) :
    OnOk (fun k' _ => Stores k k') (k.recv buf) := by
  unfold recv
  split
  · rcases k.readline_eq buf with ⟨t, buf', out, hcall⟩
    rw [hcall]
    have hopen : StaysOpen k { k with temp := t } := id
    cases out with
    | none => exact hopen.to_stores
    | some str => exact hopen.onOk (recvType_stores _ buf' str)
  · exact k.recvBody_stores buf

end

end RedisBlock

/-! ## What a reader can be in -/

/-- A body of at least its terminator is awaited, and a line of no known type has no value. -/
structure Reader.Settled (a : Reader) : Prop where
  body : ∀ len, a.phase = .body len → 2 ≤ len
  bare : a.phase = .done .noReply → a.items = []

section
variable {cfg : ReaderConfig} [LexicalCast]

theorem elements_settled {count : Nat} {items : List Bytes} {held u : Bytes} {a : Reader}
    (h : elements cfg count items held u = .ok a) : a.Settled := by
  rcases elements_phase h with hphase | hphase
  · exact ⟨fun len hlen => by simp [hphase] at hlen, fun hdone => by simp [hphase] at hdone⟩
  · exact ⟨fun len hlen => by simp [hphase] at hlen, fun hdone => by simp [hphase] at hdone⟩

omit [LexicalCast] in
/-- A number other than `-1` declares no body of one byte. -/
theorem bodyLen_ne_one {n : Int} (hlo : INT_MIN ≤ n) (hhi : n ≤ INT_MAX) (hnil : n ≠ -1) :
    toSize (intAdd n 2) ≠ 1 := by
  simp only [INT_MIN, INT_MAX] at hlo hhi
  simp only [toSize, intAdd, Int.bmod_def]
  omega

omit [LexicalCast] in
theorem bulkBody_phase {len : Nat} {held u : Bytes} {a : Reader}
    (h : bulkBody cfg len held u = .ok a) : a.phase = .body len ∨ a.phase = .done .bulkReply := by
  unfold bulkBody at h
  cases hbody : takeBody cfg len held u with
  | error e =>
      rw [hbody] at h
      cases h
  | ok out =>
      cases out with
      | none =>
          simp only [hbody, ok_bind, Except.ok.injEq] at h
          exact Or.inl (by rw [← h])
      | some p =>
          simp only [hbody, ok_bind, Except.ok.injEq] at h
          exact Or.inr (by rw [← h])

omit [LexicalCast] in
theorem bulkBody_settled {len : Nat} {held u : Bytes} {a : Reader} (heager : cfg.eager = true)
    (hlen : len ≠ 1) (h : bulkBody cfg len held u = .ok a) : a.Settled := by
  rcases bulkBody_phase h with hphase | hphase
  · refine ⟨fun l hl => ?_, fun hdone => by simp [hphase] at hdone⟩
    rcases bulkBody_ok h with ⟨-, hlt | ⟨-, hlazy⟩⟩ | ⟨hle, -⟩
    · rw [hphase, Phase.body.injEq] at hl
      omega
    · rw [heager] at hlazy
      cases hlazy
    · rw [hphase, Phase.body.injEq] at hl
      omega
  · exact ⟨fun l hl => by simp [hphase] at hl, fun hdone => by simp [hphase] at hdone⟩

theorem startLine_settled {line u : Bytes} {a : Reader} (heager : cfg.eager = true)
    (h : startLine cfg line u = .ok a) : a.Settled := by
  have hvalue : ∀ (t : ReplyT) (items : List Bytes), t ≠ .noReply →
      Reader.Settled ⟨.done t, u, items⟩ := by
    intro t items ht
    refine ⟨fun len hlen => (by cases hlen), fun hdone => ?_⟩
    cases hdone
    exact absurd rfl ht
  cases startsReply_of_ok h with
  | noReply htype => exact ⟨fun len hlen => (by cases hlen), fun _ => rfl⟩
  | status htype => exact hvalue _ _ (by simp)
  | error htype hlen => exact hvalue _ _ (by simp)
  | int htype hcast => exact hvalue _ _ (by simp)
  | nil htype hn => exact hvalue _ _ (by simp)
  | body htype hn hne hbody =>
      exact bulkBody_settled heager (bodyLen_ne_one hn.text_eq.2.2.1 hn.text_eq.2.2.2 hne) hbody
  | nilArray htype hn => exact hvalue _ _ (by simp)
  | elements htype hn hne hloop => exact elements_settled hloop

end

/-! ## Reachable blocks -/

namespace RedisBlock

variable [LexicalCast]

omit [LexicalCast] in
/-- Only the phase and the values matter. -/
theorem settled_reader {k k' : RedisBlock} {u u' : Bytes} (hphase : k'.phase = k.phase)
    (hlist : k'.recvList = k.recvList) (h : (k.reader u).Settled) : (k'.reader u').Settled where
  body len hlen := h.body len (hphase.symm.trans hlen)
  bare hdone := hlist.trans (h.bare (hphase.symm.trans hdone))

omit [LexicalCast] in
/-- Of a complete block, only one of no known type is bound to anything. -/
theorem settled_of_done {k : RedisBlock} (hdone : k.bodyDone = true) (htype : k.type ≠ .noReply)
    (u : Bytes) : (k.reader u).Settled := by
  have hphase : (k.reader u).phase = .done k.type := by simp [reader, phase, hdone]
  refine ⟨fun len hlen => ?_, fun h => ?_⟩
  · rw [hphase] at hlen
    cases hlen
  · rw [hphase, Phase.done.injEq] at h
    exact absurd h htype

/-- What holds of a block after any calls: it waits or is complete, and its reader is in one of
the phases it can be in. -/
structure Inv (k : RedisBlock) : Prop where
  waits : k.bodyDone = false → k.Waits
  settled : (k.reader []).Settled

omit [LexicalCast] in
/-- Before the type is known there is no value. -/
theorem Inv.recvList_eq_nil {k : RedisBlock} (h : k.Inv) (htype : k.type = .noReply) :
    k.recvList = [] := by
  cases hdone : k.bodyDone with
  | true => exact h.settled.bare (by simp [reader, phase, hdone, htype])
  | false =>
      rcases h.waits hdone with ⟨hd, -⟩ | ⟨-, -, hlist⟩ | ⟨-, hbulk, -⟩ | ⟨-, hmulti⟩
      · rw [hd] at hdone
        cases hdone
      · exact hlist
      · rw [htype] at hbulk
        cases hbulk
      · rw [htype] at hmulti
        cases hmulti

omit [LexicalCast] in
theorem inv_of_returns {buf : NetBuffer} {out : Except Exn Reader}
    {res : Except Exn (RedisBlock × NetBuffer × Bool)} (hret : Returns buf out res)
    (hout : ∀ a, out = .ok a → a.Settled) : OnOk (fun k' _ => k'.Inv) res := by
  cases res with
  | error e => trivial
  | ok x => exact ⟨fun _ => hret.2.2.1, settled_reader rfl rfl (hout _ hret.1)⟩

omit [LexicalCast] in
theorem inv_of_done {k : RedisBlock} (hdone : k.bodyDone = true) (htype : k.type ≠ .noReply) :
    k.Inv :=
  ⟨fun h => by simp [hdone] at h, settled_of_done hdone htype []⟩

/-- A complete single bulk stays one. -/
theorem recvBulk_inv_of_done {k : RedisBlock} (hdone : k.bodyDone = true)
    (htype : k.type = .bulkReply) (buf : NetBuffer) :
    OnOk (fun k' _ => k'.Inv) (k.recvBulk buf) := by
  unfold recvBulk
  rcases k.readLen_eq buf k.bufSize with ⟨t, buf', out, hcall⟩
  rw [hcall]
  cases out with
  | none => exact inv_of_done (k := { k with temp := t }) hdone (by simp [htype])
  | some b =>
      apply onOk_bind
      intro body _
      dsimp only
      rcases makeRedisBuffer_ok
        (k := { k with
          temp := t
          recvSize := k.recvSize + body.length
          recvList := k.recvList ++ [body]
          state := .done })
        (by simp [htype]) (Or.inr rfl) with ⟨k', hmake, hlaid⟩
      rw [hmake, ok_bind]
      have htype' : k'.type = .bulkReply := hlaid.type.trans htype
      exact inv_of_done (by simp [NetBlockBase.bodyDone, hlaid.state]) (by simp [htype'])

/-- The element loop of a complete array goes on only behind a further line. -/
theorem recvElements_inv_of_done (fuel : Nat) {k : RedisBlock} (hdone : k.bodyDone = true)
    (htype : k.type = .multiBulkReply) {buf : NetBuffer} (hbuf : buf.Valid)
    (hfuel : buf.unread.length < fuel) :
    OnOk (fun k' _ => k'.Inv) (recvElements fuel k buf) := by
  cases fuel with
  | zero => omega
  | succ fuel =>
      rcases k.readline_spec hbuf with ⟨buf', hcomp, hline⟩
      cases hsplit : Lines.splitAfter LF buf.unread with
      | none =>
          rw [hsplit] at hline
          have helem : k.recvElement buf =
              .ok ({ k with temp := k.temp ++ buf.unread }, buf', some false) := by
            rw [recvElement, hline.1]
          rw [recvElements, helem, ok_bind]
          exact inv_of_done (k := { k with temp := k.temp ++ buf.unread }) hdone
            (by simp [htype])
      | some lr =>
          -- the state is set behind the line
          have hopen : k.recvElement buf = recvElement { k with state := .body } buf := by
            rcases lr with ⟨l, r⟩
            rw [hsplit] at hline
            have hstate := k.readline_state .body buf
            rw [hline.1] at hstate
            rw [recvElement, recvElement, hline.1, hstate]
          have hgo : recvElements (fuel + 1) k buf =
              recvElements (fuel + 1) { k with state := .body } buf := by
            rw [recvElements, hopen, recvElements]
          rw [hgo]
          exact inv_of_returns
            (recvElements_refines (fuel + 1) { k with state := .body } hbuf hfuel htype rfl)
            fun a ha => elements_settled ha

theorem recvBody_inv {k : RedisBlock} (h : k.Inv) (htype : k.type ≠ .noReply)
    {buf : NetBuffer} (hbuf : buf.Valid) :
    OnOk (fun k' _ => k'.Inv) (k.recvBody buf) := by
  unfold recvBody
  by_cases hbulk : k.type = .bulkReply
  · rw [if_pos hbulk]
    cases hdone : k.bodyDone with
    | true => exact recvBulk_inv_of_done hdone hbulk buf
    | false =>
        have hphase : (k.reader []).phase = .body k.bufSize := by
          simp [reader, phase, hdone, hbulk]
        have hlen := h.settled.body _ hphase
        rcases h.waits hdone with
          ⟨hd, -⟩ | ⟨-, hnone, -⟩ | ⟨-, -, hlist, htemp, hsize⟩ | ⟨-, hmulti⟩
        · rw [hd] at hdone
          cases hdone
        · exact absurd hnone htype
        · exact inv_of_returns (recvBulk_refines k hbuf hbulk hdone hlist htemp hsize)
            fun a ha => bulkBody_settled rfl (by omega) ha
        · rw [hbulk] at hmulti
          cases hmulti
  · rw [if_neg hbulk]
    by_cases hmulti : k.type = .multiBulkReply
    · rw [if_pos hmulti]
      have hfuel : buf.unread.length < buf.needReadLength + 1 := by
        rw [hbuf.needReadLength_eq]
        omega
      cases hdone : k.bodyDone with
      | true => exact recvElements_inv_of_done _ hdone hmulti hbuf hfuel
      | false =>
          exact inv_of_returns (recvElements_refines _ k hbuf hfuel hmulti hdone)
            fun a ha => elements_settled ha
    · rw [if_neg hmulti]
      exact ⟨h.waits, h.settled⟩

/-- A call keeps the invariant. -/
theorem recv_inv {k : RedisBlock} (h : k.Inv) {buf : NetBuffer} (hbuf : buf.Valid) :
    OnOk (fun k' _ => k'.Inv) (k.recv buf) := by
  unfold recv
  by_cases htype : k.type = .noReply
  · have hlist := h.recvList_eq_nil htype
    rw [if_pos htype]
    rcases k.readline_spec hbuf with ⟨buf', hcomp, hline⟩
    cases hsplit : Lines.splitAfter LF buf.unread with
    | none =>
        rw [hsplit] at hline
        rw [hline.1]
        exact ⟨fun hdone => .line hdone htype hlist, ⟨h.settled.body, h.settled.bare⟩⟩
    | some lr =>
        rcases lr with ⟨l, r⟩
        rw [hsplit] at hline
        rw [hline.1]
        exact inv_of_returns
          (recvType_refines { k with temp := [] } hcomp.valid hcomp.readPos _ rfl hlist)
          fun a ha => startLine_settled rfl ha
  · rw [if_neg htype]
    exact recvBody_inv h htype hbuf

theorem inv_of_reachable {k : RedisBlock} (h : cloneClass.Reachable k) : k.Inv := by
  induction h with
  | make s size =>
      refine ⟨fun _ => waits_create s size, ?_⟩
      exact ⟨fun len hlen => (by cases hlen), fun hdone => (by cases hdone)⟩
  | @push k k' _ bytes hpush ih =>
      rcases exists_of_push hpush with ⟨d, rfl⟩
      refine ⟨fun hdone => ?_, settled_reader rfl rfl ih.settled⟩
      rcases ih.waits hdone with hd | ⟨hopen, htype, hlist⟩ | ⟨hopen, htype, hlist, htemp, hlen⟩ |
        ⟨hopen, htype⟩
      · exact .done hd ‹_›
      · exact .line hopen htype hlist
      · exact .body hopen htype hlist htemp hlen
      · exact .elements hopen htype
  | recv _ hbuf hrecv ih => exact (recv_inv ih hbuf).of_ok hrecv

end RedisBlock

/-! ## Readers that agree -/

/-- The same reader, or two that have as many elements as either of them waits for. -/
inductive Reader.Agree : Reader → Reader → Prop where
  | same (a : Reader) : Agree a a
  | past {count count' : Nat} {held : Bytes} {items : List Bytes} (h : count ≤ items.length)
      (h' : count' ≤ items.length) :
      Agree ⟨.elements count, held, items⟩ ⟨.elements count', held, items⟩

theorem Reader.Agree.isDone_eq {a a' : Reader} (h : a.Agree a') : a.isDone = a'.isDone := by
  cases h with
  | same => rfl
  | past => rfl

theorem Reader.Agree.eq_of_done {a a' : Reader} (h : a.Agree a') (hdone : a.isDone = true) :
    a = a' := by
  cases h with
  | same => rfl
  | past => cases hdone

section
variable {cfg : ReaderConfig} [LexicalCast]

theorem elements_past {count count' : Nat} {items : List Bytes} (h : count ≤ items.length)
    (h' : count' ≤ items.length) (held u : Bytes) :
    RelOutcome Reader.Agree (elements cfg count items held u)
      (elements cfg count' items held u) := by
  induction hlen : u.length using Nat.strong_induction_on generalizing items held u with
  | _ n ih =>
      subst n
      rw [elements_unfold, elements_unfold cfg count']
      cases helem : takeElement cfg held u with
      | error e => rfl
      | ok out =>
          cases out with
          | inl rest => exact .past h h'
          | inr p =>
              rcases p with ⟨body, r⟩
              have hlonger : (items ++ [body]).length = items.length + 1 := by simp
              have hne : (items ++ [body]).length ≠ count := by omega
              have hne' : (items ++ [body]).length ≠ count' := by omega
              simp only [if_neg hne, if_neg hne']
              exact ih r.length (takeElement_length_lt helem) (by omega) (by omega) [] r rfl

variable (cfg) in
theorem Reader.Agree.feed {a a' : Reader} (h : a.Agree a') (c : Bytes) :
    RelOutcome Reader.Agree (a.feed cfg c) (a'.feed cfg c) := by
  cases h with
  | same =>
      cases a.feed cfg c with
      | error e => rfl
      | ok b => exact .same b
  | past h h' => exact elements_past h h' _ c

end

/-! ## Blocks that match -/

namespace RedisBlock

variable [LexicalCast]

/-- Two blocks that behave alike: the same result, or readers that agree. -/
structure Matches (k k' : RedisBlock) : Prop where
  done : k.bodyDone = k'.bodyDone
  result : k.bodyDone = true →
    k.type = k'.type ∧ k.recvList = k'.recvList ∧ cloneClass.bytes k = cloneClass.bytes k'
  waits : k.bodyDone = false → k.Waits ∧ k'.Waits ∧ (k.reader []).Agree (k'.reader [])

theorem Laid.bytes {k : RedisBlock} (h : k.Laid) :
    cloneClass.bytes k = some (layout k.type k.recvList) := by
  rcases h with ⟨d, hd, hwrites⟩
  change k.data.map NetBuffer.data = _
  rw [hd, Option.map_some, hwrites.data]

/-- A call that completes a block lays out its result. -/
theorem laid_of_recv {k k' : RedisBlock} (hopen : k.bodyDone = false) {buf buf' : NetBuffer}
    {r : Bool} (hrecv : k.recv buf = .ok (k', buf', r)) (hdone : k'.bodyDone = true) : k'.Laid := by
  have hstores := (k.recv_stores buf).of_ok hrecv
  exact hstores hopen hdone

theorem Matches.recv {k k' : RedisBlock} (h : k.Matches k') (hopen : k.bodyDone = false)
    {b b' : NetBuffer} (hb : b.Alike b') :
    RelOutcome (fun x y => x.1.Matches y.1 ∧ x.2.1.Alike y.2.1) (k.recv b) (k'.recv b') := by
  have hopen' : k'.bodyDone = false := by rw [← h.done, hopen]
  rcases h.waits hopen with ⟨hwaits, hwaits', hagree⟩
  have hfeed := hagree.feed readerConfig b.unread
  have hret := recv_refines hwaits hopen hb.left
  have hret' := recv_refines hwaits' hopen' hb.right
  rw [← hb.unread] at hret'
  cases hrecv : k.recv b with
  | error e =>
      rw [hrecv] at hret
      cases hrecv' : k'.recv b' with
      | error e' =>
          rw [hrecv'] at hret'
          simp only [Returns] at hret hret'
          rw [hret, hret'] at hfeed
          exact hfeed
      | ok y =>
          rw [hrecv'] at hret'
          simp only [Returns] at hret
          rw [hret, hret'.1] at hfeed
          exact hfeed.elim
  | ok x =>
      rcases x with ⟨k₁, b₁, r₁⟩
      cases hrecv' : k'.recv b' with
      | error e' =>
          rw [hrecv] at hret
          rw [hrecv'] at hret'
          simp only [Returns] at hret'
          rw [hret.1, hret'] at hfeed
          exact hfeed.elim
      | ok y =>
          rcases y with ⟨k₂, b₂, r₂⟩
          rw [hrecv] at hret
          rw [hrecv'] at hret'
          rcases hret with ⟨hfeed₁, hcomp₁, hwaits₁, hrest₁⟩
          rcases hret' with ⟨hfeed₂, hcomp₂, hwaits₂, hrest₂⟩
          rw [hfeed₁, hfeed₂] at hfeed
          change (k₁.reader b₁.unread).Agree (k₂.reader b₂.unread) at hfeed
          have hdone : k₁.bodyDone = k₂.bodyDone := by
            rw [← isDone_reader k₁ b₁.unread, hfeed.isDone_eq, isDone_reader]
          change k₁.Matches k₂ ∧ b₁.Alike b₂
          cases hk : k₁.bodyDone with
          | true =>
              have hk' : k₂.bodyDone = true := by rw [← hdone, hk]
              have heq := hfeed.eq_of_done (by rw [isDone_reader, hk])
              rw [reader_of_done hwaits₁ hk, reader_of_done hwaits₂ hk'] at heq
              simp only [Reader.mk.injEq, Phase.done.injEq] at heq
              rcases heq with ⟨htype, hunread, hlist⟩
              have hbytes : cloneClass.bytes k₁ = cloneClass.bytes k₂ := by
                rw [(laid_of_recv hopen hrecv hk).bytes, (laid_of_recv hopen' hrecv' hk').bytes,
                  htype, hlist]
              exact ⟨⟨hdone, fun _ => ⟨htype, hlist, hbytes⟩, fun h => by simp [hk] at h⟩,
                hb.compacted hcomp₁ hcomp₂ hunread⟩
          | false =>
              have hk' : k₂.bodyDone = false := by rw [← hdone, hk]
              have hunread : b₁.unread = b₂.unread := by rw [hrest₁ hk, hrest₂ hk']
              rw [hrest₁ hk, hrest₂ hk'] at hfeed
              exact ⟨⟨hdone, fun h => by simp [hk] at h, fun _ => ⟨hwaits₁, hwaits₂, hfeed⟩⟩,
                hb.compacted hcomp₁ hcomp₂ hunread⟩

theorem Matches.sameFuture {k k' : RedisBlock} (h : k.Matches k') : cloneClass.SameFuture k k' := by
  refine CloneClass.sameFuture_of_sim (fun k k' h => ⟨h.done, fun hdone => ?_⟩) ?_ h
  · rcases h.result hdone with ⟨htype, hlist, hbytes⟩
    refine ⟨?_, hbytes⟩
    change (k.type, k.recvList) = (k'.type, k'.recvList)
    rw [htype, hlist]
  · intro k k' b b' h hopen hb
    exact h.recv hopen hb

end RedisBlock

/-! ## What tells readers apart -/

/-- What a reader shows of a completed reply. -/
def Reader.shown (a : Reader) : Option (ReplyT × List Bytes) :=
  match a.phase with
  | .done t => some (t, a.items)
  | _ => none

/-- Trimming a line that has begun before. -/
theorem rtrim_held {b : UInt8} (hb : b ∉ REDIS_LBR) (held l : Bytes) :
    rtrim (held ++ (l ++ [b] ++ REDIS_LBR)) = held ++ (l ++ [b]) := by
  rw [rtrim, ← List.append_assoc, Lines.rtrim_append_of_all (fun _ h => h), ← List.append_assoc,
    Lines.rtrim_concat_of_notMem hb]

section
variable {cfg : ReaderConfig} [LexicalCast]

/-- The bytes of a nil element. -/
def nilElement : Bytes := (element none).encode

/-- Without the number of bytes awaited, the next byte cannot be read. -/
theorem body_told {len : Nat} (hlen : 2 ≤ len) (heager : cfg.eager = true) (held : Bytes)
    (items items' : List Bytes) :
    ((Reader.mk (.body len) held items).feed cfg [0]).map Reader.shown ≠
      ((Reader.mk (.body 0) [] items').feed cfg [0]).map Reader.shown := by
  have hthrows : (Reader.mk (.body 0) [] items').feed cfg [0] = .error .outOfRange := by
    simp [Reader.feed, bulkBody, takeBody]
  have hreads : ∃ a, (Reader.mk (.body len) held items).feed cfg [0] = .ok a := by
    simp only [Reader.feed, bulkBody, takeBody, heager]
    split
    · exact ⟨_, rfl⟩
    · rw [if_neg (by omega)]
      exact ⟨_, rfl⟩
  rcases hreads with ⟨a, ha⟩
  rw [hthrows, ha]
  simp [Except.map]

/-- A status line has the text behind its first byte as its value. -/
theorem startLine_status {line u : Bytes} {a : Reader} {items : List Bytes}
    (h : startLine cfg line u = .ok a) (hshown : a.shown = some (.statusCodeReply, items)) :
    items = [line.drop 1] := by
  cases startsReply_of_ok h with
  | noReply htype => cases hshown
  | status htype =>
      simp only [Reader.shown, Option.some.injEq, Prod.mk.injEq, true_and] at hshown
      exact hshown.symm
  | error htype hlen => cases hshown
  | int htype hcast => cases hshown
  | nil htype hn => cases hshown
  | body htype hn hne hbody =>
      rcases bulkBody_phase hbody with hphase | hphase
      · simp [Reader.shown, hphase] at hshown
      · simp [Reader.shown, hphase] at hshown
  | nilArray htype hn => cases hshown
  | elements htype hn hne hloop =>
      rcases elements_phase hloop with hphase | hphase
      · simp [Reader.shown, hphase] at hshown
      · simp [Reader.shown, hphase] at hshown

/-- A first line that ends here. -/
theorem feed_line {l : Bytes} {b : UInt8} (hl : Clean (l ++ [b])) (held : Bytes)
    (items : List Bytes) :
    (Reader.mk .start held items).feed cfg (l ++ [b] ++ REDIS_LBR) =
      startLine cfg (held ++ (l ++ [b])) [] := by
  have hsplit := splitAfter_line hl []
  rw [List.append_nil] at hsplit
  simp only [Reader.feed, hsplit]
  rw [rtrim_held (hl b (by simp))]

/-- Without the part of a line that has arrived, a status has another value. -/
theorem line_told {held : Bytes} {items items' : List Bytes}
    (h : ((Reader.mk .start held items).feed cfg ([] ++ [43] ++ REDIS_LBR)).map Reader.shown =
      ((Reader.mk .start [] items').feed cfg ([] ++ [43] ++ REDIS_LBR)).map Reader.shown) :
    held = [] := by
  have hclean : Clean ([] ++ [43]) := by decide
  have hstatus :
      startLine cfg ([] ++ ([] ++ [43])) [] = .ok ⟨.done .statusCodeReply, [], [[]]⟩ := by
    rfl
  rw [feed_line hclean, feed_line hclean, hstatus] at h
  cases hline : startLine cfg (held ++ ([] ++ [43])) [] with
  | error e =>
      rw [hline] at h
      cases h
  | ok a =>
      rw [hline] at h
      simp only [Except.map, Except.ok.injEq, Reader.shown] at h
      have hvalue := startLine_status hline h
      simp only [List.cons.injEq, and_true] at hvalue
      have hlen := congrArg List.length hvalue
      simp only [List.length_nil, List.length_drop, List.length_append, List.length_cons] at hlen
      exact List.length_eq_zero_iff.mp (by omega)

theorem elements_past_shown {count : Nat} {items : List Bytes} {held u : Bytes} {a : Reader}
    (hcount : count ≤ items.length) (h : elements cfg count items held u = .ok a) :
    a.shown = none := by
  have hphase : count ≤ items.length → a.phase = .elements count := by
    refine elements_induction (C := fun items _ _ => count ≤ items.length →
      a.phase = .elements count) ?_ ?_ ?_ h
    · rintro items held u rest - rfl -
      rfl
    · rintro items held u body r - hlast - hle
      rw [List.length_append, List.length_singleton] at hlast
      omega
    · rintro items held u body r - - hrest hle
      apply hrest
      rw [List.length_append]
      omega
  rw [Reader.shown, hphase hcount]

/-- The number of a nil behind another text is none. -/
theorem elementNumber_nil_held {held : Bytes} (hne : held ≠ []) :
    elementNumber (held ++ ([36, 45] ++ [49])) = .error .badLexicalCast := by
  cases held with
  | nil => exact absurd rfl hne
  | cons b w =>
      rw [elementNumber, List.cons_append, substr_cons_one, ok_bind]
      apply lexicalCast_eq_error_iff.mpr
      refine ⟨rfl, fun n hn => ?_⟩
      -- a `$` is no part of a number
      have hdollar := hn.1.mem (b := 36) (by simp)
      revert hdollar
      decide

/-- Without the part of an element line that has arrived, a nil element can be read. -/
theorem element_told {count : Nat} {held : Bytes} {items : List Bytes}
    (h : ((Reader.mk (.elements count) held items).feed cfg nilElement).map Reader.shown =
      ((Reader.mk (.elements 0) [] items).feed cfg nilElement).map Reader.shown) :
    held = [] := by
  by_contra hne
  have hthrows : elements cfg count items held nilElement = .error .badLexicalCast := by
    have hclean : Clean ([36, 45] ++ [49]) := by decide
    have hsplit := splitAfter_line hclean []
    rw [List.append_nil] at hsplit
    have helem : takeElement cfg held nilElement = .error .badLexicalCast := by
      change takeElement cfg held ([36, 45] ++ [49] ++ REDIS_LBR) = _
      rw [takeElement_of_split hsplit, rtrim_held (by decide), elementNumber_nil_held hne,
        error_bind]
    rw [elements_unfold, helem]
  have hreads : elements cfg 0 items [] nilElement =
      .ok ⟨.elements 0, [], items ++ [cfg.missing]⟩ := by
    have hfits : ElementFits cfg none := trivial
    have helem : takeElement cfg [] (nilElement ++ []) = .ok (.inr (cfg.missing, [])) :=
      takeElement_encode hfits []
    rw [List.append_nil] at helem
    rw [elements_unfold, helem]
    simp only [List.length_append, List.length_singleton, Nat.add_one_ne_zero, if_false]
    rw [elements_unfold]
    rfl
  simp only [Reader.feed] at h
  rw [hthrows, hreads] at h
  cases h

/-- Without the number of elements, the last element does not complete the array. -/
theorem count_told {count : Nat} {items : List Bytes}
    (h : ∀ c, ((Reader.mk (.elements count) [] items).feed cfg c).map Reader.shown =
      ((Reader.mk (.elements 0) [] items).feed cfg c).map Reader.shown) :
    count ≤ items.length := by
  by_contra hlt
  -- the nil elements that are missing
  generalize hes : List.replicate (count - items.length) (none : Option Bytes) = es
  have hlen : es.length = count - items.length := by rw [← hes, List.length_replicate]
  have hne : es ≠ [] := by
    rintro rfl
    rw [List.length_nil] at hlen
    omega
  have hfits : ∀ e ∈ es, ElementFits cfg e := by
    intro e he
    rw [← hes] at he
    rw [List.eq_of_mem_replicate he]
    trivial
  have hmissing := h (encodeElements es ++ [])
  have hcomplete := elements_encode_all hne hfits items []
  rw [hlen, Nat.add_sub_cancel' (by omega)] at hcomplete
  simp only [Reader.feed] at hmissing
  rw [hcomplete] at hmissing
  cases hgo : elements cfg 0 items [] (encodeElements es ++ []) with
  | error e =>
      rw [hgo] at hmissing
      cases hmissing
  | ok a =>
      rw [hgo] at hmissing
      simp only [Except.map, elements_past_shown (Nat.zero_le _) hgo] at hmissing
      cases hmissing

end

/-! ## The blocks that are cloned faithfully -/

namespace RedisBlock

variable [LexicalCast]

/-- The block is complete, or nothing of what `clone` leaves out is needed: no line or body has
begun, and no array is to be completed. -/
def Clonable (k : RedisBlock) : Prop :=
  k.data ≠ none ∧
    (k.bodyDone = true ∨
      k.temp = [] ∧
        (k.type = .noReply ∨ k.type = .multiBulkReply ∧ k.mutSize ≤ k.recvList.length))

omit [LexicalCast] in
theorem shown_reader (k : RedisBlock) (u : Bytes) :
    (k.reader u).shown = if k.bodyDone then some (k.type, k.recvList) else none := by
  cases hdone : k.bodyDone with
  | true => simp [Reader.shown, reader, phase, hdone]
  | false => cases htype : k.type <;> simp [Reader.shown, reader, phase, hdone, htype]

/-- What is seen of an incomplete block behind one piece, in terms of its reader. -/
theorem seen_piece {k : RedisBlock} (hwaits : k.Waits) (hopen : k.bodyDone = false) (c : Bytes) :
    ((feedUntilDone blockClass (k, NetBuffer.create c.length) [c]).map cloneClass.seen).map
        (fun z => z.2.2.map Prod.fst) =
      ((k.reader []).feed readerConfig c).map Reader.shown := by
  have hfit : (NetBuffer.create c.length).writePos + c.length ≤
      (NetBuffer.create c.length).maxLen := by
    simp [NetBuffer.create]
  have hvalid := NetBuffer.valid_writeBytes (NetBuffer.valid_create c.length) c
  have hunread : ((NetBuffer.create c.length).writeBytes c).unread = c := by
    rw [NetBuffer.unread_writeBytes (NetBuffer.valid_create c.length) hfit, NetBuffer.unread_create,
      List.nil_append]
  have hret := recv_refines hwaits hopen hvalid
  rw [hunread] at hret
  have hdone : ¬ blockClass.bodyDone k = true := by
    change ¬ k.bodyDone = true
    simp [hopen]
  rw [feedUntilDone, if_neg hdone, CloneClass.bind_receive]
  change ((((k.recv _).bind _).map _).map _) = _
  cases hrecv : k.recv ((NetBuffer.create c.length).writeBytes c) with
  | error e =>
      rw [hrecv] at hret
      simp only [Returns] at hret
      rw [hret]
      rfl
  | ok x =>
      rcases x with ⟨k', buf', r⟩
      rw [hrecv] at hret
      rw [hret.1]
      have hseen : (cloneClass.seen ((k', buf'), [])).2.2.map Prod.fst =
          (k'.reader buf'.unread).shown := by
        rw [shown_reader]
        change Option.map Prod.fst (if k'.bodyDone = true then _ else _) = _
        cases k'.bodyDone with
        | true => rfl
        | false => rfl
      simp only [Except.map]
      rw [← hseen]
      rfl

/-- What an incomplete block and its clone tell of any one piece. -/
theorem told_of_sameFuture {k k' : RedisBlock} (hwaits : k.Waits) (hwaits' : k'.Waits)
    (hopen : k.bodyDone = false) (hopen' : k'.bodyDone = false)
    (h : cloneClass.SameFuture k k') (c : Bytes) :
    ((k.reader []).feed readerConfig c).map Reader.shown =
      ((k'.reader []).feed readerConfig c).map Reader.shown := by
  rw [← seen_piece hwaits hopen c, ← seen_piece hwaits' hopen' c]
  exact congrArg _ (h (NetBuffer.create c.length) [c] (NetBuffer.valid_create c.length))

/-- The clone of a block with a buffer. -/
def cloned (k : RedisBlock) (d : NetBuffer) (s : SessionId) : RedisBlock :=
  { create s 0 with data := some d.copy, state := k.state, type := k.type, recvList := k.recvList }

omit [LexicalCast] in
theorem clone_eq {k : RedisBlock} {d : NetBuffer} (hd : k.data = some d) (s : SessionId) :
    k.clone s = some (k.cloned d s) := by
  rw [RedisBlock.clone, hd, Option.map_some]
  rfl

omit [LexicalCast] in
/-- A clone of a block that waits is one that waits. -/
theorem waits_cloned {k : RedisBlock} (hwaits : k.Waits) (hopen : k.bodyDone = false)
    (d : NetBuffer) (s : SessionId) : (k.cloned d s).Waits := by
  rcases hwaits with ⟨hd, -⟩ | ⟨-, htype, hlist⟩ | ⟨-, htype, hlist, -⟩ | ⟨-, htype⟩
  · rw [hd] at hopen
    cases hopen
  · exact .line hopen htype hlist
  · exact .body hopen htype hlist le_rfl (by simp [cloned, create])
  · exact .elements hopen htype

theorem matches_cloned {k : RedisBlock} (h : k.Inv) (hclonable : k.Clonable) {d : NetBuffer}
    (hd : k.data = some d) (s : SessionId) : k.Matches (k.cloned d s) := by
  have hbytes : cloneClass.bytes k = cloneClass.bytes (k.cloned d s) := by
    change k.data.map NetBuffer.data = some d.copy.data
    rw [hd, Option.map_some, NetBuffer.data_copy]
  refine ⟨rfl, fun _ => ⟨rfl, rfl, hbytes⟩, fun hopen => ?_⟩
  have hopen' : (k.cloned d s).bodyDone = false := hopen
  have hwaits := h.waits hopen
  refine ⟨hwaits, waits_cloned hwaits hopen d s, ?_⟩
  rcases hclonable.2 with hdone | ⟨htemp, htype | ⟨htype, hcount⟩⟩
  · rw [hdone] at hopen
    cases hopen
  · have hreader : (k.cloned d s).reader [] = k.reader [] := by
      simp [reader, phase, hopen, hopen', htype, htemp]
      simp [cloned, create, htype]
    rw [hreader]
    exact .same _
  · have hreader : k.reader [] = ⟨.elements k.mutSize, [], k.recvList⟩ := by
      simp [reader, phase, hopen, htype, htemp]
    have hreader' : (k.cloned d s).reader [] = ⟨.elements 0, [], k.recvList⟩ := by
      simp [reader, phase, hopen']
      simp [cloned, create, htype]
    rw [hreader, hreader']
    exact .past hcount (Nat.zero_le _)

/-- The readers of an incomplete block and of its clone. -/
theorem clonable_of_told {k : RedisBlock} (h : k.Inv) {d : NetBuffer} (hd : k.data = some d)
    (hopen : k.bodyDone = false)
    (htold : ∀ c, ((k.reader []).feed readerConfig c).map Reader.shown =
      (((k.cloned d 0).reader []).feed readerConfig c).map Reader.shown) : k.Clonable := by
  have hdata : k.data ≠ none := by simp [hd]
  have hopen' : (k.cloned d 0).bodyDone = false := hopen
  rcases h.waits hopen with ⟨hdone, -⟩ | ⟨-, htype, hlist⟩ | ⟨-, htype, hlist, -⟩ | ⟨-, htype⟩
  · rw [hdone] at hopen
    cases hopen
  · have hreader : k.reader [] = ⟨.start, k.temp, k.recvList⟩ := by
      simp [reader, phase, hopen, htype]
    have hreader' : (k.cloned d 0).reader [] = ⟨.start, [], k.recvList⟩ := by
      simp [reader, phase, hopen']
      simp [cloned, create, htype]
    rw [hreader, hreader'] at htold
    exact ⟨hdata, Or.inr ⟨line_told (htold _), Or.inl htype⟩⟩
  · have hreader : k.reader [] = ⟨.body k.bufSize, k.temp, k.recvList⟩ := by
      simp [reader, phase, hopen, htype]
    have hreader' : (k.cloned d 0).reader [] = ⟨.body 0, [], k.recvList⟩ := by
      simp [reader, phase, hopen']
      simp [cloned, create, htype]
    have hlen := h.settled.body k.bufSize (by rw [hreader])
    rw [hreader, hreader'] at htold
    exact absurd (htold [0]) (body_told hlen rfl _ _ _)
  · have hreader : k.reader [] = ⟨.elements k.mutSize, k.temp, k.recvList⟩ := by
      simp [reader, phase, hopen, htype]
    have hreader' : (k.cloned d 0).reader [] = ⟨.elements 0, [], k.recvList⟩ := by
      simp [reader, phase, hopen']
      simp [cloned, create, htype]
    rw [hreader, hreader'] at htold
    have htemp := element_told (htold nilElement)
    rw [htemp] at htold
    exact ⟨hdata, Or.inr ⟨htemp, Or.inr ⟨htype, count_told htold⟩⟩⟩

/-- The blocks that are cloned faithfully. -/
theorem faithful_iff {k : RedisBlock} (h : k.Inv) : cloneClass.Faithful k ↔ k.Clonable := by
  constructor
  · intro hfaithful
    rcases hfaithful 0 with ⟨k', hclone, -, -, -, hfuture⟩
    rcases Option.map_eq_some_iff.mp hclone with ⟨d, hd, rfl⟩
    cases hdone : k.bodyDone with
    | true => exact ⟨by simp [hd], Or.inl hdone⟩
    | false =>
        have hwaits := h.waits hdone
        exact clonable_of_told h hd hdone
          (told_of_sameFuture hwaits (waits_cloned hwaits hdone d 0) hdone hdone hfuture)
  · intro hclonable s
    rcases Option.ne_none_iff_exists'.mp hclonable.1 with ⟨d, hd⟩
    have hmatches := matches_cloned h hclonable hd s
    refine ⟨_, clone_eq hd s, rfl, rfl, ?_, hmatches.sameFuture⟩
    change some d.copy.data = k.data.map NetBuffer.data
    rw [hd, Option.map_some, NetBuffer.data_copy]

end RedisBlock

/-- The reachable blocks of the three classes that are cloned faithfully. -/
theorem clone_faithful_iff [LexicalCast] :
    (∀ k, NetBlock.cloneClass.Reachable k →
        (NetBlock.cloneClass.Faithful k ↔ k.data ≠ none)) ∧
      (∀ k, RedisBlock.cloneClass.Reachable k →
        (RedisBlock.cloneClass.Faithful k ↔ k.Clonable)) ∧
      ∀ k, RedisBlock2.cloneClass.Reachable k →
        (RedisBlock2.cloneClass.Faithful k ↔ k.data ≠ none) := by
  refine ⟨?_, ?_, ?_⟩
  · intro k hk
    exact NetBlock.faithful_iff (NetBlock.sound_of_reachable hk)
  · intro k hk
    exact RedisBlock.faithful_iff (RedisBlock.inv_of_reachable hk)
  · intro k _
    exact RedisBlock2.faithful_iff k

/-- New blocks with and without a buffer, and a block in the middle of a line. -/
theorem clone_faithful_make :
    ¬ NetBlock.cloneClass.Faithful (NetBlock.create 9 0) ∧
      RedisBlock.cloneClass.Faithful (RedisBlock.create 9 1) ∧
      ¬ RedisBlock.cloneClass.Faithful { RedisBlock.create 9 1 with temp := text "+O" } ∧
      ¬ RedisBlock2.cloneClass.Faithful (RedisBlock2.create 9 0) := by
  rcases clone_faithful_iff with ⟨hnet, hredis, hredis2⟩
  refine ⟨?_, ?_, ?_, ?_⟩
  · intro h
    exact (hnet _ (.make 9 0)).mp h rfl
  · exact (hredis _ (.make 9 1)).mpr ⟨Option.some_ne_none _, Or.inr ⟨rfl, Or.inl rfl⟩⟩
  · intro h
    have hbuf := NetBuffer.valid_writeBytes (NetBuffer.valid_create 2) (text "+O")
    have hline : RedisBlock.cloneClass.Reachable
        { RedisBlock.create 9 1 with temp := text "+O" } := .recv (.make 9 1) hbuf (r := false) rfl
    rcases ((hredis _ hline).mp h).2 with hdone | ⟨htemp, -⟩
    · cases hdone
    · exact absurd htemp (by decide)
  · intro h
    exact (hredis2 _ (.make 9 0)).mp h rfl

/-- A clone made behind `+O` takes the rest of the line for the whole of it, and a block without
a buffer has no clone. -/
theorem clone_midline :
    RedisBlock.cloneClass.Reachable { RedisBlock.create 9 1 with temp := text "+O" } ∧
      ¬ RedisBlock.cloneClass.Faithful { RedisBlock.create 9 1 with temp := text "+O" } ∧
      NetBlock.cloneClass.Reachable (NetBlock.create 9 0) ∧
      (NetBlock.create 9 0).clone 3 = none := by
  refine ⟨?_, ?_, .make 9 0, rfl⟩
  · have hbuf := NetBuffer.valid_writeBytes (NetBuffer.valid_create 2) (text "+O")
    exact .recv (.make 9 1) hbuf (r := false) rfl
  · intro h
    rcases h 3 with ⟨k', hclone, -, -, -, hfuture⟩
    cases hclone
    have hseen := hfuture (NetBuffer.create 3) [text "K\r\n"] (NetBuffer.valid_create 3)
    have htypes := congrArg (fun x => x.toOption.map fun z => z.2.2.map fun w => w.1.1) hseen
    revert htypes
    decide +kernel

end FannyNet

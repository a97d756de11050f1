import FannyNet.DefaultProtocol
import FannyNet.Malformed
import FannyNet.Library.Transition

/-!
# The room in the receive buffer

After a read the next one is started with the free space of the receive buffer, so a
buffer that is left full is read into no more.  What a `recv` leaves of a message that
is not complete decides: part of a header, nothing, or a line without its end.

Main results:

- Theorem `Decodes.Reading.nextRead_left`: what a read leaves in the buffer, and that
  it has completed nothing where it leaves all there was.
- Theorem `keepsRoom_iff`: the streams on which the three classes leave room.
-/

namespace FannyNet

open Library Library.Transition

namespace Connection

variable {β : Type} (K : BlockClass β)

/-- One more read, if it fits and its handler does not throw. -/
def nextRead (x : Connection β × List β) (c : Bytes) : Option (Connection β × List β) :=
  if c.length ≤ x.1.room then (readSome K x c).toOption else none

/-- There is room in the receive buffer, and the next read asks for some of it. -/
def RoomLeft (conn : Connection β) : Prop :=
  conn.bufferRecv.length < bufferSize ∧ 0 < conn.room

/-- Each read of a stream leaves room for the next. -/
def KeepsRoom (s : SessionId) (cs : List Bytes) : Prop :=
  Along (nextRead K) (fun x c => ∀ y, nextRead K x c = some y → y.1.RoomLeft)
    (accepted s bufferSize, []) cs

variable {K}

/-- A block that is not done after its `recv` is kept. -/
theorem readMessage_of_recv {conn : Connection β} {wait : β} {buf : NetBuffer} {r : Bool}
    (hrecv : K.recv (conn.waitMessage.getD (K.make conn.session 0)) conn.bufferRecv =
      .ok (wait, buf, r)) (hopen : K.bodyDone wait = false) :
    readMessage K conn = .ok ({ conn with waitMessage := some wait, bufferRecv := buf }, none) := by
  simp [readMessage, hrecv, hopen]

theorem nextRead_eq_some_iff {x y : Connection β × List β} {c : Bytes} :
    nextRead K x c = some y ↔ c.length ≤ x.1.room ∧ readSome K x c = .ok y := by
  unfold nextRead
  cases readSome K x c with
  | error e => simp [Except.toOption]
  | ok z => simp [Except.toOption]

end Connection

/-! ## What a read leaves -/

/-- Every `recv` compacts the buffer. -/
theorem DecodeStep.compacted {β σ μ : Type} {K : BlockClass β} {Waits : σ → β → Bytes → Prop}
    {Shows : μ → β → Prop} {buf buf' : NetBuffer} {k' : β} {r : Bool}
    {out : Except Exn (σ ⊕ (μ × Bytes))}
    (h : DecodeStep K Waits Shows buf (.ok (k', buf', r)) out) : buf.Compacted buf' := by
  cases out with
  | error e => cases h
  | ok x =>
      cases x with
      | inl t =>
          rcases h with ⟨_, _, _, heq, hcomp, -⟩
          cases heq
          exact hcomp
      | inr y =>
          rcases h with ⟨_, _, _, heq, hcomp, -⟩
          cases heq
          exact hcomp

namespace Decodes

open Connection

variable {β σ μ : Type} {K : BlockClass β} {D : Decoder UInt8 σ μ Exn} {R : Decodes K D}
  {cap : Nat} {s s' : σ} {c rest : Bytes} {m : μ} {ms : List μ} {conn conn' : Connection β}

theorem Loaded.length_eq (h : R.Loaded cap s c conn) :
    conn.bufferRecv.length = conn.bufferRecv.unread.length := by
  rw [h.valid.length_unread, h.readPos, Nat.sub_zero, NetBuffer.length]

theorem Loaded.length_le (h : R.Loaded cap s c conn) : conn.bufferRecv.length ≤ cap :=
  h.maxLen ▸ h.valid.writePos_le

/-- A call of `recv` leaves no more in the buffer than there was. -/
theorem Loaded.length_readMessage_le (h : R.Loaded cap s c conn) {p : Option β}
    (hread : readMessage K conn = .ok (conn', p)) :
    conn'.bufferRecv.length ≤ conn.bufferRecv.length := by
  rcases h.waits_getD with ⟨u, hunread, hwaits⟩
  have hstep := R.recv s _ u c conn.bufferRecv hwaits h.valid h.readPos hunread
  cases hrecv : K.recv (conn.waitMessage.getD (K.make conn.session 0)) conn.bufferRecv with
  | error e => simp [readMessage, hrecv] at hread
  | ok x =>
      rcases x with ⟨k', buf', r⟩
      rw [hrecv] at hstep
      have hbuf : conn'.bufferRecv = buf' := by
        simp only [readMessage, hrecv, ok_bind] at hread
        split at hread
        · cases hread
          rfl
        · cases hread
          rfl
      rw [hbuf]
      exact hstep.compacted.writePos_le

/-- A completed message has used up some of the buffer. -/
theorem Loaded.readMessage_some (h : R.Loaded cap s c conn)
    (hwrite : conn.bufferRecv.hasWrite = true) {p : β}
    (hread : readMessage K conn = .ok (conn', some p)) :
    conn'.bufferRecv.length < conn.bufferRecv.length ∧
      ∃ rest, R.Loaded cap D.init rest conn' := by
  have hstep := readMessage_step h hwrite
  cases hfeed : D.feed s c with
  | error e =>
      rw [hfeed, hread] at hstep
      cases hstep
  | ok x =>
      cases x with
      | inl t =>
          rw [hfeed] at hstep
          rcases hstep with ⟨mid, hread', -⟩
          rw [hread] at hread'
          cases hread'
      | inr y =>
          rcases y with ⟨m, rest⟩
          rw [hfeed] at hstep
          rcases hstep with ⟨mid, q, hread', -, hmid⟩
          rw [hread, Except.ok.injEq, Prod.mk.injEq] at hread'
          rw [← hread'.1] at hmid
          refine ⟨?_, rest, hmid⟩
          have hlt := R.lawful.progress s c m rest h.isOpen hfeed
          rcases h.pending with ⟨u, hunread, -⟩
          rcases hmid.waits_getD with ⟨v, hunread', hwaits⟩
          rw [h.length_eq, hmid.length_eq, hunread, hunread', R.init_waits _ v hwaits,
            List.nil_append, List.length_append]
          omega

/-- A message that is not complete awaits more. -/
theorem Loaded.readMessage_none (h : R.Loaded cap s c conn)
    (hwrite : conn.bufferRecv.hasWrite = true)
    (hread : readMessage K conn = .ok (conn', none)) :
    ∃ s', D.feed s c = .ok (.inl s') ∧ R.Reading cap s' conn' := by
  have hstep := readMessage_step h hwrite
  cases hfeed : D.feed s c with
  | error e =>
      rw [hfeed, hread] at hstep
      cases hstep
  | ok x =>
      cases x with
      | inl t =>
          rw [hfeed, hread] at hstep
          rcases hstep with ⟨mid, hread', hmid⟩
          cases hread'
          exact ⟨t, rfl, hmid⟩
      | inr y =>
          rw [hfeed, hread] at hstep
          rcases hstep with ⟨mid, q, hread', -⟩
          cases hread'

/-- The loop leaves less than there was, or has completed no message. -/
theorem Loaded.readLoop_left (h : R.Loaded cap s c conn) {fuel : Nat} {ps : List β}
    (hloop : readLoop K fuel conn = .ok (conn', ps)) :
    conn'.bufferRecv.length < conn.bufferRecv.length ∨
      (conn'.bufferRecv.length ≤ conn.bufferRecv.length ∧
        ∃ s', D.feed s c = .ok (.inl s') ∧ R.Reading cap s' conn') := by
  induction fuel generalizing s c conn ps with
  | zero =>
      by_cases hwrite : conn.bufferRecv.hasWrite = true
      · simp [readLoop, hwrite] at hloop
      · rw [readLoop_empty hwrite, Except.ok.injEq, Prod.mk.injEq] at hloop
        rcases hloop with ⟨rfl, -⟩
        have hc := h.eq_nil_of_not_hasWrite hwrite
        subst hc
        exact Or.inr ⟨le_rfl, s, R.lawful.nil s h.isOpen, h⟩
  | succ fuel ih =>
      by_cases hwrite : conn.bufferRecv.hasWrite = true
      · rw [readLoop_succ hwrite] at hloop
        cases hread : readMessage K conn with
        | error e => simp [hread] at hloop
        | ok x =>
            rcases x with ⟨mid, _ | p⟩
            · simp only [hread, Except.ok.injEq, Prod.mk.injEq] at hloop
              rcases hloop with ⟨rfl, -⟩
              exact Or.inr ⟨h.length_readMessage_le hread, h.readMessage_none hwrite hread⟩
            · rcases h.readMessage_some hwrite hread with ⟨hlt, rest, hmid⟩
              cases hnext : readLoop K fuel mid with
              | error e => simp [hread, hnext, Except.map] at hloop
              | ok y =>
                  rcases y with ⟨last, qs⟩
                  simp only [hread, hnext, Except.map, Except.ok.injEq, Prod.mk.injEq] at hloop
                  rcases hloop with ⟨rfl, -⟩
                  rcases ih hmid hnext with hless | ⟨hle, -⟩
                  · exact Or.inl (hless.trans hlt)
                  · exact Or.inl (lt_of_le_of_lt hle hlt)
      · rw [readLoop_empty hwrite, Except.ok.injEq, Prod.mk.injEq] at hloop
        rcases hloop with ⟨rfl, -⟩
        have hc := h.eq_nil_of_not_hasWrite hwrite
        subst hc
        exact Or.inr ⟨le_rfl, s, R.lawful.nil s h.isOpen, h⟩

theorem Reading.unread_received (h : R.Reading cap s conn) (hfit : c.length ≤ conn.room) :
    (conn.received c).bufferRecv.unread = conn.bufferRecv.unread ++ c := by
  have hw := h.valid.writePos_le
  apply NetBuffer.unread_writeBytes h.valid
  simp only [room, NetBuffer.maxLength, NetBuffer.length] at hfit
  omega

theorem Reading.length_received (h : R.Reading cap s conn) (hfit : c.length ≤ conn.room) :
    (conn.received c).bufferRecv.length = conn.bufferRecv.length + c.length := by
  rw [(h.loaded hfit).length_eq, h.unread_received hfit, List.length_append, Loaded.length_eq h]

/-- A connection on which reads go on. -/
def Serves (R : Decodes K D) (cap : Nat) (conn : Connection β) : Prop :=
  ∃ s, R.Reading cap s conn

theorem Reading.nextRead_left (h : R.Reading cap s conn) {done : List β}
    {y : Connection β × List β} (hnext : nextRead K (conn, done) c = some y) :
    R.Serves cap y.1 ∧ (y.1.bufferRecv.length < conn.bufferRecv.length + c.length ∨
      (y.1.bufferRecv.length ≤ conn.bufferRecv.length + c.length ∧
        ∃ s', D.feed s c = .ok (.inl s') ∧ R.Reading cap s' y.1)) := by
  rcases nextRead_eq_some_iff.mp hnext with ⟨hfit, hread⟩
  have hloaded := h.loaded hfit
  have hlen := h.length_received hfit
  refine ⟨?_, ?_⟩
  · rcases R.lawful.exists_pumps h.isOpen c with ⟨ms, out, hpumps⟩
    have hpumped := readSome_pumps hpumps h hfit done
    rw [hread] at hpumped
    cases out with
    | error e => cases hpumped
    | ok s' =>
        rcases hpumped with ⟨last, ps, heq, -, hlast⟩
        rw [Except.ok.injEq] at heq
        rw [heq]
        exact ⟨s', hlast⟩
  · rw [readSome_eq h.connected] at hread
    cases hloop : readLoop K ((conn.received c).bufferRecv.length + 1) (conn.received c) with
    | error e => simp [hloop, Except.map] at hread
    | ok x =>
        simp only [hloop, Except.map, Except.ok.injEq] at hread
        rw [← hread, ← hlen]
        exact hloaded.readLoop_left hloop

theorem Serves.nextRead {x y : Connection β × List β} (h : R.Serves cap x.1)
    (hnext : nextRead K x c = some y) : R.Serves cap y.1 := by
  rcases h with ⟨s, hs⟩
  exact (hs.nextRead_left hnext).1

theorem Reading.roomLeft_iff (h : R.Reading bufferSize s conn) :
    conn.RoomLeft ↔ conn.bufferRecv.length < bufferSize := by
  have hmax := h.maxLen
  simp only [RoomLeft, room, NetBuffer.maxLength, hmax]
  omega

/-- A class whose blocks leave little in the buffer always leaves room. -/
theorem keepsRoom (R : Decodes K D)
    (hleft : ∀ s k u, R.Waits s k u → u.length < bufferSize) (sid : SessionId)
    (cs : List Bytes) : KeepsRoom K sid cs := by
  have hstart : R.Serves bufferSize (accepted sid bufferSize) := ⟨D.init, reading_accepted _ _⟩
  refine (along_iff_along (I := fun x => R.Serves bufferSize x.1) (P := fun _ _ => True) ?_ ?_
    hstart).mpr (along_of_forall fun _ _ => trivial)
  · intro x c hx
    refine iff_of_true ?_ trivial
    intro y hnext
    rcases hx.nextRead hnext with ⟨s, hs⟩
    rw [hs.roomLeft_iff, Loaded.length_eq hs]
    rcases hs.pending with ⟨u, hunread, hpending⟩
    rw [hunread, List.append_nil]
    cases hwait : y.1.waitMessage with
    | none =>
        rw [hwait] at hpending
        rw [hpending.2]
        decide
    | some k =>
        rw [hwait] at hpending
        exact hleft s k u hpending.2
  · intro x c y hx _ hnext
    exact hx.nextRead hnext

end Decodes

/-- A header that is not complete is all that `NetBlock` leaves. -/
theorem NetBlock.keepsRoom (s : SessionId) (cs : List Bytes) :
    Connection.KeepsRoom NetBlock.blockClass s cs := by
  refine NetBlock.decodes.keepsRoom ?_ s cs
  intro v k u hwaits
  have hsize : sizeofHead < bufferSize := by decide
  cases hwaits with
  | head hlen _ _ hu =>
      rw [hu]
      exact hlen.trans hsize
  | body _ _ _ _ hu =>
      rw [hu]
      decide

section
variable [LexicalCast]

/-- `RedisBlock` takes everything out of the buffer. -/
theorem RedisBlock.keepsRoom (s : SessionId) (cs : List Bytes) :
    Connection.KeepsRoom RedisBlock.blockClass s cs := by
  refine RedisBlock.readsReplies.decodes.keepsRoom ?_ s cs
  rintro a k u ⟨hwaits, hreader, hopen⟩
  have hdone : k.bodyDone = false := by
    rw [← RedisBlock.isDone_reader k u, ← hopen.isDone_eq]
    exact congrArg Reader.isDone hreader
  rw [hwaits.2 hdone]
  decide

/-! ## Lines without an end -/

variable {cfg : ReaderConfig}

/-- An element that is not complete leaves no more than is behind its line. -/
theorem takeElement_left {held u l r rest : Bytes} (hsplit : Lines.splitAfter LF u = some (l, r))
    (h : takeElement cfg held u = .ok (.inl rest)) : rest = r := by
  rw [takeElement_of_split hsplit] at h
  cases hn : elementNumber (rtrim (held ++ l)) with
  | error e => simp [hn] at h
  | ok n =>
      by_cases hnil : n = -1
      · simp [hn, hnil] at h
      · cases hb : takeBody cfg (cfg.elementLen n) [] r with
        | error e => simp [hn, hnil, hb] at h
        | ok out =>
            cases out with
            | none =>
                simp only [hn, ok_bind, if_neg hnil, hb, Except.ok.injEq, Sum.inl.injEq] at h
                exact h.symm
            | some p => simp [hn, hnil, hb] at h

/-- The element loop holds a line without its end, or has used up part of its input. -/
theorem elements_left {count : Nat} {items : List Bytes} {held u : Bytes} {a : Reader}
    (h : elements cfg count items held u = .ok a) :
    (LF ∉ u ∧ a.held = held ++ u) ∨ a.held.length < u.length := by
  refine elements_induction (C := fun _ held u => (LF ∉ u ∧ a.held = held ++ u) ∨
    a.held.length < u.length) ?_ ?_ ?_ h
  · rintro items held u rest helem rfl
    cases hsplit : Lines.splitAfter LF u with
    | none =>
        simp only [takeElement, hsplit, Except.ok.injEq, Sum.inl.injEq] at helem
        exact Or.inl ⟨Lines.splitAfter_eq_none_iff.mp hsplit, helem.symm⟩
    | some lr =>
        rcases lr with ⟨l, r⟩
        rw [takeElement_left hsplit helem]
        exact Or.inr (Lines.splitAfter_length_lt hsplit)
  · rintro items held u body r helem - rfl
    exact Or.inr (takeElement_length_lt helem)
  · intro items held u body r helem _ hrest
    have hlt := takeElement_length_lt helem
    rcases hrest with ⟨-, hheld⟩ | hless
    · rw [hheld, List.nil_append]
      exact Or.inr hlt
    · exact Or.inr (hless.trans hlt)

/-- A step of a reader awaits a body, holds a line without its end behind what it held,
or has used up part of its input. -/
theorem Reader.feed_left {a a' : Reader} {c : Bytes} (ha : a.isDone = false)
    (h : a.feed cfg c = .ok a') :
    (∃ len, a'.phase = .body len) ∨ a'.isDone = true ∨
      (LF ∉ c ∧ ∀ len, a.phase ≠ .body len) ∨ a'.held.length < c.length := by
  rcases a with ⟨phase, held, items⟩
  cases phase with
  | start =>
      simp only [Reader.feed] at h
      cases hsplit : Lines.splitAfter LF c with
      | none => exact Or.inr (Or.inr (Or.inl ⟨Lines.splitAfter_eq_none_iff.mp hsplit, by simp⟩))
      | some lr =>
          rcases lr with ⟨l, r⟩
          have hlt := Lines.splitAfter_length_lt hsplit
          simp only [hsplit] at h
          rcases startLine_cases h with ⟨hdone, -⟩ | ⟨len, hbody⟩ | ⟨count, helements⟩
          · exact Or.inr (Or.inl hdone)
          · rcases bulkBody_ok hbody with ⟨rfl, -⟩ | ⟨-, -, hdone, -⟩
            · exact Or.inl ⟨len, rfl⟩
            · exact Or.inr (Or.inl hdone)
          · refine Or.inr (Or.inr (Or.inr ?_))
            rcases elements_left helements with ⟨-, hheld⟩ | hless
            · rw [hheld, List.nil_append]
              exact hlt
            · exact hless.trans hlt
  | body len =>
      rcases bulkBody_ok h with ⟨rfl, -⟩ | ⟨-, -, hdone, -⟩
      · exact Or.inl ⟨len, rfl⟩
      · exact Or.inr (Or.inl hdone)
  | elements count =>
      rcases elements_left h with ⟨hfree, -⟩ | hless
      · exact Or.inr (Or.inr (Or.inl ⟨hfree, by simp⟩))
      · exact Or.inr (Or.inr (Or.inr hless))
  | done t => cases ha

/-! ## `RedisBlock2` -/

/-- Without the end of a line there is nothing that a parser can take. -/
theorem RedisParse.parse_of_notMem {p : RedisParse} (hdone : p.done = false)
    (htype : p.type ≠ .bulkReply) {buf : Bytes} (hfree : LF ∉ buf) :
    ∃ r, p.parse buf 0 = .ok (p, 0, r) := by
  have hline : p.readLine buf 0 = (p, 0, none) := by
    rw [readLine_spec p (Nat.zero_le _), List.drop_zero, Lines.splitAfter_eq_none_iff.mpr hfree]
  have helement : p.parseElement buf 0 = .ok (p, 0, false) := by
    simp only [parseElement, hline]
  by_cases hempty : buf.length = 0
  · exact ⟨true, by simp [parse, hdone, hempty]⟩
  · refine ⟨false, ?_⟩
    by_cases hno : p.type = .noReply
    · simp [parse, hdone, hempty, hno, parseType, hline]
    · by_cases hmulti : p.type = .multiBulkReply
      · simp [parse, hdone, hempty, parseBule, hmulti, parseElements, helement]
      · simp [parse, hdone, hempty, hno, parseBule, htype, hmulti]

omit [LexicalCast] in
/-- The end of a line is not left in the buffer. -/
theorem RedisParse.Waits.notMem {p : RedisParse} {u : Bytes} (h : p.Waits u)
    (hdone : p.done = false) : LF ∉ u := by
  cases h with
  | done hdone' => simp [hdone'] at hdone
  | line _ _ _ _ hfree => exact hfree
  | body _ _ _ hu => simp [hu]
  | elements _ _ hfree => exact hfree

omit [LexicalCast] in
/-- Nothing of a body is left in the buffer. -/
theorem RedisParse.Waits.eq_nil {p : RedisParse} {u : Bytes} (h : p.Waits u) {len : Nat}
    (hphase : p.phase = .body len) : u = [] := by
  cases h with
  | done hdone => simp [phase, hdone] at hphase
  | line hdone htype => simp [phase, hdone, htype] at hphase
  | body _ _ _ hu => exact hu
  | elements hdone htype => simp [phase, hdone, htype] at hphase

namespace RedisBlock2

open Connection

/-- A read fills the buffer up while the end of a line is awaited, and the buffer has no
end of a line in it. -/
def LineFills (conn : Connection RedisBlock2) (c : Bytes) : Prop :=
  (∀ k ∈ conn.waitMessage, k.parse.type ≠ .bulkReply) ∧ c.length = conn.room ∧
    LF ∉ conn.bufferRecv.unread ++ c

variable {cap : Nat} {a : Reader} {conn : Connection RedisBlock2} {c : Bytes}

/-- The parser that the next `recv` calls is not done, and awaits a body only if its block
does. -/
theorem exists_parse (h : readsReplies.decodes.Reading cap a conn) :
    (conn.waitMessage.getD (create conn.session 0)).parse.done = false ∧
      ((∀ k ∈ conn.waitMessage, k.parse.type ≠ .bulkReply) →
        (conn.waitMessage.getD (create conn.session 0)).parse.type ≠ .bulkReply) := by
  rcases h.pending with ⟨u, -, hpending⟩
  cases hwait : conn.waitMessage with
  | none => exact ⟨rfl, fun _ => by simp [create]⟩
  | some k =>
      rw [hwait] at hpending
      rcases hpending with ⟨-, hwaits, hreader, hopen⟩
      refine ⟨?_, fun htype => htype k rfl⟩
      rw [Option.getD_some, ← RedisParse.isDone_reader k.parse u, ← hopen.isDone_eq]
      exact congrArg Reader.isDone hreader

/-- Such a read is successful, and leaves the buffer full. -/
theorem nextRead_of_lineFills (h : readsReplies.decodes.Reading cap a conn) (hcap : 0 < cap)
    (hfill : LineFills conn c) (done : List RedisBlock2) :
    ∃ y, nextRead blockClass (conn, done) c = some y ∧ y.1.bufferRecv.length = cap := by
  rcases hfill with ⟨htype, hroom, hfree⟩
  have hfit : c.length ≤ conn.room := le_of_eq hroom
  have hloaded := h.loaded hfit
  have hlen : (conn.received c).bufferRecv.length = cap := by
    have hle := h.length_le
    have hmax := h.maxLen
    rw [h.length_received hfit, hroom, room, NetBuffer.maxLength, hmax]
    omega
  have hwrite : (conn.received c).bufferRecv.hasWrite = true := by
    rw [NetBuffer.hasWrite, hlen]
    exact decide_eq_true hcap
  rcases exists_parse h with ⟨hdone, hawaits⟩
  rw [← h.unread_received hfit] at hfree
  rcases RedisParse.parse_of_notMem hdone (hawaits htype) hfree with ⟨r, hparse⟩
  rcases NetBuffer.readData_clearReadBuffer hloaded.valid (Nat.zero_le _) with
    ⟨hcomp, hunread, -⟩
  -- the parser leaves everything in the buffer
  have hsame : ((conn.received c).bufferRecv.readData 0).1.clearReadBuffer.length = cap := by
    rw [NetBuffer.length, hcomp.writePos_eq, hunread, List.drop_zero, ← hloaded.length_eq, hlen]
  have hrecv : blockClass.recv (conn.waitMessage.getD (create conn.session 0))
      (conn.received c).bufferRecv =
        .ok ({ conn.waitMessage.getD (create conn.session 0) with state := .body },
          ((conn.received c).bufferRecv.readData 0).1.clearReadBuffer, r) := by
    simp [blockClass, recv, hparse, RedisParse.isDone, hdone]
  have hmessage : readMessage blockClass (conn.received c) = _ := readMessage_of_recv hrecv rfl
  refine ⟨({ conn.received c with
    waitMessage := some { conn.waitMessage.getD (create conn.session 0) with state := .body }
    bufferRecv := ((conn.received c).bufferRecv.readData 0).1.clearReadBuffer }, done ++ []),
    nextRead_eq_some_iff.mpr ⟨hfit, ?_⟩, hsame⟩
  rw [Decodes.readSome_eq h.connected, Decodes.readLoop_succ hwrite, hmessage]
  rfl

/-- No end of a line is left in the buffer, and a body is awaited by a reader that awaits
one. -/
theorem awaits_of_reading (h : readsReplies.decodes.Reading cap a conn) :
    LF ∉ conn.bufferRecv.unread ∧
      ((∀ len, a.phase ≠ .body len) → ∀ k ∈ conn.waitMessage, k.parse.type ≠ .bulkReply) := by
  have hdone := (exists_parse h).1
  rcases h.pending with ⟨u, hunread, hpending⟩
  rw [hunread, List.append_nil]
  cases hwait : conn.waitMessage with
  | none =>
      rw [hwait] at hpending
      exact ⟨by simp [hpending.2], by simp⟩
  | some k =>
      rw [hwait] at hpending hdone
      rcases hpending with ⟨-, ⟨hwaits, -⟩, rfl, -⟩
      refine ⟨hwaits.notMem hdone, ?_⟩
      rintro hphase k' hk' htype
      rw [Option.mem_def, Option.some.injEq] at hk'
      subst hk'
      have hbody : k.parse.phase = .body k.parse.tempMaxLen := by
        rw [Option.getD_some] at hdone
        simp [RedisParse.phase, hdone, htype]
      exact hphase _ hbody

/-- What a read without a completed message leaves: nothing of a body, a line that has not
ended, or less than it was given. -/
theorem length_of_feed {b : Reader} (ha : a.isDone = false)
    (hfeed : (replyDecoder RedisParse.readerConfig).feed a c = .ok (.inl b))
    (h : readsReplies.decodes.Reading cap b conn) :
    conn.bufferRecv.length = 0 ∨ (LF ∉ c ∧ ∀ len, a.phase ≠ .body len) ∨
      conn.bufferRecv.length < c.length := by
  rcases h.pending with ⟨u, hunread, hpending⟩
  rw [h.length_eq, hunread, List.append_nil]
  cases hwait : conn.waitMessage with
  | none =>
      rw [hwait] at hpending
      exact Or.inl (by rw [hpending.2, List.length_nil])
  | some k =>
      rw [hwait] at hpending
      rcases hpending with ⟨-, ⟨hwaits, -⟩, rfl, hopen⟩
      rcases feed_replyDecoder_cases RedisParse.readerConfig a c with
        ⟨e, -, h₁⟩ | ⟨b, hb, -, h₁⟩ | ⟨t, r, vs, -, h₁⟩
      · rw [h₁] at hfeed
        cases hfeed
      · rw [h₁, Except.ok.injEq, Sum.inl.injEq] at hfeed
        rw [hfeed] at hb
        rcases Reader.feed_left ha hb with ⟨len, hphase⟩ | hdone | hline | hheld
        · exact Or.inl (by rw [hwaits.eq_nil hphase, List.length_nil])
        · rw [hopen.isDone_eq] at hdone
          cases hdone
        · exact Or.inr (Or.inl hline)
        · have hle := (readsReplies.reader_held k u).length_le
          exact Or.inr (Or.inr (lt_of_le_of_lt hle hheld))
      · rw [h₁] at hfeed
        cases hfeed

/-- A read leaves room unless it fills the buffer up with a line that does not end. -/
theorem roomLeft_nextRead_iff (h : readsReplies.decodes.Reading bufferSize a conn)
    (done : List RedisBlock2) :
    (∀ y, nextRead blockClass (conn, done) c = some y → y.1.RoomLeft) ↔ ¬ LineFills conn c := by
  constructor
  · intro hroom hfill
    rcases nextRead_of_lineFills h (by decide) hfill done with ⟨y, hnext, hlen⟩
    have hlt := (hroom y hnext).1
    omega
  · intro hfill y hnext
    rcases nextRead_eq_some_iff.mp hnext with ⟨hfit, -⟩
    have hle := (h.loaded hfit).length_le
    rw [h.length_received hfit] at hle
    rcases h.nextRead_left hnext with ⟨⟨b, hb⟩, hless⟩
    rw [hb.roomLeft_iff]
    by_contra hfull
    rcases hless with hlt | ⟨hkept, b', hfeed, hb'⟩
    · omega
    · rcases length_of_feed h.isOpen.isDone_eq hfeed hb' with hnil | ⟨hfree, hphase⟩ | hlt
      · rw [hnil] at hfull
        exact hfull (by decide)
      · rcases awaits_of_reading h with ⟨hunread, htype⟩
        refine hfill ⟨htype hphase, ?_, ?_⟩
        · have hmax := h.maxLen
          simp only [room, NetBuffer.maxLength, hmax]
          omega
        · rw [List.mem_append]
          exact fun hmem => hmem.elim hunread hfree
      · omega

/-- `RedisBlock2` leaves room as long as no read fills the buffer up with a line that does
not end. -/
theorem keepsRoom_iff_along (s : SessionId) (cs : List Bytes) :
    KeepsRoom blockClass s cs ↔
      Along (nextRead blockClass) (fun x c => ¬ LineFills x.1 c) (accepted s bufferSize, [])
        cs := by
  have hstart : readsReplies.decodes.Serves bufferSize
      (accepted s bufferSize : Connection RedisBlock2) :=
    ⟨Reader.fresh, Decodes.reading_accepted _ _⟩
  refine along_iff_along (I := fun x => readsReplies.decodes.Serves bufferSize x.1) ?_ ?_ hstart
  · rintro ⟨conn, done⟩ c ⟨a, ha⟩
    exact roomLeft_nextRead_iff ha done
  · intro x c y hx _ hnext
    exact hx.nextRead hnext

end RedisBlock2

/-! ## The three classes -/

/-- `NetBlock` and `RedisBlock` leave room after every read of every stream, and
`RedisBlock2` if and only if no read fills the buffer up with a line that does not end. -/
theorem keepsRoom_iff (s : SessionId) (cs : List Bytes) :
    Connection.KeepsRoom NetBlock.blockClass s cs ∧
      Connection.KeepsRoom RedisBlock.blockClass s cs ∧
      (Connection.KeepsRoom RedisBlock2.blockClass s cs ↔
        Along (Connection.nextRead RedisBlock2.blockClass)
          (fun x c => ¬ RedisBlock2.LineFills x.1 c) (Connection.accepted s bufferSize, []) cs) :=
  ⟨NetBlock.keepsRoom s cs, RedisBlock.keepsRoom s cs, RedisBlock2.keepsRoom_iff_along s cs⟩

end

/-- A status line as long as the buffer leaves no room, and the next read asks for no
byte. -/
theorem long_line_fills :
    ¬ Connection.KeepsRoom RedisBlock2.blockClass 9 [List.replicate bufferSize 43] := by
  rw [RedisBlock2.keepsRoom_iff_along]
  rintro ⟨hline, -⟩
  refine hline ⟨?_, ?_, ?_⟩
  · rintro k hk
    cases hk
  · rw [List.length_replicate, Connection.room_accepted]
  · intro hmem
    rw [List.mem_append] at hmem
    rcases hmem with hmem | hmem
    · have hnil :
          (Connection.accepted 9 bufferSize : Connection RedisBlock2).bufferRecv.unread = [] :=
        NetBuffer.unread_create bufferSize
      rw [hnil] at hmem
      cases hmem
    · exact absurd (List.eq_of_mem_replicate hmem) (by decide)

end FannyNet

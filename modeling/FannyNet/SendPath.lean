import FannyNet.Block
import FannyNet.IoService

/-!
# The send path

What `send`, `writeMessage`, `handleWrite` and `handleClose` work on, as a system of its
own: each step of a connection makes one of nine moves on its send path.  At most one
write is in flight, and what has been written, what is in the send buffer and what is
left of the queued blocks is what was handed to `send`, in order.

Main results:

- Theorem `ConnState.step_sendPath`: a step of the connection is a move of its send path.
- Theorem `SendPath.Move.flying`: every move keeps a single write in flight.
- Theorem `ConnState.sent_in_order`: the bytes handed to `send` stay together, in every
  run of a connection that stays up.
- Theorem `ConnState.no_lost_wakeup`: while anything is queued a write is in flight or a
  handler of the send path is due.
-/

namespace FannyNet

open Library.Transition

/-! ## Filling the send buffer -/

/-- The bytes still to be read from the buffers of a list of blocks. -/
def unreadAll (ps : List NetBuffer) : Bytes :=
  ps.flatMap NetBuffer.unread

@[simp]
theorem unreadAll_nil : unreadAll [] = [] :=
  rfl

@[simp]
theorem unreadAll_cons (p : NetBuffer) (ps : List NetBuffer) :
    unreadAll (p :: ps) = p.unread ++ unreadAll ps :=
  rfl

theorem unreadAll_append (ps qs : List NetBuffer) :
    unreadAll (ps ++ qs) = unreadAll ps ++ unreadAll qs :=
  List.flatMap_append

/-- Of buffers that were never read, everything is still to be read. -/
theorem unreadAll_eq_data {ps : List NetBuffer} (h : ∀ p ∈ ps, p.readPos = 0) :
    unreadAll ps = ps.flatMap NetBuffer.data := by
  refine List.flatMap_congr fun p hp => ?_
  rw [NetBuffer.unread, h p hp, List.drop_zero]

/-- A send buffer between two handlers: nothing in front of the unread bytes. -/
structure Sendable (out : NetBuffer) : Prop where
  valid : out.Valid
  lock : out.lock = false
  readPos : out.readPos = 0

theorem Sendable.unread_eq {out : NetBuffer} (h : Sendable out) : out.unread = out.data := by
  rw [NetBuffer.unread, h.readPos, List.drop_zero]

/-- An empty send buffer has nothing unread. -/
theorem Sendable.unread_eq_nil {out : NetBuffer} (h : Sendable out) (hlen : out.length = 0) :
    out.unread = [] := by
  rw [← List.length_eq_zero_iff, h.valid.length_unread, h.readPos, Nat.sub_zero]
  exact hlen

theorem hasRead_iff {b : NetBuffer} (hb : b.Valid) : b.hasRead = true ↔ b.unread ≠ [] := by
  rw [NetBuffer.hasRead, decide_eq_true_eq, hb.needReadLength_eq, gt_iff_lt, List.length_pos_iff]

/-- A block gives up the front of its bytes to the send buffer. -/
theorem readBuffer_sendable {p out : NetBuffer} (hp : p.Valid) (hout : Sendable out) :
    ∃ p' out' r, p.readBuffer out = (p', out', r) ∧ p'.Valid ∧ Sendable out' ∧
      out'.unread ++ p'.unread = out.unread ++ p.unread ∧ out.unread <+: out'.unread := by
  rcases NetBuffer.readBuffer_spec hp hout.valid hout.lock with
    ⟨p', out', r, hread, hp', hvalid, hunread, hdata, hpos, -, hlock, -, -, -⟩
  have hpos' : out'.readPos = 0 := hpos.trans hout.readPos
  have hout' : Sendable out' := ⟨hvalid, hlock, hpos'⟩
  have hbytes : out'.unread = out.unread ++ p.unread.take (p.moved out) := by
    rw [hout'.unread_eq, hout.unread_eq, hdata]
  refine ⟨p', out', r, hread, hp', hout', ?_, ?_⟩
  · rw [hbytes, hunread, List.append_assoc, List.take_append_drop]
  · rw [hbytes]
    exact List.prefix_append _ _

/-- Filling the send buffer moves bytes from the front of the queue to its end. -/
theorem Connection.fillSend_spec {ps : List NetBuffer} {out : NetBuffer}
    (hps : ∀ p ∈ ps, p.Valid) (hout : Sendable out) :
    ∃ ps' out', Connection.fillSend ps out = (ps', out') ∧ (∀ p ∈ ps', p.Valid) ∧ Sendable out' ∧
      out'.unread ++ unreadAll ps' = out.unread ++ unreadAll ps ∧ out.unread <+: out'.unread := by
  induction ps generalizing out with
  | nil => exact ⟨[], out, rfl, by simp, hout, rfl, List.prefix_refl _⟩
  | cons p ps ih =>
      rcases readBuffer_sendable (hps p (by simp)) hout with
        ⟨p', out', r, hread, hp', hout', hbytes, hkept⟩
      have hrest : ∀ q ∈ ps, q.Valid := fun q hq => hps q (by simp [hq])
      by_cases hmore : p'.hasRead = true
      · refine ⟨p' :: ps, out', ?_, ?_, hout', ?_, hkept⟩
        · simp only [Connection.fillSend, hread, if_pos hmore]
        · intro q hq
          rcases List.mem_cons.mp hq with rfl | hq
          · exact hp'
          · exact hrest q hq
        · rw [unreadAll_cons, unreadAll_cons, ← List.append_assoc, hbytes, List.append_assoc]
      · rcases ih hrest hout' with
          ⟨ps', out'', hfill, hvalid, hout'', hbytes', hkept'⟩
        refine ⟨ps', out'', ?_, hvalid, hout'', ?_, hkept.trans hkept'⟩
        · simp only [Connection.fillSend, hread, if_neg hmore, hfill]
        · -- the block is used up and popped
          have hempty : p'.unread = [] := by
            by_contra hne
            exact hmore ((hasRead_iff hp').mpr hne)
          rw [hempty, List.append_nil] at hbytes
          rw [hbytes', hbytes, unreadAll_cons, List.append_assoc]

/-- The loop ends with the queue empty or the send buffer full. -/
theorem Connection.fillSend_full {ps : List NetBuffer} {out : NetBuffer}
    (hps : ∀ p ∈ ps, p.Valid) (hout : Sendable out) :
    (Connection.fillSend ps out).2.maxLen = out.maxLen ∧
      ((Connection.fillSend ps out).1 = [] ∨
        (Connection.fillSend ps out).2.writePos = out.maxLen) := by
  induction ps generalizing out with
  | nil => exact ⟨rfl, Or.inl rfl⟩
  | cons p ps ih =>
      have hp : p.Valid := hps p (by simp)
      have hrest : ∀ q ∈ ps, q.Valid := fun q hq => hps q (by simp [hq])
      rcases readBuffer_sendable hp hout with ⟨p', out', r, hread, hp', hout', -, -⟩
      rcases NetBuffer.readBuffer_spec hp hout.valid hout.lock with
        ⟨p'', out'', r', hread', -, -, hleft, -, -, hmaxLen, -, -, -, hwrote⟩
      rw [hread, Prod.mk.injEq, Prod.mk.injEq] at hread'
      rcases hread' with ⟨rfl, rfl, rfl⟩
      by_cases hmore : p'.hasRead = true
      · -- the block did not fit
        rw [hasRead_iff hp', hleft, ne_eq, List.drop_eq_nil_iff, not_le] at hmore
        have hfull : out'.writePos = out.maxLen := by
          have hle := hout.valid.writePos_le
          rw [hwrote]
          simp only [NetBuffer.moved] at hmore ⊢
          omega
        have hfill : Connection.fillSend (p :: ps) out = (p' :: ps, out') := by
          have hmore' : p'.hasRead = true := by
            rw [hasRead_iff hp', hleft, ne_eq, List.drop_eq_nil_iff, not_le]
            exact hmore
          simp only [Connection.fillSend, hread, if_pos hmore']
        rw [hfill]
        exact ⟨hmaxLen, Or.inr hfull⟩
      · have hfill : Connection.fillSend (p :: ps) out = Connection.fillSend ps out' := by
          simp only [Connection.fillSend, hread, if_neg hmore]
        rw [hfill, ← hmaxLen]
        exact ih hrest hout'

/-- The send buffer after `size` written bytes are discarded from it. -/
theorem sendable_discard {out : NetBuffer} (hout : Sendable out) {size : Nat}
    (hsize : size ≤ out.unread.length) :
    Sendable (out.readData size).1.clearReadBuffer ∧
      (out.readData size).1.clearReadBuffer.unread = out.unread.drop size := by
  rw [← hout.valid.needReadLength_eq] at hsize
  rcases NetBuffer.readData_clearReadBuffer hout.valid hsize with ⟨hcompact, hunread, -⟩
  exact ⟨⟨hcompact.valid, hcompact.lock.trans hout.lock, hcompact.readPos⟩, hunread⟩

/-! ## The moves of the send path -/

/-- The part of a connection that sending works on. -/
structure SendPath where
  connected : Bool
  isSend : Bool
  buffer : NetBuffer
  sendList : List NetBuffer
  posted : List Nat
  writing : List Bytes
  accepted : List NetBuffer
  completed : Bytes
  writeFailed : Bool
  closed : Bool
deriving DecidableEq, Repr

def ConnState.sendPath {β : Type} (s : ConnState β) : SendPath where
  connected := s.conn.connected
  isSend := s.conn.isSend
  buffer := s.conn.bufferSend
  sendList := s.conn.sendList
  posted := s.posted
  writing := s.writing
  accepted := s.accepted
  completed := s.completed
  writeFailed := s.writeFailed
  closed := s.closed

namespace SendPath

/-- There is something left to send. -/
def unsent (s : SendPath) : Bool :=
  s.isSend || !s.sendList.isEmpty || s.buffer.hasRead

theorem unsent_eq_false_iff {s : SendPath} : s.unsent = false ↔
    s.isSend = false ∧ s.sendList = [] ∧ s.buffer.hasRead = false := by
  simp [unsent, and_assoc]

/-- The send buffer and the queue once `size` written bytes are discarded. -/
def refilled (s : SendPath) (size : Nat) : List NetBuffer × NetBuffer :=
  Connection.fillSend s.sendList (s.buffer.readData size).1.clearReadBuffer

/-- The write that follows, if there is anything to write. -/
def started (s : SendPath) (size : Nat) : List Bytes :=
  if (s.refilled size).2.hasRead then [(s.refilled size).2.unread] else []

/-- Discard `size` written bytes, fill the send buffer and start the next write. -/
def refill (s : SendPath) (size : Nat) : SendPath :=
  { s with
    isSend := (s.refilled size).2.hasRead
    buffer := (s.refilled size).2
    sendList := (s.refilled size).1
    writing := s.writing ++ s.started size }

end SendPath

/-- The two handlers that bring a connection up. -/
def ConnAction.ComesUp : ConnAction → Prop
  | .handler .handlAccept => True
  | .handler (.handleConnect _) => True
  | _ => False

/-- Neither brings the connection up nor takes it down. -/
def ConnAction.StaysUp : ConnAction → Prop
  | .handler (.handleClose _) => False
  | a => ¬ a.ComesUp

/-- Keeps the connection up, and is not a failed write. -/
def ConnAction.Unbroken : ConnAction → Prop
  | .handler (.handleWrite _ true _) => False
  | a => a.StaysUp

theorem ConnAction.StaysUp.not_comesUp {a : ConnAction} (h : a.StaysUp) : ¬ a.ComesUp := by
  cases a with
  | handler handler =>
      cases handler with
      | handleClose i => exact h.elim
      | _ => exact h
  | _ => exact h

theorem ConnAction.Unbroken.staysUp {a : ConnAction} (h : a.Unbroken) : a.StaysUp := by
  cases a with
  | handler handler =>
      cases handler with
      | handleWrite i error size =>
          cases error with
          | false => exact h
          | true => exact h.elim
      | _ => exact h
  | _ => exact h

/-- The block that an action hands to `send`. -/
def ConnAction.sent : ConnAction → List NetBuffer
  | .send p => [p.val]
  | _ => []

namespace SendPath

/-- The moves, with the action that makes them and the writes they start. -/
inductive Move : SendPath → ConnAction → List Bytes → SendPath → Prop where
  | quiet (s a) (h : a.sent = []) : Move s a [] s
  | send (s) (p : {p : NetBuffer // p.Valid}) : Move s (.send p) []
      { s with
        sendList := s.sendList ++ [p.val], posted := s.posted ++ [0]
        accepted := s.accepted ++ [p.val] }
  | idle (s i) (h : s.connected = false ∨ s.isSend = true) :
      Move s (.handler (.writeMessage i)) [] { s with posted := s.posted.eraseIdx i }
  | wake (s i size) (hi : s.posted[i]? = some size) (hconn : s.connected = true)
      (hsend : s.isSend = false) :
      Move s (.handler (.writeMessage i)) (s.started size)
        ({ s with posted := s.posted.eraseIdx i }.refill size)
  | shut (s i er) (h : er = true ∨ s.unsent = false) :
      Move s (.handler (.handleClose i)) [] { s with connected := false, closed := true }
  | up (s a) (h : a.ComesUp) :
      Move s a [] { s with connected := true, writeFailed := false, closed := false }
  | failed (s i size bytes) (hi : s.writing[i]? = some bytes) :
      Move s (.handler (.handleWrite i true size)) []
        { s with isSend := false, writing := s.writing.eraseIdx i, writeFailed := true }
  | late (s i bytes) (hi : s.writing[i]? = some bytes) (hconn : s.connected = false) :
      Move s (.handler (.handleWrite i false bytes.length)) []
        { s with
          isSend := false, writing := s.writing.eraseIdx i, completed := s.completed ++ bytes }
  | written (s i bytes) (hi : s.writing[i]? = some bytes) (hconn : s.connected = true) :
      Move s (.handler (.handleWrite i false bytes.length)) (s.started bytes.length)
        ({ s with
          isSend := false, writing := s.writing.eraseIdx i,
          completed := s.completed ++ bytes }.refill bytes.length)

/-! ## One write in flight -/

/-- Either one write of the whole send buffer is in flight, or none is. -/
structure Flying (s : SendPath) : Prop where
  buffer : Sendable s.buffer
  blocks : ∀ p ∈ s.sendList, p.Valid
  posted : ∀ size ∈ s.posted, size = 0
  writing : (s.isSend = true ∧ s.writing = [s.buffer.unread] ∧ s.buffer.unread ≠ []) ∨
    (s.isSend = false ∧ s.writing = [])

/-- Nothing is left to send when nothing is in flight, in the queue or in the buffer. -/
theorem Flying.unsent_eq_false_iff {s : SendPath} (h : s.Flying) :
    s.unsent = false ↔ s.isSend = false ∧ s.sendList = [] ∧ s.buffer.unread = [] := by
  have hread := not_congr (hasRead_iff h.buffer.valid)
  rw [Bool.not_eq_true, not_not] at hread
  rw [SendPath.unsent_eq_false_iff, hread]

/-- The only write in flight is of what is in the send buffer. -/
theorem Flying.of_getElem? {s : SendPath} (h : s.Flying) {i : Nat} {bytes : Bytes}
    (hi : s.writing[i]? = some bytes) :
    s.isSend = true ∧ bytes = s.buffer.unread ∧ s.writing.eraseIdx i = [] ∧
      s.buffer.unread ≠ [] := by
  have hmem := List.mem_of_getElem? hi
  rcases h.writing with ⟨hsend, hwriting, hne⟩ | ⟨-, hwriting⟩
  · have hlt := (List.getElem?_eq_some_iff.mp hi).1
    rw [hwriting, List.mem_singleton] at hmem
    rw [hwriting, List.length_singleton] at hlt
    refine ⟨hsend, hmem, ?_, hne⟩
    rw [hwriting, Nat.lt_one_iff.mp hlt, List.eraseIdx_cons_zero]
  · rw [hwriting] at hmem
    cases hmem

/-- Refilling keeps the bytes together, and starts a write of all it put into the send
buffer. -/
theorem refill_spec {s : SendPath} (hout : Sendable s.buffer) (hps : ∀ p ∈ s.sendList, p.Valid)
    {size : Nat} (hsize : size ≤ s.buffer.unread.length) :
    Sendable (s.refill size).buffer ∧ (∀ p ∈ (s.refill size).sendList, p.Valid) ∧
      (s.refill size).buffer.unread ++ unreadAll (s.refill size).sendList =
        s.buffer.unread.drop size ++ unreadAll s.sendList ∧
      s.buffer.unread.drop size <+: (s.refill size).buffer.unread := by
  rcases sendable_discard hout hsize with ⟨hclear, hunread⟩
  rcases Connection.fillSend_spec hps hclear with ⟨ps, out, hfill, hvalid, hout', hbytes, hkept⟩
  have hrefilled : s.refilled size = (ps, out) := hfill
  rw [hunread] at hbytes hkept
  simp only [refill, hrefilled]
  exact ⟨hout', hvalid, hbytes, hkept⟩

/-- With bytes left in the send buffer, refilling starts a write. -/
theorem started_ne_nil {s : SendPath} (hout : Sendable s.buffer)
    (hps : ∀ p ∈ s.sendList, p.Valid) (hne : s.buffer.unread ≠ []) : s.started 0 ≠ [] := by
  rcases refill_spec hout hps (Nat.zero_le _) with ⟨hout', -, -, hkept⟩
  rw [List.drop_zero] at hkept
  have hread : (s.refilled 0).2.hasRead = true := by
    refine (hasRead_iff hout'.valid).mpr ?_
    intro hempty
    rw [hempty] at hkept
    exact hne (List.prefix_nil.mp hkept)
  simp [started, hread]

theorem flying_refill {s : SendPath} (hout : Sendable s.buffer)
    (hps : ∀ p ∈ s.sendList, p.Valid) (hposted : ∀ size ∈ s.posted, size = 0)
    (hwriting : s.writing = []) {size : Nat} (hsize : size ≤ s.buffer.unread.length) :
    (s.refill size).Flying := by
  rcases refill_spec hout hps hsize with ⟨hout', hps', -, -⟩
  refine ⟨hout', hps', hposted, ?_⟩
  have hread := hasRead_iff hout'.valid
  simp only [refill, started, hwriting] at hread ⊢
  cases hbuffer : (s.refilled size).2.hasRead with
  | false => exact Or.inr ⟨rfl, by simp⟩
  | true => exact Or.inl ⟨rfl, by simp, hread.mp hbuffer⟩

/-- Every move keeps at most one write in flight. -/
theorem Move.flying {s t : SendPath} {a : ConnAction} {ws : List Bytes} (h : Move s a ws t)
    (hs : s.Flying) : t.Flying := by
  have hrest : ∀ i, ∀ size ∈ s.posted.eraseIdx i, size = 0 :=
    fun i size hsize => hs.posted size (List.mem_of_mem_eraseIdx hsize)
  cases h with
  | quiet => exact hs
  | send p =>
      refine ⟨hs.buffer, ?_, ?_, hs.writing⟩
      · intro q hq
        rcases List.mem_append.mp hq with hq | hq
        · exact hs.blocks q hq
        · rw [List.mem_singleton.mp hq]
          exact p.property
      · intro size hsize
        rcases List.mem_append.mp hsize with hsize | hsize
        · exact hs.posted size hsize
        · exact List.mem_singleton.mp hsize
  | idle i => exact ⟨hs.buffer, hs.blocks, hrest i, hs.writing⟩
  | wake i size hi hconn hsend =>
      have hzero : size = 0 := hs.posted size (List.mem_of_getElem? hi)
      have hwriting : s.writing = [] := by
        rcases hs.writing with ⟨hsend', -⟩ | ⟨-, hwriting⟩
        · rw [hsend] at hsend'
          cases hsend'
        · exact hwriting
      subst hzero
      exact flying_refill (s := { s with posted := s.posted.eraseIdx i }) hs.buffer hs.blocks
        (hrest i) hwriting (Nat.zero_le _)
  | shut => exact ⟨hs.buffer, hs.blocks, hs.posted, hs.writing⟩
  | up => exact ⟨hs.buffer, hs.blocks, hs.posted, hs.writing⟩
  | failed i size bytes hi =>
      exact ⟨hs.buffer, hs.blocks, hs.posted, Or.inr ⟨rfl, (hs.of_getElem? hi).2.2.1⟩⟩
  | late i bytes hi =>
      exact ⟨hs.buffer, hs.blocks, hs.posted, Or.inr ⟨rfl, (hs.of_getElem? hi).2.2.1⟩⟩
  | written i bytes hi =>
      rcases hs.of_getElem? hi with ⟨-, hbytes, hnone, -⟩
      refine flying_refill (s := { s with
        isSend := false, writing := s.writing.eraseIdx i, completed := s.completed ++ bytes })
        hs.buffer hs.blocks hs.posted hnone ?_
      rw [hbytes]

/-- A connection goes down in `handleClose` only. -/
theorem Move.connected {s t : SendPath} {a : ConnAction} {ws : List Bytes} (h : Move s a ws t)
    (ha : a.StaysUp) (hs : s.connected = true) : t.connected = true := by
  cases h with
  | shut i => exact ha.elim
  | up => rfl
  | _ => exact hs

/-- The history only grows: by the block that is sent, and by bytes that are written. -/
theorem Move.history {s t : SendPath} {a : ConnAction} {ws : List Bytes} (h : Move s a ws t) :
    t.accepted = s.accepted ++ a.sent ∧ s.completed <+: t.completed := by
  have hsame : s.accepted = s.accepted ++ [] := (List.append_nil _).symm
  have hup : a.ComesUp → a.sent = [] := by
    intro ha
    cases a with
    | handler handler => rfl
    | _ => exact ha.elim
  cases h with
  | quiet a hsent => exact ⟨by rw [hsent, List.append_nil], List.prefix_refl _⟩
  | send p => exact ⟨rfl, List.prefix_refl _⟩
  | up a ha => exact ⟨by rw [hup ha, List.append_nil], List.prefix_refl _⟩
  | late => exact ⟨hsame, List.prefix_append _ _⟩
  | written => exact ⟨hsame, List.prefix_append _ _⟩
  | _ => exact ⟨hsame, List.prefix_refl _⟩

/-! ## The bytes stay together -/

/-- What was handed to `send` is what has been written, what is in the send buffer and
what is queued, except that a write may complete after the connection was closed: its
bytes stay in the send buffer. -/
def Balanced (s : SendPath) : Prop :=
  s.completed ++ s.buffer.unread ++ unreadAll s.sendList = unreadAll s.accepted ∨
    (s.connected = false ∧ s.isSend = false ∧ s.buffer.unread ≠ [])

/-- Refilling a balanced send path. -/
theorem balanced_refill {s : SendPath} (hout : Sendable s.buffer)
    (hps : ∀ p ∈ s.sendList, p.Valid) {size : Nat} (hsize : size ≤ s.buffer.unread.length)
    (hbytes : s.completed ++ s.buffer.unread.drop size ++ unreadAll s.sendList =
      unreadAll s.accepted) : (s.refill size).Balanced := by
  rcases refill_spec hout hps hsize with ⟨-, -, hmoved, -⟩
  refine Or.inl ?_
  change s.completed ++ (s.refill size).buffer.unread ++ unreadAll (s.refill size).sendList =
    unreadAll s.accepted
  rw [List.append_assoc, hmoved, ← List.append_assoc, hbytes]

/-- Every move but coming up again keeps the bytes together. -/
theorem Move.balanced {s t : SendPath} {a : ConnAction} {ws : List Bytes} (h : Move s a ws t)
    (hup : ¬ a.ComesUp) (hf : s.Flying) (hs : s.Balanced) : t.Balanced := by
  cases h with
  | quiet => exact hs
  | send p =>
      rcases hs with hs | hs
      · refine Or.inl ?_
        simp only [unreadAll_append]
        rw [← List.append_assoc, hs]
      · exact Or.inr hs
  | idle i => exact hs
  | wake i size hi hconn hsend =>
      have hzero : size = 0 := hf.posted size (List.mem_of_getElem? hi)
      subst hzero
      rcases hs with hs | ⟨hdown, -⟩
      · exact balanced_refill (s := { s with posted := s.posted.eraseIdx i }) hf.buffer hf.blocks
          (Nat.zero_le _) hs
      · rw [hconn] at hdown
        cases hdown
  | shut =>
      rcases hs with hs | ⟨-, hs⟩
      · exact Or.inl hs
      · exact Or.inr ⟨rfl, hs⟩
  | up a h => exact absurd h hup
  | failed i size bytes hi =>
      rcases hs with hs | ⟨hdown, -, hne⟩
      · exact Or.inl hs
      · exact Or.inr ⟨hdown, rfl, hne⟩
  | late i bytes hi hconn =>
      exact Or.inr ⟨hconn, rfl, (hf.of_getElem? hi).2.2.2⟩
  | written i bytes hi hconn =>
      rcases hf.of_getElem? hi with ⟨-, hbytes, -, -⟩
      rcases hs with hs | ⟨hdown, -⟩
      · refine balanced_refill (s := { s with
          isSend := false, writing := s.writing.eraseIdx i, completed := s.completed ++ bytes })
          hf.buffer hf.blocks (le_of_eq (by rw [hbytes])) ?_
        rw [hbytes, List.drop_length, List.append_nil, hs]
      · rw [hconn] at hdown
        cases hdown

/-! ## Wake-ups -/

/-- While there is something to send, a write is in flight or a `writeMessage` is due. -/
structure Awake (s : SendPath) : Prop where
  connected : s.connected = true
  room : 0 < s.buffer.maxLen
  due : s.sendList ≠ [] ∨ s.buffer.unread ≠ [] → s.isSend = true ∨ s.posted ≠ []

theorem maxLen_readData (b : NetBuffer) (size : Nat) :
    (b.readData size).1.clearReadBuffer.maxLen = b.maxLen := by
  unfold NetBuffer.readData
  split <;> rfl

/-- Either refilling starts a write, or nothing is left to send. -/
theorem awake_refill {s : SendPath} (hconn : s.connected = true) (hroom : 0 < s.buffer.maxLen)
    (hout : Sendable s.buffer) (hps : ∀ p ∈ s.sendList, p.Valid) {size : Nat}
    (hsize : size ≤ s.buffer.unread.length) : (s.refill size).Awake := by
  rcases sendable_discard hout hsize with ⟨hclear, -⟩
  rcases Connection.fillSend_full hps hclear with ⟨hmaxLen, hfull⟩
  rcases refill_spec hout hps hsize with ⟨hout', -, -, -⟩
  rw [maxLen_readData] at hmaxLen hfull
  have hread := hasRead_iff hout'.valid
  refine ⟨hconn, hmaxLen.symm ▸ hroom, fun hmore => Or.inl (hread.mpr ?_)⟩
  rcases hmore with hmore | hmore
  · -- the queue is not empty, so the buffer is full
    rcases hfull with hnil | hfull
    · exact absurd hnil hmore
    · rw [← List.length_pos_iff, hout'.valid.length_unread, hout'.readPos, Nat.sub_zero]
      exact hfull.symm ▸ hroom
  · exact hmore

/-- No wake-up is lost while the connection stays up and no write fails. -/
theorem Move.awake {s t : SendPath} {a : ConnAction} {ws : List Bytes} (h : Move s a ws t)
    (ha : a.Unbroken) (hf : s.Flying) (hs : s.Awake) : t.Awake := by
  cases h with
  | quiet => exact hs
  | send p => exact ⟨hs.connected, hs.room, fun _ => Or.inr (by simp)⟩
  | idle i hidle =>
      refine ⟨hs.connected, hs.room, fun _ => Or.inl ?_⟩
      rcases hidle with hdown | hsend
      · rw [hs.connected] at hdown
        cases hdown
      · exact hsend
  | wake i size hi hconn hsend =>
      have hzero : size = 0 := hf.posted size (List.mem_of_getElem? hi)
      subst hzero
      exact awake_refill (s := { s with posted := s.posted.eraseIdx i }) hconn hs.room hf.buffer
        hf.blocks (Nat.zero_le _)
  | shut => exact ha.elim
  | up a hup => exact absurd hup ha.staysUp.not_comesUp
  | failed i size bytes hi => exact ha.elim
  | late i bytes hi hdown =>
      rw [hs.connected] at hdown
      cases hdown
  | written i bytes hi hconn =>
      rcases hf.of_getElem? hi with ⟨-, hbytes, -, -⟩
      exact awake_refill (s := { s with
        isSend := false, writing := s.writing.eraseIdx i, completed := s.completed ++ bytes })
        hconn hs.room hf.buffer hf.blocks (le_of_eq (by rw [hbytes]))

end SendPath

/-- The writes among the effects. -/
def writesOf {β : Type} (effects : List (Effect β)) : List Bytes :=
  effects.filterMap fun e => match e with
    | .asyncWrite bytes => some bytes
    | _ => none

namespace ConnState

variable {β : Type} {K : BlockClass β} {s s' : ConnState β} {effects : List (Effect β)}

/-- `writeMessage` with nothing in flight refills the send path. -/
theorem sendPath_writeMessage (hconn : s.conn.connected = true) (hsend : s.conn.isSend = false)
    (size : Nat) :
    (s.handled (s.conn.writeMessage size)).1.sendPath = s.sendPath.refill size ∧
      writesOf (s.handled (s.conn.writeMessage size)).2 = s.sendPath.started size := by
  rcases s.conn.writeMessage_cases size with
    ⟨hidle | hidle, -⟩ | ⟨-, -, ps, out, hfill, hwrite⟩
  · simp [hconn] at hidle
  · simp [hsend] at hidle
  · have hrefilled : s.sendPath.refilled size = (ps, out) := hfill
    rw [hwrite, SendPath.refill, SendPath.started, hrefilled]
    cases hread : out.hasRead with
    | false => simp [handled, sendPath, writesOf]
    | true => simp [handled, perform, sendPath, writesOf]

theorem writesOf_messages (ps : List β) (room : Nat) :
    writesOf (ps.map Effect.eventPostRecv ++ [Effect.asyncReadSome room]) = [] := by
  simp [writesOf, List.filterMap_map]

/-- A step of the connection is a move of its send path. -/
theorem step_sendPath {a : ConnAction} (h : s.step K a = some (s', effects)) :
    SendPath.Move s.sendPath a (writesOf effects) s'.sendPath := by
  cases a with
  | send p =>
      cases h
      exact SendPath.Move.send _ p
  | close er =>
      cases h
      exact SendPath.Move.quiet _ _ rfl
  | postAccept =>
      cases h
      exact SendPath.Move.quiet _ _ rfl
  | connect =>
      cases h
      exact SendPath.Move.quiet _ _ rfl
  | handler handler =>
      cases handler with
      | writeMessage i =>
          rcases step_writeMessage h with ⟨size, hi, ⟨hidle, rfl, rfl⟩ | ⟨hconn, hsend, heq⟩⟩
          · exact SendPath.Move.idle s.sendPath i hidle
          · rcases sendPath_writeMessage (s := { s with posted := s.posted.eraseIdx i }) hconn
              hsend size with ⟨hpath, hwrites⟩
            rw [← heq] at hpath hwrites
            rw [hpath, hwrites]
            exact SendPath.Move.wake s.sendPath i size hi hconn hsend
      | handleClose i =>
          rcases step_handleClose h with ⟨er, -, ⟨-, -, rfl, rfl⟩ | ⟨hshut, rfl, rfl⟩⟩
          · exact SendPath.Move.quiet _ _ rfl
          · exact SendPath.Move.shut s.sendPath i er hshut
      | handlAccept =>
          rcases step_handlAccept h with ⟨-, rfl, rfl⟩
          exact SendPath.Move.up _ _ trivial
      | handleReadSome i error bytes =>
          rcases step_handleReadSome h with ⟨room, -, -, ⟨-, rfl, rfl⟩ | ⟨-, -, rfl, rfl⟩ |
            ⟨-, -, conn', ps, -, ⟨buf, wait, rfl⟩, rfl, rfl⟩⟩
          · exact SendPath.Move.quiet _ _ rfl
          · exact SendPath.Move.quiet _ _ rfl
          · rw [writesOf_messages]
            exact SendPath.Move.quiet _ _ rfl
      | handleWrite i error size =>
          rcases step_handleWrite h with ⟨bytes, hi, ⟨rfl, -, rfl, rfl⟩ |
            ⟨rfl, rfl, hconn, rfl, rfl⟩ | ⟨rfl, rfl, hconn, heq⟩⟩
          · rw [wrote, Bool.or_true]
            exact SendPath.Move.failed s.sendPath i size bytes hi
          · rw [wrote, Bool.or_false]
            exact SendPath.Move.late s.sendPath i bytes hi hconn
          · rcases sendPath_writeMessage (s := s.wrote i bytes false) hconn rfl bytes.length with
              ⟨hpath, hwrites⟩
            rw [← heq, wrote, Bool.or_false] at hpath hwrites
            rw [hpath, hwrites]
            exact SendPath.Move.written s.sendPath i bytes hi hconn
      | handleConnect error =>
          rcases step_handleConnect h with ⟨-, ⟨-, rfl, rfl⟩ | ⟨-, -, rfl, rfl⟩ | ⟨-, -, rfl, rfl⟩⟩
          · exact SendPath.Move.quiet _ _ rfl
          · exact SendPath.Move.quiet _ _ rfl
          · exact SendPath.Move.up _ _ trivial

theorem next_eq_some {a : ConnAction} :
    s.next K a = some s' ↔ ∃ effects, s.step K a = some (s', effects) := by
  rw [next, Option.map_eq_some_iff]
  constructor
  · rintro ⟨⟨t, effects⟩, h, rfl⟩
    exact ⟨effects, h⟩
  · rintro ⟨effects, h⟩
    exact ⟨(s', effects), h, rfl⟩

/-- What the moves by some of the actions keep holds after every run of such actions. -/
theorem run_sendPath {I : SendPath → Prop} {P : ConnAction → Prop}
    (hmove : ∀ s a ws t, SendPath.Move s a ws t → P a → I s → I t) {actions : List ConnAction}
    (hactions : ∀ a ∈ actions, P a) (hs : I s.sendPath)
    (h : run (next K) s actions = some s') : I s'.sendPath := by
  refine run_invariant_of_along (I := fun s => I s.sendPath) (P := fun _ a => P a) ?_ hs
    (along_of_forall hactions) h
  intro s a t hs ha hnext
  rcases next_eq_some.mp hnext with ⟨effects, hstep⟩
  exact hmove _ _ _ _ (step_sendPath hstep) ha hs

/-- A connection that has just come up has nothing to send. -/
theorem flying_up (sid : SessionId) (size : Nat) : (up sid size : ConnState β).sendPath.Flying where
  buffer := ⟨NetBuffer.valid_create size, rfl, rfl⟩
  blocks := by
    intro p hp
    cases hp
  posted := by
    intro n hn
    cases hn
  writing := Or.inr ⟨rfl, rfl⟩

theorem balanced_up (sid : SessionId) (size : Nat) :
    (up sid size : ConnState β).sendPath.Balanced := by
  refine Or.inl ?_
  change [] ++ (NetBuffer.create size).unread ++ [] = []
  rw [NetBuffer.unread_create]
  rfl

theorem awake_up (sid : SessionId) {size : Nat} (hsize : 0 < size) :
    (up sid size : ConnState β).sendPath.Awake where
  connected := rfl
  room := hsize
  due := by
    intro hmore
    rcases hmore with hmore | hmore
    · exact absurd rfl hmore
    · exact absurd (NetBuffer.unread_create size) hmore

/-- The blocks of a run, and the bytes written in it, are added to the history. -/
theorem run_history {actions : List ConnAction} (h : run (next K) s actions = some s') :
    s'.accepted = s.accepted ++ actions.flatMap ConnAction.sent ∧ s.completed <+: s'.completed := by
  induction actions generalizing s with
  | nil =>
      rw [run_nil, Option.some.injEq] at h
      subst h
      exact ⟨(List.append_nil _).symm, List.prefix_refl _⟩
  | cons a actions ih =>
      rcases run_cons.mp h with ⟨mid, hmid, hrest⟩
      rcases next_eq_some.mp hmid with ⟨effects, hstep⟩
      rcases (step_sendPath hstep).history with ⟨haccepted, hcompleted⟩
      rcases ih hrest with ⟨haccepted', hcompleted'⟩
      refine ⟨?_, hcompleted.trans hcompleted'⟩
      change mid.accepted = s.accepted ++ a.sent at haccepted
      rw [haccepted', haccepted, List.flatMap_cons, List.append_assoc]

/-- The bytes of a connection that stays up are together after a run if they were before. -/
theorem run_balanced {actions : List ConnAction} (hconn : s.conn.connected = true)
    (hflying : s.sendPath.Flying) (hbalanced : s.sendPath.Balanced)
    (hactions : ∀ a ∈ actions, a.StaysUp) (h : run (next K) s actions = some s') :
    s'.completed ++ s'.conn.bufferSend.data ++ unreadAll s'.conn.sendList =
      unreadAll s'.accepted := by
  have hinv : s'.sendPath.connected = true ∧ s'.sendPath.Flying ∧ s'.sendPath.Balanced := by
    refine run_sendPath (I := fun s => s.connected = true ∧ s.Flying ∧ s.Balanced) ?_ hactions
      ⟨hconn, hflying, hbalanced⟩ h
    intro s a ws t hmove ha hs
    exact ⟨hmove.connected ha hs.1, hmove.flying hs.2.1,
      hmove.balanced ha.not_comesUp hs.2.1 hs.2.2⟩
  rcases hinv with ⟨hconn', hflying', hbalanced'⟩
  have hbuffer : Sendable s'.conn.bufferSend := hflying'.buffer
  rw [← hbuffer.unread_eq]
  rcases hbalanced' with hbytes | ⟨hdown, -⟩
  · exact hbytes
  · rw [hconn'] at hdown
    cases hdown

/-- In every run of a connection that stays up, what has been written, what is in the
send buffer and what is left of the queued blocks are the bytes of all blocks in the order
of the calls of `send`.  For blocks that were not read before these are all their data. -/
theorem sent_in_order (sid : SessionId) (size : Nat) {actions : List ConnAction}
    (hactions : ∀ a ∈ actions, a.StaysUp) (h : run (next K) (up sid size) actions = some s) :
    s.completed ++ s.conn.bufferSend.data ++ unreadAll s.conn.sendList = unreadAll s.accepted ∧
      ((∀ p ∈ s.accepted, p.readPos = 0) →
        s.completed ++ s.conn.bufferSend.data ++ unreadAll s.conn.sendList =
          s.accepted.flatMap NetBuffer.data) := by
  have hbytes := run_balanced rfl (flying_up sid size) (balanced_up sid size) hactions h
  exact ⟨hbytes, fun hfresh => hbytes.trans (unreadAll_eq_data hfresh)⟩

/-- A buffer holding `bytes`, as the blocks handed to `send` do. -/
def filled (bytes : Bytes) : {p : NetBuffer // p.Valid} :=
  ⟨((NetBuffer.create 0).tailData bytes).1,
    NetBuffer.valid_tailData (NetBuffer.valid_create 0) rfl _⟩

/-- Two calls of `send` against a send buffer of four bytes, with the handler posted by
the second call run while the first write is in flight. -/
def interleaved : List ConnAction :=
  [.send (filled [1, 2, 3, 4, 5, 6]), .handler (.writeMessage 0), .send (filled [7, 8, 9]),
    .handler (.writeMessage 0), .handler (.handleWrite 0 false 4)]

theorem unbroken_interleaved : ∀ a ∈ interleaved, a.Unbroken := by
  simp [interleaved, ConnAction.Unbroken, ConnAction.StaysUp, ConnAction.ComesUp]

theorem sent_in_order_interleaved :
    ∃ s : ConnState NetBlock, run (next NetBlock.blockClass) (up 1 4) interleaved = some s ∧
      (s.completed = [1, 2, 3, 4] ∧ s.writing = [[5, 6, 7, 8]]) ∧
      s.completed ++ s.conn.bufferSend.data ++ unreadAll s.conn.sendList =
        s.accepted.flatMap NetBuffer.data := by
  have hrun : (run (next NetBlock.blockClass) (up 1 4) interleaved).any (fun s =>
      s.completed = [1, 2, 3, 4] ∧ s.writing = [[5, 6, 7, 8]] ∧
        ∀ p ∈ s.accepted, p.readPos = 0) = true := by
    decide +kernel
  rcases (Option.any_eq_true _ _).mp hrun with ⟨s, hs, hvalues⟩
  rw [decide_eq_true_eq] at hvalues
  rcases hvalues with ⟨hcompleted, hwriting, hfresh⟩
  have hup : ∀ a ∈ interleaved, a.StaysUp := fun a ha => (unbroken_interleaved a ha).staysUp
  exact ⟨s, hs, ⟨hcompleted, hwriting⟩, (sent_in_order 1 4 hup hs).2 hfresh⟩

/-- In every run of a connection that stays up and whose writes succeed, as long as there is
anything to send, a write of all that is in the send buffer is in flight, so that its
`handleWrite` is due, or a `writeMessage` is due. -/
theorem no_lost_wakeup (sid : SessionId) {size : Nat} (hsize : 0 < size)
    {actions : List ConnAction} (hactions : ∀ a ∈ actions, a.Unbroken)
    (h : run (next K) (up sid size) actions = some s)
    (hmore : s.conn.sendList ≠ [] ∨ s.conn.bufferSend.unread ≠ []) :
    (s.conn.isSend = true ∧ s.writing = [s.conn.bufferSend.unread] ∧
        s.conn.bufferSend.unread ≠ []) ∨
      s.posted ≠ [] := by
  have hinv : s.sendPath.Flying ∧ s.sendPath.Awake := by
    refine run_sendPath (I := fun s => s.Flying ∧ s.Awake) ?_ hactions
      ⟨flying_up sid size, awake_up sid hsize⟩ h
    intro s a ws t hmove ha hs
    exact ⟨hmove.flying hs.1, hmove.awake ha hs.1 hs.2⟩
  rcases hinv.2.due hmore with hsend | hposted
  · rcases hinv.1.writing with hwriting | ⟨hidle, -⟩
    · exact Or.inl hwriting
    · rw [hsend] at hidle
      cases hidle
  · exact Or.inr hposted

theorem no_lost_wakeup_interleaved :
    ∃ s : ConnState NetBlock, run (next NetBlock.blockClass) (up 1 4) interleaved = some s ∧
      (s.conn.sendList ≠ [] ∧ s.posted = []) ∧
      ((s.conn.isSend = true ∧ s.writing = [s.conn.bufferSend.unread] ∧
          s.conn.bufferSend.unread ≠ []) ∨
        s.posted ≠ []) := by
  have hrun : (run (next NetBlock.blockClass) (up 1 4) interleaved).any (fun s =>
      s.conn.sendList ≠ [] ∧ s.posted = []) = true := by
    decide +kernel
  rcases (Option.any_eq_true _ _).mp hrun with ⟨s, hs, hvalues⟩
  rw [decide_eq_true_eq] at hvalues
  exact ⟨s, hs, hvalues, no_lost_wakeup 1 (by decide) unbroken_interleaved hs (Or.inl hvalues.1)⟩

end ConnState

end FannyNet

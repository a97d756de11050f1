import FannyNet.Connection
import FannyNet.Library.Decoder
import FannyNet.Library.Incremental

/-!
# The read loop

A message class decodes the stream of its connection when each `recv` is a feeding
step of a decoder.  The read loop then pumps the decoder with the bytes of each
read, and the blocks it posts show the messages of the decoder.

Main results:

- Structure `Decodes`: a message class together with the decoder its blocks stand
  for.
- Theorem `Decodes.readLoop_pumps`: the loop over one read.
- Theorem `Decodes.reads_of_runs`: a run of reads.
- Theorems `BlockClass.Keeps.everyRecv` and `BlockClass.Keeps.posted`: what the calls keep
  holds of the block at every call of `recv`, and what they establish of every posted block.
-/

namespace FannyNet

open Library Library.Incremental

/-- A `recv` on `buf` that does what the decoder does: fail, wait, or complete a
message. -/
def DecodeStep {β σ μ : Type} (K : BlockClass β) (Waits : σ → β → Bytes → Prop)
    (Shows : μ → β → Prop) (buf : NetBuffer) (res : Except Exn (β × NetBuffer × Bool)) :
    Except Exn (σ ⊕ (μ × Bytes)) → Prop
  | .error e => res = .error e
  | .ok (.inl s') => ∃ k' buf' r, res = .ok (k', buf', r) ∧ buf.Compacted buf' ∧
      K.bodyDone k' = false ∧ Waits s' k' buf'.unread
  | .ok (.inr (m, rest)) => ∃ k' buf' r, res = .ok (k', buf', r) ∧ buf.Compacted buf' ∧
      K.bodyDone k' = true ∧ Shows m k' ∧ buf'.unread = rest

/-- A message class whose blocks stand for the states of a decoder. -/
structure Decodes {β σ μ : Type} (K : BlockClass β) (D : Decoder UInt8 σ μ Exn) where
  Open : σ → Prop
  lawful : D.Lawful Open
  /-- A block that waits, with the bytes left in the buffer, for a decoder state. -/
  Waits : σ → β → Bytes → Prop
  /-- A completed block shows a message. -/
  Shows : μ → β → Prop
  waits_open : ∀ s k u, Waits s k u → Open s
  make_waits : ∀ s, Waits D.init (K.make s 0) []
  init_waits : ∀ k u, Waits D.init k u → u = []
  recv : ∀ s k u c (buf : NetBuffer), Waits s k u → buf.Valid → buf.readPos = 0 →
    buf.unread = u ++ c → DecodeStep K Waits Shows buf (K.recv k buf) (D.feed s c)

namespace Decodes

variable {β σ μ : Type} {K : BlockClass β} {D : Decoder UInt8 σ μ Exn} (R : Decodes K D)

/-- The block kept across reads, with the bytes left in the buffer, for a decoder
state.  There is one when a message has begun. -/
def Pending (s : σ) (wait : Option β) (u : Bytes) : Prop :=
  match wait with
  | none => s = D.init ∧ u = []
  | some k => s ≠ D.init ∧ R.Waits s k u

/-- A connection that has received the bytes `c` since its decoder was in state `s`. -/
structure Loaded (cap : Nat) (s : σ) (c : Bytes) (conn : Connection β) : Prop where
  connected : conn.connected = true
  valid : conn.bufferRecv.Valid
  readPos : conn.bufferRecv.readPos = 0
  maxLen : conn.bufferRecv.maxLen = cap
  pending : ∃ u, conn.bufferRecv.unread = u ++ c ∧ R.Pending s conn.waitMessage u

/-- A connection between two reads, in a state of its decoder. -/
def Reading (cap : Nat) (s : σ) (conn : Connection β) : Prop :=
  R.Loaded cap s [] conn

variable {R}

theorem Pending.isOpen {s : σ} {wait : Option β} {u : Bytes} (h : R.Pending s wait u) :
    R.Open s := by
  cases wait with
  | none => exact h.1 ▸ R.lawful.init
  | some k => exact R.waits_open s k u h.2

theorem Loaded.isOpen {cap : Nat} {s : σ} {c : Bytes} {conn : Connection β}
    (h : R.Loaded cap s c conn) : R.Open s := by
  rcases h.pending with ⟨u, -, hpending⟩
  exact hpending.isOpen

/-- The buffer is empty when nothing is unread. -/
theorem Loaded.hasWrite_iff {cap : Nat} {s : σ} {c : Bytes} {conn : Connection β}
    (h : R.Loaded cap s c conn) :
    conn.bufferRecv.hasWrite = true ↔ conn.bufferRecv.unread ≠ [] :=
  h.valid.hasWrite_iff h.readPos

/-- The block that the next `recv` is called on. -/
theorem Loaded.waits_getD {cap : Nat} {s : σ} {c : Bytes} {conn : Connection β}
    (h : R.Loaded cap s c conn) : ∃ u, conn.bufferRecv.unread = u ++ c ∧
      R.Waits s (conn.waitMessage.getD (K.make conn.session 0)) u := by
  rcases h.pending with ⟨u, hunread, hpending⟩
  refine ⟨u, hunread, ?_⟩
  cases hwait : conn.waitMessage with
  | none =>
      rw [hwait] at hpending
      rcases hpending with ⟨rfl, rfl⟩
      exact R.make_waits conn.session
  | some k =>
      rw [hwait] at hpending
      exact hpending.2

/-- Waiting on a buffer that is not empty, a message has begun. -/
theorem Loaded.ne_init {cap : Nat} {s s' : σ} {c : Bytes} {conn : Connection β}
    (h : R.Loaded cap s c conn) (hwrite : conn.bufferRecv.hasWrite = true)
    (hfeed : D.feed s c = .ok (.inl s')) : s' ≠ D.init := by
  by_cases hc : c = []
  · subst hc
    rw [R.lawful.nil s h.isOpen, Except.ok.injEq, Sum.inl.injEq] at hfeed
    subst hfeed
    rcases h.waits_getD with ⟨u, hunread, hwaits⟩
    rw [h.hasWrite_iff, hunread, List.append_nil] at hwrite
    rintro rfl
    exact hwrite (R.init_waits _ u hwaits)
  · exact R.lawful.forward s c s' h.isOpen hc hfeed

/-- One call of `readMessage`. -/
theorem readMessage_step {cap : Nat} {s : σ} {c : Bytes} {conn : Connection β}
    (h : R.Loaded cap s c conn) (hwrite : conn.bufferRecv.hasWrite = true) :
    match D.feed s c with
    | .error e => Connection.readMessage K conn = .error e
    | .ok (.inl s') => ∃ conn', Connection.readMessage K conn = .ok (conn', none) ∧
        R.Loaded cap s' [] conn'
    | .ok (.inr (m, rest)) => ∃ conn' p, Connection.readMessage K conn = .ok (conn', some p) ∧
        R.Shows m p ∧ R.Loaded cap D.init rest conn' := by
  rcases h.waits_getD with ⟨u, hunread, hwaits⟩
  have hstep := R.recv s _ u c conn.bufferRecv hwaits h.valid h.readPos hunread
  cases hfeed : D.feed s c with
  | error e =>
      rw [hfeed] at hstep
      have hrecv : K.recv _ conn.bufferRecv = .error e := hstep
      simp only [Connection.readMessage, hrecv, error_bind]
  | ok x =>
      cases x with
      | inl s' =>
          rw [hfeed] at hstep
          rcases hstep with ⟨k', buf', r, hrecv, hcomp, hopen, hwaits'⟩
          refine ⟨{ conn with waitMessage := some k', bufferRecv := buf' }, ?_, ?_⟩
          · simp [Connection.readMessage, hrecv, hopen]
          · exact ⟨h.connected, hcomp.valid, hcomp.readPos, hcomp.maxLen.trans h.maxLen,
              buf'.unread, (List.append_nil _).symm, h.ne_init hwrite hfeed, hwaits'⟩
      | inr y =>
          rcases y with ⟨m, rest⟩
          rw [hfeed] at hstep
          rcases hstep with ⟨k', buf', r, hrecv, hcomp, hdone, hshows, hrest⟩
          refine ⟨{ conn with waitMessage := none, bufferRecv := buf' }, k', ?_, hshows, ?_⟩
          · simp [Connection.readMessage, hrecv, hdone]
          · exact ⟨h.connected, hcomp.valid, hcomp.readPos, hcomp.maxLen.trans h.maxLen,
              [], hrest, rfl, rfl⟩

/-- Nothing is left of an empty buffer. -/
theorem Loaded.eq_nil_of_not_hasWrite {cap : Nat} {s : σ} {c : Bytes} {conn : Connection β}
    (h : R.Loaded cap s c conn) (hempty : ¬ conn.bufferRecv.hasWrite = true) : c = [] := by
  rw [h.hasWrite_iff, not_not] at hempty
  rcases h.pending with ⟨u, hunread, -⟩
  rw [hempty] at hunread
  exact (List.append_eq_nil_iff.mp hunread.symm).2

/-- A decoder that fails, or completes a message, was fed with something. -/
theorem Loaded.hasWrite_of_feed {cap : Nat} {s : σ} {c : Bytes} {conn : Connection β}
    (h : R.Loaded cap s c conn) (hfeed : D.feed s c ≠ .ok (.inl s)) :
    conn.bufferRecv.hasWrite = true := by
  by_contra hempty
  rw [h.eq_nil_of_not_hasWrite hempty] at hfeed
  exact hfeed (R.lawful.nil s h.isOpen)

theorem readLoop_empty {conn : Connection β} (hempty : ¬ conn.bufferRecv.hasWrite = true)
    (fuel : Nat) : Connection.readLoop K fuel conn = .ok (conn, []) := by
  rw [Bool.not_eq_true] at hempty
  unfold Connection.readLoop
  rw [hempty]
  rfl

theorem readLoop_succ {conn : Connection β} (hwrite : conn.bufferRecv.hasWrite = true)
    (fuel : Nat) :
    Connection.readLoop K (fuel + 1) conn =
      match Connection.readMessage K conn with
      | .error e => .error (.thrown e)
      | .ok (conn, none) => .ok (conn, [])
      | .ok (conn, some p) => (Connection.readLoop K fuel conn).map fun x => (x.1, p :: x.2) := by
  rw [Connection.readLoop, hwrite]
  cases Connection.readMessage K conn with
  | error e => rfl
  | ok x =>
      rcases x with ⟨conn', _ | p⟩
      · rfl
      · simp only [Bool.not_true, Bool.false_eq_true, if_false]
        cases Connection.readLoop K fuel conn' <;> rfl

/-- The blocks posted behind `done`, and the connection, that a pumped decoder leaves. -/
def Pumped (R : Decodes K D) (cap : Nat) (done : List β) (ms : List μ)
    (res : Except Fault (Connection β × List β)) : Except Exn σ → Prop
  | .error e => res = .error (.thrown e)
  | .ok s' => ∃ conn' ps, res = .ok (conn', done ++ ps) ∧ List.Forall₂ R.Shows ms ps ∧
      R.Reading cap s' conn'

/-- The loop over one read pumps the decoder. -/
theorem readLoop_pumps {cap : Nat} {s : σ} {c : Bytes} {ms : List μ} {out : Except Exn σ}
    (h : D.Pumps s c ms out) {fuel : Nat} (hfuel : ms.length < fuel) {conn : Connection β}
    (hconn : R.Loaded cap s c conn) :
    R.Pumped cap [] ms (Connection.readLoop K fuel conn) out := by
  induction h generalizing fuel conn with
  | @wait s s' c hfeed =>
      by_cases hwrite : conn.bufferRecv.hasWrite = true
      · rcases Nat.exists_eq_succ_of_ne_zero (Nat.ne_of_gt hfuel) with ⟨fuel, rfl⟩
        have hstep := readMessage_step hconn hwrite
        rw [hfeed] at hstep
        rcases hstep with ⟨conn', hread, hloaded⟩
        refine ⟨conn', [], ?_, .nil, hloaded⟩
        rw [readLoop_succ hwrite, hread]
        rfl
      · have hc := hconn.eq_nil_of_not_hasWrite hwrite
        subst hc
        rw [R.lawful.nil s hconn.isOpen, Except.ok.injEq, Sum.inl.injEq] at hfeed
        subst hfeed
        exact ⟨conn, [], readLoop_empty hwrite fuel, .nil, hconn⟩
  | @fail s c e hfeed =>
      have hwrite := hconn.hasWrite_of_feed (by simp [hfeed])
      rcases Nat.exists_eq_succ_of_ne_zero (Nat.ne_of_gt hfuel) with ⟨fuel, rfl⟩
      have hstep := readMessage_step hconn hwrite
      rw [hfeed] at hstep
      have hread : Connection.readMessage K conn = .error e := hstep
      rw [readLoop_succ hwrite, hread]
      rfl
  | @more s c r m ms out hfeed hr ih =>
      have hwrite := hconn.hasWrite_of_feed (by simp [hfeed])
      rcases Nat.exists_eq_succ_of_ne_zero (Nat.ne_of_gt (Nat.zero_lt_of_lt hfuel)) with
        ⟨fuel, rfl⟩
      have hstep := readMessage_step hconn hwrite
      rw [hfeed] at hstep
      rcases hstep with ⟨conn', p, hread, hshows, hloaded⟩
      have hrec := ih (Nat.lt_of_succ_lt_succ hfuel) hloaded
      rw [readLoop_succ hwrite, hread]
      cases out with
      | error e =>
          have hloop : Connection.readLoop K fuel conn' = .error (.thrown e) := hrec
          simp only [Pumped, hloop, Except.map]
      | ok s' =>
          rcases hrec with ⟨conn'', ps, hloop, hall, hloaded'⟩
          refine ⟨conn'', p :: ps, ?_, .cons hshows hall, hloaded'⟩
          simp only [hloop, Except.map, List.nil_append]

/-! ## Runs of reads -/

theorem reading_accepted (s : SessionId) (size : Nat) :
    R.Reading size D.init (Connection.accepted s size) where
  connected := rfl
  valid := NetBuffer.valid_create size
  readPos := rfl
  maxLen := rfl
  pending := ⟨[], by simp [Connection.accepted, Connection.create, Connection.handlAccept,
    Connection.beginRead], rfl, rfl⟩

/-- Between two messages nothing is kept. -/
theorem Reading.at_rest {cap : Nat} {conn : Connection β} (h : R.Reading cap D.init conn) :
    conn.waitMessage = none ∧ conn.bufferRecv.length = 0 := by
  rcases h.pending with ⟨u, hunread, hpending⟩
  cases hwait : conn.waitMessage with
  | none =>
      rw [hwait] at hpending
      have hlen := h.valid.length_unread
      rw [hunread, hpending.2, List.append_nil, List.length_nil, h.readPos, Nat.sub_zero] at hlen
      exact ⟨rfl, hlen.symm⟩
  | some k =>
      rw [hwait] at hpending
      exact absurd rfl hpending.1

/-- The bytes of a read that fit are behind what was left. -/
theorem Reading.loaded {cap : Nat} {s : σ} {conn : Connection β} (h : R.Reading cap s conn)
    {c : Bytes} (hfit : c.length ≤ conn.room) : R.Loaded cap s c (conn.received c) := by
  have hw := h.valid.writePos_le
  have hroom : conn.bufferRecv.writePos + c.length ≤ conn.bufferRecv.maxLen := by
    simp only [Connection.room, NetBuffer.maxLength, NetBuffer.length] at hfit
    omega
  rcases h.pending with ⟨u, hunread, hpending⟩
  refine ⟨h.connected, NetBuffer.valid_writeBytes h.valid c, ?_, ?_, u, ?_, hpending⟩
  · exact (NetBuffer.readPos_writeBytes _ _).trans h.readPos
  · exact (NetBuffer.maxLen_writeBytes _ _).trans h.maxLen
  · rw [List.append_nil] at hunread
    exact (NetBuffer.unread_writeBytes h.valid hroom).trans (by rw [hunread])

omit R in
theorem posted_append_asyncReadSome (ps : List β) (room : Nat) :
    Connection.posted (ps.map Effect.eventPostRecv ++ [.asyncReadSome room]) = ps := by
  simp [Connection.posted, List.filterMap_map]

omit R in
/-- A read on an open connection is its loop. -/
theorem readSome_eq {conn : Connection β} (hconn : conn.connected = true) (done : List β)
    (c : Bytes) :
    Connection.readSome K (conn, done) c =
      (Connection.readLoop K ((conn.received c).bufferRecv.length + 1)
        (conn.received c)).map fun x => (x.1, done ++ x.2) := by
  unfold Connection.readSome Connection.handleReadSome
  simp only [hconn, Bool.not_true, Bool.false_eq_true, if_false]
  cases Connection.readLoop K _ _ with
  | error e => simp only [error_bind, Except.map]
  | ok x =>
      simp only [ok_bind, Connection.beginRead, posted_append_asyncReadSome, Except.map]

/-- The bytes in the buffer are enough rounds for the loop. -/
theorem fuel_received {cap : Nat} {s : σ} {c : Bytes} {ms : List μ} {out : Except Exn σ}
    (h : D.Pumps s c ms out) {conn : Connection β} (hconn : R.Reading cap s conn)
    (hfit : c.length ≤ conn.room) : ms.length < (conn.received c).bufferRecv.length + 1 := by
  have hloaded := hconn.loaded hfit
  have hle := R.lawful.length_le hloaded.isOpen h
  have hunread := hloaded.valid.length_unread
  rcases hloaded.pending with ⟨u, hu, -⟩
  rw [hu, List.length_append, hloaded.readPos, Nat.sub_zero] at hunread
  rw [NetBuffer.length]
  omega

/-- One read pumps the decoder and posts the messages. -/
theorem readSome_pumps {cap : Nat} {s : σ} {c : Bytes} {ms : List μ} {out : Except Exn σ}
    (h : D.Pumps s c ms out) {conn : Connection β} (hconn : R.Reading cap s conn)
    (hfit : c.length ≤ conn.room) (done : List β) :
    R.Pumped cap done ms (Connection.readSome K (conn, done) c) out := by
  have hloop := readLoop_pumps h (fuel_received h hconn hfit) (hconn.loaded hfit)
  rw [readSome_eq hconn.connected]
  cases out with
  | error e =>
      simp only [Pumped] at hloop ⊢
      rw [hloop]
      rfl
  | ok s' =>
      rcases hloop with ⟨conn', ps, hloop, hall, hloaded'⟩
      refine ⟨conn', ps, ?_, hall, hloaded'⟩
      rw [hloop]
      rfl

/-- A run of reads runs the decoder. -/
theorem reads_of_runs {cap : Nat} {s : σ} {cs : List Bytes} {ms : List μ} {out : Except Exn σ}
    (h : D.Runs s cs ms out) {conn : Connection β} (hconn : R.Reading cap s conn)
    {done : List β} (hfit : Connection.ReadsFit K (conn, done) cs) :
    R.Pumped cap done ms (feedAll (Connection.readSome K) (conn, done) cs) out := by
  induction h generalizing conn done with
  | nil s => exact ⟨conn, [], by simp, .nil, hconn⟩
  | @fail s c cs ms e h =>
      have hread := readSome_pumps h hconn hfit.1 done
      simp only [Pumped] at hread ⊢
      simp only [feedAll, hread]
      rfl
  | @cons s s' c cs ms ms' out h hcs ih =>
      rcases readSome_pumps h hconn hfit.1 done with ⟨conn', ps, hread, hall, hconn'⟩
      have hfit' : Connection.ReadsFit K (conn', done ++ ps) cs := by
        have hrest := hfit.2
        rw [hread] at hrest
        exact hrest
      have hrest := ih hconn' hfit'
      simp only [feedAll, hread, Except.bind]
      cases out with
      | error e => exact hrest
      | ok t =>
          rcases hrest with ⟨conn'', ps', hreads, hall', hconn''⟩
          refine ⟨conn'', ps ++ ps', ?_, ?_, hconn''⟩
          · rw [hreads, List.append_assoc]
          · exact List.rel_append hall hall'

/-! ## Exceptions -/

section
variable {P : β → NetBuffer → Prop}
  (hP : ∀ s k u c (buf : NetBuffer), R.Waits s k u → buf.unread = u ++ c →
    ((∃ x, D.feed s c = .ok x) ↔ P k buf))
include hP

omit hP in
theorem loopCalls_empty {conn : Connection β} (hempty : ¬ conn.bufferRecv.hasWrite = true)
    (fuel : Nat) : Connection.LoopCalls K P fuel conn := by
  rw [Bool.not_eq_true] at hempty
  unfold Connection.LoopCalls
  rw [hempty]
  trivial

omit hP in
theorem loopCalls_succ {conn : Connection β} (hwrite : conn.bufferRecv.hasWrite = true)
    (fuel : Nat) :
    Connection.LoopCalls K P (fuel + 1) conn ↔
      P (conn.waitMessage.getD (K.make conn.session 0)) conn.bufferRecv ∧
        match Connection.readMessage K conn with
        | .ok (conn, some _) => Connection.LoopCalls K P fuel conn
        | _ => True := by
  rewrite [Connection.LoopCalls, hwrite, Bool.not_true, if_neg Bool.false_ne_true]
  exact Iff.rfl

/-- The condition at the next call of `recv`. -/
theorem Loaded.recv_ok_iff {cap : Nat} {s : σ} {c : Bytes} {conn : Connection β}
    (h : R.Loaded cap s c conn) :
    (∃ x, D.feed s c = .ok x) ↔
      P (conn.waitMessage.getD (K.make conn.session 0)) conn.bufferRecv := by
  rcases h.waits_getD with ⟨u, hunread, hwaits⟩
  exact hP s _ u c conn.bufferRecv hwaits hunread

/-- The loop over one read goes through when the condition holds at every call of
`recv`. -/
theorem pumps_ok_iff {cap : Nat} {s : σ} {c : Bytes} {ms : List μ} {out : Except Exn σ}
    (h : D.Pumps s c ms out) {fuel : Nat} (hfuel : ms.length < fuel) {conn : Connection β}
    (hconn : R.Loaded cap s c conn) :
    (∃ s', out = .ok s') ↔ Connection.LoopCalls K P fuel conn := by
  induction h generalizing fuel conn with
  | @wait s s' c hfeed =>
      refine ⟨fun _ => ?_, fun _ => ⟨s', rfl⟩⟩
      by_cases hwrite : conn.bufferRecv.hasWrite = true
      · rcases Nat.exists_eq_succ_of_ne_zero (Nat.ne_of_gt hfuel) with ⟨fuel, rfl⟩
        have hstep := readMessage_step hconn hwrite
        rw [hfeed] at hstep
        rcases hstep with ⟨conn', hread, -⟩
        rw [loopCalls_succ hwrite, hread]
        exact ⟨(hconn.recv_ok_iff hP).mp ⟨_, hfeed⟩, trivial⟩
      · exact loopCalls_empty hwrite fuel
  | @fail s c e hfeed =>
      have hwrite := hconn.hasWrite_of_feed (by simp [hfeed])
      rcases Nat.exists_eq_succ_of_ne_zero (Nat.ne_of_gt hfuel) with ⟨fuel, rfl⟩
      rw [loopCalls_succ hwrite, ← hconn.recv_ok_iff hP, hfeed]
      simp
  | @more s c r m ms out hfeed hr ih =>
      have hwrite := hconn.hasWrite_of_feed (by simp [hfeed])
      rcases Nat.exists_eq_succ_of_ne_zero (Nat.ne_of_gt (Nat.zero_lt_of_lt hfuel)) with
        ⟨fuel, rfl⟩
      have hstep := readMessage_step hconn hwrite
      rw [hfeed] at hstep
      rcases hstep with ⟨conn', p, hread, -, hloaded⟩
      rw [ih (Nat.lt_of_succ_lt_succ hfuel) hloaded, loopCalls_succ hwrite, hread]
      exact ⟨fun h => ⟨(hconn.recv_ok_iff hP).mp ⟨_, hfeed⟩, h⟩, fun h => h.2⟩

/-- A run of reads goes through when the condition holds at every call of `recv`. -/
theorem runs_ok_iff {cap : Nat} {s : σ} {cs : List Bytes} {ms : List μ} {out : Except Exn σ}
    (h : D.Runs s cs ms out) {conn : Connection β} (hconn : R.Reading cap s conn)
    {done : List β} (hfit : Connection.ReadsFit K (conn, done) cs) :
    (∃ s', out = .ok s') ↔ Connection.EveryRecv K P (conn, done) cs := by
  induction h generalizing conn done with
  | nil s => exact ⟨fun _ => trivial, fun _ => ⟨s, rfl⟩⟩
  | @fail s c cs ms e h =>
      have hpumps := pumps_ok_iff hP h (fuel_received h hconn hfit.1) (hconn.loaded hfit.1)
      constructor
      · rintro ⟨s', hs'⟩
        cases hs'
      · intro hevery
        exact hpumps.mpr hevery.1
  | @cons s s' c cs ms ms' out h hcs ih =>
      have hpumps := pumps_ok_iff hP h (fuel_received h hconn hfit.1) (hconn.loaded hfit.1)
      rcases readSome_pumps h hconn hfit.1 done with ⟨conn', ps, hread, -, hconn'⟩
      have hfit' : Connection.ReadsFit K (conn', done ++ ps) cs := by
        have hrest := hfit.2
        rw [hread] at hrest
        exact hrest
      rw [ih hconn' hfit', Connection.EveryRecv, hread]
      exact ⟨fun h => ⟨hpumps.mp ⟨s', rfl⟩, h⟩, fun h => h.2⟩

/-- No `recv` of a run of reads throws if and only if the condition holds at every call
of `recv`. -/
theorem reads_throw_nothing_iff {cs : List Bytes} {s : SessionId} {size : Nat}
    (hfit : Connection.ReadsFit K (Connection.accepted s size, []) cs) :
    (∀ e, feedAll (Connection.readSome K) (Connection.accepted s size, []) cs ≠
        .error (.thrown e)) ↔ Connection.EveryRecv K P (Connection.accepted s size, []) cs := by
  have hconn : R.Reading size D.init (Connection.accepted s size) := reading_accepted s size
  rcases R.lawful.exists_runs R.lawful.init cs with ⟨ms, out, hruns⟩
  rw [← runs_ok_iff hP hruns hconn hfit]
  have hreads := reads_of_runs hruns hconn hfit
  cases out with
  | error e =>
      have hthrown : feedAll (Connection.readSome K) (Connection.accepted s size, []) cs =
          .error (.thrown e) := hreads
      simp only [reduceCtorEq, exists_false, iff_false]
      exact fun h => h e hthrown
  | ok a =>
      rcases hreads with ⟨conn, blocks, hreads, -, -⟩
      refine ⟨fun _ => ⟨a, rfl⟩, fun _ e => ?_⟩
      rw [hreads]
      simp

end

end Decodes

/-! ## The block that waits -/

/-- A new block satisfies `I`; a call keeps it, or completes the block and establishes `J`. -/
structure BlockClass.Keeps {β : Type} (K : BlockClass β) (I J : β → Prop) : Prop where
  make : ∀ s, I (K.make s 0)
  recv : ∀ k buf k' buf' r, I k → K.recv k buf = .ok (k', buf', r) →
    if K.bodyDone k' = true then J k' else I k'

/-- The block that waits, if there is one, satisfies `I`. -/
def Connection.Waiting {β : Type} (I : β → Prop) (conn : Connection β) : Prop :=
  ∀ k, conn.waitMessage = some k → I k

/-- The block that the next `recv` is called on is new, or the one that waits. -/
theorem Connection.Waiting.getD {β : Type} {K : BlockClass β} {I : β → Prop}
    {conn : Connection β} (hconn : conn.Waiting I) (hmake : ∀ s, I (K.make s 0)) :
    I (conn.waitMessage.getD (K.make conn.session 0)) := by
  cases hwait : conn.waitMessage with
  | none => exact hmake conn.session
  | some k => exact hconn k hwait

theorem Connection.waiting_accepted {β : Type} {I : β → Prop} (s : SessionId) (size : Nat) :
    (accepted s size : Connection β).Waiting I := by
  intro k hk
  cases hk

namespace BlockClass.Keeps

variable {β : Type} {K : BlockClass β} {I J : β → Prop} (h : K.Keeps I J)
include h

theorem readMessage {conn conn' : Connection β} {out : Option β} (hconn : conn.Waiting I)
    (hread : Connection.readMessage K conn = .ok (conn', out)) :
    conn'.Waiting I ∧ ∀ p, out = some p → J p := by
  have hI := hconn.getD h.make
  unfold Connection.readMessage at hread
  rcases exists_of_bind hread with ⟨⟨k, buf, r⟩, hrecv, hrest⟩
  have hstep := h.recv _ _ _ _ _ hI hrecv
  simp only at hrest
  split at hrest
  · rename_i hdone
    cases hrest
    rw [if_pos hdone] at hstep
    constructor
    · intro k' hk'
      cases hk'
    · intro p hp
      cases hp
      exact hstep
  · rename_i hdone
    cases hrest
    rw [if_neg hdone] at hstep
    constructor
    · intro k' hk'
      cases hk'
      exact hstep
    · intro p hp
      cases hp

theorem readLoop (fuel : Nat) {conn conn' : Connection β} {ps : List β}
    (hconn : conn.Waiting I) (hloop : Connection.readLoop K fuel conn = .ok (conn', ps)) :
    conn'.Waiting I ∧ ∀ p ∈ ps, J p := by
  induction fuel generalizing conn ps with
  | zero =>
      rw [Connection.readLoop] at hloop
      split at hloop
      · cases hloop
        exact ⟨hconn, List.forall_mem_nil J⟩
      · cases hloop
  | succ fuel ih =>
      rw [Connection.readLoop] at hloop
      split at hloop
      · cases hloop
        exact ⟨hconn, List.forall_mem_nil J⟩
      · cases hread : Connection.readMessage K conn with
        | error e =>
            rw [hread] at hloop
            cases hloop
        | ok x =>
            rcases x with ⟨conn₁, out⟩
            have hnext := h.readMessage hconn hread
            rw [hread] at hloop
            cases out with
            | none =>
                cases hloop
                exact ⟨hnext.1, List.forall_mem_nil J⟩
            | some p =>
                rcases exists_of_bind hloop with ⟨⟨conn₂, ps₂⟩, hrest, heq⟩
                cases heq
                rcases ih hnext.1 hrest with ⟨hconn₂, hps⟩
                exact ⟨hconn₂, List.forall_mem_cons.mpr ⟨hnext.2 p rfl, hps⟩⟩

theorem readSome {x y : Connection β × List β} {c : Bytes} (hconn : x.1.Waiting I)
    (hposted : ∀ p ∈ x.2, J p) (hread : Connection.readSome K x c = .ok y) :
    y.1.Waiting I ∧ ∀ p ∈ y.2, J p := by
  rcases exists_of_bind hread with ⟨⟨conn, effects⟩, hhandle, heq⟩
  cases heq
  unfold Connection.handleReadSome at hhandle
  split at hhandle
  · cases hhandle
    exact ⟨hconn, by simpa [Connection.posted] using hposted⟩
  · rw [if_neg Bool.false_ne_true] at hhandle
    rcases exists_of_bind hhandle with ⟨⟨conn₁, ps⟩, hloop, heq⟩
    cases heq
    have hreceived : (x.1.received c).Waiting I := hconn
    rcases h.readLoop _ hreceived hloop with ⟨hconn₁, hps⟩
    refine ⟨hconn₁, ?_⟩
    rw [Decodes.posted_append_asyncReadSome]
    exact List.forall_mem_append.mpr ⟨hposted, hps⟩

/-- Every block that a run of reads posts satisfies `J`. -/
theorem posted {cs : List Bytes} {x y : Connection β × List β} (hconn : x.1.Waiting I)
    (hposted : ∀ p ∈ x.2, J p) (hreads : feedAll (Connection.readSome K) x cs = .ok y) :
    ∀ p ∈ y.2, J p := by
  induction cs generalizing x with
  | nil =>
      cases hreads
      exact hposted
  | cons c cs ih =>
      rcases exists_of_bind hreads with ⟨z, hread, hrest⟩
      rcases h.readSome hconn hposted hread with ⟨hz, hpostedz⟩
      exact ih hz hpostedz hrest

variable {P : β → NetBuffer → Prop} (hP : ∀ k buf, I k → P k buf)
include hP

/-- Every call in the loop over one read is on a block that satisfies `I`. -/
theorem loopCalls (fuel : Nat) {conn : Connection β} (hconn : conn.Waiting I) :
    Connection.LoopCalls K P fuel conn := by
  induction fuel generalizing conn with
  | zero =>
      rw [Connection.LoopCalls]
      split
      · trivial
      · trivial
  | succ fuel ih =>
      rw [Connection.LoopCalls]
      split
      · trivial
      · refine ⟨hP _ _ (hconn.getD h.make), ?_⟩
        cases hread : Connection.readMessage K conn with
        | error e => trivial
        | ok x =>
            rcases x with ⟨conn', out⟩
            cases out with
            | none => trivial
            | some p => exact ih (h.readMessage hconn hread).1

/-- Every call in a run of reads is on a block that satisfies `I`. -/
theorem everyRecv {cs : List Bytes} {x : Connection β × List β} (hconn : x.1.Waiting I)
    (hposted : ∀ p ∈ x.2, J p) : Connection.EveryRecv K P x cs := by
  induction cs generalizing x with
  | nil => trivial
  | cons c cs ih =>
      have hreceived : (x.1.received c).Waiting I := hconn
      refine ⟨h.loopCalls hP _ hreceived, ?_⟩
      cases hread : Connection.readSome K x c with
      | error e => trivial
      | ok y =>
          rcases h.readSome hconn hposted hread with ⟨hy, hpostedy⟩
          exact ih hy hpostedy

end BlockClass.Keeps

end FannyNet

import FannyNet.Closing
import FannyNet.DefaultProtocol

/-!
# Reconnecting

A client connects its one connection again, with the buffers, the waiting block and the
queue that the last connection left.  If that was nothing when `connect` was called, the
messages posted and the bytes written on the new connection are those of the new
connection.

Main results:

- Theorem `ConnState.serving_run`: the messages of a run are what the decoder makes of
  its reads.
- Theorem `ConnState.reconnects_clean`: a connection that was left clean comes up clean,
  and what it does then depends on what it receives and is sent then.
-/

namespace FannyNet

open Library Library.Transition Library.Decoder

/-- The bytes of a successful read. -/
def ConnAction.read : ConnAction → List Bytes
  | .handler (.handleReadSome _ false bytes) => [bytes]
  | _ => []

/-- Nothing of a connection is left: no bytes, no message begun, nothing to send. -/
structure Connection.Clean {β : Type} (conn : Connection β) : Prop where
  bufferRecv : conn.bufferRecv.length = 0
  waitMessage : conn.waitMessage = none
  bufferSend : conn.bufferSend.length = 0
  sendList : conn.sendList = []
  isSend : conn.isSend = false

namespace ConnState

variable {β : Type} {K : BlockClass β} {s s' : ConnState β} {effects : List (Effect β)}

/-! ## The receiving part of a step -/

/-- A step that receives nothing leaves alone what `recv` reads into; a read that waits
may have ended, and a connection that comes up starts one. -/
theorem step_keeps_receiving {a : ConnAction} (h : s.step K a = some (s', effects))
    (hread : a.read = [] ∨ s.conn.connected = false) :
    s'.conn.bufferRecv = s.conn.bufferRecv ∧ s'.conn.waitMessage = s.conn.waitMessage ∧
      s'.messages = s.messages ∧
      (s'.reading = s.reading ∨ (∃ i, i < s.reading.length ∧ s'.reading = s.reading.eraseIdx i) ∨
        (a.ComesUp ∧ s'.reading = s.reading ++ [s.conn.room])) := by
  have herase : ∀ {i room : Nat}, s.reading[i]? = some room → i < s.reading.length :=
    fun hi => (List.getElem?_eq_some_iff.mp hi).1
  cases a with
  | send p =>
      cases h
      exact ⟨rfl, rfl, rfl, Or.inl rfl⟩
  | close er =>
      cases h
      exact ⟨rfl, rfl, rfl, Or.inl rfl⟩
  | postAccept =>
      cases h
      exact ⟨rfl, rfl, rfl, Or.inl rfl⟩
  | connect =>
      cases h
      exact ⟨rfl, rfl, rfl, Or.inl rfl⟩
  | handler handler =>
      cases handler with
      | writeMessage i =>
          rcases frame_writeMessage h with ⟨ps, out, total, sending, ws, rfl⟩
          exact ⟨rfl, rfl, rfl, Or.inl rfl⟩
      | handleClose i =>
          rcases step_handleClose h with ⟨er, -, ⟨-, -, rfl, -⟩ | ⟨-, rfl, -⟩⟩
          · exact ⟨rfl, rfl, rfl, Or.inl rfl⟩
          · exact ⟨rfl, rfl, rfl, Or.inl rfl⟩
      | handlAccept =>
          rcases step_handlAccept h with ⟨-, rfl, -⟩
          exact ⟨rfl, rfl, rfl, Or.inr (Or.inr ⟨trivial, rfl⟩)⟩
      | handleReadSome i error bytes =>
          rcases step_handleReadSome h with ⟨room, hi, -, ⟨-, rfl, -⟩ | ⟨-, -, rfl, -⟩ |
            ⟨hconn, rfl, -⟩⟩
          · exact ⟨rfl, rfl, rfl, Or.inr (Or.inl ⟨i, herase hi, rfl⟩)⟩
          · exact ⟨rfl, rfl, rfl, Or.inr (Or.inl ⟨i, herase hi, rfl⟩)⟩
          · rcases hread with hread | hread
            · cases hread
            · rw [hconn] at hread
              cases hread
      | handleWrite i error size =>
          rcases frame_handleWrite h with
            ⟨ps, out, total, sending, ws, closing, completed, failed, asked, rfl⟩
          exact ⟨rfl, rfl, rfl, Or.inl rfl⟩
      | handleConnect error =>
          rcases step_handleConnect h with ⟨-, ⟨-, rfl, -⟩ | ⟨-, -, rfl, -⟩ | ⟨-, -, rfl, -⟩⟩
          · exact ⟨rfl, rfl, rfl, Or.inl rfl⟩
          · exact ⟨rfl, rfl, rfl, Or.inl rfl⟩
          · exact ⟨rfl, rfl, rfl, Or.inr (Or.inr ⟨trivial, rfl⟩)⟩

/-! ## Reading on a connection that is up -/

section
variable {σ μ : Type} {D : Decoder UInt8 σ μ Exn} {R : Decodes K D} {size : Nat} {st : σ}

/-- A connection that is up, in a state of its decoder, with at most one read
outstanding. -/
structure Serving (R : Decodes K D) (size : Nat) (st : σ) (s : ConnState β) : Prop where
  decoding : R.Reading size st s.conn
  reading : s.reading = [] ∨ s.reading = [s.conn.room]

theorem reading_congr {conn conn' : Connection β} (h : R.Reading size st conn)
    (hbuffer : conn'.bufferRecv = conn.bufferRecv) (hwait : conn'.waitMessage = conn.waitMessage)
    (hconn : conn'.connected = true) : R.Reading size st conn' where
  connected := hconn
  valid := hbuffer ▸ h.valid
  readPos := by
    rw [hbuffer]
    exact h.readPos
  maxLen := by
    rw [hbuffer]
    exact h.maxLen
  pending := by
    rw [hbuffer, hwait]
    exact h.pending

theorem room_congr {conn conn' : Connection β} (hbuffer : conn'.bufferRecv = conn.bufferRecv) :
    conn'.room = conn.room := by
  rw [Connection.room, Connection.room, hbuffer]

/-- Where at most one read is outstanding, at most one stays so until another starts. -/
theorem reading_kept {reading reading' : List Nat} {room : Nat}
    (h : reading = [] ∨ reading = [room])
    (hreading : reading' = reading ∨
      ∃ i, i < reading.length ∧ reading' = reading.eraseIdx i) :
    reading' = [] ∨ reading' = [room] := by
  rcases hreading with heq | ⟨i, hi, heq⟩
  · rw [heq]
    exact h
  · rcases h with hnil | hone
    · rw [hnil, List.length_nil] at hi
      exact absurd hi (Nat.not_lt_zero i)
    · rw [hone, List.length_singleton] at hi
      rw [heq, hone, Nat.lt_one_iff.mp hi, List.eraseIdx_cons_zero]
      exact Or.inl rfl

/-- A completed read feeds the decoder and starts the next one. -/
theorem serving_read {i : Nat} {bytes : Bytes} (hs : Serving R size st s)
    (h : s.step K (.handler (.handleReadSome i false bytes)) = some (s', effects)) :
    ∃ ms st' ps, D.Pumps st bytes ms (.ok st') ∧ s'.messages = s.messages ++ ps ∧
      List.Forall₂ R.Shows ms ps ∧ Serving R size st' s' := by
  rcases step_handleReadSome h with ⟨room, hi, hroom, ⟨hdown, -⟩ | ⟨-, herror, -⟩ |
    ⟨hconn, -, conn', ps, hread, -, rfl, rfl⟩⟩
  · rw [hs.decoding.connected] at hdown
    cases hdown
  · cases herror
  · have honly : s.reading.eraseIdx i = [] ∧ room = s.conn.room := by
      have hlt := (List.getElem?_eq_some_iff.mp hi).1
      have hmem := List.mem_of_getElem? hi
      rcases hs.reading with hnil | hone
      · rw [hnil] at hmem
        cases hmem
      · rw [hone, List.mem_singleton] at hmem
        rw [hone, List.length_singleton] at hlt
        exact ⟨by rw [hone, Nat.lt_one_iff.mp hlt, List.eraseIdx_cons_zero], hmem⟩
    rcases honly with ⟨hnone, rfl⟩
    rcases R.lawful.exists_pumps hs.decoding.isOpen bytes with ⟨ms, out, hpumps⟩
    have hpumped := Decodes.readSome_pumps hpumps hs.decoding hroom []
    have hsome : Connection.readSome K (s.conn, []) bytes = .ok (conn', ps) := by
      simp [Connection.readSome, hread, Decodes.posted_append_asyncReadSome]
    rw [hsome] at hpumped
    cases out with
    | error e => cases hpumped
    | ok st' =>
        rcases hpumped with ⟨conn'', ps', heq, hshows, hreading⟩
        cases heq
        exact ⟨ms, st', ps', hpumps, rfl, hshows, hreading, Or.inr (by rw [hnone]; rfl)⟩

/-- A step of a connection that stays up feeds the decoder what it reads. -/
theorem serving_next {a : ConnAction} (hs : Serving R size st s) (ha : a.StaysUp)
    (h : s.step K a = some (s', effects)) :
    ∃ ms st' ps, D.Runs st a.read ms (.ok st') ∧ s'.messages = s.messages ++ ps ∧
      List.Forall₂ R.Shows ms ps ∧ Serving R size st' s' := by
  have hconn' : s'.conn.connected = true :=
    (step_sendPath h).connected ha hs.decoding.connected
  by_cases hread : a.read = []
  · rcases step_keeps_receiving h (Or.inl hread) with ⟨hbuffer, hwait, hmessages, hreading⟩
    refine ⟨[], st, [], hread ▸ .nil st, by rw [hmessages, List.append_nil], .nil,
      reading_congr hs.decoding hbuffer hwait hconn', ?_⟩
    rw [room_congr hbuffer]
    refine reading_kept hs.reading (hreading.imp_right ?_)
    exact fun hmore => hmore.resolve_right fun hup => ha.not_comesUp hup.1
  · cases a with
    | handler handler =>
        cases handler with
        | handleReadSome i error bytes =>
            cases error with
            | true => exact absurd rfl hread
            | false =>
                rcases serving_read hs h with ⟨ms, st', ps, hpumps, hmessages, hshows, hserving⟩
                refine ⟨ms, st', ps, ?_, hmessages, hshows, hserving⟩
                have hruns := Runs.cons hpumps (Runs.nil st')
                rwa [List.append_nil] at hruns
        | _ => exact absurd rfl hread
    | _ => exact absurd rfl hread

/-- The messages of a run are what the decoder makes of its reads. -/
theorem serving_run {actions : List ConnAction} (hs : Serving R size st s)
    (hactions : ∀ a ∈ actions, a.StaysUp) (h : run (next K) s actions = some s') :
    ∃ ms st' ps, D.Runs st (actions.flatMap ConnAction.read) ms (.ok st') ∧
      s'.messages = s.messages ++ ps ∧ List.Forall₂ R.Shows ms ps ∧ Serving R size st' s' := by
  induction actions generalizing s st with
  | nil =>
      rw [run_nil, Option.some.injEq] at h
      subst h
      exact ⟨[], st, [], .nil st, (List.append_nil _).symm, .nil, hs⟩
  | cons a actions ih =>
      rw [List.forall_mem_cons] at hactions
      rcases run_cons.mp h with ⟨mid, hmid, hrest⟩
      rcases next_eq_some.mp hmid with ⟨effects, hstep⟩
      rcases serving_next hs hactions.1 hstep with ⟨ms, st', ps, hruns, hmessages, hshows, hs'⟩
      rcases ih hs' hactions.2 hrest with ⟨ms', st'', ps', hruns', hmessages', hshows', hs''⟩
      refine ⟨ms ++ ms', st'', ps ++ ps', hruns.append hruns', ?_,
        List.rel_append hshows hshows', hs''⟩
      rw [hmessages', hmessages, List.append_assoc]

end

/-! ## Coming up again -/

/-- `connect` is called on a connection that is down and clean, with no connect and no
read of the last connection outstanding, and nothing is sent while it goes on. -/
def ConnectsClean (s : ConnState β) : ConnAction → Prop
  | .postAccept => False
  | .connect =>
      s.conn.connected = false ∧ s.connecting = 0 ∧ s.reading = [] ∧ s.conn.Clean
  | .send _ => s.connecting = 0
  | _ => True

section
variable {σ μ : Type} {D : Decoder UInt8 σ μ Exn} {R : Decodes K D} {size : Nat}

/-- The connection is clean as long as a connect goes on. -/
structure Restartable (R : Decodes K D) (size : Nat) (s : ConnState β) : Prop where
  flying : s.sendPath.Flying
  balanced : s.sendPath.Balanced
  decoding : ∃ st, R.Reading size st { s.conn with connected := true }
  reading : s.reading = [] ∨ s.reading = [s.conn.room]
  connecting : s.connecting = 0 ∨
    (s.connecting = 1 ∧ s.conn.connected = false ∧ s.reading = [] ∧ s.conn.Clean)
  accepting : s.accepting = 0

theorem restartable_create (sid : SessionId) : Restartable R size (create sid size) where
  flying := flying_create sid size
  balanced := by
    refine Or.inl ?_
    change [] ++ (NetBuffer.create size).unread ++ [] = []
    rw [NetBuffer.unread_create]
    rfl
  decoding := ⟨D.init, Decodes.reading_accepted sid size⟩
  reading := Or.inl rfl
  connecting := Or.inl rfl
  accepting := rfl

/-- A connection that is down and clean stays so, whatever still runs on it. -/
theorem clean_next {a : ConnAction} (hf : s.sendPath.Flying) (hdown : s.conn.connected = false)
    (hreading : s.reading = []) (hclean : s.conn.Clean) (hsent : a.sent = [])
    (hup : ¬ a.ComesUp) (h : s.step K a = some (s', effects)) :
    s'.conn.connected = false ∧ s'.reading = [] ∧ s'.conn.Clean := by
  rcases step_keeps_receiving h (Or.inr hdown) with ⟨hbuffer, hwait, -, hreading'⟩
  have hnone : ∀ (i : Nat) (bytes : Bytes), s.writing[i]? ≠ some bytes := by
    intro i bytes hi
    have hsend : s.conn.isSend = true := (hf.of_getElem? hi).1
    rw [hclean.isSend] at hsend
    cases hsend
  have hreading'' : s'.reading = [] := by
    rcases hreading' with heq | ⟨i, hi, -⟩ | ⟨hcomes, -⟩
    · exact heq.trans hreading
    · rw [hreading] at hi
      exact absurd hi (Nat.not_lt_zero i)
    · exact absurd hcomes hup
  have hpath : s'.sendPath.connected = false ∧ s'.sendPath.buffer = s.sendPath.buffer ∧
      s'.sendPath.sendList = s.sendPath.sendList ∧ s'.sendPath.isSend = s.sendPath.isSend := by
    have hmove := step_sendPath h
    generalize s'.sendPath = t', writesOf effects = ws at hmove
    have hdown' : s.sendPath.connected = false := hdown
    cases hmove with
    | quiet => exact ⟨hdown', rfl, rfl, rfl⟩
    | send p => cases hsent
    | idle => exact ⟨hdown', rfl, rfl, rfl⟩
    | wake i size hi hconn =>
        rw [hdown'] at hconn
        cases hconn
    | shut => exact ⟨rfl, rfl, rfl, rfl⟩
    | up a hcomes => exact absurd hcomes hup
    | failed i size bytes hi => exact absurd hi (hnone i bytes)
    | late i bytes hi => exact absurd hi (hnone i bytes)
    | written i bytes hi => exact absurd hi (hnone i bytes)
  rcases hpath with ⟨hconn, hout, hlist, hsend⟩
  refine ⟨hconn, hreading'', ?_, hwait.trans hclean.waitMessage, ?_,
    hlist.trans hclean.sendList, hsend.trans hclean.isSend⟩
  · rw [hbuffer]
    exact hclean.bufferRecv
  · change s'.conn.bufferSend = s.conn.bufferSend at hout
    rw [hout]
    exact hclean.bufferSend

/-- A clean connection has nothing in its send buffer, and all it was given is written. -/
theorem Restartable.all_written (hs : Restartable R size s) (hclean : s.conn.Clean) :
    s.completed = unreadAll s.accepted := by
  have hbuffer : Sendable s.conn.bufferSend := hs.flying.buffer
  have hempty : s.conn.bufferSend.unread = [] := hbuffer.unread_eq_nil hclean.bufferSend
  rcases hs.balanced with hbytes | ⟨-, -, hne⟩
  · change s.completed ++ s.conn.bufferSend.unread ++ unreadAll s.conn.sendList =
      unreadAll s.accepted at hbytes
    rw [hempty, hclean.sendList, unreadAll_nil, List.append_nil, List.append_nil] at hbytes
    exact hbytes
  · exact absurd hempty hne

/-- A clean connection is in the first state of its decoder. -/
theorem Restartable.decoding_init (hs : Restartable R size s) (hclean : s.conn.Clean) :
    R.Reading size D.init { s.conn with connected := true } := by
  rcases hs.decoding with ⟨st, hst⟩
  rcases hst.pending with ⟨u, -, hpending⟩
  have hwait : ({ s.conn with connected := true } : Connection β).waitMessage = none :=
    hclean.waitMessage
  rw [hwait] at hpending
  rw [← hpending.1]
  exact hst

/-- Connecting, and a connect that ends, on a connection that was left clean. -/
theorem restartable_handleConnect {error : NetErrorType} (hs : Restartable R size s)
    (h : s.step K (.handler (.handleConnect error)) = some (s', effects)) :
    Restartable R size s' := by
  rcases step_handleConnect h with ⟨hpos, hcases⟩
  rcases hs.connecting with hzero | ⟨hone, hdown, hreading, hclean⟩
  · rw [hzero] at hpos
    exact absurd hpos (Nat.lt_irrefl 0)
  · have hzero : s.connecting - 1 = 0 := by rw [hone]
    rcases hcases with ⟨hconn, -⟩ | ⟨-, -, rfl, -⟩ | ⟨-, -, rfl, -⟩
    · rw [hdown] at hconn
      cases hconn
    · exact ⟨hs.flying, hs.balanced, hs.decoding, hs.reading, Or.inl hzero, hs.accepting⟩
    · refine ⟨(step_sendPath h).flying hs.flying, Or.inl ?_, hs.decoding, Or.inr ?_,
        Or.inl hzero, hs.accepting⟩
      · rcases hs.balanced with hbytes | ⟨-, -, hne⟩
        · exact hbytes
        · exact absurd (hs.flying.buffer.unread_eq_nil hclean.bufferSend) hne
      · simp [cameUp, hreading, Connection.room]

/-- A step that neither reads nor opens anything. -/
theorem restartable_quiet {a : ConnAction} (hs : Restartable R size s) (ha : s.ConnectsClean a)
    (hup : ¬ a.ComesUp) (hread : a.read = [] ∨ s.conn.connected = false)
    (hopening : s.opening a = (s.connecting, s.accepting))
    (h : s.step K a = some (s', effects)) : Restartable R size s' := by
  have hopened := step_opening h
  rw [hopening, Prod.mk.injEq] at hopened
  rcases hopened with ⟨hconnecting, haccepting⟩
  rcases step_keeps_receiving h hread with ⟨hbuffer, hwait, -, hreading⟩
  have hmove := step_sendPath h
  refine ⟨hmove.flying hs.flying, hmove.balanced hup hs.flying hs.balanced, ?_, ?_, ?_,
    haccepting.trans hs.accepting⟩
  · rcases hs.decoding with ⟨st, hst⟩
    exact ⟨st, reading_congr hst hbuffer hwait rfl⟩
  · rw [room_congr hbuffer]
    refine reading_kept hs.reading (hreading.imp_right ?_)
    exact fun hmore => hmore.resolve_right fun hcomes => hup hcomes.1
  · rcases hs.connecting with hzero | ⟨hone, hdown, hnone, hclean⟩
    · exact Or.inl (hconnecting.trans hzero)
    · have hsent : a.sent = [] := by
        cases a with
        | send p =>
            have hzero : s.connecting = 0 := ha
            rw [hone] at hzero
            cases hzero
        | _ => rfl
      exact Or.inr ⟨hconnecting.trans hone, clean_next hs.flying hdown hnone hclean hsent hup h⟩

/-- A read that is completed while the connection is up. -/
theorem restartable_read {i : Nat} {bytes : Bytes} (hs : Restartable R size s)
    (hconn : s.conn.connected = true)
    (h : s.step K (.handler (.handleReadSome i false bytes)) = some (s', effects)) :
    Restartable R size s' := by
  rcases hs.decoding with ⟨st, hst⟩
  have hserving : Serving R size st s := ⟨reading_congr hst rfl rfl hconn, hs.reading⟩
  rcases serving_read hserving h with ⟨ms, st', ps, -, -, -, hserving'⟩
  have hopened : (s'.connecting, s'.accepting) = (s.connecting, s.accepting) := step_opening h
  rw [Prod.mk.injEq] at hopened
  have hmove := step_sendPath h
  refine ⟨hmove.flying hs.flying, hmove.balanced not_false hs.flying hs.balanced,
    ⟨st', reading_congr hserving'.decoding rfl rfl rfl⟩, hserving'.reading, ?_,
    hopened.2.trans hs.accepting⟩
  rcases hs.connecting with hzero | ⟨-, hdown, -⟩
  · exact Or.inl (hopened.1.trans hzero)
  · rw [hconn] at hdown
    cases hdown

/-- Every step that connects cleanly keeps the connection fit to be connected. -/
theorem restartable_next {a : ConnAction} (hs : Restartable R size s) (ha : s.ConnectsClean a)
    (h : s.step K a = some (s', effects)) : Restartable R size s' := by
  cases a with
  | postAccept => exact ha.elim
  | connect =>
      cases h
      rcases ha with ⟨hdown, hzero, hreading, hclean⟩
      exact ⟨hs.flying, hs.balanced, hs.decoding, hs.reading,
        Or.inr ⟨congrArg (· + 1) hzero, hdown, hreading, hclean⟩, hs.accepting⟩
  | handler handler =>
      cases handler with
      | handlAccept =>
          have hpos := (step_handlAccept h).1
          rw [hs.accepting] at hpos
          exact absurd hpos (Nat.lt_irrefl 0)
      | handleConnect error => exact restartable_handleConnect hs h
      | handleReadSome i error bytes =>
          cases hconn : s.conn.connected with
          | false => exact restartable_quiet hs ha not_false (Or.inr hconn) rfl h
          | true =>
              cases error with
              | false => exact restartable_read hs hconn h
              | true => exact restartable_quiet hs ha not_false (Or.inl rfl) rfl h
      | _ => exact restartable_quiet hs ha not_false (Or.inl rfl) rfl h
  | _ => exact restartable_quiet hs ha not_false (Or.inl rfl) rfl h

/-- A connection whose connects are clean comes up with nothing of the last connection:
none of its bytes, no message begun and no write or read of its own but the first read.
What it then posts is what the decoder makes of what it then reads, and what it writes is
what it is then sent. -/
theorem reconnects_clean (R : Decodes K D) (sid : SessionId) (size : Nat)
    {actions : List ConnAction} (hclean : Along (next K) ConnectsClean (create sid size) actions)
    (h : run (next K) (create sid size) actions = some s) {error : NetErrorType}
    (hup : s.next K (.handler (.handleConnect error)) = some s')
    (hdown : s.conn.connected = false) (hconn : s'.conn.connected = true) :
    (s'.conn.Clean ∧ s'.writing = [] ∧ s'.reading = [s'.conn.room]) ∧
      ∀ later u, (∀ a ∈ later, a.StaysUp) → run (next K) s' later = some u →
        (∀ ms out, D.Runs D.init (later.flatMap ConnAction.read) ms out →
          ∃ ps, u.messages = s'.messages ++ ps ∧ List.Forall₂ R.Shows ms ps) ∧
        ∃ w, u.completed = s'.completed ++ w ∧
          w ++ u.conn.bufferSend.data ++ unreadAll u.conn.sendList =
            unreadAll (later.flatMap ConnAction.sent) := by
  have hs : Restartable R size s := by
    refine run_invariant_of_along ?_ (restartable_create sid) hclean h
    intro s a t hs ha hnext
    rcases next_eq_some.mp hnext with ⟨effects, hstep⟩
    exact restartable_next hs ha hstep
  rcases next_eq_some.mp hup with ⟨effects, hstep⟩
  have hs' : Restartable R size s' := restartable_handleConnect hs hstep
  rcases step_handleConnect hstep with ⟨hpos, ⟨hconn', -⟩ | ⟨-, -, rfl, -⟩ | ⟨-, -, rfl, -⟩⟩
  · rw [hdown] at hconn'
    cases hconn'
  · change s.conn.connected = true at hconn
    rw [hdown] at hconn
    cases hconn
  rcases hs.connecting with hzero | ⟨-, -, hreading, hfresh⟩
  · rw [hzero] at hpos
    exact absurd hpos (Nat.lt_irrefl 0)
  have hfresh' : (cameUp { s with connecting := s.connecting - 1 }).conn.Clean :=
    ⟨hfresh.bufferRecv, hfresh.waitMessage, hfresh.bufferSend, hfresh.sendList, hfresh.isSend⟩
  have hreading' : (cameUp { s with connecting := s.connecting - 1 }).reading = [s.conn.room] := by
    simp [cameUp, hreading]
  refine ⟨⟨hfresh', ?_, hreading'⟩, ?_⟩
  · rcases hs.flying.writing with ⟨hsend, -⟩ | ⟨-, hwriting⟩
    · change s.conn.isSend = true at hsend
      rw [hfresh.isSend] at hsend
      cases hsend
    · exact hwriting
  intro later u hlater hrun
  have hserving : Serving R size D.init (cameUp { s with connecting := s.connecting - 1 }) :=
    ⟨hs.decoding_init hfresh, Or.inr hreading'⟩
  rcases serving_run hserving hlater hrun with ⟨ms, st, ps, hruns, hmessages, hshows, -⟩
  rcases run_history hrun with ⟨haccepted, w, hcompleted⟩
  have hbytes := run_balanced rfl hs'.flying hs'.balanced hlater hrun
  refine ⟨?_, w, hcompleted.symm, ?_⟩
  · intro ms' out hruns'
    rcases hruns'.unique hruns with ⟨rfl, -⟩
    exact ⟨ps, hmessages, hshows⟩
  · rw [← hcompleted, haccepted, unreadAll_append, hs'.all_written hfresh', List.append_assoc,
      List.append_assoc, List.append_cancel_left_eq] at hbytes
    rw [List.append_assoc, hbytes]

end

instance (conn : Connection β) : Decidable conn.Clean :=
  decidable_of_iff (conn.bufferRecv.length = 0 ∧ conn.waitMessage.isNone = true ∧
      conn.bufferSend.length = 0 ∧ conn.sendList = [] ∧ conn.isSend = false) <| by
    rw [Option.isNone_iff_eq_none]
    constructor
    · rintro ⟨hrecv, hwait, hout, hlist, hsend⟩
      exact ⟨hrecv, hwait, hout, hlist, hsend⟩
    · rintro ⟨hrecv, hwait, hout, hlist, hsend⟩
      exact ⟨hrecv, hwait, hout, hlist, hsend⟩

instance (s : ConnState β) : (a : ConnAction) → Decidable (s.ConnectsClean a)
  | .postAccept => inferInstanceAs (Decidable False)
  | .connect => inferInstanceAs (Decidable (_ ∧ _ ∧ _ ∧ _))
  | .send _ => inferInstanceAs (Decidable (_ = _))
  | .close _ => inferInstanceAs (Decidable True)
  | .handler _ => inferInstanceAs (Decidable True)

/-- A connection is used and closed with nothing left, and connected again. -/
def usedAndConnected : List ConnAction :=
  [.connect, .handler (.handleConnect false), .send (filled [1, 2, 3]),
    .handler (.writeMessage 0), .handler (.handleWrite 0 false 3), .close false,
    .handler (.handleClose 0), .handler (.handleReadSome 0 true []), .connect]

theorem reconnects_clean_usedAndConnected :
    ∃ s s' : ConnState NetBlock,
      run (next NetBlock.blockClass) (create 1 32) usedAndConnected = some s ∧
        s.next NetBlock.blockClass (.handler (.handleConnect false)) = some s' ∧
          s.closed = true ∧ s'.conn.Clean := by
  have hclean : Along (next NetBlock.blockClass) ConnectsClean (create 1 32) usedAndConnected := by
    decide +kernel
  have hrun : (run (next NetBlock.blockClass) (create 1 32) usedAndConnected).any (fun s =>
      s.closed = true ∧ s.conn.connected = false ∧
        (s.next NetBlock.blockClass (.handler (.handleConnect false))).any fun s' =>
          s'.conn.connected = true) = true := by
    decide +kernel
  rcases (Option.any_eq_true _ _).mp hrun with ⟨s, hs, hvalues⟩
  rw [decide_eq_true_eq] at hvalues
  rcases hvalues with ⟨hclosed, hdown, hnext⟩
  rcases (Option.any_eq_true _ _).mp hnext with ⟨s', hup, hconn⟩
  exact ⟨s, s', hs, hup, hclosed, (reconnects_clean NetBlock.decodes 1 32 hclean hs hup hdown
    (of_decide_eq_true hconn)).1.1⟩

/-- The first connection ends in the middle of a header, the second brings a whole message. -/
def resetInHeader : List ConnAction :=
  [.connect, .handler (.handleConnect false), .handler (.handleReadSome 0 false [14, 0, 0, 0]),
    .handler (.handleReadSome 0 true []), .handler (.handleClose 0), .connect]

/-- The four bytes of the header are still in the buffer when the connection comes up
again, and of the message that is then received another one is made. -/
theorem reconnect_keeps_header :
    ∃ s s' u : ConnState NetBlock,
      run (next NetBlock.blockClass) (create 1 32) resetInHeader = some s ∧
        s.next NetBlock.blockClass (.handler (.handleConnect false)) = some s' ∧
        (s.closed = true ∧ s.conn.connected = false ∧ s'.conn.connected = true ∧
          s'.conn.bufferRecv.data = [14, 0, 0, 0]) ∧
        s'.next NetBlock.blockClass
          (.handler (.handleReadSome 0 false [14, 0, 0, 0, 0, 0, 0, 0, 0, 0, 0, 0, 7, 8])) =
            some u ∧
          u.messages.map NetBlock.bytes = [[0, 0]] := by
  have hrun : (run (next NetBlock.blockClass) (create 1 32) resetInHeader).any (fun s =>
      (s.next NetBlock.blockClass (.handler (.handleConnect false))).any fun s' =>
        (s.closed = true ∧ s.conn.connected = false ∧ s'.conn.connected = true ∧
          s'.conn.bufferRecv.data = [14, 0, 0, 0]) ∧
        (s'.next NetBlock.blockClass (.handler (.handleReadSome 0 false
          [14, 0, 0, 0, 0, 0, 0, 0, 0, 0, 0, 0, 7, 8]))).any fun u =>
            u.messages.map NetBlock.bytes = [[0, 0]]) = true := by
    decide +kernel
  rcases (Option.any_eq_true _ _).mp hrun with ⟨s, hs, hnext⟩
  rcases (Option.any_eq_true _ _).mp hnext with ⟨s', hs', hvalues⟩
  rw [decide_eq_true_eq] at hvalues
  rcases hvalues with ⟨hkept, hread⟩
  rcases (Option.any_eq_true _ _).mp hread with ⟨u, hu, hmessages⟩
  exact ⟨s, s', u, hs, hs', hkept, hu, of_decide_eq_true hmessages⟩

end ConnState

end FannyNet

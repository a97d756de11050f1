import FannyNet.Connection
import FannyNet.Library.Transition

/-!
# A connection on its `io_service`

The handlers of a connection run one at a time on the thread of its `io_service`.
`send`, `close`, `postAccept` and `connect` are called from other threads and only
post or start something.  What is posted or started waits in the list of its kind
until it is run or completes, and any of what waits may be the next.

Main results:

- Definition `ConnState.step`: a call from outside or the execution of a handler.
- Theorems `Connection.handleClose_cases`, `Connection.writeMessage_cases` and
  `Connection.handleReadSome_cases`: all that the three handlers with branches can do.
- Theorem `ConnState.step_outcome`: what one step does to `m_connect` and which events
  it hands to the object.
-/

namespace FannyNet

open Library.Transition

/-! ## The handlers, branch by branch -/

namespace Connection

variable {β : Type} {conn conn' : Connection β} {effects : List (Effect β)}

/-- Whether `handleClose` still has something to send: the condition under which a
close without error is put off. -/
def unsent (conn : Connection β) : Bool :=
  conn.isSend || !conn.sendList.isEmpty || conn.bufferSend.hasRead

/-- Either the close is put off, or the socket is closed and the object told. -/
theorem handleClose_cases (conn : Connection β) (er : NetErrorType) :
    (er = false ∧ conn.unsent = true ∧ conn.handleClose er = (conn, [.postHandleClose false])) ∨
      ((er = true ∨ conn.unsent = false) ∧
        conn.handleClose er = ({ conn with connected := false }, [.closeSocket, .eventClose])) := by
  cases er with
  | false =>
      cases hunsent : conn.unsent with
      | false =>
          rw [unsent] at hunsent
          exact Or.inr ⟨Or.inr rfl, by simp [handleClose, hunsent]⟩
      | true =>
          rw [unsent] at hunsent
          exact Or.inl ⟨rfl, rfl, by simp [handleClose, hunsent, close]⟩
  | true => exact Or.inr ⟨Or.inl rfl, rfl⟩

/-- Either the handler does nothing, or it discards what was written, refills the send
buffer and starts a write of what is in it, if anything is. -/
theorem writeMessage_cases (conn : Connection β) (size : Nat) :
    ((conn.connected = false ∨ conn.isSend = true) ∧ conn.writeMessage size = (conn, [])) ∨
      (conn.connected = true ∧ conn.isSend = false ∧ ∃ ps out,
        fillSend conn.sendList (conn.bufferSend.readData size).1.clearReadBuffer = (ps, out) ∧
        conn.writeMessage size =
          ({ conn with
              sendList := ps, bufferSend := out, totalSend := sizeAdd conn.totalSend size,
              isSend := out.hasRead },
            if out.hasRead then [.asyncWrite out.unread] else [])) := by
  cases hconn : conn.connected with
  | false => exact Or.inl ⟨Or.inl rfl, by simp [writeMessage, hconn]⟩
  | true =>
      cases hsend : conn.isSend with
      | true => exact Or.inl ⟨Or.inr rfl, by simp [writeMessage, hconn, hsend]⟩
      | false =>
          cases hfill : fillSend conn.sendList
              (conn.bufferSend.readData size).1.clearReadBuffer with
          | mk ps out =>
              refine Or.inr ⟨rfl, rfl, ps, out, rfl, ?_⟩
              cases hread : out.hasRead with
              | false => simp [writeMessage, hconn, hsend, hfill, hread]
              | true => simp [writeMessage, hconn, hsend, hfill, hread]

variable {K : BlockClass β}

theorem readMessage_frame {p : Option β} (h : readMessage K conn = .ok (conn', p)) :
    ∃ buf wait, conn' = { conn with bufferRecv := buf, waitMessage := wait } := by
  cases hrecv : K.recv (conn.waitMessage.getD (K.make conn.session 0)) conn.bufferRecv with
  | error e => simp [readMessage, hrecv] at h
  | ok x =>
      rcases x with ⟨wait, buf, r⟩
      simp only [readMessage, hrecv, ok_bind] at h
      split at h
      · simp only [Except.ok.injEq, Prod.mk.injEq] at h
        exact ⟨buf, none, h.1.symm⟩
      · simp only [Except.ok.injEq, Prod.mk.injEq] at h
        exact ⟨buf, some wait, h.1.symm⟩

/-- The read loop only touches what `recv` reads into. -/
theorem readLoop_frame {fuel : Nat} {ps : List β} (h : readLoop K fuel conn = .ok (conn', ps)) :
    ∃ buf wait, conn' = { conn with bufferRecv := buf, waitMessage := wait } := by
  induction fuel generalizing conn conn' ps with
  | zero =>
      unfold readLoop at h
      split at h
      · simp only [Except.ok.injEq, Prod.mk.injEq] at h
        exact ⟨conn.bufferRecv, conn.waitMessage, h.1.symm⟩
      · simp at h
  | succ fuel ih =>
      unfold readLoop at h
      split at h
      · simp only [Except.ok.injEq, Prod.mk.injEq] at h
        exact ⟨conn.bufferRecv, conn.waitMessage, h.1.symm⟩
      · cases hmessage : readMessage K conn with
        | error e => simp [hmessage] at h
        | ok x =>
            rcases x with ⟨mid, p⟩
            rcases readMessage_frame hmessage with ⟨buf, wait, rfl⟩
            cases p with
            | none =>
                simp only [hmessage, Except.ok.injEq, Prod.mk.injEq] at h
                exact ⟨buf, wait, h.1.symm⟩
            | some p =>
                simp only [hmessage] at h
                cases hrest : readLoop K fuel
                    { conn with bufferRecv := buf, waitMessage := wait } with
                | error e => simp [hrest] at h
                | ok y =>
                    rcases y with ⟨last, qs⟩
                    rcases ih hrest with ⟨buf', wait', rfl⟩
                    simp only [hrest, ok_bind, Except.ok.injEq, Prod.mk.injEq] at h
                    exact ⟨buf', wait', h.1.symm⟩

/-- A completed read is ignored on a connection that is not up, asks for a close if it
failed, and else posts the messages it completes and starts the next read. -/
theorem handleReadSome_cases {error : NetErrorType} {bytes : Bytes}
    (h : handleReadSome K conn error bytes = .ok (conn', effects)) :
    (conn.connected = false ∧ conn' = conn ∧ effects = []) ∨
      (conn.connected = true ∧ error = true ∧ conn' = conn ∧
        effects = [.postHandleClose true]) ∨
      (conn.connected = true ∧ error = false ∧ ∃ buf wait, ∃ ps : List β,
        conn' = { conn with
          bufferRecv := buf, waitMessage := wait,
          totalRecv := sizeAdd conn.totalRecv bytes.length } ∧
        effects = ps.map .eventPostRecv ++ [.asyncReadSome conn'.room]) := by
  cases hconn : conn.connected with
  | false =>
      simp only [handleReadSome, hconn, Bool.not_false, if_true, Except.ok.injEq,
        Prod.mk.injEq] at h
      exact Or.inl ⟨rfl, h.1.symm, h.2.symm⟩
  | true =>
      cases error with
      | true =>
          simp only [handleReadSome, hconn, Bool.not_true, Bool.false_eq_true, if_false, if_true,
            Except.ok.injEq, onError, close, Prod.mk.injEq] at h
          exact Or.inr (Or.inl ⟨rfl, rfl, h.1.symm, h.2.symm⟩)
      | false =>
          simp only [handleReadSome, hconn, Bool.not_true, Bool.false_eq_true, if_false] at h
          cases hloop : readLoop K ((conn.received bytes).bufferRecv.length + 1)
              (conn.received bytes) with
          | error e => simp [hloop] at h
          | ok x =>
              rcases x with ⟨mid, ps⟩
              rcases readLoop_frame hloop with ⟨buf, wait, hmid⟩
              simp only [hloop, ok_bind, beginRead, Except.ok.injEq, Prod.mk.injEq] at h
              rcases h with ⟨rfl, rfl⟩
              refine Or.inr (Or.inr ⟨rfl, rfl, buf, wait, ps, ?_, rfl⟩)
              rw [hmid, ← hconn]
              rfl

end Connection

/-! ## The state -/

/-- A connection with the handlers posted on its `io_service` and the operations
started on its socket: the sizes of the posted `writeMessage`, the error codes of the
posted `handleClose`, the room given to each read and the bytes given to each write.

Beside these the history: the blocks handed to `send`, the bytes of the writes that
succeeded, the messages posted; and since the connection last came up, whether a write
has failed, whether the socket was closed and whether that was asked for. -/
structure ConnState (β : Type) where
  conn : Connection β
  accepting : Nat
  connecting : Nat
  posted : List Nat
  closing : List NetErrorType
  reading : List Nat
  writing : List Bytes
  accepted : List NetBuffer
  completed : Bytes
  messages : List β
  writeFailed : Bool
  closed : Bool
  closeAsked : Bool
deriving DecidableEq, Repr

/-- The handlers, with which one of those that wait is run and what the operation it
belongs to completed with. -/
inductive Handler where
  | writeMessage (i : Nat)
  | handleClose (i : Nat)
  | handlAccept
  | handleReadSome (i : Nat) (error : NetErrorType) (bytes : Bytes)
  | handleWrite (i : Nat) (error : NetErrorType) (size : Nat)
  | handleConnect (error : NetErrorType)
deriving DecidableEq, Repr

/-- A call from another thread, or the execution of a handler. -/
inductive ConnAction where
  | send (p : {p : NetBuffer // p.Valid})
  | close (er : NetErrorType)
  | postAccept
  | connect
  | handler (h : Handler)

namespace ConnState

variable {β : Type}

/-- A connection on which nothing has happened. -/
def create (sid : SessionId) (size : Nat) : ConnState β where
  conn := Connection.create sid size
  accepting := 0
  connecting := 0
  posted := []
  closing := []
  reading := []
  writing := []
  accepted := []
  completed := []
  messages := []
  writeFailed := false
  closed := false
  closeAsked := false

/-- What an effect adds to the work that waits, and to the history. -/
def perform (s : ConnState β) : Effect β → ConnState β
  | .postWriteMessage size => { s with posted := s.posted ++ [size] }
  | .postHandleClose er => { s with closing := s.closing ++ [er], closeAsked := true }
  | .postHandleAccept => { s with accepting := s.accepting + 1 }
  | .asyncReadSome room => { s with reading := s.reading ++ [room] }
  | .asyncWrite bytes => { s with writing := s.writing ++ [bytes] }
  | .asyncConnect => { s with connecting := s.connecting + 1 }
  | .closeSocket => { s with closed := true }
  | .eventPostRecv block => { s with messages := s.messages ++ [block] }
  | .eventConnect =>
      { s with writeFailed := false, closed := false, closeAsked := !s.closing.isEmpty }
  | .eventClose => s
  | .eventConnectFailed => s

/-- The state after a call or a handler, with the effects. -/
def handled (s : ConnState β) (result : Connection β × List (Effect β)) :
    ConnState β × List (Effect β) :=
  (result.2.foldl perform { s with conn := result.1 }, result.2)

section
variable (K : BlockClass β)

/-- The execution of a handler that waits.  A write that succeeds has written all its
bytes.  A handler that throws ends the process, and there is no next state. -/
def runHandler (s : ConnState β) : Handler → Option (ConnState β × List (Effect β))
  | .writeMessage i => do
      let size ← s.posted[i]?
      some ({ s with posted := s.posted.eraseIdx i }.handled (s.conn.writeMessage size))
  | .handleClose i => do
      let er ← s.closing[i]?
      some ({ s with closing := s.closing.eraseIdx i }.handled (s.conn.handleClose er))
  | .handlAccept =>
      if s.accepting = 0 then none
      else some ({ s with accepting := s.accepting - 1 }.handled s.conn.handlAccept)
  | .handleReadSome i error bytes => do
      let room ← s.reading[i]?
      if room < bytes.length then none
      else
        let result ← (s.conn.handleReadSome K error bytes).toOption
        some ({ s with reading := s.reading.eraseIdx i }.handled result)
  | .handleWrite i error size => do
      let bytes ← s.writing[i]?
      if error then
        if bytes.length < size then none
        else
          some ({ s with
            writing := s.writing.eraseIdx i
            writeFailed := true }.handled (s.conn.handleWrite error size))
      else if size ≠ bytes.length then none
      else
        some ({ s with
          writing := s.writing.eraseIdx i
          completed := s.completed ++ bytes }.handled (s.conn.handleWrite error size))
  | .handleConnect error =>
      if s.connecting = 0 then none
      else some ({ s with connecting := s.connecting - 1 }.handled (s.conn.handleConnect error))

/-- A call from another thread, or the execution of a handler. -/
def step (s : ConnState β) : ConnAction → Option (ConnState β × List (Effect β))
  | .send p => some ({ s with accepted := s.accepted ++ [p.val] }.handled (s.conn.send p.val))
  | .close er => some (s.handled (s.conn.close er))
  | .postAccept => some (s.handled s.conn.postAccept)
  | .connect => some (s.handled s.conn.connect)
  | .handler h => runHandler K s h

/-- The next state alone. -/
def next (s : ConnState β) (a : ConnAction) : Option (ConnState β) :=
  (step K s a).map Prod.fst

/-- A connection that has just come up, with its first read outstanding. -/
def up (sid : SessionId) (size : Nat) : ConnState β :=
  (handled (create sid size) (Connection.create sid size).handlAccept).1

end

/-! ## What a handler can do -/

/-- The connection comes up: the first read is started and the history begins anew. -/
def cameUp (s : ConnState β) : ConnState β :=
  { s with
    conn := { s.conn with connected := true }
    reading := s.reading ++ [s.conn.room]
    writeFailed := false
    closed := false
    closeAsked := !s.closing.isEmpty }

/-- A write of `bytes` has ended with `error`. -/
def wrote (s : ConnState β) (i : Nat) (bytes : Bytes) (error : NetErrorType) : ConnState β :=
  { s with
    conn := { s.conn with isSend := false }
    writing := s.writing.eraseIdx i
    completed := if error then s.completed else s.completed ++ bytes
    writeFailed := s.writeFailed || error }

variable {K : BlockClass β} {s s' : ConnState β} {effects : List (Effect β)}

/-- The messages of a read are recorded, and the next read is outstanding. -/
theorem foldl_perform_messages (s : ConnState β) (ps : List β) (room : Nat) :
    (ps.map Effect.eventPostRecv ++ [Effect.asyncReadSome room]).foldl perform s =
      { s with messages := s.messages ++ ps, reading := s.reading ++ [room] } := by
  induction ps generalizing s with
  | nil => simp [perform]
  | cons p ps ih =>
      rw [List.map_cons, List.cons_append, List.foldl_cons, ih]
      simp [perform]

/-- `writeMessage` only changes what sending works on, and only starts writes. -/
theorem handled_writeMessage (s : ConnState β) (size : Nat) :
    ∃ ps out total sending ws, s.handled (s.conn.writeMessage size) =
      ({ s with
          conn := { s.conn with
            sendList := ps, bufferSend := out, totalSend := total, isSend := sending }
          writing := s.writing ++ ws },
        ws.map .asyncWrite) := by
  rcases s.conn.writeMessage_cases size with ⟨-, hwrite⟩ | ⟨-, -, ps, out, -, hwrite⟩
  · refine ⟨s.conn.sendList, s.conn.bufferSend, s.conn.totalSend, s.conn.isSend, [], ?_⟩
    simp [handled, hwrite]
  · refine ⟨ps, out, sizeAdd s.conn.totalSend size, out.hasRead,
      if out.hasRead then [out.unread] else [], ?_⟩
    cases hread : out.hasRead with
    | false => simp [handled, hwrite, hread]
    | true => simp [handled, perform, hwrite, hread]

theorem step_writeMessage {i : Nat}
    (h : s.step K (.handler (.writeMessage i)) = some (s', effects)) :
    ∃ size, s.posted[i]? = some size ∧
      (((s.conn.connected = false ∨ s.conn.isSend = true) ∧
          s' = { s with posted := s.posted.eraseIdx i } ∧ effects = []) ∨
        (s.conn.connected = true ∧ s.conn.isSend = false ∧
          (s', effects) =
            { s with posted := s.posted.eraseIdx i }.handled (s.conn.writeMessage size))) := by
  simp only [step, runHandler, Option.bind_eq_bind, Option.bind_eq_some_iff,
    Option.some.injEq] at h
  rcases h with ⟨size, hi, h⟩
  refine ⟨size, hi, ?_⟩
  rcases s.conn.writeMessage_cases size with
    ⟨hidle, hwrite⟩ | ⟨hconn, hsend, -⟩
  · rw [hwrite] at h
    cases h
    exact Or.inl ⟨hidle, rfl, rfl⟩
  · exact Or.inr ⟨hconn, hsend, h.symm⟩

theorem step_handleClose {i : Nat}
    (h : s.step K (.handler (.handleClose i)) = some (s', effects)) :
    ∃ er, s.closing[i]? = some er ∧
      ((er = false ∧ s.conn.unsent = true ∧
          s' = { s with closing := s.closing.eraseIdx i ++ [false], closeAsked := true } ∧
          effects = [.postHandleClose false]) ∨
        ((er = true ∨ s.conn.unsent = false) ∧
          s' = { s with
            conn := { s.conn with connected := false }
            closing := s.closing.eraseIdx i
            closed := true } ∧
          effects = [.closeSocket, .eventClose])) := by
  simp only [step, runHandler, Option.bind_eq_bind, Option.bind_eq_some_iff,
    Option.some.injEq] at h
  rcases h with ⟨er, hi, h⟩
  refine ⟨er, hi, ?_⟩
  rcases s.conn.handleClose_cases er with
    ⟨her, hunsent, hclose⟩ | ⟨hshut, hclose⟩
  · rw [hclose] at h
    cases h
    exact Or.inl ⟨her, hunsent, rfl, rfl⟩
  · rw [hclose] at h
    cases h
    exact Or.inr ⟨hshut, rfl, rfl⟩

theorem step_handlAccept (h : s.step K (.handler .handlAccept) = some (s', effects)) :
    0 < s.accepting ∧ s' = cameUp { s with accepting := s.accepting - 1 } ∧
      effects = [.eventConnect, .asyncReadSome s.conn.room] := by
  simp only [step, runHandler] at h
  split at h
  · cases h
  · rename_i hpos
    cases h
    exact ⟨Nat.pos_of_ne_zero hpos, rfl, rfl⟩

theorem step_handleConnect {error : NetErrorType}
    (h : s.step K (.handler (.handleConnect error)) = some (s', effects)) :
    0 < s.connecting ∧
      ((s.conn.connected = true ∧ s' = { s with connecting := s.connecting - 1 } ∧
          effects = []) ∨
        (s.conn.connected = false ∧ error = true ∧
          s' = { s with connecting := s.connecting - 1 } ∧ effects = [.eventConnectFailed]) ∨
        (s.conn.connected = false ∧ error = false ∧
          s' = cameUp { s with connecting := s.connecting - 1 } ∧
          effects = [.eventConnect, .asyncReadSome s.conn.room])) := by
  simp only [step, runHandler] at h
  split at h
  · cases h
  · rename_i hpos
    refine ⟨Nat.pos_of_ne_zero hpos, ?_⟩
    cases hconn : s.conn.connected with
    | true =>
        simp only [Connection.handleConnect, hconn, if_true, Option.some.injEq] at h
        cases h
        exact Or.inl ⟨rfl, rfl, rfl⟩
    | false =>
        cases error with
        | true =>
            have hsame : { s.conn with connected := false } = s.conn := by rw [← hconn]
            simp only [Connection.handleConnect, hconn, Bool.false_eq_true, if_false, if_true,
              Option.some.injEq, hsame] at h
            cases h
            exact Or.inr (Or.inl ⟨rfl, rfl, rfl, rfl⟩)
        | false =>
            simp only [Connection.handleConnect, hconn, Bool.false_eq_true, if_false,
              Option.some.injEq] at h
            cases h
            exact Or.inr (Or.inr ⟨rfl, rfl, rfl, rfl⟩)

theorem step_handleReadSome {i : Nat} {error : NetErrorType} {bytes : Bytes}
    (h : s.step K (.handler (.handleReadSome i error bytes)) = some (s', effects)) :
    ∃ room, s.reading[i]? = some room ∧ bytes.length ≤ room ∧
      ((s.conn.connected = false ∧ s' = { s with reading := s.reading.eraseIdx i } ∧
          effects = []) ∨
        (s.conn.connected = true ∧ error = true ∧
          s' = { s with
            reading := s.reading.eraseIdx i, closing := s.closing ++ [true],
            closeAsked := true } ∧
          effects = [.postHandleClose true]) ∨
        (s.conn.connected = true ∧ error = false ∧ ∃ conn' ps,
          s.conn.handleReadSome K false bytes = .ok (conn', effects) ∧
          (∃ buf wait, conn' = { s.conn with
            bufferRecv := buf, waitMessage := wait,
            totalRecv := sizeAdd s.conn.totalRecv bytes.length }) ∧
          s' = { s with
            conn := conn', reading := s.reading.eraseIdx i ++ [conn'.room],
            messages := s.messages ++ ps } ∧
          effects = ps.map .eventPostRecv ++ [.asyncReadSome conn'.room])) := by
  simp only [step, runHandler, Option.bind_eq_bind, Option.bind_eq_some_iff] at h
  rcases h with ⟨room, hi, h⟩
  split at h
  · cases h
  · rename_i hroom
    refine ⟨room, hi, Nat.le_of_not_lt hroom, ?_⟩
    cases hread : s.conn.handleReadSome K error bytes with
    | error e => simp [hread, Except.toOption] at h
    | ok result =>
        rcases result with ⟨conn', effects'⟩
        simp only [hread, Except.toOption, Option.bind_some, Option.some.injEq] at h
        cases h
        rcases Connection.handleReadSome_cases hread with
          ⟨hconn, rfl, rfl⟩ | ⟨hconn, herror, rfl, rfl⟩ | ⟨hconn, rfl, buf, wait, ps, hconn', hps⟩
        · exact Or.inl ⟨hconn, rfl, rfl⟩
        · exact Or.inr (Or.inl ⟨hconn, herror, rfl, rfl⟩)
        · refine Or.inr (Or.inr ⟨hconn, rfl, conn', ps, hread, ⟨buf, wait, hconn'⟩, ?_, hps⟩)
          simp only [hps, foldl_perform_messages]

theorem step_handleWrite {i size : Nat} {error : NetErrorType}
    (h : s.step K (.handler (.handleWrite i error size)) = some (s', effects)) :
    ∃ bytes, s.writing[i]? = some bytes ∧
      ((error = true ∧ size ≤ bytes.length ∧
          s' = { s.wrote i bytes true with closing := s.closing ++ [true], closeAsked := true } ∧
          effects = [.postHandleClose true]) ∨
        (error = false ∧ size = bytes.length ∧ s.conn.connected = false ∧
          s' = s.wrote i bytes false ∧ effects = []) ∨
        (error = false ∧ size = bytes.length ∧ s.conn.connected = true ∧
          (s', effects) =
            (s.wrote i bytes false).handled ((s.wrote i bytes false).conn.writeMessage size))) := by
  simp only [step, runHandler, Option.bind_eq_bind, Option.bind_eq_some_iff] at h
  rcases h with ⟨bytes, hi, h⟩
  refine ⟨bytes, hi, ?_⟩
  cases error with
  | true =>
      simp only [if_true] at h
      split at h
      · cases h
      · rename_i hsize
        cases h
        refine Or.inl ⟨rfl, Nat.le_of_not_lt hsize, ?_, rfl⟩
        simp [Connection.handleWrite, Connection.onError, Connection.close, perform, wrote]
  | false =>
      simp only [Bool.false_eq_true, if_false] at h
      split at h
      · cases h
      · rename_i hsize
        rw [not_not] at hsize
        cases hconn : s.conn.connected with
        | false =>
            simp only [Connection.handleWrite, hconn, Bool.false_eq_true, if_false] at h
            cases h
            refine Or.inr (Or.inl ⟨rfl, hsize, rfl, ?_, rfl⟩)
            simp [wrote, hconn]
        | true =>
            simp only [Connection.handleWrite, hconn, Bool.false_eq_true, if_false, if_true,
              Option.some.injEq] at h
            refine Or.inr (Or.inr ⟨rfl, hsize, rfl, ?_⟩)
            rw [← h]
            simp [wrote, handled, hconn]

/-- `writeMessage` only touches what is sent and what waits to send it. -/
theorem frame_writeMessage {i : Nat}
    (h : s.step K (.handler (.writeMessage i)) = some (s', effects)) :
    ∃ ps out total sending ws, s' = { s with
      conn := { s.conn with
        sendList := ps, bufferSend := out, totalSend := total, isSend := sending }
      posted := s.posted.eraseIdx i
      writing := s.writing ++ ws } := by
  rcases step_writeMessage h with ⟨size, -, ⟨-, rfl, -⟩ | ⟨-, -, heq⟩⟩
  · refine ⟨s.conn.sendList, s.conn.bufferSend, s.conn.totalSend, s.conn.isSend, [], ?_⟩
    rw [List.append_nil]
  · rcases handled_writeMessage { s with posted := s.posted.eraseIdx i } size with
      ⟨ps, out, total, sending, ws, hwrite⟩
    rw [hwrite] at heq
    cases heq
    exact ⟨ps, out, total, sending, ws, rfl⟩

/-- The same holds of `handleWrite`, which also may ask for a close. -/
theorem frame_handleWrite {i size : Nat} {error : NetErrorType}
    (h : s.step K (.handler (.handleWrite i error size)) = some (s', effects)) :
    ∃ ps out total sending ws closing completed failed asked, s' = { s with
      conn := { s.conn with
        sendList := ps, bufferSend := out, totalSend := total, isSend := sending }
      closing := closing
      writing := ws
      completed := completed
      writeFailed := failed
      closeAsked := asked } := by
  rcases step_handleWrite h with ⟨bytes, -, ⟨-, -, rfl, -⟩ | ⟨-, -, -, rfl, -⟩ | ⟨-, -, -, heq⟩⟩
  · exact ⟨_, _, _, _, _, _, _, _, _, rfl⟩
  · exact ⟨_, _, _, _, _, _, _, _, _, rfl⟩
  · rcases handled_writeMessage (s.wrote i bytes false) size with
      ⟨ps, out, total, sending, ws, hwrite⟩
    rw [hwrite] at heq
    cases heq
    exact ⟨_, _, _, _, _, _, _, _, _, rfl⟩

/-- Connects and accepts, outstanding after an action. -/
def opening (s : ConnState β) : ConnAction → Nat × Nat
  | .postAccept => (s.connecting, s.accepting + 1)
  | .connect => (s.connecting + 1, s.accepting)
  | .handler .handlAccept => (s.connecting, s.accepting - 1)
  | .handler (.handleConnect _) => (s.connecting - 1, s.accepting)
  | _ => (s.connecting, s.accepting)

theorem step_opening {a : ConnAction} (h : s.step K a = some (s', effects)) :
    (s'.connecting, s'.accepting) = s.opening a := by
  cases a with
  | handler handler =>
      cases handler with
      | writeMessage i =>
          rcases frame_writeMessage h with ⟨ps, out, total, sending, ws, rfl⟩
          rfl
      | handleClose i =>
          rcases step_handleClose h with ⟨er, -, ⟨-, -, rfl, -⟩ | ⟨-, rfl, -⟩⟩
          · rfl
          · rfl
      | handlAccept =>
          rcases step_handlAccept h with ⟨-, rfl, -⟩
          rfl
      | handleReadSome i error bytes =>
          rcases step_handleReadSome h with ⟨room, -, -, ⟨-, rfl, -⟩ | ⟨-, -, rfl, -⟩ |
            ⟨-, -, conn', ps, -, -, rfl, -⟩⟩
          · rfl
          · rfl
          · rfl
      | handleWrite i error size =>
          rcases frame_handleWrite h with
            ⟨ps, out, total, sending, ws, closing, completed, failed, asked, rfl⟩
          rfl
      | handleConnect error =>
          rcases step_handleConnect h with ⟨-, ⟨-, rfl, -⟩ | ⟨-, -, rfl, -⟩ | ⟨-, -, rfl, -⟩⟩
          · rfl
          · rfl
          · rfl
  | _ =>
      cases h
      rfl

/-! ## What a step tells the object -/

/-- Whether a handler is a close that is not put off. -/
def closes (s : ConnState β) : Handler → Bool
  | .handleClose i => s.closing[i]?.any fun er => er || !s.conn.unsent
  | _ => false

/-- A read, write or connect that has been started has not completed yet. -/
def Outstanding (s : ConnState β) : Prop :=
  s.reading ≠ [] ∨ s.writing ≠ [] ∨ 0 < s.connecting

instance (s : ConnState β) : Decidable s.Outstanding :=
  inferInstanceAs (Decidable (_ ∨ _))

/-- The handlers that wait and are bound with `shared_from_this`. -/
def shared (s : ConnState β) : Nat :=
  s.posted.length + s.closing.length + s.accepting

/-- Between two states a close that was asked for stays asked for, and nothing is started
on a connection that is down. -/
structure Continues (s s' : ConnState β) : Prop where
  closeAsked : s.closeAsked = true → s'.closeAsked = true
  outstanding : s'.Outstanding → s.Outstanding ∨ s'.conn.connected = true

/-- At most one of the handlers bound with `shared_from_this` is gone, a `writeMessage`. -/
def Keeps (s : ConnState β) (h : Handler) (s' : ConnState β) : Prop :=
  s.shared ≤ s'.shared ∨ (∃ i, h = .writeMessage i) ∧ s.shared ≤ s'.shared + 1

/-- What the execution of a handler does to `m_connect`, the messages and the events that
it hands to the object. -/
inductive Outcome (s : ConnState β) (h : Handler) (s' : ConnState β) : List (Effect β) → Prop where
  | quiet (hconn : s'.conn.connected = s.conn.connected) (hmessages : s'.messages = s.messages)
      (hcont : s.Continues s') (hkeeps : s.Keeps h s') : Outcome s h s' []
  | read (ps : List β) (hconn : s.conn.connected = true) (hconn' : s'.conn.connected = true)
      (hmessages : s'.messages = s.messages ++ ps) (hcont : s.Continues s')
      (hkeeps : s.Keeps h s') : Outcome s h s' (ps.map .eventPostRecv)
  | cameUp (hopening : 0 < s.accepting ∨ 0 < s.connecting) (hconn' : s'.conn.connected = true)
      (hmessages : s'.messages = s.messages) : Outcome s h s' [.eventConnect]
  | closed (hcloses : s.closes h = true) (hconn' : s'.conn.connected = false)
      (hmessages : s'.messages = s.messages) (hcont : s.Continues s') : Outcome s h s' [.eventClose]
  | failed (hopening : 0 < s.connecting) (hconn : s'.conn.connected = s.conn.connected)
      (hmessages : s'.messages = s.messages) (hcont : s.Continues s') (hkeeps : s.Keeps h s') :
      Outcome s h s' [.eventConnectFailed]

/-- The effects that are events of the object. -/
def events (effects : List (Effect β)) : List (Effect β) :=
  effects.filter fun e => match e with
    | .eventPostRecv _ => true
    | .eventConnect => true
    | .eventClose => true
    | .eventConnectFailed => true
    | _ => false

@[simp]
theorem events_map_asyncWrite (ws : List Bytes) :
    events (ws.map Effect.asyncWrite : List (Effect β)) = [] := by
  simp [events]

@[simp]
theorem events_messages (ps : List β) (room : Nat) :
    events (ps.map Effect.eventPostRecv ++ [.asyncReadSome room]) = ps.map .eventPostRecv := by
  simp [events, List.filter_map, Function.comp_def]

/-- The refill of the send buffer is no event. -/
theorem outcome_writeMessage {t : ConnState β} {size : Nat} {h : Handler}
    (hconn : t.conn.connected = s.conn.connected) (hup : s.conn.connected = true)
    (hmessages : t.messages = s.messages) (hask : t.closeAsked = s.closeAsked)
    (hkeeps : s.Keeps h t) (heq : (s', effects) = t.handled (t.conn.writeMessage size)) :
    Outcome s h s' (events effects) := by
  rcases t.handled_writeMessage size with ⟨ps, out, total, sending, ws, hwrite⟩
  rw [hwrite] at heq
  cases heq
  rw [events_map_asyncWrite]
  refine .quiet hconn hmessages ⟨?_, fun _ => Or.inr (hconn.trans hup)⟩ hkeeps
  intro hs
  exact hask.trans hs

/-- After an error a close is posted. -/
theorem keeps_onError {h : Handler} (hposted : s'.posted = s.posted)
    (hclosing : s'.closing = s.closing ++ [true]) (haccepting : s'.accepting = s.accepting) :
    s.Keeps h s' := by
  refine Or.inl ?_
  simp only [shared, hposted, hclosing, haccepting, List.length_append, List.length_singleton]
  omega

/-- The `writeMessage` that is run is one of those posted. -/
theorem keeps_writeMessage {i size : Nat} (hi : s.posted[i]? = some size) :
    s.Keeps (.writeMessage i) { s with posted := s.posted.eraseIdx i } := by
  have hlt : i < s.posted.length := (List.getElem?_eq_some_iff.mp hi).1
  refine Or.inr ⟨⟨i, rfl⟩, ?_⟩
  simp only [shared, List.length_eraseIdx_of_lt hlt]
  omega

/-- A close that is put off is posted again. -/
theorem keeps_handleClose {i : Nat} {er : NetErrorType} (hi : s.closing[i]? = some er) :
    s.Keeps (.handleClose i)
      { s with closing := s.closing.eraseIdx i ++ [false], closeAsked := true } := by
  have hlt : i < s.closing.length := (List.getElem?_eq_some_iff.mp hi).1
  refine Or.inl ?_
  simp only [shared, List.length_append, List.length_singleton, List.length_eraseIdx_of_lt hlt]
  omega

theorem step_outcome {h : Handler} (hstep : s.step K (.handler h) = some (s', effects)) :
    Outcome s h s' (events effects) := by
  cases h with
  | writeMessage i =>
      rcases step_writeMessage hstep with ⟨size, hi, ⟨-, rfl, rfl⟩ | ⟨hup, -, heq⟩⟩
      · exact .quiet rfl rfl ⟨id, Or.inl⟩ (keeps_writeMessage hi)
      · exact outcome_writeMessage (t := { s with posted := s.posted.eraseIdx i }) rfl hup rfl rfl
          (keeps_writeMessage hi) heq
  | handleClose i =>
      rcases step_handleClose hstep with ⟨er, hi, ⟨-, -, rfl, rfl⟩ | ⟨hshut, rfl, rfl⟩⟩
      · exact .quiet rfl rfl ⟨fun _ => rfl, Or.inl⟩ (keeps_handleClose hi)
      · refine .closed ?_ rfl rfl ⟨id, Or.inl⟩
        simp [closes, hi, hshut]
  | handlAccept =>
      rcases step_handlAccept hstep with ⟨hpos, rfl, rfl⟩
      exact .cameUp (Or.inl hpos) rfl rfl
  | handleReadSome i error bytes =>
      rcases step_handleReadSome hstep with ⟨room, hi, -, hcases⟩
      -- the read that completes was outstanding
      have hreading : s.Outstanding := Or.inl (List.ne_nil_of_mem (List.mem_of_getElem? hi))
      rcases hcases with ⟨-, rfl, rfl⟩ | ⟨-, -, rfl, rfl⟩ |
        ⟨hup, -, conn', ps, -, ⟨buf, wait, hconn'⟩, rfl, rfl⟩
      · exact .quiet rfl rfl ⟨id, fun _ => Or.inl hreading⟩ (Or.inl le_rfl)
      · exact .quiet rfl rfl ⟨fun _ => rfl, fun _ => Or.inl hreading⟩ (keeps_onError rfl rfl rfl)
      · rw [events_messages]
        refine .read ps hup ?_ rfl ⟨id, fun _ => Or.inl hreading⟩ (Or.inl le_rfl)
        rw [hconn']
        exact hup
  | handleWrite i error size =>
      rcases step_handleWrite hstep with ⟨bytes, hi, hcases⟩
      have hwriting : s.Outstanding :=
        Or.inr (Or.inl (List.ne_nil_of_mem (List.mem_of_getElem? hi)))
      rcases hcases with ⟨-, -, rfl, rfl⟩ | ⟨-, -, -, rfl, rfl⟩ | ⟨-, -, hup, heq⟩
      · exact .quiet rfl rfl ⟨fun _ => rfl, fun _ => Or.inl hwriting⟩ (keeps_onError rfl rfl rfl)
      · exact .quiet rfl rfl ⟨id, fun _ => Or.inl hwriting⟩ (Or.inl le_rfl)
      · exact outcome_writeMessage (t := s.wrote i bytes false) rfl hup rfl rfl (Or.inl le_rfl) heq
  | handleConnect error =>
      rcases step_handleConnect hstep with ⟨hpos, hcases⟩
      have hconnecting : s.Outstanding := Or.inr (Or.inr hpos)
      rcases hcases with ⟨-, rfl, rfl⟩ | ⟨-, -, rfl, rfl⟩ | ⟨-, -, rfl, rfl⟩
      · exact .quiet rfl rfl ⟨id, fun _ => Or.inl hconnecting⟩ (Or.inl le_rfl)
      · exact .failed hpos rfl rfl ⟨id, fun _ => Or.inl hconnecting⟩ (Or.inl le_rfl)
      · exact .cameUp (Or.inr hpos) rfl rfl

/-- What a call from another thread leaves as it is.  None of them is an event. -/
structure Asked (s s' : ConnState β) : Prop where
  connected : s'.conn.connected = s.conn.connected
  messages : s'.messages = s.messages
  reading : s'.reading = s.reading
  writing : s'.writing = s.writing
  closeAsked : s.closeAsked = true → s'.closeAsked = true
  shared : s.shared ≤ s'.shared

theorem step_asked {a : ConnAction} (ha : ∀ h, a ≠ .handler h)
    (h : s.step K a = some (s', effects)) : s.Asked s' ∧ events effects = [] := by
  cases a with
  | handler handler => exact absurd rfl (ha handler)
  | send p =>
      cases h
      refine ⟨⟨rfl, rfl, rfl, rfl, id, ?_⟩, rfl⟩
      simp [shared, perform, Connection.send]
  | close er =>
      cases h
      refine ⟨⟨rfl, rfl, rfl, rfl, fun _ => rfl, ?_⟩, rfl⟩
      simp [shared, perform, Connection.close]
  | postAccept =>
      cases h
      exact ⟨⟨rfl, rfl, rfl, rfl, id, Nat.le_succ _⟩, rfl⟩
  | connect =>
      cases h
      exact ⟨⟨rfl, rfl, rfl, rfl, id, le_rfl⟩, rfl⟩

end ConnState

end FannyNet

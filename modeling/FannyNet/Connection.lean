import FannyNet.NetBuffer

/-!
# `Connection`, the handlers of one socket

Each handler is a function from the state of the connection to the next state and
the effects it asks for, in order: operations it starts or posts on its
`io_service`, and events it hands to the `TcpObj` that owns it.  The bytes of a
completed read are already in the receive buffer when its handler runs, and are an
argument here.  `m_mutex` makes the body of `send` and the bodies of the handlers
that use `m_sendList` atomic.

Main results:

- Definitions `Connection.handleReadSome`, `Connection.writeMessage` and
  `Connection.handleClose`: the handlers that carry the protocol.
- Definition `Connection.readSome`: a run of successful reads, with the messages
  posted so far.
-/

namespace FannyNet

/-- `NetErrorType`.  All that is asked of an error code is whether it is set. -/
abbrev NetErrorType := Bool

/-- What a handler asks for. -/
inductive Effect (β : Type) where
  | postWriteMessage (size : Nat)
  | postHandleClose (er : NetErrorType)
  | postHandleAccept
  | asyncReadSome (room : Nat)
  | asyncWrite (bytes : Bytes)
  | asyncConnect
  | closeSocket
  | eventPostRecv (block : β)
  | eventConnect
  | eventClose
  | eventConnectFailed
deriving DecidableEq, Repr

/-- How a handler can fail to return: an exception that nothing catches, or a read
loop that goes on without using up its buffer. -/
inductive Fault where
  | thrown (e : Exn)
  | endless
deriving DecidableEq, Repr

/-- The class `Connection`.  Of the blocks in `m_sendList` only their `m_data` is
used; the two totals are `size_t` values. -/
structure Connection (β : Type) where
  session : SessionId
  bufferSend : NetBuffer
  bufferRecv : NetBuffer
  waitMessage : Option β
  connected : Bool
  totalRecv : Nat
  totalSend : Nat
  isSend : Bool
  sendList : List NetBuffer
deriving DecidableEq, Repr

/-- The default size of the two buffers. -/
def bufferSize : Nat := 65535

namespace Connection

variable {β : Type}

def create (s : SessionId) (size : Nat) : Connection β where
  session := s
  bufferSend := NetBuffer.create size
  bufferRecv := NetBuffer.create size
  waitMessage := none
  connected := false
  totalRecv := 0
  totalSend := 0
  isSend := false
  sendList := []

/-- The free space of the receive buffer, which the next read may fill. -/
def room (conn : Connection β) : Nat :=
  conn.bufferRecv.maxLength - conn.bufferRecv.length

/-! ## Opening and closing -/

def close (conn : Connection β) (er : NetErrorType) : Connection β × List (Effect β) :=
  (conn, [.postHandleClose er])

def onError (conn : Connection β) (er : NetErrorType) : Connection β × List (Effect β) :=
  conn.close er

/-- Without an error the close is put off until everything is sent. -/
def handleClose (conn : Connection β) (er : NetErrorType) : Connection β × List (Effect β) :=
  if !er && (conn.isSend || !conn.sendList.isEmpty || conn.bufferSend.hasRead) then conn.close er
  else ({ conn with connected := false }, [.closeSocket, .eventClose])

def beginRead (conn : Connection β) : Connection β × List (Effect β) :=
  (conn, [.asyncReadSome conn.room])

def handlAccept (conn : Connection β) : Connection β × List (Effect β) :=
  let conn := { conn with connected := true }
  let (conn, effects) := conn.beginRead
  (conn, .eventConnect :: effects)

def handleConnect (conn : Connection β) (error : NetErrorType) : Connection β × List (Effect β) :=
  if conn.connected then (conn, [])
  else if error then ({ conn with connected := false }, [.eventConnectFailed])
  else
    let conn := { conn with connected := true }
    let (conn, effects) := conn.beginRead
    (conn, .eventConnect :: effects)

def postAccept (conn : Connection β) : Connection β × List (Effect β) :=
  (conn, [.postHandleAccept])

def connect (conn : Connection β) : Connection β × List (Effect β) :=
  (conn, [.asyncConnect])

/-! ## Receiving -/

/-- The bytes of a completed read behind those in the buffer, and counted. -/
def received (conn : Connection β) (bytes : Bytes) : Connection β :=
  { conn with
    bufferRecv := conn.bufferRecv.writeBytes bytes
    totalRecv := sizeAdd conn.totalRecv bytes.length }

section
variable (K : BlockClass β)

/-- The lambda `readMessage` of `handleReadSome`: the completed message, if any. -/
def readMessage (conn : Connection β) : Except Exn (Connection β × Option β) := do
  let wait := conn.waitMessage.getD (K.make conn.session 0)
  let (wait, buf, _) ← K.recv wait conn.bufferRecv
  if K.bodyDone wait then .ok ({ conn with waitMessage := none, bufferRecv := buf }, some wait)
  else .ok ({ conn with waitMessage := some wait, bufferRecv := buf }, none)

/-- The loop of `handleReadSome`, with the messages it posts. -/
def readLoop : Nat → Connection β → Except Fault (Connection β × List β)
  | fuel, conn =>
      if !conn.bufferRecv.hasWrite then .ok (conn, [])
      else
        match fuel with
        | 0 => .error .endless
        | fuel + 1 =>
            match readMessage K conn with
            | .error e => .error (.thrown e)
            | .ok (conn, none) => .ok (conn, [])
            | .ok (conn, some p) => do
                let (conn, ps) ← readLoop fuel conn
                .ok (conn, p :: ps)

/-- A completed read of `bytes`.  Every round of the loop that goes on uses up at
least one byte, so there are at most as many rounds as there are bytes. -/
def handleReadSome (conn : Connection β) (error : NetErrorType) (bytes : Bytes) :
    Except Fault (Connection β × List (Effect β)) := do
  if !conn.connected then .ok (conn, [])
  else if error then .ok (conn.onError error)
  else
    let conn := conn.received bytes
    let (conn, ps) ← readLoop K (conn.bufferRecv.length + 1) conn
    let (conn, effects) := conn.beginRead
    .ok (conn, ps.map .eventPostRecv ++ effects)

/-- The messages among the effects of a handler. -/
def posted (effects : List (Effect β)) : List β :=
  effects.filterMap fun e => match e with
    | .eventPostRecv p => some p
    | _ => none

/-- One more successful read, with the messages posted so far. -/
def readSome (x : Connection β × List β) (bytes : Bytes) :
    Except Fault (Connection β × List β) := do
  let (conn, effects) ← handleReadSome K x.1 false bytes
  .ok (conn, x.2 ++ posted effects)

/-- The reads that a connection can be given: each fits the free space of the
receive buffer at that moment. -/
def ReadsFit : Connection β × List β → List Bytes → Prop
  | _, [] => True
  | x, c :: cs =>
      c.length ≤ x.1.room ∧
        match readSome K x c with
        | .error _ => True
        | .ok y => ReadsFit y cs

instance decidableReadsFit :
    ∀ (x : Connection β × List β) (cs : List Bytes), Decidable (ReadsFit K x cs)
  | _, [] => inferInstanceAs (Decidable True)
  | x, c :: cs =>
      match h : readSome K x c with
      | .error _ => decidable_of_iff (c.length ≤ x.1.room) (by simp [ReadsFit, h])
      | .ok y =>
          have := decidableReadsFit y cs
          decidable_of_iff (c.length ≤ x.1.room ∧ ReadsFit K y cs) (by simp [ReadsFit, h])

/-- A condition on the calls of `recv` in the loop over one read: on the block and the
receive buffer before the call. -/
def LoopCalls (P : β → NetBuffer → Prop) : Nat → Connection β → Prop
  | fuel, conn =>
      if !conn.bufferRecv.hasWrite then True
      else
        match fuel with
        | 0 => True
        | fuel + 1 =>
            P (conn.waitMessage.getD (K.make conn.session 0)) conn.bufferRecv ∧
              match readMessage K conn with
              | .ok (conn, some _) => LoopCalls P fuel conn
              | _ => True

/-- A condition on every call of `recv` in a run of reads. -/
def EveryRecv (P : β → NetBuffer → Prop) : Connection β × List β → List Bytes → Prop
  | _, [] => True
  | x, c :: cs =>
      LoopCalls K P ((x.1.received c).bufferRecv.length + 1) (x.1.received c) ∧
        match readSome K x c with
        | .error _ => True
        | .ok y => EveryRecv P y cs

/-- A single read fits when there is room for it. -/
theorem readsFit_singleton {x : Connection β × List β} {c : Bytes} (h : c.length ≤ x.1.room) :
    ReadsFit K x [c] := by
  refine ⟨h, ?_⟩
  cases readSome K x c with
  | error e => trivial
  | ok y => trivial

/-- A connection that has just been accepted. -/
def accepted (s : SessionId) (size : Nat) : Connection β :=
  ((create s size).handlAccept).1

@[simp]
theorem room_accepted (s : SessionId) (size : Nat) : (accepted s size : Connection β).room = size :=
  Nat.sub_zero size

end

/-! ## Sending -/

/-- `send(p)`, with the buffer of the block. -/
def send (conn : Connection β) (p : NetBuffer) : Connection β × List (Effect β) :=
  ({ conn with sendList := conn.sendList ++ [p] }, [.postWriteMessage 0])

/-- The loop of `writeMessage`: move bytes of the first blocks to the send buffer,
until a block does not fit. -/
def fillSend : List NetBuffer → NetBuffer → List NetBuffer × NetBuffer
  | [], out => ([], out)
  | p :: ps, out =>
      let (p, out, _) := p.readBuffer out
      if p.hasRead then (p :: ps, out) else fillSend ps out

def writeMessage (conn : Connection β) (size : Nat) : Connection β × List (Effect β) :=
  if !conn.connected then (conn, [])
  else if conn.isSend then (conn, [])
  else
    let (sendList, bufferSend) :=
      fillSend conn.sendList (conn.bufferSend.readData size).1.clearReadBuffer
    let conn := { conn with
      sendList := sendList
      bufferSend := bufferSend
      totalSend := sizeAdd conn.totalSend size }
    if bufferSend.hasRead then ({ conn with isSend := true }, [.asyncWrite bufferSend.unread])
    else (conn, [])

def handleWrite (conn : Connection β) (error : NetErrorType) (size : Nat) :
    Connection β × List (Effect β) :=
  let conn := { conn with isSend := false }
  if error then conn.onError error
  else if conn.connected then conn.writeMessage size
  else (conn, [])

end Connection

end FannyNet

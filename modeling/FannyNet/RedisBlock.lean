import FannyNet.NetBuffer
import FannyNet.RedisParser

/-!
# `RedisBlock`, `RedisBlock2` and `RedisCommand`

The two message classes for Redis replies and the command encoder, transcribed
from `redisblock.h` and `redisblock.cpp`.  `RedisBlock2` hands the unread bytes
of the receive buffer to a `RedisParse`; `RedisBlock` parses the buffer itself
and lays the result out in its own `m_data`.

Main results:

- Theorem `RedisBlock.readline_spec` and theorem `RedisBlock.readLen_spec`: the
  two buffer readers of `RedisBlock`, in terms of the unread bytes.
- Theorem `RedisBlock.makeRedisBuffer_ok`: laying out a completed reply throws
  only for an integer text that is no `int`.
-/

namespace FannyNet

open Library

/-! ## `RedisBlock2` -/

/-- The class `RedisBlock2`. -/
structure RedisBlock2 extends NetBlockBase where
  parse : RedisParse
deriving DecidableEq, Repr

namespace RedisBlock2

def create (s : SessionId) (size : Nat) : RedisBlock2 where
  toNetBlockBase := NetBlockBase.create s size
  parse := {}

def recv [LexicalCast] (k : RedisBlock2) (buf : NetBuffer) :
    Except Exn (RedisBlock2 × NetBuffer × Bool) := do
  let (p, readPos, r) ← k.parse.parse buf.unread 0
  let buf := (buf.readData readPos).1.clearReadBuffer
  let state := if p.isDone then BlockState.done else BlockState.body
  .ok ({ k with parse := p, state := state }, buf, r)

/-- `RedisBlock2` as a connection sees it. -/
def blockClass [LexicalCast] : BlockClass RedisBlock2 where
  make := create
  base := toNetBlockBase
  recv := recv

end RedisBlock2

/-! ## `RedisBlock` -/

/-- The numeric value of a `reply_t`. -/
def ReplyT.toNat : ReplyT → Nat
  | .noReply => 0
  | .statusCodeReply => 1
  | .errorReply => 2
  | .intReply => 3
  | .bulkReply => 4
  | .multiBulkReply => 5

/-- `sizeof(reply_t)`, and `sizeof(int)`. -/
def sizeofInt : Nat := 4

/-- The class `RedisBlock`. -/
structure RedisBlock extends NetBlockBase where
  temp : Bytes
  type : ReplyT
  mutSize : Nat
  bufSize : Nat
  recvSize : Nat
  recvList : List Bytes
deriving DecidableEq, Repr

namespace RedisBlock

/-- The file-local `REDIS_MISSING` of `redisblock.cpp`. -/
def REDIS_MISSING : Bytes := text "**nonexistent-key**"

def create (s : SessionId) (size : Nat) : RedisBlock where
  toNetBlockBase := NetBlockBase.create s size
  temp := []
  type := .noReply
  mutSize := 0
  bufSize := 0
  recvSize := 0
  recvList := []

/-- `check_reply_t`, thrown by the getters. -/
def checkReplyT (k : RedisBlock) (replyType : ReplyT) : Except Exn Unit :=
  if k.type ≠ replyType ∨ !k.bodyDone then .error .runtimeError else .ok ()

/-- `get_status_code_reply`, `get_error_reply` and `get_bulk_reply`, which differ
in the type they check. -/
def getFirst (k : RedisBlock) (replyType : ReplyT) : Except Exn Bytes := do
  k.checkReplyT replyType
  .ok (k.recvList.headD [])

def getStatusCodeReply (k : RedisBlock) : Except Exn Bytes := k.getFirst .statusCodeReply

def getErrorReply (k : RedisBlock) : Except Exn Bytes := k.getFirst .errorReply

def getBulkReply (k : RedisBlock) : Except Exn Bytes := k.getFirst .bulkReply

def getMultiBulkReply (k : RedisBlock) : Except Exn (List Bytes) := do
  k.checkReplyT .multiBulkReply
  .ok k.recvList

def getIntReply [LexicalCast] (k : RedisBlock) : Except Exn Int := do
  k.checkReplyT .intReply
  lexicalCast (k.recvList.headD [])

/-- `m_data->tailPod<int>`. -/
def tailInt (b : NetBuffer) (v : Int) : NetBuffer :=
  (b.tailData (podBytes (v % 4294967296).toNat)).1

/-- The element records of a multi-bulk result: length, then bytes. -/
def tailElements : NetBuffer → List Bytes → NetBuffer
  | b, [] => b
  | b, v :: vs => tailElements ((tailInt b v.length).tailData v).1 vs

/-- Lay the result out in a fresh `m_data`: the type, then the values. -/
def makeRedisBuffer [LexicalCast] (k : RedisBlock) : Except Exn RedisBlock := do
  let recvSize := if k.recvSize = 0 then 1 else k.recvSize
  let fresh := ((NetBuffer.create recvSize).tailData (podBytes k.type.toNat)).1
  let k := { k with recvSize := recvSize, data := some fresh }
  match k.type with
  | .noReply => .ok k
  | .statusCodeReply => do
      let str ← k.getStatusCodeReply
      .ok { k with data := some (fresh.tailData str).1 }
  | .errorReply => do
      let str ← k.getErrorReply
      .ok { k with data := some (fresh.tailData str).1 }
  | .intReply => do
      let v ← k.getIntReply
      .ok { k with data := some (tailInt fresh v) }
  | .bulkReply => do
      let str ← k.getBulkReply
      .ok { k with data := some (fresh.tailData str).1 }
  | .multiBulkReply =>
      .ok { k with data := some (tailElements (tailInt fresh k.recvList.length) k.recvList) }

/-- `len` bytes, once they have arrived; everything unread moves to `temp`. -/
def readLen (k : RedisBlock) (buf : NetBuffer) (len : Nat) :
    RedisBlock × NetBuffer × Option Bytes :=
  let toRead := buf.needReadLength
  let need := sizeSub len k.temp.length
  let ok := decide (need ≤ toRead)
  let toRead := if ok then need else toRead
  let (buf, p) := buf.readData toRead
  let temp := k.temp ++ p.getD []
  let buf := buf.clearReadBuffer
  if ok then ({ k with temp := [] }, buf, some temp)
  else ({ k with temp := temp }, buf, none)

/-- The trimmed line; everything unread moves to `temp` until the line feed is
there. -/
def readline (k : RedisBlock) (buf : NetBuffer) : RedisBlock × NetBuffer × Option Bytes :=
  let eol := memchr buf.unread LF
  let toRead := match eol with
    | some eol => eol + 1
    | none => buf.needReadLength
  let (buf, p) := buf.readData toRead
  let temp := k.temp ++ p.getD []
  let buf := buf.clearReadBuffer
  if eol.isSome then ({ k with temp := [] }, buf, some (rtrim temp))
  else ({ k with temp := temp }, buf, none)

/-- The missing bytes of a body are taken from the unread bytes, or all of them. -/
theorem readLen_spec (k : RedisBlock) {buf : NetBuffer} (hbuf : buf.Valid) {len : Nat}
    (htemp : k.temp.length ≤ len) (hlen : len < 18446744073709551616) :
    ∃ buf', buf.Compacted buf' ∧
      if len ≤ (k.temp ++ buf.unread).length then
        k.readLen buf len =
            ({ k with temp := [] }, buf', some ((k.temp ++ buf.unread).take len)) ∧
          buf'.unread = (k.temp ++ buf.unread).drop len
      else
        k.readLen buf len = ({ k with temp := k.temp ++ buf.unread }, buf', none) ∧
          buf'.unread = [] := by
  have hunread := hbuf.needReadLength_eq
  unfold readLen
  rw [sizeSub_of_le htemp hlen]
  by_cases hfit : len ≤ (k.temp ++ buf.unread).length
  · have hneed : len - k.temp.length ≤ buf.needReadLength := by
      rw [List.length_append] at hfit
      omega
    rcases NetBuffer.readData_clearReadBuffer hbuf hneed with ⟨hcomp, hrest, htake⟩
    refine ⟨_, hcomp, ?_⟩
    rw [if_pos hfit]
    simp only [decide_eq_true hneed, if_true, htake, Option.getD_some]
    rw [hrest, List.take_append, List.take_of_length_le htemp, List.drop_append,
      List.drop_of_length_le htemp]
    exact ⟨rfl, rfl⟩
  · have hneed : ¬ len - k.temp.length ≤ buf.needReadLength := by
      rw [List.length_append] at hfit
      omega
    rcases NetBuffer.readData_clearReadBuffer hbuf le_rfl with ⟨hcomp, hrest, htake⟩
    refine ⟨_, hcomp, ?_⟩
    rw [if_neg hfit]
    simp only [decide_eq_false hneed, Bool.false_eq_true, if_false, htake, Option.getD_some]
    rw [hrest, hunread, List.take_length, List.drop_length]
    exact ⟨rfl, rfl⟩

/-- A line is split off the unread bytes; without a line feed they are all kept. -/
theorem readline_spec (k : RedisBlock) {buf : NetBuffer} (hbuf : buf.Valid) :
    ∃ buf', buf.Compacted buf' ∧
      match Lines.splitAfter LF buf.unread with
      | none =>
          k.readline buf = ({ k with temp := k.temp ++ buf.unread }, buf', none) ∧
            buf'.unread = []
      | some (l, r) =>
          k.readline buf = ({ k with temp := [] }, buf', some (rtrim (k.temp ++ l))) ∧
            buf'.unread = r := by
  have hunread := hbuf.needReadLength_eq
  unfold readline
  rw [memchr_LF]
  cases hscan : memchr buf.unread LF with
  | none =>
      rcases NetBuffer.readData_clearReadBuffer hbuf le_rfl with ⟨hcomp, hrest, htake⟩
      refine ⟨_, hcomp, ?_⟩
      simp only [Option.map_none, Option.isSome_none, Bool.false_eq_true, if_false, htake,
        Option.getD_some]
      rw [hrest, hunread, List.take_length, List.drop_length]
      exact ⟨rfl, rfl⟩
  | some eol =>
      have hlt := memchr_lt hscan
      have hneed : eol + 1 ≤ buf.needReadLength := by omega
      rcases NetBuffer.readData_clearReadBuffer hbuf hneed with ⟨hcomp, hrest, htake⟩
      refine ⟨_, hcomp, ?_⟩
      simp only [Option.map_some, Option.isSome_some, if_true, htake, Option.getD_some]
      exact ⟨trivial, hrest⟩

/-! ## Laying out the result -/

/-- The layout fills `data` and normalizes `recvSize`, and nothing else. -/
structure LaidOut (k k' : RedisBlock) : Prop where
  temp : k'.temp = k.temp
  type : k'.type = k.type
  state : k'.state = k.state
  recvList : k'.recvList = k.recvList
  mutSize : k'.mutSize = k.mutSize
  bufSize : k'.bufSize = k.bufSize
  session : k'.session = k.session

/-- A completed reply that is not an integer is laid out without an exception. -/
theorem makeRedisBuffer_ok [LexicalCast] {k : RedisBlock} (hint : k.type ≠ .intReply)
    (hdone : k.type = .multiBulkReply ∨ k.state = .done) :
    ∃ k', k.makeRedisBuffer = .ok k' ∧ LaidOut k k' := by
  unfold makeRedisBuffer
  cases htype : k.type with
  | noReply => exact ⟨_, rfl, ⟨rfl, htype.symm, rfl, rfl, rfl, rfl, rfl⟩⟩
  | intReply => exact absurd htype hint
  | multiBulkReply => exact ⟨_, rfl, ⟨rfl, htype.symm, rfl, rfl, rfl, rfl, rfl⟩⟩
  | statusCodeReply =>
      have hstate : k.state = .done := hdone.resolve_left (by simp [htype])
      simp only [getStatusCodeReply, getFirst, checkReplyT, NetBlockBase.bodyDone, hstate]
      exact ⟨_, rfl, ⟨rfl, htype.symm, hstate.symm, rfl, rfl, rfl, rfl⟩⟩
  | errorReply =>
      have hstate : k.state = .done := hdone.resolve_left (by simp [htype])
      simp only [getErrorReply, getFirst, checkReplyT, NetBlockBase.bodyDone, hstate]
      exact ⟨_, rfl, ⟨rfl, htype.symm, hstate.symm, rfl, rfl, rfl, rfl⟩⟩
  | bulkReply =>
      have hstate : k.state = .done := hdone.resolve_left (by simp [htype])
      simp only [getBulkReply, getFirst, checkReplyT, NetBlockBase.bodyDone, hstate]
      exact ⟨_, rfl, ⟨rfl, htype.symm, hstate.symm, rfl, rfl, rfl, rfl⟩⟩

/-- Laying out an integer reply converts its text, which may throw. -/
theorem makeRedisBuffer_int [LexicalCast] {k : RedisBlock} (hint : k.type = .intReply)
    (hdone : k.state = .done) :
    match lexicalCast (k.recvList.headD []) with
    | .error e => k.makeRedisBuffer = .error e
    | .ok _ => ∃ k', k.makeRedisBuffer = .ok k' ∧ LaidOut k k' := by
  unfold makeRedisBuffer
  simp only [hint, getIntReply, checkReplyT, NetBlockBase.bodyDone, hdone]
  cases lexicalCast (k.recvList.headD []) with
  | error e => rfl
  | ok n => exact ⟨_, rfl, ⟨rfl, hint.symm, hdone.symm, rfl, rfl, rfl, rfl⟩⟩

section
variable [LexicalCast]

/-- The `bulk_reply` part of `recv`. -/
def recvBulk (k : RedisBlock) (buf : NetBuffer) : Except Exn (RedisBlock × NetBuffer × Bool) :=
  match k.readLen buf k.bufSize with
  | (k, buf, none) => .ok (k, buf, false)
  | (k, buf, some b) => do
      let b ← erase b (sizeSub k.bufSize 2)
      let k := { k with
        recvSize := k.recvSize + b.length
        recvList := k.recvList ++ [b]
        state := .done }
      let k ← k.makeRedisBuffer
      .ok (k, buf, true)

/-- One pass through the body of the `multi_bulk_reply` loop: `some r` is its
`return r`, `none` goes on. -/
def recvElement (k : RedisBlock) (buf : NetBuffer) :
    Except Exn (RedisBlock × NetBuffer × Option Bool) :=
  match k.readline buf with
  | (k, buf, none) => .ok (k, buf, some false)
  | (k, buf, some lline) => do
      let k := { k with state := .body }
      let ssub ← substr lline 1
      let bufSize ← lexicalCast ssub
      if bufSize = -1 then
        let k := { k with
          bufSize := 0
          recvList := k.recvList ++ [REDIS_MISSING]
          recvSize := k.recvSize + REDIS_MISSING.length + sizeofInt }
        if k.recvList.length = k.mutSize then
          let k ← { k with state := .done }.makeRedisBuffer
          .ok (k, buf, some true)
        else .ok (k, buf, none)
      else
        let k := { k with bufSize := toSize (toSize bufSize + 2) }
        match k.readLen buf k.bufSize with
        | (k, buf, none) => .ok (k, buf, some false)
        | (k, buf, some bb) => do
            let bb ← erase bb (sizeSub k.bufSize 2)
            let k := { k with
              recvSize := k.recvSize + sizeofInt + bb.length
              recvList := k.recvList ++ [bb] }
            if k.recvList.length = k.mutSize then
              let k ← k.makeRedisBuffer
              .ok ({ k with state := .done }, buf, some true)
            else .ok (k, buf, none)

/-- The `multi_bulk_reply` loop.  After a pass that goes on, its condition
`m_recvList.size() != m_mutSize` holds.  Every such pass has consumed a line, so
the unread bytes bound the number of passes. -/
def recvElements : Nat → RedisBlock → NetBuffer → Except Exn (RedisBlock × NetBuffer × Bool)
  | 0, k, buf => .ok (k, buf, false)
  | fuel + 1, k, buf => do
      let (k, buf, out) ← k.recvElement buf
      match out with
      | some r => .ok (k, buf, r)
      | none => recvElements fuel k buf

/-- What `recv` does after the type switch. -/
def recvBody (k : RedisBlock) (buf : NetBuffer) : Except Exn (RedisBlock × NetBuffer × Bool) :=
  if k.type = .bulkReply then k.recvBulk buf
  else if k.type = .multiBulkReply then recvElements (buf.needReadLength + 1) k buf
  else .ok (k, buf, false)

/-- The type switch of `recv`: a one-line reply returns, a longer one goes on to
its body. -/
def recvType (k : RedisBlock) (buf : NetBuffer) (str : Bytes) :
    Except Exn (RedisBlock × NetBuffer × Bool) :=
  let type := getReplyType str
  let k := { k with type := type }
  match type with
  | .noReply => do
      let k ← { k with state := .done, recvSize := sizeofInt }.makeRedisBuffer
      .ok (k, buf, true)
  | .statusCodeReply => do
      let v ← substr str 1
      let list := k.recvList ++ [v]
      let k ← { k with
        recvList := list
        state := .done
        recvSize := sizeofInt + (list.headD []).length }.makeRedisBuffer
      .ok (k, buf, true)
  | .errorReply => do
      let v ← substr str 4
      let list := k.recvList ++ [v]
      let k ← { k with
        recvList := list
        state := .done
        recvSize := sizeofInt + (list.headD []).length }.makeRedisBuffer
      .ok (k, buf, true)
  | .intReply => do
      let v ← substr str 1
      let k ← { k with
        recvList := k.recvList ++ [v]
        state := .done
        recvSize := sizeofInt + sizeofInt }.makeRedisBuffer
      .ok (k, buf, true)
  | .bulkReply => do
      let bufSize ← lexicalCast (← substr str 1)
      if bufSize = -1 then
        let k ← { k with
          bufSize := 0
          recvList := k.recvList ++ [REDIS_MISSING]
          recvSize := sizeofInt + REDIS_MISSING.length
          state := .done }.makeRedisBuffer
        .ok (k, buf, true)
      else
        recvBody { k with
          bufSize := toSize (intAdd bufSize 2)
          recvSize := sizeofInt
          state := .body } buf
  | .multiBulkReply => do
      let muSize ← lexicalCast (← substr str 1)
      if muSize = -1 then
        let k ← { k with
          mutSize := 0
          recvSize := sizeofInt + sizeofInt
          state := .done }.makeRedisBuffer
        .ok (k, buf, true)
      else
        recvBody { k with
          mutSize := toSize muSize
          recvSize := sizeofInt + sizeofInt
          state := .body } buf

def recv (k : RedisBlock) (buf : NetBuffer) : Except Exn (RedisBlock × NetBuffer × Bool) :=
  if k.type = .noReply then
    match k.readline buf with
    | (k, buf, none) => .ok (k, buf, false)
    | (k, buf, some str) => k.recvType buf str
  else k.recvBody buf

/-- `RedisBlock` as a connection sees it. -/
def blockClass : BlockClass RedisBlock where
  make := create
  base := toNetBlockBase
  recv := recv

end

end RedisBlock

/-! ## `RedisCommand` -/

/-- A bulk string on the wire. -/
def bulkString (s : Bytes) : Bytes :=
  REDIS_PREFIX_SINGLE_BULK_REPLY :: Decimal.decimal s.length ++ REDIS_LBR ++ (s ++ REDIS_LBR)

/-- `RedisCommand::makeCommand(cmd, args)`. -/
def makeCommand (cmd : Bytes) (args : List Bytes) : Bytes :=
  REDIS_PREFIX_MULTI_BULK_REPLY :: Decimal.decimal (args.length + 1) ++ REDIS_LBR ++
    (bulkString cmd ++ args.flatMap bulkString)

end FannyNet

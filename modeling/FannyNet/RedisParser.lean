import FannyNet.Primitives

/-!
# `RedisParse`, the incremental reply parser

A transcription of `redisparser.h`.  A parse call receives the unread bytes of
the receive buffer and a read position; the object keeps the reply type, the
element count, the expected body length, a partial body and the values read so
far.  Member functions return the new object, the new read position and their
result; the exceptions of `substr`, `erase` and `lexical_cast` leave through
`Except`.  Asserts are compiled out.

Main results:

- Theorem `RedisParse.readLine_spec`: reading a line is splitting the unread
  bytes after the first line feed.
- Theorem `RedisParse.readLen_spec`: reading a body takes the missing bytes or
  everything.
- Theorem `RedisParse.parse_result`: a call that leaves the parser done returns so.
-/

namespace FannyNet

open Library

/-! ## Reply types and line texts -/

/-- `reply_t`. -/
inductive ReplyT where
  | noReply
  | statusCodeReply
  | errorReply
  | intReply
  | bulkReply
  | multiBulkReply
deriving DecidableEq, Repr

/-- `"\r\n"`. -/
def REDIS_LBR : Bytes := [CR, LF]

def REDIS_PREFIX_STATUS_REPLY_ERR_C : UInt8 := 45

def REDIS_PREFIX_STATUS_REPLY_VALUE : UInt8 := 43

def REDIS_PREFIX_SINGLE_BULK_REPLY : UInt8 := 36

def REDIS_PREFIX_MULTI_BULK_REPLY : UInt8 := 42

def REDIS_PREFIX_INT_REPLY : UInt8 := 58

/-- `0 == str.find_first_of(c)`. -/
def firstIs (str : Bytes) (c : UInt8) : Bool :=
  str.head? == some c

/-- `getReplyType`, the same in both namespaces of the source. -/
def getReplyType (str : Bytes) : ReplyT :=
  if firstIs str REDIS_PREFIX_STATUS_REPLY_ERR_C then .errorReply
  else if firstIs str REDIS_PREFIX_STATUS_REPLY_VALUE then .statusCodeReply
  else if firstIs str REDIS_PREFIX_SINGLE_BULK_REPLY then .bulkReply
  else if firstIs str REDIS_PREFIX_INT_REPLY then .intReply
  else if firstIs str REDIS_PREFIX_MULTI_BULK_REPLY then .multiBulkReply
  else .noReply

/-- `rtrim(str, REDIS_LBR)`. -/
def rtrim (str : Bytes) : Bytes :=
  Lines.rtrim REDIS_LBR str

/-- `memchr(buf, c, size)` as an offset. -/
def memchr (buf : Bytes) (c : UInt8) : Option Nat :=
  buf.idxOf? c

theorem memchr_lt {buf : Bytes} {c : UInt8} {eol : Nat} (h : memchr buf c = some eol) :
    eol < buf.length := by
  rw [memchr, List.idxOf?_eq_some_iff] at h
  exact h.1

/-- `memchr` locates the split after the first line feed. -/
theorem memchr_LF (buf : Bytes) :
    Lines.splitAfter LF buf =
      (memchr buf LF).map fun eol => (buf.take (eol + 1), buf.drop (eol + 1)) :=
  Lines.splitAfter_eq_idxOf LF buf

/-! ## The parser object -/

/-- The class `RedisParse`. -/
structure RedisParse where
  type : ReplyT := .noReply
  multiCount : Nat := 0
  tempMaxLen : Nat := 0
  temp : Bytes := []
  recvList : List Bytes := []
  done : Bool := false
deriving DecidableEq, Repr

namespace RedisParse

/-- `RedisParseSpace::REDIS_MISSING`. -/
def REDIS_MISSING : Bytes := text "**missing-key**"

def isDone (p : RedisParse) : Bool := p.done

/-- The trimmed line, once its line feed has arrived. -/
def readLine (p : RedisParse) (buf : Bytes) (readPos : Nat) : RedisParse × Nat × Option Bytes :=
  let toRead := buf.length - readPos
  if toRead ≤ 0 then (p, readPos, none)
  else
    match memchr (buf.drop readPos) LF with
    | some eol =>
        let toRead := readPos + eol + 1
        let temp := p.temp ++ (buf.drop readPos).take (toRead - readPos)
        ({ p with temp := [] }, toRead, some (rtrim temp))
    | none => (p, readPos, none)

/-- `len` bytes, once they have arrived; a part is kept in `temp`. -/
def readLen (p : RedisParse) (buf : Bytes) (readPos len : Nat) :
    RedisParse × Nat × Option Bytes :=
  let toRead := buf.length - readPos
  if toRead ≤ 0 then (p, readPos, none)
  else
    let need := sizeSub len p.temp.length
    if need ≤ toRead then
      let temp := p.temp ++ (buf.drop readPos).take need
      ({ p with temp := [] }, readPos + need, some temp)
    else
      ({ p with temp := p.temp ++ (buf.drop readPos).take toRead }, readPos + toRead, none)

section
variable [LexicalCast]

/-- The first line decides the type; a `$` or `*` line also the length. -/
def parseType (p : RedisParse) (buf : Bytes) (readPos : Nat) :
    Except Exn (RedisParse × Nat × Bool) :=
  match p.readLine buf readPos with
  | (p, readPos, none) => .ok (p, readPos, false)
  | (p, readPos, some content) =>
      let type := getReplyType content
      let p := { p with type := type }
      match type with
      | .noReply => .ok ({ p with done := true }, readPos, true)
      | .statusCodeReply => do
          let value ← substr content 1
          .ok ({ p with recvList := p.recvList ++ [value], done := true }, readPos, true)
      | .errorReply => do
          let value ← substr content 4
          .ok ({ p with recvList := p.recvList ++ [value], done := true }, readPos, true)
      | .intReply => do
          let value ← substr content 1
          .ok ({ p with recvList := p.recvList ++ [value], done := true }, readPos, true)
      | .bulkReply => do
          let bulkLen ← lexicalCast (← substr content 1)
          if bulkLen = -1 then
            .ok ({ p with
              tempMaxLen := 0
              recvList := p.recvList ++ [REDIS_MISSING]
              done := true }, readPos, true)
          else
            .ok ({ p with tempMaxLen := toSize (intAdd bulkLen 2), done := false }, readPos, true)
      | .multiBulkReply => do
          let count ← lexicalCast (← substr content 1)
          if count = -1 then
            .ok ({ p with multiCount := 0, done := true }, readPos, true)
          else
            .ok ({ p with multiCount := toSize count, done := false }, readPos, true)

/-- One pass through the body of the element loop; `false` is its `return false`. -/
def parseElement (p : RedisParse) (buf : Bytes) (readPos : Nat) :
    Except Exn (RedisParse × Nat × Bool) :=
  match p.readLine buf readPos with
  | (p, readPos, none) => .ok (p, readPos, false)
  | (p, readPos, some content) => do
      let ssub ← substr content 1
      let bulkLen ← lexicalCast ssub
      if bulkLen = -1 then
        .ok ({ p with tempMaxLen := 0, recvList := p.recvList ++ [REDIS_MISSING] }, readPos, true)
      else
        let p := { p with tempMaxLen := toSize (intAdd bulkLen 2) }
        match p.readLen buf readPos p.tempMaxLen with
        | (p, readPos, none) => .ok (p, readPos, false)
        | (p, readPos, some content) => do
            let content ← erase content (sizeSub p.tempMaxLen 2)
            .ok ({ p with recvList := p.recvList ++ [content] }, readPos, true)

/-- The element loop.  Every pass that goes on has consumed a line, so the bytes
that are left bound the number of passes. -/
def parseElements : Nat → RedisParse → Bytes → Nat → Except Exn (RedisParse × Nat × Bool)
  | 0, p, _, readPos => .ok (p, readPos, false)
  | fuel + 1, p, buf, readPos => do
      let (p, readPos, pushed) ← p.parseElement buf readPos
      if !pushed then .ok (p, readPos, false)
      else if p.multiCount = p.recvList.length then .ok ({ p with done := true }, readPos, true)
      else parseElements fuel p buf readPos

def parseBule (p : RedisParse) (buf : Bytes) (readPos : Nat) :
    Except Exn (RedisParse × Nat × Bool) :=
  if p.type = .bulkReply then
    match p.readLen buf readPos p.tempMaxLen with
    | (p, readPos, none) => .ok (p, readPos, false)
    | (p, readPos, some content) => do
        let content ← erase content (sizeSub p.tempMaxLen 2)
        .ok ({ p with recvList := p.recvList ++ [content], done := true }, readPos, true)
  else if p.type = .multiBulkReply then
    parseElements (buf.length - readPos + 1) p buf readPos
  else .ok (p, readPos, true)

def parse (p : RedisParse) (buf : Bytes) (readPos : Nat) :
    Except Exn (RedisParse × Nat × Bool) :=
  if p.done then .ok (p, readPos, true)
  else if buf.length = 0 then .ok (p, readPos, true)
  else do
    let (p, readPos, typed) ←
      if p.type = .noReply then p.parseType buf readPos else .ok (p, readPos, true)
    if !typed then .ok (p, readPos, false)
    else if !p.done then do
      let (p, readPos, _) ← p.parseBule buf readPos
      .ok (p, readPos, p.done)
    else .ok (p, readPos, p.done)

end

/-! ## Reading lines and bodies -/

/-- Reading a line is splitting the unread bytes after the first line feed. -/
theorem readLine_spec (p : RedisParse) {buf : Bytes} {readPos : Nat} (h : readPos ≤ buf.length) :
    p.readLine buf readPos =
      match Lines.splitAfter LF (buf.drop readPos) with
      | none => (p, readPos, none)
      | some (l, r) =>
          ({ p with temp := [] }, buf.length - r.length, some (rtrim (p.temp ++ l))) := by
  unfold readLine
  rw [memchr_LF]
  by_cases hempty : buf.length - readPos ≤ 0
  · have hnil : buf.drop readPos = [] := by
      rw [List.drop_eq_nil_iff]
      omega
    simp [hempty, hnil, memchr]
  · simp only [if_neg hempty]
    cases hscan : memchr (buf.drop readPos) LF with
    | none => simp
    | some eol =>
        have hlt := memchr_lt hscan
        rw [List.length_drop] at hlt
        simp only [Option.map_some, List.length_drop]
        have h1 : readPos + eol + 1 - readPos = eol + 1 := by omega
        have h2 : buf.length - (buf.length - readPos - (eol + 1)) = readPos + eol + 1 := by omega
        rw [h1, h2]

/-- Reading a body takes the missing bytes when they are there, else everything. -/
theorem readLen_spec (p : RedisParse) {buf : Bytes} {readPos len : Nat}
    (htemp : p.temp.length ≤ len) (hlen : len < 18446744073709551616) :
    p.readLen buf readPos len =
      if buf.drop readPos = [] then (p, readPos, none)
      else if len ≤ p.temp.length + (buf.drop readPos).length then
        ({ p with temp := [] }, readPos + (len - p.temp.length),
          some (p.temp ++ (buf.drop readPos).take (len - p.temp.length)))
      else ({ p with temp := p.temp ++ buf.drop readPos }, buf.length, none) := by
  unfold readLen
  rw [sizeSub_of_le htemp hlen]
  by_cases hempty : buf.drop readPos = []
  · have hle : buf.length - readPos ≤ 0 := by
      rw [List.drop_eq_nil_iff] at hempty
      omega
    simp [hempty, hle]
  · have hlt : ¬ buf.length - readPos ≤ 0 := by
      rw [List.drop_eq_nil_iff] at hempty
      omega
    simp only [if_neg hempty, if_neg hlt, List.length_drop]
    by_cases hfit : len - p.temp.length ≤ buf.length - readPos
    · rw [if_pos hfit, if_pos (by omega)]
    · rw [if_neg hfit, if_neg (by omega)]
      have htake : (buf.drop readPos).take (buf.length - readPos) = buf.drop readPos :=
        List.take_of_length_le (by rw [List.length_drop])
      rw [htake]
      congr 2
      omega

/-! ## What a call returns -/

/-- Reading a line in vain changes nothing. -/
theorem readLine_none {p p' : RedisParse} {buf : Bytes} {readPos pos : Nat}
    (h : p.readLine buf readPos = (p', pos, none)) : p' = p := by
  unfold readLine at h
  by_cases hempty : buf.length - readPos ≤ 0
  · simp only [if_pos hempty, Prod.mk.injEq] at h
    exact h.1.symm
  · cases hscan : memchr (buf.drop readPos) LF with
    | none =>
        simp only [if_neg hempty, hscan, Prod.mk.injEq] at h
        exact h.1.symm
    | some eol =>
        simp only [if_neg hempty, hscan, Prod.mk.injEq, reduceCtorEq, and_false] at h

section
variable [LexicalCast]

/-- Either the type line is not there yet, or the switch behind it changes neither the
position nor what is kept, and asks for a length that a number gives. -/
theorem parseType_ok {p p' : RedisParse} {buf : Bytes} {readPos pos : Nat} {r : Bool}
    (h : p.parseType buf readPos = .ok (p', pos, r)) :
    (p.readLine buf readPos = (p', pos, none) ∧ r = false) ∨
      ∃ q content, p.readLine buf readPos = (q, pos, some content) ∧ r = true ∧
        p'.temp = q.temp ∧ (p'.tempMaxLen = q.tempMaxLen ∨ ∃ i, p'.tempMaxLen = toSize i) := by
  unfold parseType at h
  rcases hline : p.readLine buf readPos with ⟨q, pos', _ | content⟩
  · rw [hline] at h
    cases h
    exact Or.inl ⟨rfl, rfl⟩
  · rw [hline] at h
    right
    cases htype : getReplyType content with
    | noReply =>
        simp only [htype] at h
        cases h
        exact ⟨q, content, rfl, rfl, rfl, Or.inl rfl⟩
    | statusCodeReply =>
        simp only [htype] at h
        rcases exists_of_bind h with ⟨value, -, h⟩
        cases h
        exact ⟨q, content, rfl, rfl, rfl, Or.inl rfl⟩
    | errorReply =>
        simp only [htype] at h
        rcases exists_of_bind h with ⟨value, -, h⟩
        cases h
        exact ⟨q, content, rfl, rfl, rfl, Or.inl rfl⟩
    | intReply =>
        simp only [htype] at h
        rcases exists_of_bind h with ⟨value, -, h⟩
        cases h
        exact ⟨q, content, rfl, rfl, rfl, Or.inl rfl⟩
    | bulkReply =>
        simp only [htype] at h
        rcases exists_of_bind h with ⟨text, -, h⟩
        rcases exists_of_bind h with ⟨bulkLen, -, h⟩
        split at h
        · cases h
          exact ⟨q, content, rfl, rfl, rfl, Or.inr ⟨0, rfl⟩⟩
        · cases h
          exact ⟨q, content, rfl, rfl, rfl, Or.inr ⟨_, rfl⟩⟩
    | multiBulkReply =>
        simp only [htype] at h
        rcases exists_of_bind h with ⟨text, -, h⟩
        rcases exists_of_bind h with ⟨count, -, h⟩
        split at h
        · cases h
          exact ⟨q, content, rfl, rfl, rfl, Or.inl rfl⟩
        · cases h
          exact ⟨q, content, rfl, rfl, rfl, Or.inl rfl⟩

/-- The type line fails only for want of a line. -/
theorem parseType_false {p p' : RedisParse} {buf : Bytes} {readPos pos : Nat}
    (h : p.parseType buf readPos = .ok (p', pos, false)) : p' = p := by
  rcases parseType_ok h with ⟨hline, -⟩ | ⟨q, content, -, hr, -⟩
  · exact readLine_none hline
  · cases hr

/-- A call that leaves the parser done returns so. -/
theorem parse_result {p p' : RedisParse} {buf : Bytes} {readPos pos : Nat} {r : Bool}
    (h : p.parse buf readPos = .ok (p', pos, r)) (hdone : p'.done = true) : r = true := by
  unfold parse at h
  by_cases hp : p.done = true
  · rw [if_pos hp] at h
    simp only [Except.ok.injEq, Prod.mk.injEq] at h
    exact h.2.2.symm
  · rw [if_neg hp] at h
    by_cases hempty : buf.length = 0
    · rw [if_pos hempty] at h
      simp only [Except.ok.injEq, Prod.mk.injEq] at h
      exact h.2.2.symm
    · rw [if_neg hempty] at h
      have hrest : ∀ (q : RedisParse) (pos₁ : Nat), (if !q.done then do
          let (p, readPos, _) ← q.parseBule buf pos₁
          .ok (p, readPos, p.done)
        else .ok (q, pos₁, q.done)) = Except.ok (p', pos, r) → r = true := by
        intro q pos₁ hq
        by_cases hqd : q.done = true
        · simp only [hqd, Bool.not_true, Bool.false_eq_true, if_false, Except.ok.injEq,
            Prod.mk.injEq] at hq
          exact hq.2.2.symm
        · cases hb : q.parseBule buf pos₁ with
          | error e => simp [hqd, hb] at hq
          | ok x =>
              simp only [hqd, Bool.not_false, if_true, hb, ok_bind, Except.ok.injEq,
                Prod.mk.injEq] at hq
              rw [← hq.2.2, hq.1, hdone]
      by_cases htype : p.type = .noReply
      · rw [if_pos htype] at h
        cases hq : p.parseType buf readPos with
        | error e => simp [hq] at h
        | ok x =>
            rcases x with ⟨q, pos₁, typed⟩
            cases typed with
            | false =>
                simp only [hq, ok_bind, Bool.not_false, if_true, Except.ok.injEq,
                  Prod.mk.injEq] at h
                rw [← h.1, parseType_false hq] at hdone
                exact absurd hdone hp
            | true =>
                simp only [hq, ok_bind, Bool.not_true, Bool.false_eq_true, if_false] at h
                exact hrest q pos₁ h
      · rw [if_neg htype] at h
        simp only [ok_bind, Bool.not_true, Bool.false_eq_true, if_false] at h
        exact hrest p readPos h

end

end RedisParse

end FannyNet

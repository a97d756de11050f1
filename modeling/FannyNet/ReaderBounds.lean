import FannyNet.Clone
import FannyNet.Layout
import FannyNet.ReadTermination
import FannyNet.Library.Checks

/-!
# The readers stay in bounds

The incremental readers with run-time checks: the subtractions that say how many bytes to read
must not underflow, bytes are read inside the buffer only, the read position moves forward
inside the buffer, and `readData` must not return `nullptr`.  In every state that calls can lead
to, the readers pass their checks, so that they do what the readers without checks do.

Main results:

- Structure `RedisParse.Part` and definition `RedisBlock.Part`: what is kept of a body between
  two calls.
- Theorem `RedisParse.Checked.passes_parse`: a call of `parse` passes its checks.
- Theorems `RedisBlock2.Checked.passes_recv` and `RedisBlock.Checked.passes_recv`: a `recv` on a
  block that calls lead to passes its checks.
-/

namespace FannyNet

open Library Library.Checks

/-- How a checked reader stops: an exception, or a check that fails. -/
inductive Stop where
  | thrown (e : Exn)
  | underflow
  | outside
deriving DecidableEq, Repr

namespace Stop

/-- `a - b` of two `size_t` values. -/
def sub (a b : Nat) : Except Stop Nat :=
  if b ≤ a then .ok (a - b) else .error .underflow

/-- The `len` bytes at `buf + pos`. -/
def bytesAt (buf : Bytes) (pos len : Nat) : Except Stop Bytes :=
  if pos + len ≤ buf.length then .ok ((buf.drop pos).take len) else .error .outside

/-- The assignment `readPos = next`. -/
def moveTo (buf : Bytes) (readPos next : Nat) : Except Stop Nat :=
  if readPos ≤ next ∧ next ≤ buf.length then .ok next else .error .outside

/-- `readData(len)`, whose result is read. -/
def readData (buf : NetBuffer) (len : Nat) : Except Stop (NetBuffer × Bytes) :=
  match buf.readData len with
  | (buf, some bytes) => .ok (buf, bytes)
  | (_, none) => .error .outside

/-- What has nothing to check. -/
def unchecked {α : Type} (x : Except Exn α) : Except Stop α :=
  x.mapError .thrown

theorem sub_eq {a b : Nat} (h : b ≤ a) : sub a b = .ok (a - b) :=
  if_pos h

theorem bytesAt_eq {buf : Bytes} {pos len : Nat} (h : pos + len ≤ buf.length) :
    bytesAt buf pos len = .ok ((buf.drop pos).take len) :=
  if_pos h

theorem moveTo_eq {buf : Bytes} {readPos next : Nat} (h : readPos ≤ next)
    (hle : next ≤ buf.length) : moveTo buf readPos next = .ok next :=
  if_pos ⟨h, hle⟩

theorem readData_eq {buf : NetBuffer} {len : Nat} (h : len ≤ buf.needReadLength) :
    readData buf len = .ok ((buf.readData len).1, buf.unread.take len) := by
  rw [readData, NetBuffer.readData_of_le h]

end Stop

open Stop

/-! ## `RedisParse` -/

namespace RedisParse.Checked

def readLine (p : RedisParse) (buf : Bytes) (readPos : Nat) :
    Except Stop (RedisParse × Nat × Option Bytes) := do
  let toRead ← sub buf.length readPos
  if toRead ≤ 0 then .ok (p, readPos, none)
  else do
    match memchr (← bytesAt buf readPos toRead) LF with
    | some eol => do
        let toRead := readPos + eol + 1
        let temp := p.temp ++ (← bytesAt buf readPos (← sub toRead readPos))
        let readPos ← moveTo buf readPos toRead
        .ok ({ p with temp := [] }, readPos, some (rtrim temp))
    | none => .ok (p, readPos, none)

def readLen (p : RedisParse) (buf : Bytes) (readPos len : Nat) :
    Except Stop (RedisParse × Nat × Option Bytes) := do
  let toRead ← sub buf.length readPos
  if toRead ≤ 0 then .ok (p, readPos, none)
  else do
    let need ← sub len p.temp.length
    if need ≤ toRead then do
      let temp := p.temp ++ (← bytesAt buf readPos need)
      let readPos ← moveTo buf readPos (readPos + need)
      .ok ({ p with temp := [] }, readPos, some temp)
    else do
      let temp := p.temp ++ (← bytesAt buf readPos toRead)
      let readPos ← moveTo buf readPos (readPos + toRead)
      .ok ({ p with temp := temp }, readPos, none)

section
variable [LexicalCast]

/-- All that is read is the line. -/
def parseType (p : RedisParse) (buf : Bytes) (readPos : Nat) :
    Except Stop (RedisParse × Nat × Bool) := do
  let _ ← readLine p buf readPos
  unchecked (p.parseType buf readPos)

def parseElement (p : RedisParse) (buf : Bytes) (readPos : Nat) :
    Except Stop (RedisParse × Nat × Bool) := do
  match ← readLine p buf readPos with
  | (p, readPos, none) => .ok (p, readPos, false)
  | (p, readPos, some content) => do
      let ssub ← unchecked (substr content 1)
      let bulkLen ← unchecked (lexicalCast ssub)
      if bulkLen = -1 then
        .ok ({ p with tempMaxLen := 0, recvList := p.recvList ++ [REDIS_MISSING] }, readPos, true)
      else do
        let p := { p with tempMaxLen := toSize (intAdd bulkLen 2) }
        match ← readLen p buf readPos p.tempMaxLen with
        | (p, readPos, none) => .ok (p, readPos, false)
        | (p, readPos, some content) => do
            let content ← unchecked (erase content (sizeSub p.tempMaxLen 2))
            .ok ({ p with recvList := p.recvList ++ [content] }, readPos, true)

def parseElements : Nat → RedisParse → Bytes → Nat → Except Stop (RedisParse × Nat × Bool)
  | 0, p, _, readPos => .ok (p, readPos, false)
  | fuel + 1, p, buf, readPos => do
      let (p, readPos, pushed) ← parseElement p buf readPos
      if !pushed then .ok (p, readPos, false)
      else if p.multiCount = p.recvList.length then .ok ({ p with done := true }, readPos, true)
      else parseElements fuel p buf readPos

def parseBule (p : RedisParse) (buf : Bytes) (readPos : Nat) :
    Except Stop (RedisParse × Nat × Bool) :=
  if p.type = .bulkReply then do
    match ← readLen p buf readPos p.tempMaxLen with
    | (p, readPos, none) => .ok (p, readPos, false)
    | (p, readPos, some content) => do
        let content ← unchecked (erase content (sizeSub p.tempMaxLen 2))
        .ok ({ p with recvList := p.recvList ++ [content], done := true }, readPos, true)
  else if p.type = .multiBulkReply then
    parseElements (buf.length - readPos + 1) p buf readPos
  else .ok (p, readPos, true)

def parse (p : RedisParse) (buf : Bytes) (readPos : Nat) :
    Except Stop (RedisParse × Nat × Bool) :=
  if p.done then .ok (p, readPos, true)
  else if buf.length = 0 then .ok (p, readPos, true)
  else do
    let (p, readPos, typed) ←
      if p.type = .noReply then parseType p buf readPos else .ok (p, readPos, true)
    if !typed then .ok (p, readPos, false)
    else if !p.done then do
      let (p, readPos, _) ← parseBule p buf readPos
      .ok (p, readPos, p.done)
    else .ok (p, readPos, p.done)

end

end RedisParse.Checked

namespace RedisParse

/-- What is kept of a body is shorter than the body. -/
structure Part (p : RedisParse) : Prop where
  short : p.temp ≠ [] → p.temp.length < p.tempMaxLen
  maxLen : p.tempMaxLen < 18446744073709551616

/-- Nothing is kept of a body. -/
theorem part_of_temp {p : RedisParse} (htemp : p.temp = [])
    (hlen : p.tempMaxLen < 18446744073709551616) : p.Part :=
  ⟨fun hne => absurd htemp hne, hlen⟩

theorem part_fresh : ({} : RedisParse).Part :=
  part_of_temp rfl (by decide)

theorem Part.length_le {p : RedisParse} (h : p.Part) : p.temp.length ≤ p.tempMaxLen := by
  by_cases htemp : p.temp = []
  · rw [htemp]
    exact Nat.zero_le _
  · exact (h.short htemp).le

/-- What a reader leaves that was called at `readPos`: the position has moved forward inside the
buffer. -/
structure Inside {α : Type} (buf : Bytes) (readPos : Nat) (x : RedisParse × Nat × α) : Prop where
  part : x.1.Part
  forward : readPos ≤ x.2.1
  inside : x.2.1 ≤ buf.length

theorem Inside.trans {α γ : Type} {buf : Bytes} {readPos : Nat} {x : RedisParse × Nat × α}
    {y : RedisParse × Nat × γ} (h : Inside buf readPos x) (h' : Inside buf x.2.1 y) :
    Inside buf readPos y :=
  ⟨h'.part, h.forward.trans h'.forward, h'.inside⟩

namespace Checked

theorem readLine_eq (p : RedisParse) {buf : Bytes} {readPos : Nat} (hpos : readPos ≤ buf.length) :
    readLine p buf readPos = .ok (p.readLine buf readPos) := by
  unfold readLine RedisParse.readLine
  rw [sub_eq hpos, ok_bind]
  by_cases hempty : buf.length - readPos ≤ 0
  · rw [if_pos hempty, if_pos hempty]
  · have hall : (buf.drop readPos).take (buf.length - readPos) = buf.drop readPos :=
      List.take_of_length_le (by rw [List.length_drop])
    rw [if_neg hempty, if_neg hempty, bytesAt_eq (by omega), ok_bind, hall]
    cases hscan : memchr (buf.drop readPos) LF with
    | none => rfl
    | some eol =>
        have hlt := memchr_lt hscan
        rw [List.length_drop] at hlt
        dsimp only
        rw [sub_eq (by omega), ok_bind, bytesAt_eq (by omega), ok_bind,
          moveTo_eq (by omega) (by omega), ok_bind]

theorem readLen_eq {p : RedisParse} {buf : Bytes} {readPos len : Nat} (hpos : readPos ≤ buf.length)
    (htemp : p.temp.length ≤ len) (hlen : len < 18446744073709551616) :
    readLen p buf readPos len = .ok (p.readLen buf readPos len) := by
  unfold readLen RedisParse.readLen
  rw [sub_eq hpos, ok_bind]
  by_cases hempty : buf.length - readPos ≤ 0
  · rw [if_pos hempty, if_pos hempty]
  · rw [if_neg hempty, if_neg hempty, sub_eq htemp, ok_bind, sizeSub_of_le htemp hlen]
    by_cases hfit : len - p.temp.length ≤ buf.length - readPos
    · rw [if_pos hfit, if_pos hfit, bytesAt_eq (by omega), ok_bind,
        moveTo_eq (by omega) (by omega), ok_bind]
    · rw [if_neg hfit, if_neg hfit, bytesAt_eq (by omega), ok_bind,
        moveTo_eq (by omega) (by omega), ok_bind]

/-- Where more is kept than is asked for, the check fails. -/
example : readLen { temp := text "abc" } (text "d") 0 2 = .error .underflow :=
  rfl

/-- A body is read within its length. -/
theorem passes_readLen {p : RedisParse} (hp : p.Part) {buf : Bytes} {readPos : Nat}
    (hpos : readPos ≤ buf.length) :
    Passes Stop.thrown (readLen p buf readPos p.tempMaxLen)
      (.ok (p.readLen buf readPos p.tempMaxLen)) (Inside buf readPos) := by
  constructor
  · exact readLen_eq hpos hp.length_le hp.maxLen
  · intro x hx
    cases hx
    rw [readLen_spec p hp.length_le hp.maxLen]
    by_cases hempty : buf.drop readPos = []
    · rw [if_pos hempty]
      exact ⟨hp, le_rfl, hpos⟩
    · rw [if_neg hempty]
      by_cases hfit : p.tempMaxLen ≤ p.temp.length + (buf.drop readPos).length
      · rw [if_pos hfit]
        rw [List.length_drop] at hfit
        refine ⟨part_of_temp rfl hp.maxLen, Nat.le_add_right _ _, ?_⟩
        dsimp only
        omega
      · rw [if_neg hfit]
        refine ⟨⟨fun _ => ?_, hp.maxLen⟩, hpos, le_rfl⟩
        dsimp only
        rw [List.length_append]
        omega

section
variable [LexicalCast]

theorem passes_parseElement {p : RedisParse} (hp : p.Part) {buf : Bytes} {readPos : Nat}
    (hpos : readPos ≤ buf.length) :
    Passes Stop.thrown (parseElement p buf readPos) (p.parseElement buf readPos)
      (Inside buf readPos) := by
  unfold parseElement RedisParse.parseElement
  rw [readLine_eq p hpos, ok_bind]
  rcases p.readLine_cases hpos with ⟨-, hline⟩ | ⟨l, pos, -, hlt, hle, hline⟩
  · rw [hline]
    exact .ok ⟨hp, le_rfl, hpos⟩
  · rw [hline]
    apply Passes.step
    intro ssub
    apply Passes.step
    intro n
    by_cases hnil : n = -1
    · rw [if_pos hnil, if_pos hnil]
      have hzero : 0 < 18446744073709551616 := by decide
      exact .ok ⟨part_of_temp rfl hzero, hlt.le, hle⟩
    · rw [if_neg hnil, if_neg hnil]
      have hpart : Part { p with temp := [], tempMaxLen := toSize (intAdd n 2) } :=
        part_of_temp rfl (toSize_lt _)
      apply Passes.call (passes_readLen hpart hle)
      intro hread
      dsimp only at hread ⊢
      cases hres : RedisParse.readLen { p with temp := [], tempMaxLen := toSize (intAdd n 2) } buf
          pos (toSize (intAdd n 2)) with
      | mk p' y =>
          rcases y with ⟨pos', _ | content⟩
          · rw [hres] at hread
            exact .ok ⟨hread.part, hlt.le.trans hread.forward, hread.inside⟩
          · rw [hres] at hread
            apply Passes.step
            intro body
            exact .ok ⟨⟨hread.part.short, hread.part.maxLen⟩, hlt.le.trans hread.forward,
              hread.inside⟩

/-- The element loop: one pass after the other. -/
theorem passes_parseElements (fuel : Nat) {p : RedisParse} (hp : p.Part) {buf : Bytes}
    {readPos : Nat} (hpos : readPos ≤ buf.length) :
    Passes Stop.thrown (parseElements fuel p buf readPos)
      (RedisParse.parseElements fuel p buf readPos) (Inside buf readPos) := by
  induction fuel generalizing p readPos with
  | zero => exact .ok ⟨hp, le_rfl, hpos⟩
  | succ fuel ih =>
      apply Passes.bind (passes_parseElement hp hpos)
      intro x hx
      rcases x with ⟨p', pos, pushed⟩
      cases pushed with
      | false => exact .ok ⟨hx.part, hx.forward, hx.inside⟩
      | true =>
          dsimp only
          by_cases hcount : p'.multiCount = p'.recvList.length
          · simp only [if_pos hcount, Bool.not_true, Bool.false_eq_true, if_false]
            exact .ok ⟨⟨hx.part.short, hx.part.maxLen⟩, hx.forward, hx.inside⟩
          · simp only [if_neg hcount, Bool.not_true, Bool.false_eq_true, if_false]
            exact (ih hx.part hx.inside).imp fun _ hy => hx.trans hy

theorem passes_parseBule {p : RedisParse} (hp : p.Part) {buf : Bytes} {readPos : Nat}
    (hpos : readPos ≤ buf.length) :
    Passes Stop.thrown (parseBule p buf readPos) (p.parseBule buf readPos)
      (Inside buf readPos) := by
  unfold parseBule RedisParse.parseBule
  by_cases hbulk : p.type = .bulkReply
  · rw [if_pos hbulk, if_pos hbulk]
    apply Passes.call (passes_readLen hp hpos)
    intro hread
    rcases hres : p.readLen buf readPos p.tempMaxLen with ⟨p', pos, _ | content⟩
    · rw [hres] at hread
      exact .ok ⟨hread.part, hread.forward, hread.inside⟩
    · rw [hres] at hread
      apply Passes.step
      intro body
      exact .ok ⟨⟨hread.part.short, hread.part.maxLen⟩, hread.forward, hread.inside⟩
  · rw [if_neg hbulk, if_neg hbulk]
    by_cases hmulti : p.type = .multiBulkReply
    · rw [if_pos hmulti, if_pos hmulti]
      exact passes_parseElements _ hp hpos
    · rw [if_neg hmulti, if_neg hmulti]
      exact .ok ⟨hp, le_rfl, hpos⟩

/-- Behind the type line nothing is kept. -/
theorem parseType_inside {p : RedisParse} (hp : p.Part) {buf : Bytes} {readPos : Nat}
    (hpos : readPos ≤ buf.length) {x : RedisParse × Nat × Bool}
    (h : p.parseType buf readPos = .ok x) : Inside buf readPos x := by
  rcases x with ⟨p', pos', r⟩
  rcases p.readLine_cases hpos with ⟨-, hline⟩ | ⟨l, pos, -, hlt, hle, hline⟩
  · rcases parseType_ok h with ⟨hread, -⟩ | ⟨q, content, hread, -⟩
    · rw [hline] at hread
      cases hread
      exact ⟨hp, le_rfl, hpos⟩
    · rw [hline] at hread
      cases hread
  · rcases parseType_ok h with ⟨hread, -⟩ | ⟨q, content, hread, -, htemp, hlen⟩
    · rw [hline] at hread
      cases hread
    · rw [hline] at hread
      cases hread
      refine ⟨part_of_temp htemp ?_, hlt.le, hle⟩
      rcases hlen with hsame | ⟨i, hi⟩
      · exact hsame.trans_lt hp.maxLen
      · exact hi.trans_lt (toSize_lt i)

theorem passes_parseType {p : RedisParse} (hp : p.Part) {buf : Bytes} {readPos : Nat}
    (hpos : readPos ≤ buf.length) :
    Passes Stop.thrown (parseType p buf readPos) (p.parseType buf readPos)
      (Inside buf readPos) := by
  unfold parseType
  rw [readLine_eq p hpos, ok_bind]
  exact Passes.lifted fun _ h => parseType_inside hp hpos h

/-- A call of `parse` passes its checks, and keeps no more than a part of a body. -/
theorem passes_parse {p : RedisParse} (hp : p.Part) {buf : Bytes} {readPos : Nat}
    (hpos : readPos ≤ buf.length) :
    Passes Stop.thrown (parse p buf readPos) (p.parse buf readPos) (Inside buf readPos) := by
  unfold parse RedisParse.parse
  by_cases hdone : p.done = true
  · rw [if_pos hdone, if_pos hdone]
    exact .ok ⟨hp, le_rfl, hpos⟩
  · rw [if_neg hdone, if_neg hdone]
    by_cases hempty : buf.length = 0
    · rw [if_pos hempty, if_pos hempty]
      exact .ok ⟨hp, le_rfl, hpos⟩
    · rw [if_neg hempty, if_neg hempty]
      -- what follows the type line
      have hrest : ∀ (q : RedisParse) (pos : Nat) (typed : Bool),
          Inside buf readPos (q, pos, typed) →
          Passes Stop.thrown
            (if !typed then .ok (q, pos, false)
              else if !q.done then do
                let (p, readPos, _) ← parseBule q buf pos
                .ok (p, readPos, p.done)
              else .ok (q, pos, q.done))
            (if !typed then .ok (q, pos, false)
              else if !q.done then do
                let (p, readPos, _) ← q.parseBule buf pos
                .ok (p, readPos, p.done)
              else .ok (q, pos, q.done)) (Inside buf readPos) := by
        intro q pos typed hq
        cases typed with
        | false => exact .ok ⟨hq.part, hq.forward, hq.inside⟩
        | true =>
            cases hqdone : q.done with
            | true => exact .ok ⟨hq.part, hq.forward, hq.inside⟩
            | false =>
                apply Passes.bind (passes_parseBule hq.part hq.inside)
                intro y hy
                exact .ok ⟨hy.part, hq.forward.trans hy.forward, hy.inside⟩
      by_cases htype : p.type = .noReply
      · simp only [if_pos htype]
        apply Passes.bind (passes_parseType hp hpos)
        intro x hx
        exact hrest x.1 x.2.1 x.2.2 hx
      · simp only [if_neg htype]
        exact hrest p readPos true ⟨hp, le_rfl, hpos⟩

end

end Checked

section
variable [LexicalCast]

/-- The parsers there can be before an exception: a new one, and what a call on some bytes
leaves. -/
inductive Reachable : RedisParse → Prop where
  | fresh : Reachable {}
  | parse {p p' : RedisParse} {buf : Bytes} {pos : Nat} {r : Bool} (hp : Reachable p)
      (hbuf : buf ≠ []) (hcall : p.parse buf 0 = .ok (p', pos, r)) : Reachable p'

/-- Between two calls a part of a body is kept, or nothing. -/
theorem Reachable.part {p : RedisParse} (h : Reachable p) : p.Part := by
  induction h with
  | fresh => exact part_fresh
  | parse _ _ hcall ih => exact ((Checked.passes_parse ih (Nat.zero_le _)).post _ hcall).part

end

end RedisParse

/-! ## Blocks -/

/-- The blocks that calls lead to, among them clones and blocks that are given more behind their
reply. -/
inductive CloneClass.Used {β ρ : Type} (C : CloneClass β ρ) : β → Prop where
  | make (s : SessionId) (size : Nat) : Used C (C.make s size)
  | push {k k' : β} (hk : Used C k) (bytes : Bytes) (hpush : C.push k bytes = some k') : Used C k'
  | clone {k k' : β} (hk : Used C k) (s : SessionId) (hclone : C.clone k s = some k') : Used C k'
  | recv {k k' : β} (hk : Used C k) {buf buf' : NetBuffer} {r : Bool} (hbuf : buf.Valid)
      (hcall : C.recv k buf = .ok (k', buf', r)) : Used C k'

/-! ## `RedisBlock2` -/

section
variable [LexicalCast]

namespace RedisBlock2

/-- The parser of a block that calls lead to is one that calls lead to. -/
theorem reachable_of_used {k : RedisBlock2} (hk : cloneClass.Used k) : k.parse.Reachable := by
  induction hk with
  | make s size => exact .fresh
  | push _ bytes hpush ih =>
      rcases Option.map_eq_some_iff.mp hpush with ⟨x, hx, rfl⟩
      rcases Option.map_eq_some_iff.mp hx with ⟨d, -, rfl⟩
      exact ih
  | clone _ s hclone ih =>
      rcases Option.map_eq_some_iff.mp hclone with ⟨d, -, rfl⟩
      exact ih
  | @recv k k' _ buf buf' r _ hcall ih =>
      have hrecv : k.recv buf = .ok (k', buf', r) := hcall
      unfold recv at hrecv
      rcases exists_of_bind hrecv with ⟨⟨p, pos, r₁⟩, hparse, hrest⟩
      cases hrest
      by_cases hempty : buf.unread = []
      · have hsame : k.parse.parse [] 0 = .ok (k.parse, 0, true) := by
          unfold RedisParse.parse
          split <;> rfl
        rw [hempty, hsame] at hparse
        cases hparse
        exact ih
      · exact .parse ih hempty hparse

namespace Checked

def recv (k : RedisBlock2) (buf : NetBuffer) : Except Stop (RedisBlock2 × NetBuffer × Bool) := do
  let (p, readPos, r) ← RedisParse.Checked.parse k.parse buf.unread 0
  let (buf, _) ← readData buf readPos
  let buf := buf.clearReadBuffer
  let state := if p.isDone then BlockState.done else BlockState.body
  .ok ({ k with parse := p, state := state }, buf, r)

/-- The bytes up to the read position are there. -/
theorem passes_recv {k : RedisBlock2} (hk : cloneClass.Used k) {buf : NetBuffer}
    (hbuf : buf.Valid) :
    Passes Stop.thrown (recv k buf) (k.recv buf) fun _ => True := by
  unfold recv RedisBlock2.recv
  apply Passes.bind (RedisParse.Checked.passes_parse (reachable_of_used hk).part (Nat.zero_le _))
  intro x hx
  have hle : x.2.1 ≤ buf.needReadLength := by
    rw [hbuf.needReadLength_eq]
    exact hx.inside
  dsimp only
  rw [readData_eq hle, ok_bind]
  exact .ok trivial

end Checked

end RedisBlock2

end

/-! ## `RedisBlock` -/

namespace RedisBlock

/-- What is kept of a body is no longer than the body. -/
def Part (k : RedisBlock) : Prop :=
  k.type = .bulkReply → k.temp.length ≤ k.bufSize ∧ k.bufSize < 18446744073709551616

theorem part_of_type {k : RedisBlock} (htype : k.type ≠ .bulkReply) : k.Part :=
  fun h => absurd h htype

section
variable [LexicalCast]

/-- The result is laid out beside what is kept. -/
theorem Part.makes {k k' : RedisBlock} (h : k.Part) (hmakes : Makes k k') : k'.Part := by
  rcases hmakes with ⟨d, rfl, -, -⟩
  exact h

/-- A body is kept in part, or taken as a whole. -/
theorem recvBulk_part {k : RedisBlock} (h : k.Part) (htype : k.type = .bulkReply)
    {buf : NetBuffer} (hbuf : buf.Valid) : OnOk (fun k' _ => k'.Part) (k.recvBulk buf) := by
  rcases h htype with ⟨htemp, hlen⟩
  rcases k.readLen_spec hbuf htemp hlen with ⟨buf', -, hread⟩
  unfold recvBulk
  by_cases hfit : k.bufSize ≤ (k.temp ++ buf.unread).length
  · rw [if_pos hfit] at hread
    rw [hread.1]
    apply onOk_bind
    intro body _
    apply onOk_make (f := id)
    intro k' hmakes
    refine Part.makes ?_ hmakes
    exact fun _ => ⟨Nat.zero_le _, hlen⟩
  · rw [if_neg hfit] at hread
    rw [hread.1]
    exact fun _ => ⟨(not_le.mp hfit).le, hlen⟩

theorem recvElements_part (fuel : Nat) {k : RedisBlock} (htype : k.type = .multiBulkReply)
    (buf : NetBuffer) : OnOk (fun k' _ => k'.Part) (recvElements fuel k buf) := by
  have hother : ∀ k' : RedisBlock, k'.type = .multiBulkReply → k'.Part := by
    intro k' htype'
    exact part_of_type (by simp [htype'])
  apply recvElements_loop (I := fun k => k.type = .multiBulkReply) (J := fun k _ => k.Part)
  · exact hother
  · intro k₁ k₂ out htype₁ hpass
    cases hpass with
    | wait hst => exact hother _ htype₁
    | more hv hsize => exact htype₁
    | last hv hsize hall hmakes =>
        refine Part.makes ?_ hmakes
        exact hother _ htype₁
  · exact htype

theorem recvBody_part {k : RedisBlock} (h : k.Part) {buf : NetBuffer} (hbuf : buf.Valid) :
    OnOk (fun k' _ => k'.Part) (k.recvBody buf) := by
  unfold recvBody
  split
  · rename_i htype
    exact recvBulk_part h htype hbuf
  · split
    · rename_i htype
      exact recvElements_part _ htype buf
    · exact h

/-- A new body is longer than nothing. -/
theorem recvType_part {k : RedisBlock} (htemp : k.temp = []) {buf : NetBuffer} (hbuf : buf.Valid)
    (str : Bytes) : OnOk (fun k' _ => k'.Part) (k.recvType buf str) := by
  have hmake : ∀ k₁ : RedisBlock, k₁.Part →
      OnOk (fun k' (_ : NetBuffer × Bool) => k'.Part)
        (k₁.makeRedisBuffer >>= fun k' => .ok (k', buf, true)) := by
    intro k₁ hk₁
    exact onOk_make (f := id) fun _ hmakes => hk₁.makes hmakes
  have hempty : ∀ {len : Nat}, k.temp.length ≤ len := by
    intro len
    rw [htemp]
    exact Nat.zero_le len
  unfold recvType
  cases getReplyType str with
  | noReply => exact hmake _ (part_of_type ReplyT.noConfusion)
  | statusCodeReply => exact onOk_bind fun v _ => hmake _ (part_of_type ReplyT.noConfusion)
  | errorReply => exact onOk_bind fun v _ => hmake _ (part_of_type ReplyT.noConfusion)
  | intReply => exact onOk_bind fun v _ => hmake _ (part_of_type ReplyT.noConfusion)
  | bulkReply =>
      refine onOk_bind fun v _ => onOk_bind fun n _ => ?_
      split
      · exact hmake _ fun _ => ⟨hempty, Nat.succ_pos _⟩
      · refine recvBody_part ?_ hbuf
        exact fun _ => ⟨hempty, toSize_lt _⟩
  | multiBulkReply =>
      refine onOk_bind fun v _ => onOk_bind fun n _ => ?_
      split
      · exact hmake _ (part_of_type ReplyT.noConfusion)
      · exact recvBody_part (part_of_type ReplyT.noConfusion) hbuf

/-- A call keeps no more of a body than the body, on a block that has its reply as well. -/
theorem recv_part {k : RedisBlock} (h : k.Part) {buf : NetBuffer} (hbuf : buf.Valid) :
    OnOk (fun k' _ => k'.Part) (k.recv buf) := by
  unfold recv
  split
  · rename_i htype
    rcases k.readline_spec hbuf with ⟨buf', hcomp, hline⟩
    cases hsplit : Lines.splitAfter LF buf.unread with
    | none =>
        simp only [hsplit] at hline
        rw [hline.1]
        exact part_of_type (k := { k with temp := k.temp ++ buf.unread }) (by simp [htype])
    | some lr =>
        rcases lr with ⟨l, r⟩
        simp only [hsplit] at hline
        rw [hline.1]
        exact recvType_part rfl hcomp.valid _
  · exact recvBody_part h hbuf

theorem part_of_used {k : RedisBlock} (h : cloneClass.Used k) : k.Part := by
  induction h with
  | make s size => exact part_of_type ReplyT.noConfusion
  | push _ bytes hpush ih =>
      rcases exists_of_push hpush with ⟨d, rfl⟩
      exact ih
  | clone _ s hclone ih =>
      -- a clone keeps nothing, and waits for a body of no bytes
      rcases Option.map_eq_some_iff.mp hclone with ⟨d, -, rfl⟩
      exact fun _ => ⟨le_rfl, Nat.succ_pos _⟩
  | recv _ hbuf hcall ih => exact (recv_part ih hbuf).of_ok hcall

end

end RedisBlock

namespace RedisBlock.Checked

def readLen (k : RedisBlock) (buf : NetBuffer) (len : Nat) :
    Except Stop (RedisBlock × NetBuffer × Option Bytes) := do
  let toRead := buf.needReadLength
  let need ← sub len k.temp.length
  let ok := decide (need ≤ toRead)
  let toRead := if ok then need else toRead
  let (buf, bytes) ← readData buf toRead
  let temp := k.temp ++ bytes
  let buf := buf.clearReadBuffer
  if ok then .ok ({ k with temp := [] }, buf, some temp)
  else .ok ({ k with temp := temp }, buf, none)

def readline (k : RedisBlock) (buf : NetBuffer) :
    Except Stop (RedisBlock × NetBuffer × Option Bytes) := do
  let eol := memchr buf.unread LF
  let toRead := match eol with
    | some eol => eol + 1
    | none => buf.needReadLength
  let (buf, bytes) ← readData buf toRead
  let temp := k.temp ++ bytes
  let buf := buf.clearReadBuffer
  if eol.isSome then .ok ({ k with temp := [] }, buf, some (rtrim temp))
  else .ok ({ k with temp := temp }, buf, none)

section
variable [LexicalCast]

def recvBulk (k : RedisBlock) (buf : NetBuffer) : Except Stop (RedisBlock × NetBuffer × Bool) := do
  match ← readLen k buf k.bufSize with
  | (k, buf, none) => .ok (k, buf, false)
  | (k, buf, some b) => do
      let b ← unchecked (erase b (sizeSub k.bufSize 2))
      let k := { k with
        recvSize := k.recvSize + b.length
        recvList := k.recvList ++ [b]
        state := .done }
      let k ← unchecked k.makeRedisBuffer
      .ok (k, buf, true)

def recvElement (k : RedisBlock) (buf : NetBuffer) :
    Except Stop (RedisBlock × NetBuffer × Option Bool) := do
  match ← readline k buf with
  | (k, buf, none) => .ok (k, buf, some false)
  | (k, buf, some lline) => do
      let k := { k with state := .body }
      let ssub ← unchecked (substr lline 1)
      let bufSize ← unchecked (lexicalCast ssub)
      if bufSize = -1 then
        let k := { k with
          bufSize := 0
          recvList := k.recvList ++ [REDIS_MISSING]
          recvSize := k.recvSize + REDIS_MISSING.length + sizeofInt }
        if k.recvList.length = k.mutSize then
          let k ← unchecked { k with state := .done }.makeRedisBuffer
          .ok (k, buf, some true)
        else .ok (k, buf, none)
      else do
        let k := { k with bufSize := toSize (toSize bufSize + 2) }
        match ← readLen k buf k.bufSize with
        | (k, buf, none) => .ok (k, buf, some false)
        | (k, buf, some bb) => do
            let bb ← unchecked (erase bb (sizeSub k.bufSize 2))
            let k := { k with
              recvSize := k.recvSize + sizeofInt + bb.length
              recvList := k.recvList ++ [bb] }
            if k.recvList.length = k.mutSize then
              let k ← unchecked k.makeRedisBuffer
              .ok ({ k with state := .done }, buf, some true)
            else .ok (k, buf, none)

def recvElements : Nat → RedisBlock → NetBuffer → Except Stop (RedisBlock × NetBuffer × Bool)
  | 0, k, buf => .ok (k, buf, false)
  | fuel + 1, k, buf => do
      let (k, buf, out) ← recvElement k buf
      match out with
      | some r => .ok (k, buf, r)
      | none => recvElements fuel k buf

def recvBody (k : RedisBlock) (buf : NetBuffer) : Except Stop (RedisBlock × NetBuffer × Bool) :=
  if k.type = .bulkReply then recvBulk k buf
  else if k.type = .multiBulkReply then recvElements (buf.needReadLength + 1) k buf
  else .ok (k, buf, false)

/-- The type switch.  Nothing more is read of a reply that is one line in any case. -/
def recvType (k : RedisBlock) (buf : NetBuffer) (str : Bytes) :
    Except Stop (RedisBlock × NetBuffer × Bool) :=
  match getReplyType str with
  | .bulkReply => do
      let text ← unchecked (substr str 1)
      let bufSize ← unchecked (lexicalCast text)
      if bufSize = -1 then
        let k ← unchecked { k with
          type := .bulkReply
          bufSize := 0
          recvList := k.recvList ++ [REDIS_MISSING]
          recvSize := sizeofInt + REDIS_MISSING.length
          state := .done }.makeRedisBuffer
        .ok (k, buf, true)
      else
        recvBody { k with
          type := .bulkReply
          bufSize := toSize (intAdd bufSize 2)
          recvSize := sizeofInt
          state := .body } buf
  | .multiBulkReply => do
      let text ← unchecked (substr str 1)
      let muSize ← unchecked (lexicalCast text)
      if muSize = -1 then
        let k ← unchecked { k with
          type := .multiBulkReply
          mutSize := 0
          recvSize := sizeofInt + sizeofInt
          state := .done }.makeRedisBuffer
        .ok (k, buf, true)
      else
        recvBody { k with
          type := .multiBulkReply
          mutSize := toSize muSize
          recvSize := sizeofInt + sizeofInt
          state := .body } buf
  | _ => unchecked (k.recvType buf str)

def recv (k : RedisBlock) (buf : NetBuffer) : Except Stop (RedisBlock × NetBuffer × Bool) :=
  if k.type = .noReply then do
    match ← readline k buf with
    | (k, buf, none) => .ok (k, buf, false)
    | (k, buf, some str) => recvType k buf str
  else recvBody k buf

omit [LexicalCast] in
/-- The part that is kept is no longer than what is asked for. -/
theorem readLen_eq {k : RedisBlock} {len : Nat} (htemp : k.temp.length ≤ len)
    (hlen : len < 18446744073709551616) (buf : NetBuffer) :
    readLen k buf len = .ok (k.readLen buf len) := by
  unfold readLen RedisBlock.readLen
  rw [sub_eq htemp, ok_bind, sizeSub_of_le htemp hlen]
  by_cases hfit : len - k.temp.length ≤ buf.needReadLength
  · simp only [decide_eq_true hfit, if_true]
    rw [readData_eq hfit, ok_bind, NetBuffer.readData_of_le hfit]
    rfl
  · simp only [decide_eq_false hfit, Bool.false_eq_true, if_false]
    rw [readData_eq le_rfl, ok_bind, NetBuffer.readData_of_le le_rfl]
    rfl

omit [LexicalCast] in
theorem readline_eq (k : RedisBlock) {buf : NetBuffer} (hbuf : buf.Valid) :
    readline k buf = .ok (k.readline buf) := by
  unfold readline RedisBlock.readline
  cases hscan : memchr buf.unread LF with
  | none =>
      dsimp only
      rw [readData_eq le_rfl, ok_bind, NetBuffer.readData_of_le le_rfl]
      rfl
  | some eol =>
      have hneed : eol + 1 ≤ buf.needReadLength := by
        rw [hbuf.needReadLength_eq]
        exact memchr_lt hscan
      dsimp only
      rw [readData_eq hneed, ok_bind, NetBuffer.readData_of_le hneed]
      rfl

theorem passes_recvBulk {k : RedisBlock} (htemp : k.temp.length ≤ k.bufSize)
    (hlen : k.bufSize < 18446744073709551616) (buf : NetBuffer) :
    Passes Stop.thrown (recvBulk k buf) (k.recvBulk buf) fun _ => True := by
  unfold recvBulk RedisBlock.recvBulk
  rw [readLen_eq htemp hlen, ok_bind]
  rcases k.readLen buf k.bufSize with ⟨k', buf', _ | b⟩
  · exact .ok trivial
  · apply Passes.step
    intro body
    apply Passes.step
    intro k₂
    exact .ok trivial

/-- Behind a line nothing is kept. -/
theorem passes_recvElement (k : RedisBlock) {buf : NetBuffer} (hbuf : buf.Valid) :
    Passes Stop.thrown (recvElement k buf) (k.recvElement buf) fun x => x.2.1.Valid := by
  refine ⟨?_, fun x hx => (recvElement_takes hbuf hx).1.valid⟩
  have hpasses : Passes Stop.thrown (recvElement k buf) (k.recvElement buf) fun _ => True := by
    unfold recvElement RedisBlock.recvElement
    rw [readline_eq k hbuf, ok_bind]
    rcases k.readline_spec hbuf with ⟨buf₁, hcomp, hline⟩
    cases hsplit : Lines.splitAfter LF buf.unread with
    | none =>
        simp only [hsplit] at hline
        rw [hline.1]
        exact .ok trivial
    | some lr =>
        rcases lr with ⟨l, r⟩
        simp only [hsplit] at hline
        rw [hline.1]
        apply Passes.step
        intro ssub
        apply Passes.step
        intro n
        by_cases hnil : n = -1
        · simp only [if_pos hnil]
          split
          · apply Passes.step
            intro k₂
            exact .ok trivial
          · exact .ok trivial
        · simp only [if_neg hnil]
          rw [readLen_eq (k := { k with
            temp := [], state := .body, bufSize := toSize (toSize n + 2) })
            (Nat.zero_le _) (toSize_lt _), ok_bind]
          rcases RedisBlock.readLen _ buf₁ _ with ⟨k₂, buf₂, _ | bb⟩
          · exact .ok trivial
          · apply Passes.step
            intro body
            split
            · apply Passes.step
              intro k₃
              exact .ok trivial
            · exact .ok trivial
  exact hpasses.eq

theorem passes_recvElements (fuel : Nat) (k : RedisBlock) {buf : NetBuffer} (hbuf : buf.Valid) :
    Passes Stop.thrown (recvElements fuel k buf) (RedisBlock.recvElements fuel k buf)
      fun _ => True := by
  induction fuel generalizing k buf with
  | zero => exact .ok trivial
  | succ fuel ih =>
      apply Passes.bind (passes_recvElement k hbuf)
      intro x hx
      rcases x with ⟨k', buf', _ | r⟩
      · exact ih k' hx
      · exact .ok trivial

/-- On the way into a body. -/
theorem passes_recvBody {k : RedisBlock} (hk : k.Part) {buf : NetBuffer} (hbuf : buf.Valid) :
    Passes Stop.thrown (recvBody k buf) (k.recvBody buf) fun _ => True := by
  unfold recvBody RedisBlock.recvBody
  by_cases htype : k.type = .bulkReply
  · rw [if_pos htype, if_pos htype]
    exact passes_recvBulk (hk htype).1 (hk htype).2 buf
  · rw [if_neg htype, if_neg htype]
    by_cases hmulti : k.type = .multiBulkReply
    · rw [if_pos hmulti, if_pos hmulti]
      exact passes_recvElements _ k hbuf
    · rw [if_neg hmulti, if_neg hmulti]
      exact .ok trivial

theorem passes_recvType {k : RedisBlock} (htemp : k.temp = []) {buf : NetBuffer}
    (hbuf : buf.Valid) (str : Bytes) :
    Passes Stop.thrown (recvType k buf str) (k.recvType buf str) fun _ => True := by
  have hline : Passes Stop.thrown (unchecked (k.recvType buf str)) (k.recvType buf str)
      fun _ => True := Passes.lifted fun _ _ => trivial
  have hempty : k.temp.length = 0 := by rw [htemp, List.length_nil]
  unfold recvType
  cases htype : getReplyType str with
  | noReply => exact hline
  | statusCodeReply => exact hline
  | errorReply => exact hline
  | intReply => exact hline
  | bulkReply =>
      unfold RedisBlock.recvType
      simp only [htype]
      apply Passes.step
      intro text
      apply Passes.step
      intro bufSize
      by_cases hnil : bufSize = -1
      · rw [if_pos hnil, if_pos hnil]
        apply Passes.step
        intro k'
        exact .ok trivial
      · rw [if_neg hnil, if_neg hnil]
        apply passes_recvBody
        · intro _
          exact ⟨hempty.le.trans (Nat.zero_le _), toSize_lt _⟩
        · exact hbuf
  | multiBulkReply =>
      unfold RedisBlock.recvType
      simp only [htype]
      apply Passes.step
      intro text
      apply Passes.step
      intro muSize
      by_cases hnil : muSize = -1
      · rw [if_pos hnil, if_pos hnil]
        apply Passes.step
        intro k'
        exact .ok trivial
      · rw [if_neg hnil, if_neg hnil]
        apply passes_recvBody
        · intro hbulk
          cases hbulk
        · exact hbuf

/-- The part that is kept fits the body that is read next. -/
theorem passes_recv {k : RedisBlock} (hk : k.Part) {buf : NetBuffer} (hbuf : buf.Valid) :
    Passes Stop.thrown (recv k buf) (k.recv buf) fun _ => True := by
  unfold recv RedisBlock.recv
  by_cases htype : k.type = .noReply
  · rw [if_pos htype, if_pos htype, readline_eq k hbuf, ok_bind]
    rcases k.readline_spec hbuf with ⟨buf', hcomp, hline⟩
    cases hsplit : Lines.splitAfter LF buf.unread with
    | none =>
        simp only [hsplit] at hline
        rw [hline.1]
        exact .ok trivial
    | some lr =>
        rcases lr with ⟨l, r⟩
        simp only [hsplit] at hline
        rw [hline.1]
        exact passes_recvType rfl hcomp.valid _
  · rw [if_neg htype, if_neg htype]
    exact passes_recvBody hk hbuf

end

end RedisBlock.Checked

/-! ## All readers -/

/-- In every state that calls lead to, the incremental readers pass their checks; between two
calls a parser keeps less than the body it waits for. -/
theorem readers_stay_in_bounds [LexicalCast] :
    (∀ p : RedisParse, p.Reachable →
      (p.temp ≠ [] → p.temp.length < p.tempMaxLen) ∧
        ∀ buf : Bytes, buf ≠ [] →
          RedisParse.Checked.parse p buf 0 = unchecked (p.parse buf 0) ∧
            ∀ p' pos r, p.parse buf 0 = .ok (p', pos, r) → pos ≤ buf.length) ∧
    (∀ (k : RedisBlock2) (buf : NetBuffer), RedisBlock2.cloneClass.Used k → buf.Valid →
      k.parse.Reachable ∧ RedisBlock2.Checked.recv k buf = unchecked (k.recv buf)) ∧
    ∀ (k : RedisBlock) (buf : NetBuffer), RedisBlock.cloneClass.Used k → buf.Valid →
      (k.type = .bulkReply → k.temp.length ≤ k.bufSize) ∧
        RedisBlock.Checked.recv k buf = unchecked (k.recv buf) := by
  refine ⟨?_, ?_, ?_⟩
  · intro p hp
    constructor
    · exact hp.part.short
    · intro buf _
      have hpasses := RedisParse.Checked.passes_parse hp.part (Nat.zero_le buf.length)
      exact ⟨hpasses.eq, fun p' pos r hcall => (hpasses.post _ hcall).inside⟩
  · intro k buf hk hbuf
    exact ⟨RedisBlock2.reachable_of_used hk, (RedisBlock2.Checked.passes_recv hk hbuf).eq⟩
  · intro k buf hk hbuf
    have hpart := RedisBlock.part_of_used hk
    exact ⟨fun htype => (hpart htype).1, (RedisBlock.Checked.passes_recv hpart hbuf).eq⟩

/-- A body that is half there, and a block that is given a second reply. -/
theorem readers_stay_in_bounds_half :
    (∃ p : RedisParse, p.Reachable ∧ p.temp = text "ab" ∧ p.tempMaxLen = 7 ∧
      RedisParse.Checked.parse p (text "cde\r\n") 0 = unchecked (p.parse (text "cde\r\n") 0)) ∧
    ∃ k : RedisBlock, k.bodyDone = true ∧
      RedisBlock.Checked.recv k ((NetBuffer.create 8).writeBytes (text "$1\r\nb\r\n")) =
        unchecked (k.recv ((NetBuffer.create 8).writeBytes (text "$1\r\nb\r\n"))) := by
  have hvalid : ∀ bytes : Bytes, ((NetBuffer.create 8).writeBytes bytes).Valid :=
    NetBuffer.valid_writeBytes (NetBuffer.valid_create 8)
  constructor
  · have hcall : ({} : RedisParse).parse (text "$5\r\nab") 0 =
        .ok ({ type := .bulkReply, tempMaxLen := 7, temp := text "ab" }, 6, false) := by
      decide +kernel
    have hp := RedisParse.Reachable.parse .fresh (by decide) hcall
    exact ⟨_, hp, rfl, rfl, ((readers_stay_in_bounds.1 _ hp).2 _ (by decide)).1⟩
  · have hrun : ((RedisBlock.create 9 0).recv
        ((NetBuffer.create 8).writeBytes (text "$1\r\na\r\n"))).toOption.any
          (fun x => x.1.bodyDone) = true := by decide +kernel
    rcases exists_ok_of_any hrun with ⟨⟨k, buf, r⟩, hcall, hdone⟩
    have hused : RedisBlock.cloneClass.Used k :=
      .recv (.make 9 0) (hvalid (text "$1\r\na\r\n")) hcall
    exact ⟨k, hdone, (readers_stay_in_bounds.2.2 k _ hused (hvalid _)).2⟩

end FannyNet

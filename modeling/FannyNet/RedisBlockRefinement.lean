import FannyNet.RedisBlock
import FannyNet.RedisParserRefinement

/-!
# `RedisBlock` refines the reply reader

`RedisBlock` takes every byte out of the receive buffer it cannot use yet, so
the bytes held by its reader are `temp` and the buffer is empty between calls.

Main results:

- Definition `RedisBlock.reader`: the reader a block stands for.
- Theorem `RedisBlock.recv_refines`: a `recv` of `RedisBlock` is one feeding step
  of the reader.
-/

namespace FannyNet

open Library

namespace RedisBlock

/-- The conversions of an element length in `RedisBlock`: `m_bufSize += 2` is a
`size_t` sum. -/
theorem elementLen_exact {n : Int} (h0 : 0 ≤ n) (h : n ≤ INT_MAX) :
    toSize (toSize n + 2) = n.toNat + 2 := by
  simp only [INT_MAX] at h
  rw [toSize_of_nonneg h0 (by omega), toSize_of_nonneg (by omega) (by omega)]
  omega

/-- The reader configuration of `RedisBlock`. -/
def readerConfig : ReaderConfig where
  missing := REDIS_MISSING
  elementLen n := toSize (toSize n + 2)
  maxElement := INT_MAX
  eager := true
  castsInteger := true
  missing_last := ⟨text "**nonexistent-key*", by decide⟩
  missing_LF := by decide
  maxElement_le := le_rfl
  elementLen_exact _ h0 h := elementLen_exact h0 h
  elementLen_large n hlo h := by omega
  elementLen_tail n m k h0 h hlen _ := by
    have hexact := elementLen_exact h0 h
    omega

/-- The phase a block is in. -/
def phase (k : RedisBlock) : Phase :=
  if k.bodyDone then .done k.type
  else
    match k.type with
    | .bulkReply => .body k.bufSize
    | .multiBulkReply => .elements k.mutSize
    | _ => .start

/-- The reader a block stands for, with the bytes `u` left in the buffer. -/
def reader (k : RedisBlock) (u : Bytes) : Reader :=
  ⟨k.phase, k.temp ++ u, k.recvList⟩

/-- A block between two calls. -/
inductive Waits (k : RedisBlock) : Prop where
  | done (hdone : k.bodyDone = true) (htemp : k.temp = [])
  | line (hdone : k.bodyDone = false) (htype : k.type = .noReply) (hlist : k.recvList = [])
  | body (hdone : k.bodyDone = false) (htype : k.type = .bulkReply) (hlist : k.recvList = [])
      (htemp : k.temp.length ≤ k.bufSize) (hlen : k.bufSize < 18446744073709551616)
  | elements (hdone : k.bodyDone = false) (htype : k.type = .multiBulkReply)

theorem waits_create (s : SessionId) (size : Nat) : (create s size).Waits :=
  .line rfl rfl rfl

theorem reader_create (s : SessionId) (size : Nat) : (create s size).reader [] = Reader.fresh :=
  rfl

theorem isDone_reader (k : RedisBlock) (u : Bytes) : (k.reader u).isDone = k.bodyDone := by
  unfold reader phase Reader.isDone
  cases hdone : k.bodyDone with
  | true => simp
  | false => cases k.type <;> simp

/-- The reader of a block that is done holds what is left in the buffer. -/
theorem reader_of_done {k : RedisBlock} (hwaits : k.Waits) (hdone : k.bodyDone = true)
    (u : Bytes) : k.reader u = ⟨.done k.type, u, k.recvList⟩ := by
  cases hwaits with
  | done _ htemp => simp [reader, phase, hdone, htemp]
  | line hopen => simp [hopen] at hdone
  | body hopen => simp [hopen] at hdone
  | elements hopen => simp [hopen] at hdone

/-! ## Bodies -/

/-- `readLen` followed by `erase` is the reader's `takeBody`. -/
theorem readLen_refines (k : RedisBlock) {buf : NetBuffer} (hbuf : buf.Valid) {len : Nat}
    (htemp : k.temp.length ≤ len) (hlen : len < 18446744073709551616) :
    ∃ buf', buf.Compacted buf' ∧
      ((k.readLen buf len = ({ k with temp := k.temp ++ buf.unread }, buf', none) ∧
          takeBody readerConfig len k.temp buf.unread = .ok none ∧ buf'.unread = [] ∧
          (k.temp ++ buf.unread).length ≤ len) ∨
        ∃ content, k.readLen buf len = ({ k with temp := [] }, buf', some content) ∧
          match erase content (sizeSub len 2) with
          | .error e => takeBody readerConfig len k.temp buf.unread = .error e
          | .ok body =>
              takeBody readerConfig len k.temp buf.unread = .ok (some (body, buf'.unread))) := by
  rcases k.readLen_spec hbuf htemp hlen with ⟨buf', hcomp, hspec⟩
  refine ⟨buf', hcomp, ?_⟩
  by_cases hfit : len ≤ (k.temp ++ buf.unread).length
  · rw [if_pos hfit] at hspec
    rcases hspec with ⟨hcall, hrest⟩
    right
    refine ⟨_, hcall, ?_⟩
    have hcontent : ((k.temp ++ buf.unread).take len).length = len := by
      rw [List.length_take]
      omega
    have hgo : ¬ ((k.temp ++ buf.unread).length < len ∨
        (buf.unread = [] ∧ readerConfig.eager = false)) := by
      rintro (h | ⟨-, h⟩)
      · omega
      · cases h
    rw [erase_body hcontent hlen]
    unfold takeBody
    rw [if_neg hgo]
    by_cases hsmall : len < 2
    · simp only [if_pos hsmall]
    · simp only [if_neg hsmall]
      rw [List.take_take, Nat.min_eq_left (by omega), hrest]
  · rw [if_neg hfit] at hspec
    left
    refine ⟨hspec.1, ?_, hspec.2, by omega⟩
    unfold takeBody
    rw [if_pos (Or.inl (by omega))]

section
variable [LexicalCast]

/-! ## Elements -/

/-- A pass that ends the call has either completed the reply or used up the
buffer, and a pass that goes on has collected one more value. -/
theorem recvElement_refines (k : RedisBlock) {buf : NetBuffer} (hbuf : buf.Valid)
    (htype : k.type = .multiBulkReply) (hdone : k.bodyDone = false) :
    match k.recvElement buf with
    | .error e => takeElement readerConfig k.temp buf.unread = .error e
    | .ok (k', buf', some false) =>
        takeElement readerConfig k.temp buf.unread = .ok (.inl k'.temp) ∧ buf'.unread = [] ∧
          buf.Compacted buf' ∧ k'.type = .multiBulkReply ∧ k'.mutSize = k.mutSize ∧
          k'.bodyDone = false ∧ k'.recvList = k.recvList
    | .ok (k', buf', out) =>
        ∃ v, takeElement readerConfig k.temp buf.unread = .ok (.inr (v, buf'.unread)) ∧
          buf.Compacted buf' ∧ k'.type = .multiBulkReply ∧ k'.mutSize = k.mutSize ∧
          k'.recvList = k.recvList ++ [v] ∧ k'.temp = [] ∧
          (out = some true ∧ k'.bodyDone = true ∧ (k.recvList ++ [v]).length = k.mutSize ∨
            out = none ∧ k'.bodyDone = false ∧ (k.recvList ++ [v]).length ≠ k.mutSize) := by
  unfold recvElement takeElement
  rcases k.readline_spec hbuf with ⟨buf₁, hcomp₁, hline⟩
  cases hsplit : Lines.splitAfter LF buf.unread with
  | none =>
      rw [hsplit] at hline
      rw [hline.1]
      exact ⟨rfl, hline.2, hcomp₁, htype, rfl, hdone, rfl⟩
  | some lr =>
      rcases lr with ⟨l, r⟩
      rw [hsplit] at hline
      rcases hline with ⟨hcall, rfl⟩
      simp only [hcall, elementNumber]
      cases hsub : substr (rtrim (k.temp ++ l)) 1 with
      | error e => simp [bind, Except.bind]
      | ok ssub =>
          cases hcast : lexicalCast ssub with
          | error e => simp [hcast, bind, Except.bind]
          | ok n =>
              simp only [hcast, bind, Except.bind]
              by_cases hnil : n = -1
              · simp only [if_pos hnil]
                by_cases hcount : (k.recvList ++ [REDIS_MISSING]).length = k.mutSize
                · simp only [if_pos hcount]
                  rcases makeRedisBuffer_ok
                    (k := { k with
                      temp := []
                      state := .done
                      bufSize := 0
                      recvList := k.recvList ++ [REDIS_MISSING]
                      recvSize := k.recvSize + REDIS_MISSING.length + sizeofInt })
                    (by simp [htype]) (Or.inl htype) with ⟨k', hmake, hlaid⟩
                  simp only [hmake]
                  refine ⟨REDIS_MISSING, rfl, hcomp₁, hlaid.type.trans htype, hlaid.mutSize,
                    hlaid.recvList, hlaid.temp, Or.inl ⟨trivial, ?_, hcount⟩⟩
                  simp [NetBlockBase.bodyDone, hlaid.state]
                · simp only [if_neg hcount]
                  exact ⟨REDIS_MISSING, rfl, hcomp₁, htype, trivial, rfl, trivial,
                    Or.inr ⟨trivial, rfl, hcount⟩⟩
              · simp only [if_neg hnil]
                have hlen : readerConfig.elementLen n = toSize (toSize n + 2) := rfl
                rw [hlen]
                rcases readLen_refines
                  { k with temp := [], state := .body, bufSize := toSize (toSize n + 2) }
                  hcomp₁.valid (Nat.zero_le _) (toSize_lt _) with ⟨buf₂, hcomp₂, hread⟩
                rcases hread with ⟨hcall₂, htake, hrest, -⟩ | ⟨content, hcall₂, herase⟩
                · rw [List.nil_append] at hcall₂
                  rw [hcall₂, htake]
                  exact ⟨rfl, hrest, hcomp₁.trans hcomp₂, htype, rfl, rfl, rfl⟩
                · rw [hcall₂]
                  simp only
                  cases hcut : erase content (sizeSub (toSize (toSize n + 2)) 2) with
                  | error e =>
                      simp only [hcut] at herase
                      simp only [herase]
                  | ok body =>
                      simp only [hcut] at herase
                      simp only [herase]
                      by_cases hcount : (k.recvList ++ [body]).length = k.mutSize
                      · simp only [if_pos hcount]
                        rcases makeRedisBuffer_ok
                          (k := { k with
                            temp := []
                            state := .body
                            bufSize := toSize (toSize n + 2)
                            recvList := k.recvList ++ [body]
                            recvSize := k.recvSize + sizeofInt + body.length })
                          (by simp [htype]) (Or.inl htype) with ⟨k', hmake, hlaid⟩
                        simp only [hmake]
                        exact ⟨body, rfl, hcomp₁.trans hcomp₂, hlaid.type.trans htype,
                          hlaid.mutSize, hlaid.recvList, hlaid.temp, Or.inl ⟨trivial, rfl, hcount⟩⟩
                      · simp only [if_neg hcount]
                        exact ⟨body, rfl, hcomp₁.trans hcomp₂, htype, trivial, rfl, trivial,
                          Or.inr ⟨trivial, rfl, hcount⟩⟩

/-- What a call of `recv` or of one of its parts returns, in terms of the reader
outcome `out` it corresponds to. -/
def Returns (buf : NetBuffer) (out : Except Exn Reader)
    (res : Except Exn (RedisBlock × NetBuffer × Bool)) : Prop :=
  match res with
  | .error e => out = .error e
  | .ok (k', buf', _) =>
      out = .ok (k'.reader buf'.unread) ∧ buf.Compacted buf' ∧ k'.Waits ∧
        (k'.bodyDone = false → buf'.unread = [])

omit [LexicalCast] in
theorem Returns.of_compacted {buf buf₁ : NetBuffer} (h : buf.Compacted buf₁)
    {out : Except Exn Reader} {res : Except Exn (RedisBlock × NetBuffer × Bool)}
    (hret : Returns buf₁ out res) : Returns buf out res := by
  cases res with
  | error e => exact hret
  | ok x => exact ⟨hret.1, h.trans hret.2.1, hret.2.2⟩

/-- The element loop with enough fuel is the reader's. -/
theorem recvElements_refines (fuel : Nat) (k : RedisBlock) {buf : NetBuffer} (hbuf : buf.Valid)
    (hfuel : buf.unread.length < fuel) (htype : k.type = .multiBulkReply)
    (hdone : k.bodyDone = false) :
    Returns buf (elements readerConfig k.mutSize k.recvList k.temp buf.unread)
      (recvElements fuel k buf) := by
  induction fuel generalizing k buf with
  | zero => omega
  | succ fuel ih =>
      rw [elements_unfold]
      have helem := k.recvElement_refines hbuf htype hdone
      simp only [recvElements]
      split at helem
      · rename_i e hcall
        simp only [hcall, helem, bind, Except.bind]
        rfl
      · rename_i k' buf' hcall
        rcases helem with ⟨htake, hrest, hcomp, htype', hmut, hdone', hlist⟩
        simp only [hcall, htake, bind, Except.bind]
        refine ⟨?_, hcomp, .elements hdone' htype', fun _ => hrest⟩
        simp [reader, phase, hdone', htype', hmut, hlist, hrest]
      · rename_i k' buf' out hne hcall
        rcases helem with ⟨v, htake, hcomp, htype', hmut, hlist, htemp, hout⟩
        simp only [hcall, htake, bind, Except.bind]
        rcases hout with ⟨rfl, hdone', hcount⟩ | ⟨rfl, hdone', hcount⟩
        · rw [if_pos hcount]
          refine ⟨?_, hcomp, .done hdone' htemp, fun h => by simp [hdone'] at h⟩
          simp [reader, phase, hdone', htype', hlist, htemp]
        · rw [if_neg hcount, ← hlist, ← hmut, ← htemp]
          have hlt := takeElement_length_lt htake
          exact (ih k' hcomp.valid (by omega) htype' hdone').of_compacted hcomp

/-! ## Whole calls -/

/-- The part of `recv` for a single bulk body. -/
theorem recvBulk_refines (k : RedisBlock) {buf : NetBuffer} (hbuf : buf.Valid)
    (htype : k.type = .bulkReply) (hdone : k.bodyDone = false) (hlist : k.recvList = [])
    (htemp : k.temp.length ≤ k.bufSize) (hlen : k.bufSize < 18446744073709551616) :
    Returns buf (bulkBody readerConfig k.bufSize k.temp buf.unread) (k.recvBulk buf) := by
  unfold recvBulk bulkBody
  rcases k.readLen_refines hbuf htemp hlen with ⟨buf', hcomp, hread⟩
  rcases hread with ⟨hcall, htake, hrest, hle⟩ | ⟨content, hcall, herase⟩
  · simp only [hcall, htake, bind, Except.bind]
    refine ⟨?_, hcomp, .body hdone htype hlist hle hlen, fun _ => hrest⟩
    have hdone' : k.toNetBlockBase.bodyDone = false := hdone
    simp [reader, phase, hdone', htype, hrest, hlist]
  · simp only [hcall]
    cases hcut : erase content (sizeSub k.bufSize 2) with
    | error e =>
        simp only [hcut] at herase
        simp only [herase, bind, Except.bind]
        rfl
    | ok body =>
        simp only [hcut] at herase
        simp only [herase, bind, Except.bind]
        rcases makeRedisBuffer_ok
          (k := { k with
            temp := []
            recvSize := k.recvSize + body.length
            recvList := k.recvList ++ [body]
            state := .done })
          (by simp [htype]) (Or.inr rfl) with ⟨k', hmake, hlaid⟩
        simp only [hmake]
        have hdone' : k'.bodyDone = true := by simp [NetBlockBase.bodyDone, hlaid.state]
        refine ⟨?_, hcomp, .done hdone' hlaid.temp, fun h => by simp [hdone'] at h⟩
        simp [reader, phase, hdone', hlaid.type, htype, hlaid.recvList, hlist, hlaid.temp]

/-- A complete block whose result is laid out is a complete reader. -/
theorem returns_laidOut {k k' : RedisBlock} {buf : NetBuffer} (hbuf : buf.Valid)
    (hread : buf.readPos = 0) (htemp : k.temp = []) (hdone : k.state = .done)
    (hmake : k.makeRedisBuffer = .ok k') (hlaid : LaidOut k k') :
    Returns buf (.ok ⟨.done k.type, buf.unread, k.recvList⟩)
      (k.makeRedisBuffer.bind fun k' => .ok (k', buf, true)) := by
  have hdone' : k'.bodyDone = true := by simp [NetBlockBase.bodyDone, hlaid.state, hdone]
  rw [hmake]
  refine ⟨?_, ⟨hbuf, hread, rfl, rfl, le_rfl⟩, .done hdone' (hlaid.temp.trans htemp),
    fun h => by simp [hdone'] at h⟩
  simp [reader, phase, hdone', hlaid.type, hlaid.recvList, hlaid.temp, htemp]

/-- A one-line reply: the value is stored, the state set and the result laid out. -/
theorem returns_line {k : RedisBlock} {buf : NetBuffer} (hbuf : buf.Valid)
    (hread : buf.readPos = 0) {t : ReplyT} {items : List Bytes} (htemp : k.temp = [])
    (htype : k.type = t) (hlist : k.recvList = items) (hdone : k.state = .done)
    (hint : t ≠ .intReply) :
    Returns buf (.ok ⟨.done t, buf.unread, items⟩)
      (k.makeRedisBuffer.bind fun k' => .ok (k', buf, true)) := by
  subst htype hlist
  rcases makeRedisBuffer_ok hint (Or.inr hdone) with ⟨k', hmake, hlaid⟩
  exact returns_laidOut hbuf hread htemp hdone hmake hlaid

/-- The line that decides the type, and everything that follows it. -/
theorem recvType_refines (k : RedisBlock) {buf : NetBuffer} (hbuf : buf.Valid)
    (hread : buf.readPos = 0) (str : Bytes) (htemp : k.temp = []) (hlist : k.recvList = []) :
    Returns buf (startLine readerConfig str buf.unread) (k.recvType buf str) := by
  unfold recvType startLine
  cases hkind : getReplyType str with
  | noReply => refine returns_line hbuf hread ?_ ?_ ?_ ?_ ?_ <;> simp [htemp, hlist]
  | statusCodeReply =>
      cases hsub : substr str 1 with
      | error e => rfl
      | ok v =>
          simp only [ok_bind]
          refine returns_line hbuf hread ?_ ?_ ?_ ?_ ?_ <;> simp [htemp, hlist]
  | errorReply =>
      cases hsub : substr str 4 with
      | error e => rfl
      | ok v =>
          simp only [ok_bind]
          refine returns_line hbuf hread ?_ ?_ ?_ ?_ ?_ <;> simp [htemp, hlist]
  | intReply =>
      cases hsub : substr str 1 with
      | error e => rfl
      | ok v =>
          have hmake := makeRedisBuffer_int
            (k := { k with
              type := .intReply
              recvList := [v]
              state := .done
              recvSize := sizeofInt + sizeofInt }) rfl rfl
          simp only [hlist, List.nil_append, ok_bind, readerConfig, if_true]
          cases hcast : lexicalCast v with
          | error e =>
              simp only [List.headD_cons, hcast] at hmake
              rw [hmake]
              rfl
          | ok n =>
              simp only [List.headD_cons, hcast] at hmake
              rcases hmake with ⟨k', hmake, hlaid⟩
              exact returns_laidOut hbuf hread htemp rfl hmake hlaid
  | bulkReply =>
      cases hsub : substr str 1 with
      | error e => rfl
      | ok v =>
          cases hcast : lexicalCast v with
          | error e =>
              simp only [hcast, bind, Except.bind]
              rfl
          | ok n =>
              simp only [ok_bind, hcast]
              by_cases hnil : n = -1
              · simp only [if_pos hnil]
                refine returns_line hbuf hread ?_ ?_ ?_ ?_ ?_ <;> simp [htemp, hlist, readerConfig]
              · simp only [if_neg hnil]
                have hbulk := recvBulk_refines
                  { k with
                    type := .bulkReply
                    bufSize := toSize (intAdd n 2)
                    recvSize := sizeofInt
                    state := .body }
                  hbuf rfl rfl hlist (by simp [htemp]) (toSize_lt _)
                simpa only [htemp, recvBody, if_pos] using hbulk
  | multiBulkReply =>
      cases hsub : substr str 1 with
      | error e => rfl
      | ok v =>
          cases hcast : lexicalCast v with
          | error e =>
              simp only [hcast, bind, Except.bind]
              rfl
          | ok n =>
              simp only [ok_bind, hcast]
              by_cases hnil : n = -1
              · simp only [if_pos hnil]
                refine returns_line hbuf hread ?_ ?_ ?_ ?_ ?_ <;> simp [htemp, hlist]
              · simp only [if_neg hnil]
                have helems := recvElements_refines (buf.needReadLength + 1)
                  { k with
                    type := .multiBulkReply
                    mutSize := toSize n
                    recvSize := sizeofInt + sizeofInt
                    state := .body }
                  hbuf (by rw [hbuf.needReadLength_eq]; omega) rfl rfl
                simpa only [htemp, hlist, recvBody, reduceCtorEq, if_false, if_pos] using helems

/-- A `recv` is one feeding step of the reader. -/
theorem recv_refines {k : RedisBlock} (hwaits : k.Waits) (hdone : k.bodyDone = false)
    {buf : NetBuffer} (hbuf : buf.Valid) :
    Returns buf ((k.reader []).feed readerConfig buf.unread) (k.recv buf) := by
  rcases hwaits with ⟨hd, -⟩ | ⟨-, htype, hlist⟩ | ⟨-, htype, hlist, htemp, hlen⟩ | ⟨-, htype⟩
  · rw [hd] at hdone
    cases hdone
  · have hphase : k.phase = .start := by simp [phase, hdone, htype]
    unfold recv
    rw [if_pos htype]
    rcases k.readline_spec hbuf with ⟨buf', hcomp, hline⟩
    cases hsplit : Lines.splitAfter LF buf.unread with
    | none =>
        simp only [hsplit] at hline
        rw [hline.1]
        refine ⟨?_, hcomp, .line hdone htype hlist, fun _ => hline.2⟩
        have hdone' : k.toNetBlockBase.bodyDone = false := hdone
        simp [reader, Reader.feed, hsplit, hline.2, phase, hdone', htype]
    | some lr =>
        rcases lr with ⟨l, r⟩
        simp only [hsplit] at hline
        rcases hline with ⟨hcall, rfl⟩
        rw [hcall]
        have htyped := recvType_refines { k with temp := [] } hcomp.valid hcomp.readPos
          (rtrim (k.temp ++ l)) rfl hlist
        have hfeed : (k.reader []).feed readerConfig buf.unread =
            startLine readerConfig (rtrim (k.temp ++ l)) buf'.unread := by
          simp [reader, hphase, Reader.feed, hsplit]
        rw [hfeed]
        exact htyped.of_compacted hcomp
  · have hbulk := recvBulk_refines k hbuf htype hdone hlist htemp hlen
    simpa [recv, recvBody, reader, phase, Reader.feed, hdone, htype] using hbulk
  · have helems := recvElements_refines (buf.needReadLength + 1) k hbuf
      (by rw [hbuf.needReadLength_eq]; omega) htype hdone
    simpa [recv, recvBody, reader, phase, Reader.feed, hdone, htype] using helems

end

end RedisBlock

end FannyNet

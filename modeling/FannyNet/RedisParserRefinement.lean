import FannyNet.ReplyReader

/-!
# `RedisParse` refines the reply reader

Seen from outside, a `RedisParse` together with the bytes it leaves in the
receive buffer is a reader: the bytes held are the partial body in `temp`
followed by the bytes left in the buffer.

Main results:

- Definition `RedisParse.reader`: the reader a parser stands for.
- Definition `RedisParse.Waits`: what a parser that waits for input looks like.
- Theorem `RedisParse.parse_refines`: a parse call is one feeding step of the
  reader.
-/

namespace FannyNet

open Library

/-- Cutting the two terminator bytes off a body of the awaited length. -/
theorem erase_body {content : Bytes} {len : Nat} (hcontent : content.length = len)
    (hlen : len < 18446744073709551616) :
    erase content (sizeSub len 2) =
      if len < 2 then .error .outOfRange else .ok (content.take (len - 2)) := by
  by_cases hsmall : len < 2
  · have hwrap : content.length < sizeSub len 2 := by
      simp only [sizeSub, toSize, hcontent]
      omega
    rw [if_pos hsmall, erase, if_neg (by omega)]
  · rw [if_neg hsmall, sizeSub_of_le (by omega) hlen, erase, if_pos (by omega)]

namespace RedisParse

/-- The wrapped sum is more than any memory holds. -/
theorem bodyLen_large {n : Int} (hlo : INT_MAX - 2 < n) (h : n ≤ INT_MAX) :
    PTRDIFF_MAX < toSize (intAdd n 2) := by
  have hwrap := bodyLen_wrap hlo h
  simp only [INT_MAX] at hlo
  simp only [PTRDIFF_MAX]
  omega

theorem bodyLen_tail (n : Int) (m k : Nat) (h0 : 0 ≤ n) (h : n ≤ INT_MAX)
    (hlen : toSize (intAdd n 2) = m + 2) (htail : n = (m % 10 ^ k : Nat)) : n = m := by
  by_cases hfit : n ≤ INT_MAX - 2
  · rw [bodyLen_exact h0 hfit] at hlen
    omega
  · -- the wrapped sum has other low digits than the length it came from
    have hwrap := bodyLen_wrap (by omega) h
    simp only [INT_MAX] at hfit h
    exfalso
    by_cases hk : k < 10
    · have hpow : 10 ^ k ≤ 10 ^ 9 := Nat.pow_le_pow_right (by norm_num) (by omega)
      have hmod : m % 10 ^ k < 10 ^ k := Nat.mod_lt _ (by positivity)
      omega
    · have hdvd : 10 ^ 9 ∣ 10 ^ k := pow_dvd_pow 10 (by omega)
      have hmod : m % 10 ^ k % 10 ^ 9 = m % 10 ^ 9 := Nat.mod_mod_of_dvd m hdvd
      omega

theorem lf_notMem_missing : LF ∉ REDIS_MISSING := by
  decide

/-- The reader configuration of `RedisParse`. -/
def readerConfig : ReaderConfig where
  missing := REDIS_MISSING
  elementLen n := toSize (intAdd n 2)
  maxElement := INT_MAX - 2
  eager := false
  castsInteger := false
  missing_last := ⟨text "**missing-key*", by decide⟩
  missing_LF := lf_notMem_missing
  maxElement_le := by decide
  elementLen_exact _ h0 h := bodyLen_exact h0 h
  elementLen_large _ hlo h := bodyLen_large hlo h
  elementLen_tail := bodyLen_tail

/-- The phase a parser is in. -/
def phase (p : RedisParse) : Phase :=
  if p.done then .done p.type
  else
    match p.type with
    | .bulkReply => .body p.tempMaxLen
    | .multiBulkReply => .elements p.multiCount
    | _ => .start

/-- The reader a parser stands for, with the bytes `u` left in the buffer. -/
def reader (p : RedisParse) (u : Bytes) : Reader :=
  ⟨p.phase, p.temp ++ u, p.recvList⟩

/-- A parser between two calls, with the bytes `u` left in the buffer: what is left
is an unfinished line, and a single bulk body has been taken out of the buffer. -/
inductive Waits (p : RedisParse) (u : Bytes) : Prop where
  | done (hdone : p.done = true) (htemp : p.temp = [])
  | line (hdone : p.done = false) (htype : p.type = .noReply) (htemp : p.temp = [])
      (hlist : p.recvList = []) (hfree : LF ∉ u)
  | body (hdone : p.done = false) (htype : p.type = .bulkReply) (hlist : p.recvList = [])
      (hu : u = []) (htemp : p.temp.length ≤ p.tempMaxLen)
      (hlen : p.tempMaxLen < 18446744073709551616)
  | elements (hdone : p.done = false) (htype : p.type = .multiBulkReply) (hfree : LF ∉ u)

theorem waits_fresh : ({} : RedisParse).Waits [] :=
  .line rfl rfl rfl rfl (by simp)

theorem isDone_reader (p : RedisParse) (u : Bytes) : (p.reader u).isDone = p.done := by
  unfold reader phase Reader.isDone
  cases hdone : p.done with
  | true => simp
  | false => cases p.type <;> simp

/-- The reader of a parser that is done holds what is left in the buffer. -/
theorem reader_of_done {p : RedisParse} {u : Bytes} (hwaits : p.Waits u) (hdone : p.done = true) :
    p.reader u = ⟨.done p.type, u, p.recvList⟩ := by
  cases hwaits with
  | done _ htemp => simp [reader, phase, hdone, htemp]
  | line hopen => simp [hopen] at hdone
  | body hopen => simp [hopen] at hdone
  | elements hopen => simp [hopen] at hdone

/-- What is left in the buffer is an unfinished line, which may as well be read again. -/
theorem feed_unread [LexicalCast] {p : RedisParse} {u : Bytes} (hwaits : p.Waits u)
    (hopen : p.done = false) (c : Bytes) :
    (p.reader u).feed readerConfig c = (p.reader []).feed readerConfig (u ++ c) := by
  cases hwaits with
  | done hdone => simp [hdone] at hopen
  | line hdone htype htemp hlist hfree =>
      have hphase : p.phase = .start := by simp [phase, hdone, htype]
      have hheld : (⟨p.phase, p.temp ++ u, p.recvList⟩ : Reader).feed readerConfig c =
          (⟨p.phase, p.temp, p.recvList⟩ : Reader).feed readerConfig (u ++ c) :=
        Reader.feed_held hfree (Or.inl hphase) p.temp c p.recvList
      simpa [reader] using hheld
  | body hdone htype hlist hu => rw [hu, List.nil_append]
  | elements hdone htype hfree =>
      have hphase : p.phase = .elements p.multiCount := by simp [phase, hdone, htype]
      have hheld : (⟨p.phase, p.temp ++ u, p.recvList⟩ : Reader).feed readerConfig c =
          (⟨p.phase, p.temp, p.recvList⟩ : Reader).feed readerConfig (u ++ c) :=
        Reader.feed_held hfree (Or.inr ⟨_, hphase⟩) p.temp c p.recvList
      simpa [reader] using hheld

/-! ## Bodies -/

/-- `readLen` followed by `erase` is the reader's `takeBody`. -/
theorem readLen_refines (p : RedisParse) {buf : Bytes} {readPos len : Nat}
    (hpos : readPos ≤ buf.length) (htemp : p.temp.length ≤ len)
    (hlen : len < 18446744073709551616) :
    match p.readLen buf readPos len with
    | (p', readPos', none) =>
        takeBody readerConfig len p.temp (buf.drop readPos) = .ok none ∧
          buf.drop readPos' = [] ∧ readPos' ≤ buf.length ∧
          p' = { p with temp := p.temp ++ buf.drop readPos } ∧
          (p.temp ++ buf.drop readPos).length ≤ len
    | (p', readPos', some content) =>
        p' = { p with temp := [] } ∧ readPos ≤ readPos' ∧ readPos' ≤ buf.length ∧
          match erase content (sizeSub len 2) with
          | .error e => takeBody readerConfig len p.temp (buf.drop readPos) = .error e
          | .ok body =>
              takeBody readerConfig len p.temp (buf.drop readPos) =
                .ok (some (body, buf.drop readPos')) := by
  rw [readLen_spec p htemp hlen]
  by_cases hempty : buf.drop readPos = []
  · simp [hempty, takeBody, readerConfig, hpos, htemp]
  · rw [if_neg hempty]
    by_cases hfit : len ≤ p.temp.length + (buf.drop readPos).length
    · rw [if_pos hfit]
      have hnot : ¬ ((p.temp ++ buf.drop readPos).length < len ∨
          (buf.drop readPos = [] ∧ readerConfig.eager = false)) := by
        rw [not_or, List.length_append]
        exact ⟨by omega, fun h => hempty h.1⟩
      have hcontent : p.temp ++ (buf.drop readPos).take (len - p.temp.length) =
          (p.temp ++ buf.drop readPos).take len := by
        rw [List.take_append, List.take_of_length_le htemp]
      have hlength : ((p.temp ++ buf.drop readPos).take len).length = len := by
        rw [List.length_take, List.length_append]
        omega
      rw [List.length_drop] at hfit
      refine ⟨rfl, by omega, by omega, ?_⟩
      rw [hcontent, erase_body hlength hlen]
      unfold takeBody
      rw [if_neg hnot]
      by_cases hsmall : len < 2
      · simp only [if_pos hsmall]
      · simp only [if_neg hsmall]
        rw [List.take_take, Nat.min_eq_left (by omega), List.drop_append,
          List.drop_of_length_le htemp, List.nil_append, List.drop_drop]
    · rw [if_neg hfit]
      refine ⟨?_, by simp, le_rfl, rfl, ?_⟩
      · rw [takeBody, if_pos (Or.inl (by rw [List.length_append]; omega))]
      · rw [List.length_append]
        omega

/-! ## Lines -/

/-- What `readLine` does to the object and the position. -/
theorem readLine_cases (p : RedisParse) {buf : Bytes} {readPos : Nat}
    (hpos : readPos ≤ buf.length) :
    (Lines.splitAfter LF (buf.drop readPos) = none ∧
        p.readLine buf readPos = (p, readPos, none)) ∨
      ∃ l pos, Lines.splitAfter LF (buf.drop readPos) = some (l, buf.drop pos) ∧
        readPos < pos ∧ pos ≤ buf.length ∧
        p.readLine buf readPos = ({ p with temp := [] }, pos, some (rtrim (p.temp ++ l))) := by
  rw [readLine_spec p hpos]
  cases hsplit : Lines.splitAfter LF (buf.drop readPos) with
  | none => exact Or.inl ⟨rfl, rfl⟩
  | some lr =>
      rcases lr with ⟨l, r⟩
      have hlt := Lines.splitAfter_length_lt hsplit
      have happend := Lines.splitAfter_append hsplit
      have hdrop : buf.drop (buf.length - r.length) = r := by
        have hbuf : ∃ w, buf = w ++ r :=
          ⟨buf.take readPos ++ l, by rw [List.append_assoc, happend, List.take_append_drop]⟩
        rcases hbuf with ⟨w, rfl⟩
        rw [List.length_append, Nat.add_sub_cancel, List.drop_left]
      rw [List.length_drop] at hlt
      exact Or.inr ⟨l, buf.length - r.length, by rw [hdrop], by omega, by omega, rfl⟩

section
variable [LexicalCast]

/-! ## Elements -/

/-- The fields an element step leaves alone. -/
structure SameReply (p p' : RedisParse) : Prop where
  type : p'.type = p.type
  multiCount : p'.multiCount = p.multiCount
  done : p'.done = p.done

/-- One pass of the element loop is the reader's `takeElement`. -/
theorem parseElement_refines (p : RedisParse) {buf : Bytes} {readPos : Nat}
    (hpos : readPos ≤ buf.length) :
    match p.parseElement buf readPos with
    | .error e => takeElement readerConfig p.temp (buf.drop readPos) = .error e
    | .ok (p', pos, false) =>
        takeElement readerConfig p.temp (buf.drop readPos) =
            .ok (.inl (p'.temp ++ buf.drop pos)) ∧
          SameReply p p' ∧ p'.recvList = p.recvList ∧ pos ≤ buf.length ∧ LF ∉ buf.drop pos
    | .ok (p', pos, true) =>
        ∃ v, takeElement readerConfig p.temp (buf.drop readPos) = .ok (.inr (v, buf.drop pos)) ∧
          SameReply p p' ∧ p'.recvList = p.recvList ++ [v] ∧ p'.temp = [] ∧ readPos < pos ∧
          pos ≤ buf.length := by
  unfold parseElement takeElement
  rcases p.readLine_cases hpos with ⟨hsplit, hline⟩ | ⟨l, pos, hsplit, hlt, hle, hline⟩
  · rw [hline, hsplit]
    exact ⟨rfl, ⟨rfl, rfl, rfl⟩, rfl, hpos, Lines.splitAfter_eq_none_iff.mp hsplit⟩
  · rw [hline, hsplit]
    simp only [elementNumber]
    cases hsub : substr (rtrim (p.temp ++ l)) 1 with
    | error e => simp [bind, Except.bind]
    | ok ssub =>
        cases hcast : lexicalCast ssub with
        | error e => simp [hcast, bind, Except.bind]
        | ok n =>
            simp only [hcast, bind, Except.bind]
            by_cases hnil : n = -1
            · rw [if_pos hnil, if_pos hnil]
              exact ⟨REDIS_MISSING, rfl, ⟨rfl, rfl, rfl⟩, rfl, rfl, hlt, hle⟩
            · rw [if_neg hnil, if_neg hnil]
              have hlen : readerConfig.elementLen n = toSize (intAdd n 2) := rfl
              have hread := readLen_refines
                { p with temp := [], tempMaxLen := toSize (intAdd n 2) } hle (Nat.zero_le _)
                (toSize_lt (intAdd n 2))
              rw [hlen]
              generalize readLen _ _ _ _ = out at hread ⊢
              rcases out with ⟨p', pos', _ | content⟩
              · rcases hread with ⟨htake, hdrop, hpos', rfl, -⟩
                simp only [htake]
                refine ⟨by simp [hdrop], ⟨rfl, rfl, rfl⟩, trivial, hpos', by simp [hdrop]⟩
              · rcases hread with ⟨rfl, hge, hpos', herase⟩
                dsimp only at herase ⊢
                cases hcut : erase content (sizeSub (toSize (intAdd n 2)) 2) with
                | error e =>
                    simp only [hcut] at herase
                    simp only [herase]
                | ok body =>
                    simp only [hcut] at herase
                    simp only [herase]
                    exact ⟨body, rfl, ⟨rfl, rfl, rfl⟩, rfl, trivial, by omega, hpos'⟩

/-- The element loop with enough fuel is the reader's. -/
theorem parseElements_refines (fuel : Nat) (p : RedisParse) {buf : Bytes} {readPos : Nat}
    (hpos : readPos ≤ buf.length) (hfuel : buf.length - readPos < fuel) (hdone : p.done = false)
    (htype : p.type = .multiBulkReply) :
    match parseElements fuel p buf readPos with
    | .error e =>
        elements readerConfig p.multiCount p.recvList p.temp (buf.drop readPos) = .error e
    | .ok (p', pos, _) =>
        elements readerConfig p.multiCount p.recvList p.temp (buf.drop readPos) =
            .ok (p'.reader (buf.drop pos)) ∧
          pos ≤ buf.length ∧ p'.Waits (buf.drop pos) := by
  induction fuel generalizing p readPos with
  | zero => omega
  | succ fuel ih =>
      rw [elements_unfold]
      have helem := p.parseElement_refines hpos
      simp only [parseElements]
      split at helem
      · rename_i e hcall
        simp only [hcall, helem, bind, Except.bind]
      · rename_i p' pos hcall
        rcases helem with ⟨htake, hsame, hlist, hpos', hfree⟩
        simp only [hcall, htake, bind, Except.bind, Bool.not_false, if_true]
        have hdone' : p'.done = false := hsame.done.trans hdone
        have htype' : p'.type = .multiBulkReply := hsame.type.trans htype
        refine ⟨?_, hpos', .elements hdone' htype' hfree⟩
        simp [reader, phase, hdone', htype', hsame.multiCount, hlist]
      · rename_i p' pos hcall
        rcases helem with ⟨v, htake, hsame, hlist, htemp, hlt, hpos'⟩
        simp only [hcall, htake, bind, Except.bind, Bool.not_true, Bool.false_eq_true, if_false]
        rw [hsame.multiCount, hlist]
        by_cases hcount : (p.recvList ++ [v]).length = p.multiCount
        · rw [if_pos hcount, if_pos hcount.symm]
          refine ⟨?_, hpos', .done rfl htemp⟩
          simp [reader, phase, hsame.type, htype, htemp]
        · rw [if_neg hcount, if_neg (Ne.symm hcount)]
          have hrec := ih p' hpos' (by omega) (hsame.done.trans hdone) (hsame.type.trans htype)
          rw [hsame.multiCount, hlist, htemp] at hrec
          exact hrec

/-! ## Whole calls -/

/-- The part of `parse` that follows the type line. -/
theorem parseBule_refines (p : RedisParse) {buf : Bytes} {readPos : Nat}
    (hpos : readPos ≤ buf.length) (hdone : p.done = false) :
    (p.type = .bulkReply → p.recvList = [] → p.temp.length ≤ p.tempMaxLen →
      p.tempMaxLen < 18446744073709551616 →
      match p.parseBule buf readPos with
      | .error e => bulkBody readerConfig p.tempMaxLen p.temp (buf.drop readPos) = .error e
      | .ok (p', pos, _) =>
          bulkBody readerConfig p.tempMaxLen p.temp (buf.drop readPos) =
              .ok (p'.reader (buf.drop pos)) ∧
            pos ≤ buf.length ∧ p'.Waits (buf.drop pos)) ∧
    (p.type = .multiBulkReply →
      match p.parseBule buf readPos with
      | .error e =>
          elements readerConfig p.multiCount p.recvList p.temp (buf.drop readPos) = .error e
      | .ok (p', pos, _) =>
          elements readerConfig p.multiCount p.recvList p.temp (buf.drop readPos) =
              .ok (p'.reader (buf.drop pos)) ∧
            pos ≤ buf.length ∧ p'.Waits (buf.drop pos)) := by
  constructor
  · intro htype hlist htemp hlen
    have hread := p.readLen_refines hpos htemp hlen
    unfold parseBule bulkBody
    rw [if_pos htype]
    generalize p.readLen buf readPos p.tempMaxLen = out at hread ⊢
    rcases out with ⟨p', pos, _ | content⟩
    · rcases hread with ⟨htake, hdrop, hpos', rfl, hle⟩
      simp only [htake, bind, Except.bind]
      refine ⟨?_, hpos', .body hdone htype hlist hdrop hle hlen⟩
      simp [reader, phase, hdone, htype, hdrop, hlist]
    · rcases hread with ⟨rfl, hge, hpos', herase⟩
      dsimp only
      cases hcut : erase content (sizeSub p.tempMaxLen 2) with
      | error e =>
          simp only [hcut] at herase
          simp [herase, bind, Except.bind]
      | ok body =>
          simp only [hcut] at herase
          simp only [herase, bind, Except.bind]
          refine ⟨?_, hpos', .done rfl rfl⟩
          simp [reader, phase, htype, hlist]
  · intro htype
    unfold parseBule
    have hbulk : p.type ≠ .bulkReply := by simp [htype]
    rw [if_neg hbulk, if_pos htype]
    exact parseElements_refines _ p hpos (by omega) hdone htype

/-- The type line of a parser that has read nothing yet. -/
theorem parse_start_refines (p : RedisParse) (buf : Bytes) (hdone : p.done = false)
    (htype : p.type = .noReply) (htemp : p.temp = []) (hlist : p.recvList = []) :
    match p.parse buf 0 with
    | .error e => (p.reader []).feed readerConfig buf = .error e
    | .ok (p', pos, _) =>
        (p.reader []).feed readerConfig buf = .ok (p'.reader (buf.drop pos)) ∧
          pos ≤ buf.length ∧ p'.Waits (buf.drop pos) := by
  rcases p with ⟨type, multiCount, tempMaxLen, temp, recvList, done⟩
  simp only at hdone htype htemp hlist
  subst hdone htype htemp hlist
  have hreader : reader ⟨.noReply, multiCount, tempMaxLen, [], [], false⟩ [] = Reader.fresh := rfl
  simp only [hreader, Reader.fresh, Reader.feed, List.nil_append]
  unfold parse
  rw [if_neg (by simp)]
  by_cases hempty : buf.length = 0
  · have hnil : buf = [] := List.length_eq_zero_iff.mp hempty
    subst hnil
    simp only [List.length_nil, if_true, Lines.splitAfter_nil, List.drop_nil]
    exact ⟨rfl, le_rfl, .line rfl rfl rfl rfl (by simp)⟩
  · rw [if_neg hempty, if_pos rfl]
    unfold parseType
    rcases readLine_cases ⟨.noReply, multiCount, tempMaxLen, [], [], false⟩
      (Nat.zero_le buf.length) with ⟨hsplit, hline⟩ | ⟨l, pos, hsplit, -, hle, hline⟩
    · rw [List.drop_zero] at hsplit
      simp only [hline, hsplit, bind, Except.bind, Bool.not_false, if_true, List.drop_zero]
      exact ⟨rfl, Nat.zero_le _,
        .line rfl rfl rfl rfl (Lines.splitAfter_eq_none_iff.mp hsplit)⟩
    · rw [List.drop_zero] at hsplit
      rw [hline, hsplit]
      simp only [List.nil_append, startLine]
      cases hkind : getReplyType (rtrim l) with
      | noReply => simp [bind, Except.bind, reader, phase, hle, Waits.done]
      | statusCodeReply =>
          cases hsub : substr (rtrim l) 1 <;>
            simp [bind, Except.bind, reader, phase, hle, Waits.done]
      | errorReply =>
          cases hsub : substr (rtrim l) 4 <;>
            simp [bind, Except.bind, reader, phase, hle, Waits.done]
      | intReply =>
          cases hsub : substr (rtrim l) 1 <;>
            simp [bind, Except.bind, reader, phase, hle, Waits.done, readerConfig]
      | bulkReply =>
          cases hsub : substr (rtrim l) 1 with
          | error e => simp [bind, Except.bind]
          | ok v =>
              cases hcast : lexicalCast v with
              | error e => simp [hcast, bind, Except.bind]
              | ok n =>
                  by_cases hnil : n = -1
                  · simp [hcast, hnil, bind, Except.bind, reader, phase, hle, Waits.done,
                      readerConfig]
                  · have hbody := (parseBule_refines ⟨.bulkReply, multiCount,
                      toSize (intAdd n 2), [], [], false⟩ hle rfl).1 rfl rfl (Nat.zero_le _)
                      (toSize_lt _)
                    simp only [hcast, if_neg hnil, bind, Except.bind, Bool.not_true,
                      Bool.false_eq_true, if_false, Bool.not_false, if_true]
                    split at hbody <;> rename_i hcall <;> simp only [hcall] <;> exact hbody
      | multiBulkReply =>
          cases hsub : substr (rtrim l) 1 with
          | error e => simp [bind, Except.bind]
          | ok v =>
              cases hcast : lexicalCast v with
              | error e => simp [hcast, bind, Except.bind]
              | ok n =>
                  by_cases hnil : n = -1
                  · simp [hcast, hnil, bind, Except.bind, reader, phase, hle, Waits.done]
                  · have hbody := (parseBule_refines ⟨.multiBulkReply, toSize n, tempMaxLen, [],
                      [], false⟩ hle rfl).2 rfl
                    simp only [hcast, if_neg hnil, bind, Except.bind, Bool.not_true,
                      Bool.false_eq_true, if_false, Bool.not_false, if_true]
                    split at hbody <;> rename_i hcall <;> simp only [hcall] <;> exact hbody

/-- A parser that is past its type line goes straight to its body. -/
theorem parse_of_type_ne {p : RedisParse} (hdone : p.done = false) (htype : p.type ≠ .noReply)
    {buf : Bytes} (hbuf : buf ≠ []) (readPos : Nat) :
    p.parse buf readPos =
      (p.parseBule buf readPos).bind fun x => .ok (x.1, x.2.1, x.1.done) := by
  have hlen : buf.length ≠ 0 := by simpa using hbuf
  unfold parse
  rw [if_neg (by simp [hdone]), if_neg hlen, if_neg htype]
  simp only [bind, Except.bind, hdone, Bool.not_true, Bool.not_false, Bool.false_eq_true, if_false,
    if_true]

/-- A parse call on the bytes left over and one more piece is one feeding step of
the reader. -/
theorem parse_refines {p : RedisParse} {u : Bytes} (hwaits : p.Waits u) (hdone : p.done = false)
    (c : Bytes) :
    match p.parse (u ++ c) 0 with
    | .error e => (p.reader u).feed readerConfig c = .error e
    | .ok (p', pos, _) =>
        (p.reader u).feed readerConfig c = .ok (p'.reader ((u ++ c).drop pos)) ∧
          pos ≤ (u ++ c).length ∧ p'.Waits ((u ++ c).drop pos) := by
  rcases hwaits with ⟨hd, -⟩ | ⟨-, htype, htemp, hlist, hfree⟩ |
    ⟨-, htype, hlist, rfl, htemp, hlen⟩ | ⟨-, htype, hfree⟩
  · rw [hd] at hdone
    cases hdone
  · have hstart : p.phase = .start := by simp [phase, hdone, htype]
    have hread : (p.reader u).feed readerConfig c = (p.reader []).feed readerConfig (u ++ c) := by
      rw [reader, hstart, Reader.feed_held hfree (Or.inl rfl), reader, hstart, List.append_nil]
    rw [hread]
    exact parse_start_refines p (u ++ c) hdone htype htemp hlist
  · rw [List.nil_append]
    have hfeed : (p.reader []).feed readerConfig c =
        bulkBody readerConfig p.tempMaxLen p.temp c := by
      simp [reader, phase, Reader.feed, hdone, htype]
    rw [hfeed]
    by_cases hc : c = []
    · subst hc
      have hparse : p.parse [] 0 = .ok (p, 0, true) := by simp [parse, hdone]
      rw [hparse]
      refine ⟨?_, le_rfl, .body hdone htype hlist rfl htemp hlen⟩
      simp [bulkBody, takeBody, readerConfig, bind, Except.bind, reader, phase, hdone, htype, hlist]
    · rw [parse_of_type_ne hdone (by simp [htype]) hc]
      have hbody := (p.parseBule_refines (Nat.zero_le c.length) hdone).1 htype hlist htemp hlen
      rw [List.drop_zero] at hbody
      split at hbody <;> rename_i hcall <;> simp only [hcall, Except.bind] <;> exact hbody
  · have hphase : p.phase = .elements p.multiCount := by simp [phase, hdone, htype]
    have hread : (p.reader u).feed readerConfig c =
        elements readerConfig p.multiCount p.recvList p.temp (u ++ c) := by
      rw [reader, hphase, Reader.feed_held hfree (Or.inr ⟨p.multiCount, rfl⟩)]
      rfl
    rw [hread]
    by_cases hc : u ++ c = []
    · rw [hc]
      have hparse : p.parse [] 0 = .ok (p, 0, true) := by simp [parse, hdone]
      rw [hparse]
      refine ⟨?_, le_rfl, .elements hdone htype (by simp)⟩
      rw [elements_unfold]
      simp [takeElement, reader, hphase]
    · rw [parse_of_type_ne hdone (by simp [htype]) hc]
      have hbody := (p.parseBule_refines (Nat.zero_le (u ++ c).length) hdone).2 htype
      rw [List.drop_zero] at hbody
      split at hbody <;> rename_i hcall <;> simp only [hcall, Except.bind] <;> exact hbody

end

end RedisParse

end FannyNet

import FannyNet.Reply
import FannyNet.ReplyStream

/-!
# Malformed replies

Which bytes make the Redis classes throw.  Every exception comes from a line whose
text is not what the conversion behind it takes, or from a body too short for its
terminator; a stream without such lines never throws, however it is cut.

Main results:

- Definition `Reader.Readable`: the pieces a reader takes without an exception.
- Theorem `Reader.feed_ok_iff`: a feeding step throws on all others.
- Theorem `recv_throws_nothing_iff`: the runs of reads in which no `recv` throws.
-/

namespace FannyNet

open Library Library.Incremental

/-! ## Readable lines -/

/-- The text behind the first byte of a line is the `int` `n`. -/
def Numbered (line : Bytes) (n : Int) : Prop :=
  ∃ b txt, line = b :: txt ∧ Decimal.IsIntText txt n ∧ INT_MIN ≤ n ∧ n ≤ INT_MAX

/-- A body is long enough for its terminator, or is still awaited. -/
def BodyReadable (cfg : ReaderConfig) (len : Nat) (held u : Bytes) : Prop :=
  2 ≤ len ∨ (held ++ u).length < len ∨ (u = [] ∧ cfg.eager = false)

/-- The length lines of array elements, as far as they are complete, are readable, and
so are the bodies; `k` elements are there, `held` is the part of a length line that
came earlier. -/
inductive ElementsReadable (cfg : ReaderConfig) (count : Nat) : Nat → Bytes → Bytes → Prop where
  | line {k : Nat} {held u : Bytes} (h : LF ∉ u) : ElementsReadable cfg count k held u
  | nil {k : Nat} {held u l r : Bytes} (hsplit : Lines.splitAfter LF u = some (l, r))
      (hn : Numbered (rtrim (held ++ l)) (-1))
      (hnext : k + 1 ≠ count → ElementsReadable cfg count (k + 1) [] r) :
      ElementsReadable cfg count k held u
  | body {k : Nat} {held u l r : Bytes} {n : Int} (hsplit : Lines.splitAfter LF u = some (l, r))
      (hn : Numbered (rtrim (held ++ l)) n) (hne : n ≠ -1)
      (hbody : BodyReadable cfg (cfg.elementLen n) [] r)
      (hnext : cfg.elementLen n ≤ r.length → k + 1 ≠ count →
        ElementsReadable cfg count (k + 1) [] (r.drop (cfg.elementLen n))) :
      ElementsReadable cfg count k held u

/-- The first line of a reply is readable, with what follows it. -/
def StartReadable (cfg : ReaderConfig) (line u : Bytes) : Prop :=
  match getReplyType line with
  | .noReply => True
  | .statusCodeReply => True
  | .errorReply => 4 ≤ line.length
  | .intReply => cfg.castsInteger = true → ∃ n, Numbered line n
  | .bulkReply =>
      ∃ n, Numbered line n ∧ (n ≠ -1 → BodyReadable cfg (toSize (intAdd n 2)) [] u)
  | .multiBulkReply =>
      ∃ n, Numbered line n ∧ (n ≠ -1 → ElementsReadable cfg (toSize n) 0 [] u)

/-- The lines that one more piece completes are readable, up to the end of the reply. -/
def Reader.Readable (cfg : ReaderConfig) (a : Reader) (c : Bytes) : Prop :=
  match a.phase with
  | .start => ∀ l r, Lines.splitAfter LF c = some (l, r) → StartReadable cfg (rtrim (a.held ++ l)) r
  | .body len => BodyReadable cfg len a.held c
  | .elements count => ElementsReadable cfg count a.items.length a.held c
  | .done _ => True

section
variable {cfg : ReaderConfig} [LexicalCast]

/-! ## Exceptions -/

/-- The conversion behind the first byte of a line. -/
theorem elementNumber_eq_ok_iff {line : Bytes} {n : Int} :
    elementNumber line = .ok n ↔ Numbered line n := by
  unfold elementNumber Numbered
  cases line with
  | nil => simp
  | cons b txt =>
      simp only [substr_cons_one, ok_bind, lexicalCast_eq_ok_iff, List.cons.injEq]
      constructor
      · intro h
        exact ⟨b, txt, ⟨rfl, rfl⟩, h⟩
      · rintro ⟨b', txt', ⟨rfl, rfl⟩, h⟩
        exact h

omit [LexicalCast] in
theorem Numbered.text_eq {line : Bytes} {n : Int} (h : Numbered line n) :
    substr line 1 = .ok (line.drop 1) ∧ Decimal.IsIntText (line.drop 1) n ∧ INT_MIN ≤ n ∧
      n ≤ INT_MAX := by
  rcases h with ⟨b, txt, rfl, htext, hrange⟩
  exact ⟨by simp, by simpa using htext, hrange⟩

omit [LexicalCast] in
theorem takeBody_ok_iff {len : Nat} {held u : Bytes} :
    (∃ x, takeBody cfg len held u = .ok x) ↔ BodyReadable cfg len held u := by
  unfold takeBody BodyReadable
  by_cases hwait : (held ++ u).length < len ∨ (u = [] ∧ cfg.eager = false)
  · rw [if_pos hwait]
    exact ⟨fun _ => Or.inr hwait, fun _ => ⟨none, rfl⟩⟩
  · rw [if_neg hwait]
    by_cases hlen : len < 2
    · rw [if_pos hlen]
      constructor
      · rintro ⟨x, hx⟩
        cases hx
      · rintro (hle | hor)
        · omega
        · exact absurd hor hwait
    · rw [if_neg hlen]
      exact ⟨fun _ => Or.inl (by omega), fun _ => ⟨_, rfl⟩⟩

omit [LexicalCast] in
theorem bulkBody_ok_iff {len : Nat} {held u : Bytes} :
    (∃ a, bulkBody cfg len held u = .ok a) ↔ BodyReadable cfg len held u := by
  rw [← takeBody_ok_iff, bulkBody]
  cases takeBody cfg len held u with
  | error e => simp
  | ok x =>
      cases x with
      | none => simp
      | some p => simp

omit [LexicalCast] in
/-- Where a body ends that is cut off, or that is still awaited. -/
theorem takeBody_rest {len : Nat} {r : Bytes} {x : Option (Bytes × Bytes)}
    (h : takeBody cfg len [] r = .ok x) (hlen : len ≤ r.length) :
    (x = none ∧ r = []) ∨ ∃ body, x = some (body, r.drop len) := by
  unfold takeBody at h
  by_cases hwait : ([] ++ r).length < len ∨ (r = [] ∧ cfg.eager = false)
  · rw [if_pos hwait, Except.ok.injEq] at h
    rcases hwait with hlt | ⟨hr, -⟩
    · rw [List.nil_append] at hlt
      omega
    · exact Or.inl ⟨h.symm, hr⟩
  · rw [if_neg hwait] at h
    by_cases hshort : len < 2
    · rw [if_pos hshort] at h
      cases h
    · rw [if_neg hshort, Except.ok.injEq] at h
      exact Or.inr ⟨_, h.symm⟩

/-- An element loop that does not throw has read readable lines. -/
theorem elementsReadable_of_ok {count : Nat} {items : List Bytes} {held u : Bytes} {a : Reader}
    (h : elements cfg count items held u = .ok a) :
    ElementsReadable cfg count items.length held u := by
  induction hlen : u.length using Nat.strong_induction_on generalizing items held u with
  | _ n ih =>
      subst n
      -- the loop goes on behind a complete element
      have hmore : ∀ body r, r.length < u.length →
          (if (items ++ [body]).length = count then
            (.ok ⟨.done .multiBulkReply, r, items ++ [body]⟩ : Except Exn Reader)
          else elements cfg count (items ++ [body]) [] r) = .ok a →
          items.length + 1 ≠ count → ElementsReadable cfg count (items.length + 1) [] r := by
        intro body r hlt hloop hcount
        have hne : ¬ (items ++ [body]).length = count := by
          rw [List.length_append, List.length_singleton]
          exact hcount
        rw [if_neg hne] at hloop
        have hrest := ih r.length hlt hloop rfl
        rw [List.length_append, List.length_singleton] at hrest
        exact hrest
      rw [elements_unfold] at h
      cases hsplit : Lines.splitAfter LF u with
      | none => exact .line (Lines.splitAfter_eq_none_iff.mp hsplit)
      | some lr =>
          rcases lr with ⟨l, r⟩
          have hlt := Lines.splitAfter_length_lt hsplit
          rw [takeElement_of_split hsplit] at h
          cases hn : elementNumber (rtrim (held ++ l)) with
          | error e => simp [hn] at h
          | ok n =>
              simp only [hn, ok_bind] at h
              by_cases hnil : n = -1
              · subst hnil
                rw [if_pos rfl] at h
                exact .nil hsplit (elementNumber_eq_ok_iff.mp hn) (hmore _ _ hlt h)
              · rw [if_neg hnil] at h
                cases hb : takeBody cfg (cfg.elementLen n) [] r with
                | error e => simp [hb] at h
                | ok x =>
                    refine .body hsplit (elementNumber_eq_ok_iff.mp hn) hnil
                      (takeBody_ok_iff.mp ⟨x, hb⟩) ?_
                    intro hfit hcount
                    rcases takeBody_rest hb hfit with ⟨-, rfl⟩ | ⟨body, rfl⟩
                    · exact .line (by simp)
                    · simp only [hb, ok_bind] at h
                      exact hmore _ _ (by rw [List.length_drop]; omega) h hcount

/-- On readable lines the element loop does not throw. -/
theorem exists_ok_of_elementsReadable {count : Nat} {items : List Bytes} {held u : Bytes}
    (h : ElementsReadable cfg count items.length held u) :
    ∃ a, elements cfg count items held u = .ok a := by
  generalize hk : items.length = k at h
  induction h generalizing items with
  | @line k held u hfree =>
      rw [elements_unfold, takeElement, Lines.splitAfter_eq_none_iff.mpr hfree]
      exact ⟨_, rfl⟩
  | @nil k held u l r hsplit hn hnext ih =>
      rw [elements_unfold, takeElement_of_split hsplit, elementNumber_eq_ok_iff.mpr hn]
      simp only [ok_bind, if_true]
      by_cases hcount : (items ++ [cfg.missing]).length = count
      · rw [if_pos hcount]
        exact ⟨_, rfl⟩
      · rw [if_neg hcount]
        rw [List.length_append, List.length_singleton, hk] at hcount
        exact ih hcount (by simp [hk])
  | @body k held u l r n hsplit hn hne hbody hnext ih =>
      rw [elements_unfold, takeElement_of_split hsplit, elementNumber_eq_ok_iff.mpr hn]
      rcases takeBody_ok_iff.mpr hbody with ⟨x, hx⟩
      simp only [ok_bind, if_neg hne, hx]
      cases x with
      | none => exact ⟨_, rfl⟩
      | some p =>
          rcases p with ⟨body, r'⟩
          have hfit : cfg.elementLen n ≤ r.length := by
            by_contra hshort
            rw [takeBody_of_lt (by simpa using hshort)] at hx
            cases hx
          rcases takeBody_rest hx hfit with ⟨hnone, -⟩ | ⟨body', hsome⟩
          · cases hnone
          · simp only [Option.some.injEq, Prod.mk.injEq] at hsome
            rcases hsome with ⟨rfl, rfl⟩
            simp only
            by_cases hcount : (items ++ [body]).length = count
            · rw [if_pos hcount]
              exact ⟨_, rfl⟩
            · rw [if_neg hcount]
              rw [List.length_append, List.length_singleton, hk] at hcount
              exact ih hfit hcount (by simp [hk])

theorem elements_ok_iff {count : Nat} {items : List Bytes} {held u : Bytes} :
    (∃ a, elements cfg count items held u = .ok a) ↔
      ElementsReadable cfg count items.length held u :=
  ⟨fun ⟨_, h⟩ => elementsReadable_of_ok h, exists_ok_of_elementsReadable⟩

omit [LexicalCast] in
/-- A line with a type byte in front of its text. -/
theorem exists_cons_of_getReplyType {line : Bytes} (h : getReplyType line ≠ .noReply) :
    ∃ b txt, line = b :: txt := by
  cases line with
  | nil => exact absurd rfl h
  | cons b txt => exact ⟨b, txt, rfl⟩

omit [LexicalCast] in
theorem substr_one_of_type {line : Bytes} (h : getReplyType line ≠ .noReply) :
    substr line 1 = .ok (line.drop 1) := by
  rcases exists_cons_of_getReplyType h with ⟨b, txt, rfl⟩
  rw [substr_cons_one, List.drop_one, List.tail_cons]

/-- The number on a line, as the type switch reads it. -/
theorem elementNumber_bind {α : Type} (line : Bytes) (f : Int → Except Exn α) :
    (do
      let v ← substr line 1
      let n ← lexicalCast v
      f n) = elementNumber line >>= f := by
  unfold elementNumber
  cases substr line 1 with
  | error e => simp
  | ok v => simp

/-- Behind the line of a bulk reply. -/
theorem startLine_of_bulk {line : Bytes} {n : Int} (htype : getReplyType line = .bulkReply)
    (hn : Numbered line n) (u : Bytes) :
    startLine cfg line u =
      if n = -1 then .ok ⟨.done .bulkReply, u, [cfg.missing]⟩
      else bulkBody cfg (toSize (intAdd n 2)) [] u := by
  rw [startLine, htype]
  simp only [elementNumber_bind]
  rw [elementNumber_eq_ok_iff.mpr hn, ok_bind]

/-- Behind the line of an array. -/
theorem startLine_of_multiBulk {line : Bytes} {n : Int}
    (htype : getReplyType line = .multiBulkReply) (hn : Numbered line n) (u : Bytes) :
    startLine cfg line u =
      if n = -1 then .ok ⟨.done .multiBulkReply, u, []⟩
      else elements cfg (toSize n) [] [] u := by
  rw [startLine, htype]
  simp only [elementNumber_bind]
  rw [elementNumber_eq_ok_iff.mpr hn, ok_bind]

/-- What a first line leaves, by its type: a reply of its own, or the body or the elements
behind it. -/
inductive StartsReply (cfg : ReaderConfig) (line u : Bytes) : Reader → Prop where
  | noReply (htype : getReplyType line = .noReply) : StartsReply cfg line u ⟨.done .noReply, u, []⟩
  | status (htype : getReplyType line = .statusCodeReply) :
      StartsReply cfg line u ⟨.done .statusCodeReply, u, [line.drop 1]⟩
  | error (htype : getReplyType line = .errorReply) (hlen : 4 ≤ line.length) :
      StartsReply cfg line u ⟨.done .errorReply, u, [line.drop 4]⟩
  | int (htype : getReplyType line = .intReply)
      (hcast : cfg.castsInteger = true → ∃ n, Numbered line n) :
      StartsReply cfg line u ⟨.done .intReply, u, [line.drop 1]⟩
  | nil (htype : getReplyType line = .bulkReply) (hn : Numbered line (-1)) :
      StartsReply cfg line u ⟨.done .bulkReply, u, [cfg.missing]⟩
  | body {n : Int} {a : Reader} (htype : getReplyType line = .bulkReply) (hn : Numbered line n)
      (hne : n ≠ -1) (hbody : bulkBody cfg (toSize (intAdd n 2)) [] u = .ok a) :
      StartsReply cfg line u a
  | nilArray (htype : getReplyType line = .multiBulkReply) (hn : Numbered line (-1)) :
      StartsReply cfg line u ⟨.done .multiBulkReply, u, []⟩
  | elements {n : Int} {a : Reader} (htype : getReplyType line = .multiBulkReply)
      (hn : Numbered line n) (hne : n ≠ -1)
      (hloop : elements cfg (toSize n) [] [] u = .ok a) : StartsReply cfg line u a

theorem startsReply_of_ok {line u : Bytes} {a : Reader} (h : startLine cfg line u = .ok a) :
    StartsReply cfg line u a := by
  unfold startLine at h
  cases htype : getReplyType line with
  | noReply =>
      simp only [htype, Except.ok.injEq] at h
      rw [← h]
      exact .noReply htype
  | statusCodeReply =>
      simp only [htype, substr_one_of_type (by simp [htype] : getReplyType line ≠ .noReply),
        ok_bind, Except.ok.injEq] at h
      rw [← h]
      exact .status htype
  | errorReply =>
      by_cases hlen : 4 ≤ line.length
      · simp only [htype, substr_of_le hlen, ok_bind, Except.ok.injEq] at h
        rw [← h]
        exact .error htype hlen
      · simp [htype, substr_of_lt (Nat.lt_of_not_le hlen)] at h
  | intReply =>
      have hsub := substr_one_of_type (by simp [htype] : getReplyType line ≠ .noReply)
      simp only [htype, hsub, ok_bind] at h
      by_cases hcast : cfg.castsInteger = true
      · rw [if_pos hcast] at h
        rcases exists_of_bind h with ⟨n, hn, h⟩
        have hnum : elementNumber line = .ok n := by rw [elementNumber, hsub, ok_bind, hn]
        cases h
        exact .int htype fun _ => ⟨n, elementNumber_eq_ok_iff.mp hnum⟩
      · rw [if_neg hcast, Except.ok.injEq] at h
        rw [← h]
        exact .int htype fun h => absurd h hcast
  | bulkReply =>
      simp only [htype, elementNumber_bind] at h
      rcases exists_of_bind h with ⟨n, hn, h⟩
      rw [elementNumber_eq_ok_iff] at hn
      by_cases hnil : n = -1
      · rw [if_pos hnil, Except.ok.injEq] at h
        rw [← h]
        exact .nil htype (hnil ▸ hn)
      · rw [if_neg hnil] at h
        exact .body htype hn hnil h
  | multiBulkReply =>
      simp only [htype, elementNumber_bind] at h
      rcases exists_of_bind h with ⟨n, hn, h⟩
      rw [elementNumber_eq_ok_iff] at hn
      by_cases hnil : n = -1
      · rw [if_pos hnil, Except.ok.injEq] at h
        rw [← h]
        exact .nilArray htype (hnil ▸ hn)
      · rw [if_neg hnil] at h
        exact .elements htype hn hnil h

theorem StartsReply.startLine_eq {line u : Bytes} {a : Reader} (h : StartsReply cfg line u a) :
    startLine cfg line u = .ok a := by
  cases h with
  | noReply htype => rw [startLine, htype]
  | status htype =>
      have hsub := substr_one_of_type (by simp [htype] : getReplyType line ≠ .noReply)
      rw [startLine, htype]
      simp only [hsub, ok_bind]
  | error htype hlen =>
      rw [startLine, htype]
      simp only [substr_of_le hlen, ok_bind]
  | int htype hcast =>
      have hsub := substr_one_of_type (by simp [htype] : getReplyType line ≠ .noReply)
      rw [startLine, htype]
      simp only [hsub, ok_bind]
      by_cases hcfg : cfg.castsInteger = true
      · rcases hcast hcfg with ⟨n, hn⟩
        rw [← elementNumber_eq_ok_iff, elementNumber, hsub, ok_bind] at hn
        rw [if_pos hcfg, hn, ok_bind]
      · rw [if_neg hcfg]
  | nil htype hn => rw [startLine_of_bulk htype hn, if_pos rfl]
  | body htype hn hne hbody => rw [startLine_of_bulk htype hn, if_neg hne, hbody]
  | nilArray htype hn => rw [startLine_of_multiBulk htype hn, if_pos rfl]
  | elements htype hn hne hloop => rw [startLine_of_multiBulk htype hn, if_neg hne, hloop]

/-- The type switch, case by case. -/
theorem startLine_eq_ok_iff {line u : Bytes} {a : Reader} :
    startLine cfg line u = .ok a ↔ StartsReply cfg line u a :=
  ⟨startsReply_of_ok, StartsReply.startLine_eq⟩

/-- A first line throws when it is not readable with what follows it. -/
theorem startLine_ok_iff {line u : Bytes} :
    (∃ a, startLine cfg line u = .ok a) ↔ StartReadable cfg line u := by
  simp only [startLine_eq_ok_iff]
  constructor
  · rintro ⟨a, ha⟩
    unfold StartReadable
    cases ha with
    | noReply htype => simp only [htype]
    | status htype => simp only [htype]
    | error htype hlen => simpa only [htype] using hlen
    | int htype hcast => simpa only [htype] using hcast
    | nil htype hn =>
        simp only [htype]
        exact ⟨-1, hn, fun hne => absurd rfl hne⟩
    | body htype hn hne hbody =>
        simp only [htype]
        exact ⟨_, hn, fun _ => bulkBody_ok_iff.mp ⟨a, hbody⟩⟩
    | nilArray htype hn =>
        simp only [htype]
        exact ⟨-1, hn, fun hne => absurd rfl hne⟩
    | elements htype hn hne hloop =>
        simp only [htype]
        exact ⟨_, hn, fun _ => elements_ok_iff.mp ⟨a, hloop⟩⟩
  · intro h
    unfold StartReadable at h
    cases htype : getReplyType line with
    | noReply => exact ⟨_, .noReply htype⟩
    | statusCodeReply => exact ⟨_, .status htype⟩
    | errorReply =>
        simp only [htype] at h
        exact ⟨_, .error htype h⟩
    | intReply =>
        simp only [htype] at h
        exact ⟨_, .int htype h⟩
    | bulkReply =>
        simp only [htype] at h
        rcases h with ⟨n, hn, hbody⟩
        by_cases hnil : n = -1
        · exact ⟨_, .nil htype (hnil ▸ hn)⟩
        · rcases bulkBody_ok_iff.mpr (hbody hnil) with ⟨a, ha⟩
          exact ⟨a, .body htype hn hnil ha⟩
    | multiBulkReply =>
        simp only [htype] at h
        rcases h with ⟨n, hn, hloop⟩
        by_cases hnil : n = -1
        · exact ⟨_, .nilArray htype (hnil ▸ hn)⟩
        · have hnone : ElementsReadable cfg (toSize n) ([] : List Bytes).length [] u := hloop hnil
          rcases elements_ok_iff.mpr hnone with ⟨a, ha⟩
          exact ⟨a, .elements htype hn hnil ha⟩

/-- A feeding step throws on a piece that is not readable, and on no other. -/
theorem Reader.feed_ok_iff {a : Reader} {c : Bytes} :
    (∃ a', a.feed cfg c = .ok a') ↔ a.Readable cfg c := by
  rcases a with ⟨phase, held, items⟩
  cases phase with
  | start =>
      simp only [Reader.feed, Reader.Readable]
      cases hsplit : Lines.splitAfter LF c with
      | none => simp
      | some lr =>
          rcases lr with ⟨l, r⟩
          simp only [startLine_ok_iff, Option.some.injEq, Prod.mk.injEq]
          constructor
          · rintro h l' r' ⟨rfl, rfl⟩
            exact h
          · intro h
            exact h l r ⟨rfl, rfl⟩
  | body len => exact bulkBody_ok_iff
  | elements count => exact elements_ok_iff
  | done t => simp [Reader.feed, Reader.Readable]

/-! ## Runs of reads -/

namespace ReadsReplies

variable {β : Type} {K : BlockClass β} (R : ReadsReplies K cfg)

/-- The bytes in the buffer are readable for a block that waits. -/
def Readable (k : β) (buf : NetBuffer) : Prop :=
  (R.reader k []).Readable cfg buf.unread

/-- The runs of reads in which no `recv` throws. -/
theorem reads_throw_nothing_iff {cs : List Bytes} {s : SessionId} {size : Nat}
    (hfit : Connection.ReadsFit K (Connection.accepted s size, []) cs) :
    (∀ e, feedAll (Connection.readSome K) (Connection.accepted s size, []) cs ≠
        .error (.thrown e)) ↔
      Connection.EveryRecv K R.Readable (Connection.accepted s size, []) cs := by
  refine Decodes.reads_throw_nothing_iff (R := R.decodes) ?_ hfit
  rintro a k u c buf ⟨hwaits, rfl, hopen⟩ hunread
  have hdone : K.bodyDone k = false := by rw [← R.isDone_reader k u hwaits, hopen.isDone_eq]
  rw [Readable, hunread, ← Reader.feed_ok_iff, ← R.feed_unread k u c hwaits hdone]
  rcases feed_replyDecoder_cases cfg (R.reader k u) c with
    ⟨e, hfeed, h⟩ | ⟨a', hfeed, -, h⟩ | ⟨t, rest, items, hfeed, h⟩
  · simp [hfeed, h]
  · simp [hfeed, h]
  · simp [hfeed, h]

end ReadsReplies

/-- Peer input throws nothing, in either class, if and only if at every call of `recv`
the bytes in the buffer are readable. -/
theorem recv_throws_nothing_iff {cs : List Bytes} {s : SessionId} {size : Nat} :
    (Connection.ReadsFit RedisBlock2.blockClass (Connection.accepted s size, []) cs →
      ((∀ e, feedAll (Connection.readSome RedisBlock2.blockClass)
          (Connection.accepted s size, []) cs ≠ .error (.thrown e)) ↔
        Connection.EveryRecv RedisBlock2.blockClass RedisBlock2.readsReplies.Readable
          (Connection.accepted s size, []) cs)) ∧
    (Connection.ReadsFit RedisBlock.blockClass (Connection.accepted s size, []) cs →
      ((∀ e, feedAll (Connection.readSome RedisBlock.blockClass)
          (Connection.accepted s size, []) cs ≠ .error (.thrown e)) ↔
        Connection.EveryRecv RedisBlock.blockClass RedisBlock.readsReplies.Readable
          (Connection.accepted s size, []) cs)) :=
  ⟨RedisBlock2.readsReplies.reads_throw_nothing_iff,
    RedisBlock.readsReplies.reads_throw_nothing_iff⟩

/-- A first read on which the reader fails ends the run. -/
theorem ReadsReplies.reads_throw {β : Type} {K : BlockClass β} (R : ReadsReplies K cfg) {c : Bytes}
    {e : Exn} (hfeed : Reader.fresh.feed cfg c = .error e) {s : SessionId} {size : Nat}
    (hsize : c.length ≤ size) :
    feedAll (Connection.readSome K) (Connection.accepted s size, []) [c] = .error (.thrown e) := by
  have hpumps : (replyDecoder cfg).Pumps Reader.fresh c [] (.error e) :=
    .fail (feed_replyDecoder_of_error hfeed)
  have hroom : c.length ≤ (Connection.accepted s size : Connection β).room := by
    rw [Connection.room_accepted]
    exact hsize
  rw [feedAll_singleton]
  exact Decodes.readSome_pumps hpumps (Decodes.reading_accepted (R := R.decodes) s size) hroom []

end

/-- A status reply in two reads. -/
theorem recv_throws_nothing_iff_pong :
    Connection.EveryRecv RedisBlock2.blockClass RedisBlock2.readsReplies.Readable
        (Connection.accepted 9 32, []) [text "+PO", text "NG\r\n"] ∧
      Connection.EveryRecv RedisBlock.blockClass RedisBlock.readsReplies.Readable
        (Connection.accepted 9 32, []) [text "+PO", text "NG\r\n"] := by
  constructor
  · apply (recv_throws_nothing_iff.1 (by decide +kernel)).mp
    intro e h
    cases h
  · apply (recv_throws_nothing_iff.2 (by decide +kernel)).mp
    intro e h
    cases h

/-- A bulk length that is no number throws out of the read handler, and so does an error
line that is too short. -/
theorem malformed_replies_throw :
    (feedAll (Connection.readSome RedisBlock2.blockClass) (Connection.accepted 9 bufferSize, [])
        [text "$x\r\n"] = .error (.thrown .badLexicalCast) ∧
      feedAll (Connection.readSome RedisBlock2.blockClass) (Connection.accepted 9 bufferSize, [])
        [text "-a\r\n"] = .error (.thrown .outOfRange)) ∧
    (feedAll (Connection.readSome RedisBlock.blockClass) (Connection.accepted 9 bufferSize, [])
        [text "$x\r\n"] = .error (.thrown .badLexicalCast) ∧
      feedAll (Connection.readSome RedisBlock.blockClass) (Connection.accepted 9 bufferSize, [])
        [text "-a\r\n"] = .error (.thrown .outOfRange)) := by
  have hbulk : ∀ cfg, Reader.fresh.feed cfg (text "$x\r\n") = .error .badLexicalCast := by
    intro cfg
    rfl
  have herror : ∀ cfg, Reader.fresh.feed cfg (text "-a\r\n") = .error .outOfRange := by
    intro cfg
    rfl
  have hsize : (text "$x\r\n").length ≤ bufferSize ∧ (text "-a\r\n").length ≤ bufferSize := by
    decide +kernel
  exact ⟨⟨RedisBlock2.readsReplies.reads_throw (hbulk _) hsize.1,
      RedisBlock2.readsReplies.reads_throw (herror _) hsize.2⟩,
    ⟨RedisBlock.readsReplies.reads_throw (hbulk _) hsize.1,
      RedisBlock.readsReplies.reads_throw (herror _) hsize.2⟩⟩

end FannyNet

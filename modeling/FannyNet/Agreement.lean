import FannyNet.Malformed
import FannyNet.ReplyClass

/-!
# The two parsers side by side

`RedisBlock` and `RedisBlock2` fed the same pieces of one stream, whatever bytes it is
made of.  The two readers they stand for stay in the same phase, hold the same bytes and
have read the same values, up to their markers for a nil.

Main results:

- Definition `Declares`: the length lines that a reader meets in a piece.
- Theorem `Reader.Agrees.feed`: readers that agree do so after one more piece.
- Theorem `parsers_agree`: blocks that are fed alike agree, until `RedisBlock` is given
  more after its reply.
- Theorem `finished_block_reads_on`: what it does then.
-/

namespace FannyNet

open Library Library.Incremental

/-! ## Declared lengths -/

section
variable (cfg : ReaderConfig) [LexicalCast]

/-- Feeding `c` to the reader completes a length line with the number `n`, of a bulk reply
or of an element. -/
inductive Declares : Reader → Bytes → Int → Prop where
  | bulk {held c l r : Bytes} {items : List Bytes} {n : Int}
      (hsplit : Lines.splitAfter LF c = some (l, r))
      (htype : getReplyType (rtrim (held ++ l)) = .bulkReply)
      (hn : Numbered (rtrim (held ++ l)) n) : Declares ⟨.start, held, items⟩ c n
  | array {held c l r : Bytes} {items : List Bytes} {m n : Int}
      (hsplit : Lines.splitAfter LF c = some (l, r))
      (htype : getReplyType (rtrim (held ++ l)) = .multiBulkReply)
      (hm : Numbered (rtrim (held ++ l)) m) (hne : m ≠ -1)
      (helements : Declares ⟨.elements (toSize m), [], []⟩ r n) :
      Declares ⟨.start, held, items⟩ c n
  | element {count : Nat} {held u l r : Bytes} {items : List Bytes} {n : Int}
      (hsplit : Lines.splitAfter LF u = some (l, r)) (hn : Numbered (rtrim (held ++ l)) n) :
      Declares ⟨.elements count, held, items⟩ u n
  | next {count : Nat} {held u v r : Bytes} {items : List Bytes} {n : Int}
      (helement : takeElement cfg held u = .ok (.inr (v, r)))
      (hcount : (items ++ [v]).length ≠ count)
      (hnext : Declares ⟨.elements count, [], items ++ [v]⟩ r n) :
      Declares ⟨.elements count, held, items⟩ u n

end

/-! ## Readers that agree -/

namespace Reader

/-- Two readers in the same phase, with the same bytes and the same values, a nil stored as
`missing` by the one and as `missing'` by the other. -/
structure Agrees (missing missing' : Bytes) (a b : Reader) : Prop where
  phase : a.phase = b.phase
  held : a.held = b.held
  items : ∃ es : List (Option Bytes), a.items = values missing es ∧ b.items = values missing' es

theorem Agrees.isDone_eq {missing missing' : Bytes} {a b : Reader}
    (h : a.Agrees missing missing' b) : a.isDone = b.isDone := by
  unfold isDone
  rw [h.phase]

theorem agrees_fresh (missing missing' : Bytes) : fresh.Agrees missing missing' fresh :=
  ⟨rfl, rfl, [], rfl, rfl⟩

end Reader

/-- The two parsers await the same number of bytes for an element. -/
theorem elementLen_eq {n : Int} (hlo : INT_MIN ≤ n) (hhi : n ≤ INT_MAX - 2) :
    RedisBlock.readerConfig.elementLen n = RedisParse.readerConfig.elementLen n := by
  change toSize (toSize n + 2) = toSize (intAdd n 2)
  simp only [INT_MIN] at hlo
  simp only [INT_MAX] at hhi
  rw [intAdd_of_le (by simp only [INT_MIN]; omega) (by simp only [INT_MAX]; omega)]
  simp only [toSize]
  omega

section

/-- A body that is taken by both parsers, or awaited by both. -/
theorem takeBody_agree {len : Nat} {held u : Bytes} {x y : Option (Bytes × Bytes)}
    (hheld : held.length < len ∨ held = [])
    (hx : takeBody RedisBlock.readerConfig len held u = .ok x)
    (hy : takeBody RedisParse.readerConfig len held u = .ok y) : x = y := by
  unfold takeBody at hx hy
  by_cases hshort : (held ++ u).length < len
  · rw [if_pos (Or.inl hshort), Except.ok.injEq] at hx hy
    rw [← hx, ← hy]
  · have hgo : ¬ ((held ++ u).length < len ∨
        (u = [] ∧ RedisBlock.readerConfig.eager = false)) := by
      rintro (h | ⟨-, h⟩)
      · exact hshort h
      · cases h
    rw [if_neg hgo] at hx
    by_cases hsmall : len < 2
    · rw [if_pos hsmall] at hx
      cases hx
    · -- two bytes at least are awaited, so there is new input
      have hne : u ≠ [] := by
        rintro rfl
        rw [List.append_nil] at hshort
        rcases hheld with hlt | rfl
        · exact hshort hlt
        · simp only [List.length_nil] at hshort
          omega
      have hgo' : ¬ ((held ++ u).length < len ∨
          (u = [] ∧ RedisParse.readerConfig.eager = false)) := by
        rintro (h | ⟨h, -⟩)
        · exact hshort h
        · exact hne h
      rw [if_neg hsmall] at hx
      rw [if_neg hgo', if_neg hsmall] at hy
      rw [Except.ok.injEq] at hx hy
      rw [← hx, ← hy]

variable [LexicalCast]

/-- An element that is complete for both parsers, or for none of them. -/
theorem takeElement_agree {held u : Bytes} {x y : Bytes ⊕ (Bytes × Bytes)}
    (hdecl : ∀ l r n, Lines.splitAfter LF u = some (l, r) → Numbered (rtrim (held ++ l)) n →
      n ≤ INT_MAX - 2)
    (hx : takeElement RedisBlock.readerConfig held u = .ok x)
    (hy : takeElement RedisParse.readerConfig held u = .ok y) :
    (∃ rest, x = .inl rest ∧ y = .inl rest) ∨
      ∃ (e : Option Bytes) (r : Bytes), x = .inr (e.getD RedisBlock.REDIS_MISSING, r) ∧
        y = .inr (e.getD RedisParse.REDIS_MISSING, r) := by
  cases hsplit : Lines.splitAfter LF u with
  | none =>
      simp only [takeElement, hsplit, Except.ok.injEq] at hx hy
      exact Or.inl ⟨_, hx.symm, hy.symm⟩
  | some lr =>
      rcases lr with ⟨l, r⟩
      rw [takeElement_of_split hsplit] at hx hy
      cases hn : elementNumber (rtrim (held ++ l)) with
      | error e => simp [hn] at hx
      | ok n =>
          have hnum := elementNumber_eq_ok_iff.mp hn
          have hrange : INT_MIN ≤ n := by
            rcases hnum with ⟨-, -, -, -, hlo, -⟩
            exact hlo
          simp only [hn, ok_bind] at hx hy
          by_cases hnil : n = -1
          · rw [if_pos hnil, Except.ok.injEq] at hx hy
            exact Or.inr ⟨none, r, hx.symm, hy.symm⟩
          · rw [if_neg hnil] at hx hy
            rw [elementLen_eq hrange (hdecl l r n hsplit hnum)] at hx
            cases hbx : takeBody RedisBlock.readerConfig (RedisParse.readerConfig.elementLen n) []
              r with
            | error e => simp [hbx] at hx
            | ok bx =>
                cases hby : takeBody RedisParse.readerConfig (RedisParse.readerConfig.elementLen n)
                    [] r with
                | error e => simp [hby] at hy
                | ok body =>
                    have hsame := takeBody_agree (Or.inr rfl) hbx hby
                    subst hsame
                    cases bx with
                    | none =>
                        simp only [hbx, hby, ok_bind, Except.ok.injEq] at hx hy
                        exact Or.inl ⟨r, hx.symm, hy.symm⟩
                    | some p =>
                        rcases p with ⟨v, r'⟩
                        simp only [hbx, hby, ok_bind, Except.ok.injEq] at hx hy
                        exact Or.inr ⟨some v, r', hx.symm, hy.symm⟩

omit [LexicalCast] in
theorem values_append_singleton (missing : Bytes) (es : List (Option Bytes)) (e : Option Bytes) :
    values missing (es ++ [e]) = values missing es ++ [e.getD missing] := by
  simp [values]

/-- The element loops stay together. -/
theorem elements_agree {count : Nat} {es : List (Option Bytes)} {held u : Bytes} {a b : Reader}
    (hdecl : ∀ n, Declares RedisParse.readerConfig
      ⟨.elements count, held, values RedisParse.REDIS_MISSING es⟩ u n → n ≤ INT_MAX - 2)
    (ha : elements RedisBlock.readerConfig count (values RedisBlock.REDIS_MISSING es) held u =
      .ok a)
    (hb : elements RedisParse.readerConfig count (values RedisParse.REDIS_MISSING es) held u =
      .ok b) :
    a.Agrees RedisBlock.REDIS_MISSING RedisParse.REDIS_MISSING b := by
  induction hlen : u.length using Nat.strong_induction_on generalizing es held u with
  | _ len ih =>
      subst hlen
      rw [elements_unfold] at ha hb
      cases hx : takeElement RedisBlock.readerConfig held u with
      | error e => simp [hx] at ha
      | ok x =>
          cases hy : takeElement RedisParse.readerConfig held u with
          | error e => simp [hy] at hb
          | ok y =>
              have helem := takeElement_agree
                (fun l r n hsplit hn => hdecl n (.element hsplit hn)) hx hy
              rcases helem with ⟨rest, rfl, rfl⟩ | ⟨e, r, rfl, rfl⟩
              · simp only [hx, hy, Except.ok.injEq] at ha hb
                rw [← ha, ← hb]
                exact ⟨rfl, rfl, es, rfl, rfl⟩
              · simp only [hx] at ha
                simp only [hy] at hb
                rw [← values_append_singleton] at ha hb
                have hlength : (values RedisBlock.REDIS_MISSING (es ++ [e])).length =
                    (values RedisParse.REDIS_MISSING (es ++ [e])).length := by
                  simp [values]
                rw [hlength] at ha
                by_cases hcount : (values RedisParse.REDIS_MISSING (es ++ [e])).length = count
                · rw [if_pos hcount, Except.ok.injEq] at ha hb
                  rw [← ha, ← hb]
                  exact ⟨rfl, rfl, es ++ [e], rfl, rfl⟩
                · rw [if_neg hcount] at ha hb
                  refine ih r.length (takeElement_length_lt hx) ?_ ha hb rfl
                  intro n hn
                  rw [values_append_singleton] at hn hcount
                  exact hdecl n (.next hy hcount hn)

omit [LexicalCast] in
/-- A single bulk body. -/
theorem bulkBody_agree {len : Nat} {held u : Bytes} {a b : Reader}
    (hheld : held.length < len ∨ held = [])
    (ha : bulkBody RedisBlock.readerConfig len held u = .ok a)
    (hb : bulkBody RedisParse.readerConfig len held u = .ok b) :
    a.Agrees RedisBlock.REDIS_MISSING RedisParse.REDIS_MISSING b := by
  unfold bulkBody at ha hb
  cases hx : takeBody RedisBlock.readerConfig len held u with
  | error e => simp [hx] at ha
  | ok x =>
      cases hy : takeBody RedisParse.readerConfig len held u with
      | error e => simp [hy] at hb
      | ok y =>
          have hsame := takeBody_agree hheld hx hy
          subst hsame
          cases x with
          | none =>
              simp only [hx, ok_bind, Except.ok.injEq] at ha
              simp only [hy, ok_bind, Except.ok.injEq] at hb
              rw [← ha, ← hb]
              exact ⟨rfl, rfl, [], rfl, rfl⟩
          | some p =>
              rcases p with ⟨body, r⟩
              simp only [hx, ok_bind, Except.ok.injEq] at ha
              simp only [hy, ok_bind, Except.ok.injEq] at hb
              rw [← ha, ← hb]
              exact ⟨rfl, rfl, [some body], rfl, rfl⟩

/-- A first line that both readers take. -/
theorem startLine_agree {line u : Bytes} {a b : Reader}
    (hdecl : ∀ m, getReplyType line = .multiBulkReply → Numbered line m → m ≠ -1 → ∀ n,
      Declares RedisParse.readerConfig ⟨.elements (toSize m), [], []⟩ u n → n ≤ INT_MAX - 2)
    (ha : startLine RedisBlock.readerConfig line u = .ok a)
    (hb : startLine RedisParse.readerConfig line u = .ok b) :
    a.Agrees RedisBlock.REDIS_MISSING RedisParse.REDIS_MISSING b := by
  -- a line that is a reply of its own leaves the same value in both
  have hline : ∀ (t : ReplyT) (v : Bytes),
      StartsReply RedisParse.readerConfig line u ⟨.done t, u, [v]⟩ →
      Reader.Agrees RedisBlock.REDIS_MISSING RedisParse.REDIS_MISSING ⟨.done t, u, [v]⟩ b := by
    intro t v h
    rw [h.startLine_eq, Except.ok.injEq] at hb
    rw [← hb]
    exact ⟨rfl, rfl, [some v], rfl, rfl⟩
  cases startsReply_of_ok ha with
  | noReply htype =>
      rw [(StartsReply.noReply htype).startLine_eq, Except.ok.injEq] at hb
      rw [← hb]
      exact ⟨rfl, rfl, [], rfl, rfl⟩
  | status htype => exact hline _ _ (.status htype)
  | error htype hlen => exact hline _ _ (.error htype hlen)
  | int htype hcast => exact hline _ _ (.int htype fun _ => hcast rfl)
  | nil htype hn =>
      rw [(StartsReply.nil htype hn).startLine_eq, Except.ok.injEq] at hb
      rw [← hb]
      exact ⟨rfl, rfl, [none], rfl, rfl⟩
  | body htype hn hne hbody =>
      rw [startLine_of_bulk htype hn, if_neg hne] at hb
      exact bulkBody_agree (Or.inr rfl) hbody hb
  | nilArray htype hn =>
      rw [(StartsReply.nilArray htype hn).startLine_eq, Except.ok.injEq] at hb
      rw [← hb]
      exact ⟨rfl, rfl, [], rfl, rfl⟩
  | @elements m _ htype hn hne hloop =>
      rw [startLine_of_multiBulk htype hn, if_neg hne] at hb
      change elements _ _ (values RedisBlock.REDIS_MISSING []) [] u = _ at hloop
      change elements _ _ (values RedisParse.REDIS_MISSING []) [] u = _ at hb
      exact elements_agree (hdecl m htype hn hne) hloop hb

/-- Readers that agree do so after one more piece that both take. -/
theorem Reader.Agrees.feed {a b a' b' : Reader} {c : Bytes}
    (h : a.Agrees RedisBlock.REDIS_MISSING RedisParse.REDIS_MISSING b)
    (hopen : a.Open RedisBlock.readerConfig)
    (hdecl : ∀ n, Declares RedisParse.readerConfig b c n → n ≤ INT_MAX - 2)
    (ha : a.feed RedisBlock.readerConfig c = .ok a')
    (hb : b.feed RedisParse.readerConfig c = .ok b') :
    a'.Agrees RedisBlock.REDIS_MISSING RedisParse.REDIS_MISSING b' := by
  rcases a with ⟨phase, held, items⟩
  rcases b with ⟨phase', held', items'⟩
  rcases h with ⟨hphase, hheld, es, hitems, hitems'⟩
  simp only at hphase hheld hitems hitems'
  subst hphase hheld hitems hitems'
  cases phase with
  | start =>
      simp only [Reader.feed] at ha hb
      cases hsplit : Lines.splitAfter LF c with
      | none =>
          simp only [hsplit, Except.ok.injEq] at ha hb
          rw [← ha, ← hb]
          exact ⟨rfl, rfl, es, rfl, rfl⟩
      | some lr =>
          rcases lr with ⟨l, r⟩
          simp only [hsplit] at ha hb
          refine startLine_agree ?_ ha hb
          intro m htype hm hne n hn
          exact hdecl n (.array hsplit htype hm hne hn)
  | body len =>
      refine bulkBody_agree ?_ ha hb
      rcases hopen.2 with hlt | ⟨-, heager⟩
      · exact Or.inl hlt
      · cases heager
  | elements count => exact elements_agree hdecl ha hb
  | done t => exact hopen.elim

/-! ## The two blocks -/

omit [LexicalCast] in
/-- The replies that `RedisBlock` leaves alone once they are complete. -/
def ReplyT.OneLine (t : ReplyT) : Prop :=
  t = .statusCodeReply ∨ t = .errorReply ∨ t = .intReply

instance (t : ReplyT) : Decidable t.OneLine :=
  inferInstanceAs (Decidable (t = .statusCodeReply ∨ t = .errorReply ∨ t = .intReply))

/-- A completed one-line reply stays as it is, and the new piece stays in the buffer. -/
theorem RedisBlock.receive_finished {cap : Nat} {u c : Bytes} {x : RedisBlock × NetBuffer}
    {a : Reader} (h : RedisBlock.readsReplies.Follows cap u x a)
    (hcap : (u ++ c).length ≤ cap) (hdone : x.1.bodyDone = true) (hline : x.1.type.OneLine) :
    ∃ x', receive RedisBlock.blockClass x c = .ok x' ∧
      RedisBlock.readsReplies.Follows cap (u ++ c) x' { a with held := a.held ++ c } := by
  have hpos := h.writePos_le
  rw [List.length_append] at hcap
  have hroom : x.2.writePos + c.length ≤ x.2.maxLen := by
    rw [h.maxLen]
    omega
  refine ⟨(x.1, x.2.writeBytes c), ?_, ?_⟩
  · have hrecv : x.1.recv (x.2.writeBytes c) = .ok (x.1, x.2.writeBytes c, false) := by
      rcases hline with htype | htype | htype <;>
        simp [RedisBlock.recv, RedisBlock.recvBody, htype]
    simp only [receive, RedisBlock.blockClass, hrecv, ok_bind]
  · refine ⟨?_, ⟨h.waits.1, ?_⟩, NetBuffer.valid_writeBytes h.valid c, ?_, ?_⟩
    · rw [← h.reader_eq, NetBuffer.unread_writeBytes h.valid hroom]
      simp [RedisBlock.readsReplies, RedisBlock.reader]
    · intro hopen
      rw [hdone] at hopen
      cases hopen
    · rw [NetBuffer.maxLen_writeBytes, h.maxLen]
    · rw [NetBuffer.writePos_writeBytes hroom, List.length_append]
      omega

/-- A completed parser leaves the new piece in the buffer. -/
theorem RedisBlock2.receive_finished {cap : Nat} {u c : Bytes} {y : RedisBlock2 × NetBuffer}
    {b : Reader} (h : RedisBlock2.readsReplies.Follows cap u y b)
    (hcap : (u ++ c).length ≤ cap) (hdone : y.1.bodyDone = true) :
    ∃ y', receive RedisBlock2.blockClass y c = .ok y' ∧
      RedisBlock2.readsReplies.Follows cap (u ++ c) y' { b with held := b.held ++ c } := by
  have hpos := h.writePos_le
  rw [List.length_append] at hcap
  have hroom : y.2.writePos + c.length ≤ y.2.maxLen := by
    rw [h.maxLen]
    omega
  have hvalid := NetBuffer.valid_writeBytes h.valid c
  have hparse : y.1.parse.done = true := h.waits.2.symm.trans hdone
  rcases NetBuffer.readData_clearReadBuffer hvalid (Nat.zero_le _) with ⟨hcomp, hrest, -⟩
  rw [NetBuffer.unread_writeBytes h.valid hroom, List.drop_zero] at hrest
  refine ⟨({ y.1 with state := .done }, ((y.2.writeBytes c).readData 0).1.clearReadBuffer), ?_, ?_⟩
  · have hcall : y.1.parse.parse (y.2.writeBytes c).unread 0 = .ok (y.1.parse, 0, true) := by
      rw [RedisParse.parse, if_pos hparse]
    simp only [receive, RedisBlock2.blockClass, RedisBlock2.recv, hcall, ok_bind, RedisParse.isDone,
      hparse, if_true]
  · refine ⟨?_, ⟨?_, ?_⟩, hcomp.valid, ?_, ?_⟩
    · rw [← h.reader_eq, hrest]
      simp [RedisBlock2.readsReplies, RedisParse.reader]
    · cases h.waits.1 with
      | done hd htemp => exact .done hd htemp
      | line hd => simp [hd] at hparse
      | body hd => simp [hd] at hparse
      | elements hd => simp [hd] at hparse
    · exact hparse.symm
    · rw [hcomp.maxLen, NetBuffer.maxLen_writeBytes, h.maxLen]
    · have hle := hcomp.writePos_le
      rw [NetBuffer.writePos_writeBytes hroom] at hle
      rw [List.length_append]
      exact hle.trans (Nat.add_le_add_right hpos c.length)

/-- Two blocks with their buffers, after the bytes `u`: they stand for readers that agree. -/
def SideBySide (cap : Nat) (u : Bytes) (x : RedisBlock × NetBuffer)
    (y : RedisBlock2 × NetBuffer) : Prop :=
  ∃ a b, RedisBlock.readsReplies.Follows cap u x a ∧ RedisBlock2.readsReplies.Follows cap u y b ∧
    a.Agrees RedisBlock.REDIS_MISSING RedisParse.REDIS_MISSING b ∧
    (a.isDone = false → a.Open RedisBlock.readerConfig)

theorem sideBySide_start (s s' : SessionId) (size size' cap : Nat) :
    SideBySide cap [] (start RedisBlock.blockClass s size cap)
      (start RedisBlock2.blockClass s' size' cap) :=
  ⟨Reader.fresh, Reader.fresh, RedisBlock.readsReplies.follows_start s size cap,
    RedisBlock2.readsReplies.follows_start s' size' cap, Reader.agrees_fresh _ _,
    fun _ => trivial⟩

/-- One piece for both blocks. -/
theorem SideBySide.receive {cap : Nat} {u c : Bytes} {x x' : RedisBlock × NetBuffer}
    {y y' : RedisBlock2 × NetBuffer} (h : SideBySide cap u x y) (hcap : (u ++ c).length ≤ cap)
    (hdecl : ∀ n, Declares RedisParse.readerConfig (y.1.parse.reader y.2.unread) c n →
      n ≤ INT_MAX - 2)
    (hline : x.1.bodyDone = true → x.1.type.OneLine)
    (hx : FannyNet.receive RedisBlock.blockClass x c = .ok x')
    (hy : FannyNet.receive RedisBlock2.blockClass y c = .ok y') :
    SideBySide cap (u ++ c) x' y' := by
  rcases h with ⟨a, b, hfollows, hfollows', hagrees, hopen⟩
  have hsame := hagrees.isDone_eq
  have hxdone : x.1.bodyDone = a.isDone := hfollows.bodyDone_eq
  have hydone : y.1.bodyDone = b.isDone := hfollows'.bodyDone_eq
  by_cases hdone : a.isDone = true
  · rcases RedisBlock.receive_finished hfollows hcap (hxdone.trans hdone)
      (hline (hxdone.trans hdone)) with ⟨x₁, hx₁, hnext⟩
    rcases RedisBlock2.receive_finished hfollows' hcap (hydone.trans (hsame ▸ hdone)) with
      ⟨y₁, hy₁, hnext'⟩
    rw [hx, Except.ok.injEq] at hx₁
    rw [hy, Except.ok.injEq] at hy₁
    subst hx₁ hy₁
    refine ⟨_, _, hnext, hnext', ⟨hagrees.phase, ?_, hagrees.items⟩, ?_⟩
    · simp only [hagrees.held]
    · intro hnot
      have hstill : ({ a with held := a.held ++ c } : Reader).isDone = a.isDone := rfl
      rw [hstill, hdone] at hnot
      cases hnot
  · have hleft : a.isDone = false := Bool.eq_false_of_not_eq_true hdone
    have hrel := RedisBlock.readsReplies.receive_follows hcap hfollows hleft (List.prefix_refl _)
    have hrel' := RedisBlock2.readsReplies.receive_follows hcap hfollows' (hsame ▸ hleft)
      (List.prefix_refl _)
    rcases hrel.exists_right hx with ⟨a', ha', hnext⟩
    rcases hrel'.exists_right hy with ⟨b', hb', hnext'⟩
    have hreader : y.1.parse.reader y.2.unread = b := hfollows'.reader_eq
    rw [hreader] at hdecl
    refine ⟨a', b', hnext, hnext', hagrees.feed (hopen hleft) hdecl ha' hb', ?_⟩
    intro hnot
    rcases Reader.feed_ok (hopen hleft) ha' with ⟨hopen', -⟩ | ⟨hdone', -⟩
    · exact hopen'
    · rw [hdone'] at hnot
      cases hnot

/-- What a caller sees of two blocks and their buffers is the same, a nil apart, for which
each class has its own marker. -/
structure Agree (x : RedisBlock × NetBuffer) (y : RedisBlock2 × NetBuffer) : Prop where
  done : x.1.bodyDone = y.1.bodyDone
  type : x.1.type = y.1.parse.type
  recvList : ∃ es : List (Option Bytes), x.1.recvList = values RedisBlock.REDIS_MISSING es ∧
    y.1.parse.recvList = values RedisParse.REDIS_MISSING es
  bytes : x.1.temp ++ x.2.unread = y.1.parse.temp ++ y.2.unread

/-- The reply type that goes with a phase. -/
def Phase.type : Phase → ReplyT
  | .start => .noReply
  | .body _ => .bulkReply
  | .elements _ => .multiBulkReply
  | .done t => t

omit [LexicalCast] in
theorem RedisBlock.Waits.type_eq {k : RedisBlock} (h : k.Waits) : k.type = k.phase.type := by
  unfold RedisBlock.phase
  cases h with
  | done hdone => rw [if_pos hdone, Phase.type]
  | line hdone htype => simp [hdone, htype, Phase.type]
  | body hdone htype => simp [hdone, htype, Phase.type]
  | elements hdone htype => simp [hdone, htype, Phase.type]

omit [LexicalCast] in
theorem RedisParse.Waits.type_eq {p : RedisParse} {u : Bytes} (h : p.Waits u) :
    p.type = p.phase.type := by
  unfold RedisParse.phase
  cases h with
  | done hdone => rw [if_pos hdone, Phase.type]
  | line hdone htype => simp [hdone, htype, Phase.type]
  | body hdone htype => simp [hdone, htype, Phase.type]
  | elements hdone htype => simp [hdone, htype, Phase.type]

theorem SideBySide.agree {cap : Nat} {u : Bytes} {x : RedisBlock × NetBuffer}
    {y : RedisBlock2 × NetBuffer} (h : SideBySide cap u x y) : Agree x y := by
  rcases h with ⟨a, b, hfollows, hfollows', hagrees, -⟩
  have hreader : x.1.reader x.2.unread = a := hfollows.reader_eq
  have hreader' : y.1.parse.reader y.2.unread = b := hfollows'.reader_eq
  subst hreader hreader'
  have hphase : x.1.phase = y.1.parse.phase := hagrees.phase
  refine ⟨?_, ?_, hagrees.items, hagrees.held⟩
  · have hxdone : x.1.bodyDone = (x.1.reader x.2.unread).isDone := hfollows.bodyDone_eq
    have hydone : y.1.bodyDone = (y.1.parse.reader y.2.unread).isDone := hfollows'.bodyDone_eq
    rw [hxdone, hydone, hagrees.isDone_eq]
  · rw [hfollows.waits.1.type_eq, hfollows'.waits.1.type_eq, hphase]

/-! ## Runs -/

/-- Every length that the pieces declare, as `RedisBlock2` meets it, leaves room for the two
bytes of the terminator. -/
def LengthsFit (y : RedisBlock2 × NetBuffer) : List Bytes → Prop
  | [] => True
  | c :: cs =>
      (∀ n, Declares RedisParse.readerConfig (y.1.parse.reader y.2.unread) c n →
        n ≤ INT_MAX - 2) ∧
      ∀ y', receive RedisBlock2.blockClass y c = .ok y' → LengthsFit y' cs

/-- No piece is given to a `RedisBlock` behind a completed reply, unless that is one line. -/
def NotReadOn (x : RedisBlock × NetBuffer) : List Bytes → Prop
  | [] => True
  | c :: cs =>
      (x.1.bodyDone = true → x.1.type.OneLine) ∧
      ∀ x', receive RedisBlock.blockClass x c = .ok x' → NotReadOn x' cs

/-- Blocks that stand side by side stay so over a run. -/
theorem SideBySide.receiveAll {cap : Nat} {cs : List Bytes} {u : Bytes}
    {x x' : RedisBlock × NetBuffer} {y y' : RedisBlock2 × NetBuffer} (h : SideBySide cap u x y)
    (hcap : (u ++ cs.flatten).length ≤ cap) (hfit : LengthsFit y cs) (hline : NotReadOn x cs)
    (hx : feedAll (FannyNet.receive RedisBlock.blockClass) x cs = .ok x')
    (hy : feedAll (FannyNet.receive RedisBlock2.blockClass) y cs = .ok y') :
    SideBySide cap (u ++ cs.flatten) x' y' := by
  induction cs generalizing u x y with
  | nil =>
      simp only [feedAll_nil, Except.ok.injEq] at hx hy
      subst hx hy
      rw [List.flatten_nil, List.append_nil]
      exact h
  | cons c cs ih =>
      rw [List.flatten_cons, ← List.append_assoc] at hcap ⊢
      simp only [feedAll] at hx hy
      cases hx₁ : FannyNet.receive RedisBlock.blockClass x c with
      | error e => simp [hx₁, Except.bind] at hx
      | ok x₁ =>
          cases hy₁ : FannyNet.receive RedisBlock2.blockClass y c with
          | error e => simp [hy₁, Except.bind] at hy
          | ok y₁ =>
              simp only [hx₁, Except.bind] at hx
              simp only [hy₁, Except.bind] at hy
              have hroom : (u ++ c).length ≤ cap := by
                rw [List.length_append] at hcap
                omega
              have hnext := h.receive hroom hfit.1 hline.1 hx₁ hy₁
              exact ih hnext hcap (hfit.2 y₁ hy₁) (hline.2 x₁ hx₁) hx hy

/-- Two new blocks that are given the same pieces agree, as long as none has thrown and
`RedisBlock` is not given more behind its reply. -/
theorem parsers_agree {s s' : SessionId} {size size' cap : Nat} {cs : List Bytes}
    (hcap : cs.flatten.length ≤ cap)
    (hfit : LengthsFit (start RedisBlock2.blockClass s' size' cap) cs)
    (hline : NotReadOn (start RedisBlock.blockClass s size cap) cs)
    {x : RedisBlock × NetBuffer} {y : RedisBlock2 × NetBuffer}
    (hx : feedAll (receive RedisBlock.blockClass) (start RedisBlock.blockClass s size cap) cs =
      .ok x)
    (hy : feedAll (receive RedisBlock2.blockClass) (start RedisBlock2.blockClass s' size' cap) cs =
      .ok y) : Agree x y :=
  ((sideBySide_start s s' size size' cap).receiveAll hcap hfit hline hx hy).agree

end

/-- A first line of a bulk reply declares the number in its text, and no other. -/
theorem Declares.eq_of_bulk {cfg : ReaderConfig} {held c l r : Bytes} {items : List Bytes}
    {m n : Int} (h : Declares cfg ⟨.start, held, items⟩ c n)
    (hsplit : Lines.splitAfter LF c = some (l, r))
    (htype : getReplyType (rtrim (held ++ l)) = .bulkReply) (hm : Numbered (rtrim (held ++ l)) m) :
    n = m := by
  cases h with
  | bulk hsplit' _ hn =>
      simp only [hsplit, Option.some.injEq, Prod.mk.injEq] at hsplit'
      rw [← hsplit'.1] at hn
      rcases hn with ⟨b, txt, hline, htext, -⟩
      rcases hm with ⟨b', txt', hline', htext', -⟩
      rw [hline, List.cons.injEq] at hline'
      rw [hline'.2] at htext
      exact htext.unique htext'
  | array hsplit' htype' =>
      simp only [hsplit, Option.some.injEq, Prod.mk.injEq] at hsplit'
      rw [← hsplit'.1, htype] at htype'
      cases htype'

/-- Lengths are declared in front of a reply and in front of its elements. -/
theorem Declares.phase {cfg : ReaderConfig} {a : Reader} {c : Bytes} {n : Int}
    (h : Declares cfg a c n) : a.phase = .start ∨ ∃ count, a.phase = .elements count := by
  cases h with
  | bulk => exact Or.inl rfl
  | array => exact Or.inl rfl
  | element => exact Or.inr ⟨_, rfl⟩
  | next => exact Or.inr ⟨_, rfl⟩

/-- A piece that begins with a bulk length line that fits, and takes `RedisBlock2` past all
length lines. -/
theorem lengthsFit_of_bulk {y : RedisBlock2 × NetBuffer} {c d l r : Bytes} {n : Int}
    (hstart : y.1.parse.reader y.2.unread = Reader.fresh)
    (hsplit : Lines.splitAfter LF c = some (l, r)) (htype : getReplyType (rtrim l) = .bulkReply)
    (hn : Numbered (rtrim l) n) (hle : n ≤ INT_MAX - 2)
    (hphase : (receive RedisBlock2.blockClass y c).toOption.all
      (fun y' => y'.1.parse.type == .bulkReply) = true) : LengthsFit y [c, d] := by
  refine ⟨?_, fun y' hy' => ⟨?_, fun _ _ => trivial⟩⟩
  · intro m hm
    rw [hstart] at hm
    rw [hm.eq_of_bulk hsplit htype hn]
    exact hle
  · intro m hm
    rw [hy'] at hphase
    have hbulk : y'.1.parse.type = .bulkReply := eq_of_beq hphase
    -- neither a body nor a completed reply has length lines
    have hnot : y'.1.parse.phase ≠ .start ∧ ∀ count, y'.1.parse.phase ≠ .elements count := by
      unfold RedisParse.phase
      cases y'.1.parse.done with
      | false => simp [hbulk]
      | true => simp
    rcases hm.phase with h | ⟨count, h⟩
    · exact absurd h hnot.1
    · exact absurd h (hnot.2 count)

/-- A bulk reply in two pieces. -/
theorem parsers_agree_halves :
    ∃ x y, feedAll (receive RedisBlock.blockClass) (start RedisBlock.blockClass 9 0 16)
        [text "$1\r\na", text "\r\n"] = .ok x ∧
      feedAll (receive RedisBlock2.blockClass) (start RedisBlock2.blockClass 9 0 16)
        [text "$1\r\na", text "\r\n"] = .ok y ∧ Agree x y := by
  have hfit : LengthsFit (start RedisBlock2.blockClass 9 0 16) [text "$1\r\na", text "\r\n"] :=
    lengthsFit_of_bulk (l := text "$1\r\n") (r := text "a") (n := 1) rfl rfl rfl
      (elementNumber_eq_ok_iff.mp rfl) (by decide) (by decide +kernel)
  have hhalf : (receive RedisBlock.blockClass (start RedisBlock.blockClass 9 0 16)
      (text "$1\r\na")).toOption.any (fun x' => !x'.1.bodyDone) = true := by decide +kernel
  have hline : NotReadOn (start RedisBlock.blockClass 9 0 16) [text "$1\r\na", text "\r\n"] := by
    refine ⟨by decide +kernel, fun x' hx' => ⟨?_, fun _ _ => trivial⟩⟩
    rw [hx'] at hhalf
    intro hdone
    simp [Except.toOption, hdone] at hhalf
  have hx : (feedAll (receive RedisBlock.blockClass) (start RedisBlock.blockClass 9 0 16)
      [text "$1\r\na", text "\r\n"]).toOption.any (fun _ => true) = true := by decide +kernel
  have hy : (feedAll (receive RedisBlock2.blockClass) (start RedisBlock2.blockClass 9 0 16)
      [text "$1\r\na", text "\r\n"]).toOption.any (fun _ => true) = true := by decide +kernel
  rcases exists_ok_of_any hx with ⟨x, hx, -⟩
  rcases exists_ok_of_any hy with ⟨y, hy, -⟩
  exact ⟨x, y, hx, hy, parsers_agree (by decide +kernel) hfit hline hx hy⟩

/-- `RedisBlock` reads on behind its reply: a second reply in a piece of its own is taken for
more of the first. -/
theorem finished_block_reads_on :
    ∃ x y, LengthsFit (start RedisBlock2.blockClass 9 0 16)
        [text "$1\r\na\r\n", text "$1\r\nb\r\n"] ∧
      feedAll (receive RedisBlock.blockClass) (start RedisBlock.blockClass 9 0 16)
        [text "$1\r\na\r\n", text "$1\r\nb\r\n"] = .ok x ∧
      feedAll (receive RedisBlock2.blockClass) (start RedisBlock2.blockClass 9 0 16)
        [text "$1\r\na\r\n", text "$1\r\nb\r\n"] = .ok y ∧
      x.1.recvList = [text "a", text "$"] ∧ y.1.parse.recvList = [text "a"] ∧ ¬ Agree x y := by
  have hfit : LengthsFit (start RedisBlock2.blockClass 9 0 16)
      [text "$1\r\na\r\n", text "$1\r\nb\r\n"] :=
    lengthsFit_of_bulk (l := text "$1\r\n") (r := text "a\r\n") (n := 1) rfl rfl rfl
      (elementNumber_eq_ok_iff.mp rfl) (by decide) (by decide +kernel)
  have hx : (feedAll (receive RedisBlock.blockClass) (start RedisBlock.blockClass 9 0 16)
      [text "$1\r\na\r\n", text "$1\r\nb\r\n"]).toOption.any
      (fun x => x.1.recvList == [text "a", text "$"]) = true := by decide +kernel
  have hy : (feedAll (receive RedisBlock2.blockClass) (start RedisBlock2.blockClass 9 0 16)
      [text "$1\r\na\r\n", text "$1\r\nb\r\n"]).toOption.any
      (fun y => y.1.parse.recvList == [text "a"]) = true := by decide +kernel
  rcases exists_ok_of_any hx with ⟨x, hx, hlist⟩
  rcases exists_ok_of_any hy with ⟨y, hy, hlist'⟩
  rw [beq_iff_eq] at hlist hlist'
  refine ⟨x, y, hfit, hx, hy, hlist, hlist', ?_⟩
  rintro ⟨-, -, ⟨es, hes, hes'⟩, -⟩
  -- the two lists have different lengths
  rw [hlist] at hes
  rw [hlist'] at hes'
  have h2 := congrArg List.length hes
  have h1 := congrArg List.length hes'
  simp only [values, List.length_map, List.length_cons, List.length_nil] at h1 h2
  omega

end FannyNet

import FannyNet.Pipelining
import FannyNet.ResultBuffer

/-!
# Error and integer replies

The replies whose value is taken from their line: of an error line both parsers drop four
bytes, the type byte and what should be `ERR` and a blank, and `RedisBlock` converts an
integer to an `int` before it completes.

Main results:

- Theorem `ReadsReplies.line_throws`: a line that throws ends the run, however it is cut.
- Theorem `ReadsReplies.error_line`: what an error line is reported as.
- Theorem `error_reported_never`: no error line is reported faithfully.
- Theorem `RedisBlock.int_reply_kept_iff`: the integers that are kept.
-/

namespace FannyNet

open Library Library.Incremental

section
variable {cfg : ReaderConfig} [LexicalCast]

/-- Inside a line the decoder waits, and goes on where it stopped. -/
theorem waits_in_line {l x y : Bytes} (hl : Clean l) (hxy : x ++ y = l ++ REDIS_LBR)
    (hy : y ≠ []) : ∃ a, (replyDecoder cfg).feed Reader.fresh x = .ok (.inl a) ∧
      ∀ z, (replyDecoder cfg).feed a z = (replyDecoder cfg).feed Reader.fresh (x ++ z) := by
  rw [← List.append_nil (l ++ REDIS_LBR)] at hxy
  rcases line_prefix hl hxy with hfree | ⟨w, -, hw⟩
  · refine ⟨⟨.start, x, []⟩, feed_replyDecoder_of_open (feed_fresh_of_free hfree) rfl, ?_⟩
    intro z
    have hheld : Reader.feed cfg ⟨.start, x, []⟩ z = Reader.fresh.feed cfg (x ++ z) :=
      Reader.feed_held hfree (Or.inl rfl) [] z []
    simp only [replyDecoder, hheld]
  · exact absurd (List.append_eq_nil_iff.mp hw).2 hy

variable {β : Type} {K : BlockClass β} (R : ReadsReplies K cfg)
include R

/-- A line on which the reader fails ends the run, however it is cut. -/
theorem ReadsReplies.line_throws {l : Bytes} (hl : Clean l) {e : Exn}
    (hline : startLine cfg l [] = .error e) {cs : List Bytes} (hcs : cs.flatten = l ++ REDIS_LBR)
    {s : SessionId} {size : Nat}
    (hfit : Connection.ReadsFit K (Connection.accepted s size, []) cs) :
    feedAll (Connection.readSome K) (Connection.accepted s size, []) cs = .error (.thrown e) := by
  have hfeed : Reader.fresh.feed cfg (l ++ REDIS_LBR ++ []) = startLine cfg l [] :=
    feed_fresh_line hl []
  rw [List.append_nil, hline] at hfeed
  have hruns : (replyDecoder cfg).Runs Reader.fresh cs [] (.error e) := by
    apply lawful_replyDecoder.runs_fail _ (feed_replyDecoder_of_error hfeed) hcs
    intro x y hxy hy
    exact waits_in_line hl hxy hy
  exact Decodes.reads_of_runs hruns (Decodes.reading_accepted (R := R.decodes) s size) hfit

/-! ## Error replies -/

/-- A run of reads that posts one error reply, with a message. -/
def ReadsReplies.PostsError (cs : List Bytes) (s : SessionId) (size : Nat) (m : Bytes) : Prop :=
  ∃ conn k, feedAll (Connection.readSome K) (Connection.accepted s size, []) cs = .ok (conn, [k]) ∧
    R.type k = .errorReply ∧ R.recvList k = [m]

/-- What an error line is reported as: all but its first four bytes, if it has as many. -/
theorem ReadsReplies.error_line {u : Bytes} (hu : Clean u) {cs : List Bytes}
    (hcs : cs.flatten = REDIS_PREFIX_STATUS_REPLY_ERR_C :: u ++ REDIS_LBR) {s : SessionId}
    {size : Nat} (hfit : Connection.ReadsFit K (Connection.accepted s size, []) cs) :
    if u.length < 3 then
      feedAll (Connection.readSome K) (Connection.accepted s size, []) cs =
        .error (.thrown .outOfRange)
    else R.PostsError cs s size (u.drop 3) := by
  split
  · rename_i hlen
    have hclean := Single.clean_headLine (.error ⟨u, hu⟩)
    apply R.line_throws hclean _ hcs hfit
    have htype : getReplyType (REDIS_PREFIX_STATUS_REPLY_ERR_C :: u) = .errorReply := rfl
    have hshort : (REDIS_PREFIX_STATUS_REPLY_ERR_C :: u).length < 4 := by
      rw [List.length_cons]
      omega
    simp only [Single.headLine, startLine, htype, substr_of_lt hshort, error_bind]
  · rename_i hlen
    have hfits : ∀ r ∈ [Single.error ⟨u, hu⟩], r.Fits cfg := by
      intro r hr
      rw [List.mem_singleton.mp hr]
      exact Nat.not_lt.mp hlen
    have hencode : cs.flatten = [Single.error ⟨u, hu⟩].flatMap Single.encode := by
      rw [hcs, List.flatMap_singleton]
      exact (List.append_nil _).symm
    rcases R.reads_of_pipelined hfits hencode hfit with ⟨conn, blocks, hreads, hblocks, -⟩
    rcases List.map_eq_singleton_iff.mp hblocks with ⟨k, rfl, hk⟩
    rw [Prod.mk.injEq] at hk
    exact ⟨conn, k, hreads, hk.1, hk.2⟩

end

/-- A message reports the text of an error line: what follows `ERR` and a blank, or else
nothing of the text is lost. -/
def ReportsError (u m : Bytes) : Prop :=
  (∀ t, u = text "ERR " ++ t → m = t) ∧ ((∀ t, u ≠ text "ERR " ++ t) → u.Sublist m)

/-- Without its first three bytes a text is not reported. -/
theorem not_reportsError_drop {u : Bytes} (hne : u ≠ []) : ¬ ReportsError u (u.drop 3) := by
  rintro ⟨herr, hother⟩
  by_cases h : ∃ t, u = text "ERR " ++ t
  · rcases h with ⟨t, rfl⟩
    have hlen := congrArg List.length (herr t rfl)
    have hprefix : (text "ERR ").length = 4 := rfl
    rw [List.length_drop, List.length_append, hprefix] at hlen
    omega
  · rw [not_exists] at h
    have hlen := (hother h).length_le
    have hpos := List.length_pos_iff.mpr hne
    rw [List.length_drop] at hlen
    omega

section
variable [LexicalCast]

/-- No error line is reported faithfully. -/
theorem ReadsReplies.error_not_reported {cfg : ReaderConfig} {β : Type} {K : BlockClass β}
    (R : ReadsReplies K cfg) {u : Bytes} (hu : Clean u) (hne : u ≠ []) {cs : List Bytes}
    (hcs : cs.flatten = REDIS_PREFIX_STATUS_REPLY_ERR_C :: u ++ REDIS_LBR) {s : SessionId}
    {size : Nat} (hfit : Connection.ReadsFit K (Connection.accepted s size, []) cs) :
    ¬ ∃ m, R.PostsError cs s size m ∧ ReportsError u m := by
  rintro ⟨m, ⟨conn, k, hreads, -, hm⟩, hreports⟩
  have hline := R.error_line hu hcs hfit
  split at hline
  · rw [hline] at hreads
    cases hreads
  · rcases hline with ⟨conn', k', hreads', -, hdrop⟩
    rw [hreads] at hreads'
    cases hreads'
    rw [hm, List.singleton_inj] at hdrop
    rw [hdrop] at hreports
    exact not_reportsError_drop hne hreports

/-- Neither class reports an error line faithfully, however it is cut. -/
theorem error_reported_never {u : Bytes} (hu : Clean u) (hne : u ≠ []) {cs : List Bytes}
    (hcs : cs.flatten = REDIS_PREFIX_STATUS_REPLY_ERR_C :: u ++ REDIS_LBR) {s : SessionId}
    {size : Nat} :
    (Connection.ReadsFit RedisBlock2.blockClass (Connection.accepted s size, []) cs →
      ¬ ∃ m, RedisBlock2.readsReplies.PostsError cs s size m ∧ ReportsError u m) ∧
    (Connection.ReadsFit RedisBlock.blockClass (Connection.accepted s size, []) cs →
      ¬ ∃ m, RedisBlock.readsReplies.PostsError cs s size m ∧ ReportsError u m) :=
  ⟨RedisBlock2.readsReplies.error_not_reported hu hne hcs,
    RedisBlock.readsReplies.error_not_reported hu hne hcs⟩

end

/-- An error in two reads. -/
theorem error_reported_never_wrongtype :
    (¬ ∃ m, RedisBlock2.readsReplies.PostsError [text "-WRONGT", text "YPE\r\n"] 9 32 m ∧
        ReportsError (text "WRONGTYPE") m) ∧
      ¬ ∃ m, RedisBlock.readsReplies.PostsError [text "-WRONGT", text "YPE\r\n"] 9 32 m ∧
        ReportsError (text "WRONGTYPE") m := by
  have hcs : [text "-WRONGT", text "YPE\r\n"].flatten =
      REDIS_PREFIX_STATUS_REPLY_ERR_C :: text "WRONGTYPE" ++ REDIS_LBR := by decide
  constructor
  · exact (error_reported_never (by decide) (by decide) hcs).1 (by decide +kernel)
  · exact (error_reported_never (by decide) (by decide) hcs).2 (by decide +kernel)

/-- The message of `-ERR no` begins with the blank, and `-NO` throws. -/
theorem error_replies_misreported :
    (RedisBlock2.readsReplies.PostsError [text "-ERR no\r\n"] 9 32 (text " no") ∧
      RedisBlock.readsReplies.PostsError [text "-ERR no\r\n"] 9 32 (text " no") ∧
      ¬ ReportsError (text "ERR no") (text " no")) ∧
    (feedAll (Connection.readSome RedisBlock2.blockClass) (Connection.accepted 9 32, [])
        [text "-NO\r\n"] = .error (.thrown .outOfRange) ∧
      feedAll (Connection.readSome RedisBlock.blockClass) (Connection.accepted 9 32, [])
        [text "-NO\r\n"] = .error (.thrown .outOfRange)) := by
  have hline : Clean (text "ERR no") := by decide
  refine ⟨⟨?_, ?_, not_reportsError_drop (by decide)⟩, ?_, ?_⟩
  · exact RedisBlock2.readsReplies.error_line hline (by decide) (by decide +kernel)
  · exact RedisBlock.readsReplies.error_line hline (by decide) (by decide +kernel)
  · exact RedisBlock2.readsReplies.error_line (u := text "NO") (by decide) (by decide)
      (by decide +kernel)
  · exact RedisBlock.readsReplies.error_line (u := text "NO") (by decide) (by decide)
      (by decide +kernel)

/-! ## Integer replies -/

namespace RedisBlock

/-- The block returns an integer, and holds it in its `m_data`. -/
def HoldsInt [LexicalCast] (k : RedisBlock) (n : Int) : Prop :=
  k.getIntReply = .ok n ∧
    ∃ d d', k.data = some d ∧ readResult d = some (d', .intReply, .int n)

section
variable [LexicalCast]

/-- A completed integer reply holds its value. -/
theorem Result.holdsInt {k : RedisBlock} (h : k.Result) (htype : k.type = .intReply) {t : Bytes}
    (hlist : k.recvList = [t]) {n : Int} (hcast : lexicalCast t = .ok n) : k.HoldsInt n := by
  have hsize : k.recvSize ≤ PTRDIFF_MAX := by
    rw [h.recvSize, htype]
    exact Nat.le_of_ble_eq_true rfl
  rcases h.exact hsize with ⟨d, d', x, hd, -, -, hread, hshows, -⟩
  rw [htype] at hread
  rw [hlist] at hshows
  rcases exists_int_of_readResult hread with ⟨v, rfl⟩
  rcases hshows with ⟨t', ht, hv⟩
  rw [← List.singleton_inj.mp ht, hcast, Except.ok.injEq] at hv
  subst hv
  refine ⟨?_, d, d', hd, hread⟩
  have hcheck : k.checkReplyT .intReply = .ok () := by simp [checkReplyT, htype, h.done]
  rw [getIntReply, hcheck, ok_bind, hlist]
  exact hcast

/-- An integer is kept if and only if it fits an `int`, however the reply is cut. -/
theorem int_reply_kept_iff {n : Int} {cs : List Bytes}
    (hcs : cs.flatten = REDIS_PREFIX_INT_REPLY :: Decimal.intDecimal n ++ REDIS_LBR)
    {s : SessionId} {size : Nat}
    (hfit : Connection.ReadsFit blockClass (Connection.accepted s size, []) cs) :
    (∃ conn k, feedAll (Connection.readSome blockClass) (Connection.accepted s size, []) cs =
        .ok (conn, [k]) ∧ k.HoldsInt n) ↔ INT_MIN ≤ n ∧ n ≤ INT_MAX := by
  constructor
  · rintro ⟨conn, k, -, hget, -⟩
    exact (lexicalCast_eq_ok_iff.mp (getIntReply_ok hget)).2
  · intro hrange
    have hfits : ∀ r ∈ [Single.int n], r.Fits readerConfig := by
      intro r hr
      rw [List.mem_singleton.mp hr]
      exact fun _ => hrange
    have hencode : cs.flatten = [Single.int n].flatMap Single.encode := by
      rw [hcs, List.flatMap_singleton]
      exact (List.append_nil _).symm
    rcases readsReplies.reads_of_pipelined hfits hencode hfit with
      ⟨conn, blocks, hreads, hblocks, -⟩
    rcases List.map_eq_singleton_iff.mp hblocks with ⟨k, rfl, hk⟩
    rw [Prod.mk.injEq] at hk
    have hresult : k.Result := by
      apply keeps_counted.posted _ _ hreads k List.mem_cons_self
      · exact Connection.waiting_accepted s size
      · exact List.forall_mem_nil Result
    have hcast : lexicalCast (Decimal.intDecimal n) = .ok n :=
      lexicalCast_eq_ok_iff.mpr ⟨Decimal.isIntText_intDecimal n, hrange⟩
    exact ⟨conn, k, hreads, hresult.holdsInt hk.1 hk.2 hcast⟩

/-- An integer that does not fit throws out of the read handler. -/
theorem int_reply_throws {n : Int} (hn : ¬ (INT_MIN ≤ n ∧ n ≤ INT_MAX)) {cs : List Bytes}
    (hcs : cs.flatten = REDIS_PREFIX_INT_REPLY :: Decimal.intDecimal n ++ REDIS_LBR)
    {s : SessionId} {size : Nat}
    (hfit : Connection.ReadsFit blockClass (Connection.accepted s size, []) cs) :
    feedAll (Connection.readSome blockClass) (Connection.accepted s size, []) cs =
      .error (.thrown .badLexicalCast) := by
  apply readsReplies.line_throws (Single.clean_headLine (.int n)) _ hcs hfit
  have hcast : lexicalCast (Decimal.intDecimal n) = .error .badLexicalCast := by
    apply lexicalCast_eq_error_iff.mpr
    refine ⟨rfl, fun m hm => hn ?_⟩
    rw [← hm.1.unique (Decimal.isIntText_intDecimal n)]
    exact hm.2
  have htype : getReplyType (REDIS_PREFIX_INT_REPLY :: Decimal.intDecimal n) = .intReply := rfl
  have hcasts : readerConfig.castsInteger = true := rfl
  simp only [Single.headLine, startLine, htype, substr_cons_one, ok_bind]
  rw [if_pos hcasts, hcast, error_bind]

end

/-- A negative integer in two reads. -/
theorem int_reply_kept_iff_neg :
    ∃ conn k, feedAll (Connection.readSome blockClass) (Connection.accepted 9 32, [])
      [text ":-7\r", text "\n"] = .ok (conn, [k]) ∧ k.HoldsInt (-7) := by
  have hcs : [text ":-7\r", text "\n"].flatten =
      REDIS_PREFIX_INT_REPLY :: Decimal.intDecimal (-7) ++ REDIS_LBR := by decide +kernel
  exact (int_reply_kept_iff hcs (by decide +kernel)).mpr (by decide)

/-- Past the range of an `int` this class throws, where `RedisBlock2` keeps the text. -/
theorem int_reply_lost :
    feedAll (Connection.readSome blockClass) (Connection.accepted 9 32, [])
        [text ":3000000000\r\n"] = .error (.thrown .badLexicalCast) ∧
      ∃ conn k, feedAll (Connection.readSome RedisBlock2.blockClass) (Connection.accepted 9 32, [])
          [text ":3000000000\r\n"] = .ok (conn, [k]) ∧
        k.parse.type = .intReply ∧ k.parse.recvList = [Decimal.intDecimal 3000000000] := by
  have hcs : [text ":3000000000\r\n"].flatten =
      REDIS_PREFIX_INT_REPLY :: Decimal.intDecimal 3000000000 ++ REDIS_LBR := by decide +kernel
  constructor
  · exact int_reply_throws (by decide) hcs (by decide +kernel)
  · exact ⟨_, _, rfl, rfl, by decide +kernel⟩

end RedisBlock

end FannyNet

import FannyNet.Library.Codes
import FannyNet.Pipelining
import FannyNet.WholeReply
import FannyNet.Transfer

/-!
# Batches of commands and replies

A client that pipelines sends its commands one behind the other, and the replies come back in
reads of any number of them.

Main results:

- Theorem `Command.batch_prefix_iff`: the bytes of a batch of commands determine the commands.
- Theorem `ReadsReplies.reads_batches`: reads that bring whole replies are read exactly.
- Theorem `Link.replies_arrive`: single replies over a link, cut in any way.
-/

namespace FannyNet

open Library Library.Incremental Library.Transition Library.Decoder

/-! ## Commands -/

/-- The arguments of `makeCommand`. -/
structure Command where
  cmd : Bytes
  args : List Bytes
deriving DecidableEq, Repr

namespace Command

def encode (c : Command) : Bytes :=
  makeCommand c.cmd c.args

def words (c : Command) : List Bytes :=
  c.cmd :: c.args

theorem words_injective : Function.Injective words := by
  intro c d h
  cases c with
  | mk cmd args =>
      cases d with
      | mk cmd' args' =>
          rcases List.cons.inj h with ⟨hcmd, hargs⟩
          cases hcmd
          cases hargs
          rfl

/-- A number on a line of its own is read from the front. -/
theorem readable_number (mark : UInt8) :
    Readable fun n => (mark :: Decimal.decimal n) ++ REDIS_LBR := by
  have hinj : Function.Injective Decimal.decimal := by
    intro m n h
    rw [← Decimal.value_decimal m, h, Decimal.value_decimal]
  have hfree : ∀ n, CR ∉ Decimal.decimal n := by
    intro n hmem
    exact absurd (Decimal.decimal_isDigit hmem) (by decide)
  exact (Readable.terminated hinj hfree [LF]).after [mark]

theorem readable_bulkString : Readable bulkString :=
  (readable_number REDIS_PREFIX_SINGLE_BULK_REPLY).sized REDIS_LBR

/-- A command is read from the front, whatever is in its words. -/
theorem readable_encode : Readable encode := by
  have hcounted := (readable_number REDIS_PREFIX_MULTI_BULK_REPLY).counted readable_bulkString
  exact hcounted.comp words_injective

theorem encode_ne_nil (c : Command) : c.encode ≠ [] := by
  simp [encode, makeCommand]

/-- The bytes of one batch of commands are the beginning of those of another exactly if its
commands are the first of the other, whatever is in their words. -/
theorem batch_prefix_iff {cs ds : List Command} :
    cs.flatMap encode <+: ds.flatMap encode ↔ cs <+: ds :=
  readable_encode.flatMap_prefix_iff encode_ne_nil

end Command

/-! ## Batches of replies -/

section
variable {cfg : ReaderConfig} [LexicalCast]

/-- Replies of any shape are read back by the decoder, whatever follows them. -/
theorem feed_whole_reply (r : Reply) (rest : Bytes) (hr : r.Fits cfg) :
    (replyDecoder cfg).feed (replyDecoder cfg).init (r.encode ++ rest) =
      .ok (.inr ((r.type, r.items cfg.missing), rest)) :=
  feed_replyDecoder_of_done (feed_reply hr rest)

/-- What the blocks of a class show of the replies that were decoded. -/
theorem ReadsReplies.shown_of_shows {β : Type} {K : BlockClass β} (R : ReadsReplies K cfg)
    {ms : List (ReplyT × List Bytes)} {blocks : List β}
    (h : List.Forall₂ R.decodes.Shows ms blocks) :
    blocks.map (fun k => (R.type k, R.recvList k)) = ms := by
  induction h with
  | nil => rfl
  | cons hshows _ ih => rw [List.map_cons, ih, hshows.1, hshows.2]

/-- Reads that each bring any number of whole replies, arrays among them: one block is posted for
each, with its type and values, and nothing is left over. -/
theorem ReadsReplies.reads_batches {β : Type} {K : BlockClass β} (R : ReadsReplies K cfg)
    {batches : List (List Reply)} (hfits : ∀ rs ∈ batches, ∀ r ∈ rs, r.Fits cfg) {s : SessionId}
    {size : Nat}
    (hroom : Connection.ReadsFit K (Connection.accepted s size, [])
      (batches.map (List.flatMap Reply.encode))) :
    ∃ conn blocks,
      feedAll (Connection.readSome K) (Connection.accepted s size, [])
          (batches.map (List.flatMap Reply.encode)) = .ok (conn, blocks) ∧
        blocks.map (fun k => (R.type k, R.recvList k)) =
          batches.flatten.map (fun r => (r.type, r.items cfg.missing)) ∧
        conn.waitMessage = none ∧ conn.bufferRecv.length = 0 := by
  have hlawful : (replyDecoder cfg).Lawful (Reader.Open cfg) := lawful_replyDecoder
  have hruns := hlawful.runs_batches feed_whole_reply hfits
  rcases Decodes.reads_of_runs hruns (Decodes.reading_accepted (R := R.decodes) s size) hroom with
    ⟨conn, blocks, hreads, hall, hconn⟩
  exact ⟨conn, blocks, hreads, R.shown_of_shows hall, hconn.at_rest⟩

end

/-- An array and a nil, then a nil array and an integer. -/
def twoBatches : List (List Reply) :=
  [[helloReply, .single .nil], [.nilArray, .single (.int (-7))]]

theorem ReadsReplies.reads_twoBatches :
    ∃ conn blocks,
      feedAll (Connection.readSome RedisBlock.blockClass) (Connection.accepted 9 32, [])
          (twoBatches.map (List.flatMap Reply.encode)) = .ok (conn, blocks) ∧
        blocks.map (fun k => (k.type, k.recvList)) =
          twoBatches.flatten.map
            (fun r => (r.type, r.items RedisBlock.readerConfig.missing)) ∧
        conn.waitMessage = none ∧ conn.bufferRecv.length = 0 := by
  refine RedisBlock.readsReplies.reads_batches ?_ (by decide +kernel)
  have hhello : helloReply.Fits RedisBlock.readerConfig := by
    refine arrayFits_iff.mpr ⟨by simp, by decide, ?_⟩
    intro body hbody
    rw [List.mem_singleton, Option.some.injEq] at hbody
    subst hbody
    decide +kernel
  have hint : (Reply.single (.int (-7))).Fits RedisBlock.readerConfig := by
    intro _
    decide
  intro rs hrs r hr
  simp only [twoBatches, List.mem_cons, List.not_mem_nil, or_false] at hrs
  rcases hrs with rfl | rfl
  · simp only [List.mem_cons, List.not_mem_nil, or_false] at hr
    rcases hr with rfl | rfl
    · exact hhello
    · trivial
  · simp only [List.mem_cons, List.not_mem_nil, or_false] at hr
    rcases hr with rfl | rfl
    · trivial
    · exact hint

/-! ## Replies over a link -/

namespace Link

section
variable {cfg : ReaderConfig} [LexicalCast]

/-- Single replies that are handed to `send` at one end, in blocks of any size: what has been
posted at the other end are the first of them, whatever the ends and the transport do. -/
theorem replies_arrive {β : Type} {K : BlockClass β} (R : ReadsReplies K cfg)
    (sid : Side → SessionId) {size : Nat} {l : Link β} {as : List LinkAction}
    (honce : Along (Link.step K) ComesUpOnce (create sid size) as)
    (h : run (Link.step K) (create sid size) as = some l) {x : Side} {replies : List Single}
    (hfits : ∀ r ∈ replies, r.Fits cfg)
    (hsent : unreadAll (l.conn x).accepted = replies.flatMap Single.encode) :
    ((l.conn x.other).messages.map fun k => (R.type k, R.recvList k)) <+:
      replies.map fun r => (r.type, [r.item cfg.missing]) := by
  have hlawful : (replyDecoder cfg).Lawful (Reader.Open cfg) := lawful_replyDecoder
  have hall := hlawful.pumps_flatMap reads_single.complete hfits
  have hstream : EncodedStream (Single.Fits cfg) Single.encode
      (unreadAll (l.conn x).accepted) := ⟨replies, hfits, by rw [hsent]⟩
  rw [← hsent] at hall
  rcases delivers_prefix (R := R.decodes) (reads_single.resumable hlawful) sid honce h
    hstream hall with ⟨ms, hpref, hshows⟩
  rw [R.shown_of_shows hshows]
  exact hpref

end

/-- A nil and an integer in one block; the end of the integer is still under way. -/
def repliesUnderWay : List LinkAction :=
  [.act .near .postAccept, .act .near (.handler .handlAccept), .act .far .connect,
    .act .far (.handler (.handleConnect false)),
    .act .near (.send (ConnState.filled (text "$-1\r\n:7\r\n"))),
    .act .near (.handler (.writeMessage 0)), .carry .near 6,
    .act .far (.handler (.handleReadSome 0 false (text "$-1\r"))), .carry .near 3,
    .act .far (.handler (.handleReadSome 0 false (text "\n:7")))]

theorem replies_arrive_underWay :
    ∃ l, run (Link.step RedisBlock2.blockClass) (create (fun _ => 1) 32) repliesUnderWay = some l ∧
      (l.conn .far).messages.length = 1 ∧
      ((l.conn .far).messages.map fun k => (k.parse.type, k.parse.recvList)) <+:
        [Single.nil, Single.int 7].map fun r => (r.type, [r.item RedisParse.REDIS_MISSING]) := by
  have hrun : (run (Link.step RedisBlock2.blockClass) (create (fun _ => 1) 32)
      repliesUnderWay).any (fun l => (l.conn .far).messages.length = 1 ∧
        unreadAll (l.conn .near).accepted = [Single.nil, Single.int 7].flatMap Single.encode) =
          true := by
    decide +kernel
  have hfits : ∀ r ∈ [Single.nil, Single.int 7], r.Fits RedisParse.readerConfig := by
    intro r hr
    simp only [List.mem_cons, List.not_mem_nil, or_false] at hr
    rcases hr with rfl | rfl
    · trivial
    · intro _
      decide
  rcases (Option.any_eq_true _ _).mp hrun with ⟨l, hl, hvalues⟩
  rw [decide_eq_true_eq] at hvalues
  exact ⟨l, hl, hvalues.1, replies_arrive RedisBlock2.readsReplies (fun _ => 1) (by decide +kernel)
    hl hfits hvalues.2⟩

end Link

end FannyNet

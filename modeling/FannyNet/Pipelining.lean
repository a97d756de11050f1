import FannyNet.Fragmentation
import FannyNet.ReplyStream

/-!
# Pipelined replies

Single replies one behind the other.  Every position of such a stream is resumable,
so that the read loop posts the replies however the stream is cut.

Main results:

- Theorem `reads_single`: the reply decoder reads back single replies.
- Theorem `RedisBlock2.reads_pipelined`: one block is posted for each reply.
-/

namespace FannyNet

open Library Library.Incremental

section
variable {cfg : ReaderConfig} [LexicalCast]

/-- A reader inside a single reply goes on where it stopped. -/
theorem feed_resume_single {s : Single} (hs : s.Fits cfg) {x y : Bytes} (h : x ++ y = s.encode)
    (hy : y ≠ []) : ∃ a, Reader.fresh.feed cfg x = .ok a ∧ a.Open cfg ∧
      ∀ z, a.feed cfg z = Reader.fresh.feed cfg (x ++ z) := by
  have hfits : (Reply.single s).Fits cfg := hs
  rcases feed_prefix_open hfits h hy with ⟨a, hx, hopen⟩
  have hleft : a.Open cfg := by
    rcases Reader.feed_ok (a := Reader.fresh) trivial hx with ⟨hleft, -⟩ | ⟨hdone, -⟩
    · exact hleft
    · exact absurd hdone hopen
  refine ⟨a, hx, hleft, ?_⟩
  intro z
  by_cases hz : z = []
  · subst hz
    rw [Reader.feed_nil hleft, List.append_nil, hx]
  · have hres := resumable_of_not_insideBody hfits h hy (fun hinside => hinside) z hz
    rw [hres, hx]
    rfl

/-- The reply decoder reads back single replies, and can stop anywhere in them. -/
theorem reads_single : (replyDecoder cfg).Reads (Single.Fits cfg) Single.encode
    fun s => (s.type, [s.item cfg.missing]) where
  complete s rest hs := feed_replyDecoder_of_done (feed_single hs rest)
  wait := by
    intro s x y hs h hy
    rcases feed_resume_single hs h hy with ⟨a, hx, hleft, hresume⟩
    refine ⟨a, feed_replyDecoder_of_open hx hleft.isDone_eq, ?_⟩
    intro z
    simp only [replyDecoder, hresume z]

/-- A class that reads replies posts the replies of a stream, however it is cut. -/
theorem ReadsReplies.reads_of_pipelined {β : Type} {K : BlockClass β} (R : ReadsReplies K cfg)
    {replies : List Single} (hfits : ∀ r ∈ replies, r.Fits cfg) {cs : List Bytes}
    (hcs : cs.flatten = replies.flatMap Single.encode) {s : SessionId} {size : Nat}
    (hfit : Connection.ReadsFit K (Connection.accepted s size, []) cs) :
    ∃ conn blocks,
      feedAll (Connection.readSome K) (Connection.accepted s size, []) cs = .ok (conn, blocks) ∧
      blocks.map (fun k => (R.type k, R.recvList k)) =
        replies.map (fun r => (r.type, [r.item cfg.missing])) ∧
      conn.waitMessage = none ∧ conn.bufferRecv.length = 0 := by
  have hruns := reads_single.runs_flatMap lawful_replyDecoder hfits hcs
  rcases Decodes.reads_of_runs hruns (Decodes.reading_accepted (R := R.decodes) s size) hfit with
    ⟨conn, blocks, hreads, hall, hconn⟩
  refine ⟨conn, blocks, hreads, ?_, hconn.at_rest⟩
  clear hreads hruns hcs
  rw [List.forall₂_map_left_iff] at hall
  induction hall with
  | nil => rfl
  | cons hshows _ ih =>
      rw [List.map_cons, List.map_cons, ih fun r hr => hfits r (by simp [hr]), hshows.1, hshows.2]

/-- However the stream of single replies is cut, `RedisBlock2` blocks are posted one
for each reply, in order, with its type and content; nothing is left over. -/
theorem RedisBlock2.reads_pipelined {replies : List Single}
    (hfits : ∀ r ∈ replies, r.Fits RedisParse.readerConfig) {cs : List Bytes}
    (hcs : cs.flatten = replies.flatMap Single.encode) {s : SessionId} {size : Nat}
    (hfit : Connection.ReadsFit RedisBlock2.blockClass (Connection.accepted s size, []) cs) :
    ∃ conn blocks,
      feedAll (Connection.readSome RedisBlock2.blockClass) (Connection.accepted s size, []) cs =
        .ok (conn, blocks) ∧
      blocks.map (fun k => (k.parse.type, k.parse.recvList)) =
        replies.map (fun r => (r.type, [r.item RedisParse.REDIS_MISSING])) ∧
      conn.waitMessage = none ∧ conn.bufferRecv.length = 0 :=
  RedisBlock2.readsReplies.reads_of_pipelined hfits hcs hfit

end

/-- A status, a bulk string with a line end in it, an error, a nil and an integer. -/
def fiveReplies : List Single :=
  [.status ⟨text "OK", by decide⟩, .bulk (text "a\r\nb"), .error ⟨text "ERR no", by decide⟩, .nil,
    .int (-7)]

/-- Five replies in four reads, with cuts inside a line end and inside a body. -/
theorem RedisBlock2.reads_fiveReplies :
    ∃ conn blocks,
      feedAll (Connection.readSome RedisBlock2.blockClass) (Connection.accepted 9 32, [])
          [text "+OK\r", text "\n$4\r\na\r", text "\nb\r\n-ERR no\r\n$", text "-1\r\n:-7\r\n"] =
        .ok (conn, blocks) ∧
      blocks.map (fun k => (k.parse.type, k.parse.recvList)) =
        fiveReplies.map (fun r => (r.type, [r.item RedisParse.REDIS_MISSING])) ∧
      conn.waitMessage = none ∧ conn.bufferRecv.length = 0 := by
  refine RedisBlock2.reads_pipelined ?_ (by decide +kernel) (by decide +kernel)
  intro r hr
  simp only [fiveReplies, List.mem_cons, List.not_mem_nil, or_false] at hr
  rcases hr with rfl | rfl | rfl | rfl | rfl
  · trivial
  · exact (by decide +kernel : ((text "a\r\nb").length : Int) ≤ INT_MAX - 2)
  · exact (by decide +kernel : 3 ≤ (text "ERR no").length)
  · trivial
  · intro h
    cases h

end FannyNet

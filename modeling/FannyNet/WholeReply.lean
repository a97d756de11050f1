import FannyNet.Reply
import FannyNet.ReplyClass

/-!
# One reply in one buffer

What the parsers do with a buffer that starts with a complete multi-bulk reply:
`RedisCommand::makeCommand` is read back, and an array ends where it ends unless it
is empty.

Main results:

- Theorem `RedisParse.parse_makeCommand`: parsing a command gives the command and
  its arguments, and leaves the trailing bytes.
- Theorem `multiBulk_endsExactly_iff`: the arrays that both parsers read exactly.
- Theorem `multiBulk_empty_overruns`: the reply to the next request is read as
  an element of an empty array.
-/

namespace FannyNet

open Library

/-! ## Commands on the wire -/

/-- A command on the wire is the array of its words. -/
theorem makeCommand_eq (cmd : Bytes) (args : List Bytes) :
    makeCommand cmd args = encodeArray ((cmd :: args).map some) := by
  have hwords : ∀ ws : List Bytes, ws.flatMap bulkString = encodeElements (ws.map some) := by
    intro ws
    induction ws with
    | nil => rfl
    | cons w ws ih =>
        rw [List.flatMap_cons, ih]
        rfl
  rw [encodeArray, ← hwords (cmd :: args), List.flatMap_cons, List.length_map]
  rfl

section
variable [LexicalCast]

/-! ## `RedisParse` on a whole buffer -/

namespace RedisParse

/-- A fresh parser completes a reply when its reader does, at the position where the
reply ends. -/
theorem parse_of_feed {buf : Bytes} {t : ReplyT} {rest : Bytes} {items : List Bytes}
    (h : Reader.fresh.feed readerConfig buf = .ok ⟨.done t, rest, items⟩) :
    ∃ p, ({} : RedisParse).parse buf 0 = .ok (p, buf.length - rest.length, true) ∧
      p.isDone = true ∧ p.type = t ∧ p.recvList = items := by
  have hparse := parse_refines waits_fresh rfl buf
  rw [List.nil_append] at hparse
  cases hres : ({} : RedisParse).parse buf 0 with
  | error e =>
      rw [hres] at hparse
      rw [show Reader.fresh.feed readerConfig buf = .error e from hparse] at h
      cases h
  | ok x =>
      rcases x with ⟨p, pos, r⟩
      rw [hres] at hparse
      rcases hparse with ⟨hfeed, hpos, hwaits⟩
      have heq : p.reader (buf.drop pos) = ⟨.done t, rest, items⟩ :=
        Except.ok.inj (hfeed.symm.trans h)
      have hdone : p.done = true := by
        rw [← isDone_reader p (buf.drop pos), heq]
        rfl
      rw [reader_of_done hwaits hdone] at heq
      simp only [Reader.mk.injEq, Phase.done.injEq] at heq
      have hlen : pos = buf.length - rest.length := by
        rw [← heq.2.1, List.length_drop]
        omega
      have hr : r = true := parse_result hres hdone
      exact ⟨p, by rw [hlen, hr], hdone, heq.1, heq.2.2⟩

/-- A fresh parser that is done has read what its reader reads. -/
theorem feed_of_parse {buf : Bytes} {p : RedisParse} {pos : Nat} {r : Bool}
    (h : ({} : RedisParse).parse buf 0 = .ok (p, pos, r)) (hdone : p.isDone = true) :
    Reader.fresh.feed readerConfig buf = .ok ⟨.done p.type, buf.drop pos, p.recvList⟩ := by
  have hparse := parse_refines waits_fresh rfl buf
  rw [List.nil_append, h] at hparse
  rcases hparse with ⟨hfeed, -, hwaits⟩
  rw [← reader_of_done hwaits hdone]
  exact hfeed

/-- A fresh parser throws when its reader does. -/
theorem parse_error_iff {buf : Bytes} {e : Exn} :
    ({} : RedisParse).parse buf 0 = .error e ↔ Reader.fresh.feed readerConfig buf = .error e := by
  have hparse := parse_refines waits_fresh rfl buf
  rw [List.nil_append] at hparse
  cases hres : ({} : RedisParse).parse buf 0 with
  | error f =>
      rw [hres] at hparse
      rw [show Reader.fresh.feed readerConfig buf = .error f from hparse]
      simp
  | ok x =>
      rw [hres] at hparse
      rw [show Reader.fresh.feed readerConfig buf = .ok _ from hparse.1]
      simp

/-! ## Commands -/

/-- Parsing a command gives the command and its arguments, and leaves the trailing
bytes. -/
theorem parse_makeCommand {cmd : Bytes} {args : List Bytes}
    (hcmd : (cmd.length : Int) ≤ INT_MAX - 2)
    (hargs : ∀ arg ∈ args, (arg.length : Int) ≤ INT_MAX - 2)
    (hcount : (args.length : Int) ≤ INT_MAX - 1) (trailing : Bytes) :
    ∃ p, ({} : RedisParse).parse (makeCommand cmd args ++ trailing) 0 =
        .ok (p, (makeCommand cmd args).length, true) ∧
      p.isDone = true ∧ p.type = .multiBulkReply ∧ p.recvList = cmd :: args := by
  have hfits : ArrayFits readerConfig ((cmd :: args).map some) := by
    refine ⟨by simp, ?_, ?_⟩
    · simp only [List.length_map, List.length_cons, INT_MAX] at hcount ⊢
      omega
    · intro e he
      rcases List.mem_map.mp he with ⟨w, hw, rfl⟩
      rcases List.mem_cons.mp hw with rfl | hw
      · exact hcmd
      · exact hargs w hw
  have hfeed := feed_array hfits trailing
  rw [← makeCommand_eq] at hfeed
  rcases parse_of_feed hfeed with ⟨p, hparse, hdone, htype, hlist⟩
  rw [List.length_append, Nat.add_sub_cancel] at hparse
  refine ⟨p, hparse, hdone, htype, ?_⟩
  rw [hlist]
  simp [values, Function.comp_def]

end RedisParse

end

/-- `SET key` with a value that looks like protocol text, before a pipelined reply. -/
theorem RedisParse.parse_makeCommand_set :
    ∃ p, ({} : RedisParse).parse (makeCommand (text "SET") [text "key", text "a\r\n$3"] ++
        text "+OK\r\n") 0 =
        .ok (p, (makeCommand (text "SET") [text "key", text "a\r\n$3"]).length, true) ∧
      p.isDone = true ∧ p.type = .multiBulkReply ∧
      p.recvList = [text "SET", text "key", text "a\r\n$3"] :=
  RedisParse.parse_makeCommand (by decide +kernel) (by decide +kernel) (by decide +kernel)
    (text "+OK\r\n")

section
variable [LexicalCast]

/-! ## Where an array ends -/

/-- `RedisParse` reads the array `es` in front of `trailing` exactly: it is done with
one value for each element, and stands where the array ends. -/
def RedisParse.EndsExactly (es : List (Option Bytes)) (trailing : Bytes) : Prop :=
  ∃ p, ({} : RedisParse).parse (encodeArray es ++ trailing) 0 =
      .ok (p, (encodeArray es).length, true) ∧
    p.isDone = true ∧ p.recvList.length = es.length

/-- A new `RedisBlock` reads the array `es` in front of `trailing` exactly: it is done
with one value for each element, and the buffer holds the trailing bytes. -/
def RedisBlock.EndsExactly (buf : NetBuffer) (es : List (Option Bytes)) (trailing : Bytes) :
    Prop :=
  ∀ s size, ∃ k buf' r, (RedisBlock.create s size).recv buf = .ok (k, buf', r) ∧
    k.bodyDone = true ∧ k.recvList.length = es.length ∧ buf'.unread = trailing

theorem RedisParse.endsExactly_iff {es : List (Option Bytes)} {trailing : Bytes}
    (hsize : (encodeArray es ++ trailing).length ≤ PTRDIFF_MAX) :
    EndsExactly es trailing ↔ ArrayFits readerConfig es := by
  constructor
  · rintro ⟨p, hparse, hdone, -⟩
    exact feed_array_fits hsize (feed_of_parse hparse hdone) rfl
  · intro hfits
    rcases parse_of_feed (feed_array hfits trailing) with ⟨p, hparse, hdone, -, hlist⟩
    rw [List.length_append, Nat.add_sub_cancel] at hparse
    refine ⟨p, hparse, hdone, ?_⟩
    rw [hlist, values, List.length_map]

theorem RedisBlock.endsExactly_iff {buf : NetBuffer} (hbuf : buf.Valid)
    {es : List (Option Bytes)} {trailing : Bytes}
    (hunread : buf.unread = encodeArray es ++ trailing)
    (hsize : (encodeArray es ++ trailing).length ≤ PTRDIFF_MAX) :
    EndsExactly buf es trailing ↔ ArrayFits readerConfig es := by
  constructor
  · intro h
    rcases h 0 0 with ⟨k, buf', r, hrecv, hdone, -, -⟩
    have hfeed := readsReplies.feed_of_recv_make hbuf hrecv hdone
    rw [hunread] at hfeed
    exact feed_array_fits hsize hfeed rfl
  · intro hfits s size
    have hfeed := feed_array hfits trailing
    rw [← hunread] at hfeed
    rcases readsReplies.recv_make_of_feed hbuf hfeed s size with
      ⟨k, buf', r, hrecv, hdone, hrest, -, hlist⟩
    refine ⟨k, buf', r, hrecv, hdone, ?_, hrest⟩
    have hvalues : k.recvList = values readerConfig.missing es := hlist
    rw [hvalues, values, List.length_map]

/-- The arrays that both parsers read exactly, whatever follows them: the array is
not empty, its count is an `int`, and its body lengths are within the bounds of the
parser. -/
theorem multiBulk_endsExactly_iff {es : List (Option Bytes)} {trailing : Bytes}
    (hsize : (encodeArray es ++ trailing).length ≤ PTRDIFF_MAX) :
    (RedisParse.EndsExactly es trailing ↔
        es ≠ [] ∧ (es.length : Int) ≤ INT_MAX ∧
          ∀ body, some body ∈ es → (body.length : Int) ≤ INT_MAX - 2) ∧
      ∀ buf : NetBuffer, buf.Valid → buf.unread = encodeArray es ++ trailing →
        (RedisBlock.EndsExactly buf es trailing ↔
          es ≠ [] ∧ (es.length : Int) ≤ INT_MAX ∧
            ∀ body, some body ∈ es → (body.length : Int) ≤ INT_MAX) := by
  constructor
  · rw [RedisParse.endsExactly_iff hsize, arrayFits_iff]
    exact Iff.rfl
  · intro buf hbuf hunread
    rw [RedisBlock.endsExactly_iff hbuf hunread hsize, arrayFits_iff]
    exact Iff.rfl

end

/-- The reply to the next request, behind an array of one element. -/
theorem multiBulk_endsExactly_hello :
    RedisParse.EndsExactly [some (text "hello")] (text "+OK\r\n") ∧
      ∀ buf : NetBuffer, buf.Valid →
        buf.unread = encodeArray [some (text "hello")] ++ text "+OK\r\n" →
        RedisBlock.EndsExactly buf [some (text "hello")] (text "+OK\r\n") := by
  have hbody : ∀ body, some body ∈ [some (text "hello")] → (body.length : Int) = 5 := by
    intro body hmem
    rw [List.mem_singleton, Option.some.injEq] at hmem
    rw [hmem]
    rfl
  have hsize : (encodeArray [some (text "hello")] ++ text "+OK\r\n").length ≤ PTRDIFF_MAX := by
    decide +kernel
  rcases multiBulk_endsExactly_iff hsize with ⟨hparse, hblock⟩
  constructor
  · apply hparse.mpr
    refine ⟨by decide, by decide, fun body hmem => ?_⟩
    rw [hbody body hmem]
    decide
  · intro buf hbuf hunread
    apply (hblock buf hbuf hunread).mpr
    refine ⟨by decide, by decide, fun body hmem => ?_⟩
    rw [hbody body hmem]
    decide

/-- The buffer that holds an empty array and the reply to the next request. -/
def emptyArrayBuffer : NetBuffer :=
  (NetBuffer.create 64).writeBytes (encodeArray [] ++ text "$2\r\nhi\r\n")

/-- Behind an empty array the reply to the next request is read as an element, and
the array is not completed. -/
theorem multiBulk_empty_overruns :
    (({} : RedisParse).parse (encodeArray [] ++ text "$2\r\nhi\r\n") 0).map
        (fun x => (x.1.isDone, x.1.recvList, x.2.1)) = .ok (false, [text "hi"], 12) ∧
      ¬ RedisParse.EndsExactly [] (text "$2\r\nhi\r\n") ∧
      emptyArrayBuffer.unread = encodeArray [] ++ text "$2\r\nhi\r\n" ∧
      ¬ RedisBlock.EndsExactly emptyArrayBuffer [] (text "$2\r\nhi\r\n") := by
  have hvalid : emptyArrayBuffer.Valid :=
    NetBuffer.valid_writeBytes (NetBuffer.valid_create 64) _
  have hunread : emptyArrayBuffer.unread = encodeArray [] ++ text "$2\r\nhi\r\n" := by
    decide +kernel
  have hsize : (encodeArray [] ++ text "$2\r\nhi\r\n").length ≤ PTRDIFF_MAX := by
    decide +kernel
  refine ⟨by decide +kernel, ?_, hunread, ?_⟩
  · rw [RedisParse.endsExactly_iff hsize]
    intro hfits
    exact hfits.ne_nil rfl
  · rw [RedisBlock.endsExactly_iff hvalid hunread hsize]
    intro hfits
    exact hfits.ne_nil rfl

end FannyNet

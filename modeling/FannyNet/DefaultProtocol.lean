import FannyNet.Block
import FannyNet.ReadLoop

/-!
# The default protocol

`NetBlock` messages between two connections.  The receiver's side of the protocol is
a decoder whose state is the part of a message that has arrived; it can stop
anywhere and go on.

Main results:

- Definition `NetBlock.decodes`: `NetBlock` decodes its stream.
- Theorem `NetBlock.reads_build`: the messages of the sender arrive, one block for
  each, however the stream is cut.
- Theorem `NetBlock.capacities_exact_iff`: the streams in which every body buffer has
  the length that is in its header.
-/

namespace FannyNet

open Library Library.Incremental

namespace NetBlock

/-! ## The decoder -/

/-- The decoder of the protocol: its state is what has arrived of a message. -/
def frameDecoder : Decoder UInt8 Bytes (Head × Bytes) Exn where
  init := []
  feed v c :=
    if FrameComplete (v ++ c) then
      .ok (.inr ((Head.ofBytes (v ++ c),
        ((v ++ c).drop sizeofHead).take (bodyLen (Head.ofBytes (v ++ c)))),
        (v ++ c).drop (frameLen (v ++ c))))
    else .ok (.inl (v ++ c))

theorem feed_of_complete {v c : Bytes} (h : FrameComplete (v ++ c)) :
    frameDecoder.feed v c = .ok (.inr ((Head.ofBytes (v ++ c),
      ((v ++ c).drop sizeofHead).take (bodyLen (Head.ofBytes (v ++ c)))),
      (v ++ c).drop (frameLen (v ++ c)))) :=
  if_pos h

theorem feed_of_not_complete {v c : Bytes} (h : ¬ FrameComplete (v ++ c)) :
    frameDecoder.feed v c = .ok (.inl (v ++ c)) :=
  if_neg h

/-- The decoder waits with all it has, for want of a complete message. -/
theorem of_feed_wait {v c v' : Bytes} (h : frameDecoder.feed v c = .ok (.inl v')) :
    ¬ FrameComplete (v ++ c) ∧ v' = v ++ c := by
  by_cases hcomplete : FrameComplete (v ++ c)
  · cases (feed_of_complete hcomplete).symm.trans h
  · cases (feed_of_not_complete hcomplete).symm.trans h
    exact ⟨hcomplete, rfl⟩

/-- The decoder completes the message that is there. -/
theorem of_feed_message {v c r : Bytes} {m : Head × Bytes}
    (h : frameDecoder.feed v c = .ok (.inr (m, r))) :
    FrameComplete (v ++ c) ∧
      m = (Head.ofBytes (v ++ c),
        ((v ++ c).drop sizeofHead).take (bodyLen (Head.ofBytes (v ++ c)))) ∧
      r = (v ++ c).drop (frameLen (v ++ c)) := by
  by_cases hcomplete : FrameComplete (v ++ c)
  · cases (feed_of_complete hcomplete).symm.trans h
    exact ⟨hcomplete, rfl, rfl⟩
  · cases (feed_of_not_complete hcomplete).symm.trans h

theorem feed_ne_error (v c : Bytes) (e : Exn) : frameDecoder.feed v c ≠ .error e := by
  intro h
  by_cases hcomplete : FrameComplete (v ++ c)
  · cases (feed_of_complete hcomplete).symm.trans h
  · cases (feed_of_not_complete hcomplete).symm.trans h

/-- The message at the start of a stream does not depend on what follows it. -/
theorem frameLen_append {x : Bytes} (h : sizeofHead ≤ x.length) (y : Bytes) :
    frameLen (x ++ y) = frameLen x := by
  rw [frameLen, frameLen, Head.ofBytes_append h]

theorem FrameComplete.append {x : Bytes} (h : FrameComplete x) (y : Bytes) :
    FrameComplete (x ++ y) := by
  rcases h with ⟨hhead, hframe⟩
  refine ⟨?_, ?_⟩
  · rw [List.length_append]
    omega
  · rw [frameLen_append hhead, List.length_append]
    omega

theorem lawful_frameDecoder : frameDecoder.Lawful fun v => ¬ FrameComplete v where
  init := by
    rintro ⟨hhead, -⟩
    exact absurd hhead (by decide)
  nil := by
    intro v hv
    have happend := List.append_nil v
    rw [← happend] at hv
    rw [feed_of_not_complete hv, happend]
  wait := by
    intro v c v' _ hfeed
    rcases of_feed_wait hfeed with ⟨hopen, rfl⟩
    exact hopen
  forward := by
    intro v c v' _ hc hfeed hnil
    rcases of_feed_wait hfeed with ⟨-, rfl⟩
    exact hc (List.append_eq_nil_iff.mp hnil).2
  progress := by
    intro v c m r hv hfeed
    rcases of_feed_message hfeed with ⟨hcomplete, -, rfl⟩
    have hlt : v.length < frameLen (v ++ c) := by
      by_cases hhead : sizeofHead ≤ v.length
      · rw [frameLen_append hhead]
        by_contra hle
        exact hv ⟨hhead, by omega⟩
      · simp only [frameLen]
        omega
    have hframe := hcomplete.2
    rw [List.length_append] at hframe
    rw [List.length_drop, List.length_append]
    omega

/-- The decoder can stop anywhere. -/
theorem resumable_frameDecoder : frameDecoder.Resumable fun _ => True where
  left _ _ _ := trivial
  rest _ _ _ _ _ := trivial
  fail := by
    intro x y e _ hfeed
    exact absurd hfeed (feed_ne_error _ _ _)
  complete := by
    intro x y m r _ hfeed
    change frameDecoder.feed [] x = _ at hfeed
    rcases of_feed_message hfeed with ⟨h, rfl, rfl⟩
    have hxy : FrameComplete ([] ++ (x ++ y)) := h.append y
    refine (feed_of_complete hxy).trans ?_
    simp only [List.nil_append, Except.ok.injEq, Sum.inr.injEq, Prod.mk.injEq] at h ⊢
    rw [Head.ofBytes_append h.1, frameLen_append h.1, List.drop_append_of_le_length h.1,
      List.drop_append_of_le_length h.2, List.take_append_of_le_length]
    · exact ⟨⟨rfl, rfl⟩, rfl⟩
    · have hframe := h.2
      simp only [frameLen] at hframe
      rw [List.length_drop]
      omega
  wait := by
    intro x y s _ hfeed
    rcases of_feed_wait hfeed with ⟨-, rfl⟩
    rfl

/-- No stream makes the decoder fail. -/
theorem not_pumps_error {s x : Bytes} {ms : List (Head × Bytes)} {e : Exn} :
    ¬ frameDecoder.Pumps s x ms (.error e) := by
  intro h
  generalize hout : (.error e : Except Exn Bytes) = out at h
  induction h with
  | wait h => cases hout
  | @fail s c e h => exact feed_ne_error s c e h
  | more h hr ih => exact ih hout

/-- `NetBlock` decodes its stream. -/
def decodes : Decodes blockClass frameDecoder where
  Open v := ¬ FrameComplete v
  lawful := lawful_frameDecoder
  Waits := NetBlock.Waits
  Shows m k := Received k m.1 m.2
  waits_open := by
    intro v k u hk hcomplete
    cases hk with
    | head hlen => exact absurd hcomplete.1 (Nat.not_le.mpr hlen)
    | body hlen hopen => exact absurd hcomplete.2 (Nat.not_le.mpr hopen)
  make_waits := waits_create
  init_waits := by
    intro k u hk
    cases hk with
    | head _ _ _ hu => exact hu
    | body hlen => exact absurd hlen (by decide)
  recv := by
    intro v k u c buf hk hbuf hpos hunread
    rcases recv_spec hk hbuf hpos hunread with ⟨k', buf', r, hrecv, hcomp, hout⟩
    have hres : blockClass.recv k buf = .ok (k', buf', r) := congrArg Except.ok hrecv
    by_cases h : FrameComplete (v ++ c)
    · rw [if_pos h] at hout
      rw [feed_of_complete h]
      refine ⟨k', buf', r, hres, hcomp, ?_, hout.1, hout.2⟩
      simp [BlockClass.bodyDone, NetBlockBase.bodyDone, blockClass, hout.1.state]
    · rw [if_neg h] at hout
      rw [feed_of_not_complete h]
      refine ⟨k', buf', r, hres, hcomp, ?_, hout⟩
      cases hout with
      | head _ hstate => simp [BlockClass.bodyDone, NetBlockBase.bodyDone, blockClass, hstate]
      | body _ _ hk' => simp [BlockClass.bodyDone, NetBlockBase.bodyDone, blockClass, hk'.state]

/-- A run of reads decodes the stream, and ends between two messages or inside one. -/
theorem reads_pumps {cs : List Bytes} {s : SessionId} {size : Nat}
    (hfit : Connection.ReadsFit blockClass (Connection.accepted s size, []) cs) :
    ∃ ms v conn blocks, frameDecoder.Pumps [] cs.flatten ms (.ok v) ∧
      feedAll (Connection.readSome blockClass) (Connection.accepted s size, []) cs =
        .ok (conn, blocks) ∧
      List.Forall₂ decodes.Shows ms blocks ∧ decodes.Reading size v conn := by
  rcases lawful_frameDecoder.exists_runs lawful_frameDecoder.init cs with ⟨ms, out, hruns⟩
  have hpumps :=
    (Decoder.runs_iff_pumps resumable_frameDecoder lawful_frameDecoder trivial).mp hruns
  have hreads := Decodes.reads_of_runs hruns (Decodes.reading_accepted (R := decodes) s size) hfit
  cases out with
  | error e => exact absurd hpumps not_pumps_error
  | ok v =>
      rcases hreads with ⟨conn, blocks, hreads, hall, hconn⟩
      exact ⟨ms, v, conn, blocks, hpumps, hreads, hall, hconn⟩

/-! ## The messages of the sender -/

/-- A block built for sending: with a buffer, at least one push, and within the range of the
length field. -/
structure Sent where
  session : SessionId
  size : Nat
  payloads : List Bytes
  sized : Sized size
  pushed : payloads ≠ []
  fits : sizeofHead + payloads.flatten.length < 4294967296

def Sent.block (m : Sent) : NetBlock :=
  build m.session m.size m.payloads

/-- The message of a block is read back, whatever follows it. -/
theorem feed_sent (m : Sent) (rest : Bytes) :
    frameDecoder.feed [] (m.block.bytes ++ rest) =
      .ok (.inr ((headOfLen (sizeofHead + m.payloads.flatten.length), m.payloads.flatten),
        rest)) := by
  have hlen : (headOfLen (sizeofHead + m.payloads.flatten.length)).toBytes.length = sizeofHead :=
    Head.length_toBytes _
  have hhead : Head.ofBytes (m.block.bytes ++ rest) =
      headOfLen (sizeofHead + m.payloads.flatten.length) := by
    rw [Sent.block, bytes_build m.session m.sized m.pushed, List.append_assoc,
      Head.ofBytes_toBytes]
  have hbody : bodyLen (headOfLen (sizeofHead + m.payloads.flatten.length)) =
      m.payloads.flatten.length := by
    have hfits := m.fits
    rw [bodyLen, headOfLen, UInt32.toNat_ofNat', Nat.mod_eq_of_lt (by simpa using hfits),
      sizeSub_of_le (by omega) (by omega)]
    omega
  have hcomplete : FrameComplete ([] ++ (m.block.bytes ++ rest)) := by
    rw [List.nil_append, FrameComplete, frameLen, hhead, hbody, Sent.block,
      bytes_build m.session m.sized m.pushed, List.length_append, List.length_append, hlen]
    omega
  rw [feed_of_complete hcomplete]
  simp only [List.nil_append, hhead, hbody, frameLen]
  rw [Sent.block, bytes_build m.session m.sized m.pushed, List.append_assoc,
    List.drop_left' hlen, List.take_left' rfl, ← List.drop_drop, List.drop_left' hlen,
    List.drop_left' rfl]

/-- The data of a completed block. -/
theorem Received.data_eq {k : NetBlock} {h : Head} {w : Bytes} (hk : Received k h w) :
    k.data.map NetBuffer.data = some w := by
  rcases hk.data with ⟨d, hd, -, hw, -, -⟩
  rw [hd, Option.map_some, hw]

/-- However the stream of the sender is cut, one block is posted for each of its
blocks, in order, with the payloads that were pushed; nothing is left over. -/
theorem reads_build {sent : List Sent} {cs : List Bytes}
    (hcs : cs.flatten = sent.flatMap fun m => m.block.bytes) {s : SessionId} {size : Nat}
    (hfit : Connection.ReadsFit blockClass (Connection.accepted s size, []) cs) :
    ∃ conn blocks,
      feedAll (Connection.readSome blockClass) (Connection.accepted s size, []) cs =
        .ok (conn, blocks) ∧
      (blocks.map fun k => k.data.map NetBuffer.data) =
        sent.map (fun m => some m.payloads.flatten) ∧
      conn.waitMessage = none ∧ conn.bufferRecv.length = 0 := by
  have hsent : frameDecoder.Pumps [] (sent.flatMap fun m => m.block.bytes)
      (sent.map fun m => (headOfLen (sizeofHead + m.payloads.flatten.length), m.payloads.flatten))
      (.ok []) :=
    lawful_frameDecoder.pumps_flatMap (fun m rest (_ : True) => feed_sent m rest)
      fun _ _ => trivial
  rcases reads_pumps hfit with ⟨ms, v, conn, blocks, hpumps, hreads, hall, hconn⟩
  rw [hcs] at hpumps
  rcases hpumps.unique hsent with ⟨rfl, hv⟩
  rw [Except.ok.injEq] at hv
  subst hv
  refine ⟨conn, blocks, hreads, ?_, hconn.at_rest⟩
  rw [List.forall₂_map_left_iff] at hall
  clear hreads hpumps hsent hcs
  induction hall with
  | nil => rfl
  | cons hshows _ ih =>
      rw [List.map_cons, List.map_cons, hshows.data_eq, ih]

/-- Two blocks as a sender builds them, the second with empty payloads only. -/
def twoSent : List Sent :=
  [⟨3, 8, [text "he", [], text "llo"], by decide, by decide, by decide⟩,
    ⟨3, 1, [[], []], by decide, by decide, by decide⟩]

/-- The two blocks in three reads: part of the first header, the rest of it with part
of the body, and the rest. -/
theorem reads_build_twoSent :
    ∃ conn blocks,
      feedAll (Connection.readSome blockClass) (Connection.accepted 9 32, [])
          [[17, 0, 0], [0, 0, 0, 0, 0, 0, 0, 0, 0, 104],
            [101, 108, 108, 111, 12, 0, 0, 0, 0, 0, 0, 0, 0, 0, 0, 0]] =
        .ok (conn, blocks) ∧
      (blocks.map fun k => k.data.map NetBuffer.data) =
        twoSent.map (fun m => some m.payloads.flatten) ∧
      conn.waitMessage = none ∧ conn.bufferRecv.length = 0 :=
  reads_build (by decide +kernel) (by decide +kernel)

/-! ## The lengths in the headers -/

/-- The body buffer of a block, if it is there, has the capacity that its header
says: the length less the header, as integers. -/
def CapacityExact (k : NetBlock) : Prop :=
  ∀ d, k.data = some d → (d.maxLen : Int) = (k.head.len.toNat : Int) - sizeofHead

/-- The headers of a stream, one behind the other, say at least their own length. -/
inductive HeadersOk : Bytes → Prop where
  | short {x : Bytes} (h : x.length < sizeofHead) : HeadersOk x
  | frame {x : Bytes} (h : sizeofHead ≤ x.length) (hlen : sizeofHead ≤ podValue x)
      (hrest : HeadersOk (x.drop (podValue x))) : HeadersOk x

/-- The body length is exact unless the subtraction wraps. -/
theorem bodyLen_exact_iff (h : Head) :
    (bodyLen h : Int) = (h.len.toNat : Int) - sizeofHead ↔ sizeofHead ≤ h.len.toNat := by
  have hlt := h.len.toNat_lt
  simp only [bodyLen, sizeSub, toSize, sizeofHead]
  omega

theorem headersOk_iff {x : Bytes} : HeadersOk x ↔
    (sizeofHead ≤ x.length → sizeofHead ≤ podValue x ∧ HeadersOk (x.drop (podValue x))) := by
  constructor
  · intro h hx
    cases h with
    | short hshort => omega
    | frame _ hlen hrest => exact ⟨hlen, hrest⟩
  · intro h
    by_cases hx : sizeofHead ≤ x.length
    · exact .frame hx (h hx).1 (h hx).2
    · exact .short (by omega)

/-- A length that does not wrap is where the next header starts. -/
theorem frameLen_eq {x : Bytes} (h : sizeofHead ≤ podValue x) : frameLen x = podValue x := by
  have hlt := podValue_lt x
  rw [frameLen, bodyLen, Head.len_ofBytes, sizeSub_of_le h (by omega)]
  omega

/-- The headers met in decoding a stream are the headers of the stream. -/
theorem headersOk_iff_of_pumps {x v : Bytes} {ms : List (Head × Bytes)}
    (h : frameDecoder.Pumps [] x ms (.ok v)) :
    HeadersOk x ↔ (∀ m ∈ ms, sizeofHead ≤ m.1.len.toNat) ∧
      (sizeofHead ≤ v.length → sizeofHead ≤ podValue v) := by
  generalize hs : ([] : Bytes) = s at h
  generalize hout : (.ok v : Except Exn Bytes) = out at h
  induction h with
  | @wait s s' c hfeed =>
      subst hs
      rw [Except.ok.injEq] at hout
      subst hout
      rcases of_feed_wait hfeed with ⟨hopen, hv⟩
      rw [List.nil_append] at hopen hv
      subst hv
      rw [headersOk_iff]
      refine ⟨fun hok => ⟨by simp, fun hx => (hok hx).1⟩, fun hok hx => ⟨hok.2 hx, ?_⟩⟩
      -- the message is not complete, so nothing follows it
      have hshort : v.drop (podValue v) = [] := by
        rw [List.drop_eq_nil_iff, ← frameLen_eq (hok.2 hx)]
        by_contra hle
        exact hopen ⟨hx, by omega⟩
      rw [hshort]
      exact .short (by decide)
  | fail h => cases hout
  | @more s c r m ms out hfeed hr ih =>
      subst hs
      rcases of_feed_message hfeed with ⟨hcomplete, rfl, rfl⟩
      rw [List.nil_append] at hcomplete ih ⊢
      have hrest := ih rfl hout
      have hlen : (Head.ofBytes c).len.toNat = podValue c := Head.len_ofBytes c
      rw [headersOk_iff]
      simp only [List.forall_mem_cons, hlen]
      constructor
      · intro hok
        rcases hok hcomplete.1 with ⟨hfit, hdrop⟩
        rw [← frameLen_eq hfit, hrest] at hdrop
        exact ⟨⟨hfit, hdrop.1⟩, hdrop.2⟩
      · rintro ⟨⟨hfit, hms⟩, hv⟩ -
        refine ⟨hfit, ?_⟩
        rw [← frameLen_eq hfit, hrest]
        exact ⟨hms, hv⟩

/-- The capacity of a completed block. -/
theorem Received.capacityExact_iff {k : NetBlock} {h : Head} {w : Bytes} (hk : Received k h w) :
    CapacityExact k ↔ sizeofHead ≤ h.len.toNat := by
  rcases hk.data with ⟨d, hd, hmax, -, -, -⟩
  rw [← bodyLen_exact_iff, CapacityExact, hd, hk.head, ← hmax]
  simp

/-- The capacity of a block that waits. -/
theorem Waits.capacityExact_iff {v u : Bytes} {k : NetBlock} (hk : Waits v k u) :
    CapacityExact k ↔ (sizeofHead ≤ v.length → sizeofHead ≤ podValue v) := by
  cases hk with
  | head hlen _ hdata =>
      simp only [CapacityExact, hdata, reduceCtorEq, false_imp_iff, implies_true, true_iff]
      omega
  | body hlen _ hk hdata =>
      rcases Option.isSome_iff_exists.mp hdata with ⟨d, hd⟩
      have hmax := hk.data.maxLen
      rw [hd, Option.getD_some] at hmax
      rw [CapacityExact, hd, hk.head, ← Head.len_ofBytes, ← bodyLen_exact_iff, ← hmax]
      simp [hlen]

/-- In the runs over a stream, whatever the reads are, every body buffer has the
capacity that its header says if and only if every header of the stream says at
least its own length. -/
theorem capacities_exact_iff {cs : List Bytes} {s : SessionId} {size : Nat}
    (hfit : Connection.ReadsFit blockClass (Connection.accepted s size, []) cs) :
    ∃ conn blocks,
      feedAll (Connection.readSome blockClass) (Connection.accepted s size, []) cs =
        .ok (conn, blocks) ∧
      ((∀ k ∈ blocks ++ conn.waitMessage.toList, CapacityExact k) ↔ HeadersOk cs.flatten) := by
  rcases reads_pumps hfit with ⟨ms, v, conn, blocks, hpumps, hreads, hall, hconn⟩
  refine ⟨conn, blocks, hreads, ?_⟩
  have hposted : (∀ k ∈ blocks, CapacityExact k) ↔ ∀ m ∈ ms, sizeofHead ≤ m.1.len.toNat := by
    clear hpumps hreads
    induction hall with
    | nil => simp
    | cons hshows _ ih =>
        rw [List.forall_mem_cons, List.forall_mem_cons, hshows.capacityExact_iff, ih]
  have hwait : (∀ k ∈ conn.waitMessage.toList, CapacityExact k) ↔
      (sizeofHead ≤ v.length → sizeofHead ≤ podValue v) := by
    rcases hconn.pending with ⟨u, -, hpending⟩
    cases hk : conn.waitMessage with
    | none =>
        rw [hk] at hpending
        have hv : v = [] := hpending.1
        subst hv
        simp [sizeofHead]
    | some k =>
        rw [hk] at hpending
        have hwaits : Waits v k u := hpending.2
        simp [hwaits.capacityExact_iff]
  rw [List.forall_mem_append, hposted, hwait, headersOk_iff_of_pumps hpumps]

/-- A stream of one message with a body of two bytes. -/
theorem capacities_exact_iff_hi :
    ∃ conn blocks,
      feedAll (Connection.readSome blockClass) (Connection.accepted 9 32, [])
          [(headOfLen 14).toBytes, text "hi"] =
        .ok (conn, blocks) ∧
      ∀ k ∈ blocks ++ conn.waitMessage.toList, CapacityExact k := by
  have hfit : Connection.ReadsFit blockClass (Connection.accepted 9 32, [])
      [(headOfLen 14).toBytes, text "hi"] := by decide +kernel
  rcases capacities_exact_iff hfit with ⟨conn, blocks, hreads, hexact⟩
  refine ⟨conn, blocks, hreads, hexact.mpr ?_⟩
  exact .frame (by decide) (by decide) (.short (by decide))

/-- A header that says 5 bytes is accepted, and a body of nearly `2 ^ 64` bytes is
awaited. -/
theorem short_header_wraps :
    ∃ conn k d,
      feedAll (Connection.readSome blockClass) (Connection.accepted 9 bufferSize, [])
          [(headOfLen 5).toBytes] = .ok (conn, []) ∧
      conn.waitMessage = some k ∧ k.head.len = 5 ∧ k.data = some d ∧
      d.maxLen = 18446744073709551609 ∧ ¬ CapacityExact k := by
  have hopen : ¬ FrameComplete ([] ++ (headOfLen 5).toBytes) := by decide +kernel
  have hwait : frameDecoder.Pumps [] (headOfLen 5).toBytes [] (.ok (headOfLen 5).toBytes) :=
    .wait (feed_of_not_complete hopen)
  have hroom : (headOfLen 5).toBytes.length ≤
      (Connection.accepted 9 bufferSize : Connection NetBlock).room := by
    rw [Connection.room_accepted]
    decide
  rcases reads_pumps (Connection.readsFit_singleton blockClass hroom) with
    ⟨ms, v, conn, blocks, hpumps, hreads, hall, hconn⟩
  rw [List.flatten_singleton] at hpumps
  rcases hpumps.unique hwait with ⟨rfl, hv⟩
  rw [Except.ok.injEq] at hv
  subst hv
  rw [List.forall₂_nil_left_iff] at hall
  subst hall
  rcases hconn.pending with ⟨u, -, hpending⟩
  cases hk : conn.waitMessage with
  | none =>
      rw [hk] at hpending
      exact absurd hpending.1 (by decide)
  | some k =>
      rw [hk] at hpending
      have hwaits : Waits (headOfLen 5).toBytes k u := hpending.2
      have hexact := hwaits.capacityExact_iff
      cases hwaits with
      | head hlen => exact absurd hlen (by decide)
      | body _ _ hreceiving hdata =>
          rcases Option.isSome_iff_exists.mp hdata with ⟨d, hd⟩
          have hmax := hreceiving.data.maxLen
          rw [hd, Option.getD_some] at hmax
          refine ⟨conn, k, d, hreads, hk, ?_, hd, ?_, ?_⟩
          · rw [hreceiving.head]
            decide +kernel
          · rw [hmax]
            decide +kernel
          · rw [hexact]
            decide +kernel

end NetBlock

end FannyNet

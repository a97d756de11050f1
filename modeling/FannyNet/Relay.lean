import FannyNet.Clone
import FannyNet.Debug
import FannyNet.SendPath

/-!
# Relayed messages

A block that was received is cloned for another session and handed to `send`.  A sender
keeps header and body in `m_data`, a receiver takes the header out into `m_head`, and
`clone` copies both as they are: what the other peer is sent is the body alone.

Main results:

- Theorem `NetBlock.length_le_of_pumps`: a message takes a header more than its body.
- Theorem `ConnState.onWire_prefix`: a connection puts nothing on the wire but what it was
  handed.
- Theorem `NetBlock.relay_fails`: no relayed message arrives with its payload.
-/

namespace FannyNet

open Library Library.Incremental Library.Transition

namespace Debug.Frame

/-- A frame at the start of a stream is read as its header and its payload. -/
theorem feed_eq (f : Frame) (y : Bytes) :
    NetBlock.frameDecoder.feed [] (f.bytes ++ y) =
      .ok (.inr ((Head.ofBytes f.head, f.payload), y)) := by
  have hhead : Head.ofBytes (f.bytes ++ y) = Head.ofBytes f.head := by
    rw [bytes, List.append_assoc, Head.ofBytes_append f.length_head.ge]
  have hfits : sizeofHead ≤ podValue (f.bytes ++ y) := by
    rw [f.podValue_append, f.length_bytes]
    omega
  have hframe : NetBlock.frameLen (f.bytes ++ y) = sizeofHead + f.payload.length := by
    rw [NetBlock.frameLen_eq hfits, f.podValue_append, f.length_bytes]
  have hbody : NetBlock.bodyLen (Head.ofBytes f.head) = f.payload.length := by
    rw [NetBlock.frameLen, hhead] at hframe
    omega
  have hcomplete : NetBlock.FrameComplete ([] ++ (f.bytes ++ y)) := by
    have hlen := f.length_bytes
    refine ⟨?_, ?_⟩
    · rw [List.nil_append, List.length_append]
      omega
    · rw [List.nil_append, hframe, List.length_append]
      omega
  rw [NetBlock.feed_of_complete hcomplete, List.nil_append, hframe, hhead, hbody, bytes,
    List.append_assoc, ← List.drop_drop, List.drop_left' f.length_head, List.take_left' rfl,
    List.drop_left' rfl]

end Debug.Frame

namespace NetBlock

/-! ## Receiving -/

/-- The reads of a stream of frames complete one block for each, with its payload. -/
theorem reads_frames {frames : List Debug.Frame} {cs : List Bytes}
    (hcs : cs.flatten = frames.flatMap Debug.Frame.bytes) {s : SessionId} {size : Nat}
    (hfit : Connection.ReadsFit blockClass (Connection.accepted s size, []) cs) :
    ∃ conn blocks,
      feedAll (Connection.readSome blockClass) (Connection.accepted s size, []) cs =
        .ok (conn, blocks) ∧
      List.Forall₂ (fun f k => Received k (Head.ofBytes f.head) f.payload) frames blocks := by
  have hframes : frameDecoder.Pumps [] (frames.flatMap Debug.Frame.bytes)
      (frames.map fun f => (Head.ofBytes f.head, f.payload)) (.ok []) :=
    lawful_frameDecoder.pumps_flatMap (fun f rest (_ : True) => f.feed_eq rest) fun _ _ => trivial
  rcases reads_pumps hfit with ⟨ms, v, conn, blocks, hpumps, hreads, hall, -⟩
  rw [hcs] at hpumps
  rcases hpumps.unique hframes with ⟨rfl, -⟩
  rw [List.forall₂_map_left_iff] at hall
  exact ⟨conn, blocks, hreads, hall⟩

/-- A completed message takes its header and its body. -/
theorem length_le_of_feed {v c r : Bytes} {m : Head × Bytes}
    (h : frameDecoder.feed v c = .ok (.inr (m, r))) :
    sizeofHead + m.2.length + r.length ≤ (v ++ c).length := by
  rcases of_feed_message h with ⟨⟨hhead, hframe⟩, rfl, rfl⟩
  simp only [frameLen, List.length_take, List.length_drop] at hframe ⊢
  omega

/-- The messages of a stream are shorter than the stream by a header at least. -/
theorem length_le_of_pumps {v c : Bytes} {ms : List (Head × Bytes)} {out : Except Exn Bytes}
    (h : frameDecoder.Pumps v c ms out) {m : Head × Bytes} (hm : m ∈ ms) :
    sizeofHead + m.2.length ≤ (v ++ c).length := by
  induction h with
  | wait h => cases hm
  | fail h => cases hm
  | more h hr ih =>
      have hfirst := length_le_of_feed h
      rcases List.mem_cons.mp hm with rfl | hm
      · omega
      · have hrest := ih hm
        change _ ≤ ([] ++ _ : Bytes).length at hrest
        rw [List.nil_append] at hrest
        omega

/-- What is related to an entry of the second list. -/
theorem exists_left_of_forall₂ {α γ : Type} {R : α → γ → Prop} {as : List α} {bs : List γ}
    (h : List.Forall₂ R as bs) {b : γ} (hb : b ∈ bs) : ∃ a ∈ as, R a b := by
  induction h with
  | nil => cases hb
  | cons hab hrest ih =>
      rcases List.mem_cons.mp hb with rfl | hb
      · exact ⟨_, List.mem_cons_self, hab⟩
      · rcases ih hb with ⟨a, ha, hR⟩
        exact ⟨a, List.mem_cons_of_mem _ ha, hR⟩

/-- A block that the reads of a stream complete holds fewer bytes than the stream. -/
theorem length_lt_of_reads {cs : List Bytes} {s : SessionId} {size : Nat}
    (hfit : Connection.ReadsFit blockClass (Connection.accepted s size, []) cs)
    {conn : Connection NetBlock} {blocks : List NetBlock}
    (hreads : feedAll (Connection.readSome blockClass) (Connection.accepted s size, []) cs =
      .ok (conn, blocks)) {b : NetBlock} (hb : b ∈ blocks) {w : Bytes}
    (hw : b.data.map NetBuffer.data = some w) : w.length < cs.flatten.length := by
  rcases reads_pumps hfit with ⟨ms, v, conn', blocks', hpumps, hreads', hall, -⟩
  rw [hreads, Except.ok.injEq, Prod.mk.injEq] at hreads'
  rcases hreads' with ⟨-, rfl⟩
  rcases exists_left_of_forall₂ hall hb with ⟨m, hm, hshows⟩
  have hshows' : Received b m.1 m.2 := hshows
  have hlen := length_le_of_pumps hpumps hm
  rw [hshows'.data_eq, Option.some.injEq] at hw
  rw [List.nil_append, hw] at hlen
  simp only [sizeofHead] at hlen
  omega

end NetBlock

/-! ## Sending -/

namespace ConnState

/-- The bytes that have been written, and those of the write in flight. -/
def onWire {β : Type} (s : ConnState β) : Bytes :=
  s.completed ++ s.writing.flatten

/-- A connection that stays up puts on the wire, in order, what it was handed. -/
theorem onWire_prefix {β : Type} {K : BlockClass β} {sid : SessionId} {size : Nat}
    {s : ConnState β} {actions : List ConnAction} (hactions : ∀ a ∈ actions, a.StaysUp)
    (h : run (next K) (up sid size) actions = some s) :
    s.onWire <+: unreadAll (actions.flatMap ConnAction.sent) := by
  have hflying : s.sendPath.Flying := by
    refine run_sendPath (I := SendPath.Flying) (P := fun _ => True) ?_ (fun _ _ => trivial)
      (flying_up sid size) h
    intro s a ws t hmove _ hs
    exact hmove.flying hs
  have haccepted := (run_history h).1
  have hbytes := (sent_in_order sid size hactions h).1
  change s.accepted = [] ++ _ at haccepted
  rw [haccepted, List.nil_append] at hbytes
  rw [← hbytes, onWire, List.append_assoc, List.prefix_append_right_inj]
  have hbuffer : Sendable s.conn.bufferSend := hflying.buffer
  rcases hflying.writing with ⟨-, hwriting, -⟩ | ⟨-, hwriting⟩
  · -- the write in flight is of the send buffer
    have hflight : s.writing = [s.conn.bufferSend.unread] := hwriting
    rw [hflight, List.flatten_singleton, hbuffer.unread_eq]
    exact List.prefix_append _ _
  · have hidle : s.writing = [] := hwriting
    rw [hidle]
    exact List.nil_prefix

end ConnState

/-! ## Relaying -/

namespace NetBlock

/-- The payload `w` arrives at another peer: the clone of a block for the session `s` is the one
block handed to a connection, and the reads at the other end, of what a run of the connection
puts on the wire, complete a block with `w`. -/
def Relayed (k : NetBlock) (s : SessionId) (w : Bytes) : Prop :=
  ∃ (k' : NetBlock) (d : NetBuffer) (size : Nat) (actions : List ConnAction)
    (st : ConnState NetBlock) (peer : SessionId) (room : Nat) (cs : List Bytes)
    (conn : Connection NetBlock) (blocks : List NetBlock) (b : NetBlock),
    k.clone s = some k' ∧ k'.data = some d ∧
      (∀ a ∈ actions, a.StaysUp) ∧
      run (ConnState.next blockClass) (ConnState.up s size) actions = some st ∧
      actions.flatMap ConnAction.sent = [d] ∧
      cs.flatten <+: st.onWire ∧
      Connection.ReadsFit blockClass (Connection.accepted peer room, []) cs ∧
      feedAll (Connection.readSome blockClass) (Connection.accepted peer room, []) cs =
        .ok (conn, blocks) ∧
      b ∈ blocks ∧ b.data.map NetBuffer.data = some w

/-- A received block is cloned with its payload alone. -/
theorem Received.clone_unread {k : NetBlock} {h : Head} {w : Bytes} (hk : Received k h w)
    {s : SessionId} {k' : NetBlock} {d : NetBuffer} (hclone : k.clone s = some k')
    (hd : k'.data = some d) : d.unread = w := by
  rcases hk.data with ⟨d₀, hd₀, -, hw, -, -⟩
  rw [NetBlock.clone, hd₀, Option.map_some, Option.some.injEq] at hclone
  rw [← hclone, Option.some.injEq] at hd
  rw [← hd, NetBuffer.unread_copy, hw]

theorem Received.not_relayed {k : NetBlock} {h : Head} {w : Bytes} (hk : Received k h w)
    (s : SessionId) : ¬ k.Relayed s w := by
  rintro ⟨k', d, size, actions, st, peer, room, cs, conn, blocks, b, hclone, hd, hup, hrun, hsent,
    hcs, hfit, hreads, hb, hw⟩
  have hlt := length_lt_of_reads hfit hreads hb hw
  have hwire := (hcs.trans (ConnState.onWire_prefix hup hrun)).length_le
  rw [hsent, unreadAll_cons, unreadAll_nil, List.append_nil, hk.clone_unread hclone hd] at hwire
  omega

/-- However a stream of well-formed frames is cut into reads, a block with its payload is completed
for each; relayed to whatever session, none of these payloads arrives. -/
theorem relay_fails {frames : List Debug.Frame} {cs : List Bytes}
    (hcs : cs.flatten = frames.flatMap Debug.Frame.bytes) {sid : SessionId} {size : Nat}
    (hfit : Connection.ReadsFit blockClass (Connection.accepted sid size, []) cs) :
    ∃ conn blocks,
      feedAll (Connection.readSome blockClass) (Connection.accepted sid size, []) cs =
        .ok (conn, blocks) ∧
      List.Forall₂ (fun f k => k.data.map NetBuffer.data = some f.payload ∧
        ∀ s, ¬ k.Relayed s f.payload) frames blocks := by
  rcases reads_frames hcs hfit with ⟨conn, blocks, hreads, hall⟩
  refine ⟨conn, blocks, hreads, hall.imp ?_⟩
  intro f k hk
  exact ⟨hk.data_eq, hk.not_relayed⟩

theorem relay_fails_hi :
    ∃ conn blocks,
      feedAll (Connection.readSome blockClass) (Connection.accepted 9 32, [])
          [[14, 0, 0, 0, 0, 0, 0, 0, 0, 0, 0, 0], text "h", text "i"] = .ok (conn, blocks) ∧
      List.Forall₂ (fun f k => k.data.map NetBuffer.data = some f.payload ∧
        ∀ s, ¬ k.Relayed s f.payload) [Debug.hiFrame] blocks :=
  relay_fails (by decide +kernel) (by decide +kernel)

/-- The clone of a received `hi` is written to the last byte, and the other peer completes
nothing. -/
theorem relay_hi :
    ∃ (conn conn' : Connection NetBlock) (k k' : NetBlock) (p : {p : NetBuffer // p.Valid})
      (st : ConnState NetBlock),
      feedAll (Connection.readSome blockClass) (Connection.accepted 9 32, [])
          [Debug.hiFrame.bytes] = .ok (conn, [k]) ∧
        k.clone 3 = some k' ∧ k'.data = some p.val ∧
        run (ConnState.next blockClass) (ConnState.up 3 64)
          [.send p, .handler (.writeMessage 0), .handler (.handleWrite 0 false 2)] = some st ∧
        (st.completed = text "hi" ∧ st.sendPath.unsent = false) ∧
        feedAll (Connection.readSome blockClass) (Connection.accepted 5 32, []) [st.completed] =
          .ok (conn', []) := by
  let p : {p : NetBuffer // p.Valid} :=
    ⟨((NetBuffer.create 2).tailData (text "hi")).1,
      NetBuffer.valid_tailData (NetBuffer.valid_create 2) rfl (text "hi")⟩
  have hrun : (run (ConnState.next blockClass) (ConnState.up 3 64)
      [.send p, .handler (.writeMessage 0), .handler (.handleWrite 0 false 2)]).any (fun st =>
        st.completed = text "hi" ∧ st.sendPath.unsent = false) = true := by
    decide +kernel
  rcases (Option.any_eq_true _ _).mp hrun with ⟨st, hst, hvalues⟩
  rw [decide_eq_true_eq] at hvalues
  have hpeer : ∃ conn', feedAll (Connection.readSome blockClass) (Connection.accepted 5 32, [])
      [text "hi"] = .ok (conn', []) := ⟨_, rfl⟩
  rcases hpeer with ⟨conn', hpeer⟩
  refine ⟨_, conn', _, _, p, st, rfl, rfl, rfl, hst, hvalues, ?_⟩
  rw [hvalues.1]
  exact hpeer

end NetBlock

end FannyNet

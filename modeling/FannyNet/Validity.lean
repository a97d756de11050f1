import FannyNet.Relay

/-!
# Validity of a frame

The header of a message has a check field, and `recv` returns whether the message that it
completed is valid; where it needs more bytes it returns `false` as well.  The read loop
asks `bodyDone` instead and leaves the result alone.

Main results:

- Definition `BlockClass.noted`: a message class whose blocks keep what `recv` returned.
- Theorem `Connection.reads_noted`: without the notes, its reads are those of the class.
- Theorem `NetBlock.valid_posted_iff`: when all that is posted is valid.
-/

namespace FannyNet

open Library Library.Incremental

/-! ## The results of `recv` -/

section
variable {β : Type}

/-- The class of the blocks together with what the last `recv` returned. -/
def BlockClass.noted (K : BlockClass β) : BlockClass (β × Bool) where
  make s size := (K.make s size, false)
  base x := K.base x.1
  recv x buf := (K.recv x.1 buf).map fun y => ((y.1, y.2.2), y.2.1, y.2.2)

namespace Connection

/-- The connection without the notes. -/
def plain (conn : Connection (β × Bool)) : Connection β :=
  { conn with waitMessage := conn.waitMessage.map Prod.fst }

/-- The blocks of a connection, kept and posted, without the notes. -/
def erase (x : Connection (β × Bool) × List (β × Bool)) : Connection β × List β :=
  (x.1.plain, x.2.map Prod.fst)

theorem readMessage_noted (K : BlockClass β) (conn : Connection (β × Bool)) :
    (readMessage K.noted conn).map (fun x => (x.1.plain, x.2.map Prod.fst)) =
      readMessage K conn.plain := by
  have hwait : (conn.waitMessage.getD (K.noted.make conn.session 0)).1 =
      conn.plain.waitMessage.getD (K.make conn.session 0) := by
    cases h : conn.waitMessage with
    | none => simp [plain, h, BlockClass.noted]
    | some k => simp [plain, h]
  have hbuf : conn.plain.bufferRecv = conn.bufferRecv := rfl
  have hsession : conn.plain.session = conn.session := rfl
  simp only [readMessage, hbuf, hsession, ← hwait]
  cases hrecv : K.recv (conn.waitMessage.getD (K.noted.make conn.session 0)).1 conn.bufferRecv with
  | error e =>
      have hnoted : K.noted.recv (conn.waitMessage.getD (K.noted.make conn.session 0))
          conn.bufferRecv = .error e := by
        simp only [BlockClass.noted] at hrecv ⊢
        rw [hrecv]
        rfl
      simp only [hnoted, error_bind]
      rfl
  | ok y =>
      rcases y with ⟨k, buf, r⟩
      have hnoted : K.noted.recv (conn.waitMessage.getD (K.noted.make conn.session 0))
          conn.bufferRecv = .ok ((k, r), buf, r) := by
        simp only [BlockClass.noted] at hrecv ⊢
        rw [hrecv]
        rfl
      have hdone : K.noted.bodyDone (k, r) = K.bodyDone k := rfl
      simp only [hnoted, ok_bind, hdone]
      cases K.bodyDone k <;> rfl

theorem readLoop_noted (K : BlockClass β) (fuel : Nat) (conn : Connection (β × Bool)) :
    (readLoop K.noted fuel conn).map erase = readLoop K fuel conn.plain := by
  induction fuel generalizing conn with
  | zero =>
      by_cases hwrite : conn.bufferRecv.hasWrite = true
      · have hplain : conn.plain.bufferRecv.hasWrite = true := hwrite
        simp only [readLoop, hwrite, hplain]
        rfl
      · have hplain : ¬ conn.plain.bufferRecv.hasWrite = true := hwrite
        rw [Decodes.readLoop_empty hwrite, Decodes.readLoop_empty hplain]
        rfl
  | succ fuel ih =>
      by_cases hwrite : conn.bufferRecv.hasWrite = true
      · have hplain : conn.plain.bufferRecv.hasWrite = true := hwrite
        rw [Decodes.readLoop_succ hwrite, Decodes.readLoop_succ hplain, ← readMessage_noted K conn]
        cases readMessage K.noted conn with
        | error e => rfl
        | ok x =>
            rcases x with ⟨conn', _ | p⟩
            · rfl
            · have hrest := ih conn'
              simp only [Except.map, Option.map_some, ← hrest]
              cases readLoop K.noted fuel conn' <;> rfl
      · have hplain : ¬ conn.plain.bufferRecv.hasWrite = true := hwrite
        rw [Decodes.readLoop_empty hwrite, Decodes.readLoop_empty hplain]
        rfl

theorem readSome_noted (K : BlockClass β) (x : Connection (β × Bool) × List (β × Bool))
    (c : Bytes) : (readSome K.noted x c).map erase = readSome K (erase x) c := by
  rcases x with ⟨conn, done⟩
  by_cases hconn : conn.connected = true
  · have hplain : conn.plain.connected = true := hconn
    have hloop := readLoop_noted K ((conn.received c).bufferRecv.length + 1) (conn.received c)
    rw [Decodes.readSome_eq hconn, erase, Decodes.readSome_eq hplain]
    change _ = (readLoop K ((conn.received c).bufferRecv.length + 1) (conn.received c).plain).map _
    rw [← hloop]
    cases readLoop K.noted ((conn.received c).bufferRecv.length + 1) (conn.received c) with
    | error e => rfl
    | ok y => simp only [Except.map, erase, List.map_append]
  · have hplain : ¬ conn.plain.connected = true := hconn
    simp only [readSome, handleReadSome, erase, hconn, hplain, Bool.not_false, if_true, ok_bind,
      posted, List.filterMap_nil, List.append_nil, Except.map]

/-- Without the notes, the reads are those of the class. -/
theorem reads_noted (K : BlockClass β) (x : Connection (β × Bool) × List (β × Bool))
    (cs : List Bytes) :
    (feedAll (readSome K.noted) x cs).map erase = feedAll (readSome K) (erase x) cs :=
  feedAll_map (readSome_noted K) x cs

theorem readsFit_noted {K : BlockClass β} {x : Connection (β × Bool) × List (β × Bool)}
    {cs : List Bytes} (h : ReadsFit K (erase x) cs) : ReadsFit K.noted x cs := by
  induction cs generalizing x with
  | nil => trivial
  | cons c cs ih =>
      rcases h with ⟨hroom, hrest⟩
      refine ⟨hroom, ?_⟩
      rw [← readSome_noted] at hrest
      cases hread : readSome K.noted x c with
      | error e => trivial
      | ok y =>
          rw [hread] at hrest
          exact ih hrest

end Connection
end

/-! ## The frames that are posted -/

/-- The check field of the header is what `recv` takes a valid message for. -/
def Debug.Frame.Valid (f : Debug.Frame) : Prop :=
  (Head.ofBytes f.head).check = 0

instance (f : Debug.Frame) : Decidable f.Valid :=
  inferInstanceAs (Decidable (_ = _))

namespace NetBlock

/-- What `recv` returns on the completion of a block. -/
theorem recv_completes {k k' : NetBlock} {buf buf' : NetBuffer} {r : Bool}
    (h : k.recv buf = (k', buf', r)) (hopen : k.state ≠ .done) (hdone : k'.state = .done) :
    r = (k'.head.check == 0) := by
  have hbody : ∀ {k : NetBlock} {buf : NetBuffer}, k.recvBody buf = (k', buf', r) →
      k.state ≠ .done → r = (k'.head.check == 0) := by
    intro k buf h hopen
    unfold recvBody at h
    by_cases hstate : k.state = .body
    · rw [if_pos hstate] at h
      dsimp only at h
      split at h
      · cases h
        rfl
      · cases h
        rw [hstate] at hdone
        cases hdone
    · rw [if_neg hstate] at h
      cases h
      exact absurd hdone hopen
  unfold recv recvHead at h
  split at h
  · split at h
    · exact hbody h (by simp)
    · cases h
      exact absurd hdone hopen
  · exact hbody h hopen

/-- The blocks with their notes decode the stream, and the note of a completed block says
whether its check field is 0. -/
def decodesNoted : Decodes blockClass.noted frameDecoder where
  Open v := ¬ FrameComplete v
  lawful := lawful_frameDecoder
  Waits v x u := NetBlock.Waits v x.1 u
  Shows m x := Received x.1 m.1 m.2 ∧ x.2 = (m.1.check == 0)
  waits_open v x u hx := decodes.waits_open v x.1 u hx
  make_waits := waits_create
  init_waits x u hx := decodes.init_waits x.1 u hx
  recv := by
    intro v x u c buf hx hbuf hpos hunread
    have hstep := decodes.recv v x.1 u c buf hx hbuf hpos hunread
    have hopen : x.1.state ≠ .done := by
      cases hx with
      | head _ hstate => simp [hstate]
      | body _ _ hk => simp [hk.state]
    cases hfeed : frameDecoder.feed v c with
    | error e => exact absurd hfeed (feed_ne_error v c e)
    | ok y =>
        rw [hfeed] at hstep
        rcases y with v' | ⟨m, rest⟩
        · rcases hstep with ⟨k', buf', r, hrecv, hcomp, hdone, hwaits⟩
          refine ⟨(k', r), buf', r, ?_, hcomp, hdone, hwaits⟩
          simp only [BlockClass.noted, hrecv, Except.map]
        · rcases hstep with ⟨k', buf', r, hrecv, hcomp, hdone, hshows, hrest⟩
          have hshows' : Received k' m.1 m.2 := hshows
          have hr := recv_completes (Except.ok.inj hrecv) hopen hshows'.state
          rw [hshows'.head] at hr
          refine ⟨(k', r), buf', r, ?_, hcomp, hdone, ⟨hshows', hr⟩, hrest⟩
          simp only [BlockClass.noted, hrecv, Except.map]

/-- The frames of a stream, and a part of one that follows them, are read as a block for each,
completed by a `recv` that returned whether the frame is valid. -/
theorem reads_noted_frames {frames : List Debug.Frame} {part : Bytes} {cs : List Bytes}
    (hcs : cs.flatten = frames.flatMap Debug.Frame.bytes ++ part) (hpart : ¬ FrameComplete part)
    {s : SessionId} {size : Nat}
    (hfit : Connection.ReadsFit blockClass (Connection.accepted s size, []) cs) :
    ∃ conn notes,
      feedAll (Connection.readSome blockClass.noted) (Connection.accepted s size, []) cs =
        .ok (conn, notes) ∧
      List.Forall₂ (fun f x => Received x.1 (Head.ofBytes f.head) f.payload ∧
        (x.2 = true ↔ f.Valid)) frames notes := by
  have hopen : frameDecoder.feed [] part = .ok (.inl part) := feed_of_not_complete hpart
  have hframes : frameDecoder.Pumps [] (frames.flatMap Debug.Frame.bytes ++ part)
      (frames.map fun f => (Head.ofBytes f.head, f.payload)) (.ok part) :=
    Decoder.Lawful.pumps_flatMap_append (fun f rest (_ : True) => f.feed_eq rest)
      (fun _ _ => trivial) hopen
  have hruns := (Decoder.runs_iff_pumps resumable_frameDecoder lawful_frameDecoder trivial).mpr
    (hcs ▸ hframes)
  have hstart : Connection.erase (Connection.accepted s size, []) =
      (Connection.accepted s size, ([] : List NetBlock)) := rfl
  rw [← hstart] at hfit
  have hreads := Decodes.reads_of_runs hruns
    (Decodes.reading_accepted (R := decodesNoted) s size) (Connection.readsFit_noted hfit)
  rcases hreads with ⟨conn, notes, hreads, hall, -⟩
  rw [List.forall₂_map_left_iff] at hall
  refine ⟨conn, notes, hreads, hall.imp ?_⟩
  intro f x hx
  refine ⟨hx.1, ?_⟩
  rw [hx.2, beq_iff_eq, Debug.Frame.Valid]

/-- However a stream of frames with arbitrary check fields is cut, a block is posted for every
frame, completed by a `recv` that returned whether the frame is valid; so what is posted are the
valid frames alone exactly when there are no others. -/
theorem valid_posted_iff {frames : List Debug.Frame} {part : Bytes} {cs : List Bytes}
    (hcs : cs.flatten = frames.flatMap Debug.Frame.bytes ++ part) (hpart : ¬ FrameComplete part)
    {s : SessionId} {size : Nat}
    (hfit : Connection.ReadsFit blockClass (Connection.accepted s size, []) cs) :
    ∃ (conn : Connection (NetBlock × Bool)) (notes : List (NetBlock × Bool)),
      feedAll (Connection.readSome blockClass.noted) (Connection.accepted s size, []) cs =
        .ok (conn, notes) ∧
      feedAll (Connection.readSome blockClass) (Connection.accepted s size, []) cs =
        .ok (conn.plain, notes.map Prod.fst) ∧
      List.Forall₂ (fun f x => Received x.1 (Head.ofBytes f.head) f.payload ∧
        (x.2 = true ↔ f.Valid)) frames notes ∧
      (notes.map Prod.fst = (notes.filter Prod.snd).map Prod.fst ↔ ∀ f ∈ frames, f.Valid) := by
  rcases reads_noted_frames hcs hpart hfit with ⟨conn, notes, hreads, hall⟩
  have hplain := Connection.reads_noted blockClass (Connection.accepted s size, []) cs
  rw [hreads] at hplain
  refine ⟨conn, notes, hreads, hplain.symm, hall, ?_⟩
  have hnotes : (∀ x ∈ notes, x.2 = true) ↔ ∀ f ∈ frames, f.Valid := by
    clear hcs hreads hplain
    induction hall with
    | nil => simp
    | cons hfx hrest ih => rw [List.forall_mem_cons, List.forall_mem_cons, ih, hfx.2]
  rw [← hnotes]
  constructor
  · intro hsame x hx
    have hlen := congrArg List.length hsame
    rw [List.length_map, List.length_map] at hlen
    exact List.length_filter_eq_length_iff.mp hlen.symm x hx
  · intro hall
    rw [List.filter_eq_self.mpr hall]

/-- A valid message, read in three pieces. -/
theorem valid_posted_iff_hi :
    ∃ (conn : Connection (NetBlock × Bool)) (notes : List (NetBlock × Bool)),
      feedAll (Connection.readSome blockClass.noted) (Connection.accepted 9 32, [])
          [[14, 0, 0, 0, 0, 0, 0, 0, 0, 0, 0, 0], text "h", text "i"] = .ok (conn, notes) ∧
      feedAll (Connection.readSome blockClass) (Connection.accepted 9 32, [])
          [[14, 0, 0, 0, 0, 0, 0, 0, 0, 0, 0, 0], text "h", text "i"] =
        .ok (conn.plain, notes.map Prod.fst) ∧
      List.Forall₂ (fun f x => Received x.1 (Head.ofBytes f.head) f.payload ∧
        (x.2 = true ↔ f.Valid)) [Debug.hiFrame] notes ∧
      notes.map Prod.fst = (notes.filter Prod.snd).map Prod.fst := by
  have hcs : [[14, 0, 0, 0, 0, 0, 0, 0, 0, 0, 0, 0], text "h", text "i"].flatten =
      [Debug.hiFrame].flatMap Debug.Frame.bytes ++ [] := by
    decide +kernel
  have hvalid : ∀ f ∈ [Debug.hiFrame], f.Valid := by
    intro f hf
    rw [List.mem_singleton.mp hf]
    rfl
  have hfit : Connection.ReadsFit blockClass (Connection.accepted 9 32, [])
      [[14, 0, 0, 0, 0, 0, 0, 0, 0, 0, 0, 0], text "h", text "i"] := by decide +kernel
  rcases valid_posted_iff hcs (by decide) hfit with
    ⟨conn, notes, hnoted, hplain, hall, hposted⟩
  exact ⟨conn, notes, hnoted, hplain, hall, hposted.mpr hvalid⟩

/-- A message whose check field is 1: `recv` returns `false` and the block is posted. -/
theorem invalid_frame_posted :
    ∃ (conn : Connection (NetBlock × Bool)) (k : NetBlock),
      feedAll (Connection.readSome blockClass.noted) (Connection.accepted 9 32, [])
          [[14, 0, 0, 0, 0, 0, 0, 0, 1, 0, 0, 0, 104, 105]] = .ok (conn, [(k, false)]) ∧
        feedAll (Connection.readSome blockClass) (Connection.accepted 9 32, [])
          [[14, 0, 0, 0, 0, 0, 0, 0, 1, 0, 0, 0, 104, 105]] = .ok (conn.plain, [k]) ∧
        k.head.check = 1 ∧ k.data.map NetBuffer.data = some (text "hi") :=
  ⟨_, _, rfl, rfl, rfl, by decide +kernel⟩

end NetBlock

end FannyNet

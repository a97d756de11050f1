import FannyNet.DefaultProtocol

/-!
# The debug build

The receive path of the default protocol with `MYASSERT` compiled in: an assertion that
fails ends the process.  The other modules model the release build, where assertions
are compiled out.

Main results:

- Theorem `Debug.recv_eq` and theorem `Debug.recv_error`: when a `recv` asserts.
- Theorem `Debug.readLoop_iff`: the loop over one read asserts exactly when the read ends
  inside a header.
- Theorem `Debug.asserts_hold_iff`: the runs over a stream of frames in which no assertion
  fails.
-/

namespace FannyNet

open Library Library.Incremental

/-- How a handler of the debug build can end early. -/
inductive Abort where
  | assertion (message : String)
  | endless
deriving DecidableEq, Repr

namespace Debug

/-- `MYASSERT(condition, message)`. -/
def myassert (condition : Bool) (message : String) : Except Abort Unit :=
  if condition then .ok () else .error (.assertion message)

/-! ## The buffer -/

def writeBytes (b : NetBuffer) (bytes : Bytes) : Except Abort NetBuffer :=
  if b.writePos + bytes.length > b.maxLen then do
    myassert false "net buffer write pos error"
    .ok b
  else .ok (b.writeBytes bytes)

def readData (b : NetBuffer) (len : Nat) : Except Abort (NetBuffer × Option Bytes) := do
  myassert (b.canRead len) "net buffer read len error"
  .ok (b.readData len)

def clearReadBuffer (b : NetBuffer) : Except Abort NetBuffer := do
  myassert (decide (b.readPos ≤ b.writePos)) "net buffer m_readPos error"
  .ok b.clearReadBuffer

def tail (b : NetBuffer) (base : Bytes) : Except Abort (NetBuffer × Bool) :=
  if b.lock then do
    myassert false "buffer is lock"
    .ok (b, false)
  else if base.length ≤ 0 then .ok (b, false)
  else do
    myassert (decide (base.length + b.writePos ≤ b.maxLen)) "buffer not has enough space"
    .ok (b.tail base)

def readBuffer (b dst : NetBuffer) : Except Abort (NetBuffer × NetBuffer × Bool) :=
  if dst.isFull then .ok (b, dst, false)
  else if !b.hasWrite then .ok (b, dst, false)
  else do
    let len := min (b.writePos - b.readPos) (dst.maxLength - dst.writePos)
    match ← readData b len with
    | (b', none) => .ok (b', dst, false)
    | (b', some p) => do
        let (dst', result) ← tail dst p
        .ok (b', dst', result)

/-! ## `NetBlock` -/

def recvBody (k : NetBlock) (buf : NetBuffer) : Except Abort (NetBlock × NetBuffer × Bool) :=
  if k.state = .body then do
    let len := sizeSub k.head.len.toNat sizeofHead
    let data := k.data.getD (NetBuffer.create len)
    let (buf, data, _) ← readBuffer buf data
    let buf ← clearReadBuffer buf
    if data.isFull then
      .ok ({ k with data := some data.setLock, state := .done }, buf, k.head.check == 0)
    else .ok ({ k with data := some data }, buf, false)
  else .ok (k, buf, false)

def recvHead (k : NetBlock) (buf : NetBuffer) : Except Abort (NetBlock × NetBuffer × Bool) :=
  if k.state = .init then do
    match ← readData buf sizeofHead with
    | (buf, some p) => do
        let buf ← clearReadBuffer buf
        recvBody { k with head := Head.ofBytes p, state := .body } buf
    | (buf, none) => .ok (k, buf, false)
  else recvBody k buf

/-- The buffer is there, so the assertion of `NetBlock::recv` itself holds. -/
def recv (k : NetBlock) (buf : NetBuffer) : Except Abort (NetBlock × NetBuffer × Bool) := do
  myassert true "the recv buffer is null"
  recvHead k buf

/-! ## The connection -/

def readMessage (conn : Connection NetBlock) :
    Except Abort (Connection NetBlock × Option NetBlock) := do
  let wait := conn.waitMessage.getD (NetBlock.create conn.session 0)
  let (wait, buf, _) ← recv wait conn.bufferRecv
  if wait.bodyDone then .ok ({ conn with waitMessage := none, bufferRecv := buf }, some wait)
  else .ok ({ conn with waitMessage := some wait, bufferRecv := buf }, none)

def readLoop : Nat → Connection NetBlock → Except Abort (Connection NetBlock × List NetBlock)
  | fuel, conn =>
      if !conn.bufferRecv.hasWrite then .ok (conn, [])
      else
        match fuel with
        | 0 => .error .endless
        | fuel + 1 => do
            match ← readMessage conn with
            | (conn, none) => .ok (conn, [])
            | (conn, some p) => do
                let (conn, ps) ← readLoop fuel conn
                .ok (conn, p :: ps)

def handleReadSome (conn : Connection NetBlock) (error : NetErrorType) (bytes : Bytes) :
    Except Abort (Connection NetBlock × List (Effect NetBlock)) :=
  if !conn.connected then .ok (conn, [])
  else if error then .ok (conn.onError error)
  else do
    let buf ← writeBytes conn.bufferRecv bytes
    let conn := { conn with bufferRecv := buf, totalRecv := sizeAdd conn.totalRecv bytes.length }
    let (conn, ps) ← readLoop (conn.bufferRecv.length + 1) conn
    let (conn, effects) := conn.beginRead
    .ok (conn, ps.map .eventPostRecv ++ effects)

/-- One more successful read, with the messages posted so far. -/
def readSome (x : Connection NetBlock × List NetBlock) (bytes : Bytes) :
    Except Abort (Connection NetBlock × List NetBlock) := do
  let (conn, effects) ← handleReadSome x.1 false bytes
  .ok (conn, x.2 ++ Connection.posted effects)

/-! ## When an operation asserts -/

theorem writeBytes_eq {b : NetBuffer} {bytes : Bytes} (h : b.writePos + bytes.length ≤ b.maxLen) :
    writeBytes b bytes = .ok (b.writeBytes bytes) := by
  rw [writeBytes, if_neg (by omega)]

theorem readData_eq {b : NetBuffer} {len : Nat} (h : len ≤ b.needReadLength) :
    readData b len = .ok (b.readData len) := by
  have hcan : b.canRead len = true := decide_eq_true h
  rw [readData, myassert, if_pos hcan, ok_bind]

theorem readData_error {b : NetBuffer} {len : Nat} (h : b.needReadLength < len) :
    readData b len = .error (.assertion "net buffer read len error") := by
  have hcan : ¬ b.canRead len = true := by
    rw [NetBuffer.canRead, decide_eq_true_eq]
    omega
  rw [readData, myassert, if_neg hcan, error_bind]

theorem clearReadBuffer_eq {b : NetBuffer} (h : b.Valid) :
    clearReadBuffer b = .ok b.clearReadBuffer := by
  rw [clearReadBuffer, myassert, if_pos (decide_eq_true h.readPos_le), ok_bind]

theorem tail_eq {b : NetBuffer} {base : Bytes} (hlock : b.lock = false)
    (h : b.writePos + base.length ≤ b.maxLen) : tail b base = .ok (b.tail base) := by
  have hfit : base.length + b.writePos ≤ b.maxLen := by omega
  unfold tail
  rw [if_neg (by simp [hlock])]
  by_cases hempty : base.length ≤ 0
  · rw [if_pos hempty, NetBuffer.tail, if_neg (by simp [hlock]), if_pos hempty]
  · rw [if_neg hempty, myassert, if_pos (decide_eq_true hfit), ok_bind]

/-- Moving bytes to an unlocked buffer asserts nothing. -/
theorem readBuffer_eq {b dst : NetBuffer} (hdst : dst.Valid) (hlock : dst.lock = false) :
    readBuffer b dst = .ok (b.readBuffer dst) := by
  have hw := hdst.writePos_le
  unfold readBuffer NetBuffer.readBuffer
  by_cases hfull : dst.isFull = true
  · rw [if_pos hfull, if_pos hfull]
  · rw [if_neg hfull, if_neg hfull]
    by_cases hwrite : b.hasWrite = true
    · have hle : min (b.writePos - b.readPos) (dst.maxLength - dst.writePos) ≤ b.needReadLength :=
        Nat.min_le_left _ _
      have htail : ∀ p : Bytes, p.length ≤ dst.maxLength - dst.writePos →
          tail dst p = .ok (dst.tail p) := by
        intro p hp
        apply tail_eq hlock
        simp only [NetBuffer.maxLength] at hp
        omega
      simp only [hwrite, Bool.not_true, Bool.false_eq_true, if_false, readData_eq hle, ok_bind,
        NetBuffer.readData_of_le hle]
      rw [htail _ (by rw [List.length_take]; omega), ok_bind]
    · simp [hwrite]

theorem recvBody_eq {k : NetBlock} {h : Head} {w : Bytes} (hk : NetBlock.Receiving k h w)
    {buf : NetBuffer} (hbuf : buf.Valid) : recvBody k buf = .ok (k.recvBody buf) := by
  have hlen : sizeSub k.head.len.toNat sizeofHead = NetBlock.bodyLen h := by
    rw [hk.head, NetBlock.bodyLen]
  rcases NetBuffer.readBuffer_spec hbuf hk.data.valid hk.data.lock with
    ⟨buf', d', r, hread, hvalid, -⟩
  unfold recvBody NetBlock.recvBody
  simp only [if_pos hk.state, hlen, readBuffer_eq hk.data.valid hk.data.lock, hread, ok_bind,
    clearReadBuffer_eq hvalid]
  by_cases hfull : d'.isFull = true
  · rw [if_pos hfull, if_pos hfull]
  · rw [if_neg hfull, if_neg hfull]

/-- A `recv` with a whole header, or past it, asserts nothing. -/
theorem recv_eq {v u c : Bytes} {k : NetBlock} (hk : NetBlock.Waits v k u) {buf : NetBuffer}
    (hbuf : buf.Valid) (hunread : buf.unread = u ++ c) (hlen : sizeofHead ≤ (v ++ c).length) :
    recv k buf = .ok (k.recv buf) := by
  unfold recv
  rw [myassert, if_pos rfl, ok_bind]
  cases hk with
  | head _ hstate hdata hu =>
      subst hu
      have hneed : sizeofHead ≤ buf.needReadLength := by
        rw [hbuf.needReadLength_eq, hunread]
        exact hlen
      have hvalid := NetBuffer.valid_advance hbuf hneed
      have hk' : ∀ p, NetBlock.Receiving { k with head := Head.ofBytes p, state := .body }
          (Head.ofBytes p) [] := by
        intro p
        refine ⟨rfl, rfl, ?_⟩
        simp only [hdata, Option.getD_none]
        exact NetBlock.filling_create _
      unfold recvHead NetBlock.recv NetBlock.recvHead
      rw [if_pos hstate, if_pos hstate, readData_eq hneed, ok_bind, NetBuffer.readData_of_le hneed]
      simp only [clearReadBuffer_eq hvalid, ok_bind]
      exact recvBody_eq (hk' _) (NetBuffer.valid_clearReadBuffer hvalid)
  | body _ _ hk =>
      have hstate : ¬ k.state = .init := by
        rw [hk.state]
        decide
      unfold recvHead NetBlock.recv NetBlock.recvHead
      rw [if_neg hstate, if_neg hstate]
      exact recvBody_eq hk hbuf

/-- A `recv` with a part of a header asserts. -/
theorem recv_error {v u c : Bytes} {k : NetBlock} (hk : NetBlock.Waits v k u) {buf : NetBuffer}
    (hbuf : buf.Valid) (hunread : buf.unread = u ++ c) (hlen : (v ++ c).length < sizeofHead) :
    recv k buf = .error (.assertion "net buffer read len error") := by
  cases hk with
  | head _ hstate _ hu =>
      subst hu
      have hneed : buf.needReadLength < sizeofHead := by
        rw [hbuf.needReadLength_eq, hunread]
        exact hlen
      rw [recv, myassert, if_pos rfl, ok_bind, recvHead, if_pos hstate, readData_error hneed,
        error_bind]
  | body hlong =>
      rw [List.length_append] at hlen
      omega

/-! ## The loop over one read -/

/-- What has arrived of a message is nothing, or its whole header at least. -/
def HeaderWhole (v : Bytes) : Prop :=
  v = [] ∨ sizeofHead ≤ v.length

instance (v : Bytes) : Decidable (HeaderWhole v) :=
  inferInstanceAs (Decidable (v = [] ∨ sizeofHead ≤ v.length))

/-- Where `recv` asserts nothing, `readMessage` is that of the release build. -/
theorem readMessage_eq {conn : Connection NetBlock}
    (h : recv (conn.waitMessage.getD (NetBlock.create conn.session 0)) conn.bufferRecv =
      .ok ((conn.waitMessage.getD (NetBlock.create conn.session 0)).recv conn.bufferRecv))
    {x : Connection NetBlock × Option NetBlock}
    (hx : Connection.readMessage NetBlock.blockClass conn = .ok x) : readMessage conn = .ok x := by
  have hrelease : ∀ k : NetBlock, NetBlock.blockClass.recv k conn.bufferRecv =
      .ok (k.recv conn.bufferRecv) := fun _ => rfl
  have hmake : NetBlock.blockClass.make = NetBlock.create := rfl
  simp only [Connection.readMessage, hrelease, hmake, ok_bind] at hx
  unfold readMessage
  simp only [h, ok_bind]
  have hbase : ∀ k : NetBlock, NetBlock.blockClass.bodyDone k = k.bodyDone := fun _ => rfl
  rw [hbase] at hx
  by_cases hdone : ((conn.waitMessage.getD (NetBlock.create conn.session 0)).recv
      conn.bufferRecv).1.bodyDone = true
  · rw [if_pos hdone, Except.ok.injEq] at hx
    rw [if_pos hdone, hx]
  · rw [if_neg hdone, Except.ok.injEq] at hx
    rw [if_neg hdone, hx]

theorem readMessage_error {conn : Connection NetBlock} {a : Abort}
    (h : recv (conn.waitMessage.getD (NetBlock.create conn.session 0)) conn.bufferRecv = .error a) :
    readMessage conn = .error a := by
  unfold readMessage
  simp only [h, error_bind]

theorem readLoop_empty {conn : Connection NetBlock} (hempty : ¬ conn.bufferRecv.hasWrite = true)
    (fuel : Nat) : readLoop fuel conn = .ok (conn, []) := by
  rw [Bool.not_eq_true] at hempty
  unfold readLoop
  rw [hempty]
  rfl

theorem readLoop_succ {conn : Connection NetBlock} (hwrite : conn.bufferRecv.hasWrite = true)
    (fuel : Nat) :
    readLoop (fuel + 1) conn =
      match readMessage conn with
      | .error e => .error e
      | .ok (conn, none) => .ok (conn, [])
      | .ok (conn, some p) => (readLoop fuel conn).map fun x => (x.1, p :: x.2) := by
  rw [readLoop, hwrite]
  cases readMessage conn with
  | error e => rfl
  | ok x =>
      rcases x with ⟨conn', _ | p⟩
      · rfl
      · simp only [Bool.not_true, Bool.false_eq_true, if_false, ok_bind]
        cases readLoop fuel conn' <;> rfl

/-- With nothing unread in the buffer, no part of a header is left behind. -/
theorem headerWhole_of_empty {cap : Nat} {v c : Bytes} {conn : Connection NetBlock}
    (hconn : NetBlock.decodes.Loaded cap v c conn) (hempty : ¬ conn.bufferRecv.hasWrite = true) :
    HeaderWhole (v ++ c) := by
  rw [hconn.eq_nil_of_not_hasWrite hempty, List.append_nil]
  rcases hconn.pending with ⟨u, hunread, hpending⟩
  rw [hconn.hasWrite_iff, not_not, hunread] at hempty
  have hu : u = [] := (List.append_eq_nil_iff.mp hempty).1
  cases hwait : conn.waitMessage with
  | none =>
      rw [hwait] at hpending
      exact Or.inl hpending.1
  | some k =>
      rw [hwait] at hpending
      have hwaits : NetBlock.Waits v k u := hpending.2
      cases hwaits with
      | head _ _ _ hv => exact Or.inl (hv ▸ hu)
      | body hlong => exact Or.inr hlong

/-- With something unread in the buffer, all of a header has to be there. -/
theorem headerWhole_iff_of_hasWrite {cap : Nat} {v c : Bytes} {conn : Connection NetBlock}
    (hconn : NetBlock.decodes.Loaded cap v c conn) (hwrite : conn.bufferRecv.hasWrite = true) :
    HeaderWhole (v ++ c) ↔ sizeofHead ≤ (v ++ c).length := by
  constructor
  · rintro (hnil | hlong)
    · rcases hconn.waits_getD with ⟨u, hunread, hwaits⟩
      rw [hconn.hasWrite_iff, hunread] at hwrite
      have hwaits' : NetBlock.Waits v _ u := hwaits
      cases hwaits' with
      | head _ _ _ hu => exact absurd (hu ▸ hnil) hwrite
      | body hhead =>
          rw [List.length_append]
          omega
    · exact hlong
  · exact Or.inr

/-- The loop over one read does what it does in the release build when the read leaves no part
of a header behind, and asserts when it does. -/
theorem readLoop_iff {cap : Nat} {v v' c : Bytes} {ms : List (Head × Bytes)}
    (h : NetBlock.frameDecoder.Pumps v c ms (.ok v')) {fuel : Nat} (hfuel : ms.length < fuel)
    {conn : Connection NetBlock} (hconn : NetBlock.decodes.Loaded cap v c conn) :
    if HeaderWhole v' then
      ∃ x, Connection.readLoop NetBlock.blockClass fuel conn = .ok x ∧ readLoop fuel conn = .ok x
    else ∃ m, readLoop fuel conn = .error (.assertion m) := by
  generalize hout : (.ok v' : Except Exn Bytes) = out at h
  induction h generalizing fuel conn with
  | @wait v v₁ c hfeed =>
      rw [Except.ok.injEq] at hout
      subst hout
      rcases NetBlock.of_feed_wait hfeed with ⟨-, rfl⟩
      by_cases hwrite : conn.bufferRecv.hasWrite = true
      · rcases Nat.exists_eq_succ_of_ne_zero (Nat.ne_of_gt hfuel) with ⟨fuel, rfl⟩
        have hstep := Decodes.readMessage_step hconn hwrite
        rw [hfeed] at hstep
        rcases hstep with ⟨conn', hread, -⟩
        rcases hconn.waits_getD with ⟨u, hunread, hwaits⟩
        have hwhole := headerWhole_iff_of_hasWrite hconn hwrite
        by_cases hlen : sizeofHead ≤ (v ++ c).length
        · rw [if_pos (hwhole.mpr hlen)]
          refine ⟨(conn', []), ?_, ?_⟩
          · rw [Decodes.readLoop_succ hwrite, hread]
          · rw [readLoop_succ hwrite,
              readMessage_eq (recv_eq hwaits hconn.valid hunread hlen) hread]
        · rw [if_neg (hwhole.not.mpr hlen)]
          refine ⟨"net buffer read len error", ?_⟩
          have hasserts := recv_error hwaits hconn.valid hunread (Nat.lt_of_not_le hlen)
          rw [readLoop_succ hwrite, readMessage_error hasserts]
      · rw [if_pos (headerWhole_of_empty hconn hwrite)]
        exact ⟨(conn, []), Decodes.readLoop_empty hwrite fuel, readLoop_empty hwrite fuel⟩
  | fail h => cases hout
  | @more v c r m ms out hfeed hr ih =>
      have hwrite := hconn.hasWrite_of_feed (by simp [hfeed])
      rcases Nat.exists_eq_succ_of_ne_zero (Nat.ne_of_gt (Nat.zero_lt_of_lt hfuel)) with
        ⟨fuel, rfl⟩
      have hlen : sizeofHead ≤ (v ++ c).length := (NetBlock.of_feed_message hfeed).1.1
      rcases hconn.waits_getD with ⟨u, hunread, hwaits⟩
      have hstep := Decodes.readMessage_step hconn hwrite
      rw [hfeed] at hstep
      rcases hstep with ⟨conn', p, hread, -, hloaded⟩
      have hdebug := readMessage_eq (recv_eq hwaits hconn.valid hunread hlen) hread
      have hrest := ih (Nat.lt_of_succ_lt_succ hfuel) hloaded hout
      rw [readLoop_succ hwrite, Decodes.readLoop_succ hwrite, hdebug, hread]
      by_cases hwhole : HeaderWhole v'
      · rw [if_pos hwhole] at hrest ⊢
        rcases hrest with ⟨x, hrelease, hloop⟩
        refine ⟨(x.1, p :: x.2), ?_, ?_⟩
        · simp only [hrelease, Except.map]
        · simp only [hloop, Except.map]
      · rw [if_neg hwhole] at hrest ⊢
        rcases hrest with ⟨m', hloop⟩
        refine ⟨m', ?_⟩
        simp only [hloop, Except.map]

/-! ## Runs of reads -/

/-- A read on an open connection, whose bytes fit, is its loop. -/
theorem readSome_eq {conn : Connection NetBlock} (hconn : conn.connected = true)
    (done : List NetBlock) {c : Bytes}
    (hfit : conn.bufferRecv.writePos + c.length ≤ conn.bufferRecv.maxLen) :
    readSome (conn, done) c =
      (readLoop ((conn.received c).bufferRecv.length + 1) (conn.received c)).map
        fun x => (x.1, done ++ x.2) := by
  have hhandle : handleReadSome conn false c =
      (readLoop ((conn.received c).bufferRecv.length + 1) (conn.received c)).map
        fun x => (x.1, x.2.map .eventPostRecv ++ [.asyncReadSome x.1.room]) := by
    rw [handleReadSome, if_neg (by simp [hconn]), if_neg Bool.false_ne_true, writeBytes_eq hfit,
      ok_bind]
    change (do
      let x ← readLoop ((conn.received c).bufferRecv.length + 1) (conn.received c)
      Except.ok (x.1, x.2.map Effect.eventPostRecv ++ [Effect.asyncReadSome x.1.room])) = _
    cases readLoop ((conn.received c).bufferRecv.length + 1) (conn.received c) <;> rfl
  rw [readSome, hhandle]
  cases readLoop ((conn.received c).bufferRecv.length + 1) (conn.received c) with
  | error e => rfl
  | ok x => simp only [Except.map, ok_bind, Decodes.posted_append_asyncReadSome]

/-- One read does what it does in the release build, or asserts. -/
theorem readSome_iff {cap : Nat} {v v' c : Bytes} {ms : List (Head × Bytes)}
    (h : NetBlock.frameDecoder.Pumps v c ms (.ok v')) {conn : Connection NetBlock}
    (hconn : NetBlock.decodes.Reading cap v conn) (hfit : c.length ≤ conn.room)
    (done : List NetBlock) :
    if HeaderWhole v' then
      ∃ y, Connection.readSome NetBlock.blockClass (conn, done) c = .ok y ∧
        readSome (conn, done) c = .ok y
    else ∃ m, readSome (conn, done) c = .error (.assertion m) := by
  have hroom : conn.bufferRecv.writePos + c.length ≤ conn.bufferRecv.maxLen := by
    have hw := hconn.valid.writePos_le
    simp only [Connection.room, NetBuffer.maxLength, NetBuffer.length] at hfit
    omega
  have hloop := readLoop_iff h (Decodes.fuel_received h hconn hfit) (hconn.loaded hfit)
  rw [readSome_eq hconn.connected done hroom, Decodes.readSome_eq hconn.connected]
  by_cases hwhole : HeaderWhole v'
  · rw [if_pos hwhole] at hloop ⊢
    rcases hloop with ⟨x, hrelease, hdebug⟩
    refine ⟨(x.1, done ++ x.2), ?_, ?_⟩
    · rw [hrelease, Except.map]
    · rw [hdebug, Except.map]
  · rw [if_neg hwhole] at hloop ⊢
    rcases hloop with ⟨m, hdebug⟩
    refine ⟨m, ?_⟩
    rw [hdebug, Except.map]

/-- A run of reads asserts nothing exactly when no read leaves a part of a header behind. -/
theorem reads_iff {cap : Nat} {v : Bytes} {cs : List Bytes} {conn : Connection NetBlock}
    (hconn : NetBlock.decodes.Reading cap v conn) {done : List NetBlock}
    (hfit : Connection.ReadsFit NetBlock.blockClass (conn, done) cs) :
    (∃ y, feedAll readSome (conn, done) cs = .ok y) ↔
      ∀ pre post ms v', cs = pre ++ post → pre ≠ [] →
        NetBlock.frameDecoder.Runs v pre ms (.ok v') → HeaderWhole v' := by
  induction cs generalizing v conn done with
  | nil =>
      refine ⟨fun _ pre post ms v' heq hpre => ?_, fun _ => ⟨_, rfl⟩⟩
      rw [List.nil_eq_append_iff] at heq
      exact absurd heq.1 hpre
  | cons c cs ih =>
      rcases NetBlock.lawful_frameDecoder.exists_pumps hconn.isOpen c with ⟨ms, out, hpumps⟩
      cases out with
      | error e => exact absurd hpumps NetBlock.not_pumps_error
      | ok v₁ =>
          have hread := readSome_iff hpumps hconn hfit.1 done
          by_cases hwhole : HeaderWhole v₁
          · rw [if_pos hwhole] at hread
            rcases hread with ⟨y, hrelease, hdebug⟩
            rcases Decodes.readSome_pumps hpumps hconn hfit.1 done with ⟨conn', ps, hy, -, hconn'⟩
            rw [hrelease, Except.ok.injEq] at hy
            subst hy
            have hfit' : Connection.ReadsFit NetBlock.blockClass (conn', done ++ ps) cs := by
              have hrest := hfit.2
              rw [hrelease] at hrest
              exact hrest
            have hstep : feedAll readSome (conn, done) (c :: cs) =
                feedAll readSome (conn', done ++ ps) cs := by
              rw [feedAll, hdebug]
              rfl
            rw [hstep, ih hconn' hfit']
            constructor
            · intro hall pre post ms' v' heq hpre hruns
              rcases List.exists_cons_of_ne_nil hpre with ⟨d, pre, rfl⟩
              rw [List.cons_append, List.cons.injEq] at heq
              rcases heq with ⟨rfl, rfl⟩
              cases hruns with
              | cons hfirst hrest =>
                  rcases hfirst.unique hpumps with ⟨-, hv⟩
                  rw [Except.ok.injEq] at hv
                  subst hv
                  by_cases hnil : pre = []
                  · subst hnil
                    cases hrest
                    exact hwhole
                  · exact hall pre post _ v' rfl hnil hrest
            · intro hall pre post ms' v' heq hpre hruns
              exact hall (c :: pre) post _ v' (by rw [heq, List.cons_append]) (by simp)
                (.cons hpumps hruns)
          · rw [if_neg hwhole] at hread
            rcases hread with ⟨m, hdebug⟩
            constructor
            · rintro ⟨y, hy⟩
              rw [feedAll, hdebug] at hy
              cases hy
            · intro hall
              have hrun : NetBlock.frameDecoder.Runs v [c] (ms ++ []) (.ok v₁) :=
                .cons hpumps (.nil v₁)
              exact absurd (hall [c] cs _ v₁ rfl (by simp) hrun) hwhole

/-! ## Streams of frames -/

/-- A well-formed message on the wire: a header that gives the length of both. -/
structure Frame where
  head : Bytes
  payload : Bytes
  length_head : head.length = sizeofHead
  len_eq : podValue head = sizeofHead + payload.length

def Frame.bytes (f : Frame) : Bytes := f.head ++ f.payload

/-- A position of a stream of frames that is strictly inside a header. -/
def InHeader : List Frame → Nat → Prop
  | [], _ => False
  | f :: fs, pos =>
      (0 < pos ∧ pos < sizeofHead) ∨
        (f.bytes.length ≤ pos ∧ InHeader fs (pos - f.bytes.length))

instance decidableInHeader : ∀ (frames : List Frame) (pos : Nat), Decidable (InHeader frames pos)
  | [], _ => isFalse id
  | f :: fs, pos =>
      have := decidableInHeader fs (pos - f.bytes.length)
      inferInstanceAs (Decidable (_ ∨ (_ ∧ _)))

theorem Frame.length_bytes (f : Frame) : f.bytes.length = sizeofHead + f.payload.length := by
  rw [bytes, List.length_append, f.length_head]

theorem Frame.podValue_append (f : Frame) (y : Bytes) :
    podValue (f.bytes ++ y) = f.bytes.length := by
  have hhead : sizeofHead ≤ f.head.length := f.length_head.ge
  have hlen := congrArg (fun h : Head => h.len.toNat)
    (Head.ofBytes_append hhead (f.payload ++ y))
  simp only [Head.len_ofBytes] at hlen
  rw [bytes, List.append_assoc, hlen, f.len_eq, List.length_append, f.length_head]

/-- The part of a frame that has arrived is no whole message. -/
theorem Frame.not_complete {f : Frame} {x y : Bytes} (h : x ++ y = f.bytes) (hy : y ≠ []) :
    ¬ NetBlock.FrameComplete x := by
  rintro ⟨hhead, hframe⟩
  have hlen : podValue x = f.bytes.length := by
    have hsame := congrArg (fun h : Head => h.len.toNat) (Head.ofBytes_append hhead y)
    simp only [Head.len_ofBytes] at hsame
    rw [← hsame, h]
    simpa using f.podValue_append []
  have hfits : sizeofHead ≤ podValue x := by
    rw [hlen, f.length_bytes]
    omega
  have hpos := List.length_pos_iff.mpr hy
  rw [NetBlock.frameLen_eq hfits, hlen, ← h, List.length_append] at hframe
  omega

/-- The frame at the start of a stream is a whole message. -/
theorem Frame.feed (f : Frame) (y : Bytes) :
    ∃ m, NetBlock.frameDecoder.feed [] (f.bytes ++ y) = .ok (.inr (m, y)) := by
  have hpod := f.podValue_append y
  have hfits : sizeofHead ≤ podValue (f.bytes ++ y) := by
    rw [hpod, f.length_bytes]
    omega
  have hframe : NetBlock.frameLen (f.bytes ++ y) = f.bytes.length := by
    rw [NetBlock.frameLen_eq hfits, hpod]
  have hcomplete : NetBlock.FrameComplete ([] ++ (f.bytes ++ y)) := by
    have hlen := f.length_bytes
    refine ⟨?_, ?_⟩
    · rw [List.nil_append, List.length_append]
      omega
    · rw [List.nil_append, hframe, List.length_append]
      omega
  rw [NetBlock.feed_of_complete hcomplete, List.nil_append, hframe, List.drop_left' rfl]
  exact ⟨_, rfl⟩

/-- Where a stream of frames is cut off, the decoder holds a part of a header exactly when
the cut is inside one. -/
theorem headerWhole_iff {frames : List Frame} {x v : Bytes} {ms : List (Head × Bytes)}
    (hx : x <+: frames.flatMap Frame.bytes) (h : NetBlock.frameDecoder.Pumps [] x ms (.ok v)) :
    HeaderWhole v ↔ ¬ InHeader frames x.length := by
  induction frames generalizing x ms with
  | nil =>
      have hnil : x = [] := List.prefix_nil.mp hx
      subst hnil
      have hwait : NetBlock.frameDecoder.Pumps [] [] [] (.ok []) :=
        .wait (NetBlock.lawful_frameDecoder.nil _ NetBlock.lawful_frameDecoder.init)
      rcases h.unique hwait with ⟨-, hv⟩
      rw [Except.ok.injEq] at hv
      subst hv
      exact iff_of_true (Or.inl rfl) id
  | cons f fs ih =>
      rw [List.flatMap_cons] at hx
      rw [InHeader]
      by_cases hlen : f.bytes.length ≤ x.length
      · -- the first frame has arrived
        have hfirst : f.bytes <+: x :=
          List.prefix_of_prefix_length_le (List.prefix_append _ _) hx hlen
        rcases hfirst with ⟨x', rfl⟩
        rw [List.prefix_append_right_inj] at hx
        rcases f.feed x' with ⟨m, hfeed⟩
        cases h with
        | wait hwait => cases hfeed.symm.trans hwait
        | more hmore hrest =>
            have hsame := hfeed.symm.trans hmore
            simp only [Except.ok.injEq, Sum.inr.injEq, Prod.mk.injEq] at hsame
            rcases hsame with ⟨-, rfl⟩
            have hfits := f.length_bytes
            rw [ih hx hrest, List.length_append, Nat.add_sub_cancel_left]
            constructor
            · rintro hnot (⟨-, hlt⟩ | ⟨-, hin⟩)
              · omega
              · exact hnot hin
            · intro hnot hin
              exact hnot (Or.inr ⟨by omega, hin⟩)
      · have hpart : x <+: f.bytes :=
          List.prefix_of_prefix_length_le hx (List.prefix_append _ _) (by omega)
        rcases hpart with ⟨y, hy⟩
        have hne : y ≠ [] := by
          rintro rfl
          rw [List.append_nil] at hy
          exact hlen (hy ▸ le_rfl)
        have hopen : ¬ NetBlock.FrameComplete ([] ++ x) := Frame.not_complete hy hne
        rcases h.unique (.wait (NetBlock.feed_of_not_complete hopen)) with ⟨-, hv⟩
        rw [Except.ok.injEq, List.nil_append] at hv
        subst hv
        rw [HeaderWhole, ← List.length_eq_zero_iff]
        constructor
        · rintro hwhole (⟨hpos, hlt⟩ | ⟨hle, -⟩)
          · omega
          · exact hlen hle
        · intro hnot
          by_contra hshort
          exact hnot (Or.inl (by omega))

/-- On a stream of well-formed frames, no assertion fails while the reads are handled if and
only if no read ends inside a header. -/
theorem asserts_hold_iff {frames : List Frame} {cs : List Bytes}
    (hcs : cs.flatten <+: frames.flatMap Frame.bytes) {s : SessionId} {size : Nat}
    (hfit : Connection.ReadsFit NetBlock.blockClass (Connection.accepted s size, []) cs) :
    (∃ y, feedAll readSome (Connection.accepted s size, []) cs = .ok y) ↔
      ∀ pre, pre <+: cs → ¬ InHeader frames pre.flatten.length := by
  have hconn : NetBlock.decodes.Reading size [] (Connection.accepted s size) :=
    Decodes.reading_accepted s size
  have hpart : ∀ pre, pre <+: cs → pre.flatten <+: frames.flatMap Frame.bytes := by
    rintro pre ⟨post, rfl⟩
    rw [List.flatten_append] at hcs
    exact (List.prefix_append _ _).trans hcs
  rw [reads_iff hconn hfit]
  constructor
  · intro hall pre hpre
    rcases NetBlock.lawful_frameDecoder.exists_runs NetBlock.lawful_frameDecoder.init pre with
      ⟨ms, out, hruns⟩
    have hpumps := (Decoder.runs_iff_pumps NetBlock.resumable_frameDecoder
      NetBlock.lawful_frameDecoder trivial).mp hruns
    cases out with
    | error e => exact absurd hpumps NetBlock.not_pumps_error
    | ok v =>
        rw [← headerWhole_iff (hpart pre hpre) hpumps]
        by_cases hnil : pre = []
        · subst hnil
          cases hruns
          exact Or.inl rfl
        · rcases hpre with ⟨post, hpost⟩
          exact hall pre post ms v hpost.symm hnil hruns
  · intro hall pre post ms v heq _ hruns
    have hpre : pre <+: cs := ⟨post, heq.symm⟩
    have hpumps := (Decoder.runs_iff_pumps NetBlock.resumable_frameDecoder
      NetBlock.lawful_frameDecoder trivial).mp hruns
    rw [headerWhole_iff (hpart pre hpre) hpumps]
    exact hall pre hpre

/-- A message with a body of two bytes. -/
def hiFrame : Frame :=
  ⟨[14, 0, 0, 0, 0, 0, 0, 0, 0, 0, 0, 0], text "hi", rfl, rfl⟩

/-- The header in one read, and the body in two. -/
theorem asserts_hold_iff_hi :
    ∃ y, feedAll readSome (Connection.accepted 9 32, [])
      [[14, 0, 0, 0, 0, 0, 0, 0, 0, 0, 0, 0], text "h", text "i"] = .ok y := by
  have hcs : [[14, 0, 0, 0, 0, 0, 0, 0, 0, 0, 0, 0], text "h", text "i"].flatten <+:
      [hiFrame].flatMap Frame.bytes := by decide +kernel
  have hfit : Connection.ReadsFit NetBlock.blockClass (Connection.accepted 9 32, [])
      [[14, 0, 0, 0, 0, 0, 0, 0, 0, 0, 0, 0], text "h", text "i"] := by decide +kernel
  -- the reads end behind the header and in the body
  have hcuts : ∀ pre ∈ [[14, 0, 0, 0, 0, 0, 0, 0, 0, 0, 0, 0], text "h", text "i"].inits,
      ¬ InHeader [hiFrame] pre.flatten.length := by decide +kernel
  apply (asserts_hold_iff hcs hfit).mpr
  intro pre hpre
  exact hcuts pre ((List.mem_inits pre _).mpr hpre)

/-- A read that ends behind three bytes of a header asserts. -/
theorem cut_header_asserts :
    [[14, 0, 0], [0, 0, 0, 0, 0, 0, 0, 0, 0, 104, 105]].flatten = [hiFrame].flatMap Frame.bytes ∧
      Connection.ReadsFit NetBlock.blockClass (Connection.accepted 9 32, [])
        [[14, 0, 0], [0, 0, 0, 0, 0, 0, 0, 0, 0, 104, 105]] ∧
      feedAll readSome (Connection.accepted 9 32, [])
          [[14, 0, 0], [0, 0, 0, 0, 0, 0, 0, 0, 0, 104, 105]] =
        .error (.assertion "net buffer read len error") :=
  ⟨by decide +kernel, by decide +kernel, rfl⟩

end Debug

end FannyNet

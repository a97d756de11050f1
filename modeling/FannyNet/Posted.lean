import FannyNet.Layout
import FannyNet.Peers

/-!
# What is posted

A block is made for the session of its connection and is passed on when it is complete.  What
`recv` keeps of a block that waits, and establishes of one that it completes, therefore holds of
every block that a callback is given, in every run of the object.

Main results:

- Definition `BlockClass.Tracks`: what `recv` keeps and establishes, for a session.
- Theorem `TcpObj.passed_on_satisfies`: the blocks of the callbacks.
- Definition `BlockClass.Names`: a block names the session it was read from.
- Theorem `TcpObj.posted_reply_readable`: a `RedisBlock` is read by the getter of its type, and
  by no other.
-/

namespace FannyNet

open Library Library.Transition

variable {β : Type}

/-- A new block satisfies `I`; a call keeps it, or completes the block and establishes `J`, for
the session of the block. -/
structure BlockClass.Tracks (K : BlockClass β) (I J : SessionId → β → Prop) : Prop where
  make : ∀ s, I s (K.make s 0)
  recv : ∀ s k buf k' buf' r, I s k → K.recv k buf = .ok (k', buf', r) →
    if K.bodyDone k' = true then J s k' else I s k'

/-! ## One session -/

/-- The class, with the blocks of one session only. -/
def BlockClass.at (K : BlockClass β) (s : SessionId) : BlockClass β :=
  { K with make := fun _ n => K.make s n }

section
variable {K : BlockClass β} {I J : SessionId → β → Prop}

theorem BlockClass.Tracks.at (h : K.Tracks I J) (s : SessionId) : (K.at s).Keeps (I s) (J s) where
  make _ := h.make s
  recv := h.recv s

namespace Connection

variable {conn conn' : Connection β} {s : SessionId}

theorem readMessage_at (hs : conn.session = s) :
    readMessage (K.at s) conn = readMessage K conn := by
  subst hs
  rfl

/-- The blocks of a connection are all of its session. -/
theorem readLoop_at (fuel : Nat) (hs : conn.session = s) :
    readLoop (K.at s) fuel conn = readLoop K fuel conn := by
  induction fuel generalizing conn with
  | zero => rfl
  | succ fuel ih =>
      rw [readLoop, readLoop, readMessage_at hs]
      cases hread : readMessage K conn with
      | error e => rfl
      | ok x =>
          rcases x with ⟨mid, out⟩
          rcases readMessage_frame hread with ⟨buf, wait, rfl⟩
          cases out with
          | none => rfl
          | some p =>
              have hrest : readLoop (K.at s) fuel
                  { conn with bufferRecv := buf, waitMessage := wait } =
                    readLoop K fuel { conn with bufferRecv := buf, waitMessage := wait } := ih hs
              simp only [hrest]

/-- A completed read keeps the block that waits, and establishes the ones that it completes. -/
theorem handleReadSome_tracks (h : K.Tracks I J) (hs : conn.session = s)
    (hwaiting : conn.Waiting (I s)) {bytes : Bytes} {effects : List (Effect β)}
    (hread : handleReadSome K conn false bytes = .ok (conn', effects)) :
    conn'.Waiting (I s) ∧ ∀ p ∈ posted effects, J s p := by
  have hat : handleReadSome (K.at s) conn false bytes = .ok (conn', effects) := by
    have hloop : readLoop (K.at s) ((conn.received bytes).bufferRecv.length + 1)
        (conn.received bytes) = readLoop K ((conn.received bytes).bufferRecv.length + 1)
          (conn.received bytes) := readLoop_at _ hs
    rw [← hread]
    unfold handleReadSome
    simp only [hloop]
  have hsome : readSome (K.at s) (conn, []) bytes = .ok (conn', posted effects) := by
    rw [readSome, hat]
    rfl
  exact (h.at s).readSome hwaiting (List.forall_mem_nil _) hsome

end Connection

/-! ## Runs of a connection -/

namespace ConnState

variable {s s' : ConnState β} {sid : SessionId} {a : ConnAction} {effects : List (Effect β)}

/-- The block that waits satisfies `I`, and those that were posted satisfy `J`. -/
structure Tracking (I J : SessionId → β → Prop) (sid : SessionId) (s : ConnState β) : Prop where
  session : s.conn.session = sid
  waiting : s.conn.Waiting (I sid)
  posted : ∀ p ∈ s.messages, J sid p

theorem tracking_create (size : Nat) : Tracking I J sid (create sid size) where
  session := rfl
  waiting := nofun
  posted := nofun

/-- No handler changes whose connection it is. -/
theorem session_step (h : s.step K a = some (s', effects)) : s'.conn.session = s.conn.session := by
  cases a with
  | handler handler =>
      cases handler with
      | writeMessage i =>
          rcases frame_writeMessage h with ⟨ps, out, total, sending, ws, rfl⟩
          rfl
      | handleClose i =>
          rcases step_handleClose h with ⟨er, -, ⟨-, -, rfl, -⟩ | ⟨-, rfl, -⟩⟩
          · rfl
          · rfl
      | handlAccept =>
          rcases step_handlAccept h with ⟨-, rfl, -⟩
          rfl
      | handleReadSome i error bytes =>
          rcases step_handleReadSome h with ⟨room, -, -, ⟨-, rfl, -⟩ | ⟨-, -, rfl, -⟩ |
            ⟨-, -, conn', ps, -, ⟨buf, wait, rfl⟩, rfl, -⟩⟩
          · rfl
          · rfl
          · rfl
      | handleWrite i error size =>
          rcases frame_handleWrite h with
            ⟨ps, out, total, sending, ws, closing, completed, failed, asked, rfl⟩
          rfl
      | handleConnect error =>
          rcases step_handleConnect h with ⟨-, ⟨-, rfl, -⟩ | ⟨-, -, rfl, -⟩ | ⟨-, -, rfl, -⟩⟩
          · rfl
          · rfl
          · rfl
  | _ =>
      cases h
      rfl

theorem Tracking.step (hK : K.Tracks I J) (h : Tracking I J sid s)
    (hstep : s.step K a = some (s', effects)) : Tracking I J sid s' := by
  have hsession := (session_step hstep).trans h.session
  have hquiet : a.read = [] ∨ s.conn.connected = false → Tracking I J sid s' := by
    intro hread
    rcases step_keeps_receiving hstep hread with ⟨-, hwait, hmessages, -⟩
    refine ⟨hsession, ?_, hmessages ▸ h.posted⟩
    intro k hk
    rw [hwait] at hk
    exact h.waiting k hk
  cases a with
  | handler handler =>
      cases handler with
      | handleReadSome i error bytes =>
          rcases step_handleReadSome hstep with ⟨room, -, -, ⟨hdown, -⟩ | ⟨-, rfl, -⟩ |
            ⟨-, rfl, conn', ps, hread, -, rfl, rfl⟩⟩
          · exact hquiet (Or.inr hdown)
          · exact hquiet (Or.inl rfl)
          · rcases Connection.handleReadSome_tracks hK h.session h.waiting hread with
              ⟨hwaiting, hposted⟩
            rw [Decodes.posted_append_asyncReadSome] at hposted
            exact ⟨hsession, hwaiting, List.forall_mem_append.mpr ⟨h.posted, hposted⟩⟩
      | _ => exact hquiet (Or.inl rfl)
  | _ => exact hquiet (Or.inl rfl)

end ConnState

/-! ## Runs of an object -/

namespace TcpObj

variable {config : Config} {pool : IoObjectPool} {t : TcpObj β} {as : List TcpAction}

/-- Every block that a callback is given is complete, and satisfies what `recv` establishes for
the session of the callback. -/
theorem passed_on_satisfies (hK : K.Tracks I J)
    (h : run (step K) (create config pool) as = some t) {s : SessionId} {k : β}
    (hmem : .callFun s k ∈ t.callbacks) : J s k := by
  have htracking : ConnState.Tracking I J s (t.conn s) := by
    refine run_invariant (I := ConnState.Tracking I J s) ?_ (ConnState.tracking_create bufferSize)
      (run_conn h s)
    intro c a c' hc hnext
    rcases ConnState.next_eq_some.mp hnext with ⟨effects, hstep⟩
    exact hc.step hK hstep
  have hmessage : k ∈ t.callbacks.filterMap (Callback.message s) :=
    List.mem_filterMap.mpr ⟨_, hmem, if_pos rfl⟩
  have hfirst := passed_on_prefix h s
  exact htracking.posted k (hfirst.subset hmessage)

end TcpObj

end

/-! ## The session of a block -/

/-- A block names the session it was made for. -/
def BlockClass.Names (K : BlockClass β) : Prop :=
  K.Tracks (fun s k => (K.base k).session = s) fun s k => (K.base k).session = s

/-- It is enough that `recv` leaves the session of a block alone. -/
theorem BlockClass.names_of_recv {K : BlockClass β} (hmake : ∀ s, (K.base (K.make s 0)).session = s)
    (hrecv : ∀ k buf k' buf' r, K.recv k buf = .ok (k', buf', r) →
      (K.base k').session = (K.base k).session) : K.Names where
  make := hmake
  recv := by
    intro s k buf k' buf' r hs h
    have hsession := (hrecv k buf k' buf' r h).trans hs
    split
    · exact hsession
    · exact hsession

theorem NetBlock.names : NetBlock.blockClass.Names := by
  apply BlockClass.names_of_recv (fun _ => rfl)
  intro k buf k' buf' r h
  have hbody : ∀ (k : NetBlock) buf, (k.recvBody buf).1.session = k.session := by
    intro k buf
    unfold NetBlock.recvBody
    split
    · dsimp only
      split
      · rfl
      · rfl
    · rfl
  have hrecv : (k.recv buf).1.session = k.session := by
    unfold NetBlock.recv NetBlock.recvHead
    split
    · split
      · exact hbody _ _
      · rfl
    · exact hbody k buf
  have hsame : k'.session = (k.recv buf).1.session :=
    congrArg (fun x => x.1.session) (Except.ok.inj h).symm
  exact hsame.trans hrecv

section
variable [LexicalCast]

theorem RedisBlock2.names : RedisBlock2.blockClass.Names := by
  apply BlockClass.names_of_recv (fun _ => rfl)
  intro k buf k' buf' r h
  rcases exists_of_bind h with ⟨⟨p, pos, r'⟩, -, heq⟩
  cases heq
  rfl

/-! ## The values of a `RedisBlock` -/

namespace RedisBlock

/-- The values that a reply of a type has. -/
def HasValues : ReplyT → List Bytes → Prop
  | .noReply, vs => vs = []
  | .multiBulkReply, _ => True
  | .intReply, vs => ∃ v n, vs = [v] ∧ lexicalCast v = .ok n
  | _, vs => ∃ v, vs = [v]

/-- A block that waits has no value yet, unless it is an array. -/
structure Unanswered (s : SessionId) (k : RedisBlock) : Prop where
  session : k.session = s
  open_ : k.bodyDone = false
  values : k.type ≠ .multiBulkReply → k.recvList = []

/-- A complete block has the values of its type. -/
structure Answered (s : SessionId) (k : RedisBlock) : Prop where
  session : k.session = s
  done : k.bodyDone = true
  values : HasValues k.type k.recvList

def Answers (s : SessionId) (k : RedisBlock) (r : Bool) : Prop :=
  if r then k.Answered s else k.Unanswered s

variable {s : SessionId} {k k' : RedisBlock}

omit [LexicalCast] in
/-- The text kept of a line that has not ended is no value. -/
theorem Unanswered.keep (h : k.Unanswered s) (t : Bytes) : Unanswered s { k with temp := t } where
  session := h.session
  open_ := h.open_
  values := h.values

omit [LexicalCast] in
/-- An array may have some of its elements already. -/
theorem unanswered_multi (hs : k.session = s) (hopen : k.bodyDone = false)
    (htype : k.type = .multiBulkReply) : k.Unanswered s where
  session := hs
  open_ := hopen
  values := fun hne => absurd htype hne

/-- A result that is laid out has the values that were put in. -/
theorem Makes.answered (h : Makes k k') (hs : k.session = s) (hdone : k.bodyDone = true)
    (hone : k.type ≠ .noReply → k.type ≠ .multiBulkReply → ∃ v, k.recvList = [v])
    (hnone : k.type = .noReply → k.recvList = []) : k'.Answered s := by
  rcases h with ⟨d, rfl, -, hcasts⟩
  refine ⟨hs, hdone, ?_⟩
  change HasValues k.type k.recvList
  cases htype : k.type with
  | noReply => exact hnone htype
  | multiBulkReply => trivial
  | intReply =>
      rcases hone (by simp [htype]) (by simp [htype]) with ⟨v, hv⟩
      rcases hcasts htype with ⟨n, hn⟩
      rw [hv] at hn ⊢
      exact ⟨v, n, rfl, hn⟩
  | _ => exact hone (by simp [htype]) (by simp [htype])

theorem recvBulk_answers (h : k.Unanswered s) (htype : k.type = .bulkReply) (buf : NetBuffer) :
    OnOk (fun k' x => Answers s k' x.2) (k.recvBulk buf) := by
  have hlist := h.values (by simp [htype])
  apply (k.recvBulk_pass buf).imp
  rintro k' ⟨buf', r⟩ hpass
  change BulkPass k k' r at hpass
  cases hpass with
  | wait t => exact h.keep t
  | @last t v k' hmakes =>
      apply hmakes.answered h.session rfl
      · intro _ _
        exact ⟨v, by rw [hlist, List.nil_append]⟩
      · intro hno
        rw [htype] at hno
        cases hno

theorem recvElements_answers (fuel : Nat) (h : k.Unanswered s) (htype : k.type = .multiBulkReply)
    (buf : NetBuffer) : OnOk (fun k' x => Answers s k' x.2) (recvElements fuel k buf) := by
  apply recvElements_loop (I := fun k => k.Unanswered s ∧ k.type = .multiBulkReply)
    (J := Answers s)
  · intro k₁ hk₁
    exact hk₁.1
  · intro k₁ k₂ out hk₁ hpass
    rcases hk₁ with ⟨hopen, hmulti⟩
    cases hpass with
    | @wait t st n hst =>
        have hbody : ({ k₁ with temp := t, state := st, bufSize := n } : RedisBlock).bodyDone =
            false := by
          rcases hst with rfl | rfl
          · exact hopen.open_
          · rfl
        have hwait : Unanswered s { k₁ with temp := t, state := st, bufSize := n } :=
          unanswered_multi hopen.session hbody hmulti
        exact hwait
    | more => exact ⟨unanswered_multi hopen.session rfl hmulti, hmulti⟩
    | last hv hsize hall hmakes =>
        apply hmakes.answered hopen.session rfl
        · intro _ hne
          exact absurd hmulti hne
        · intro hno
          change k₁.type = _ at hno
          rw [hmulti] at hno
          cases hno
  · exact ⟨h, htype⟩

theorem recvBody_answers (h : k.Unanswered s) (buf : NetBuffer) :
    OnOk (fun k' x => Answers s k' x.2) (k.recvBody buf) := by
  unfold recvBody
  split
  · rename_i htype
    exact recvBulk_answers h htype buf
  · split
    · rename_i htype
      exact recvElements_answers _ h htype buf
    · exact h

theorem recvType_answers (h : k.Unanswered s) (htype : k.type = .noReply) (buf : NetBuffer)
    (str : Bytes) : OnOk (fun k' x => Answers s k' x.2) (k.recvType buf str) := by
  have hlist := h.values (by simp [htype])
  -- a reply that is complete with its line
  have hmake : ∀ k₁ : RedisBlock, k₁.session = k.session → k₁.state = .done →
      (k₁.type ≠ .noReply → k₁.type ≠ .multiBulkReply → ∃ v, k₁.recvList = [v]) →
      (k₁.type = .noReply → k₁.recvList = []) →
      OnOk (fun k' (x : NetBuffer × Bool) => Answers s k' x.2)
        (k₁.makeRedisBuffer >>= fun k' => .ok (k', buf, true)) := by
    intro k₁ hsession hstate hone hnone
    apply onOk_make (f := id)
    intro k' hmakes
    refine hmakes.answered (hsession.trans h.session) ?_ hone hnone
    rw [NetBlockBase.bodyDone, hstate]
    rfl
  have hone : ∀ v : Bytes, ∃ w, k.recvList ++ [v] = [w] := by
    intro v
    exact ⟨v, by rw [hlist, List.nil_append]⟩
  unfold recvType
  cases getReplyType str with
  | noReply => exact hmake _ rfl rfl (fun hne => absurd rfl hne) fun _ => hlist
  | statusCodeReply =>
      exact onOk_bind fun v _ => hmake _ rfl rfl (fun _ _ => hone v) fun hno => nomatch hno
  | errorReply =>
      exact onOk_bind fun v _ => hmake _ rfl rfl (fun _ _ => hone v) fun hno => nomatch hno
  | intReply =>
      exact onOk_bind fun v _ => hmake _ rfl rfl (fun _ _ => hone v) fun hno => nomatch hno
  | bulkReply =>
      refine onOk_bind fun v _ => onOk_bind fun n _ => ?_
      split
      · exact hmake _ rfl rfl (fun _ _ => hone REDIS_MISSING) fun hno => nomatch hno
      · apply recvBody_answers
        constructor
        · exact h.session
        · rfl
        · exact fun _ => hlist
  | multiBulkReply =>
      refine onOk_bind fun v _ => onOk_bind fun n _ => ?_
      split
      · have hmulti : ∀ t : ReplyT, t = .multiBulkReply → t ≠ .multiBulkReply →
            ∃ v, k.recvList = [v] := fun _ heq hne => absurd heq hne
        exact hmake _ rfl rfl (fun _ hne => hmulti _ rfl hne) fun hno => nomatch hno
      · apply recvBody_answers
        apply unanswered_multi
        · exact h.session
        · rfl
        · rfl

/-- A call keeps a block that waits, or completes it with the values of its type. -/
theorem recv_answers (h : k.Unanswered s) (buf : NetBuffer) :
    OnOk (fun k' x => Answers s k' x.2) (k.recv buf) := by
  unfold recv
  split
  · rename_i htype
    rcases k.readline_eq buf with ⟨t, buf', out, hcall⟩
    rw [hcall]
    cases out with
    | none =>
        have hwait : Answers s { k with temp := t } false := h.keep t
        exact hwait
    | some str => exact recvType_answers (h.keep t) htype buf' str
  · exact recvBody_answers h buf

theorem tracks_answers : blockClass.Tracks Unanswered Answered where
  make s := ⟨rfl, rfl, fun _ => rfl⟩
  recv := by
    intro s k buf k' buf' r hopen hrecv
    have hends : Answers s k' r := (recv_answers hopen buf).of_ok hrecv
    cases r with
    | true =>
        have hanswered : k'.Answered s := hends
        have hdone : blockClass.bodyDone k' = true := hanswered.done
        rw [if_pos hdone]
        exact hanswered
    | false =>
        have hunanswered : k'.Unanswered s := hends
        have hopen' : ¬ blockClass.bodyDone k' = true := by
          change ¬ k'.bodyDone = true
          rw [hunanswered.open_]
          exact Bool.false_ne_true
        rw [if_neg hopen']
        exact hunanswered

/-! ## The getters -/

/-- The getter for replies of type `t` returns a value with `P` on a block of this type, and
throws on a block of another. -/
def Gets {α : Type} (k : RedisBlock) (t : ReplyT) (reply : Except Exn α) (P : α → Prop) : Prop :=
  if k.type = t then ∃ v, reply = .ok v ∧ P v else reply = .error .runtimeError

/-- The getter of the type of a block returns its values, and the other getters throw. -/
structure Readable (k : RedisBlock) : Prop where
  status : k.Gets .statusCodeReply k.getStatusCodeReply fun v => k.recvList = [v]
  error : k.Gets .errorReply k.getErrorReply fun v => k.recvList = [v]
  bulk : k.Gets .bulkReply k.getBulkReply fun v => k.recvList = [v]
  int : k.Gets .intReply k.getIntReply fun n => ∃ v, k.recvList = [v] ∧ lexicalCast v = .ok n
  multiBulk : k.Gets .multiBulkReply k.getMultiBulkReply fun vs => vs = k.recvList

omit [LexicalCast] in
/-- On a complete block only the type is checked. -/
theorem checkReplyT_of_done (hdone : k.bodyDone = true) (t : ReplyT) :
    k.checkReplyT t = if k.type = t then .ok () else .error .runtimeError := by
  unfold checkReplyT
  by_cases htype : k.type = t
  · rw [if_pos htype, if_neg (by simp [htype, hdone])]
  · rw [if_neg htype, if_pos (Or.inl htype)]

omit [LexicalCast] in
theorem gets_of_done {α : Type} (hdone : k.bodyDone = true) {t : ReplyT} {reply : Except Exn α}
    {P : α → Prop} (h : k.type = t → ∃ v, reply = .ok v ∧ P v) :
    k.Gets t (k.checkReplyT t >>= fun _ => reply) P := by
  unfold Gets
  rw [checkReplyT_of_done hdone]
  split
  · rename_i htype
    exact h htype
  · rfl

theorem Answered.readable (h : k.Answered s) : k.Readable := by
  have hvalues := h.values
  have hone : ∀ {v : Bytes}, k.recvList = [v] → ∃ w, Except.ok (ε := Exn) (k.recvList.headD []) =
      .ok w ∧ k.recvList = [w] := by
    intro v hv
    exact ⟨v, by rw [hv]; rfl, hv⟩
  constructor
  · apply gets_of_done h.done
    intro htype
    rw [htype] at hvalues
    exact hvalues.elim fun v hv => hone hv
  · apply gets_of_done h.done
    intro htype
    rw [htype] at hvalues
    exact hvalues.elim fun v hv => hone hv
  · apply gets_of_done h.done
    intro htype
    rw [htype] at hvalues
    exact hvalues.elim fun v hv => hone hv
  · apply gets_of_done h.done
    intro htype
    rw [htype] at hvalues
    rcases hvalues with ⟨v, n, hv, hn⟩
    exact ⟨n, by rw [hv]; exact hn, v, hv, hn⟩
  · apply gets_of_done h.done
    intro _
    exact ⟨_, rfl, rfl⟩

end RedisBlock

namespace TcpObj

variable {config : Config} {pool : IoObjectPool} {as : List TcpAction} {s : SessionId}

/-- Every `RedisBlock` that a callback is given names the session of the callback, and is read by
the getter of its type and by no other. -/
theorem posted_reply_readable {t : TcpObj RedisBlock} {k : RedisBlock}
    (h : run (step RedisBlock.blockClass) (create config pool) as = some t)
    (hmem : .callFun s k ∈ t.callbacks) : k.session = s ∧ k.bodyDone = true ∧ k.Readable := by
  have hanswered : k.Answered s := passed_on_satisfies RedisBlock.tracks_answers h hmem
  exact ⟨hanswered.session, hanswered.done, hanswered.readable⟩

end TcpObj

end

/-- A client reads an integer that is cut, and passes it on. -/
def integerPosted : List TcpAction :=
  [.start true, .handler 1 (.handleConnect false),
    .handler 1 (.handleReadSome 0 false (text ":4")),
    .handler 1 (.handleReadSome 0 false (text "2\r\n")), .poll, .event, .event]

theorem TcpObj.posted_reply_readable_integer :
    ∃ (t : TcpObj RedisBlock) (k : RedisBlock),
      run (step RedisBlock.blockClass) (create ⟨.client, false⟩ ⟨0, []⟩) integerPosted = some t ∧
      t.callbacks = [.connectFun 1, .callFun 1 k] ∧ k.getIntReply = .ok 42 ∧
      k.session = 1 ∧ k.bodyDone = true ∧ k.Readable := by
  have hrun : (run (step RedisBlock.blockClass) (create ⟨.client, false⟩ ⟨0, []⟩)
      integerPosted).any (fun t => (t.conn 1).messages.head?.any fun k =>
        t.callbacks = [.connectFun 1, .callFun 1 k] ∧ k.getIntReply = .ok 42) = true := by
    decide +kernel
  rcases (Option.any_eq_true _ _).mp hrun with ⟨t, ht, hcall⟩
  rcases (Option.any_eq_true _ _).mp hcall with ⟨k, -, hvalues⟩
  rw [decide_eq_true_eq] at hvalues
  rcases hvalues with ⟨hcalls, hget⟩
  exact ⟨t, k, ht, hcalls, hget, posted_reply_readable ht (by simp [hcalls])⟩

end FannyNet

import FannyNet.SendPath
import FannyNet.TcpObject

/-!
# What an object calls on its connections

Requests of the user, queued starts and completed accepts end in calls of `send`, `close`,
`postAccept` and `connect` on connections.  As the object makes no other use of them, its runs
are, for each session, runs of one connection.

Main results:

- Definition `TcpObj.calls`: what a step calls on the connection of a session.
- Theorem `TcpObj.step_calls`: a step of the object is those calls, for that connection.
- Theorem `TcpObj.accepted_eq_passed`: what the connection of a session was handed to send.
-/

namespace FannyNet

open Library.Transition

namespace TcpObj

variable {β : Type}

/-- The connection of a session; nothing has happened on one that is not there yet. -/
def conn (t : TcpObj β) (s : SessionId) : ConnState β :=
  (t.conns s).getD (ConnState.create s bufferSize)

/-- What a start calls on the connection of a session. -/
def startCalls (t : TcpObj β) (s : SessionId) : List ConnAction :=
  if t.config.serviceType = .client ∧ t.current = some s then [.connect] else []

/-- What a step calls on the connection of a session. -/
def calls (t : TcpObj β) (s : SessionId) : TcpAction → List ConnAction
  | .start _ => t.startCalls s
  | .stop =>
      List.replicate (t.onlines.count s) (.close false) ++
        if t.config.serviceType = .server ∧ t.current = some s then [.close false] else []
  | .kick r => if r = s ∧ t.pool.session r = true then [.close false] else []
  | .send r p => if r = s ∧ t.pool.session r = true then [.send p] else []
  | .sendAll p => List.replicate (t.onlines.count s) (.send p)
  | .event => if (t.recv.getD []).head?.any (· matches .start) then t.startCalls s else []
  | .acceptSocket error =>
      if t.stopped = false ∧ t.current = some s then
        [if !error then .postAccept else .close error]
      else []
  | .handler r h => if r = s then [.handler h] else []
  | .poll => []
  | .pollReturn => []
  | .nextSession => []

variable {K : BlockClass β} {t t' : TcpObj β} {s r : SessionId} {a : ConnAction}

theorem eq_connect_of_mem (ha : a ∈ t.startCalls s) : a = .connect := by
  simp only [startCalls, List.mem_ite_nil_right, List.mem_singleton] at ha
  exact ha.2

/-- Everything but a handler of the session is a call from outside. -/
theorem calls_spec {act : TcpAction} (ha : a ∈ t.calls s act) :
    (∀ h, a ≠ .handler h) ∨ ∃ h, act = .handler s h ∧ a = .handler h := by
  cases act with
  | handler r h =>
      simp only [calls, List.mem_ite_nil_right, List.mem_singleton] at ha
      rcases ha with ⟨rfl, rfl⟩
      exact Or.inr ⟨h, rfl, rfl⟩
  | start ok =>
      rw [eq_connect_of_mem ha]
      exact Or.inl nofun
  | event =>
      simp only [calls, List.mem_ite_nil_right] at ha
      rw [eq_connect_of_mem ha.2]
      exact Or.inl nofun
  | stop =>
      simp only [calls, List.mem_append, List.mem_replicate, List.mem_ite_nil_right,
        List.mem_singleton] at ha
      rcases ha with ⟨-, rfl⟩ | ⟨-, rfl⟩
      · exact Or.inl nofun
      · exact Or.inl nofun
  | kick r =>
      simp only [calls, List.mem_ite_nil_right, List.mem_singleton] at ha
      rw [ha.2]
      exact Or.inl nofun
  | send r p =>
      simp only [calls, List.mem_ite_nil_right, List.mem_singleton] at ha
      rw [ha.2]
      exact Or.inl nofun
  | sendAll p =>
      rw [List.eq_of_mem_replicate ha]
      exact Or.inl nofun
  | acceptSocket error =>
      simp only [calls, List.mem_ite_nil_right, List.mem_singleton] at ha
      rw [ha.2]
      cases error with
      | false => exact Or.inl nofun
      | true => exact Or.inl nofun
  | poll => cases ha
  | pollReturn => cases ha
  | nextSession => cases ha

/-! ## The calls of a step -/

theorem conn_runConn (h : runConn K t r a = some t') (s : SessionId) :
    run (ConnState.next K) (t.conn s) (if r = s then [a] else []) = some (t'.conn s) := by
  rcases session_runConn h with ⟨c, c', effects, hc, hstep, hsame, hother⟩
  by_cases hr : r = s
  · subst hr
    have hc' : t'.conns r = some c' := congrArg Session.conn hsame
    rw [if_pos rfl, conn, conn, hc, hc', run_cons]
    exact ⟨c', ConnState.next_eq_some.mpr ⟨effects, hstep⟩, rfl⟩
  · have hconn : t'.conns s = t.conns s :=
      congrArg Session.conn (hother s fun heq => hr heq.symm)
    rw [if_neg hr, conn, conn, hconn]
    rfl

theorem conn_runAll {ss : List SessionId} (h : runAll K t ss a = some t') (s : SessionId) :
    run (ConnState.next K) (t.conn s) (List.replicate (ss.count s) a) = some (t'.conn s) := by
  induction ss generalizing t with
  | nil =>
      cases h
      rfl
  | cons r ss ih =>
      rw [runAll, List.foldlM_cons, Option.bind_eq_bind, Option.bind_eq_some_iff] at h
      rcases h with ⟨mid, hmid, hrest⟩
      have hsplit : List.replicate ((r :: ss).count s) a =
          (if r = s then [a] else []) ++ List.replicate (ss.count s) a := by
        by_cases hr : r = s
        · rw [hr, List.count_cons_self, if_pos rfl, List.replicate_succ]
          rfl
        · rw [List.count_cons_of_ne hr, if_neg hr, List.nil_append]
      rw [hsplit, run_append, conn_runConn hmid s]
      exact ih hrest

/-- A connection that is created is one on which nothing has happened. -/
theorem conn_createConnection (hk : t.Known) (s : SessionId) :
    t.createConnection.1.conn s = t.conn s := by
  have hsession := congrArg Session.conn (session_createConnection t s)
  change t.createConnection.1.conns s = _ at hsession
  rw [conn, hsession]
  split
  · rename_i hs
    rw [conn, hk s (hs ▸ Nat.lt_succ_self _)]
    rfl
  · rfl

theorem conn_beginAccept (hk : t.Known) (s : SessionId) : t.beginAccept.conn s = t.conn s := by
  unfold beginAccept
  split
  · rfl
  · exact conn_createConnection hk s

theorem conn_start {ok : Bool} (hk : t.Known) (h : start K t ok = some t') (s : SessionId) :
    run (ConnState.next K) (t.conn s) (t.startCalls s) = some (t'.conn s) := by
  unfold start doStart at h
  cases hflag : t.config.serviceType with
  | server =>
      rw [startCalls, hflag, if_neg (fun hs => nomatch hs.1)]
      simp only [hflag] at h
      split at h
      · cases h
        exact congrArg some (conn_beginAccept (t := { t with stopped := false }) hk s).symm
      · cases h
        rfl
  | client =>
      simp only [startCalls, hflag, true_and]
      simp only [hflag] at h
      split at h
      · rename_i hcur
        cases h
        rw [hcur, if_neg nofun]
        rfl
      · rename_i r hcur
        simp only [Option.bind_eq_bind, Option.bind_eq_some_iff, Option.some.injEq] at h
        rcases h with ⟨mid, hmid, rfl⟩
        simp only [hcur, Option.some.injEq]
        exact conn_runConn hmid s

theorem conn_stop (h : stop K t = some t') (s : SessionId) :
    run (ConnState.next K) (t.conn s) (t.calls s .stop) = some (t'.conn s) := by
  simp only [stop, Option.bind_eq_bind, Option.bind_eq_some_iff] at h
  rcases h with ⟨mid, hmid, hstop⟩
  rcases frame_runAll hmid with ⟨hconfig, hcur, -⟩
  have hall := conn_runAll hmid s
  change run _ (t.conn s) _ = _ at hall
  rw [calls, run_append, hall, Option.bind_some, ← hconfig, ← hcur]
  unfold doStop at hstop
  split at hstop
  · rename_i hflag
    split at hstop
    · cases hstop
    · rename_i r hcur'
      simp only [hflag, hcur', Option.some.injEq, true_and]
      exact conn_runConn hstop s
  · rename_i hflag
    simp only [hflag, reduceCtorEq, false_and, if_false]
    cases hstop
    rfl

theorem conn_acceptSocket {error : NetErrorType} (hk : t.Known)
    (h : acceptSocket K t error = some t') (s : SessionId) :
    run (ConnState.next K) (t.conn s) (t.calls s (.acceptSocket error)) = some (t'.conn s) := by
  unfold acceptSocket at h
  rw [calls]
  split at h
  · rename_i hstopped
    cases h
    rw [hstopped, if_neg (fun hs => nomatch hs.1)]
    rfl
  · rename_i hstopped
    rw [Bool.not_eq_true] at hstopped
    rw [hstopped]
    split at h
    · rename_i hcur
      cases h
      rw [hcur, if_neg (fun hs => nomatch hs.2)]
      rfl
    · rename_i r hcur
      simp only [Option.bind_eq_bind, Option.bind_eq_some_iff, Option.some.injEq] at h
      rcases h with ⟨mid, hmid, rfl⟩
      have hknown : mid.Known := (asks_runConn (by cases error <;> trivial) hmid).known hk
      simp only [hcur, Option.some.injEq, true_and]
      rw [conn_beginAccept hknown]
      exact conn_runConn hmid s

theorem conn_event (hk : t.Known) (h : event K t = some t') (s : SessionId) :
    run (ConnState.next K) (t.conn s) (t.calls s .event) = some (t'.conn s) := by
  unfold event at h
  split at h
  · rename_i e rest hrecv
    simp only [calls, hrecv, Option.getD_some, List.head?_cons, Option.any_some]
    by_cases he : e = .start
    · subst he
      rw [if_pos rfl]
      exact conn_start (t := { t with ran := t.ran ++ [.start], recv := some rest }) hk h s
    · rcases frame_runEvent he h with ⟨-, hconns, -⟩
      have hsame : t'.conn s = t.conn s := by
        rw [conn, hconns]
        rfl
      rw [if_neg (by cases e <;> first | exact absurd rfl he | nofun), hsame]
      rfl
  · cases h

/-- A step of the object is, for the connection of a session, what it calls on it. -/
theorem step_calls {act : TcpAction} (hk : t.Known) (h : step K t act = some t')
    (s : SessionId) : run (ConnState.next K) (t.conn s) (t.calls s act) = some (t'.conn s) := by
  cases step_cases h with
  | start hstart => exact conn_start hk hstart s
  | stop hstop => exact conn_stop hstop s
  | unknown hs hact =>
      rcases hact with rfl | ⟨p, rfl⟩
      · rw [calls, hs, if_neg (fun h => nomatch h.2)]
        rfl
      · rw [calls, hs, if_neg (fun h => nomatch h.2)]
        rfl
  | kick hs hrun =>
      simp only [calls, hs, and_true]
      exact conn_runConn hrun s
  | send hs hrun =>
      simp only [calls, hs, and_true]
      exact conn_runConn hrun s
  | sendAll hrun => exact conn_runAll hrun s
  | poll => rfl
  | event hevent => exact conn_event hk hevent s
  | pollReturn => rfl
  | acceptSocket hpos haccept =>
      exact conn_acceptSocket (t := { t with accepts := t.accepts - 1 }) hk haccept s
  | handler hrun => exact conn_runConn hrun s
  | nextSession => rfl

/-! ## Who is online -/

/-- The two tables of connections are as they were. -/
def SameOnline (t t' : TcpObj β) : Prop :=
  t'.onlines = t.onlines ∧ t'.pool.onlines = t.pool.onlines

theorem SameOnline.trans {u : TcpObj β} (h : t.SameOnline t') (h' : t'.SameOnline u) :
    t.SameOnline u :=
  ⟨h'.1.trans h.1, h'.2.trans h.2⟩

theorem sameOnline_runConn (h : runConn K t s a = some t') : t.SameOnline t' := by
  rcases frame_runConn h with ⟨-, hpool, honlines, -⟩
  exact ⟨honlines, congrArg _ hpool⟩

theorem sameOnline_runAll {ss : List SessionId} (h : runAll K t ss a = some t') :
    t.SameOnline t' := by
  induction ss generalizing t with
  | nil =>
      cases h
      exact ⟨rfl, rfl⟩
  | cons r ss ih =>
      rw [runAll, List.foldlM_cons, Option.bind_eq_bind, Option.bind_eq_some_iff] at h
      rcases h with ⟨mid, hmid, hrest⟩
      exact (sameOnline_runConn hmid).trans (ih hrest)

theorem sameOnline_beginAccept (t : TcpObj β) : t.SameOnline t.beginAccept := by
  unfold beginAccept
  split
  · exact ⟨rfl, rfl⟩
  · exact ⟨rfl, rfl⟩

theorem sameOnline_start {ok : Bool} (h : start K t ok = some t') : t.SameOnline t' := by
  unfold start doStart at h
  split at h
  · split at h
    · cases h
      exact sameOnline_beginAccept { t with stopped := false }
    · cases h
      exact ⟨rfl, rfl⟩
  · split at h
    · cases h
      exact ⟨rfl, rfl⟩
    · simp only [Option.bind_eq_bind, Option.bind_eq_some_iff, Option.some.injEq] at h
      rcases h with ⟨mid, hmid, rfl⟩
      have hconn := sameOnline_runConn hmid
      exact ⟨hconn.1, hconn.2⟩

theorem sameOnline_stop (h : stop K t = some t') : t.SameOnline t' := by
  simp only [stop, Option.bind_eq_bind, Option.bind_eq_some_iff] at h
  rcases h with ⟨mid, hmid, hstop⟩
  have hrun := sameOnline_runAll hmid
  have hall : t.SameOnline mid := ⟨hrun.1, hrun.2⟩
  unfold doStop at hstop
  split at hstop
  · split at hstop
    · cases hstop
    · exact hall.trans (sameOnline_runConn hstop)
  · cases hstop
    exact hall

theorem sameOnline_acceptSocket {error : NetErrorType} (h : acceptSocket K t error = some t') :
    t.SameOnline t' := by
  unfold acceptSocket at h
  split at h
  · cases h
    exact ⟨rfl, rfl⟩
  · split at h
    · cases h
      exact ⟨rfl, rfl⟩
    · simp only [Option.bind_eq_bind, Option.bind_eq_some_iff, Option.some.injEq] at h
      rcases h with ⟨mid, hmid, rfl⟩
      exact (sameOnline_runConn hmid).trans (sameOnline_beginAccept mid)

/-- Only events change who is online. -/
theorem sameOnline_step {act : TcpAction} (h : step K t act = some t') (hne : act ≠ .event) :
    t.SameOnline t' := by
  cases step_cases h with
  | start hstart => exact sameOnline_start hstart
  | stop hstop => exact sameOnline_stop hstop
  | unknown => exact ⟨rfl, rfl⟩
  | kick hs hrun => exact sameOnline_runConn hrun
  | send hs hrun => exact sameOnline_runConn hrun
  | sendAll hrun => exact sameOnline_runAll hrun
  | poll => exact ⟨rfl, rfl⟩
  | event => exact absurd rfl hne
  | pollReturn => exact ⟨rfl, rfl⟩
  | acceptSocket hpos haccept =>
      have hsame := sameOnline_acceptSocket haccept
      exact ⟨hsame.1, hsame.2⟩
  | handler hrun => exact sameOnline_runConn hrun
  | nextSession => exact ⟨rfl, rfl⟩

/-- An event lets nobody in or out, or the session that it is about. -/
theorem online_event (h : event K t = some t') :
    t.SameOnline t' ∨
      (∃ r, t'.onlines = t.onlines.insert r ∧ t'.pool.onlines = t.pool.onlines.insert r) ∨
      ∃ r, t'.onlines = t.onlines.filter (· ≠ r) ∧
        t'.pool.onlines = t.pool.onlines.filter (· ≠ r) := by
  unfold event at h
  split at h
  · rename_i e rest hrecv
    cases e with
    | eventRecv r p =>
        cases h
        exact Or.inl ⟨rfl, rfl⟩
    | eventConnect r =>
        cases h
        exact Or.inr (Or.inl ⟨r, rfl, rfl⟩)
    | eventCloseFun r =>
        cases h
        exact Or.inl ⟨rfl, rfl⟩
    | delSession r =>
        cases h
        exact Or.inr (Or.inr ⟨r, rfl, rfl⟩)
    | start =>
        have hsame : SameOnline { t with ran := t.ran ++ [.start], recv := some rest } t' :=
          sameOnline_start h
        exact Or.inl hsame
  · cases h

/-- `m_onlines` holds no connection twice. -/
theorem nodup_step {act : TcpAction} (h : step K t act = some t') (hnodup : t.onlines.Nodup) :
    t'.onlines.Nodup := by
  by_cases hact : act = .event
  · subst hact
    rcases online_event h with ⟨hsame, -⟩ | ⟨r, honlines, -⟩ | ⟨r, honlines, -⟩
    · rw [hsame]
      exact hnodup
    · rw [honlines]
      exact hnodup.insert
    · rw [honlines]
      exact hnodup.filter _
  · rw [(sameOnline_step h hact).1]
    exact hnodup

/-! ## Blocks on their way out -/

/-- The blocks that a request passes on to the connection of a session: those for its id, if
it is found, and those for everyone, if it is online. -/
def passed (t : TcpObj β) (s : SessionId) : TcpAction → List NetBuffer
  | .send r p => if r = s ∧ t.pool.session s = true then [p.val] else []
  | .sendAll p => if s ∈ t.onlines then [p.val] else []
  | _ => []

/-- Of the calls of a step only requests to send pass anything on. -/
theorem sent_calls (hnodup : t.onlines.Nodup) (s : SessionId) (act : TcpAction) :
    (t.calls s act).flatMap ConnAction.sent = t.passed s act := by
  have hstart : (t.startCalls s).flatMap ConnAction.sent = [] := by
    rw [List.flatMap_eq_nil_iff]
    intro a ha
    rw [eq_connect_of_mem ha]
    rfl
  cases act with
  | send r p =>
      rw [calls, passed]
      by_cases hr : r = s
      · rw [hr]
        split
        · rfl
        · rfl
      · rw [if_neg (fun h => hr h.1), if_neg (fun h => hr h.1)]
        rfl
  | sendAll p =>
      rw [calls, passed]
      by_cases hs : s ∈ t.onlines
      · rw [List.count_eq_one_of_mem hnodup hs, if_pos hs]
        rfl
      · rw [List.count_eq_zero_of_not_mem hs, if_neg hs]
        rfl
  | start ok => exact hstart
  | event =>
      rw [calls]
      split
      · exact hstart
      · rfl
  | stop =>
      change _ = []
      rw [List.flatMap_eq_nil_iff]
      intro a ha
      rw [calls, List.mem_append, List.mem_ite_nil_right, List.mem_singleton] at ha
      rcases ha with ha | ⟨-, rfl⟩
      · rw [List.eq_of_mem_replicate ha]
        rfl
      · rfl
  | acceptSocket error =>
      rw [calls]
      split
      · cases error <;> rfl
      · rfl
  | kick r =>
      rw [calls]
      split
      · rfl
      · rfl
  | handler r h =>
      rw [calls]
      split
      · rfl
      · rfl
  | poll => rfl
  | pollReturn => rfl
  | nextSession => rfl

variable {config : Config} {pool : IoObjectPool}

theorem onlines_create : (create config pool : TcpObj β).onlines = [] := by
  unfold create
  cases config.serviceType <;> rfl

theorem conn_create (s : SessionId) :
    (create config pool : TcpObj β).conn s = ConnState.create s bufferSize := by
  unfold create
  cases config.serviceType with
  | server => rfl
  | client => exact conn_createConnection (fun r _ => rfl) s

/-- Each run of an object is, for the connection of a session, the run of what is called on
it. -/
theorem run_conn {as : List TcpAction} (h : run (step K) (create config pool) as = some t)
    (s : SessionId) :
    run (ConnState.next K) (ConnState.create s bufferSize)
      (emitted (step K) (fun t a => t.calls s a) (create config pool) as) = some (t.conn s) := by
  have hstart : (create config pool : TcpObj β).conn s = ConnState.create s bufferSize :=
    conn_create s
  rw [← hstart]
  exact run_emitted (I := TcpObj.Known) (fun _ _ _ hk hstep =>
    ⟨(step_session hk hstep).known, step_calls hk hstep s⟩) known_create h

/-- The connection of a session was handed exactly the blocks that the requests passed on to
it, each once and in the order of the requests. -/
theorem accepted_eq_passed {as : List TcpAction}
    (h : run (step K) (create config pool) as = some t) (s : SessionId) :
    (t.conn s).accepted = emitted (step K) (fun t a => t.passed s a) (create config pool) as := by
  have hnodup : (create config pool : TcpObj β).onlines.Nodup := by
    rw [onlines_create]
    exact List.nodup_nil
  have hhistory := (ConnState.run_history (run_conn h s)).1
  rw [flatMap_emitted] at hhistory
  rw [hhistory]
  exact emitted_congr (I := fun t => t.onlines.Nodup) (fun _ _ _ hn hstep => nodup_step hstep hn)
    (fun t a hn => sent_calls hn s a) hnodup as

end TcpObj

end FannyNet

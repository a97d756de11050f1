import FannyNet.Calls
import FannyNet.Ownership
import FannyNet.Closing

/-!
# Operations outstanding on a connection

An accept or a connect that succeeds starts the first read, and a read that succeeds starts the
next.  A connect that fails leaves a start in the queue of a client that reconnects.  What is
outstanding or queued is therefore passed on, and only requests add to it.

Main results:

- Theorem `ConnState.receiving_step`: what a step does to what is outstanding.
- Theorem `TcpObj.server_one_at_a_time`: on the connections of a server no two reads and no two
  writes overlap.
- Theorem `TcpObj.client_attempts`: every start of a client that reconnects is under way until a
  connect succeeds.
-/

namespace FannyNet

open Library.Transition

variable {β : Type}

/-- Whether an action begins an accept or a connect. -/
def ConnAction.opens : ConnAction → Bool
  | .postAccept => true
  | .connect => true
  | _ => false

/-- Whether an effect reports a connect as failed. -/
def Effect.isFailure : Effect β → Bool
  | .eventConnectFailed => true
  | _ => false

/-- The connects that were reported as failed. -/
def failures (effects : List (Effect β)) : Nat :=
  effects.countP Effect.isFailure

/-- Whether an event starts the object, and whether the user does. -/
def TcpEvent.isStart : TcpEvent β → Bool
  | .start => true
  | _ => false

def TcpAction.isStart : TcpAction → Bool
  | .start _ => true
  | _ => false

namespace ConnState

variable {K : BlockClass β} {s s' : ConnState β} {a : ConnAction} {effects : List (Effect β)}

/-- The accepts, connects and reads that are outstanding. -/
def receiving (s : ConnState β) : Nat :=
  s.accepting + s.connecting + s.reading.length

/-- A connection that is not up, with nothing outstanding but connects. -/
structure OnlyConnects (s : ConnState β) : Prop where
  down : s.conn.connected = false
  accepting : s.accepting = 0
  reading : s.reading = []

theorem failures_messages (ps : List β) (room : Nat) :
    failures (ps.map Effect.eventPostRecv ++ [.asyncReadSome room]) = 0 := by
  rw [failures, List.countP_append, List.countP_eq_zero.mpr]
  · rfl
  · intro e he
    rcases List.mem_map.mp he with ⟨p, -, rfl⟩
    nofun

theorem failures_writes (ws : List Bytes) : failures (ws.map (Effect.asyncWrite (β := β))) = 0 := by
  rw [failures, List.countP_eq_zero]
  intro e he
  rcases List.mem_map.mp he with ⟨bytes, -, rfl⟩
  nofun

theorem failures_of_handled (s : ConnState β) {size : Nat}
    (heq : (s', effects) = s.handled (s.conn.writeMessage size)) : failures effects = 0 := by
  rcases handled_writeMessage s size with ⟨ps, out, total, sending, ws, hwrite⟩
  rw [hwrite, Prod.mk.injEq] at heq
  rw [heq.2]
  exact failures_writes ws

/-- What a step adds to what is outstanding was asked for; and as long as a connection has not
come up, only what was asked for and what has failed makes a difference. -/
theorem receiving_step (h : s.step K a = some (s', effects)) :
    s'.receiving + failures effects ≤ s.receiving + (if a.opens then 1 else 0) ∧
      (s.OnlyConnects → a ≠ .postAccept → a ≠ .handler (.handleConnect false) →
        s'.OnlyConnects ∧
          s'.receiving + failures effects = s.receiving + (if a.opens then 1 else 0)) := by
  -- a step that opens nothing and reports nothing
  have hquiet : s'.accepting = s.accepting → s'.connecting = s.connecting →
      s'.reading = s.reading → (s.conn.connected = false → s'.conn.connected = false) →
      failures effects = 0 → a.opens = false →
      s'.receiving + failures effects ≤ s.receiving + (if a.opens then 1 else 0) ∧
        (s.OnlyConnects → a ≠ .postAccept → a ≠ .handler (.handleConnect false) →
          s'.OnlyConnects ∧
            s'.receiving + failures effects = s.receiving + (if a.opens then 1 else 0)) := by
    intro haccepting hconnecting hreading hdown hfailures hopens
    have heq : s'.receiving + failures effects = s.receiving + (if a.opens then 1 else 0) := by
      rw [receiving, receiving, haccepting, hconnecting, hreading, hfailures, hopens]
      rfl
    refine ⟨heq.le, ?_⟩
    intro honly _ _
    exact ⟨⟨hdown honly.down, haccepting.trans honly.accepting, hreading.trans honly.reading⟩, heq⟩
  cases a with
  | send p =>
      cases h
      exact hquiet rfl rfl rfl id rfl rfl
  | close er =>
      cases h
      exact hquiet rfl rfl rfl id rfl rfl
  | postAccept =>
      cases h
      refine ⟨?_, fun _ hne => absurd rfl hne⟩
      change s.accepting + 1 + s.connecting + s.reading.length + 0 ≤
        s.accepting + s.connecting + s.reading.length + 1
      omega
  | connect =>
      cases h
      have heq : s.accepting + (s.connecting + 1) + s.reading.length + 0 =
          s.accepting + s.connecting + s.reading.length + 1 := by
        omega
      exact ⟨heq.le, fun honly _ _ => ⟨⟨honly.down, honly.accepting, honly.reading⟩, heq⟩⟩
  | handler handler =>
      cases handler with
      | writeMessage i =>
          have hfailures : failures effects = 0 := by
            rcases step_writeMessage h with ⟨size, -, ⟨-, -, rfl⟩ | ⟨-, -, heq⟩⟩
            · rfl
            · exact failures_of_handled _ heq
          rcases frame_writeMessage h with ⟨ps, out, total, sending, ws, rfl⟩
          exact hquiet rfl rfl rfl id hfailures rfl
      | handleClose i =>
          rcases step_handleClose h with ⟨er, -, ⟨-, -, rfl, rfl⟩ | ⟨-, rfl, rfl⟩⟩
          · exact hquiet rfl rfl rfl id rfl rfl
          · exact hquiet rfl rfl rfl (fun _ => rfl) rfl rfl
      | handleWrite i error size =>
          have hfailures : failures effects = 0 := by
            rcases step_handleWrite h with
              ⟨bytes, -, ⟨-, -, -, rfl⟩ | ⟨-, -, -, -, rfl⟩ | ⟨-, -, -, heq⟩⟩
            · rfl
            · rfl
            · exact failures_of_handled _ heq
          rcases frame_handleWrite h with
            ⟨ps, out, total, sending, ws, closing, completed, failed, asked, rfl⟩
          exact hquiet rfl rfl rfl id hfailures rfl
      | handlAccept =>
          rcases step_handlAccept h with ⟨hpos, rfl, rfl⟩
          refine ⟨?_, fun honly => absurd honly.accepting (Nat.ne_of_gt hpos)⟩
          change s.accepting - 1 + s.connecting + (s.reading ++ [s.conn.room]).length + 0 ≤
            s.accepting + s.connecting + s.reading.length + 0
          rw [List.length_append, List.length_singleton]
          omega
      | handleReadSome i error bytes =>
          rcases step_handleReadSome h with ⟨room, hi, -, hcases⟩
          have hlt := (List.getElem?_eq_some_iff.mp hi).1
          refine ⟨?_, fun honly => ?_⟩
          · rcases hcases with ⟨-, rfl, rfl⟩ | ⟨-, -, rfl, rfl⟩ | ⟨-, -, conn', ps, -, -, rfl, rfl⟩
            · simp [receiving, failures, ConnAction.opens, List.length_eraseIdx_of_lt hlt]
            · simp [receiving, failures, Effect.isFailure, ConnAction.opens,
                List.length_eraseIdx_of_lt hlt]
            · rw [failures_messages]
              simp [receiving, ConnAction.opens, List.length_eraseIdx_of_lt hlt]
              omega
          · rw [honly.reading] at hlt
            exact absurd hlt (Nat.not_lt_zero i)
      | handleConnect error =>
          rcases step_handleConnect h with
            ⟨hpos, ⟨hup, rfl, rfl⟩ | ⟨hdown, rfl, rfl, rfl⟩ | ⟨-, rfl, rfl, rfl⟩⟩
          · refine ⟨?_, fun honly => ?_⟩
            · simp [receiving, failures, ConnAction.opens]
            · rw [honly.down] at hup
              cases hup
          · have heq : s.accepting + (s.connecting - 1) + s.reading.length + 1 =
                s.accepting + s.connecting + s.reading.length + 0 := by
              omega
            exact ⟨heq.le, fun honly _ _ => ⟨⟨honly.down, honly.accepting, honly.reading⟩, heq⟩⟩
          · refine ⟨?_, fun _ _ hne => absurd rfl hne⟩
            change s.accepting + (s.connecting - 1) + (s.reading ++ [s.conn.room]).length + 0 ≤
              s.accepting + s.connecting + s.reading.length + 0
            rw [List.length_append, List.length_singleton]
            omega

theorem receiving_run {as : List ConnAction} (h : run (next K) s as = some s') :
    s'.receiving ≤ s.receiving + as.countP ConnAction.opens := by
  refine count_le_of_run (I := fun _ => True) ?_ trivial h
  intro s a t _ hnext
  rcases next_eq_some.mp hnext with ⟨effects, hstep⟩
  exact ⟨trivial, (Nat.le_add_right _ _).trans (receiving_step hstep).1⟩

end ConnState

namespace TcpObj

variable {K : BlockClass β} {config : Config} {pool : IoObjectPool} {t t' : TcpObj β}
  {s r : SessionId} {a : ConnAction} {act : TcpAction}

/-! ## Servers -/

/-- Nothing is outstanding on the current connection of a server, and at most one accept or read
on any other. -/
structure OneEach (t : TcpObj β) : Prop where
  flag : t.config.serviceType = .server
  known : t.Known
  current : ∀ s, t.current = some s → (t.conn s).receiving = 0
  each : ∀ s, (t.conn s).receiving ≤ 1

/-- The current connection stays what it is, or a new one takes its place. -/
def Replaces (t t' : TcpObj β) : Prop :=
  t'.current = t.current ∨ ∃ r, t'.current = some r ∧ t'.conn r = ConnState.create r bufferSize

theorem exists_new_current (hstopped : t.stopped = false) :
    ∃ r, t.beginAccept.current = some r ∧ t.beginAccept.conn r = ConnState.create r bufferSize := by
  have hbegin : t.beginAccept.current = some (t.pool.curSessionId + 1) ∧
      t.beginAccept.conns = t.createConnection.1.conns := by
    unfold beginAccept
    rw [hstopped]
    exact ⟨rfl, rfl⟩
  have hsession := congrArg Session.conn (session_createConnection t (t.pool.curSessionId + 1))
  rw [if_pos rfl] at hsession
  change t.createConnection.1.conns _ = _ at hsession
  refine ⟨_, hbegin.1, ?_⟩
  rw [conn, hbegin.2, hsession]
  rfl

theorem replaces_beginAccept (t : TcpObj β) : t.Replaces t.beginAccept := by
  cases hstopped : t.stopped with
  | true =>
      left
      unfold beginAccept
      rw [hstopped]
      rfl
  | false => exact Or.inr (exists_new_current hstopped)

theorem replaces_start {ok : Bool} (hflag : t.config.serviceType = .server)
    (h : start K t ok = some t') : t.Replaces t' := by
  simp only [start, doStart, hflag] at h
  split at h
  · cases h
    exact replaces_beginAccept { t with stopped := false }
  · cases h
    exact Or.inl rfl

theorem replaces_stop (h : stop K t = some t') : t.Replaces t' := by
  left
  simp only [stop, Option.bind_eq_bind, Option.bind_eq_some_iff] at h
  rcases h with ⟨mid, hmid, hstop⟩
  have hall := (frame_runAll hmid).2.1
  unfold doStop at hstop
  split at hstop
  · split at hstop
    · cases hstop
    · rcases frame_runConn hstop with ⟨-, -, -, -, -, -, hcurrent, -⟩
      exact hcurrent.trans hall
  · cases hstop
    exact hall

theorem replaces_event (hflag : t.config.serviceType = .server) (h : event K t = some t') :
    t.Replaces t' := by
  unfold event at h
  split at h
  · rename_i e rest hrecv
    by_cases he : e = .start
    · subst he
      exact replaces_start (t := { t with ran := t.ran ++ [.start], recv := some rest }) hflag h
    · rcases frame_runEvent he h with ⟨-, -, -, -, hcurrent, -⟩
      exact Or.inl hcurrent
  · cases h

/-- Once an accept has been handed to the current connection a new one takes its place. -/
theorem acceptSocket_replaces {error : NetErrorType} (h : acceptSocket K t error = some t') :
    (t' = t ∧ (t.stopped = true ∨ t.current = none)) ∨
      ∃ r, t'.current = some r ∧ t'.conn r = ConnState.create r bufferSize := by
  unfold acceptSocket at h
  split at h
  · rename_i hstopped
    cases h
    exact Or.inl ⟨rfl, Or.inl hstopped⟩
  · rename_i hstopped
    split at h
    · rename_i hcur
      cases h
      exact Or.inl ⟨rfl, Or.inr hcur⟩
    · right
      simp only [Option.bind_eq_bind, Option.bind_eq_some_iff, Option.some.injEq] at h
      rcases h with ⟨mid, hmid, rfl⟩
      rcases frame_runConn hmid with ⟨-, -, -, -, -, hmidstopped, -⟩
      rw [Bool.not_eq_true, ← hmidstopped] at hstopped
      exact exists_new_current hstopped

theorem replaces_step (hflag : t.config.serviceType = .server) (h : step K t act = some t') :
    t.Replaces t' := by
  have hrun : ∀ {s a}, runConn K t s a = some t' → t.Replaces t' := by
    intro s a hrun
    rcases frame_runConn hrun with ⟨-, -, -, -, -, -, hcurrent, -⟩
    exact Or.inl hcurrent
  cases step_cases h with
  | start hstart => exact replaces_start hflag hstart
  | stop hstop => exact replaces_stop hstop
  | unknown => exact Or.inl rfl
  | kick _ hkick => exact hrun hkick
  | send _ hsend => exact hrun hsend
  | sendAll hall => exact Or.inl (frame_runAll hall).2.1
  | poll => exact Or.inl rfl
  | event hevent => exact replaces_event hflag hevent
  | pollReturn => exact Or.inl rfl
  | acceptSocket _ haccept =>
      rcases acceptSocket_replaces haccept with ⟨rfl, -⟩ | hnew
      · exact Or.inl rfl
      · exact Or.inr hnew
  | handler hhandler => exact hrun hhandler
  | nextSession => exact Or.inl rfl

/-- A server opens nothing but what it has accepted. -/
theorem opens_calls (hflag : t.config.serviceType = .server) (s : SessionId) (act : TcpAction) :
    (t.calls s act).countP ConnAction.opens = 0 ∨
      ((t.calls s act).countP ConnAction.opens = 1 ∧ t.stopped = false ∧ t.current = some s ∧
        ∃ error, act = .acceptSocket error) := by
  have hnone : t.startCalls s = [] := by
    rw [startCalls, hflag, if_neg (by simp)]
  cases act with
  | start ok =>
      rw [calls, hnone]
      exact Or.inl rfl
  | event =>
      rw [calls, hnone, ite_self]
      exact Or.inl rfl
  | acceptSocket error =>
      rw [calls]
      split
      · rename_i hcur
        cases error with
        | false => exact Or.inr ⟨rfl, hcur.1, hcur.2, false, rfl⟩
        | true => exact Or.inl rfl
      · exact Or.inl rfl
  | _ =>
      -- none of the other calls opens anything
      left
      rw [List.countP_eq_zero]
      intro b hb
      cases b with
      | postAccept => simp [calls, List.mem_replicate] at hb
      | connect => simp [calls, List.mem_replicate] at hb
      | _ => simp [ConnAction.opens]

theorem accept_eq_some {error : NetErrorType} (h : step K t (.acceptSocket error) = some t') :
    acceptSocket K { t with accepts := t.accepts - 1 } error = some t' := by
  simp only [step] at h
  split at h
  · cases h
  · exact h

theorem OneEach.step (h : t.OneEach) (hstep : TcpObj.step K t act = some t') : t'.OneEach := by
  have hsteps := step_session h.known hstep
  have hrun : ∀ s, (t'.conn s).receiving ≤
      (t.conn s).receiving + (t.calls s act).countP ConnAction.opens :=
    fun s => ConnState.receiving_run (step_calls h.known hstep s)
  refine ⟨hsteps.config.symm ▸ h.flag, hsteps.known, ?_, ?_⟩
  · intro s hs
    have hle := hrun s
    rcases opens_calls h.flag s act with hzero | ⟨-, hstopped, hcur, error, rfl⟩
    · rcases replaces_step h.flag hstep with hsame | ⟨r, hr, hnew⟩
      · rw [hsame] at hs
        rw [hzero, h.current s hs] at hle
        exact Nat.eq_zero_of_le_zero hle
      · rw [hr, Option.some.injEq] at hs
        rw [← hs, hnew]
        rfl
    · -- an accept that was handed on is followed by the next
      rcases acceptSocket_replaces (accept_eq_some hstep) with ⟨-, hidle⟩ | ⟨r, hr, hnew⟩
      · rcases hidle with hstop | hnone
        · exact absurd (hstopped.symm.trans hstop) Bool.false_ne_true
        · rw [hcur] at hnone
          cases hnone
      · rw [hr, Option.some.injEq] at hs
        rw [← hs, hnew]
        rfl
  · intro s
    have hle := hrun s
    rcases opens_calls h.flag s act with hzero | ⟨hone, -, hcur, -⟩
    · rw [hzero] at hle
      exact hle.trans (h.each s)
    · rw [hone, h.current s hcur] at hle
      exact hle

theorem oneEach_create (hflag : config.serviceType = .server) :
    (create config pool : TcpObj β).OneEach where
  flag := by
    rw [config_create]
    exact hflag
  known := known_create
  current s hs := by
    simp [create, hflag] at hs
  each s := by
    rw [conn_create]
    exact Nat.zero_le 1

/-- Whatever accepts complete, connections come and go, and starts and stops the user asks for: no
two accepts or reads of a connection of a server are outstanding at once, nor two writes. -/
theorem server_one_at_a_time (hflag : config.serviceType = .server) {as : List TcpAction}
    (h : run (step K) (create config pool) as = some t) (s : SessionId) :
    (t.conn s).accepting + (t.conn s).connecting + (t.conn s).reading.length ≤ 1 ∧
      (t.conn s).writing.length ≤ 1 := by
  have hone : t.OneEach :=
    run_invariant (fun _ _ _ hs hstep => hs.step hstep) (oneEach_create hflag) h
  have hflying : (t.conn s).sendPath.Flying :=
    ConnState.run_sendPath (I := SendPath.Flying) (P := fun _ => True)
      (fun _ _ _ _ hmove _ hs => hmove.flying hs) (fun _ _ => trivial)
      (ConnState.flying_create s bufferSize) (run_conn h s)
  refine ⟨hone.each s, ?_⟩
  rcases hflying.writing with ⟨-, hwriting, -⟩ | ⟨-, hnil⟩
  · exact (congrArg List.length hwriting).le
  · exact (congrArg List.length hnil).trans_le (Nat.zero_le 1)

/-- A server is stopped and started again while an accept is outstanding; then one accept
completes, another fails, and the connection that was accepted reads. -/
def restarted : List TcpAction :=
  [.start true, .stop, .start true, .acceptSocket false, .acceptSocket true,
    .handler 2 .handlAccept, .handler 2 (.handleReadSome 0 false [13, 0])]

theorem server_one_at_a_time_restarted :
    ∃ t, run (step NetBlock.blockClass) (create ⟨.server, false⟩ ⟨0, []⟩) restarted = some t ∧
      (t.conn 2).accepting + (t.conn 2).connecting + (t.conn 2).reading.length ≤ 1 ∧
        (t.conn 2).writing.length ≤ 1 := by
  have hrun : (run (step NetBlock.blockClass) (create ⟨.server, false⟩ ⟨0, []⟩) restarted).isSome =
      true := by decide +kernel
  rcases Option.isSome_iff_exists.mp hrun with ⟨t, ht⟩
  exact ⟨t, ht, server_one_at_a_time rfl ht 2⟩

/-! ## Clients -/

/-- The starts that are queued. -/
def restarts (t : TcpObj β) : Nat :=
  t.pending.countP TcpEvent.isStart

/-- What is outstanding on the connection of a session, or queued. -/
def underWay (t : TcpObj β) (s : SessionId) : Nat :=
  (t.conn s).receiving + t.restarts

/-- From one state to another, for the session of a client: at most `n` more is under way, and
exactly `n` on a connection that has never come up and does not now. -/
structure Adds (s : SessionId) (n : Nat) (down : Prop) (t t' : TcpObj β) : Prop where
  config : t'.config = t.config
  current : t'.current = t.current
  le : t'.underWay s ≤ t.underWay s + n
  eq : down → t.config.autoReconnect = true → (t.conn s).OnlyConnects →
    (t'.conn s).OnlyConnects ∧ t'.underWay s = t.underWay s + n

variable {n m : Nat} {down : Prop} {u : TcpObj β}

/-- Nothing of the session changes. -/
theorem Adds.of_eq (hconfig : t'.config = t.config) (hcurrent : t'.current = t.current)
    (hconns : t'.conns = t.conns) (hrestarts : t'.restarts = t.restarts) :
    Adds s 0 down t t' := by
  have hconn : t'.conn s = t.conn s := by
    rw [conn, hconns]
    rfl
  have heq : t'.underWay s = t.underWay s := by
    rw [underWay, underWay, hconn, hrestarts]
  refine ⟨hconfig, hcurrent, heq.le, ?_⟩
  intro _ _ honly
  rw [hconn]
  exact ⟨honly, heq⟩

theorem Adds.trans (h : Adds s n down t u) (h' : Adds s m down u t') :
    Adds s (n + m) down t t' where
  config := h'.config.trans h.config
  current := h'.current.trans h.current
  le := by
    have hle := h.le
    have hle' := h'.le
    omega
  eq hdown hauto honly := by
    rcases h.eq hdown hauto honly with ⟨honly', heq⟩
    rcases h'.eq hdown (h.config.symm ▸ hauto) honly' with ⟨honly'', heq'⟩
    exact ⟨honly'', by omega⟩

theorem countP_pushed (t : TcpObj β) (s : SessionId) (effects : List (Effect β)) :
    (effects.flatMap (t.pushed s)).countP TcpEvent.isStart =
      if t.config.serviceType = .client ∧ t.config.autoReconnect = true then failures effects
      else 0 := by
  induction effects with
  | nil =>
      split
      · rfl
      · rfl
  | cons e es ih =>
      rw [List.flatMap_cons, List.countP_append, ih]
      cases e with
      | eventConnectFailed =>
          simp only [pushed, failures, List.countP_cons]
          split
          · simp [TcpEvent.isStart, Effect.isFailure, Nat.add_comm]
          · rfl
      | _ => simp [pushed, failures, TcpEvent.isStart, Effect.isFailure]

/-- A client runs no connection but its own. -/
theorem eq_of_runConn (h : t.OwnsSession) (hs : t.current = some s)
    (hrun : runConn K t r a = some t') : r = s := by
  rcases session_runConn hrun with ⟨c, -, -, hc, -⟩
  have howns := h.session r (by rw [hc]; exact Option.some_ne_none c)
  rw [hs, Option.some.injEq] at howns
  exact howns.symm

theorem adds_runConn (h : t.OwnsSession) (hs : t.current = some s)
    (hrun : runConn K t r a = some t')
    (hdown : down → a ≠ .postAccept ∧ a ≠ .handler (.handleConnect false)) :
    Adds s (if a.opens then 1 else 0) down t t' := by
  rcases frame_runConn hrun with ⟨hconfig, -, -, -, -, -, hcurrent, -⟩
  have hr := eq_of_runConn h hs hrun
  subst hr
  simp only [runConn, Option.bind_eq_bind, Option.bind_eq_some_iff, Option.some.injEq] at hrun
  rcases hrun with ⟨c, hc, ⟨c', effects⟩, hstep, rfl⟩
  rcases ConnState.receiving_step hstep with ⟨hle, heq⟩
  have hbefore : t.conn r = c := by
    rw [conn, hc]
    rfl
  have hafter : conn { t with
      conns := Function.update t.conns r (some c')
      call := t.call ++ effects.flatMap (t.pushed r) } r = c' := by
    simp [conn]
  have hrestarts : restarts { t with
      conns := Function.update t.conns r (some c')
      call := t.call ++ effects.flatMap (t.pushed r) } =
      t.restarts + if t.config.autoReconnect = true then failures effects else 0 := by
    rw [restarts, restarts, pending, pending, ← List.append_assoc, List.countP_append,
      countP_pushed, h.flag]
    simp only [true_and]
  refine ⟨hconfig, hcurrent, ?_, ?_⟩
  · rw [underWay, underWay, hbefore, hafter, hrestarts]
    split <;> omega
  · intro hd hauto honly
    rw [hbefore] at honly
    rcases heq honly (hdown hd).1 (hdown hd).2 with ⟨honly', heq⟩
    rw [hafter, underWay, underWay, hbefore, hafter, hrestarts, if_pos hauto]
    exact ⟨honly', by omega⟩

theorem adds_runAll {ss : List SessionId} (h : t.OwnsSession) (hs : t.current = some s)
    (hrun : runAll K t ss a = some t') (ha : a.opens = false) (hhandler : ∀ h, a ≠ .handler h) :
    Adds s 0 down t t' := by
  have hne : a ≠ .postAccept := by
    rintro rfl
    cases ha
  induction ss generalizing t with
  | nil =>
      cases hrun
      exact .of_eq rfl rfl rfl rfl
  | cons r ss ih =>
      rw [runAll, List.foldlM_cons, Option.bind_eq_bind, Option.bind_eq_some_iff] at hrun
      rcases hrun with ⟨mid, hmid, hrest⟩
      have hfirst : Adds s (if a.opens then 1 else 0) down t mid :=
        adds_runConn h hs hmid fun _ => ⟨hne, hhandler _⟩
      rw [ha] at hfirst
      exact hfirst.trans (ih (h.runConn hmid) (hfirst.current.trans hs) hrest)

/-- A start begins a connect. -/
theorem adds_start {ok : Bool} (h : t.OwnsSession) (hs : t.current = some s)
    (hstart : start K t ok = some t') : Adds s 1 down t t' := by
  have hfirst : Adds s 0 down t { t with stopped := false } := .of_eq rfl rfl rfl rfl
  unfold start doStart at hstart
  simp only [h.flag, hs, Option.bind_eq_bind, Option.bind_eq_some_iff,
    Option.some.injEq] at hstart
  rcases hstart with ⟨mid, hmid, rfl⟩
  rw [← hs] at hmid
  have howns : ({ t with stopped := false } : TcpObj β).OwnsSession :=
    ⟨h.flag, h.accepts, h.session⟩
  have hconnect : Adds s 1 down { t with stopped := false } mid :=
    adds_runConn (a := .connect) howns hs hmid fun _ => ⟨nofun, nofun⟩
  have hlast : Adds s 0 down mid { mid with attempts := mid.attempts + 1 } :=
    .of_eq rfl rfl rfl rfl
  exact (hfirst.trans hconnect).trans hlast

theorem adds_stop (h : t.OwnsSession) (hs : t.current = some s) (hstop : stop K t = some t') :
    Adds s 0 down t t' := by
  have hfirst : Adds s 0 down t { t with stopped := true } := .of_eq rfl rfl rfl rfl
  have howns : ({ t with stopped := true } : TcpObj β).OwnsSession := ⟨h.flag, h.accepts, h.session⟩
  simp only [stop, Option.bind_eq_bind, Option.bind_eq_some_iff] at hstop
  rcases hstop with ⟨mid, hmid, hstop⟩
  simp only [doStop, (howns.runAll hmid).flag, Option.some.injEq] at hstop
  rw [← hstop]
  exact hfirst.trans (adds_runAll howns hs hmid rfl (by simp))

/-- An event that starts takes one from the queue, and the others leave it. -/
theorem adds_event (h : t.OwnsSession) (hs : t.current = some s) (hevent : event K t = some t') :
    Adds s 0 down t t' := by
  unfold event at hevent
  split at hevent
  · rename_i e rest hrecv
    have hrestarts : t.restarts = (if e.isStart then 1 else 0) +
        (rest ++ t.call).countP TcpEvent.isStart := by
      simp only [restarts, pending, hrecv, Option.getD_some, List.cons_append, List.countP_cons]
      exact Nat.add_comm _ _
    cases e with
    | start =>
        have hran :
            ({ t with ran := t.ran ++ [.start], recv := some rest } : TcpObj β).OwnsSession :=
          ⟨h.flag, h.accepts, h.session⟩
        have hstart : Adds s 1 down { t with ran := t.ran ++ [.start], recv := some rest } t' :=
          adds_start hran hs hevent
        have hless : underWay { t with ran := t.ran ++ [.start], recv := some rest } s + 1 =
            t.underWay s := by
          rw [underWay, underWay, hrestarts]
          change (t.conn s).receiving + (rest ++ t.call).countP TcpEvent.isStart + 1 =
            (t.conn s).receiving + (1 + (rest ++ t.call).countP TcpEvent.isStart)
          omega
        refine ⟨hstart.config, hstart.current, ?_, ?_⟩
        · have hle := hstart.le
          omega
        · intro hdown hauto honly
          rcases hstart.eq hdown hauto honly with ⟨honly', heq⟩
          exact ⟨honly', by omega⟩
    | eventRecv r p =>
        cases hevent
        exact .of_eq rfl rfl rfl (hrestarts.trans (Nat.zero_add _)).symm
    | eventConnect r =>
        cases hevent
        exact .of_eq rfl rfl rfl (hrestarts.trans (Nat.zero_add _)).symm
    | eventCloseFun r =>
        cases hevent
        exact .of_eq rfl rfl rfl (hrestarts.trans (Nat.zero_add _)).symm
    | delSession r =>
        cases hevent
        exact .of_eq rfl rfl rfl (hrestarts.trans (Nat.zero_add _)).symm
  · cases hevent

theorem adds_step (h : t.OwnsSession) (hs : t.current = some s) (hstep : step K t act = some t')
    (hdown : down → act ≠ .handler s (.handleConnect false)) :
    Adds s (if act.isStart then 1 else 0) down t t' := by
  cases step_cases hstep with
  | start hstart => exact adds_start h hs hstart
  | stop hstop => exact adds_stop h hs hstop
  | unknown _ hact =>
      rcases hact with rfl | ⟨p, rfl⟩
      · exact .of_eq rfl rfl rfl rfl
      · exact .of_eq rfl rfl rfl rfl
  | kick _ hrun => exact adds_runConn h hs hrun fun _ => ⟨nofun, nofun⟩
  | send _ hrun => exact adds_runConn h hs hrun fun _ => ⟨nofun, nofun⟩
  | sendAll hrun => exact adds_runAll h hs hrun rfl nofun
  | poll hrecv =>
      refine .of_eq rfl rfl rfl ?_
      rw [restarts, pending_poll hrecv]
      rfl
  | event hevent => exact adds_event h hs hevent
  | pollReturn hrecv =>
      refine .of_eq rfl rfl rfl ?_
      rw [restarts, pending_pollReturn hrecv]
      rfl
  | acceptSocket hpos haccept =>
      -- a client accepts nothing
      rw [h.accepts] at hpos
      exact absurd hpos (Nat.lt_irrefl 0)
  | handler hrun =>
      have hr := eq_of_runConn h hs hrun
      subst hr
      refine adds_runConn h hs hrun fun hd => ⟨nofun, ?_⟩
      intro heq
      rw [ConnAction.handler.injEq] at heq
      exact hdown hd (congrArg _ heq)
  | nextSession => exact .of_eq rfl rfl rfl rfl

/-- On the connection of a client there is never more outstanding, counting the starts that are
queued, than the user has asked for; and with auto-reconnect each of these is under way as long as
no connect has succeeded: being tried, or queued to be tried again. -/
theorem client_attempts (hflag : config.serviceType = .client) {as : List TcpAction}
    (h : run (step K) (create config pool) as = some t) :
    (t.conn (pool.curSessionId + 1)).connecting +
        (t.conn (pool.curSessionId + 1)).reading.length + t.pending.countP TcpEvent.isStart ≤
      as.countP TcpAction.isStart ∧
    (config.autoReconnect = true →
      (∀ a ∈ as, a ≠ .handler (pool.curSessionId + 1) (.handleConnect false)) →
        (t.conn (pool.curSessionId + 1)).connecting + t.pending.countP TcpEvent.isStart =
          as.countP TcpAction.isStart) := by
  generalize hs : pool.curSessionId + 1 = s
  have hcurrent : (create config pool : TcpObj β).current = some s := by
    simp [create, hflag, createConnection, IoObjectPool.nextSession, hs]
  have hconn : (create config pool : TcpObj β).conn s = ConnState.create s bufferSize :=
    conn_create s
  have hzero : (create config pool : TcpObj β).underWay s = 0 := by
    rw [underWay, hconn]
    simp [create, hflag, createConnection, ConnState.receiving, ConnState.create, restarts, pending]
  have howns : (create config pool : TcpObj β).OwnsSession := ownsSession_create hflag
  constructor
  · have hle : t.underWay s ≤ (create config pool : TcpObj β).underWay s +
        as.countP TcpAction.isStart := by
      refine count_le_of_run (I := fun t => t.OwnsSession ∧ t.current = some s)
        (f := fun t => t.underWay s) ?_ ⟨howns, hcurrent⟩ h
      rintro u a v ⟨hu, hcur⟩ hstep
      have hadds : Adds s _ False u v := adds_step hu hcur hstep False.elim
      exact ⟨⟨hu.step hstep, hadds.current.trans hcur⟩, hadds.le⟩
    rw [hzero] at hle
    simp only [underWay, ConnState.receiving, restarts] at hle
    omega
  · intro hauto hfailed
    have hgood : (t.conn s).OnlyConnects ∧ t.underWay s =
        (create config pool : TcpObj β).underWay s + as.countP TcpAction.isStart := by
      have hstep : ∀ u a v, (u.OwnsSession ∧ u.current = some s ∧ u.config = config ∧
          (u.conn s).OnlyConnects) → a ≠ .handler s (.handleConnect false) → step K u a = some v →
          (v.OwnsSession ∧ v.current = some s ∧ v.config = config ∧ (v.conn s).OnlyConnects) ∧
            v.underWay s = u.underWay s + if a.isStart then 1 else 0 := by
        rintro u a v ⟨hu, hcur, hconfig, honly⟩ ha hstep
        have hadds : Adds s _ True u v := adds_step hu hcur hstep fun _ => ha
        rcases hadds.eq trivial (hconfig.symm ▸ hauto) honly with ⟨honly', heq⟩
        exact ⟨⟨hu.step hstep, hadds.current.trans hcur, hadds.config.trans hconfig, honly'⟩, heq⟩
      have honly : ((create config pool : TcpObj β).conn s).OnlyConnects := by
        rw [hconn]
        exact ⟨rfl, rfl, rfl⟩
      have halong : Along (step K) (fun _ a => a ≠ .handler s (.handleConnect false))
          (create config pool) as := along_of_forall hfailed
      exact ⟨(run_invariant_of_along (fun u a v hu ha hs => (hstep u a v hu ha hs).1)
          ⟨howns, hcurrent, config_create, honly⟩ halong h).2.2.2,
        count_eq_of_run hstep ⟨howns, hcurrent, config_create, honly⟩ halong h⟩
    rcases hgood with ⟨honly, heq⟩
    rw [hzero] at heq
    simp only [underWay, ConnState.receiving, restarts, honly.accepting, honly.reading,
      List.length_nil] at heq
    omega

/-- A client is started, fails to connect, is started by its queued event, fails again and is
stopped. -/
def refused : List TcpAction :=
  [.start true, .handler 1 (.handleConnect true), .poll, .event,
    .handler 1 (.handleConnect true), .stop]

theorem client_attempts_refused :
    ∃ t, run (step NetBlock.blockClass) (create ⟨.client, true⟩ ⟨0, []⟩) refused = some t ∧
      (t.conn 1).connecting + (t.conn 1).reading.length + t.pending.countP TcpEvent.isStart ≤ 1 ∧
      (t.conn 1).connecting + t.pending.countP TcpEvent.isStart = 1 := by
  have hrun : (run (step NetBlock.blockClass) (create ⟨.client, true⟩ ⟨0, []⟩) refused).isSome =
      true := by decide +kernel
  rcases Option.isSome_iff_exists.mp hrun with ⟨t, ht⟩
  rcases client_attempts rfl ht with ⟨hle, heq⟩
  exact ⟨t, ht, hle, heq rfl (by simp [refused])⟩

end TcpObj

end FannyNet

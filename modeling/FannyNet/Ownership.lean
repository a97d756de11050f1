import FannyNet.Callbacks

/-!
# What keeps a connection alive

A `Connection` lives as long as there is a shared reference to it: in `m_onlines`, in
`m_current` or `m_session`, in an event, or in a handler bound with `shared_from_this`.
Reads, writes and connects are bound to a raw `this`.  `handleClose` closes the socket,
which completes them with an error, but they complete later, and by then the poll that
runs the close event may have given up the last reference.

Main results:

- Theorem `TcpObj.outstanding_referenced`: the runs in which nothing outlives its
  connection.
- Theorem `TcpObj.read_outlives_connection`: an aborted read that does.
-/

namespace FannyNet

open Library.Transition Library.Sessions

variable {β : Type}

/-! ## References -/

/-- The connection that an event has captured.  While `delSession` is left to do, its
`eventCloseFun` has been run but still lives. -/
def TcpEvent.connection : TcpEvent β → Option SessionId
  | .eventConnect s => some s
  | .eventCloseFun s => some s
  | _ => none

/-- The connection that an event closes. -/
def TcpEvent.closes : TcpEvent β → Option SessionId
  | .eventCloseFun s => some s
  | _ => none

/-- What an event does to the place of its connection in `m_onlines`. -/
def TcpEvent.role : TcpEvent β → Role
  | .eventConnect _ => .opening
  | .eventCloseFun _ => .closing
  | .delSession _ => .closing
  | .eventRecv _ _ => .inner
  | .start => .other

theorem mem_closes {l : List (TcpEvent β)} {s : SessionId} :
    s ∈ l.filterMap TcpEvent.closes ↔ .eventCloseFun s ∈ l := by
  rw [List.mem_filterMap]
  constructor
  · rintro ⟨e, he, hs⟩
    cases e with
    | eventCloseFun r =>
        cases hs
        exact he
    | _ => cases hs
  · intro h
    exact ⟨_, h, rfl⟩

theorem mem_connection {l : List (TcpEvent β)} {s : SessionId} :
    s ∈ l.filterMap TcpEvent.connection ↔ .eventConnect s ∈ l ∨ .eventCloseFun s ∈ l := by
  rw [List.mem_filterMap]
  constructor
  · rintro ⟨e, he, hs⟩
    cases e with
    | eventConnect r =>
        cases hs
        exact Or.inl he
    | eventCloseFun r =>
        cases hs
        exact Or.inr he
    | _ => cases hs
  · rintro (h | h)
    · exact ⟨_, h, rfl⟩
    · exact ⟨_, h, rfl⟩

/-- If anything that was started on a connection is outstanding, then the connection is
up, or one of `events` closes it, or more than `n` handlers that wait hold it. -/
def ConnState.Held (c : ConnState β) (s : SessionId) (events : List (TcpEvent β)) (n : Nat) :
    Prop :=
  c.Outstanding → c.conn.connected = true ∨ s ∈ events.filterMap TcpEvent.closes ∨ n < c.shared

instance (c : ConnState β) (s : SessionId) (events : List (TcpEvent β)) (n : Nat) :
    Decidable (c.Held s events n) :=
  inferInstanceAs (Decidable (_ → _))

namespace TcpObj

/-- There is a shared reference to the connection of session `s`. -/
def Referenced (t : TcpObj β) (s : SessionId) : Prop :=
  s ∈ t.onlines ∨ t.current = some s ∨
    s ∈ (t.pending ++ t.ran).filterMap TcpEvent.connection ∨ ∃ c ∈ t.conns s, 0 < c.shared

instance (t : TcpObj β) (s : SessionId) : Decidable (t.Referenced s) :=
  inferInstanceAs (Decidable (_ ∨ _))

/-- A step that may give up the last reference to a connection which is down finds all
completed that was started on it: the return of a poll that has run its close event, and
a `writeMessage` that was posted and runs after that. -/
def settles (t : TcpObj β) : TcpAction → Bool
  | .pollReturn =>
      decide (∀ s ∈ t.ran.filterMap TcpEvent.closes, ∀ c ∈ t.conns s, c.Held s t.call 0)
  | .handler s (.writeMessage _) => decide (∀ c ∈ t.conns s, c.Held s (t.pending ++ t.ran) 1)
  | _ => true

end TcpObj

/-! ## Sessions -/

namespace Session

variable {flag : ServiceFlag} {s : SessionId} {a : TcpAction} {x y : Session β}

/-- Once the events that wait have been run, a connection is in `m_onlines` if and only if
it is up. -/
def Tracked (x : Session β) : Prop :=
  x.queue.foldl (after TcpEvent.role) x.online = x.connected

theorem tracked_start {conn : Option (ConnState β)}
    (hconn : conn = none ∨ conn = some (ConnState.create s bufferSize)) :
    Tracked ⟨conn, [], [], [], false⟩ := by
  rcases hconn with rfl | rfl
  · rfl
  · rfl

theorem Tracked.move (h : Tracked x) (hmove : Move flag s a x y) : Tracked y := by
  unfold Tracked at h ⊢
  cases hmove with
  | same => exact h
  | created hnone => simpa [connected, hnone, ConnState.create, Connection.create] using h
  | asked hconn hasked => simpa [connected, hconn, hasked.connected] using h
  | handled ha hconn hout =>
      rw [List.foldl_append, h]
      cases hout with
      | quiet hconn' => simp [connected, hconn, hconn']
      | read ps hup hup' =>
          rw [TcpEvent.ofEffect_messages, foldl_after_inner (by simp [TcpEvent.role])]
          simp [connected, hconn, hup, hup']
      | cameUp _ hup => simp [connected, hup, TcpEvent.ofEffect, after, TcpEvent.role]
      | closed _ hdown => simp [connected, hdown, TcpEvent.ofEffect, after, TcpEvent.role]
      | failed _ hconn' => simp [connected, hconn, hconn', TcpEvent.ofEffect]
  | recv hqueue => simpa [hqueue, after, TcpEvent.role, connected] using h
  | connect hqueue => simpa [hqueue, after, TcpEvent.role, connected] using h
  | close hqueue => simpa [hqueue, after, TcpEvent.role, connected] using h
  | del hqueue => simpa [hqueue, after, TcpEvent.role, connected] using h
  | returned ha => exact h

/-- Whatever is outstanding on a connection is held: by `m_onlines` while it is up, then
by its close event, or by a handler that waits. -/
def Held (s : SessionId) (x : Session β) : Prop :=
  ∀ c ∈ x.conn, c.Held s (x.queue ++ x.ran) 0

theorem held_start {conn : Option (ConnState β)}
    (hconn : conn = none ∨ conn = some (ConnState.create s bufferSize)) :
    Held s ⟨conn, [], [], [], false⟩ := by
  intro c hc hout
  rcases hconn with rfl | rfl
  · cases hc
  · cases hc
    simp [ConnState.Outstanding, ConnState.create] at hout

/-- An event that has been run still lives. -/
theorem Held.event (h : Held s x) (hconn : y.conn = x.conn)
    (hevents : .eventCloseFun s ∈ x.queue ++ x.ran → .eventCloseFun s ∈ y.queue ++ y.ran) :
    Held s y := by
  intro c hc hout
  rw [hconn] at hc
  have hheld := h c hc hout
  rw [mem_closes] at hheld ⊢
  exact hheld.imp_right (Or.imp_left hevents)

/-- A handler that starts nothing on a connection that is down, and is not the last to
hold it. -/
theorem Held.handled {c c' : ConnState β} {h : Handler} {q : List (TcpEvent β)} (hx : Held s x)
    (hconn : x.conn = some c) (hcont : c.Continues c') (hkeeps : c.Keeps h c')
    (hup : c.conn.connected = true → c'.conn.connected = true)
    (hwrite : ∀ i, h = .writeMessage i → c.Held s (x.queue ++ x.ran) 1) :
    c'.Held s (x.queue ++ q ++ x.ran) 0 := by
  have hmem (hclose : s ∈ (x.queue ++ x.ran).filterMap TcpEvent.closes) :
      s ∈ (x.queue ++ q ++ x.ran).filterMap TcpEvent.closes := by
    simp only [List.filterMap_append, List.mem_append] at hclose ⊢
    exact hclose.imp_left Or.inl
  intro hout
  rcases hcont.outstanding hout with hold | hup'
  · rcases hkeeps with hle | ⟨⟨i, hi⟩, hle⟩
    · have hheld := hx c hconn hold
      exact hheld.imp hup (Or.imp hmem fun hpos => Nat.lt_of_lt_of_le hpos hle)
    · have hheld := hwrite i hi hold
      exact hheld.imp hup (Or.imp hmem fun hpos => by omega)
  · exact Or.inl hup'

theorem Held.move (h : Held s x) (hmove : Move .server s a x y)
    (hwrite : ∀ i, a = .handler s (.writeMessage i) →
      ∀ c ∈ x.conn, c.Held s (x.queue ++ x.ran) 1)
    (hreturned : a = .pollReturn → s ∈ x.ran.filterMap TcpEvent.closes →
      ∀ c ∈ x.conn, c.Held s x.queue 0) : Held s y := by
  cases hmove with
  | same => exact h
  | created hnone =>
      intro c hc hout
      cases hc
      simp [ConnState.Outstanding, ConnState.create] at hout
  | @asked c c' hconn hasked hconnecting =>
      intro d hd hout
      cases hd
      have hold : c.Outstanding := by
        rw [ConnState.Outstanding, ← hasked.reading, ← hasked.writing, ← hconnecting rfl]
        exact hout
      have hheld := h c hconn hold
      rw [← hasked.connected] at hheld
      exact hheld.imp_right (Or.imp_right fun hpos => Nat.lt_of_lt_of_le hpos hasked.shared)
  | @handled c c' h' es ha hconn hout =>
      intro d hd
      cases hd
      have hposted : ∀ i, h' = .writeMessage i → c.Held s (x.queue ++ x.ran) 1 := by
        intro i hi
        exact hwrite i (hi ▸ ha) c hconn
      cases hout with
      | quiet hconn' _ hcont hkeeps =>
          exact h.handled hconn hcont hkeeps (fun hup => hconn'.trans hup) hposted
      | read ps _ hup' _ hcont hkeeps =>
          exact h.handled hconn hcont hkeeps (fun _ => hup') hposted
      | cameUp _ hup => exact fun _ => Or.inl hup
      | closed =>
          intro _
          simp [TcpEvent.ofEffect, TcpEvent.closes]
      | failed _ hconn' _ hcont hkeeps =>
          exact h.handled hconn hcont hkeeps (fun hup => hconn'.trans hup) hposted
  | recv hqueue =>
      refine h.event rfl ?_
      simp [hqueue]
  | connect hqueue =>
      refine h.event rfl ?_
      simp [hqueue]
  | close hqueue =>
      refine h.event rfl ?_
      simp [hqueue]
  | del hqueue =>
      refine h.event rfl ?_
      simp [hqueue]
  | returned ha =>
      intro c hc hout
      rcases h c hc hout with hup | hclose | hpos
      · exact Or.inl hup
      · rw [List.filterMap_append, List.mem_append] at hclose
        rcases hclose with hqueue | hran
        · refine Or.inr (Or.inl ?_)
          simpa using hqueue
        · have hheld := hreturned ha hran c hc hout
          simpa using hheld
      · exact Or.inr (Or.inr hpos)

end Session

/-! ## Clients -/

namespace TcpObj

variable {K : BlockClass β} {config : Config} {pool : IoObjectPool} {as : List TcpAction}
  {t t' : TcpObj β} {s : SessionId} {a : ConnAction} {act : TcpAction}

/-- A client, whose only connection is `m_session`. -/
structure OwnsSession (t : TcpObj β) : Prop where
  flag : t.config.serviceType = .client
  accepts : t.accepts = 0
  session : ∀ r, t.conns r ≠ none → t.current = some r

theorem ownsSession_create (hflag : config.serviceType = .client) :
    (create config pool : TcpObj β).OwnsSession := by
  refine ⟨config_create.symm ▸ hflag, ?_, ?_⟩
  · simp [create, hflag, createConnection]
  · intro r hr
    simp only [create, hflag, createConnection, IoObjectPool.nextSession] at hr ⊢
    by_cases hsession : r = pool.curSessionId + 1
    · rw [hsession]
    · exact absurd (Function.update_of_ne hsession _ _) hr

theorem OwnsSession.frame (h : t.OwnsSession) (hconfig : t'.config = t.config)
    (hcurrent : t'.current = t.current) (haccepts : t'.accepts = t.accepts)
    (hconns : ∀ r, t'.conns r = none ↔ t.conns r = none) : t'.OwnsSession := by
  refine ⟨?_, haccepts.trans h.accepts, ?_⟩
  · rw [hconfig]
    exact h.flag
  · intro r hr
    rw [hcurrent]
    exact h.session r fun hnone => hr ((hconns r).mpr hnone)

theorem OwnsSession.runConn (h : t.OwnsSession) (hrun : TcpObj.runConn K t s a = some t') :
    t'.OwnsSession := by
  rcases frame_runConn hrun with ⟨hconfig, -, -, -, -, -, hcurrent, -, haccepts, -⟩
  exact h.frame hconfig hcurrent haccepts (conns_runConn hrun)

theorem OwnsSession.runAll {ss : List SessionId} (h : t.OwnsSession)
    (hrun : TcpObj.runAll K t ss a = some t') : t'.OwnsSession := by
  rcases frame_runAll hrun with ⟨hconfig, hcurrent, haccepts, hconns⟩
  exact h.frame hconfig hcurrent haccepts hconns

theorem OwnsSession.start {ok : Bool} (h : t.OwnsSession)
    (hstart : TcpObj.start K t ok = some t') : t'.OwnsSession := by
  have hstopped : ({ t with stopped := false } : TcpObj β).OwnsSession :=
    ⟨h.flag, h.accepts, h.session⟩
  simp only [TcpObj.start, doStart, h.flag] at hstart
  split at hstart
  · cases hstart
    exact hstopped
  · simp only [Option.bind_eq_bind, Option.bind_eq_some_iff, Option.some.injEq] at hstart
    rcases hstart with ⟨mid, hmid, rfl⟩
    have hconnect := hstopped.runConn hmid
    exact ⟨hconnect.flag, hconnect.accepts, hconnect.session⟩

theorem OwnsSession.stop (h : t.OwnsSession) (hstop : TcpObj.stop K t = some t') :
    t'.OwnsSession := by
  have hstopped : ({ t with stopped := true } : TcpObj β).OwnsSession :=
    ⟨h.flag, h.accepts, h.session⟩
  simp only [TcpObj.stop, Option.bind_eq_bind, Option.bind_eq_some_iff] at hstop
  rcases hstop with ⟨mid, hmid, hstop⟩
  have hclosed := hstopped.runAll hmid
  simp only [doStop, hclosed.flag, Option.some.injEq] at hstop
  exact hstop ▸ hclosed

theorem OwnsSession.event (h : t.OwnsSession) (hevent : TcpObj.event K t = some t') :
    t'.OwnsSession := by
  unfold TcpObj.event at hevent
  split at hevent
  · rename_i e rest hrecv
    cases e with
    | start =>
        have hran : ({ t with ran := t.ran ++ [.start], recv := some rest } :
            TcpObj β).OwnsSession := ⟨h.flag, h.accepts, h.session⟩
        exact hran.start hevent
    | _ =>
        cases hevent
        exact ⟨h.flag, h.accepts, h.session⟩
  · cases hevent

theorem OwnsSession.step (h : t.OwnsSession) (hstep : TcpObj.step K t act = some t') :
    t'.OwnsSession := by
  cases step_cases hstep with
  | start hstart => exact h.start hstart
  | stop hstop => exact h.stop hstop
  | unknown => exact h
  | kick hs hrun => exact h.runConn hrun
  | send hs hrun => exact h.runConn hrun
  | sendAll hrun => exact h.runAll hrun
  | poll hrecv => exact ⟨h.flag, h.accepts, h.session⟩
  | event hevent => exact h.event hevent
  | pollReturn hrecv => exact ⟨h.flag, h.accepts, h.session⟩
  | acceptSocket hpos haccept =>
      -- a client accepts nothing
      have haccepts := h.accepts
      omega
  | handler hrun => exact h.runConn hrun
  | nextSession => exact ⟨h.flag, h.accepts, h.session⟩

/-! ## References -/

/-- What the session of a connection says of the references to it. -/
theorem referenced_of_session {c : ConnState β} (htracked : (t.session s).Tracked)
    (hheld : (t.session s).Held s) (hc : t.conns s = some c) (hout : c.Outstanding) :
    t.Referenced s := by
  have hmem {e : TcpEvent β} (he : e ∈ (t.session s).queue) : e ∈ t.pending :=
    (List.mem_filter.mp he).1
  rcases hheld c hc hout with hup | hclose | hpos
  · -- it is in `m_onlines`, or will be by an event that waits
    have hconnected : (t.session s).connected = true := by
      simpa [Session.connected, session, hc] using hup
    rw [← htracked] at hconnected
    rcases foldl_after_eq_true hconnected with honline | ⟨e, he, hopening⟩
    · exact Or.inl (of_decide_eq_true honline)
    · have hsession : e.session = some s := of_decide_eq_true (List.mem_filter.mp he).2
      cases e with
      | eventConnect r =>
          cases hsession
          refine Or.inr (Or.inr (Or.inl (mem_connection.mpr (Or.inl ?_))))
          exact List.mem_append_left _ (hmem he)
      | _ => cases hopening
  · rw [mem_closes, List.mem_append] at hclose
    refine Or.inr (Or.inr (Or.inl (mem_connection.mpr (Or.inr ?_))))
    refine List.mem_append.mpr (hclose.imp hmem ?_)
    exact fun hran => (List.mem_filter.mp hran).1
  · exact Or.inr (Or.inr (Or.inr ⟨c, hc, hpos⟩))

/-- A condition on the steps of an object is one on those of its sessions. -/
theorem held_of_settles {r : SessionId} {x : Session β} (hsettles : t.settles act = true)
    (hheld : (t.session r).Held r) (hmove : Session.Move .server r act (t.session r) x) :
    x.Held r := by
  refine hheld.move hmove ?_ ?_
  · rintro i rfl c hc hout
    have hpost := of_decide_eq_true hsettles c hc hout
    rw [mem_closes] at hpost ⊢
    simpa [session, TcpEvent.session] using hpost
  · rintro rfl hran c hc hout
    rw [mem_closes] at hran
    have hran' : .eventCloseFun r ∈ t.ran := (List.mem_filter.mp hran).1
    have hreturn := of_decide_eq_true hsettles r (mem_closes.mpr hran') c hc hout
    rw [mem_closes] at hreturn ⊢
    refine hreturn.imp_right (Or.imp_left ?_)
    intro hcall
    simp [session, pending, TcpEvent.session, hcall]

/-- When every step that gives up the last reference to a connection finds completed what
was started on it, there is a shared reference to every connection with a read, write or
connect outstanding. -/
theorem outstanding_referenced
    (hsettles : config.serviceType = .server →
      Along (step K) (fun t a => t.settles a = true) (create config pool) as)
    (h : run (step K) (create config pool) as = some t) :
    ∀ s c, t.conns s = some c → c.Outstanding → t.Referenced s := by
  intro s c hc hout
  cases hflag : config.serviceType with
  | server =>
      have hgood : (t.session s).Tracked ∧ (t.session s).Held s := by
        refine run_session (J := fun r x => Session.Tracked x ∧ Session.Held r x) ?_ ?_
          (hsettles hflag) h s
        · exact fun r conn hconn => ⟨Session.tracked_start hconn, Session.held_start hconn⟩
        · rintro t a r y hP ⟨htracked, hheld⟩ hmove
          rw [hflag] at hmove
          exact ⟨htracked.move hmove, held_of_settles hP hheld hmove⟩
      exact referenced_of_session hgood.1 hgood.2 hc hout
  | client =>
      have howns : t.OwnsSession :=
        run_invariant (fun _ _ _ ht hstep => ht.step hstep) (ownsSession_create hflag) h
      refine Or.inr (Or.inl (howns.session s ?_))
      simp [hc]

/-- A server accepts two connections.  The first has gone; the second is being closed, with
an aborted read outstanding. -/
def closing : List TcpAction :=
  [.start true, .acceptSocket false, .handler 1 .handlAccept, .acceptSocket false,
    .handler 2 .handlAccept, .poll, .event, .event, .pollReturn, .kick 1,
    .handler 1 (.handleClose 0), .handler 1 (.handleReadSome 0 true []), .poll, .event, .event,
    .pollReturn, .kick 2, .handler 2 (.handleClose 0), .poll, .event, .event]

theorem outstanding_referenced_closing :
    ∃ t, run (step NetBlock.blockClass) (create ⟨.server, false⟩ ⟨0, []⟩) closing = some t ∧
      (∃ c, t.conns 2 = some c ∧ c.Outstanding) ∧
      ∀ s c, t.conns s = some c → c.Outstanding → t.Referenced s := by
  have hrun : (run (step NetBlock.blockClass) (create ⟨.server, false⟩ ⟨0, []⟩) closing).any
      (fun t => (t.conns 2).any fun c => decide c.Outstanding) = true := by decide +kernel
  rcases (Option.any_eq_true _ _).mp hrun with ⟨t, ht, hout⟩
  rcases (Option.any_eq_true _ _).mp hout with ⟨c, hc, hout⟩
  refine ⟨t, ht, ⟨c, hc, of_decide_eq_true hout⟩, ?_⟩
  exact outstanding_referenced (fun _ => by decide +kernel) ht

/-- The poll that runs a close event returns before the aborted read completes: nothing
refers to the connection any more. -/
theorem read_outlives_connection :
    ∃ t c, run (step NetBlock.blockClass) (create ⟨.server, false⟩ ⟨0, []⟩)
        [.start true, .acceptSocket false, .handler 1 .handlAccept, .poll, .event, .pollReturn,
          .kick 1, .handler 1 (.handleClose 0), .poll, .event, .event, .pollReturn] = some t ∧
      t.conns 1 = some c ∧ c.Outstanding ∧ ¬ t.Referenced 1 := by
  have hrun : (run (step NetBlock.blockClass) (create ⟨.server, false⟩ ⟨0, []⟩)
      [.start true, .acceptSocket false, .handler 1 .handlAccept, .poll, .event, .pollReturn,
        .kick 1, .handler 1 (.handleClose 0), .poll, .event, .event, .pollReturn]).any
      (fun t => (t.conns 1).any fun c => decide (c.Outstanding ∧ ¬ t.Referenced 1)) = true := by
    decide +kernel
  rcases (Option.any_eq_true _ _).mp hrun with ⟨t, ht, hany⟩
  rcases (Option.any_eq_true _ _).mp hany with ⟨c, hc, hlost⟩
  rw [decide_eq_true_eq] at hlost
  exact ⟨t, c, ht, hc, hlost⟩

end TcpObj

end FannyNet

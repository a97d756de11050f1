import FannyNet.Outstanding
import FannyNet.Peers

/-!
# Polls

A poll takes the list of events that wait and runs one after the other.  Handlers push new events
meanwhile, which wait for the next poll.

Main results:

- Theorem `TcpObj.step_polled`: an event takes the first of the list, and nothing else touches it.
- Theorem `TcpObj.poll_ends`: the number of events of a poll, which is always able to return.
- Theorem `TcpObj.poll_delivers`: what was complete when the poll began has been passed on when it
  returns.
- Theorem `TcpObj.online_at_rest`: when no event waits, those are online whose connection is up.
-/

namespace FannyNet

open Library.Transition Library.Sessions

variable {β : Type}

/-- What is left of an event behind its callback. -/
def TcpEvent.left : TcpEvent β → List (TcpEvent β)
  | .eventCloseFun s => [.delSession s]
  | _ => []

/-- The steps that an event takes. -/
def TcpEvent.weight : TcpEvent β → Nat
  | .eventCloseFun _ => 2
  | _ => 1

/-- The message of session `s` that an event passes on. -/
def TcpEvent.message (s : SessionId) (e : TcpEvent β) : Option β :=
  e.callback.bind (Callback.message s)

def TcpAction.isEvent : TcpAction → Bool
  | .event => true
  | _ => false

namespace TcpObj

variable {K : BlockClass β} {config : Config} {pool : IoObjectPool} {t t' u : TcpObj β}
  {s : SessionId} {act : TcpAction} {as : List TcpAction}

/-! ## The list of the poll -/

/-- The callbacks that were made, and the list of the running poll. -/
def SamePoll (t t' : TcpObj β) : Prop :=
  t'.callbacks = t.callbacks ∧ t'.recv = t.recv

theorem SamePoll.trans (h : t.SamePoll t') (h' : t'.SamePoll u) : t.SamePoll u :=
  ⟨h'.1.trans h.1, h'.2.trans h.2⟩

theorem samePoll_runConn {a : ConnAction} (h : runConn K t s a = some t') : t.SamePoll t' := by
  rcases frame_runConn h with ⟨-, -, -, hrecv, -, -, -, -, -, hcalls⟩
  exact ⟨hcalls, hrecv⟩

theorem samePoll_runAll {ss : List SessionId} {a : ConnAction} (h : runAll K t ss a = some t') :
    t.SamePoll t' := by
  induction ss generalizing t with
  | nil =>
      cases h
      exact ⟨rfl, rfl⟩
  | cons r ss ih =>
      rw [runAll, List.foldlM_cons, Option.bind_eq_bind, Option.bind_eq_some_iff] at h
      rcases h with ⟨mid, hmid, hrest⟩
      exact (samePoll_runConn hmid).trans (ih hrest)

theorem samePoll_beginAccept (t : TcpObj β) : t.SamePoll t.beginAccept := by
  unfold beginAccept
  split
  · exact ⟨rfl, rfl⟩
  · exact ⟨rfl, rfl⟩

theorem samePoll_start {ok : Bool} (h : start K t ok = some t') : t.SamePoll t' := by
  unfold start doStart at h
  split at h
  · split at h
    · cases h
      exact samePoll_beginAccept { t with stopped := false }
    · cases h
      exact ⟨rfl, rfl⟩
  · split at h
    · cases h
      exact ⟨rfl, rfl⟩
    · simp only [Option.bind_eq_bind, Option.bind_eq_some_iff, Option.some.injEq] at h
      rcases h with ⟨mid, hmid, rfl⟩
      have hconn := samePoll_runConn hmid
      exact ⟨hconn.1, hconn.2⟩

theorem samePoll_stop (h : stop K t = some t') : t.SamePoll t' := by
  simp only [stop, Option.bind_eq_bind, Option.bind_eq_some_iff] at h
  rcases h with ⟨mid, hmid, hstop⟩
  have hrun := samePoll_runAll hmid
  have hall : t.SamePoll mid := ⟨hrun.1, hrun.2⟩
  unfold doStop at hstop
  split at hstop
  · split at hstop
    · cases hstop
    · exact hall.trans (samePoll_runConn hstop)
  · cases hstop
    exact hall

theorem samePoll_acceptSocket {error : NetErrorType} (h : acceptSocket K t error = some t') :
    t.SamePoll t' := by
  unfold acceptSocket at h
  split at h
  · cases h
    exact ⟨rfl, rfl⟩
  · split at h
    · cases h
      exact ⟨rfl, rfl⟩
    · simp only [Option.bind_eq_bind, Option.bind_eq_some_iff, Option.some.injEq] at h
      rcases h with ⟨mid, hmid, rfl⟩
      exact (samePoll_runConn hmid).trans (samePoll_beginAccept mid)

/-- An event makes its callback, and something may be left of it. -/
theorem event_polled (h : event K t = some t') :
    ∃ e rest, t.recv = some (e :: rest) ∧ t'.recv = some (e.left ++ rest) ∧
      t'.callbacks = t.callbacks ++ e.callback.toList := by
  unfold event at h
  split at h
  · rename_i e rest hrecv
    refine ⟨e, rest, hrecv, ?_⟩
    cases e with
    | start =>
        have hsame : SamePoll { t with ran := t.ran ++ [.start], recv := some rest } t' :=
          samePoll_start h
        exact ⟨hsame.2, hsame.1.trans (List.append_nil _).symm⟩
    | delSession r =>
        cases h
        exact ⟨rfl, (List.append_nil _).symm⟩
    | _ =>
        cases h
        exact ⟨rfl, rfl⟩
  · cases h

/-- What a step does to the poll: an event takes the first of the list, a poll begins or returns,
or nothing happens to it. -/
theorem step_polled (h : step K t act = some t') :
    (act = .event ∧ ∃ e rest, t.recv = some (e :: rest) ∧ t'.recv = some (e.left ++ rest) ∧
        t'.callbacks = t.callbacks ++ e.callback.toList) ∨
      (act = .poll ∧ t.recv = none ∧ t'.recv = some t.call ∧ t'.callbacks = t.callbacks) ∨
      (act = .pollReturn ∧ t.recv = some [] ∧ t'.recv = none ∧ t'.callbacks = t.callbacks) ∨
      (act ≠ .event ∧ t.SamePoll t') := by
  cases step_cases h with
  | start hstart => exact Or.inr (Or.inr (Or.inr ⟨by simp, samePoll_start hstart⟩))
  | stop hstop => exact Or.inr (Or.inr (Or.inr ⟨by simp, samePoll_stop hstop⟩))
  | unknown _ hact =>
      refine Or.inr (Or.inr (Or.inr ⟨?_, rfl, rfl⟩))
      rcases hact with rfl | ⟨p, rfl⟩
      · simp
      · simp
  | kick _ hrun => exact Or.inr (Or.inr (Or.inr ⟨by simp, samePoll_runConn hrun⟩))
  | send _ hrun => exact Or.inr (Or.inr (Or.inr ⟨by simp, samePoll_runConn hrun⟩))
  | sendAll hrun => exact Or.inr (Or.inr (Or.inr ⟨by simp, samePoll_runAll hrun⟩))
  | poll hrecv => exact Or.inr (Or.inl ⟨rfl, hrecv, rfl, rfl⟩)
  | event hevent => exact Or.inl ⟨rfl, event_polled hevent⟩
  | pollReturn hrecv => exact Or.inr (Or.inr (Or.inl ⟨rfl, hrecv, rfl, rfl⟩))
  | acceptSocket _ haccept =>
      have hsame := samePoll_acceptSocket haccept
      exact Or.inr (Or.inr (Or.inr ⟨by simp, hsame.1, hsame.2⟩))
  | handler hrun => exact Or.inr (Or.inr (Or.inr ⟨by simp, samePoll_runConn hrun⟩))
  | nextSession => exact Or.inr (Or.inr (Or.inr ⟨by simp, rfl, rfl⟩))

/-! ## A poll ends -/

/-- The steps that the running poll has before it. -/
def remaining (t : TcpObj β) : Nat :=
  ((t.recv.getD []).map TcpEvent.weight).sum

theorem weight_left (e : TcpEvent β) : (e.left.map TcpEvent.weight).sum + 1 = e.weight := by
  cases e with
  | eventCloseFun r => rfl
  | _ => rfl

/-- While a poll runs, each of its steps leaves one less. -/
theorem remaining_step (h : step K t act = some t') (hrecv : t.recv ≠ none)
    (hact : act ≠ .pollReturn) :
    t'.recv ≠ none ∧ (if act.isEvent then 1 else 0) + t'.remaining = t.remaining := by
  rcases step_polled h with ⟨rfl, e, rest, hbefore, hafter, -⟩ | ⟨-, hnone, -⟩ | ⟨hreturn, -⟩ |
    ⟨hevent, -, hsame⟩
  · rw [remaining, remaining, hbefore, hafter]
    refine ⟨Option.some_ne_none _, ?_⟩
    have hweight := weight_left e
    simp only [TcpAction.isEvent, if_true, Option.getD_some, List.map_append, List.sum_append,
      List.map_cons, List.sum_cons]
    omega
  · exact absurd hnone hrecv
  · exact absurd hreturn hact
  · rw [remaining, remaining, hsame]
    refine ⟨hrecv, ?_⟩
    have hno : act.isEvent = false := by
      cases act with
      | event => exact absurd rfl hevent
      | _ => rfl
    rw [hno, if_neg Bool.false_ne_true, Nat.zero_add]

/-- A client keeps its connection, which a queued start connects again. -/
def HasSession (t : TcpObj β) : Prop :=
  t.config.serviceType = .client → ∀ s, t.current = some s → t.conns s ≠ none

theorem conns_ne_none_step (hk : t.Known) (h : step K t act = some t')
    (hconn : t.conns s ≠ none) : t'.conns s ≠ none := by
  have hmove := (step_session hk h).move s
  change (t'.session s).conn ≠ none
  change (t.session s).conn ≠ none at hconn
  generalize t.session s = x, t'.session s = y at hmove hconn
  cases hmove with
  | created => exact Option.some_ne_none _
  | asked => exact Option.some_ne_none _
  | handled => exact Option.some_ne_none _
  | _ => exact hconn

theorem hasSession_run (h : run (step K) (create config pool) as = some t) : t.HasSession := by
  cases hflag : config.serviceType with
  | server =>
      have hend : t.Known ∧ t.config = config := by
        refine run_invariant (I := fun t : TcpObj β => t.Known ∧ t.config = config) ?_
          ⟨known_create, config_create⟩ h
        intro u a v hu hstep
        have hsteps := step_session hu.1 hstep
        exact ⟨hsteps.known, hsteps.config.trans hu.2⟩
      intro hclient
      rw [hend.2, hflag] at hclient
      cases hclient
  | client =>
      generalize hs : pool.curSessionId + 1 = s
      have hcurrent : (create config pool : TcpObj β).current = some s := by
        simp [create, hflag, createConnection, IoObjectPool.nextSession, hs]
      have hconn : (create config pool : TcpObj β).conns s ≠ none := by
        simp [create, hflag, createConnection, IoObjectPool.nextSession, hs]
      have hend : (t.Known ∧ t.OwnsSession) ∧ t.current = some s ∧ t.conns s ≠ none := by
        refine run_invariant (I := fun t : TcpObj β =>
          (t.Known ∧ t.OwnsSession) ∧ t.current = some s ∧ t.conns s ≠ none) ?_
          ⟨⟨known_create, ownsSession_create hflag⟩, hcurrent, hconn⟩ h
        intro u a v hu hstep
        have hadds : Adds s _ False u v := adds_step hu.1.2 hu.2.1 hstep False.elim
        exact ⟨⟨(step_session hu.1.1 hstep).known, hu.1.2.step hstep⟩,
          hadds.current.trans hu.2.1, conns_ne_none_step hu.1.1 hstep hu.2.2⟩
      intro _ r hr
      rw [hend.2.1, Option.some.injEq] at hr
      exact hr ▸ hend.2.2

/-- A start that was queued can always be carried out. -/
theorem exists_start (h : t.HasSession) : ∃ t', start K t true = some t' := by
  unfold start doStart
  cases hflag : t.config.serviceType with
  | server => exact ⟨_, rfl⟩
  | client =>
      cases hcurrent : t.current with
      | none => exact ⟨_, rfl⟩
      | some s =>
          rcases Option.ne_none_iff_exists'.mp (h hflag s hcurrent) with ⟨c, hc⟩
          simp only [runConn, hc]
          exact ⟨_, rfl⟩

/-- The next event of a poll can always run. -/
theorem exists_event (h : t.HasSession) {e : TcpEvent β} {rest : List (TcpEvent β)}
    (hrecv : t.recv = some (e :: rest)) : ∃ t', event K t = some t' := by
  unfold event
  rw [hrecv]
  cases e with
  | start =>
      have hsame : HasSession { t with ran := t.ran ++ [.start], recv := some rest } := h
      exact exists_start hsame
  | _ => exact ⟨_, rfl⟩

/-- A poll that runs its events without a break comes to its end. -/
theorem exists_return (h : run (step K) (create config pool) as = some t) (hrecv : t.recv ≠ none) :
    ∃ u, run (step K) t (List.replicate t.remaining .event ++ [.pollReturn]) = some u ∧
      u.recv = none := by
  induction hleft : t.remaining generalizing t as with
  | zero =>
      rcases Option.ne_none_iff_exists'.mp hrecv with ⟨l, hl⟩
      cases l with
      | nil =>
          refine ⟨{ t with recv := none, ran := [] }, run_cons.mpr ⟨_, ?_, rfl⟩, rfl⟩
          simp [step, hl]
      | cons e rest =>
          have hweight := weight_left e
          rw [remaining, hl] at hleft
          simp only [Option.getD_some, List.map_cons, List.sum_cons] at hleft
          omega
  | succ n ih =>
      rcases Option.ne_none_iff_exists'.mp hrecv with ⟨l, hl⟩
      cases l with
      | nil =>
          rw [remaining, hl] at hleft
          cases hleft
      | cons e rest =>
          rcases exists_event (K := K) (hasSession_run h) hl with ⟨t', ht'⟩
          have hnext : step K t .event = some t' := ht'
          rcases remaining_step hnext hrecv (by simp) with ⟨hrecv', hcount⟩
          have hless : t'.remaining = n := by
            simp only [TcpAction.isEvent, if_true] at hcount
            omega
          have hrun : run (step K) (create config pool) (as ++ [.event]) = some t' := by
            rw [run_append, h]
            exact run_cons.mpr ⟨t', hnext, rfl⟩
          rcases ih hrun hrecv' hless with ⟨u, hu, hnone⟩
          exact ⟨u, run_cons.mpr ⟨t', hnext, hu⟩, hnone⟩

/-- While a poll runs, whatever happens beside it, each event leaves it one less of the steps it
had at first, and from every state it can do the rest and return. -/
theorem poll_ends (h : run (step K) (create config pool) as = some t) (hrecv : t.recv ≠ none)
    {during : List TcpAction} (hduring : .pollReturn ∉ during)
    (hrun : run (step K) t during = some u) :
    during.countP TcpAction.isEvent + u.remaining = t.remaining ∧
      ∃ v, run (step K) u (List.replicate u.remaining .event ++ [.pollReturn]) = some v ∧
        v.recv = none := by
  have hpolled : ∀ v a v', v.recv ≠ none → a ≠ .pollReturn → step K v a = some v' →
      v'.recv ≠ none ∧ (if a.isEvent then 1 else 0) + v'.remaining = v.remaining :=
    fun v a v' hv ha hstep => remaining_step hstep hv ha
  have halong : Along (step K) (fun _ a => a ≠ .pollReturn) t during := by
    apply along_of_forall
    intro a ha heq
    exact hduring (heq ▸ ha)
  have hstill : u.recv ≠ none := run_invariant_of_along
    (fun v a v' hv ha hstep => (hpolled v a v' hv ha hstep).1) hrecv halong hrun
  have hwhole : run (step K) (create config pool) (as ++ during) = some u := by
    rw [run_append, h]
    exact hrun
  exact ⟨spent_of_run hpolled hrecv halong hrun, exists_return hwhole hstill⟩

/-! ## What a poll passes on -/

/-- The messages of a session that were passed on, and those in the list of the poll. -/
def heard (t : TcpObj β) (s : SessionId) : List β :=
  t.callbacks.filterMap (Callback.message s) ++
    (t.recv.getD []).filterMap (TcpEvent.message s)

/-- An event moves its message from the list to the callbacks. -/
theorem heard_event (s : SessionId) (e : TcpEvent β) (rest : List (TcpEvent β)) :
    (e.callback.toList).filterMap (Callback.message s) ++
        (e.left ++ rest).filterMap (TcpEvent.message s) =
      (e :: rest).filterMap (TcpEvent.message s) := by
  cases e with
  | eventRecv r p =>
      by_cases hr : r = s
      · simp [TcpEvent.callback, TcpEvent.left, TcpEvent.message, Callback.message, hr]
      · simp [TcpEvent.callback, TcpEvent.left, TcpEvent.message, Callback.message, hr]
  | _ => rfl

theorem heard_step (h : step K t act = some t') (hrecv : t.recv ≠ none)
    (hact : act ≠ .pollReturn) (s : SessionId) : t'.heard s = t.heard s := by
  rcases step_polled h with ⟨-, e, rest, hbefore, hafter, hcalls⟩ | ⟨-, hnone, -⟩ | ⟨hreturn, -⟩ |
    ⟨-, hcalls, hsame⟩
  · rw [heard, heard, hbefore, hafter, hcalls, List.filterMap_append, List.append_assoc,
      Option.getD_some, Option.getD_some, heard_event]
  · exact absurd hnone hrecv
  · exact absurd hreturn hact
  · rw [heard, heard, hcalls, hsame]

/-- The messages that wait are those of the events about the session. -/
theorem filterMap_message_pending (s : SessionId) (es : List (TcpEvent β)) :
    ((es.filter fun e => e.session = some s).filterMap TcpEvent.callback).filterMap
      (Callback.message s) = es.filterMap (TcpEvent.message s) := by
  rw [List.filterMap_filterMap, List.filterMap_filter]
  congr 1
  funext e
  cases e with
  | eventRecv r p =>
      by_cases hr : r = s
      · simp [TcpEvent.session, TcpEvent.callback, TcpEvent.message, Callback.message, hr]
      · simp [TcpEvent.session, TcpEvent.callback, TcpEvent.message, Callback.message, hr]
  | eventConnect r => simp [TcpEvent.callback, TcpEvent.message, Callback.message]
  | eventCloseFun r => simp [TcpEvent.callback, TcpEvent.message, Callback.message]
  | delSession r => simp [TcpEvent.callback, TcpEvent.message]
  | start => simp [TcpEvent.callback, TcpEvent.message]

/-- What was passed on and what waits are the messages that the connection has completed. -/
theorem messages_eq (h : run (step K) (create config pool) as = some t) (s : SessionId) :
    t.callbacks.filterMap (Callback.message s) ++ t.pending.filterMap (TcpEvent.message s) =
      (t.conn s).messages := by
  have hlog := (listed_run h s).inSession.messages
  rw [completed_session, Session.log, List.filterMap_append] at hlog
  change (t.callbacks.filter _).filterMap _ ++ ((t.pending.filter _).filterMap _).filterMap _ = _
    at hlog
  rw [filterMap_message_filter, filterMap_message_pending] at hlog
  exact hlog

/-- Whatever happens while a poll runs, when it returns every message that was complete when it
began has been passed on. -/
theorem poll_delivers (h : run (step K) (create config pool) as = some t)
    {during : List TcpAction} (hduring : .pollReturn ∉ during)
    (hrun : run (step K) t (.poll :: during ++ [.pollReturn]) = some u) (s : SessionId) :
    (t.conn s).messages <+: u.callbacks.filterMap (Callback.message s) := by
  rw [List.cons_append] at hrun
  rcases run_cons.mp hrun with ⟨begun, hbegun, hrest⟩
  rw [run_append, Option.bind_eq_some_iff] at hrest
  rcases hrest with ⟨last, hlast, hreturn⟩
  rcases run_cons.mp hreturn with ⟨u', hu', hend⟩
  rw [run_nil, Option.some.injEq] at hend
  subst hend
  -- the poll takes all that waits
  have hall : begun.recv ≠ none ∧ begun.heard s = (t.conn s).messages := by
    cases step_cases hbegun with
    | unknown _ hact =>
        rcases hact with hact | ⟨p, hact⟩
        · cases hact
        · cases hact
    | poll hrecv =>
        have hmessages := messages_eq h s
        rw [pending, hrecv] at hmessages
        exact ⟨Option.some_ne_none _, hmessages⟩
  have hkept : last.recv ≠ none ∧ last.heard s = (t.conn s).messages := by
    refine run_invariant_of_along
      (I := fun v : TcpObj β => v.recv ≠ none ∧ v.heard s = (t.conn s).messages)
      (P := fun _ a => a ≠ .pollReturn) ?_ hall (along_of_forall ?_) hlast
    · intro v a v' hv ha hstep
      exact ⟨(remaining_step hstep hv.1 ha).1, (heard_step hstep hv.1 ha s).trans hv.2⟩
    · intro a ha heq
      exact hduring (heq ▸ ha)
  -- and returns when nothing is left of it
  cases step_cases hu' with
  | unknown _ hact =>
      rcases hact with hact | ⟨p, hact⟩
      · cases hact
      · cases hact
  | pollReturn hrecv =>
      have hheard := hkept.2
      rw [heard, hrecv, Option.getD_some, List.filterMap_nil, List.append_nil] at hheard
      exact ⟨[], (List.append_nil _).trans hheard.symm⟩

/-- A client is connected and has read a message, and the poll that reports both begins. -/
def pollBegun : List TcpAction :=
  [.start true, .handler 1 (.handleConnect false),
    .handler 1 (.handleReadSome 0 false [13, 0, 0, 0, 0, 0, 0, 0, 0, 0, 0, 0, 104])]

/-- Another message and the close of the connection come in while the poll runs. -/
def pollBusy : List TcpAction :=
  [.event, .handler 1 (.handleReadSome 0 false [13, 0, 0, 0, 0, 0, 0, 0, 0, 0, 0, 0, 105]),
    .handler 1 (.handleReadSome 0 true []), .handler 1 (.handleClose 0), .event]

theorem pollReturn_notMem_pollBusy : .pollReturn ∉ pollBusy := by
  simp [pollBusy]

theorem poll_ends_busy :
    ∃ t u, run (step NetBlock.blockClass) (create ⟨.client, false⟩ ⟨0, []⟩)
        (pollBegun ++ [.poll]) = some t ∧
      run (step NetBlock.blockClass) t pollBusy = some u ∧
      pollBusy.countP TcpAction.isEvent + u.remaining = t.remaining ∧
        ∃ v, run (step NetBlock.blockClass) u
          (List.replicate u.remaining .event ++ [.pollReturn]) = some v ∧ v.recv = none := by
  have hrun : (run (step NetBlock.blockClass) (create ⟨.client, false⟩ ⟨0, []⟩)
      (pollBegun ++ [.poll])).any (fun t => t.recv.isSome ∧
        (run (step NetBlock.blockClass) t pollBusy).isSome) = true := by
    decide +kernel
  rcases (Option.any_eq_true _ _).mp hrun with ⟨t, ht, hvalues⟩
  rw [decide_eq_true_eq] at hvalues
  rcases Option.isSome_iff_exists.mp hvalues.2 with ⟨u, hu⟩
  exact ⟨t, u, ht, hu, poll_ends ht (Option.isSome_iff_ne_none.mp hvalues.1)
    pollReturn_notMem_pollBusy hu⟩

theorem poll_delivers_busy :
    ∃ t u, run (step NetBlock.blockClass) (create ⟨.client, false⟩ ⟨0, []⟩) pollBegun = some t ∧
      run (step NetBlock.blockClass) t (.poll :: pollBusy ++ [.pollReturn]) = some u ∧
      ((t.conn 1).messages.length = 1 ∧ (u.conn 1).messages.length = 2) ∧
      (t.conn 1).messages <+: u.callbacks.filterMap (Callback.message 1) := by
  have hrun : (run (step NetBlock.blockClass) (create ⟨.client, false⟩ ⟨0, []⟩) pollBegun).any
      (fun t => (run (step NetBlock.blockClass) t (.poll :: pollBusy ++ [.pollReturn])).any fun u =>
        (t.conn 1).messages.length = 1 ∧ (u.conn 1).messages.length = 2) = true := by
    decide +kernel
  rcases (Option.any_eq_true _ _).mp hrun with ⟨t, ht, hbusy⟩
  rcases (Option.any_eq_true _ _).mp hbusy with ⟨u, hu, hvalues⟩
  rw [decide_eq_true_eq] at hvalues
  exact ⟨t, u, ht, hu, hvalues, poll_delivers ht pollReturn_notMem_pollBusy hu 1⟩

/-! ## Who is online -/

end TcpObj

/-- A session is open in its log exactly while its connection is up. -/
theorem Session.isOpen_move {flag : ServiceFlag} {s : SessionId} {a : TcpAction}
    {x y : Session β} (h : isOpen (Callback.role s) x.log = x.connected)
    (hmove : Move flag s a x y) : isOpen (Callback.role s) y.log = y.connected := by
  rcases hmove.grows with ⟨up, new, entries, hgrows, hup, -, hlog⟩
  rw [hlog, hup]
  cases hgrows with
  | quiet =>
      rw [List.append_nil]
      exact h
  | read _ hopen =>
      rw [isOpen_append, foldl_after_inner (role_of_message s new), h]
      exact hopen
  | cameUp => simp [after, Callback.role]
  | closed => simp [after, Callback.role]

namespace TcpObj

variable {K : BlockClass β} {config : Config} {pool : IoObjectPool} {t : TcpObj β}
  {as : List TcpAction}

/-- When no event waits, the sessions in `m_onlines` are those whose connection is up. -/
theorem online_at_rest (h : run (step K) (create config pool) as = some t)
    (hrest : t.pending = []) (s : SessionId) :
    s ∈ t.onlines ↔ (t.conn s).conn.connected = true := by
  have hopen : isOpen (Callback.role s) (t.session s).log = (t.session s).connected := by
    refine run_session
      (J := fun s x => isOpen (Callback.role s) x.log = Session.connected x) ?_
      (fun _ _ _ _ _ hr hmove => Session.isOpen_move hr hmove)
      (along_of_forall fun _ _ => trivial) h s
    intro r conn hconn
    rcases hconn with rfl | rfl
    · rfl
    · rfl
  have hqueue : (t.session s).queue = [] := by
    change t.pending.filter _ = []
    rw [hrest]
    rfl
  have honline : (t.session s).online = isOpen (Callback.role s) (t.session s).callbacks := by
    rcases (listed_run h s).online with ⟨q, hq, -⟩ | ⟨-, heq⟩
    · rw [hqueue] at hq
      cases hq
    · exact heq
  have hconnected : (t.session s).connected = (t.conn s).conn.connected := by
    rw [Session.connected, conn]
    change (t.conns s).any _ = _
    cases t.conns s with
    | none => rfl
    | some c => rfl
  rw [Session.log, hqueue, List.filterMap_nil, List.append_nil, ← honline, hconnected] at hopen
  rw [← hopen]
  exact decide_eq_true_iff.symm

theorem online_at_rest_polled :
    ∃ t, run (step NetBlock.blockClass) (create ⟨.client, false⟩ ⟨0, []⟩)
        (pollBegun ++ [.poll, .event, .event, .pollReturn]) = some t ∧
      t.onlines = [1] ∧ (1 ∈ t.onlines ↔ (t.conn 1).conn.connected = true) := by
  have hrun : (run (step NetBlock.blockClass) (create ⟨.client, false⟩ ⟨0, []⟩)
      (pollBegun ++ [.poll, .event, .event, .pollReturn])).any (fun t => t.onlines = [1] ∧
        t.pending.length = 0) = true := by
    decide +kernel
  rcases (Option.any_eq_true _ _).mp hrun with ⟨t, ht, hvalues⟩
  rw [decide_eq_true_eq] at hvalues
  exact ⟨t, ht, hvalues.1, online_at_rest ht (List.length_eq_zero_iff.mp hvalues.2) 1⟩

end TcpObj

end FannyNet

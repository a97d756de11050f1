import FannyNet.Block
import FannyNet.TcpObject
import FannyNet.Library.Sessions

/-!
# The callbacks of a session

The events of a connection are pushed in the order in which its handlers run, and every
poll runs them in the order in which they were pushed.  The callbacks made for a session
and those that its waiting events will make are therefore one log, which only handlers
prolong.

Main results:

- Theorem `TcpObj.callbacks_in_session`: the messages of a session are passed on once, in
  order, and between a connect and a close.
- Theorem `TcpObj.one_close_per_connect`: the runs in which no session is closed more
  often than it was connected.
-/

namespace FannyNet

open Library.Transition Library.Sessions

variable {β : Type}

/-- The callback that an event makes. -/
def TcpEvent.callback : TcpEvent β → Option (Callback β)
  | .eventRecv s p => some (.callFun s p)
  | .eventConnect s => some (.connectFun s)
  | .eventCloseFun s => some (.closeFun s)
  | .delSession _ => none
  | .start => none

/-- What a callback says of session `s`. -/
def Callback.role (s : SessionId) : Callback β → Role
  | .callFun r _ => if r = s then .inner else .other
  | .connectFun r => if r = s then .opening else .other
  | .closeFun r => if r = s then .closing else .other

/-- The message of session `s` that a callback passes on. -/
def Callback.message (s : SessionId) : Callback β → Option β
  | .callFun r p => if r = s then some p else none
  | _ => none

namespace Session

variable {flag : ServiceFlag} {s : SessionId} {a : TcpAction} {x y : Session β}

/-- The callbacks made, and those that wait. -/
def log (x : Session β) : List (Callback β) :=
  x.callbacks ++ x.queue.filterMap TcpEvent.callback

def connected (x : Session β) : Bool :=
  x.conn.any fun c => c.conn.connected

/-- The messages completed by the connection. -/
def completed (x : Session β) : List β :=
  x.conn.elim [] ConnState.messages

/-- What a step adds to the log of a session and to its messages, and what it makes of
`m_connect`. -/
inductive Grows (s : SessionId) (a : TcpAction) (x : Session β) :
    Bool → List β → List (Callback β) → Prop where
  | quiet : Grows s a x x.connected [] []
  | read (ps : List β) (hup : x.connected = true) : Grows s a x true ps (ps.map (.callFun s))
  | cameUp : Grows s a x true [] [.connectFun s]
  | closed {h : Handler} {c : ConnState β} (ha : a = .handler s h) (hconn : x.conn = some c)
      (hcloses : c.closes h = true) : Grows s a x false [] [.closeFun s]

theorem callbacks_of_messages (s : SessionId) (ps : List β) :
    ((ps.map Effect.eventPostRecv).flatMap (TcpEvent.ofEffect s)).filterMap TcpEvent.callback =
      ps.map (.callFun s) := by
  rw [TcpEvent.ofEffect_messages, List.filterMap_map]
  exact congrFun (List.filterMap_eq_map (f := Callback.callFun s)) ps

/-- Only handlers prolong the log. -/
theorem Move.grows (h : Move flag s a x y) :
    ∃ up new entries, Grows s a x up new entries ∧ y.connected = up ∧
      y.completed = x.completed ++ new ∧ y.log = x.log ++ entries := by
  -- a step that leaves `m_connect`, the messages and the log as they are
  have hquiet : y.connected = x.connected → y.completed = x.completed → y.log = x.log →
      ∃ up new entries, Grows s a x up new entries ∧ y.connected = up ∧
        y.completed = x.completed ++ new ∧ y.log = x.log ++ entries := by
    intro hconn hmessages hlog
    refine ⟨x.connected, [], [], .quiet, hconn, ?_, ?_⟩
    · rw [hmessages, List.append_nil]
    · rw [hlog, List.append_nil]
  cases h with
  | same => exact hquiet rfl rfl rfl
  | created hnone =>
      refine hquiet ?_ ?_ rfl
      · simp [connected, hnone, ConnState.create, Connection.create]
      · simp [completed, hnone, ConnState.create]
  | asked hconn hasked =>
      refine hquiet ?_ ?_ rfl
      · simp [connected, hconn, hasked.connected]
      · simp [completed, hconn, hasked.messages]
  | @handled c c' h es ha hconn hout =>
      have hlog : ({ x with
          conn := some c', queue := x.queue ++ es.flatMap (TcpEvent.ofEffect s) } : Session β).log =
          x.log ++ (es.flatMap (TcpEvent.ofEffect s)).filterMap TcpEvent.callback := by
        simp [log]
      cases hout with
      | quiet hconn' hmessages =>
          refine hquiet ?_ ?_ (hlog.trans (List.append_nil _))
          · simp [connected, hconn, hconn']
          · simp [completed, hconn, hmessages]
      | read ps hup hup' hmessages =>
          refine ⟨true, ps, ps.map (.callFun s), .read ps ?_, hup', ?_, ?_⟩
          · simp [connected, hconn, hup]
          · simp [completed, hconn, hmessages]
          · rw [hlog, callbacks_of_messages]
      | cameUp hopening hup hmessages =>
          refine ⟨true, [], [.connectFun s], .cameUp, hup, ?_, hlog⟩
          simp [completed, hconn, hmessages]
      | closed hcloses hdown hmessages =>
          refine ⟨false, [], [.closeFun s], .closed ha hconn hcloses, hdown, ?_, hlog⟩
          simp [completed, hconn, hmessages]
      | failed hopening hconn' hmessages =>
          refine hquiet ?_ ?_ (hlog.trans (List.append_nil _))
          · simp [connected, hconn, hconn']
          · simp [completed, hconn, hmessages]
  | recv hqueue => exact hquiet rfl rfl (by simp [log, hqueue, TcpEvent.callback])
  | connect hqueue => exact hquiet rfl rfl (by simp [log, hqueue, TcpEvent.callback])
  | close hqueue =>
      exact hquiet rfl rfl (by simp [log, hqueue, List.filterMap_cons, TcpEvent.callback])
  | del hqueue =>
      exact hquiet rfl rfl (by simp [log, hqueue, List.filterMap_cons, TcpEvent.callback])
  | returned ha => exact hquiet rfl rfl rfl

/-! ## Messages inside the session -/

theorem role_of_message (s : SessionId) (ps : List β) :
    ∀ c ∈ ps.map (Callback.callFun s), c.role s = .inner := by
  intro c hc
  rcases List.mem_map.mp hc with ⟨p, -, rfl⟩
  exact if_pos rfl

theorem messages_of_map (s : SessionId) (ps : List β) :
    (ps.map (Callback.callFun s)).filterMap (Callback.message s) = ps := by
  induction ps with
  | nil => rfl
  | cons p ps ih =>
      have hmessage : Callback.message s (.callFun s p) = some p := if_pos rfl
      rw [List.map_cons, List.filterMap_cons_some hmessage, ih]

/-- The log of a session passes on the messages completed so far, all of them inside the
session, and is open as long as the connection is up. -/
structure InSession (s : SessionId) (x : Session β) : Prop where
  messages : x.log.filterMap (Callback.message s) = x.completed
  isOpen : x.connected = true → isOpen (Callback.role s) x.log = true
  inside : Inside (Callback.role s) x.log

theorem inSession_start {conn : Option (ConnState β)}
    (hconn : conn = none ∨ conn = some (ConnState.create s bufferSize)) :
    InSession s ⟨conn, [], [], [], false⟩ := by
  refine ⟨?_, ?_, inside_nil⟩
  · rcases hconn with rfl | rfl
    · rfl
    · rfl
  · intro hup
    rcases hconn with rfl | rfl
    · cases hup
    · cases hup

theorem InSession.move (h : InSession s x) (hmove : Move flag s a x y) : InSession s y := by
  rcases hmove.grows with ⟨up, new, entries, hgrows, hup, hmessages, hlog⟩
  cases hgrows with
  | quiet =>
      rw [List.append_nil] at hmessages hlog
      refine ⟨?_, ?_, ?_⟩
      · rw [hlog, hmessages]
        exact h.messages
      · rw [hlog, hup]
        exact h.isOpen
      · rw [hlog]
        exact h.inside
  | read _ hopen =>
      have hrole := role_of_message s new
      refine ⟨?_, ?_, ?_⟩
      · rw [hlog, hmessages, List.filterMap_append, h.messages, messages_of_map]
      · intro _
        rw [hlog, isOpen_append, foldl_after_inner hrole]
        exact h.isOpen hopen
      · rw [hlog]
        exact h.inside.append (h.isOpen hopen) hrole
  | cameUp =>
      refine ⟨?_, ?_, ?_⟩
      · rw [hlog, hmessages, List.filterMap_append, h.messages]
        rfl
      · intro _
        simp [hlog, after, Callback.role]
      · rw [hlog]
        exact h.inside.concat (by simp [Callback.role])
  | closed =>
      refine ⟨?_, ?_, ?_⟩
      · rw [hlog, hmessages, List.filterMap_append, h.messages]
        rfl
      · intro hconn
        rw [hup] at hconn
        cases hconn
      · rw [hlog]
        exact h.inside.concat (by simp [Callback.role])

/-! ## Closes -/

/-- Every close in the log is of a connect before it, and that of the connection that is
up has not been closed. -/
structure ClosedOnce (s : SessionId) (x : Session β) : Prop where
  balanced : Balanced (Callback.role s) x.log
  ahead : closings (Callback.role s) x.log + (if x.connected then 1 else 0) ≤
    openings (Callback.role s) x.log

theorem closedOnce_start {conn : Option (ConnState β)}
    (hconn : conn = none ∨ conn = some (ConnState.create s bufferSize)) :
    ClosedOnce s ⟨conn, [], [], [], false⟩ := by
  refine ⟨balanced_nil, ?_⟩
  rcases hconn with rfl | rfl
  · exact le_rfl
  · exact le_rfl

theorem closings_messages (s : SessionId) (ps : List β) :
    closings (Callback.role s) (ps.map (.callFun s)) = 0 := by
  rw [closings, List.countP_eq_zero]
  intro c hc
  simp [role_of_message s ps c hc]

theorem ClosedOnce.move (h : ClosedOnce s x) (hmove : Move flag s a x y)
    (hcloses : ∀ h c, a = .handler s h → x.conn = some c → c.closes h = true →
      c.conn.connected = true) : ClosedOnce s y := by
  rcases hmove.grows with ⟨up, new, entries, hgrows, hup, -, hlog⟩
  have hahead := h.ahead
  cases hgrows with
  | quiet =>
      rw [List.append_nil] at hlog
      refine ⟨?_, ?_⟩
      · rw [hlog]
        exact h.balanced
      · rw [hlog, hup]
        exact hahead
  | read _ hopen =>
      refine ⟨?_, ?_⟩
      · rw [hlog]
        exact h.balanced.append (role_of_message s new)
      · rw [hlog, hup, closings_append, openings_append, closings_messages]
        rw [hopen] at hahead
        omega
  | cameUp =>
      have hclosings : closings (Callback.role s) [(.connectFun s : Callback β)] = 0 := by
        simp [closings, Callback.role]
      have hopenings : openings (Callback.role s) [(.connectFun s : Callback β)] = 1 := by
        simp [openings, Callback.role]
      refine ⟨?_, ?_⟩
      · rw [hlog]
        exact h.balanced.concat (by simp [Callback.role])
      · rw [hlog, hup, closings_append, openings_append, hclosings, hopenings, if_pos rfl]
        omega
  | closed ha hconn hclose =>
      have hclosings : closings (Callback.role s) [(.closeFun s : Callback β)] = 1 := by
        simp [closings, Callback.role]
      have hconnected : x.connected = true := by
        simp [connected, hconn, hcloses _ _ ha hconn hclose]
      rw [hconnected, if_pos rfl] at hahead
      refine ⟨?_, ?_⟩
      · rw [hlog]
        exact h.balanced.concat fun _ => hahead
      · rw [hlog, hup, closings_append, openings_append, hclosings, if_neg Bool.false_ne_true]
        omega

end Session

namespace TcpObj

variable {K : BlockClass β} {config : Config} {pool : IoObjectPool} {as : List TcpAction}
  {t : TcpObj β}

/-- The callbacks of other sessions pass on no message of this one. -/
theorem filterMap_message_filter (s : SessionId) (l : List (Callback β)) :
    (l.filter fun c => c.session = s).filterMap (Callback.message s) =
      l.filterMap (Callback.message s) := by
  rw [List.filterMap_filter]
  congr 1
  funext c
  cases c with
  | callFun r p =>
      by_cases hr : r = s
      · simp [Callback.session, Callback.message, hr]
      · simp [Callback.session, Callback.message, hr]
  | connectFun r => simp [Callback.message]
  | closeFun r => simp [Callback.message]

/-- Nor do they open or close it. -/
theorem role_of_ne {s : SessionId} {c : Callback β} (h : c.session ≠ s) : c.role s = .other := by
  cases c with
  | callFun r p => exact if_neg h
  | connectFun r => exact if_neg h
  | closeFun r => exact if_neg h

theorem eq_connectFun_of_role {s : SessionId} {c : Callback β} (h : c.role s = .opening) :
    c = .connectFun s := by
  cases c with
  | callFun r p => by_cases hr : r = s <;> simp [Callback.role, hr] at h
  | connectFun r =>
      by_cases hr : r = s
      · rw [hr]
      · simp [Callback.role, hr] at h
  | closeFun r => by_cases hr : r = s <;> simp [Callback.role, hr] at h

/-- The messages passed on for a session are, once each and in order, the first of those
that its connection has completed, and each is passed on after a connect that no close
has followed. -/
theorem callbacks_in_session (h : run (step K) (create config pool) as = some t)
    (s : SessionId) :
    t.callbacks.filterMap (Callback.message s) <+: (t.conns s).elim [] ConnState.messages ∧
      ∀ before p behind, t.callbacks = before ++ .callFun s p :: behind →
        ∃ start between, before = start ++ .connectFun s :: between ∧
          .closeFun s ∉ between := by
  have halong : Along (step K) (fun _ _ => True) (create config pool) as :=
    along_of_forall fun _ _ => trivial
  have hgood : Session.InSession s (t.session s) :=
    run_session (fun r conn hconn => Session.inSession_start hconn)
      (fun _ _ _ _ _ hr hmove => hr.move hmove) halong h s
  have hlog : (t.session s).callbacks <+: (t.session s).log := List.prefix_append _ _
  refine ⟨?_, ?_⟩
  · have hprefix := hlog.filterMap (Callback.message s)
    rw [hgood.messages] at hprefix
    rw [← filterMap_message_filter]
    exact hprefix
  · intro before p behind heq
    have hsplit : (t.session s).callbacks =
        before.filter (fun c => c.session = s) ++
          .callFun s p :: behind.filter (fun c => c.session = s) := by
      change t.callbacks.filter _ = _
      rw [heq, List.filter_append, List.filter_cons_of_pos (by simp [Callback.session])]
    have hopen : isOpen (Callback.role s) before = true := by
      rw [← isOpen_filter (p := fun c => c.session = s)]
      · exact (hgood.inside.of_prefix hlog) _ _ _ hsplit (if_pos rfl)
      · intro c _ hc
        exact role_of_ne (of_decide_eq_false hc)
    rcases exists_opening hopen with ⟨start, c, between, rfl, hc, hbetween⟩
    have hconnect := eq_connectFun_of_role hc
    subst hconnect
    refine ⟨start, between, rfl, ?_⟩
    intro hmem
    exact hbetween _ hmem (if_pos rfl)

/-- A server accepts a connection, receives a message and is asked to close it. -/
def served : List TcpAction :=
  [.start true, .acceptSocket false, .handler 1 .handlAccept, .poll, .event,
    .handler 1 (.handleReadSome 0 false [13, 0, 0, 0, 0, 0, 0, 0, 0, 0, 0, 0, 104]), .pollReturn,
    .kick 1, .poll, .event, .handler 1 (.handleClose 0), .pollReturn, .poll, .event, .event]

/-- The message is posted while a poll is running, and passed on by the next. -/
theorem callbacks_in_session_served :
    ∃ t, run (step NetBlock.blockClass) (create ⟨.server, false⟩ ⟨0, []⟩) served = some t ∧
      t.callbacks.filterMap (Callback.message 1) <+: (t.conns 1).elim [] ConnState.messages ∧
      ∀ before p behind, t.callbacks = before ++ .callFun 1 p :: behind →
        ∃ start between, before = start ++ .connectFun 1 :: between ∧
          .closeFun 1 ∉ between := by
  have hrun : (run (step NetBlock.blockClass) (create ⟨.server, false⟩ ⟨0, []⟩) served).isSome =
      true := by decide +kernel
  rcases Option.isSome_iff_exists.mp hrun with ⟨t, ht⟩
  exact ⟨t, ht, callbacks_in_session ht 1⟩

/-- A close that is not put off finds its connection up. -/
def closesUp (t : TcpObj β) : TcpAction → Bool
  | .handler s h => (t.conns s).all fun c => !c.closes h || c.conn.connected
  | _ => true

theorem connected_of_closesUp {s : SessionId} {a : TcpAction} {h : Handler} {c : ConnState β}
    (hup : t.closesUp a = true) (ha : a = .handler s h) (hconn : t.conns s = some c)
    (hcloses : c.closes h = true) : c.conn.connected = true := by
  subst ha
  simpa [closesUp, hconn, hcloses] using hup

/-- When every close that is not put off finds its connection up, at no time has a session
been closed more often than it was connected. -/
theorem one_close_per_connect
    (hup : Along (step K) (fun t a => t.closesUp a = true) (create config pool) as)
    (h : run (step K) (create config pool) as = some t) (s : SessionId) :
    Balanced (Callback.role s) t.callbacks := by
  have hgood : Session.ClosedOnce s (t.session s) :=
    run_session (fun r conn hconn => Session.closedOnce_start hconn)
      (fun _ _ _ _ hP hr hmove => hr.move hmove fun _ _ => connected_of_closesUp hP) hup h s
  have hlog : (t.session s).callbacks <+: (t.session s).log := List.prefix_append _ _
  refine balanced_of_filter (hgood.balanced.of_prefix hlog) ?_
  intro c _ hc
  exact role_of_ne (of_decide_eq_false hc)

/-- One close of a connection that is up. -/
theorem one_close_per_connect_served :
    ∃ t, run (step NetBlock.blockClass) (create ⟨.server, false⟩ ⟨0, []⟩) served = some t ∧
      Balanced (Callback.role 1) t.callbacks := by
  have hrun : (run (step NetBlock.blockClass) (create ⟨.server, false⟩ ⟨0, []⟩) served).isSome =
      true := by decide +kernel
  rcases Option.isSome_iff_exists.mp hrun with ⟨t, ht⟩
  exact ⟨t, ht, one_close_per_connect (by decide +kernel) ht 1⟩

/-- A connection that is asked twice to close is closed twice, and stopping a server closes
a connection that was never accepted. -/
theorem closed_twice :
    (∃ t, run (step NetBlock.blockClass) (create ⟨.server, false⟩ ⟨0, []⟩)
        [.start true, .acceptSocket false, .handler 1 .handlAccept, .poll, .event, .pollReturn,
          .kick 1, .kick 1, .handler 1 (.handleClose 0), .handler 1 (.handleClose 0), .poll,
          .event, .event, .event] = some t ∧
      t.callbacks = [.connectFun 1, .closeFun 1, .closeFun 1] ∧
      ¬ Balanced (Callback.role 1) t.callbacks) ∧
    ∃ t, run (step NetBlock.blockClass) (create ⟨.server, false⟩ ⟨0, []⟩)
        [.start true, .stop, .handler 1 (.handleClose 0), .poll, .event] = some t ∧
      t.callbacks = [.closeFun 1] ∧ ¬ Balanced (Callback.role 1) t.callbacks := by
  -- both logs have more closes than connects in the end
  have hnot : ∀ l : List (Callback NetBlock),
      openings (Callback.role 1) l < closings (Callback.role 1) l →
        ¬ Balanced (Callback.role 1) l := by
    intro l hlt hbalanced
    exact absurd (hbalanced l List.prefix_rfl) (Nat.not_le.mpr hlt)
  refine ⟨?_, ?_⟩
  · have hrun : (run (step NetBlock.blockClass) (create ⟨.server, false⟩ ⟨0, []⟩)
        [.start true, .acceptSocket false, .handler 1 .handlAccept, .poll, .event, .pollReturn,
          .kick 1, .kick 1, .handler 1 (.handleClose 0), .handler 1 (.handleClose 0), .poll,
          .event, .event, .event]).any (fun t =>
            decide (t.callbacks = [.connectFun 1, .closeFun 1, .closeFun 1])) = true := by
      decide +kernel
    rcases (Option.any_eq_true _ _).mp hrun with ⟨t, ht, hcallbacks⟩
    rw [decide_eq_true_eq] at hcallbacks
    exact ⟨t, ht, hcallbacks, hcallbacks ▸ hnot _ (by decide)⟩
  · have hrun : (run (step NetBlock.blockClass) (create ⟨.server, false⟩ ⟨0, []⟩)
        [.start true, .stop, .handler 1 (.handleClose 0), .poll, .event]).any (fun t =>
          decide (t.callbacks = [.closeFun 1])) = true := by
      decide +kernel
    rcases (Option.any_eq_true _ _).mp hrun with ⟨t, ht, hcallbacks⟩
    rw [decide_eq_true_eq] at hcallbacks
    exact ⟨t, ht, hcallbacks, hcallbacks ▸ hnot _ (by decide)⟩

end TcpObj

end FannyNet

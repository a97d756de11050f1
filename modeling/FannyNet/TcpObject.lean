import FannyNet.IoService
import Mathlib.Logic.Function.Basic

/-!
# `TcpObj`, a server or a client with its connections

The handlers of the connections and of the acceptor run on the threads of the
`io_service`s; the events they push wait in `m_call` until the user's thread polls,
which takes the whole list and runs one event after the other.  The user's callbacks are
called there, and may ask for anything but another poll.  Each handler, each event up to
its callback and each request of the user is one step, and any of them may come next.

`NetService` passes the user's requests on to its objects.  Requests that it refuses,
because it does not run, only leave out some of the runs here; another object takes its
session ids from the same pool.

Main results:

- Definition `TcpObj.step`: a request, an event or a handler.
- Theorem `TcpObj.step_cases`: all that a step can do.
- Theorem `TcpObj.step_session`: each step is a step of every session.
- Theorem `TcpObj.run_session`: what the steps of a session keep holds after every run.
-/

namespace FannyNet

open Library.Transition

/-! ## The object -/

/-- `Config::ServiceFlag`. -/
inductive ServiceFlag where
  | server
  | client
deriving DecidableEq, Repr

/-- What an object looks at in its `Config`. -/
structure Config where
  serviceType : ServiceFlag
  autoReconnect : Bool
deriving DecidableEq, Repr

/-- `IoObjectPool`: the last session id, and the ids in `m_onlines`. -/
structure IoObjectPool where
  curSessionId : SessionId
  onlines : List SessionId
deriving DecidableEq, Repr

namespace IoObjectPool

def nextSession (pool : IoObjectPool) : IoObjectPool × SessionId :=
  ({ pool with curSessionId := pool.curSessionId + 1 }, pool.curSessionId + 1)

def addSession (pool : IoObjectPool) (s : SessionId) : IoObjectPool :=
  { pool with onlines := pool.onlines.insert s }

def delSession (pool : IoObjectPool) (s : SessionId) : IoObjectPool :=
  { pool with onlines := pool.onlines.filter (· ≠ s) }

/-- `session(s)` finds a connection. -/
def session (pool : IoObjectPool) (s : SessionId) : Bool :=
  decide (s ∈ pool.onlines)

end IoObjectPool

/-- `TcpEvent`, with the session of the connection it is about.  `delSession` is what is
left of an `eventCloseFun` when its callback has returned. -/
inductive TcpEvent (β : Type) where
  | eventRecv (s : SessionId) (p : β)
  | eventConnect (s : SessionId)
  | eventCloseFun (s : SessionId)
  | delSession (s : SessionId)
  | start
deriving DecidableEq, Repr

/-- The user's callbacks. -/
inductive Callback (β : Type) where
  | callFun (s : SessionId) (p : β)
  | connectFun (s : SessionId)
  | closeFun (s : SessionId)
deriving DecidableEq, Repr

/-- The class `TcpObj`, with `m_current` of a `TcpServer` or `m_session` of a `TcpClient`
as `current` and with the accepts that are outstanding.  A connection is known by its
session id.

`recv` is the list that a running poll goes through, and `ran` what it has gone through:
the events live until the poll returns.  Beside these the history: the callbacks made,
and how many accepts and connects were begun. -/
structure TcpObj (β : Type) where
  config : Config
  pool : IoObjectPool
  conns : SessionId → Option (ConnState β)
  current : Option SessionId
  accepts : Nat
  call : List (TcpEvent β)
  recv : Option (List (TcpEvent β))
  ran : List (TcpEvent β)
  onlines : List SessionId
  stopped : Bool
  callbacks : List (Callback β)
  attempts : Nat

/-- What can happen next: a request of the user, a part of a poll, the completion of an
accept, or the execution of a handler of a connection. -/
inductive TcpAction where
  | start (ok : Bool)
  | stop
  | kick (s : SessionId)
  | send (s : SessionId) (p : {p : NetBuffer // p.Valid})
  | sendAll (p : {p : NetBuffer // p.Valid})
  | poll
  | event
  | pollReturn
  | acceptSocket (error : NetErrorType)
  | handler (s : SessionId) (h : Handler)
  | nextSession

namespace TcpObj

variable {β : Type}

/-! ## Events of the connections -/

/-- The event that an effect of a connection pushes.  Only a client sets
`_eventConnectFailedFun`. -/
def pushed (t : TcpObj β) (s : SessionId) : Effect β → List (TcpEvent β)
  | .eventPostRecv p => [.eventRecv s p]
  | .eventConnect => [.eventConnect s]
  | .eventClose => [.eventCloseFun s]
  | .eventConnectFailed =>
      if t.config.serviceType = .client ∧ t.config.autoReconnect = true then [.start] else []
  | _ => []

section
variable (K : BlockClass β)

/-- A call of a connection, or one of its handlers, with the events it pushes. -/
def runConn (t : TcpObj β) (s : SessionId) (a : ConnAction) : Option (TcpObj β) := do
  let conn ← t.conns s
  let (conn, effects) ← conn.step K a
  some { t with
    conns := Function.update t.conns s (some conn)
    call := t.call ++ effects.flatMap (t.pushed s) }

/-- The same call for several connections. -/
def runAll (t : TcpObj β) (ss : List SessionId) (a : ConnAction) : Option (TcpObj β) :=
  ss.foldlM (fun t s => runConn K t s a) t

/-! ## Starting and stopping -/

def createConnection (t : TcpObj β) : TcpObj β × SessionId :=
  let (pool, s) := t.pool.nextSession
  ({ t with
    pool := pool
    conns := Function.update t.conns s (some (ConnState.create s bufferSize)) }, s)

def beginAccept (t : TcpObj β) : TcpObj β :=
  if t.stopped then t
  else
    let (t, s) := t.createConnection
    { t with current := some s, accepts := t.accepts + 1, attempts := t.attempts + 1 }

def acceptSocket (t : TcpObj β) (error : NetErrorType) : Option (TcpObj β) :=
  if t.stopped then some t
  else
    match t.current with
    | none => some t
    | some s => do
        let t ← runConn K t s (if !error then .postAccept else .close error)
        some t.beginAccept

/-- `doStart` of a server, whose socket is opened, bound and listened on with or without
success, and of a client. -/
def doStart (t : TcpObj β) (ok : Bool) : Option (TcpObj β) :=
  match t.config.serviceType with
  | .server => if ok then some t.beginAccept else some t
  | .client =>
      match t.current with
      | none => some t
      | some s => do
          let t ← runConn K t s .connect
          some { t with attempts := t.attempts + 1 }

/-- `doStop` of a server, which has to have a current connection, and of a client. -/
def doStop (t : TcpObj β) : Option (TcpObj β) :=
  match t.config.serviceType with
  | .server =>
      match t.current with
      | none => none
      | some s => runConn K t s (.close false)
  | .client => some t

def start (t : TcpObj β) (ok : Bool) : Option (TcpObj β) :=
  doStart K { t with stopped := false } ok

def stop (t : TcpObj β) : Option (TcpObj β) := do
  let t ← runAll K { t with stopped := true } t.onlines (.close false)
  doStop K t

/-! ## Polling -/

/-- An event runs up to its callback. -/
def runEvent (t : TcpObj β) (rest : List (TcpEvent β)) : TcpEvent β → Option (TcpObj β)
  | .eventRecv s p => some { t with recv := some rest, callbacks := t.callbacks ++ [.callFun s p] }
  | .eventConnect s =>
      some { t with
        recv := some rest
        pool := t.pool.addSession s
        onlines := t.onlines.insert s
        callbacks := t.callbacks ++ [.connectFun s] }
  | .eventCloseFun s =>
      some { t with
        recv := some (.delSession s :: rest)
        callbacks := t.callbacks ++ [.closeFun s] }
  | .delSession s =>
      some { t with
        recv := some rest
        pool := t.pool.delSession s
        onlines := t.onlines.filter (· ≠ s) }
  | .start => start K { t with recv := some rest } true

/-- The next event of the poll that is running. -/
def event (t : TcpObj β) : Option (TcpObj β) :=
  match t.recv with
  | some (e :: rest) => runEvent K { t with ran := t.ran ++ [e] } rest e
  | _ => none

/-! ## Steps -/

/-- A request, a part of a poll, or a handler. -/
def step (t : TcpObj β) : TcpAction → Option (TcpObj β)
  | .start ok => start K t ok
  | .stop => stop K t
  | .kick s => if t.pool.session s then runConn K t s (.close false) else some t
  | .send s p => if t.pool.session s then runConn K t s (.send p) else some t
  | .sendAll p => runAll K t t.onlines (.send p)
  | .poll =>
      match t.recv with
      | none => some { t with recv := some t.call, call := [] }
      | some _ => none
  | .event => event K t
  | .pollReturn =>
      match t.recv with
      | some [] => some { t with recv := none, ran := [] }
      | _ => none
  | .acceptSocket error =>
      if t.accepts = 0 then none else acceptSocket K { t with accepts := t.accepts - 1 } error
  | .handler s h => runConn K t s (.handler h)
  | .nextSession => some { t with pool := t.pool.nextSession.1 }

end

/-- A new object: a client has its connection from the start. -/
def create (config : Config) (pool : IoObjectPool) : TcpObj β :=
  let t : TcpObj β := {
    config := config
    pool := pool
    conns := fun _ => none
    current := none
    accepts := 0
    call := []
    recv := none
    ran := []
    onlines := []
    stopped := true
    callbacks := []
    attempts := 0 }
  match config.serviceType with
  | .server => t
  | .client =>
      let (t, s) := t.createConnection
      { t with current := some s }

/-! ## Sessions -/

end TcpObj

/-- The session that an event is about. -/
def TcpEvent.session {β : Type} : TcpEvent β → Option SessionId
  | .eventRecv s _ => some s
  | .eventConnect s => some s
  | .eventCloseFun s => some s
  | .delSession s => some s
  | .start => none

def Callback.session {β : Type} : Callback β → SessionId
  | .callFun s _ => s
  | .connectFun s => s
  | .closeFun s => s

/-- What an object holds of one session: its connection, the events about it that wait
and that the running poll has gone through, the callbacks made for it, and whether it is
in `m_onlines`. -/
structure Session (β : Type) where
  conn : Option (ConnState β)
  queue : List (TcpEvent β)
  ran : List (TcpEvent β)
  callbacks : List (Callback β)
  online : Bool

/-- The event about session `s` that an effect of its connection is. -/
def TcpEvent.ofEffect {β : Type} (s : SessionId) : Effect β → List (TcpEvent β)
  | .eventPostRecv p => [.eventRecv s p]
  | .eventConnect => [.eventConnect s]
  | .eventClose => [.eventCloseFun s]
  | _ => []

/-- The events of the messages that a read completes. -/
theorem TcpEvent.ofEffect_messages {β : Type} (s : SessionId) (ps : List β) :
    (ps.map Effect.eventPostRecv).flatMap (TcpEvent.ofEffect s) = ps.map (.eventRecv s) := by
  rw [List.flatMap_map]
  exact List.map_eq_flatMap.symm

/-- One step as a session sees it, in an object of the given kind. -/
inductive Session.Move {β : Type} (flag : ServiceFlag) (s : SessionId) (a : TcpAction) :
    Session β → Session β → Prop where
  | same (x : Session β) : Move flag s a x x
  | created (x : Session β) (hnone : x.conn = none) :
      Move flag s a x { x with conn := some (ConnState.create s bufferSize) }
  | asked (x : Session β) {c c' : ConnState β} (hconn : x.conn = some c) (hasked : c.Asked c')
      (hconnecting : flag = .server → c'.connecting = c.connecting) :
      Move flag s a x { x with conn := some c' }
  | handled (x : Session β) {c c' : ConnState β} {h : Handler} {es : List (Effect β)}
      (ha : a = .handler s h) (hconn : x.conn = some c) (hout : c.Outcome h c' es) :
      Move flag s a x
        { x with conn := some c', queue := x.queue ++ es.flatMap (TcpEvent.ofEffect s) }
  | recv (x : Session β) {p : β} {q : List (TcpEvent β)} (hqueue : x.queue = .eventRecv s p :: q) :
      Move flag s a x
        { x with
          queue := q, ran := x.ran ++ [.eventRecv s p], callbacks := x.callbacks ++ [.callFun s p] }
  | connect (x : Session β) {q : List (TcpEvent β)} (hqueue : x.queue = .eventConnect s :: q) :
      Move flag s a x
        { x with
          queue := q, ran := x.ran ++ [.eventConnect s]
          callbacks := x.callbacks ++ [.connectFun s], online := true }
  | close (x : Session β) {q : List (TcpEvent β)} (hqueue : x.queue = .eventCloseFun s :: q) :
      Move flag s a x
        { x with
          queue := .delSession s :: q, ran := x.ran ++ [.eventCloseFun s]
          callbacks := x.callbacks ++ [.closeFun s] }
  | del (x : Session β) {q : List (TcpEvent β)} (hqueue : x.queue = .delSession s :: q) :
      Move flag s a x { x with queue := q, ran := x.ran ++ [.delSession s], online := false }
  | returned (x : Session β) (ha : a = .pollReturn) : Move flag s a x { x with ran := [] }

namespace TcpObj

variable {β : Type}

/-- The events that wait, in their order. -/
def pending (t : TcpObj β) : List (TcpEvent β) :=
  t.recv.getD [] ++ t.call

def session (t : TcpObj β) (s : SessionId) : Session β where
  conn := t.conns s
  queue := t.pending.filter fun e => e.session = some s
  ran := t.ran.filter fun e => e.session = some s
  callbacks := t.callbacks.filter fun c => c.session = s
  online := decide (s ∈ t.onlines)

/-- The session ids of the pool that have not been given out belong to no connection. -/
def Known (t : TcpObj β) : Prop :=
  ∀ s, t.pool.curSessionId < s → t.conns s = none

variable {K : BlockClass β} {t t' : TcpObj β} {s r : SessionId} {a : ConnAction}

/-- What a connection pushes is about its session, or about none. -/
theorem filter_pushed (t : TcpObj β) (s r : SessionId) (effects : List (Effect β)) :
    (effects.flatMap (t.pushed s)).filter (fun e => e.session = some r) =
      if r = s then (ConnState.events effects).flatMap (TcpEvent.ofEffect s) else [] := by
  by_cases hr : r = s
  · subst hr
    rw [if_pos rfl]
    induction effects with
    | nil => rfl
    | cons e es ih =>
        rw [List.flatMap_cons, List.filter_append, ih]
        cases e with
        | eventConnectFailed =>
            simp only [pushed]
            split
            · rfl
            · rfl
        | _ => simp [pushed, ConnState.events, TcpEvent.ofEffect, TcpEvent.session]
  · rw [if_neg hr]
    have hsr : s ≠ r := fun h => hr h.symm
    induction effects with
    | nil => rfl
    | cons e es ih =>
        rw [List.flatMap_cons, List.filter_append, ih, List.append_nil]
        cases e with
        | eventConnectFailed =>
            simp only [pushed]
            split
            · rfl
            · rfl
        | _ => simp [pushed, TcpEvent.session, hsr]

/-- Running a connection only changes its own session. -/
theorem session_runConn (h : runConn K t s a = some t') :
    ∃ c c' effects, t.conns s = some c ∧ c.step K a = some (c', effects) ∧
      t'.session s = { t.session s with
        conn := some c'
        queue := (t.session s).queue ++
          (ConnState.events effects).flatMap (TcpEvent.ofEffect s) } ∧
      ∀ r, r ≠ s → t'.session r = t.session r := by
  simp only [runConn, Option.bind_eq_bind, Option.bind_eq_some_iff, Option.some.injEq] at h
  rcases h with ⟨c, hc, ⟨c', effects⟩, hstep, rfl⟩
  refine ⟨c, c', effects, hc, hstep, ?_, ?_⟩
  · simp [session, pending, filter_pushed]
  · intro r hr
    simp [session, pending, filter_pushed, hr]

end TcpObj

/-! ## Requests -/

/-- What a request makes of a session: at most its connection is asked for something. -/
inductive Session.Asks {β : Type} (flag : ServiceFlag) (x : Session β) : Session β → Prop where
  | same : Asks flag x x
  | asked {c c' : ConnState β} (hconn : x.conn = some c) (hasked : c.Asked c')
      (hconnecting : flag = .server → c'.connecting = c.connecting) :
      Asks flag x { x with conn := some c' }

namespace Session

variable {β : Type} {flag : ServiceFlag} {x y z : Session β} {s : SessionId} {a : TcpAction}

theorem Asks.trans (h : Asks flag x y) (h' : Asks flag y z) : Asks flag x z := by
  cases h with
  | same => exact h'
  | @asked c c' hconn hasked hconnecting =>
      cases h' with
      | same => exact .asked hconn hasked hconnecting
      | @asked c₁ c'' hconn' hasked' hconnecting' =>
          cases hconn'
          refine .asked hconn ⟨?_, ?_, ?_, ?_, ?_, ?_⟩ ?_
          · exact hasked'.connected.trans hasked.connected
          · exact hasked'.messages.trans hasked.messages
          · exact hasked'.reading.trans hasked.reading
          · exact hasked'.writing.trans hasked.writing
          · exact fun h => hasked'.closeAsked (hasked.closeAsked h)
          · exact hasked.shared.trans hasked'.shared
          · exact fun h => (hconnecting' h).trans (hconnecting h)

theorem Asks.move (h : Asks flag x y) : Move flag s a x y := by
  cases h with
  | same => exact .same x
  | asked hconn hasked hconnecting => exact .asked x hconn hasked hconnecting

/-- Without a connection there is nothing to ask. -/
theorem Asks.eq_of_none (h : Asks flag x y) (hnone : x.conn = none) : y = x := by
  cases h with
  | same => rfl
  | asked hconn =>
      rw [hnone] at hconn
      cases hconn

theorem Asks.none_iff (h : Asks flag x y) : y.conn = none ↔ x.conn = none := by
  cases h with
  | same => exact Iff.rfl
  | asked hconn => simp [hconn]

end Session

namespace TcpObj

variable {β : Type} {K : BlockClass β} {t t' u : TcpObj β} {s : SessionId} {a : ConnAction}

/-- Connections are asked for something, and nothing else that a session can see. -/
structure Asks (t t' : TcpObj β) : Prop where
  config : t'.config = t.config
  curSessionId : t'.pool.curSessionId = t.pool.curSessionId
  session : ∀ r, Session.Asks t.config.serviceType (t.session r) (t'.session r)

theorem Asks.refl (t : TcpObj β) : t.Asks t :=
  ⟨rfl, rfl, fun _ => .same⟩

theorem Asks.trans (h : t.Asks t') (h' : t'.Asks u) : t.Asks u := by
  refine ⟨h'.config.trans h.config, h'.curSessionId.trans h.curSessionId, ?_⟩
  intro r
  have hr := h'.session r
  rw [h.config] at hr
  exact (h.session r).trans hr

/-- Whether a connection may be asked for something by an object of a kind: a server never
connects. -/
def MayAsk (flag : ServiceFlag) : ConnAction → Prop
  | .handler _ => False
  | .connect => flag = .client
  | _ => True

theorem MayAsk.ne_handler {flag : ServiceFlag} (ha : MayAsk flag a) (h : Handler) :
    a ≠ .handler h := by
  rintro rfl
  exact ha

/-- Only a client connects. -/
theorem MayAsk.connecting_eq (ha : MayAsk .server a) {c c' : ConnState β}
    {effects : List (Effect β)} (hstep : c.step K a = some (c', effects)) :
    c'.connecting = c.connecting := by
  have hopening := congrArg Prod.fst (ConnState.step_opening hstep)
  cases a with
  | handler h => exact ha.elim
  | connect => cases ha
  | _ => exact hopening

theorem frame_runConn (h : runConn K t s a = some t') :
    t'.config = t.config ∧ t'.pool = t.pool ∧ t'.onlines = t.onlines ∧ t'.recv = t.recv ∧
      t'.ran = t.ran ∧ t'.stopped = t.stopped ∧ t'.current = t.current ∧
      t'.attempts = t.attempts ∧ t'.accepts = t.accepts ∧ t'.callbacks = t.callbacks := by
  simp only [runConn, Option.bind_eq_bind, Option.bind_eq_some_iff, Option.some.injEq] at h
  rcases h with ⟨c, -, ⟨c', effects⟩, -, rfl⟩
  exact ⟨rfl, rfl, rfl, rfl, rfl, rfl, rfl, rfl, rfl, rfl⟩

/-- Running a connection neither creates one nor ends one. -/
theorem conns_runConn (h : runConn K t s a = some t') (r : SessionId) :
    t'.conns r = none ↔ t.conns r = none := by
  rcases session_runConn h with ⟨c, c', effects, hc, -, hsame, hother⟩
  by_cases hr : r = s
  · have hc' : t'.conns s = some c' := congrArg Session.conn hsame
    simp [hr, hc, hc']
  · have hconn : t'.conns r = t.conns r := congrArg Session.conn (hother r hr)
    rw [hconn]

theorem frame_runAll {ss : List SessionId} (h : runAll K t ss a = some t') :
    t'.config = t.config ∧ t'.current = t.current ∧ t'.accepts = t.accepts ∧
      ∀ r, t'.conns r = none ↔ t.conns r = none := by
  induction ss generalizing t with
  | nil =>
      cases h
      exact ⟨rfl, rfl, rfl, fun _ => Iff.rfl⟩
  | cons s ss ih =>
      rw [runAll, List.foldlM_cons, Option.bind_eq_bind, Option.bind_eq_some_iff] at h
      rcases h with ⟨mid, hmid, hrest⟩
      rcases frame_runConn hmid with ⟨hconfig, -, -, -, -, -, hcurrent, -, haccepts, -⟩
      rcases ih hrest with ⟨hconfig', hcurrent', haccepts', hconns'⟩
      refine ⟨hconfig'.trans hconfig, hcurrent'.trans hcurrent, haccepts'.trans haccepts, ?_⟩
      exact fun r => (hconns' r).trans (conns_runConn hmid r)

theorem asks_runConn (ha : MayAsk t.config.serviceType a) (h : runConn K t s a = some t') :
    t.Asks t' := by
  rcases frame_runConn h with ⟨hconfig, hpool, -⟩
  rcases session_runConn h with ⟨c, c', effects, hc, hstep, hsame, hother⟩
  rcases ConnState.step_asked ha.ne_handler hstep with ⟨hasked, hevents⟩
  refine ⟨hconfig, congrArg _ hpool, ?_⟩
  intro r
  by_cases hr : r = s
  · subst hr
    rw [hsame, hevents, List.flatMap_nil, List.append_nil]
    refine .asked hc hasked ?_
    intro hflag
    rw [hflag] at ha
    exact ha.connecting_eq hstep
  · rw [hother r hr]
    exact .same

theorem asks_runAll (ha : MayAsk t.config.serviceType a) {ss : List SessionId}
    (h : runAll K t ss a = some t') : t.Asks t' := by
  induction ss generalizing t with
  | nil =>
      cases h
      exact .refl _
  | cons s ss ih =>
      rw [runAll, List.foldlM_cons, Option.bind_eq_bind, Option.bind_eq_some_iff] at h
      rcases h with ⟨mid, hmid, hrest⟩
      have hasks := asks_runConn ha hmid
      rw [← hasks.config] at ha
      exact hasks.trans (ih ha hrest)

/-! ## Steps of a session -/

/-- What every step does to the sessions. -/
structure Steps (a : TcpAction) (t t' : TcpObj β) : Prop where
  config : t'.config = t.config
  known : t'.Known
  move : ∀ r, Session.Move t.config.serviceType r a (t.session r) (t'.session r)

variable {act : TcpAction}

theorem Asks.known (h : t.Asks t') (hk : t.Known) : t'.Known := by
  intro r hr
  rw [h.curSessionId] at hr
  exact (h.session r).none_iff.mpr (hk r hr)

theorem Asks.steps (h : t.Asks t') (hk : t.Known) : t.Steps act t' :=
  ⟨h.config, h.known hk, fun r => (h.session r).move⟩

/-- A connection is created with the next session id. -/
theorem session_createConnection (t : TcpObj β) (r : SessionId) :
    t.createConnection.1.session r =
      if r = t.pool.curSessionId + 1 then
        { t.session r with conn := some (ConnState.create r bufferSize) }
      else t.session r := by
  have hcreate : t.createConnection.1.session r = { t.session r with
      conn := Function.update t.conns (t.pool.curSessionId + 1)
        (some (ConnState.create (t.pool.curSessionId + 1) bufferSize)) r } := rfl
  rw [hcreate]
  split
  · rename_i hr
    rw [hr, Function.update_self]
  · rename_i hr
    rw [Function.update_of_ne hr]
    rfl

theorem known_createConnection (hk : t.Known) : t.createConnection.1.Known := by
  intro r hr
  have hlt : t.pool.curSessionId + 1 < r := hr
  have hne : r ≠ t.pool.curSessionId + 1 := Nat.ne_of_gt hlt
  have hnone := hk r (Nat.lt_of_succ_lt hlt)
  simpa [createConnection, IoObjectPool.nextSession, hne] using hnone

/-- A request may be followed by the next accept. -/
theorem Asks.steps_beginAccept (h : t.Asks t') (hk : t.Known) : t.Steps act t'.beginAccept := by
  have hknown := h.known hk
  unfold beginAccept
  split
  · exact h.steps hk
  · refine ⟨h.config, known_createConnection hknown, ?_⟩
    intro r
    have hsession := session_createConnection t' r
    split at hsession
    · rename_i hr
      have hnone : t'.conns r = none := hknown r (hr ▸ Nat.lt_succ_self _)
      have hsame : t'.session r = t.session r :=
        (h.session r).eq_of_none ((h.session r).none_iff.mp hnone)
      rw [hsame] at hsession
      change Session.Move _ r act (t.session r) (t'.createConnection.1.session r)
      rw [hsession]
      exact .created _ (hsame ▸ hnone)
    · change Session.Move _ r act (t.session r) (t'.createConnection.1.session r)
      rw [hsession]
      exact (h.session r).move

theorem steps_start {ok : Bool} (hk : u.Known) (hasks : u.Asks t) (h : start K t ok = some t') :
    u.Steps act t' := by
  have hstart : u.Asks { t with stopped := false } := hasks.trans ⟨rfl, rfl, fun _ => .same⟩
  unfold start doStart at h
  cases hflag : t.config.serviceType with
  | server =>
      simp only [hflag] at h
      split at h
      · cases h
        exact hstart.steps_beginAccept hk
      · cases h
        exact hstart.steps hk
  | client =>
      simp only [hflag] at h
      split at h
      · cases h
        exact hstart.steps hk
      · simp only [Option.bind_eq_bind, Option.bind_eq_some_iff, Option.some.injEq] at h
        rcases h with ⟨mid, hmid, rfl⟩
        have hconnect := asks_runConn (t := { t with stopped := false }) (a := .connect) hflag hmid
        have hcount : mid.Asks { mid with attempts := mid.attempts + 1 } :=
          ⟨rfl, rfl, fun _ => .same⟩
        exact (hstart.trans (hconnect.trans hcount)).steps hk

theorem asks_stop (h : stop K t = some t') : t.Asks t' := by
  simp only [stop, Option.bind_eq_bind, Option.bind_eq_some_iff] at h
  rcases h with ⟨mid, hmid, hstop⟩
  have hstopped : t.Asks { t with stopped := true } := ⟨rfl, rfl, fun _ => .same⟩
  have hall : t.Asks mid := hstopped.trans (asks_runAll (a := .close false) trivial hmid)
  unfold doStop at hstop
  split at hstop
  · split at hstop
    · cases hstop
    · exact hall.trans (asks_runConn (a := .close false) trivial hstop)
  · cases hstop
    exact hall

theorem steps_acceptSocket {error : NetErrorType} (hk : u.Known) (hasks : u.Asks t)
    (h : acceptSocket K t error = some t') : u.Steps act t' := by
  unfold acceptSocket at h
  split at h
  · cases h
    exact hasks.steps hk
  · split at h
    · cases h
      exact hasks.steps hk
    · simp only [Option.bind_eq_bind, Option.bind_eq_some_iff, Option.some.injEq] at h
      rcases h with ⟨mid, hmid, rfl⟩
      refine (hasks.trans (asks_runConn ?_ hmid)).steps_beginAccept hk
      cases error <;> trivial

/-- The event that runs next is the first that waits. -/
theorem queue_of_recv {e : TcpEvent β} {rest : List (TcpEvent β)} (h : t.recv = some (e :: rest))
    (r : SessionId) :
    (t.session r).queue =
      if e.session = some r then e :: (rest ++ t.call).filter (fun e => e.session = some r)
      else (rest ++ t.call).filter fun e => e.session = some r := by
  have hpending : t.pending = e :: (rest ++ t.call) := by
    rw [pending, h]
    rfl
  change t.pending.filter _ = _
  rw [hpending, List.filter_cons]
  simp only [decide_eq_true_eq]

/-- An event runs in the session that it is about. -/
theorem move_runEvent {e : TcpEvent β} {rest : List (TcpEvent β)}
    (hrecv : t.recv = some (e :: rest)) (he : e ≠ .start)
    (h : runEvent K { t with ran := t.ran ++ [e] } rest e = some t') (flag : ServiceFlag)
    (r : SessionId) : Session.Move flag r act (t.session r) (t'.session r) := by
  have hqueue := queue_of_recv hrecv r
  by_cases hr : e.session = some r
  · rw [if_pos hr] at hqueue
    cases e with
    | start => exact absurd rfl he
    | eventRecv s p =>
        cases hr
        cases h
        have hmove : Session.Move flag r act (t.session r) _ := .recv _ hqueue
        simpa [session, pending, TcpEvent.session, Callback.session] using hmove
    | eventConnect s =>
        cases hr
        cases h
        have hmove : Session.Move flag r act (t.session r) _ := .connect _ hqueue
        simpa [session, pending, TcpEvent.session, Callback.session] using hmove
    | eventCloseFun s =>
        cases hr
        cases h
        have hmove : Session.Move flag r act (t.session r) _ := .close _ hqueue
        simpa [session, pending, TcpEvent.session, Callback.session] using hmove
    | delSession s =>
        cases hr
        cases h
        have hmove : Session.Move flag r act (t.session r) _ := .del _ hqueue
        simpa [session, pending, TcpEvent.session, Callback.session] using hmove
  · have hsame : t'.session r = t.session r := by
      cases e with
      | start => exact absurd rfl he
      | eventRecv s p =>
          have hsr : s ≠ r := fun hsr => hr (congrArg some hsr)
          cases h
          simp [session, pending, hrecv, TcpEvent.session, Callback.session, hsr]
      | eventConnect s =>
          have hsr : s ≠ r := fun hsr => hr (congrArg some hsr)
          cases h
          simp [session, pending, hrecv, TcpEvent.session, Callback.session, hsr, hsr.symm]
      | eventCloseFun s =>
          have hsr : s ≠ r := fun hsr => hr (congrArg some hsr)
          cases h
          simp [session, pending, hrecv, TcpEvent.session, Callback.session, hsr]
      | delSession s =>
          have hsr : s ≠ r := fun hsr => hr (congrArg some hsr)
          cases h
          simp [session, pending, hrecv, TcpEvent.session, Callback.session, hsr, hsr.symm]
    rw [hsame]
    exact .same _

/-- No event but a start touches the connections. -/
theorem frame_runEvent {e : TcpEvent β} {rest : List (TcpEvent β)} (he : e ≠ .start)
    (h : runEvent K t rest e = some t') :
    t'.config = t.config ∧ t'.conns = t.conns ∧ t'.call = t.call ∧ t'.stopped = t.stopped ∧
      t'.current = t.current ∧ t'.attempts = t.attempts ∧
      t'.pool.curSessionId = t.pool.curSessionId := by
  cases e with
  | start => exact absurd rfl he
  | _ =>
      cases h
      exact ⟨rfl, rfl, rfl, rfl, rfl, rfl, rfl⟩

theorem steps_event (hk : t.Known) (h : event K t = some t') : t.Steps act t' := by
  unfold event at h
  split at h
  · rename_i e rest hrecv
    by_cases he : e = .start
    · subst he
      have hasks : t.Asks { t with ran := t.ran ++ [.start], recv := some rest } := by
        refine ⟨rfl, rfl, ?_⟩
        intro r
        have hsame : session { t with ran := t.ran ++ [.start], recv := some rest } r =
            t.session r := by
          simp [session, pending, hrecv, TcpEvent.session]
        rw [hsame]
        exact .same
      exact steps_start hk hasks h
    · rcases frame_runEvent he h with ⟨hconfig, hconns, -, -, -, -, hpool⟩
      refine ⟨hconfig, ?_, move_runEvent hrecv he h _⟩
      intro r hr
      rw [hpool] at hr
      rw [hconns]
      exact hk r hr
  · cases h

/-- A handler runs in the session of its connection. -/
theorem steps_handler {h : Handler} (hk : t.Known) (hrun : runConn K t s (.handler h) = some t') :
    t.Steps (.handler s h) t' := by
  rcases frame_runConn hrun with ⟨hconfig, hpool, -⟩
  rcases session_runConn hrun with ⟨c, c', effects, hc, hstep, hsame, hother⟩
  refine ⟨hconfig, ?_, ?_⟩
  · intro r hr
    rw [hpool] at hr
    have hnone := hk r hr
    have hrs : r ≠ s := by
      rintro rfl
      rw [hc] at hnone
      cases hnone
    exact (congrArg Session.conn (hother r hrs)).trans hnone
  · intro r
    by_cases hr : r = s
    · subst hr
      rw [hsame]
      exact .handled _ rfl hc (ConnState.step_outcome hstep)
    · rw [hother r hr]
      exact .same _

/-- All that a step can do. -/
inductive StepCases (K : BlockClass β) (t : TcpObj β) : TcpAction → TcpObj β → Prop where
  | start {ok : Bool} {t' : TcpObj β} (hstart : start K t ok = some t') :
      StepCases K t (.start ok) t'
  | stop {t' : TcpObj β} (hstop : stop K t = some t') : StepCases K t .stop t'
  | unknown {act : TcpAction} {s : SessionId} (hs : t.pool.session s = false)
      (hact : act = .kick s ∨ ∃ p, act = .send s p) : StepCases K t act t
  | kick {s : SessionId} {t' : TcpObj β} (hs : t.pool.session s = true)
      (hrun : runConn K t s (.close false) = some t') : StepCases K t (.kick s) t'
  | send {s : SessionId} {p : {p : NetBuffer // p.Valid}} {t' : TcpObj β}
      (hs : t.pool.session s = true) (hrun : runConn K t s (.send p) = some t') :
      StepCases K t (.send s p) t'
  | sendAll {p : {p : NetBuffer // p.Valid}} {t' : TcpObj β}
      (hrun : runAll K t t.onlines (.send p) = some t') : StepCases K t (.sendAll p) t'
  | poll (hrecv : t.recv = none) :
      StepCases K t .poll { t with recv := some t.call, call := [] }
  | event {t' : TcpObj β} (hevent : event K t = some t') : StepCases K t .event t'
  | pollReturn (hrecv : t.recv = some []) :
      StepCases K t .pollReturn { t with recv := none, ran := [] }
  | acceptSocket {error : NetErrorType} {t' : TcpObj β} (hpos : 0 < t.accepts)
      (haccept : acceptSocket K { t with accepts := t.accepts - 1 } error = some t') :
      StepCases K t (.acceptSocket error) t'
  | handler {s : SessionId} {h : Handler} {t' : TcpObj β}
      (hrun : runConn K t s (.handler h) = some t') : StepCases K t (.handler s h) t'
  | nextSession : StepCases K t .nextSession { t with pool := t.pool.nextSession.1 }

theorem step_cases (h : step K t act = some t') : StepCases K t act t' := by
  cases act with
  | start ok => exact .start h
  | stop => exact .stop h
  | kick s =>
      simp only [step] at h
      split at h
      · rename_i hs
        exact .kick hs h
      · rename_i hs
        cases h
        exact .unknown (Bool.eq_false_of_not_eq_true hs) (Or.inl rfl)
  | send s p =>
      simp only [step] at h
      split at h
      · rename_i hs
        exact .send hs h
      · rename_i hs
        cases h
        exact .unknown (Bool.eq_false_of_not_eq_true hs) (Or.inr ⟨p, rfl⟩)
  | sendAll p => exact .sendAll h
  | poll =>
      simp only [step] at h
      split at h
      · rename_i hrecv
        cases h
        exact .poll hrecv
      · cases h
  | event => exact .event h
  | pollReturn =>
      simp only [step] at h
      split at h
      · rename_i hrecv
        cases h
        exact .pollReturn hrecv
      · cases h
  | acceptSocket error =>
      simp only [step] at h
      split at h
      · cases h
      · rename_i hpos
        exact .acceptSocket (Nat.pos_of_ne_zero hpos) h
  | handler s h' => exact .handler h
  | nextSession =>
      cases h
      exact .nextSession

/-- Taking the list of events over and returning leave the events that wait. -/
theorem pending_poll (hrecv : t.recv = none) :
    pending { t with recv := some t.call, call := [] } = t.pending := by
  simp [pending, hrecv]

theorem pending_pollReturn (hrecv : t.recv = some []) :
    pending { t with recv := none, ran := [] } = t.pending := by
  simp [pending, hrecv]

/-- Each step of an object is a step of every session. -/
theorem step_session (hk : t.Known) (h : step K t act = some t') : t.Steps act t' := by
  cases step_cases h with
  | start hstart => exact steps_start hk (.refl t) hstart
  | stop hstop => exact (asks_stop hstop).steps hk
  | unknown => exact (Asks.refl t).steps hk
  | kick hs hrun => exact (asks_runConn (a := .close false) trivial hrun).steps hk
  | @send s p _ hs hrun => exact (asks_runConn (a := .send p) trivial hrun).steps hk
  | @sendAll p _ hrun => exact (asks_runAll (a := .send p) trivial hrun).steps hk
  | poll hrecv =>
      refine ⟨rfl, hk, ?_⟩
      intro r
      have hsame : session { t with recv := some t.call, call := [] } r = t.session r := by
        rw [session, pending_poll hrecv]
        rfl
      rw [hsame]
      exact .same _
  | event hevent => exact steps_event hk hevent
  | pollReturn hrecv =>
      refine ⟨rfl, hk, ?_⟩
      intro r
      have hreturned : session { t with recv := none, ran := [] } r =
          { t.session r with ran := [] } := by
        rw [session, pending_pollReturn hrecv]
        rfl
      rw [hreturned]
      exact .returned _ rfl
  | acceptSocket hpos haccept =>
      have hasks : t.Asks { t with accepts := t.accepts - 1 } := ⟨rfl, rfl, fun _ => .same⟩
      exact steps_acceptSocket hk hasks haccept
  | handler hrun => exact steps_handler hk hrun
  | nextSession =>
      refine ⟨rfl, ?_, fun r => .same _⟩
      intro r hr
      exact hk r (Nat.lt_of_succ_lt hr)

/-! ## Runs -/

variable {config : Config} {pool : IoObjectPool}

theorem config_create : (create config pool : TcpObj β).config = config := by
  unfold create
  cases config.serviceType <;> rfl

theorem known_create : (create config pool : TcpObj β).Known := by
  unfold create
  cases config.serviceType with
  | server =>
      intro r _
      rfl
  | client => exact known_createConnection fun r _ => rfl

/-- At the start of a session at most its connection is there. -/
theorem session_create (config : Config) (pool : IoObjectPool) (r : SessionId) :
    ∃ conn, (conn = none ∨ conn = some (ConnState.create r bufferSize)) ∧
      (create config pool : TcpObj β).session r = ⟨conn, [], [], [], false⟩ := by
  unfold create
  cases config.serviceType with
  | server => exact ⟨none, Or.inl rfl, rfl⟩
  | client =>
      by_cases hr : r = pool.curSessionId + 1
      · subst hr
        refine ⟨some (ConnState.create (pool.curSessionId + 1) bufferSize), Or.inr rfl, ?_⟩
        simp [createConnection, IoObjectPool.nextSession, session, pending]
      · refine ⟨none, Or.inl rfl, ?_⟩
        simp [createConnection, IoObjectPool.nextSession, session, pending, hr]

theorem known_run {as : List TcpAction} (h : run (step K) (create config pool) as = some t) :
    t.Known :=
  run_invariant (fun _ _ _ hk hstep => (step_session hk hstep).known) known_create h

/-- What holds of every session at the start and is kept by the steps that meet a condition
holds of every session after every run of such steps. -/
theorem run_session {J : SessionId → Session β → Prop} {P : TcpObj β → TcpAction → Prop}
    (hstart : ∀ r conn, conn = none ∨ conn = some (ConnState.create r bufferSize) →
      J r ⟨conn, [], [], [], false⟩)
    (hmove : ∀ t a r y, P t a → J r (t.session r) →
      Session.Move config.serviceType r a (t.session r) y → J r y)
    {as : List TcpAction} (hP : Along (step K) P (create config pool) as)
    (h : run (step K) (create config pool) as = some t) (r : SessionId) : J r (t.session r) := by
  have hinv : t.config = config ∧ t.Known ∧ ∀ r, J r (t.session r) := by
    refine run_invariant_of_along (I := fun t => t.config = config ∧ t.Known ∧
      ∀ r, J r (t.session r)) (P := P) ?_ ⟨config_create, known_create, ?_⟩ hP h
    · rintro u act v ⟨hconfig, hk, hJ⟩ hPu hstep
      have hsteps := step_session hk hstep
      refine ⟨hsteps.config.trans hconfig, hsteps.known, ?_⟩
      intro r
      exact hmove u act r _ hPu (hJ r) (hconfig ▸ hsteps.move r)
    · intro r
      rcases session_create (β := β) config pool r with ⟨conn, hconn, heq⟩
      rw [heq]
      exact hstart r conn hconn
  exact hinv.2.2 r

end TcpObj

end FannyNet

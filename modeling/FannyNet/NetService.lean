import FannyNet.TcpObject
import Mathlib.Data.Finset.Basic
import Mathlib.Data.List.AList
import Mathlib.Data.Multiset.AddSub

/-!
# `NetService`, several nets over one pool

The registry of nets by name, and what they share: the session ids and the pool's table of
connections.  That table holds weak references, which find a connection as long as
something else keeps it: a net, an event, or a handler that is under way.

A poll is not one step here.  Its events are steps, between which handlers push new
events, other nets are polled, and a callback may poll once more; when a callback throws,
the rest of the list is dropped.

Main results:

- Definitions `NetService.add` and `NetService.remove`: the registry.
- Definition `NetService.session`: the table, and the connections that are kept.
- Definition `NetService.step`: requests, events and handlers, in any order.
-/

namespace FannyNet

open Library

/-- `std::string`, as a name of a net. -/
abbrev NetName := Bytes

/-- What a net looks at in its `NetProperty`. -/
structure NetProperty where
  name : NetName
  address : Bytes
  config : Config
deriving DecidableEq, Repr

/-- The lookup of host names and the reading of addresses, `gethostbyname` of the system and
`address_v4::from_string` of boost, which throws where there is none here. -/
class HostNames where
  gethostbyname : Bytes → Option Bytes
  fromString : Bytes → Option Bytes

/-- The address of a client's `m_endpoint`. -/
def NetProperty.endpoint [HostNames] (p : NetProperty) : Option Bytes :=
  (HostNames.gethostbyname p.address).or (HostNames.fromString p.address)

/-- A system that knows no host and no address. -/
abbrev noHosts : HostNames :=
  ⟨fun _ => none, fun _ => none⟩

/-- A server on some port. -/
def aServer : NetProperty :=
  ⟨text "a", [], ⟨.server, false⟩⟩

namespace NetService

/-- A connection is known by its place among all that were created. -/
abbrev ConnectPtr := Nat

/-- What a `Connection` keeps of its origin: its session id, and the net its events go to. -/
structure Origin where
  session : SessionId
  net : NetName
deriving DecidableEq, Repr

/-- `IoObjectPool`, with its table of weak references. -/
structure IoObjectPool where
  curSessionId : SessionId
  onlines : AList fun _ : SessionId => ConnectPtr
deriving DecidableEq

/-- `TcpEvent`.  `delSession` is what is left of an `eventCloseFun` behind its callback; the
message of an `eventRecv` plays no part here. -/
inductive TcpEvent where
  | eventRecv
  | eventConnect (c : ConnectPtr)
  | eventCloseFun (c : ConnectPtr)
  | delSession (c : ConnectPtr)
  | start
deriving DecidableEq, Repr

/-- The connection that an event keeps. -/
def TcpEvent.conn : TcpEvent → Option ConnectPtr
  | .eventConnect c => some c
  | .eventCloseFun c => some c
  | .delSession c => some c
  | _ => none

/-- The list of a running poll: what it has gone through, which lives until the poll
returns, and what is left. -/
structure Polling where
  ran : List TcpEvent
  todo : List TcpEvent
deriving DecidableEq, Repr

/-- A `TcpObj`.  `current` is `m_current` of a server and `m_session` of a client. -/
structure NetObject where
  property : NetProperty
  current : Option ConnectPtr
  call : List TcpEvent
  polls : List Polling
  onlines : Finset ConnectPtr
  stopped : Bool
deriving DecidableEq

/-- The events that a net keeps. -/
def NetObject.events (net : NetObject) : List TcpEvent :=
  net.call ++ net.polls.flatMap fun p => p.ran ++ p.todo

/-- A net keeps a connection: as its current one, as one that is online, or in an event. -/
def NetObject.Keeps (net : NetObject) (c : ConnectPtr) : Prop :=
  net.current = some c ∨ c ∈ net.onlines ∨ ∃ e ∈ net.events, e.conn = some c

instance (net : NetObject) (c : ConnectPtr) : Decidable (net.Keeps c) :=
  inferInstanceAs (Decidable (_ ∨ _ ∨ _))

end NetService

open NetService in
/-- The service: the connections created so far, the pool, the nets, and the references
that handlers hold. -/
structure NetService where
  conns : List Origin
  pool : NetService.IoObjectPool
  nets : AList fun _ : NetName => NetObject
  handlers : Multiset ConnectPtr
deriving DecidableEq

namespace NetService

def create : NetService :=
  ⟨[], ⟨0, ∅⟩, ∅, 0⟩

/-- The session id of a connection. -/
def id (t : NetService) (c : ConnectPtr) : SessionId :=
  (t.conns[c]?.map Origin.session).getD 0

/-- A connection that something keeps. -/
def Alive (t : NetService) (c : ConnectPtr) : Prop :=
  c ∈ t.handlers ∨ ∃ x ∈ t.nets.entries, x.2.Keeps c

instance (t : NetService) (c : ConnectPtr) : Decidable (t.Alive c) :=
  inferInstanceAs (Decidable (_ ∨ _))

/-! ## The pool -/

def nextSession (t : NetService) : NetService × SessionId :=
  ({ t with pool := { t.pool with curSessionId := t.pool.curSessionId + 1 } },
    t.pool.curSessionId + 1)

def addSession (t : NetService) (c : ConnectPtr) : NetService :=
  { t with pool := { t.pool with onlines := t.pool.onlines.insert (t.id c) c } }

def delSession (t : NetService) (c : ConnectPtr) : NetService :=
  { t with pool := { t.pool with onlines := t.pool.onlines.erase (t.id c) } }

/-- The connection of a session, unless its weak reference has expired. -/
def session (t : NetService) (s : SessionId) : Option ConnectPtr :=
  (t.pool.onlines.lookup s).filter fun c => t.Alive c

def hasOnline (t : NetService) : Bool :=
  !t.pool.onlines.entries.isEmpty

/-! ## Nets -/

/-- A net is replaced under its name. -/
def setNet (t : NetService) (name : NetName) (net : NetObject) : NetService :=
  { t with nets := t.nets.insert name net }

/-- A handler that holds a reference is posted. -/
def post (t : NetService) (c : ConnectPtr) : NetService :=
  { t with handlers := c ::ₘ t.handlers }

def createConnection (t : NetService) (name : NetName) : NetService × ConnectPtr :=
  let (t, s) := t.nextSession
  ({ t with conns := t.conns ++ [⟨s, name⟩] }, t.conns.length)

def beginAccept (t : NetService) (name : NetName) (net : NetObject) : NetService :=
  if net.stopped then t
  else
    let (t, c) := t.createConnection name
    t.setNet name { net with current := some c }

def acceptSocket (t : NetService) (name : NetName) (net : NetObject) : NetService :=
  if net.stopped then t
  else
    match net.current with
    | none => t
    -- `postAccept` and `onError` both post a handler of the connection
    | some c => (t.post c).beginAccept name net

/-- `start`; the socket of a server is opened, bound and listened on with or without success.
The connect of a client keeps no reference. -/
def start (t : NetService) (name : NetName) (net : NetObject) (ok : Bool) : NetService :=
  let net := { net with stopped := false }
  let t := t.setNet name net
  match net.property.config.serviceType with
  | .server => if ok then t.beginAccept name net else t
  | .client => t

/-- `stop`; a server has to have a current connection. -/
def stop (t : NetService) (name : NetName) (net : NetObject) : Option NetService :=
  let t := t.setNet name { net with stopped := true }
  let t := { t with handlers := net.onlines.val + t.handlers }
  match net.property.config.serviceType with
  | .server => net.current.map t.post
  | .client => some t

/-- `TcpObj::create` for the property `p`: a client has its connection from the start, and
its constructor throws when its address cannot be read. -/
def createNet [HostNames] (t : NetService) (p : NetProperty) : NetService × Option NetObject :=
  match p.config.serviceType with
  | .server => (t, some ⟨p, none, [], [], ∅, true⟩)
  | .client =>
      let (t, c) := t.createConnection p.name
      match p.endpoint with
      | none => (t, none)
      | some _ => (t, some ⟨p, some c, [], [], ∅, true⟩)

/-! ## The registry -/

/-- `add(p)`, which returns nothing when it throws. -/
def add [HostNames] (t : NetService) (p : NetProperty) : NetService × Option Bool :=
  match t.nets.lookup p.name with
  | some _ => (t, some false)
  | none =>
      match t.createNet p with
      | (t, none) => (t, none)
      | (t, some net) => (t.setNet p.name net, some true)

/-- `remove(name)`.  It goes on where there is no such net, and then reads what the end of
the map points to. -/
def remove (t : NetService) (name : NetName) : Option (NetService × Bool) :=
  match t.nets.lookup name with
  | some _ => some (t, false)
  | none => none

/-- `kick(s)`. -/
def kick (t : NetService) (s : SessionId) : NetService :=
  match t.session s with
  | some c => t.post c
  | none => t

/-! ## Polling -/

/-- An event of the net `name` runs; what is left of it, if its callback comes first. -/
def runEvent (t : NetService) (name : NetName) (net : NetObject) : TcpEvent → NetService
  | .eventConnect c => (t.addSession c).setNet name { net with onlines := insert c net.onlines }
  | .delSession c => (t.delSession c).setNet name { net with onlines := net.onlines.erase c }
  | .start => t.start name net true
  | _ => t

/-- What is left to do of an event behind its callback. -/
def TcpEvent.rest : TcpEvent → List TcpEvent
  | .eventCloseFun c => [.delSession c]
  | _ => []

/-- The next event of a poll. -/
def event (t : NetService) (name : NetName) (net : NetObject) (i : Nat) : Option NetService :=
  match net.polls[i]? with
  | some ⟨ran, e :: todo⟩ =>
      let net := { net with polls := net.polls.set i ⟨ran ++ [e], e.rest ++ todo⟩ }
      some ((t.setNet name net).runEvent name net e)
  | _ => none

/-- What can happen next: a request of the user, a part of a poll, an accept, or what the
handlers of a connection do. -/
inductive Action where
  | add (p : NetProperty)
  | start (name : NetName) (ok : Bool)
  | stop (name : NetName)
  | kick (s : SessionId)
  | poll (name : NetName)
  | event (name : NetName) (i : Nat)
  | leave (name : NetName) (i : Nat)
  | acceptSocket (name : NetName)
  | push (name : NetName) (e : TcpEvent)
  | post (c : ConnectPtr)
  | handled (c : ConnectPtr)
deriving DecidableEq, Repr

/-- An event that a handler may push: it belongs to a connection of the net. -/
def MayPush (t : NetService) (name : NetName) (e : TcpEvent) : Prop :=
  ∀ c ∈ e.conn, t.Alive c ∧ (t.conns[c]?.map Origin.net) = some name

instance (t : NetService) (name : NetName) (e : TcpEvent) : Decidable (t.MayPush name e) :=
  inferInstanceAs (Decidable (∀ c ∈ e.conn, _))

/-- A request, a part of a poll, an accept, or a part of a handler. -/
def step [HostNames] (t : NetService) : Action → Option NetService
  | .add p => some (t.add p).1
  | .start name ok => (t.nets.lookup name).map fun net => t.start name net ok
  | .stop name => (t.nets.lookup name).bind fun net => t.stop name net
  | .kick s => some (t.kick s)
  | .poll name =>
      (t.nets.lookup name).map fun net =>
        t.setNet name { net with call := [], polls := ⟨[], net.call⟩ :: net.polls }
  | .event name i => (t.nets.lookup name).bind fun net => t.event name net i
  -- the poll returns, or an exception of a callback leaves it
  | .leave name i =>
      (t.nets.lookup name).map fun net =>
        t.setNet name { net with polls := net.polls.eraseIdx i }
  | .acceptSocket name => (t.nets.lookup name).map fun net => t.acceptSocket name net
  | .push name e =>
      if t.MayPush name e then
        (t.nets.lookup name).map fun net => t.setNet name { net with call := net.call ++ [e] }
      else none
  | .post c => if t.Alive c then some (t.post c) else none
  | .handled c => some { t with handlers := t.handlers.erase c }

end NetService

end FannyNet

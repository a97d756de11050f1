import FannyNet.Answers
import FannyNet.Link

/-!
# Two objects and a session between them

A connection of one object and a connection of another are the two ends of one transport.  Both
objects go on with everything else: other connections, polls, requests of their users.

Main results:

- Definition `Peers.step`: a step of one of the objects, or of the transport.
- Theorem `Peers.step_link`: for the two connections it is a number of steps of their link.
- Theorem `Peers.messages_passed_on`: what is passed to the callbacks at one end is, in order and
  each once, the beginning of what the user of the other end sent to the session.
-/

namespace FannyNet

open Library Library.Transition Library.Decoder

/-- Two objects, and the transport that each end of the session between them writes to. -/
structure Peers (β : Type) where
  obj : Side → TcpObj β
  wire : Side → Wire UInt8

/-- The transport takes bytes, or one of the objects takes a step. -/
inductive PeersAction where
  | carry (x : Side) (n : Nat)
  | act (x : Side) (a : TcpAction)

/-- The step of the object at an end. -/
def PeersAction.at (x : Side) : PeersAction → Option TcpAction
  | .carry _ _ => none
  | .act y a => if y = x then some a else none

namespace Peers

variable {β : Type}

/-- Two new objects. -/
def create (config : Side → Config) (pool : Side → IoObjectPool) : Peers β where
  obj x := TcpObj.create (config x) (pool x)
  wire _ := Wire.idle

section
variable (K : BlockClass β) (sid : Side → SessionId)

/-- The connections of the session, with the transport between them. -/
def link (p : Peers β) : Link β where
  conn x := (p.obj x).conn (sid x)
  wire := p.wire

/-- The transports behind a step of one object: only the handlers of the session between the two
use them. -/
def transports (p : Peers β) (x : Side) : TcpAction → Option (Wire UInt8 × Wire UInt8)
  | .handler s h =>
      if s = sid x then do
        let own ← ((p.obj x).conn s).sendPath.writesTo (p.wire x) (.handler h)
        let others ← (ConnAction.handler h).readsFrom (p.wire x.other)
        some (own, others)
      else some (p.wire x, p.wire x.other)
  | _ => some (p.wire x, p.wire x.other)

def step (p : Peers β) : PeersAction → Option (Peers β)
  | .carry x n =>
      if (p.wire x).broken then none else some { p with wire := ((p.link sid).carry x n).wire }
  | .act x a => do
      let o ← (p.obj x).step K a
      let (own, others) ← p.transports sid x a
      some {
        obj := Function.update p.obj x o
        wire := Function.update (Function.update p.wire x own) x.other others }

/-- What a step is for the link. -/
def linkActions (p : Peers β) : PeersAction → List LinkAction
  | .carry x n => [.carry x n]
  | .act x a => ((p.obj x).calls (sid x) a).map (.act x)

/-- The session comes up at most once at each end. -/
def ComesUpOnce (p : Peers β) : PeersAction → Prop
  | .act x (.handler s h) => s = sid x → ¬ ((p.obj x).conn s).Reopens (.handler h)
  | _ => True

end

variable {K : BlockClass β} {sid : Side → SessionId} {config : Side → Config}
  {pool : Side → IoObjectPool} {p p' : Peers β}

/-! ## Calls on one end of a link -/

/-- A call from outside uses no transport. -/
theorem transports_of_call {a : ConnAction} (ha : ∀ h, a ≠ .handler h) (s : SendPath)
    (w : Wire UInt8) : s.writesTo w a = some w ∧ a.readsFrom w = some w := by
  cases a with
  | handler h => exact absurd rfl (ha h)
  | _ => exact ⟨rfl, rfl⟩

theorem act_of_call {l : Link β} {x : Side} {a : ConnAction} {c : ConnState β}
    (ha : ∀ h, a ≠ .handler h) (hc : (l.conn x).next K a = some c) :
    l.act K x a = some { l with conn := Function.update l.conn x c } := by
  rcases transports_of_call ha (l.conn x).sendPath (l.wire x) with ⟨hown, -⟩
  rcases transports_of_call ha (l.conn x).sendPath (l.wire x.other) with ⟨-, hothers⟩
  rw [Link.act, hc, hown, hothers]
  simp

/-- Calls from outside only change the connection that they are made on. -/
theorem run_of_calls {l : Link β} {x : Side} {as : List ConnAction} {c : ConnState β}
    (has : ∀ a ∈ as, ∀ h, a ≠ .handler h)
    (hrun : run (ConnState.next K) (l.conn x) as = some c) :
    run (Link.step K) l (as.map (.act x)) =
      some { l with conn := Function.update l.conn x c } := by
  induction as generalizing l with
  | nil =>
      rw [run_nil, Option.some.injEq] at hrun
      rw [← hrun, Function.update_eq_self]
      rfl
  | cons a as ih =>
      rw [List.forall_mem_cons] at has
      rcases run_cons.mp hrun with ⟨mid, hmid, hrest⟩
      rw [List.map_cons, run_cons]
      refine ⟨_, act_of_call has.1 hmid, ?_⟩
      rw [ih has.2 (l := { l with conn := Function.update l.conn x mid })
        (by simpa using hrest)]
      simp

/-! ## Steps -/

theorem act_eq_some {x : Side} {a : TcpAction} (h : p.step K sid (.act x a) = some p') :
    ∃ o own others, (p.obj x).step K a = some o ∧
      p.transports sid x a = some (own, others) ∧
      p'.obj = Function.update p.obj x o ∧
      p'.wire = Function.update (Function.update p.wire x own) x.other others := by
  simp only [step, Option.bind_eq_bind, Option.bind_eq_some_iff, Option.some.injEq] at h
  rcases h with ⟨o, ho, ⟨own, others⟩, hwires, rfl⟩
  exact ⟨o, own, others, ho, hwires, rfl, rfl⟩

/-- Only the connection at the end that steps changes. -/
theorem link_update {x : Side} {o : TcpObj β} (hobj : p'.obj = Function.update p.obj x o) :
    (p'.link sid).conn = Function.update (p.link sid).conn x (o.conn (sid x)) := by
  funext y
  change (p'.obj y).conn (sid y) = _
  rw [hobj]
  by_cases hy : y = x
  · subst hy
    rw [Function.update_self, Function.update_self]
  · rw [Function.update_of_ne hy, Function.update_of_ne hy]
    rfl

/-- A step of the two objects is, for their link, the steps that it makes there. -/
theorem step_link {a : PeersAction} (hk : ∀ x, (p.obj x).Known)
    (h : p.step K sid a = some p') :
    run (Link.step K) (p.link sid) (p.linkActions sid a) = some (p'.link sid) := by
  cases a with
  | carry x n =>
      simp only [step, Option.ite_none_left_eq_some, Option.some.injEq] at h
      rcases h with ⟨hworks, rfl⟩
      exact run_cons.mpr ⟨_, if_neg hworks, rfl⟩
  | act x a =>
      rcases act_eq_some h with ⟨o, own, others, ho, hwires, hobj, hwire⟩
      have hcalls := TcpObj.step_calls (hk x) ho (sid x)
      have hlink : p'.link sid =
          ⟨Function.update (p.link sid).conn x (o.conn (sid x)), p'.wire⟩ := by
        rw [← link_update hobj]
        rfl
      rw [hlink, linkActions]
      by_cases hown : ∃ handler, a = .handler (sid x) handler
      · -- a handler of the session between the two
        rcases hown with ⟨handler, rfl⟩
        simp only [transports, if_true, Option.bind_eq_bind, Option.bind_eq_some_iff,
          Option.some.injEq, Prod.mk.injEq] at hwires
        rcases hwires with ⟨w, hw, w', hw', rfl, rfl⟩
        simp only [TcpObj.calls, if_true] at hcalls ⊢
        rcases run_cons.mp hcalls with ⟨c, hc, hlast⟩
        rw [run_nil, Option.some.injEq] at hlast
        rw [hlast] at hc
        rw [List.map_singleton, run_cons]
        refine ⟨_, ?_, rfl⟩
        change (p.link sid).act K x (.handler handler) = _
        rw [Link.act]
        change (((p.obj x).conn (sid x)).next K (.handler handler)).bind _ = _
        rw [hc]
        change (((p.obj x).conn (sid x)).sendPath.writesTo (p.wire x) (.handler handler)).bind _ = _
        rw [hw]
        change ((ConnAction.handler handler).readsFrom (p.wire x.other)).bind _ = _
        rw [hw', hwire]
        rfl
      · -- calls from outside, if any
        have hquiet : ∀ b ∈ (p.obj x).calls (sid x) a, ∀ handler, b ≠ .handler handler := by
          intro b hb
          rcases TcpObj.calls_spec hb with hcall | ⟨handler, ha, -⟩
          · exact hcall
          · exact absurd ⟨handler, ha⟩ hown
        have hsame : own = p.wire x ∧ others = p.wire x.other := by
          cases a with
          | handler s handler =>
              have hs : s ≠ sid x := fun heq => hown ⟨handler, heq ▸ rfl⟩
              simp only [transports, if_neg hs, Option.some.injEq, Prod.mk.injEq] at hwires
              exact ⟨hwires.1.symm, hwires.2.symm⟩
          | _ =>
              simp only [transports, Option.some.injEq, Prod.mk.injEq] at hwires
              exact ⟨hwires.1.symm, hwires.2.symm⟩
        rw [hsame.1, hsame.2, Function.update_eq_self, Function.update_eq_self] at hwire
        rw [hwire]
        exact run_of_calls hquiet hcalls

/-! ## Runs -/

/-- Each object takes steps of its own. -/
theorem run_obj {as : List PeersAction} (h : run (step K sid) p as = some p') (x : Side) :
    run (TcpObj.step K) (p.obj x) (as.filterMap (PeersAction.at x)) = some (p'.obj x) := by
  induction as generalizing p with
  | nil =>
      cases h
      rfl
  | cons a as ih =>
      rcases run_cons.mp h with ⟨mid, hmid, hrest⟩
      have hmore := ih hrest
      cases a with
      | carry y n =>
          simp only [step, Option.ite_none_left_eq_some, Option.some.injEq] at hmid
          rcases hmid with ⟨-, rfl⟩
          exact hmore
      | act y a =>
          rcases act_eq_some hmid with ⟨o, -, -, ho, -, hobj, -⟩
          rw [hobj] at hmore
          by_cases hy : y = x
          · subst hy
            have hat : PeersAction.at y (.act y a) = some a := if_pos rfl
            rw [Function.update_self] at hmore
            rw [List.filterMap_cons_some hat]
            exact run_cons.mpr ⟨o, ho, hmore⟩
          · have hat : PeersAction.at x (.act y a) = none := if_neg hy
            rw [Function.update_of_ne (fun heq => hy heq.symm)] at hmore
            rw [List.filterMap_cons_none hat]
            exact hmore

theorem known_step {a : PeersAction} (hk : ∀ x, (p.obj x).Known)
    (h : p.step K sid a = some p') (x : Side) : (p'.obj x).Known := by
  have hrun := run_obj (run_cons.mpr ⟨p', h, rfl⟩ : run (step K sid) p [a] = some p') x
  exact run_invariant (fun _ _ _ hk hstep => (TcpObj.step_session hk hstep).known) (hk x) hrun

/-- The connections of the session come up once when their objects bring them up once. -/
theorem along_linkActions (p : Peers β) {a : PeersAction} (ha : p.ComesUpOnce sid a) :
    Along (Link.step K) Link.ComesUpOnce (p.link sid) (p.linkActions sid a) := by
  cases a with
  | carry x n => exact ⟨trivial, fun _ _ => trivial⟩
  | act x a =>
      by_cases hown : ∃ handler, a = .handler (sid x) handler
      · rcases hown with ⟨handler, rfl⟩
        simp only [linkActions, TcpObj.calls, if_true]
        exact ⟨ha rfl, fun _ _ => trivial⟩
      · apply along_of_always
        intro b hb l
        rcases List.mem_map.mp hb with ⟨c, hc, rfl⟩
        rcases TcpObj.calls_spec hc with hcall | ⟨handler, ha', -⟩
        · cases c with
          | handler handler => exact absurd rfl (hcall handler)
          | _ => exact not_false
        · exact absurd ⟨handler, ha'⟩ hown

theorem link_create : (create config pool : Peers β).link sid = Link.create sid bufferSize := by
  have hconn : ∀ x, ((create config pool : Peers β).obj x).conn (sid x) =
      ConnState.create (sid x) bufferSize := fun x => TcpObj.conn_create (sid x)
  rw [link, Link.create]
  congr 1
  funext x
  exact hconn x

/-- A run of two objects is a run of the link between them. -/
theorem run_link {as : List PeersAction} (h : run (step K sid) (create config pool) as = some p) :
    run (Link.step K) (Link.create sid bufferSize)
      (emitted (step K sid) (fun p a => p.linkActions sid a) (create config pool) as) =
        some (p.link sid) := by
  have hstart : (create config pool : Peers β).link sid = Link.create sid bufferSize := link_create
  rw [← hstart]
  exact run_emitted (I := fun p => ∀ x, (p.obj x).Known)
    (fun _ _ _ hk hstep => ⟨known_step hk hstep, step_link hk hstep⟩)
    (fun _ => TcpObj.known_create) h

theorem along_link {as : List PeersAction}
    (h : Along (step K sid) (fun p a => p.ComesUpOnce sid a) (create config pool) as) :
    Along (Link.step K) Link.ComesUpOnce (Link.create sid bufferSize)
      (emitted (step K sid) (fun p a => p.linkActions sid a) (create config pool) as) := by
  have hstart : (create config pool : Peers β).link sid = Link.create sid bufferSize := link_create
  rw [← hstart]
  exact along_emitted (I := fun p => ∀ x, (p.obj x).Known)
    (fun _ _ _ hk hstep => ⟨known_step hk hstep, step_link hk hstep⟩)
    (fun p _ _ ha => along_linkActions p ha) (fun _ => TcpObj.known_create) h

end Peers

theorem TcpObj.completed_session {β : Type} (t : TcpObj β) (s : SessionId) :
    (t.session s).completed = (t.conn s).messages := by
  rw [Session.completed, conn]
  change (t.conns s).elim [] ConnState.messages = _
  cases t.conns s with
  | none => rfl
  | some c => rfl

/-- The messages that the callbacks of a session have passed on are the first of those that its
connection has completed. -/
theorem TcpObj.passed_on_prefix {β : Type} {K : BlockClass β} {config : Config}
    {pool : IoObjectPool} {t : TcpObj β} {as : List TcpAction}
    (h : run (step K) (create config pool) as = some t) (s : SessionId) :
    t.callbacks.filterMap (Callback.message s) <+: (t.conn s).messages := by
  have hlog : (t.session s).callbacks <+: (t.session s).log := List.prefix_append _ _
  have hpref := hlog.filterMap (Callback.message s)
  rw [(listed_run h s).inSession.messages] at hpref
  rw [← filterMap_message_filter, ← completed_session]
  exact hpref

namespace Peers

variable {sid : Side → SessionId} {config : Side → Config} {pool : Side → IoObjectPool}

/-- The blocks that the user at an end has sent to the session, by its id or to everyone. -/
def sentBy {β : Type} (K : BlockClass β) (sid : Side → SessionId) (config : Side → Config)
    (pool : Side → IoObjectPool) (as : List PeersAction) (x : Side) : List NetBuffer :=
  emitted (TcpObj.step K) (fun t a => t.passed (sid x) a) (TcpObj.create (config x) (pool x))
    (as.filterMap (PeersAction.at x))

/-- What the callbacks of the session pass on at one end are the payloads of the blocks that the
user of the other end has sent to it: each once, in order, and none but these. -/
theorem messages_passed_on {as : List PeersAction} {p : Peers NetBlock}
    (honce : Along (step NetBlock.blockClass sid) (fun p a => p.ComesUpOnce sid a)
      (create config pool) as)
    (h : run (step NetBlock.blockClass sid) (create config pool) as = some p) {x : Side}
    {sent : List NetBlock.Sent}
    (hsent : (sentBy NetBlock.blockClass sid config pool as x).map NetBuffer.unread =
      sent.map fun m => m.block.bytes) :
    (((p.obj x.other).callbacks.filterMap (Callback.message (sid x.other))).map
        fun k => k.data.map NetBuffer.data) <+: sent.map fun m => some m.payloads.flatten := by
  have hobj := run_obj h x
  have hother := run_obj h x.other
  have haccepted :
      ((p.link sid).conn x).accepted = sentBy NetBlock.blockClass sid config pool as x :=
    TcpObj.accepted_eq_passed hobj (sid x)
  rw [← haccepted] at hsent
  rcases Link.delivers_prefix (R := NetBlock.decodes) NetBlock.resumable_frameDecoder sid
    (along_link honce) (run_link h) trivial (Link.pumps_of_sent hsent) with ⟨ms, hpref, hshows⟩
  have hposted := (TcpObj.passed_on_prefix hother (sid x.other)).map
    fun k => k.data.map NetBuffer.data
  have hdata := NetBlock.data_of_shows hshows
  change ((p.obj x.other).conn (sid x.other)).messages.map _ = _ at hdata
  rw [hdata] at hposted
  have hmap := hpref.map fun m => some m.2
  rw [List.map_map] at hmap
  exact hposted.trans hmap

instance {β : Type} (sid : Side → SessionId) (p : Peers β) :
    (a : PeersAction) → Decidable (p.ComesUpOnce sid a)
  | .carry _ _ => inferInstanceAs (Decidable True)
  | .act x (.handler s h) =>
      inferInstanceAs (Decidable (s = sid x → ¬ ((p.obj x).conn s).Reopens (.handler h)))
  | .act _ (.start _) => inferInstanceAs (Decidable True)
  | .act _ .stop => inferInstanceAs (Decidable True)
  | .act _ (.kick _) => inferInstanceAs (Decidable True)
  | .act _ (.send _ _) => inferInstanceAs (Decidable True)
  | .act _ (.sendAll _) => inferInstanceAs (Decidable True)
  | .act _ .poll => inferInstanceAs (Decidable True)
  | .act _ .event => inferInstanceAs (Decidable True)
  | .act _ .pollReturn => inferInstanceAs (Decidable True)
  | .act _ (.acceptSocket _) => inferInstanceAs (Decidable True)
  | .act _ .nextSession => inferInstanceAs (Decidable True)

/-- A client connects to a server, whose user sends a block from the callback and another to
everyone; the client is polled when the first has come through. -/
def greeted : List PeersAction :=
  [.act .near (.start true), .act .far (.start true), .act .near (.acceptSocket false),
    .act .near (.handler 1 .handlAccept), .act .far (.handler 1 (.handleConnect false)),
    .act .near .poll, .act .near .event,
    .act .near (.send 1 (ConnState.filled (NetBlock.build 3 8 [text "he", [], text "llo"]).bytes)),
    .act .near .pollReturn,
    .act .near (.sendAll (ConnState.filled (NetBlock.build 3 1 [[], []]).bytes)),
    .act .near (.handler 1 (.writeMessage 0)), .carry .near 20,
    .act .far (.handler 1 (.handleReadSome 0 false [17, 0, 0])),
    .act .far .poll, .act .far .event, .act .far .pollReturn,
    .act .far (.handler 1 (.handleReadSome 0 false
      [0, 0, 0, 0, 0, 0, 0, 0, 0, 104, 101, 108, 108, 111, 12, 0])),
    .act .far .poll, .act .far .event]

theorem messages_passed_on_greeted :
    ∃ p, run (step NetBlock.blockClass fun _ => 1)
        (create (fun x => ⟨if x = .near then .server else .client, false⟩) fun _ => ⟨0, []⟩)
        greeted = some p ∧
      (p.obj .far).callbacks.length = 2 ∧
      (((p.obj .far).callbacks.filterMap (Callback.message 1)).map
          fun k => k.data.map NetBuffer.data) <+:
        NetBlock.twoSent.map fun m => some m.payloads.flatten := by
  have hrun : (run (step NetBlock.blockClass fun _ => 1)
      (create (fun x => ⟨if x = .near then .server else .client, false⟩) fun _ => ⟨0, []⟩)
      greeted).any (fun p => (p.obj .far).callbacks.length = 2) = true := by
    decide +kernel
  have hsent : (sentBy NetBlock.blockClass (fun _ => 1)
      (fun x => ⟨if x = .near then .server else .client, false⟩) (fun _ => ⟨0, []⟩) greeted
      .near).map NetBuffer.unread = NetBlock.twoSent.map fun m => m.block.bytes := by
    decide +kernel
  rcases (Option.any_eq_true _ _).mp hrun with ⟨p, hp, hcalls⟩
  rw [decide_eq_true_eq] at hcalls
  exact ⟨p, hp, hcalls, messages_passed_on (by decide +kernel) hp hsent⟩

end Peers

end FannyNet

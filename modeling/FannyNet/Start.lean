import FannyNet.NetService
import Mathlib.Data.List.Sort

/-!
# Starting the service

`NetService::start` goes through the nets in the order of their names and stops at the first
that does not start.  A server sets up its acceptor by calls of `boost::asio` that throw; its
`doStart` has a handler, which takes an `error_code`.

Main results:

- Definition `Service.start`: the loop, with what leaves it.
- Theorem `NetService.startNets_cases`: a loop comes to its end, or is left at the first net
  whose acceptor cannot be set up.
- Theorem `Service.failed_start_escapes`: what is left behind then.
-/

namespace FannyNet

/-! ## The acceptor of a server -/

/-- What is thrown: an `error_code`, or a `system_error` that holds one. -/
inductive Thrown where
  | errorCode
  | systemError
deriving DecidableEq, Repr

/-- How a call ends. -/
inductive Outcome where
  | returned (result : Bool)
  | thrown (e : Thrown)
deriving DecidableEq, Repr

/-- What `doStart` calls on `m_acceptor`, with the endpoint of the port of its net. -/
inductive AcceptorCall where
  | construct
  | openProtocol
  | getLinger
  | setReuseAddress
  | setLinger
  | bind
  | listen
deriving DecidableEq, Repr

/-- `boost::asio` above a system in some state: what a call for the server `name` does to the
system, and what it throws. -/
structure Asio (World : Type) where
  call : World → NetName → AcceptorCall → World × Option Thrown

/-- The overloads without an argument for the `error_code` throw a `system_error`. -/
def Asio.ThrowsSystemError {World : Type} (A : Asio World) : Prop :=
  ∀ w name c w' e, A.call w name c = (w', some e) → e = .systemError

/-- The calls in the `try` block of `doStart`. -/
def acceptorCalls : List AcceptorCall :=
  [.construct, .openProtocol, .getLinger, .setReuseAddress, .setLinger, .bind, .listen]

namespace NetService

variable {World : Type} (A : Asio World)

/-- The calls one after the other, up to the first that throws. -/
def setUp (name : NetName) : World → List AcceptorCall → World × Option Thrown
  | w, [] => (w, none)
  | w, c :: cs =>
      match A.call w name c with
      | (w, some e) => (w, some e)
      | (w, none) => setUp name w cs

/-- `TcpObj::start`. -/
def startNet (w : World) (t : NetService) (name : NetName) (net : NetObject) :
    World × NetService × Outcome :=
  match net.property.config.serviceType with
  | .client => (w, t.start name net true, .returned true)
  | .server =>
      match setUp A name w acceptorCalls with
      | (w, none) => (w, t.start name net true, .returned true)
      -- `catch(const NetErrorType& e)`
      | (w, some .errorCode) => (w, t.start name net false, .returned false)
      | (w, some .systemError) => (w, t.start name net false, .thrown .systemError)

/-- `m_nets` in the order of the map. -/
def inOrder (t : NetService) : List (NetName × NetObject) :=
  (t.nets.entries.map fun x => (x.1, x.2)).insertionSort fun x y => x.1 ≤ y.1

/-- The loop of `NetService::start`. -/
def startNets : World → NetService → List (NetName × NetObject) → World × NetService × Outcome
  | w, t, [] => (w, t, .returned true)
  | w, t, (name, net) :: nets =>
      match startNet A w t name net with
      | (w, t, .returned true) => startNets w t nets
      | r => r

end NetService

/-! ## The service -/

/-- `NetService::state`. -/
inductive ServiceState where
  | init
  | run
  | stop
deriving DecidableEq, Repr

/-- The service with its `m_state`. -/
structure Service extends NetService where
  state : ServiceState
deriving DecidableEq

namespace Service

def isRun (s : Service) : Bool := s.state == .run

def start {World : Type} (A : Asio World) (w : World) (s : Service) : World × Service × Outcome :=
  let (w, t, o) := NetService.startNets A w s.toNetService s.inOrder
  (w, ⟨t, .run⟩, o)

end Service

/-! ## The loop -/

namespace NetService

section
variable {World : Type} (A : Asio World)

/-- What becomes of the acceptor of a net; a client has none. -/
def attempt (w : World) (x : NetName × NetObject) : World × Option Thrown :=
  match x.2.property.config.serviceType with
  | .client => (w, none)
  | .server => setUp A x.1 w acceptorCalls

/-- The system when the loop comes to the nets behind these. -/
def worldAfter (w : World) (nets : List (NetName × NetObject)) : World :=
  nets.foldl (fun w x => (attempt A w x).1) w

/-- The first net of which the acceptor cannot be set up. -/
def FirstFailing (w : World) (nets pre : List (NetName × NetObject))
    (x : NetName × NetObject) : Prop :=
  (∃ post, nets = pre ++ x :: post) ∧ (attempt A (worldAfter A w pre) x).2 ≠ none ∧
    ∀ pre' y post', pre = pre' ++ y :: post' → (attempt A (worldAfter A w pre') y).2 = none

end

/-- `start` has been called on the net, and `stop` not. -/
def Started (t : NetService) (name : NetName) : Prop :=
  (t.nets.lookup name).map NetObject.stopped = some false

/-- Starting a net leaves the others alone. -/
theorem started_start {t : NetService} {name n : NetName} (net : NetObject) (ok : Bool)
    (h : n = name ∨ t.Started n) : (t.start name net ok).Started n := by
  have hset : ∀ (t : NetService) (net : NetObject), net.stopped = false →
      (n = name ∨ t.Started n) → (t.setNet name net).Started n := by
    intro t net hnet h
    rw [Started, setNet]
    by_cases hn : n = name
    · rw [hn, AList.lookup_insert, Option.map_some, hnet]
    · rw [AList.lookup_insert_ne hn]
      exact h.resolve_left hn
  have hopen := hset t { net with stopped := false } rfl h
  unfold start
  dsimp only
  cases htype : net.property.config.serviceType with
  | client => exact hopen
  | server =>
      cases ok with
      | false => exact hopen
      | true =>
          -- `m_stop` is clear, so a connection is made for the next accept
          simp only [if_true, beginAccept, Bool.false_eq_true, if_false]
          apply hset
          · rfl
          · exact Or.inr hopen

section
variable {World : Type} {A : Asio World}

theorem setUp_throws (hasio : A.ThrowsSystemError) {name : NetName} {w : World}
    {cs : List AcceptorCall} {e : Thrown} (h : (setUp A name w cs).2 = some e) :
    e = .systemError := by
  induction cs generalizing w with
  | nil => cases h
  | cons c cs ih =>
      rw [setUp] at h
      cases hcall : A.call w name c with
      | mk w' o =>
          rw [hcall] at h
          cases o with
          | none => exact ih h
          | some e' =>
              cases h
              exact hasio w name c w' e hcall

/-- A net starts, or a `system_error` comes out of `start`. -/
theorem startNet_eq (hasio : A.ThrowsSystemError) (w : World) (t : NetService)
    (x : NetName × NetObject) :
    ∃ ok, startNet A w t x.1 x.2 = ((attempt A w x).1, t.start x.1 x.2 ok,
      if (attempt A w x).2 = none then .returned true else .thrown .systemError) := by
  unfold startNet attempt
  cases x.2.property.config.serviceType with
  | client => exact ⟨true, rfl⟩
  | server =>
      cases hset : setUp A x.1 w acceptorCalls with
      | mk w' o =>
          cases o with
          | none => exact ⟨true, rfl⟩
          | some e =>
              have he : e = .systemError := setUp_throws hasio (by rw [hset])
              subst he
              exact ⟨false, rfl⟩

theorem started_startNets (hasio : A.ThrowsSystemError) {w : World} {t : NetService}
    {nets : List (NetName × NetObject)} {n : NetName} (h : t.Started n) :
    (startNets A w t nets).2.1.Started n := by
  induction nets generalizing w t with
  | nil => exact h
  | cons x nets ih =>
      rcases startNet_eq hasio w t x with ⟨ok, hx⟩
      have hstarted := started_start x.2 ok (Or.inr h : n = x.1 ∨ t.Started n)
      rw [startNets, hx]
      by_cases hnone : (attempt A w x).2 = none
      · rw [if_pos hnone]
        exact ih hstarted
      · rw [if_neg hnone]
        exact hstarted

/-- The loop comes to its end, or is left at the first net that fails; the nets in front of it
are started. -/
theorem startNets_cases (hasio : A.ThrowsSystemError) (w : World) (t : NetService)
    (nets : List (NetName × NetObject)) :
    ((startNets A w t nets).2.2 = .returned true ∧
        ∀ pre x post, nets = pre ++ x :: post → (attempt A (worldAfter A w pre) x).2 = none) ∨
      ∃ pre x, FirstFailing A w nets pre x ∧
        (startNets A w t nets).2.2 = .thrown .systemError ∧
        ∀ y ∈ pre, (startNets A w t nets).2.1.Started y.1 := by
  induction nets generalizing w t with
  | nil =>
      left
      refine ⟨rfl, ?_⟩
      intro pre x post h
      cases pre <;> cases h
  | cons x nets ih =>
      rcases startNet_eq hasio w t x with ⟨ok, hx⟩
      by_cases hnone : (attempt A w x).2 = none
      · -- the loop goes on
        have hloop : startNets A w t (x :: nets) =
            startNets A (attempt A w x).1 (t.start x.1 x.2 ok) nets := by
          rw [startNets, hx, if_pos hnone]
        rw [hloop]
        rcases ih (attempt A w x).1 (t.start x.1 x.2 ok) with ⟨hend, hall⟩ | ⟨pre, y, hfirst, hrest⟩
        · left
          refine ⟨hend, ?_⟩
          intro pre y post h
          cases pre with
          | nil =>
              cases h
              exact hnone
          | cons z pre =>
              cases h
              exact hall pre y post rfl
        · right
          rcases hfirst with ⟨⟨post, rfl⟩, hfails, hbefore⟩
          refine ⟨x :: pre, y, ⟨⟨post, rfl⟩, hfails, ?_⟩, hrest.1, ?_⟩
          · intro pre' z post' h
            cases pre' with
            | nil =>
                cases h
                exact hnone
            | cons z' pre' =>
                cases h
                exact hbefore pre' z post' rfl
          · intro z hz
            rcases List.mem_cons.mp hz with rfl | hz
            · exact started_startNets hasio (started_start z.2 ok (Or.inl rfl))
            · exact hrest.2 z hz
      · right
        have hloop : startNets A w t (x :: nets) =
            ((attempt A w x).1, t.start x.1 x.2 ok, .thrown .systemError) := by
          rw [startNets, hx, if_neg hnone]
        rw [hloop]
        refine ⟨[], x, ⟨⟨nets, rfl⟩, hnone, ?_⟩, rfl, ?_⟩
        · intro pre y post h
          cases pre <;> cases h
        · intro y hy
          cases hy

end

end NetService

/-! ## A failed start -/

namespace Service

variable {World : Type} {A : Asio World}

/-- The socket of the registered server `name` cannot be opened, bound or listened on when its
turn comes, the nets in front of it having been tried. -/
def Unable (A : Asio World) (w : World) (s : Service) (name : NetName) : Prop :=
  ∃ pre net post, s.inOrder = pre ++ (name, net) :: post ∧
    net.property.config.serviceType = .server ∧
    (NetService.setUp A name (NetService.worldAfter A w pre) acceptorCalls).2 ≠ none

/-- Behind a start that has failed because of the net `name`: it has returned `false`, the service
is not running, and no other net is left started. -/
structure NotRunning (name : NetName) (x : World × Service × Outcome) : Prop where
  returned : x.2.2 = .returned false
  isRun : x.2.1.isRun = false
  stopped : ∀ n, n ≠ name → ¬ x.2.1.Started n

/-- Whatever the nets are, and whichever of them cannot be set up, a `system_error` leaves `start`,
the service is running, and the nets in front of the first that failed are left started. -/
theorem failed_start_escapes (hasio : A.ThrowsSystemError) (w : World) (s : Service)
    {name : NetName} (h : s.Unable A w name) :
    (∃ pre x, NetService.FirstFailing A w s.inOrder pre x ∧
        (s.start A w).2.2 = .thrown .systemError ∧ (s.start A w).2.1.isRun = true ∧
        ∀ y ∈ pre, (s.start A w).2.1.Started y.1) ∧
      ¬ NotRunning name (s.start A w) := by
  rcases h with ⟨pre, net, post, horder, hserver, hfails⟩
  have hattempt : (NetService.attempt A (NetService.worldAfter A w pre) (name, net)).2 ≠ none := by
    simp only [NetService.attempt, hserver]
    exact hfails
  rcases NetService.startNets_cases hasio w s.toNetService s.inOrder with
    ⟨-, hall⟩ | ⟨pre', x, hfirst, hthrown, hstarted⟩
  · exact absurd (hall pre (name, net) post horder) hattempt
  · have houtcome : (s.start A w).2.2 = .thrown .systemError := hthrown
    constructor
    · exact ⟨pre', x, hfirst, houtcome, rfl, hstarted⟩
    · intro hclean
      have hreturned := hclean.returned
      rw [houtcome] at hreturned
      cases hreturned

/-- A system where the port of the server `b` is taken. -/
def portTaken : Asio Unit where
  call w name c := (w, if name = text "b" ∧ c = .bind then some .systemError else none)

theorem portTaken_throws : portTaken.ThrowsSystemError := by
  intro w name c w' e h
  simp only [portTaken, Prod.mk.injEq] at h
  split at h
  · exact (Option.some.inj h.2).symm
  · cases h.2

/-- A service with the servers `a` and `b`. -/
def twoServers : Service where
  toNetService :=
    let _ := noHosts
    ((NetService.create.add aServer).1.add { aServer with name := text "b" }).1
  state := .init

theorem failed_start_escapes_b :
    (∃ pre x, NetService.FirstFailing portTaken () twoServers.inOrder pre x ∧
        (twoServers.start portTaken ()).2.2 = .thrown .systemError ∧
        (twoServers.start portTaken ()).2.1.isRun = true ∧
        ∀ y ∈ pre, (twoServers.start portTaken ()).2.1.Started y.1) ∧
      ¬ NotRunning (text "b") (twoServers.start portTaken ()) :=
  failed_start_escapes portTaken_throws () twoServers
    ⟨[(text "a", ⟨aServer, none, [], [], ∅, true⟩)], ⟨{ aServer with name := text "b" }, none, [],
      [], ∅, true⟩, [], by decide +kernel, rfl, by decide +kernel⟩

/-- The exception leaves `start`, the service is running, and `a` accepts. -/
theorem start_with_port_taken :
    (twoServers.start portTaken ()).2.2 = .thrown .systemError ∧
      (twoServers.start portTaken ()).2.1.isRun = true ∧
      ((twoServers.start portTaken ()).2.1.nets.lookup (text "a")).map
          (fun net => (net.stopped, net.current)) = some (false, some 0) ∧
      ((twoServers.start portTaken ()).2.1.nets.lookup (text "b")).map
          (fun net => (net.stopped, net.current)) = some (false, none) := by
  decide +kernel

end Service

end FannyNet

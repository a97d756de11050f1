import FannyNet.Batches
import FannyNet.Polling
import FannyNet.Posted
import FannyNet.Push
import FannyNet.Start

/-!
# A program that answers

A program as in `test.cpp` starts the service, polls it, and sends from its callbacks only.  The
service refuses what is sent unless it runs.  While a callback sends, the handlers go on, but
not the poll.

Main results:

- Definition `Program.step`: a call of `send` that the callback makes, or a step of the object.
- Theorem `Program.answers_in_order`: what a connection is handed are the answers of the
  callbacks of its session.
- Theorem `Program.sample_speaks`: the bytes of the sample client are commands.
-/

namespace FannyNet

open Library Library.Transition

variable {β : Type}

/-! ## What is written -/

namespace SendPath

variable {s t : SendPath} {a : ConnAction} {ws : List Bytes}

/-- The send path of a connection that comes up once: the writes that have ended and the one in
flight are the beginning of what was handed to `send`, and until it is closed the rest is in the
send buffer and in the queue. -/
structure InOrder (s : SendPath) : Prop where
  flying : s.Flying
  opened : s.isSend = true → s.connected = true ∨ s.closed = true
  shut : s.closed = true → s.connected = false
  begun : s.completed ++ s.writing.flatten <+: unreadAll s.accepted
  together : s.closed = false → s.Together

/-- What is being written is in the send buffer. -/
theorem Flying.begun (h : s.Flying) (htogether : s.Together) :
    s.completed ++ s.writing.flatten <+: unreadAll s.accepted := by
  rw [← htogether]
  rcases h.writing with ⟨-, hwriting, -⟩ | ⟨-, hnil⟩
  · rw [hwriting, List.flatten_singleton]
    exact List.prefix_append _ _
  · rw [hnil, List.flatten_nil, List.append_nil, List.append_assoc]
    exact List.prefix_append _ _

theorem Flying.writing_eq (h : s.Flying) {i : Nat} {bytes : Bytes}
    (hi : s.writing[i]? = some bytes) : s.writing = [bytes] := by
  rcases h.of_getElem? hi with ⟨hsend, hbytes, -, -⟩
  rcases h.writing with ⟨-, hwriting, -⟩ | ⟨hidle, -⟩
  · rw [hwriting, hbytes]
  · rw [hsend] at hidle
    cases hidle

theorem InOrder.together_of_up (h : s.InOrder) (hconn : s.connected = true) : s.Together := by
  apply h.together
  by_contra hclosed
  rw [h.shut (Bool.eq_true_of_not_eq_false hclosed)] at hconn
  cases hconn

/-- What a move of a connection that does not come up again keeps. -/
theorem InOrder.move (h : s.InOrder) (hmove : Move s a ws t)
    (hclosed : s.closed = true → t.closed = true) : t.InOrder := by
  have hflying := hmove.flying h.flying
  have hidle : false = true → s.connected = true ∨ s.closed = true := by
    intro hsend
    cases hsend
  cases hmove with
  | quiet => exact h
  | send p =>
      refine ⟨hflying, h.opened, h.shut, ?_, ?_⟩
      · simp only [unreadAll_append]
        exact h.begun.trans (List.prefix_append _ _)
      · intro hopen
        have hbytes : s.Together := h.together hopen
        simp only [Together, unreadAll_append]
        rw [← List.append_assoc, hbytes]
  | idle i => exact ⟨hflying, h.opened, h.shut, h.begun, h.together⟩
  | wake i size hi hconn hsend =>
      have hzero : size = 0 := h.flying.posted size (List.mem_of_getElem? hi)
      subst hzero
      have hbytes := together_refill (s := { s with posted := s.posted.eraseIdx i })
        h.flying.buffer h.flying.blocks (Nat.zero_le _) (h.together_of_up hconn)
      exact ⟨hflying, fun _ => Or.inl hconn, h.shut, hflying.begun hbytes, fun _ => hbytes⟩
  | shut i er hnone =>
      refine ⟨hflying, fun _ => Or.inr rfl, fun _ => rfl, h.begun, ?_⟩
      intro hopen
      cases hopen
  | up a hup =>
      have hopen : s.closed = false := by
        by_contra hshut
        cases hclosed (Bool.eq_true_of_not_eq_false hshut)
      refine ⟨hflying, fun _ => Or.inl rfl, ?_, h.begun, fun _ => h.together hopen⟩
      intro hshut
      cases hshut
  | failed i size bytes hi =>
      have hnone : s.writing.eraseIdx i = [] := hflying.writing_eq_nil rfl
      refine ⟨hflying, hidle, h.shut, ?_, h.together⟩
      change s.completed ++ (s.writing.eraseIdx i).flatten <+: _
      rw [hnone, List.flatten_nil, List.append_nil]
      exact (List.prefix_append _ _).trans h.begun
  | late i bytes hi hconn =>
      have hnone : s.writing.eraseIdx i = [] := hflying.writing_eq_nil rfl
      have hshut : s.closed = true :=
        (h.opened (h.flying.of_getElem? hi).1).resolve_left (by simp [hconn])
      refine ⟨hflying, hidle, h.shut, ?_, ?_⟩
      · change (s.completed ++ bytes) ++ (s.writing.eraseIdx i).flatten <+: _
        rw [hnone, List.flatten_nil, List.append_nil]
        have hbegun := h.begun
        rw [h.flying.writing_eq hi, List.flatten_singleton] at hbegun
        exact hbegun
      · intro hopen
        change s.closed = false at hopen
        rw [hshut] at hopen
        cases hopen
  | written i bytes hi hconn =>
      have hbytes := (h.flying.of_getElem? hi).2.1
      have hdone : (refill { s with
          isSend := false
          writing := s.writing.eraseIdx i
          completed := s.completed ++ bytes } bytes.length).Together := by
        apply together_refill
        · exact h.flying.buffer
        · exact h.flying.blocks
        · rw [hbytes]
        · rw [hbytes, List.drop_length, List.append_nil]
          exact h.together_of_up hconn
      exact ⟨hflying, fun _ => Or.inl hconn, h.shut, hflying.begun hdone, fun _ => hdone⟩

end SendPath

/-! ## Calls that send nothing -/

namespace TcpObj

variable {K : BlockClass β} {config : Config} {pool : IoObjectPool} {t t' : TcpObj β}
  {s : SessionId} {act : TcpAction}

/-- Callbacks are made by events only. -/
theorem callbacks_step (h : step K t act = some t') (hne : act ≠ .event) :
    t'.callbacks = t.callbacks := by
  rcases step_polled h with ⟨hevent, -⟩ | ⟨-, -, -, hcalls⟩ | ⟨-, -, -, hcalls⟩ | ⟨-, hcalls, -⟩
  · exact absurd hevent hne
  · exact hcalls
  · exact hcalls
  · exact hcalls

theorem callbacks_create : (create config pool : TcpObj β).callbacks = [] := by
  unfold create
  cases config.serviceType with
  | server => rfl
  | client => rfl

/-- An event makes at most one callback. -/
theorem callbacks_event (h : event K t = some t') :
    t'.callbacks = t.callbacks ∨ ∃ c, t'.callbacks = t.callbacks ++ [c] := by
  rcases event_polled h with ⟨e, -, -, -, hcalls⟩
  rw [hcalls]
  cases e.callback with
  | none => exact Or.inl (List.append_nil _)
  | some c => exact Or.inr ⟨c, rfl⟩

/-- A step hands a connection the blocks that it passes on. -/
theorem accepted_step (hk : t.Known) (hnodup : t.onlines.Nodup) (h : step K t act = some t')
    (s : SessionId) : (t'.conn s).accepted = (t.conn s).accepted ++ t.passed s act := by
  rw [(ConnState.run_history (step_calls hk h s)).1, sent_calls hnodup]

/-- The connection of a session comes up at most once. -/
def ComesUpOnce (t : TcpObj β) (s : SessionId) : TcpAction → Prop
  | .handler r h => r = s → ¬ (t.conn s).Reopens (.handler h)
  | _ => True

theorem along_calls (h : t.ComesUpOnce s act) :
    Along (ConnState.next K) (fun c a => ¬ c.Reopens a) (t.conn s) (t.calls s act) := by
  by_cases hown : ∃ handler, act = .handler s handler
  · rcases hown with ⟨handler, rfl⟩
    rw [calls, if_pos rfl]
    exact ⟨h rfl, fun _ _ => trivial⟩
  · apply along_of_always
    intro a ha c
    rcases calls_spec ha with hcall | ⟨handler, hact, -⟩
    · cases a with
      | handler handler => exact absurd rfl (hcall handler)
      | _ => exact not_false
    · exact absurd ⟨handler, hact⟩ hown

theorem inOrder_step (hk : t.Known) (h : step K t act = some t') (honce : t.ComesUpOnce s act)
    (horder : (t.conn s).sendPath.InOrder) : (t'.conn s).sendPath.InOrder := by
  refine run_invariant_of_along (I := fun c : ConnState β => c.sendPath.InOrder) ?_ horder
    (along_calls (K := K) honce) (step_calls hk h s)
  intro c a c' hc hopens hnext
  rcases ConnState.next_eq_some.mp hnext with ⟨effects, hstep⟩
  exact hc.move (ConnState.step_sendPath hstep) (ConnState.closed_kept hstep hopens)

theorem inOrder_create : ((create config pool : TcpObj β).conn s).sendPath.InOrder := by
  rw [conn_create]
  refine ⟨ConnState.flying_create s bufferSize, nofun, nofun, List.nil_prefix, fun _ => ?_⟩
  change [] ++ (NetBuffer.create bufferSize).unread ++ [] = []
  rw [NetBuffer.unread_create]
  rfl

end TcpObj

/-! ## The program -/

/-- A block that is given to `send`: the session that it names, and its buffer. -/
abbrev Outgoing := SessionId × {p : NetBuffer // p.Valid}

/-- An object whose user sends from the callbacks, with the blocks that the callback which runs
has not yet sent. -/
structure Program (β : Type) where
  obj : TcpObj β
  state : ServiceState
  owed : List Outgoing

/-- The callback that runs sends the next block, or something else happens. -/
inductive ProgramAction where
  | send
  | act (a : TcpAction)

namespace Program

def create (config : Config) (pool : IoObjectPool) : Program β where
  obj := TcpObj.create config pool
  state := .init
  owed := []

/-- Nothing is sent but by callbacks, and the poll waits for the callback that runs. -/
def Allows (t : Program β) : TcpAction → Bool
  | .send _ _ => false
  | .sendAll _ => false
  | .event => t.owed.isEmpty
  | .pollReturn => t.owed.isEmpty
  | _ => true

/-- `start` and `setStop` set the state. -/
def stateAfter (t : Program β) : TcpAction → ServiceState
  | .start _ => .run
  | .stop => .stop
  | _ => t.state

section
variable (K : BlockClass β) (answers : Callback β → List Outgoing)

def step (t : Program β) : ProgramAction → Option (Program β)
  | .send =>
      match t.owed with
      | [] => none
      | (s, p) :: rest =>
          if t.state = .run then do
            let o ← t.obj.step K (.send s p)
            some { t with obj := o, owed := rest }
          else some { t with owed := rest }
  | .act a =>
      if t.Allows a then do
        let o ← t.obj.step K a
        let made := o.callbacks.drop t.obj.callbacks.length
        some { obj := o, state := t.stateAfter a, owed := t.owed ++ made.flatMap answers }
      else none

end

/-- Callbacks that answer the session they are about; a close is not answered. -/
structure Addressed (K : BlockClass β) (answers : Callback β → List Outgoing) : Prop where
  callFun : ∀ s k, (K.base k).session = s → ∀ q ∈ answers (.callFun s k), q.1 = s
  connectFun : ∀ s, ∀ q ∈ answers (.connectFun s), q.1 = s
  closeFun : ∀ s, answers (.closeFun s) = []

/-- The buffers that are for a session. -/
def sentTo (s : SessionId) (qs : List Outgoing) : List NetBuffer :=
  qs.filterMap fun q => if q.1 = s then some q.2.val else none

theorem sentTo_append (s : SessionId) (qs rs : List Outgoing) :
    sentTo s (qs ++ rs) = sentTo s qs ++ sentTo s rs :=
  List.filterMap_append

theorem sentTo_cons (s : SessionId) (q : Outgoing) (qs : List Outgoing) :
    sentTo s (q :: qs) = (if q.1 = s then [q.2.val] else []) ++ sentTo s qs := by
  rw [sentTo, List.filterMap_cons]
  split
  · rename_i hnone
    rw [if_neg (by simpa using hnone)]
    rfl
  · rename_i p hsome
    rw [Option.ite_none_right_eq_some, Option.some.injEq] at hsome
    rw [if_pos hsome.1, hsome.2]
    rfl

variable {K : BlockClass β} {answers : Callback β → List Outgoing} {config : Config}
  {pool : IoObjectPool} {t t' : Program β} {s : SessionId}

/-! ## Steps -/

/-- What a step of the program can be. -/
inductive StepCases (K : BlockClass β) (answers : Callback β → List Outgoing) (t : Program β) :
    ProgramAction → Program β → Prop where
  | sent {s : SessionId} {p : {p : NetBuffer // p.Valid}} {rest : List Outgoing} {o : TcpObj β}
      (howed : t.owed = (s, p) :: rest) (hrun : t.state = .run)
      (hstep : t.obj.step K (.send s p) = some o) :
      StepCases K answers t .send { t with obj := o, owed := rest }
  | refused {q : Outgoing} {rest : List Outgoing} (howed : t.owed = q :: rest)
      (hrun : t.state ≠ .run) : StepCases K answers t .send { t with owed := rest }
  | quiet {a : TcpAction} {o : TcpObj β} (hallows : t.Allows a = true) (ha : a ≠ .event)
      (hstep : t.obj.step K a = some o) :
      StepCases K answers t (.act a) { t with obj := o, state := t.stateAfter a }
  | event {o : TcpObj β} (howed : t.owed = []) (hevent : t.obj.event K = some o) :
      StepCases K answers t (.act .event)
        { t with obj := o, owed := (o.callbacks.drop t.obj.callbacks.length).flatMap answers }

theorem step_cases {act : ProgramAction} (h : t.step K answers act = some t') :
    StepCases K answers t act t' := by
  cases act with
  | send =>
      simp only [step] at h
      split at h
      · cases h
      · rename_i s p rest howed
        split at h
        · rename_i hrun
          simp only [Option.bind_eq_bind, Option.bind_eq_some_iff, Option.some.injEq] at h
          rcases h with ⟨o, ho, rfl⟩
          exact .sent howed hrun ho
        · rename_i hrun
          cases h
          exact .refused howed hrun
  | act a =>
      simp only [step, Option.ite_none_right_eq_some, Option.bind_eq_bind,
        Option.bind_eq_some_iff, Option.some.injEq] at h
      rcases h with ⟨hallows, o, ho, rfl⟩
      by_cases ha : a = .event
      · subst ha
        have howed : t.owed = [] := List.isEmpty_iff.mp hallows
        rw [howed, List.nil_append]
        exact .event howed ho
      · have hmade : o.callbacks.drop t.obj.callbacks.length = [] := by
          rw [TcpObj.callbacks_step ho ha, List.drop_length]
        rw [hmade, List.flatMap_nil, List.append_nil]
        exact .quiet hallows ha ho

/-- The object takes steps of its own. -/
theorem reached_step {act : ProgramAction}
    (h : ∃ as, run (TcpObj.step K) (TcpObj.create config pool) as = some t.obj)
    (hstep : t.step K answers act = some t') :
    ∃ as, run (TcpObj.step K) (TcpObj.create config pool) as = some t'.obj := by
  rcases h with ⟨as, hreached⟩
  have hnext : ∀ {a o}, t.obj.step K a = some o →
      ∃ as, run (TcpObj.step K) (TcpObj.create config pool) as = some o := by
    intro a o ho
    refine ⟨as ++ [a], ?_⟩
    rw [run_append, hreached]
    exact run_cons.mpr ⟨o, ho, rfl⟩
  cases step_cases hstep with
  | sent howed hrun ho => exact hnext ho
  | refused => exact ⟨as, hreached⟩
  | quiet hallows ha ho => exact hnext ho
  | event howed hevent => exact hnext (a := .event) hevent

/-! ## What a connection is handed -/

/-- Every answer goes to a session that is online, and a connection was handed the first answers
of the callbacks of its session: all but those that the callback which runs has not sent yet, as
long as the service runs. -/
structure Serving (K : BlockClass β) (answers : Callback β → List Outgoing) (config : Config)
    (pool : IoObjectPool) (t : Program β) : Prop where
  reached : ∃ as, run (TcpObj.step K) (TcpObj.create config pool) as = some t.obj
  online : ∀ q ∈ t.owed, q.1 ∈ t.obj.onlines
  handed : ∀ s, (t.obj.conn s).accepted <+: sentTo s (t.obj.callbacks.flatMap answers)
  running : t.state = .run → ∀ s, (t.obj.conn s).accepted ++ sentTo s t.owed =
    sentTo s (t.obj.callbacks.flatMap answers)

theorem Serving.accepted_step (h : Serving K answers config pool t) {a : TcpAction}
    {o : TcpObj β} (hstep : t.obj.step K a = some o) (s : SessionId) :
    (o.conn s).accepted = (t.obj.conn s).accepted ++ t.obj.passed s a := by
  rcases h.reached with ⟨as, hreached⟩
  have hknown : t.obj.Known := run_invariant
    (fun _ _ _ hk hnext => (TcpObj.step_session hk hnext).known) TcpObj.known_create hreached
  have hnodup : t.obj.onlines.Nodup := by
    refine run_invariant (I := fun t : TcpObj β => t.onlines.Nodup)
      (fun _ _ _ hn hnext => TcpObj.nodup_step hnext hn) ?_ hreached
    rw [TcpObj.onlines_create]
    exact List.nodup_nil
  exact TcpObj.accepted_step hknown hnodup hstep s

/-- The answers of a new callback go to its session, which is online. -/
theorem Serving.online_of_callback (h : Serving K answers config pool t) (hK : K.Names)
    (haddressed : Addressed K answers) {o : TcpObj β} (hevent : t.obj.event K = some o)
    {c : Callback β} (hc : o.callbacks = t.obj.callbacks ++ [c]) :
    ∀ q ∈ answers c, q.1 ∈ o.onlines := by
  rcases h.reached with ⟨as, hreached⟩
  have honline : ∀ r, (c.role r = .inner ∨ c.role r = .opening) → r ∈ o.onlines :=
    fun r hopen => TcpObj.online_of_event (TcpObj.listed_run hreached) hevent hc hopen
  intro q hq
  cases c with
  | callFun r k =>
      have hmem : .callFun r k ∈ o.callbacks := by
        rw [hc]
        exact List.mem_append_right _ (List.mem_singleton_self _)
      have hrun : run (TcpObj.step K) (TcpObj.create config pool) (as ++ [.event]) = some o := by
        rw [run_append, hreached]
        exact run_cons.mpr ⟨o, hevent, rfl⟩
      have hname : (K.base k).session = r := TcpObj.passed_on_satisfies hK hrun hmem
      rw [haddressed.callFun r k hname q hq]
      exact honline r (Or.inl (if_pos rfl))
  | connectFun r =>
      rw [haddressed.connectFun r q hq]
      exact honline r (Or.inr (if_pos rfl))
  | closeFun r =>
      rw [haddressed.closeFun r] at hq
      cases hq

theorem Serving.step (h : Serving K answers config pool t) (hK : K.Names)
    (haddressed : Addressed K answers) {act : ProgramAction}
    (hact : ∀ ok, act = .act (.start ok) → t.state = .run)
    (hstep : t.step K answers act = some t') :
    Serving K answers config pool t' := by
  have hreached := reached_step h.reached hstep
  cases step_cases hstep with
  | @sent r p rest o howed hrun hnext =>
      have hpassed : ∀ s, t.obj.passed s (.send r p) = if r = s then [p.val] else [] := by
        intro s
        rcases h.reached with ⟨as, hbefore⟩
        have honline : r ∈ t.obj.onlines := h.online (r, p) (howed ▸ List.mem_cons_self)
        have hfound : ∀ {r'}, r = r' → t.obj.pool.session r' = true := fun heq =>
          heq ▸ TcpObj.found_of_online (TcpObj.onlines_subset_run hbefore) honline
        rw [TcpObj.passed]
        by_cases hr : r = s
        · rw [if_pos ⟨hr, hfound hr⟩, if_pos hr]
        · rw [if_neg (fun hs => hr hs.1), if_neg hr]
      have hcall : TcpAction.send r p ≠ .event := by simp
      have hcalls : o.callbacks = t.obj.callbacks := TcpObj.callbacks_step hnext hcall
      have hmoved : ∀ s, (o.conn s).accepted ++ sentTo s rest =
          sentTo s (o.callbacks.flatMap answers) := by
        intro s
        rw [h.accepted_step hnext, hpassed, hcalls, ← h.running hrun s, howed, sentTo_cons,
          List.append_assoc]
      refine ⟨hreached, ?_, ?_, fun _ => hmoved⟩
      · intro q hq
        rw [(TcpObj.sameOnline_step hnext hcall).1]
        exact h.online q (howed ▸ List.mem_cons_of_mem _ hq)
      · intro s
        rw [← hmoved s]
        exact List.prefix_append _ _
  | refused howed hrun =>
      refine ⟨hreached, ?_, h.handed, fun hagain => absurd hagain hrun⟩
      intro q hq
      exact h.online q (howed ▸ List.mem_cons_of_mem _ hq)
  | @quiet a o hallows ha hnext =>
      have hcalls : o.callbacks = t.obj.callbacks := TcpObj.callbacks_step hnext ha
      have haccepted : ∀ s, (o.conn s).accepted = (t.obj.conn s).accepted := by
        intro s
        have hpassed : t.obj.passed s a = [] := by
          cases a with
          | send r p => cases hallows
          | sendAll p => cases hallows
          | _ => rfl
        rw [h.accepted_step hnext, hpassed, List.append_nil]
      have hstate : t.stateAfter a = .run → t.state = .run := by
        cases a with
        | start ok => exact fun _ => hact ok rfl
        | stop =>
            intro hrun
            cases hrun
        | _ => exact id
      refine ⟨hreached, ?_, ?_, ?_⟩
      · intro q hq
        rw [(TcpObj.sameOnline_step hnext ha).1]
        exact h.online q hq
      · intro s
        rw [haccepted, hcalls]
        exact h.handed s
      · intro hrun s
        rw [haccepted, hcalls]
        exact h.running (hstate hrun) s
  | @event o howed hevent =>
      have hnext : t.obj.step K .event = some o := hevent
      have haccepted : ∀ s, (o.conn s).accepted = (t.obj.conn s).accepted := by
        intro s
        rw [h.accepted_step hnext]
        exact List.append_nil _
      have hgrown : ∃ cs, o.callbacks = t.obj.callbacks ++ cs ∧
          ∀ q ∈ cs.flatMap answers, q.1 ∈ o.onlines := by
        rcases TcpObj.callbacks_event hevent with hsame | ⟨c, hc⟩
        · exact ⟨[], by rw [hsame, List.append_nil], List.forall_mem_nil _⟩
        · refine ⟨[c], hc, ?_⟩
          rw [List.flatMap_singleton]
          exact h.online_of_callback hK haddressed hevent hc
      rcases hgrown with ⟨cs, hcs, honline⟩
      have hmade : o.callbacks.drop t.obj.callbacks.length = cs := by rw [hcs, List.drop_left]
      rw [hmade]
      have hall : ∀ s, sentTo s (o.callbacks.flatMap answers) =
          sentTo s (t.obj.callbacks.flatMap answers) ++ sentTo s (cs.flatMap answers) := by
        intro s
        rw [hcs, List.flatMap_append, sentTo_append]
      refine ⟨hreached, honline, ?_, ?_⟩
      · intro s
        rw [haccepted, hall]
        exact (h.handed s).trans (List.prefix_append _ _)
      · intro hrun s
        have hbefore := h.running hrun s
        rw [howed] at hbefore
        have hnone : sentTo s [] = [] := rfl
        rw [haccepted, hall, ← hbefore, hnone, List.append_nil]

/-- A new program is as one that was started and has not run a callback. -/
theorem serving_create :
    Serving K answers config pool { create config pool with state := .run } where
  reached := ⟨[], rfl⟩
  online := nofun
  handed s := by
    change ((TcpObj.create config pool : TcpObj β).conn s).accepted <+: _
    rw [TcpObj.conn_create]
    exact List.nil_prefix
  running _ s := by
    change ((TcpObj.create config pool : TcpObj β).conn s).accepted ++ [] =
      sentTo s ((TcpObj.create config pool : TcpObj β).callbacks.flatMap answers)
    rw [TcpObj.conn_create, TcpObj.callbacks_create]
    rfl

/-- A program that is started once serves from then on. -/
theorem serving_run (hK : K.Names) (haddressed : Addressed K answers) {ok : Bool}
    {as : List ProgramAction} (has : ∀ ok, .act (.start ok) ∉ as)
    (h : run (Program.step K answers) (create config pool) (.act (.start ok) :: as) = some t) :
    Serving K answers config pool t := by
  rcases run_cons.mp h with ⟨mid, hmid, hrest⟩
  have hfirst : Program.step K answers { create config pool with state := .run }
      (.act (.start ok)) = some mid := hmid
  have hserving : Serving K answers config pool mid :=
    serving_create.step hK haddressed (fun _ _ => rfl) hfirst
  refine run_invariant_of_along (I := Serving K answers config pool)
    (P := fun _ act => ∀ ok, act ≠ .act (.start ok)) ?_ hserving (along_of_forall ?_) hrest
  · intro u act u' hu hact hnext
    exact hu.step hK haddressed (fun ok heq => absurd heq (hact ok)) hnext
  · intro act hmem ok heq
    exact has ok (heq ▸ hmem)

/-- When the service has been started, and until it is stopped, each connection has been handed
the answers of the callbacks of its session, in the order of the callbacks and each once, but for
those that the callback which runs has not sent yet.  When it has been stopped, the last ones
may be missing. -/
theorem answers_in_order (hK : K.Names) (haddressed : Addressed K answers) {ok : Bool}
    {as : List ProgramAction} (has : ∀ ok, .act (.start ok) ∉ as)
    (h : run (Program.step K answers) (create config pool) (.act (.start ok) :: as) = some t)
    (s : SessionId) :
    (t.obj.conn s).accepted <+: sentTo s (t.obj.callbacks.flatMap answers) ∧
      (t.state = .run → (t.obj.conn s).accepted ++ sentTo s t.owed =
        sentTo s (t.obj.callbacks.flatMap answers)) := by
  have hserving := serving_run hK haddressed has h
  exact ⟨hserving.handed s, fun hrun => hserving.running hrun s⟩

/-- Two blocks for each connection that comes up. -/
def twoHellos : Callback NetBlock → List Outgoing
  | .connectFun s => [(s, ConnState.filled [1]), (s, ConnState.filled [2])]
  | _ => []

theorem addressed_twoHellos : Addressed NetBlock.blockClass twoHellos where
  callFun s k hname q hq := by cases hq
  connectFun s q hq := by
    simp only [twoHellos, List.mem_cons, List.not_mem_nil, or_false] at hq
    rcases hq with rfl | rfl
    · rfl
    · rfl
  closeFun _ := rfl

/-- A connection comes up, and the service is stopped before the callback
sends its second block. -/
def stoppedAnswer : List ProgramAction :=
  [.act (.start true), .act (.acceptSocket false), .act (.handler 1 .handlAccept), .act .poll,
    .act .event, .send, .act .stop, .send]

theorem answers_in_order_stopped :
    ∃ t, run (step NetBlock.blockClass twoHellos) (create ⟨.server, false⟩ ⟨0, []⟩)
        stoppedAnswer = some t ∧
      t.state = .stop ∧ (t.obj.conn 1).accepted.length = 1 ∧
      (t.obj.conn 1).accepted <+: sentTo 1 (t.obj.callbacks.flatMap twoHellos) := by
  have hrun : (run (step NetBlock.blockClass twoHellos) (create ⟨.server, false⟩ ⟨0, []⟩)
      stoppedAnswer).any (fun t =>
        t.state = .stop ∧ (t.obj.conn 1).accepted.length = 1) = true := by
    decide +kernel
  rcases (Option.any_eq_true _ _).mp hrun with ⟨t, ht, hvalues⟩
  rw [decide_eq_true_eq] at hvalues
  have hnone : ∀ ok, .act (.start ok) ∉ stoppedAnswer.tail := by
    simp [stoppedAnswer]
  exact ⟨t, ht, hvalues.1, hvalues.2,
    (answers_in_order NetBlock.names addressed_twoHellos hnone ht 1).1⟩

/-- The connection of a session comes up at most once. -/
def ComesUpOnce (s : SessionId) (t : Program β) : ProgramAction → Prop
  | .send => True
  | .act a => t.obj.ComesUpOnce s a

theorem inOrder_run {as : List ProgramAction}
    (honce : Along (step K answers) (ComesUpOnce s) (create config pool) as)
    (h : run (step K answers) (create config pool) as = some t) :
    (t.obj.conn s).sendPath.InOrder := by
  have hend : t.obj.Known ∧ (t.obj.conn s).sendPath.InOrder := by
    refine run_invariant_of_along
      (I := fun t : Program β => t.obj.Known ∧ (t.obj.conn s).sendPath.InOrder) ?_
      ⟨TcpObj.known_create, TcpObj.inOrder_create⟩ honce h
    intro u act u' hu hact hstep
    have hnext : ∀ {a o}, u.obj.step K a = some o → u.obj.ComesUpOnce s a →
        o.Known ∧ (o.conn s).sendPath.InOrder := fun ho ha =>
      ⟨(TcpObj.step_session hu.1 ho).known, TcpObj.inOrder_step hu.1 ho ha hu.2⟩
    cases step_cases hstep with
    | sent howed hrun ho => exact hnext ho trivial
    | refused => exact hu
    | quiet hallows ha ho => exact hnext ho hact
    | event howed hevent => exact hnext (a := .event) hevent trivial
  exact hend.2

end Program

/-! ## The sample client -/

/-- `m_data` of a `RedisBlock2` that was made for a session and pushed a text. -/
def message (s : SessionId) (msg : Bytes) : {p : NetBuffer // p.Valid} :=
  ⟨((NetBuffer.create s).tailData msg).1,
    NetBuffer.valid_tailData (NetBuffer.valid_create s) rfl msg⟩

theorem data_message (s : SessionId) {msg : Bytes} (hmsg : msg ≠ []) :
    ((RedisBlock2.create s msg.length).push msg).bind (fun x => x.1.data) =
      some (message s msg).val := by
  have hsize : msg.length > 0 := List.length_pos_iff.mpr hmsg
  have hdata : (RedisBlock2.create s msg.length).data = some (NetBuffer.create s) := if_pos hsize
  rw [RedisBlock2.push, hdata]
  rfl

theorem unread_message (s : SessionId) (msg : Bytes) : (message s msg).val.unread = msg := by
  change ((NetBuffer.create s).tailData msg).1.unread = msg
  rw [NetBuffer.unread_tailData (NetBuffer.valid_create s) rfl, NetBuffer.unread_create,
    List.nil_append]

/-- What `fc`, `nc` and `ncc` of `test.cpp` send. -/
def sampleAnswers : Callback RedisBlock2 → List Outgoing
  | .callFun _ ptr =>
      [(ptr.session, message ptr.session (makeCommand (text "get") [text "player"]))]
  | .connectFun s => [(s, message s (makeCommand (text "set") [text "player", text "0"]))]
  | .closeFun _ => []

/-- The command with which the sample client answers a callback of a session. -/
def sampleCommand (s : SessionId) : Callback RedisBlock2 → List Command
  | .callFun r _ => if r = s then [⟨text "get", [text "player"]⟩] else []
  | .connectFun r => if r = s then [⟨text "set", [text "player", text "0"]⟩] else []
  | .closeFun _ => []

namespace Program

variable [LexicalCast] {pool : IoObjectPool} {t : Program RedisBlock2} {s : SessionId}

theorem addressed_sample : Addressed RedisBlock2.blockClass sampleAnswers where
  callFun s k hname q hq := by
    rw [sampleAnswers, List.mem_singleton] at hq
    rw [hq]
    exact hname
  connectFun s q hq := by
    rw [sampleAnswers, List.mem_singleton] at hq
    rw [hq]
  closeFun _ := rfl

omit [LexicalCast] in
/-- The answers for a session are its commands, when every block names its session. -/
theorem sentTo_sample (s : SessionId) {cs : List (Callback RedisBlock2)}
    (hnames : ∀ r k, .callFun r k ∈ cs → k.session = r) :
    sentTo s (cs.flatMap sampleAnswers) =
      (cs.flatMap (sampleCommand s)).map fun c => (message s c.encode).val := by
  induction cs with
  | nil => rfl
  | cons c cs ih =>
      have hrest := ih fun r k hmem => hnames r k (List.mem_cons_of_mem _ hmem)
      have hone : ∀ (r : SessionId) (d : Command),
          sentTo s [(r, message r d.encode)] =
            (if r = s then [d] else []).map fun d => (message s d.encode).val := by
        intro r d
        rw [sentTo_cons]
        by_cases hr : r = s
        · rw [if_pos hr, if_pos hr, hr]
          rfl
        · rw [if_neg hr, if_neg hr]
          rfl
      rw [List.flatMap_cons, List.flatMap_cons, sentTo_append, List.map_append, hrest]
      congr 1
      cases c with
      | callFun r k =>
          have hname : k.session = r := hnames r k List.mem_cons_self
          rw [sampleAnswers, hname]
          exact hone r ⟨text "get", [text "player"]⟩
      | connectFun r => exact hone r ⟨text "set", [text "player", text "0"]⟩
      | closeFun r => rfl

/-- The commands with which the sample client has to answer the callbacks of a session. -/
def commands (t : Program RedisBlock2) (s : SessionId) : List Command :=
  t.obj.callbacks.flatMap (sampleCommand s)

omit [LexicalCast] in
theorem unreadAll_commands (s : SessionId) (cs : List Command) :
    unreadAll (cs.map fun c => (message s c.encode).val) = cs.flatMap Command.encode := by
  rw [unreadAll, List.flatMap_map]
  congr 1
  funext c
  exact unread_message s c.encode

/-- The sample client answers a connection with `set` and each reply with `get`: a connection is
handed whole commands, in the order of the callbacks of its session, and all of them when the
service runs and no callback is under way.  As long as the connection does not come up again, the
bytes of its writes are the beginning of these commands. -/
theorem sample_speaks {ok : Bool} {as : List ProgramAction} (has : ∀ ok, .act (.start ok) ∉ as)
    (h : run (step RedisBlock2.blockClass sampleAnswers) (create ⟨.client, true⟩ pool)
      (.act (.start ok) :: as) = some t) (s : SessionId) :
    (∃ handed, handed <+: t.commands s ∧
      unreadAll (t.obj.conn s).accepted = handed.flatMap Command.encode) ∧
    (t.state = .run → t.owed = [] →
      unreadAll (t.obj.conn s).accepted = (t.commands s).flatMap Command.encode) ∧
    (Along (step RedisBlock2.blockClass sampleAnswers) (ComesUpOnce s) (create ⟨.client, true⟩ pool)
        (.act (.start ok) :: as) →
      (t.obj.conn s).completed ++ (t.obj.conn s).writing.flatten <+:
        (t.commands s).flatMap Command.encode) := by
  have hserving := serving_run RedisBlock2.names addressed_sample has h
  have hpref := hserving.handed s
  have hnames : ∀ r k, .callFun r k ∈ t.obj.callbacks → k.session = r := by
    intro r k hmem
    rcases hserving.reached with ⟨bs, hreached⟩
    exact TcpObj.passed_on_satisfies RedisBlock2.names hreached hmem
  rw [sentTo_sample s hnames] at hpref
  have hhanded : ∃ handed, handed <+: t.commands s ∧
      unreadAll (t.obj.conn s).accepted = handed.flatMap Command.encode := by
    rcases List.prefix_map_iff.mp hpref with ⟨handed, hfirst, hmap⟩
    exact ⟨handed, hfirst, by rw [hmap, unreadAll_commands]⟩
  refine ⟨hhanded, ?_, ?_⟩
  · intro hrun howed
    have hsame := hserving.running hrun s
    rw [howed, sentTo_sample s hnames] at hsame
    have hnone : sentTo s [] = [] := rfl
    rw [hnone, List.append_nil] at hsame
    rw [hsame, unreadAll_commands]
    rfl
  · intro honce
    have hbegun := (inOrder_run honce h).begun
    rcases hhanded with ⟨handed, ⟨rest, hrest⟩, hbytes⟩
    have hmore : unreadAll (t.obj.conn s).accepted <+: (t.commands s).flatMap Command.encode := by
      rw [hbytes, ← hrest, List.flatMap_append]
      exact List.prefix_append _ _
    exact hbegun.trans hmore

end Program

/-- The sample client is connected and writes `set`; the reply comes in two reads, and the client
answers it with `get`. -/
def samplePolled : List ProgramAction :=
  [.act (.start true), .act (.handler 1 (.handleConnect false)), .act .poll, .act .event, .send,
    .act .pollReturn, .act (.handler 1 (.writeMessage 0)),
    .act (.handler 1 (.handleReadSome 0 false (text "+O"))),
    .act (.handler 1 (.handleWrite 0 false 32)),
    .act (.handler 1 (.handleReadSome 0 false (text "K\r\n"))), .act .poll, .act .event, .send,
    .act (.handler 1 (.writeMessage 0))]

namespace Program

theorem start_notMem_samplePolled : ∀ ok, .act (.start ok) ∉ samplePolled.tail := by
  simp [samplePolled]

instance (s : SessionId) (t : Program RedisBlock2) :
    (act : ProgramAction) → Decidable (ComesUpOnce s t act)
  | .send => inferInstanceAs (Decidable True)
  | .act (.handler r h) =>
      inferInstanceAs (Decidable (r = s → ¬ (t.obj.conn s).Reopens (.handler h)))
  | .act (.start _) => inferInstanceAs (Decidable True)
  | .act .stop => inferInstanceAs (Decidable True)
  | .act (.kick _) => inferInstanceAs (Decidable True)
  | .act (.send _ _) => inferInstanceAs (Decidable True)
  | .act (.sendAll _) => inferInstanceAs (Decidable True)
  | .act .poll => inferInstanceAs (Decidable True)
  | .act .event => inferInstanceAs (Decidable True)
  | .act .pollReturn => inferInstanceAs (Decidable True)
  | .act (.acceptSocket _) => inferInstanceAs (Decidable True)
  | .act .nextSession => inferInstanceAs (Decidable True)

theorem sample_speaks_polled :
    ∃ t, run (step RedisBlock2.blockClass sampleAnswers) (create ⟨.client, true⟩ ⟨0, []⟩)
        samplePolled = some t ∧
      ((t.commands 1).length = 2 ∧ t.state = .run ∧ t.owed.length = 0) ∧
      unreadAll (t.obj.conn 1).accepted = (t.commands 1).flatMap Command.encode ∧
      (t.obj.conn 1).completed ++ (t.obj.conn 1).writing.flatten <+:
        (t.commands 1).flatMap Command.encode := by
  have hrun : (run (step RedisBlock2.blockClass sampleAnswers)
      (create ⟨.client, true⟩ ⟨0, []⟩) samplePolled).any (fun t => (t.commands 1).length = 2 ∧
        t.state = .run ∧ t.owed.length = 0) = true := by
    decide +kernel
  have honce : Along (step RedisBlock2.blockClass sampleAnswers) (ComesUpOnce 1)
      (create ⟨.client, true⟩ ⟨0, []⟩) samplePolled := by
    decide +kernel
  rcases (Option.any_eq_true _ _).mp hrun with ⟨t, ht, hvalues⟩
  rw [decide_eq_true_eq] at hvalues
  rcases sample_speaks start_notMem_samplePolled ht 1 with ⟨-, hall, hwritten⟩
  exact ⟨t, ht, hvalues, hall hvalues.2.1 (List.length_eq_zero_iff.mp hvalues.2.2),
    hwritten honce⟩

end Program

end FannyNet

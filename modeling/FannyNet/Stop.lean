import FannyNet.Block
import FannyNet.TcpObject

/-!
# Stopping

`stop` sets `m_stop` and asks the connections in `m_onlines`, and a server's current one,
to close.  It takes nothing back: a connect or accept that is under way still completes,
events that wait still run, and a reconnect among them starts the client again.

Main results:

- Theorem `TcpObj.stop_is_final`: a stop with nothing under way is final.
- Theorem `TcpObj.reconnect_undoes_stop`: a queued reconnect undoes it.
-/

namespace FannyNet

open Library.Transition

variable {β : Type}

/-! ## Connections with nothing under way -/

/-- A call or handler that opens no connection. -/
def ConnAction.Calm : ConnAction → Prop
  | .postAccept => False
  | .connect => False
  | _ => True

namespace ConnState

variable {K : BlockClass β} {c c' : ConnState β} {a : ConnAction} {effects : List (Effect β)}

/-- No accept is posted and no connect outstanding. -/
def Settled (c : ConnState β) : Prop :=
  c.accepting = 0 ∧ c.connecting = 0

instance (c : ConnState β) : Decidable c.Settled :=
  inferInstanceAs (Decidable (_ ∧ _))

theorem mem_events {e : Effect β} (he : e = .eventConnect ∨ e = .eventConnectFailed) :
    e ∈ events effects ↔ e ∈ effects := by
  rcases he with rfl | rfl
  · simp [events]
  · simp [events]

theorem Settled.opening_eq (h : c.Settled) (ha : a.Calm) : c.opening a = (0, 0) := by
  rcases h with ⟨haccepting, hconnecting⟩
  cases a with
  | postAccept => exact ha.elim
  | connect => exact ha.elim
  | handler handler => cases handler <;> simp [opening, haccepting, hconnecting]
  | _ => simp [opening, haccepting, hconnecting]

/-- A handler of a settled connection neither brings it up nor reports a failed connect. -/
theorem Settled.outcome {h : Handler} {es : List (Effect β)} (hc : c.Settled)
    (hout : c.Outcome h c' es) :
    (c.closeAsked = true → c'.closeAsked = true) ∧
      .eventConnect ∉ es ∧ .eventConnectFailed ∉ es := by
  rcases hc with ⟨haccepting, hconnecting⟩
  cases hout with
  | quiet _ _ hcont => exact ⟨hcont.closeAsked, by simp, by simp⟩
  | read ps _ _ _ hcont => exact ⟨hcont.closeAsked, by simp, by simp⟩
  | cameUp hopening => omega
  | closed _ _ _ hcont => exact ⟨hcont.closeAsked, by simp, by simp⟩
  | failed hopening => omega

/-- What a call or handler does to a settled connection that it does not open. -/
theorem Settled.step (h : c.Settled) (ha : a.Calm) (hstep : c.step K a = some (c', effects)) :
    c'.Settled ∧ (c.closeAsked = true → c'.closeAsked = true) ∧
      .eventConnect ∉ effects ∧ .eventConnectFailed ∉ effects := by
  have hopening := step_opening hstep
  rw [h.opening_eq ha, Prod.mk.injEq] at hopening
  rw [← mem_events (Or.inl rfl), ← mem_events (Or.inr rfl)]
  refine ⟨⟨hopening.2, hopening.1⟩, ?_⟩
  by_cases hhandler : ∃ handler, a = .handler handler
  · rcases hhandler with ⟨handler, rfl⟩
    exact h.outcome (step_outcome hstep)
  · rw [not_exists] at hhandler
    rcases step_asked hhandler hstep with ⟨hasked, hevents⟩
    rw [hevents]
    exact ⟨hasked.closeAsked, by simp, by simp⟩

end ConnState

/-! ## Objects with nothing under way -/

namespace TcpObj

variable {K : BlockClass β} {t t' u v : TcpObj β} {s : SessionId} {a : ConnAction} {n : Nat}
  {ss ex : List SessionId}

/-- A close has been asked for since the connection last came up. -/
def CloseAsked (t : TcpObj β) (s : SessionId) : Prop :=
  ∃ c, t.conns s = some c ∧ c.closeAsked = true

/-- Nothing is under way that a stop does not reach: no reconnect is queued, every
connection is settled, and the ones that are going to enter `m_onlines` are closed by the
stop, or have been asked to close. -/
structure Quiet (t : TcpObj β) : Prop where
  start : .start ∉ t.pending
  settled : ∀ s c, t.conns s = some c → c.Settled
  connect : ∀ s, .eventConnect s ∈ t.pending → s ∈ t.onlines ∨
    (t.config.serviceType = .server ∧ t.current = some s) ∨ t.CloseAsked s

/-- Without events only the connections that were created have to be looked at. -/
theorem quiet_of_settled (hk : t.Known) (hpending : t.pending = [])
    (hsettled : ∀ s ≤ t.pool.curSessionId, ∀ c ∈ t.conns s, c.Settled) : t.Quiet := by
  refine ⟨by simp [hpending], ?_, by simp [hpending]⟩
  intro s c hc
  refine hsettled s ?_ c hc
  by_contra hlt
  rw [hk s (Nat.lt_of_not_le hlt)] at hc
  cases hc

/-- What holds from a stop on, after `n` attempts to accept or connect.  The connections in
`ex` are still to be asked. -/
structure StaysStopped (n : Nat) (ex : List SessionId) (t : TcpObj β) : Prop where
  stopped : t.stopped = true
  attempts : t.attempts = n
  start : .start ∉ t.pending
  settled : ∀ s c, t.conns s = some c → c.Settled
  asked : ∀ s, s ∈ t.onlines ∨ .eventConnect s ∈ t.pending → s ∈ ex ∨ t.CloseAsked s

/-- Neither connects nor reconnects are pushed without their effects. -/
theorem notMem_pushed {effects : List (Effect β)} (hconnect : .eventConnect ∉ effects)
    (hfailed : .eventConnectFailed ∉ effects) (r : SessionId) :
    .start ∉ effects.flatMap (t.pushed s) ∧ .eventConnect r ∉ effects.flatMap (t.pushed s) := by
  simp only [List.mem_flatMap, not_exists, not_and]
  refine ⟨?_, ?_⟩
  · rintro e he hmem
    cases e with
    | eventConnectFailed => exact hfailed he
    | _ => simp [pushed] at hmem
  · rintro e he hmem
    cases e with
    | eventConnectFailed => exact hfailed he
    | eventConnect => exact hconnect he
    | _ => simp [pushed] at hmem

/-- Running a settled connection without opening it. -/
theorem runConn_settled (hsettled : ∀ s c, t.conns s = some c → c.Settled) (ha : a.Calm)
    (hrun : runConn K t s a = some t') :
    (∀ r c, t'.conns r = some c → c.Settled) ∧
      (∀ r, t.CloseAsked r → t'.CloseAsked r) ∧
      (.start ∈ t'.pending → .start ∈ t.pending) ∧
      ∀ r, .eventConnect r ∈ t'.pending → .eventConnect r ∈ t.pending := by
  simp only [runConn, Option.bind_eq_bind, Option.bind_eq_some_iff, Option.some.injEq] at hrun
  rcases hrun with ⟨c, hc, ⟨c', effects⟩, hstep, rfl⟩
  rcases (hsettled s c hc).step ha hstep with ⟨hc', hasked, hconnect, hfailed⟩
  have hpushed := notMem_pushed (t := t) (s := s) hconnect hfailed
  refine ⟨?_, ?_, ?_, ?_⟩
  · intro r d hd
    by_cases hr : r = s
    · subst hr
      simp only [Function.update_self, Option.some.injEq] at hd
      exact hd ▸ hc'
    · simp only [Function.update_of_ne hr] at hd
      exact hsettled r d hd
  · rintro r ⟨d, hd, hask⟩
    by_cases hr : r = s
    · subst hr
      rw [hc, Option.some.injEq] at hd
      subst hd
      exact ⟨c', Function.update_self _ _ _, hasked hask⟩
    · exact ⟨d, (Function.update_of_ne hr _ _).trans hd, hask⟩
  · intro hmem
    simp only [pending, ← List.append_assoc, List.mem_append] at hmem ⊢
    exact hmem.resolve_right (hpushed s).1
  · intro r hmem
    simp only [pending, ← List.append_assoc, List.mem_append] at hmem ⊢
    exact hmem.resolve_right (hpushed r).2

theorem StaysStopped.runConn (h : t.StaysStopped n ex) (ha : a.Calm)
    (hrun : runConn K t s a = some t') : t'.StaysStopped n ex := by
  rcases runConn_settled h.settled ha hrun with ⟨hsettled, hasked, hstart, hconnect⟩
  rcases frame_runConn hrun with ⟨-, -, honlines, -, -, hstopped, -, hattempts, -, -⟩
  refine ⟨hstopped.trans h.stopped, hattempts.trans h.attempts, ?_, hsettled, ?_⟩
  · exact fun hmem => h.start (hstart hmem)
  · intro r hr
    rw [honlines] at hr
    exact (h.asked r (hr.imp_right (hconnect r))).imp_right (hasked r)

/-- Asking a connection to close takes it off the list of those still to be asked. -/
theorem StaysStopped.close (h : t.StaysStopped n (s :: ex))
    (hrun : TcpObj.runConn K t s (.close false) = some t') : t'.StaysStopped n ex := by
  have h' := h.runConn (a := .close false) trivial hrun
  have hclosed : t'.CloseAsked s := by
    simp only [TcpObj.runConn, Option.bind_eq_bind, Option.bind_eq_some_iff,
      Option.some.injEq] at hrun
    rcases hrun with ⟨c, -, ⟨c', effects⟩, hstep, rfl⟩
    cases hstep
    exact ⟨_, Function.update_self _ _ _, rfl⟩
  refine ⟨h'.stopped, h'.attempts, h'.start, h'.settled, ?_⟩
  intro r hr
  rcases h'.asked r hr with hmem | hask
  · rcases List.mem_cons.mp hmem with rfl | hmem
    · exact Or.inr hclosed
    · exact Or.inl hmem
  · exact Or.inr hask

theorem StaysStopped.closeAll (h : t.StaysStopped n (ss ++ ex))
    (hrun : runAll K t ss (.close false) = some t') : t'.StaysStopped n ex := by
  induction ss generalizing t with
  | nil =>
      cases hrun
      exact h
  | cons s ss ih =>
      rw [runAll, List.foldlM_cons, Option.bind_eq_bind, Option.bind_eq_some_iff] at hrun
      rcases hrun with ⟨mid, hmid, hrest⟩
      exact ih (h.close hmid) hrest

theorem StaysStopped.runAll (h : t.StaysStopped n ex) (ha : a.Calm)
    (hrun : TcpObj.runAll K t ss a = some t') : t'.StaysStopped n ex := by
  induction ss generalizing t with
  | nil =>
      cases hrun
      exact h
  | cons s ss ih =>
      rw [TcpObj.runAll, List.foldlM_cons, Option.bind_eq_bind, Option.bind_eq_some_iff] at hrun
      rcases hrun with ⟨mid, hmid, hrest⟩
      exact ih (h.runConn ha hmid) hrest

/-- The connections that a stop asks to close. -/
def stopCloses (t : TcpObj β) : List SessionId :=
  t.onlines ++ if t.config.serviceType = .server then t.current.toList else []

/-- A stop asks all of its connections to close. -/
theorem StaysStopped.stop (h : ({ t with stopped := true } : TcpObj β).StaysStopped n
    (t.stopCloses ++ ex)) (hstop : TcpObj.stop K t = some t') : t'.StaysStopped n ex := by
  simp only [TcpObj.stop, Option.bind_eq_bind, Option.bind_eq_some_iff] at hstop
  rcases hstop with ⟨mid, hmid, hstop⟩
  rw [stopCloses, List.append_assoc] at h
  have hmid' := h.closeAll hmid
  rcases frame_runAll hmid with ⟨hconfig, hcurrent, -⟩
  unfold doStop at hstop
  rw [hconfig, hcurrent] at hstop
  cases hflag : t.config.serviceType with
  | client =>
      simp only [hflag, Option.some.injEq, reduceCtorEq, if_false, List.nil_append] at hstop hmid'
      exact hstop ▸ hmid'
  | server =>
      cases hcur : t.current with
      | none => simp [hflag, hcur] at hstop
      | some s =>
          simp only [hflag, hcur, if_true, Option.toList_some, List.singleton_append]
            at hstop hmid'
          exact hmid'.close hstop

/-- What was quiet before a stop stays stopped from then on. -/
theorem Quiet.stop (h : t.Quiet) (hstop : TcpObj.stop K t = some t') :
    t'.StaysStopped t.attempts [] := by
  refine StaysStopped.stop ⟨rfl, rfl, h.start, h.settled, ?_⟩ hstop
  rintro s (honline | hconnect)
  · exact Or.inl (by simp [stopCloses, honline])
  · rcases h.connect s hconnect with honline | ⟨hflag, hcurrent⟩ | hasked
    · exact Or.inl (by simp [stopCloses, honline])
    · exact Or.inl (by simp [stopCloses, hflag, hcurrent])
    · exact Or.inr hasked

/-- Stopping once more changes nothing of it. -/
theorem StaysStopped.again (h : t.StaysStopped n []) (hstop : TcpObj.stop K t = some t') :
    t'.StaysStopped n [] := by
  refine StaysStopped.stop ⟨rfl, h.attempts, h.start, h.settled, ?_⟩ hstop
  intro s hs
  exact Or.inr ((h.asked s hs).resolve_left (List.not_mem_nil))

theorem StaysStopped.event (h : t.StaysStopped n []) (hevent : TcpObj.event K t = some t') :
    t'.StaysStopped n [] := by
  unfold TcpObj.event at hevent
  split at hevent
  · rename_i e rest hrecv
    have hpending : t.pending = e :: (rest ++ t.call) := by simp [pending, hrecv]
    have hstart := h.start
    have hasked := h.asked
    rw [hpending, List.mem_cons, not_or] at hstart
    simp only [hpending, List.mem_cons] at hasked
    cases e with
    | start => exact absurd rfl hstart.1
    | eventRecv s p =>
        cases hevent
        refine ⟨h.stopped, h.attempts, hstart.2, h.settled, ?_⟩
        intro r hr
        exact hasked r (hr.imp_right Or.inr)
    | eventConnect s =>
        cases hevent
        refine ⟨h.stopped, h.attempts, hstart.2, h.settled, ?_⟩
        rintro r (hr | hr)
        · rcases List.mem_insert_iff.mp hr with rfl | hr
          · exact hasked r (Or.inr (Or.inl rfl))
          · exact hasked r (Or.inl hr)
        · exact hasked r (Or.inr (Or.inr hr))
    | eventCloseFun s =>
        cases hevent
        refine ⟨h.stopped, h.attempts, ?_, h.settled, ?_⟩
        · simpa [pending] using hstart.2
        · intro r hr
          refine hasked r (hr.imp_right ?_)
          intro hmem
          simpa [pending] using hmem
    | delSession s =>
        cases hevent
        refine ⟨h.stopped, h.attempts, hstart.2, h.settled, ?_⟩
        intro r hr
        exact hasked r (hr.imp (fun hmem => (List.mem_filter.mp hmem).1) Or.inr)
  · cases hevent

/-- The events that wait are all that counts of the lists of a poll. -/
theorem StaysStopped.of_pending {recv : Option (List (TcpEvent β))} {call ran : List (TcpEvent β)}
    (h : t.StaysStopped n [])
    (hpending : ({ t with recv := recv, call := call, ran := ran } : TcpObj β).pending =
      t.pending) : ({ t with recv := recv, call := call, ran := ran } : TcpObj β).StaysStopped
        n [] := by
  refine ⟨h.stopped, h.attempts, ?_, h.settled, ?_⟩
  · rw [hpending]
    exact h.start
  · rw [hpending]
    exact h.asked

/-- Nothing but a start by the user ends it. -/
theorem StaysStopped.step {act : TcpAction} (h : t.StaysStopped n [])
    (huser : ∀ ok, act ≠ .start ok) (hstep : TcpObj.step K t act = some t') :
    t'.StaysStopped n [] := by
  cases step_cases hstep with
  | start hstart => exact absurd rfl (huser _)
  | stop hstop => exact h.again hstop
  | unknown => exact h
  | kick hs hrun => exact h.runConn (a := .close false) trivial hrun
  | @send s p _ hs hrun => exact h.runConn (a := .send p) trivial hrun
  | @sendAll p _ hrun => exact h.runAll (a := .send p) trivial hrun
  | poll hrecv => exact h.of_pending (pending_poll hrecv)
  | event hevent => exact h.event hevent
  | pollReturn hrecv => exact h.of_pending (pending_pollReturn hrecv)
  | acceptSocket hpos haccept =>
      simp only [acceptSocket, h.stopped, if_true, Option.some.injEq] at haccept
      rw [← haccept]
      exact ⟨rfl, h.attempts, h.start, h.settled, h.asked⟩
  | @handler s h' _ hrun => exact h.runConn (a := .handler h') trivial hrun
  | nextSession => exact ⟨h.stopped, h.attempts, h.start, h.settled, h.asked⟩

/-- After a stop with nothing under way, and until the user starts the object again, it
stays stopped, no connect or accept is begun, and every connection in `m_onlines` has been
asked to close. -/
theorem stop_is_final {as : List TcpAction} (hquiet : t.Quiet)
    (hstop : TcpObj.step K t .stop = some u) (huser : ∀ a ∈ as, ∀ ok, a ≠ .start ok)
    (h : run (TcpObj.step K) u as = some v) :
    v.stopped = true ∧ v.attempts = u.attempts ∧
      ∀ s ∈ v.onlines, ∃ c, v.conns s = some c ∧ c.closeAsked = true := by
  have hu : u.StaysStopped t.attempts [] := hquiet.stop hstop
  have hv : v.StaysStopped t.attempts [] :=
    run_invariant_of_along (fun _ _ _ hs ha hstep => hs.step ha hstep) hu
      (along_of_forall huser) h
  refine ⟨hv.stopped, hv.attempts.trans hu.attempts.symm, ?_⟩
  intro s hs
  exact (hv.asked s (Or.inl hs)).resolve_left List.not_mem_nil

/-- A server is stopped with one connection, whose close event is polled. -/
theorem stop_is_final_server :
    ∃ t u v, run (TcpObj.step NetBlock.blockClass) (create ⟨.server, false⟩ ⟨0, []⟩)
        [.start true, .acceptSocket false, .handler 1 .handlAccept, .poll, .event,
          .pollReturn] = some t ∧
      TcpObj.step NetBlock.blockClass t .stop = some u ∧
      run (TcpObj.step NetBlock.blockClass) u
        [.handler 1 (.handleClose 0), .poll, .event, .event, .acceptSocket true] = some v ∧
      v.stopped = true ∧ v.attempts = u.attempts ∧
      ∀ s ∈ v.onlines, ∃ c, v.conns s = some c ∧ c.closeAsked = true := by
  have hrun : ((run (TcpObj.step NetBlock.blockClass) (create ⟨.server, false⟩ ⟨0, []⟩)
      [.start true, .acceptSocket false, .handler 1 .handlAccept, .poll, .event,
        .pollReturn]).bind fun t =>
        (TcpObj.step NetBlock.blockClass t .stop).bind fun u =>
          (run (TcpObj.step NetBlock.blockClass) u
            [.handler 1 (.handleClose 0), .poll, .event, .event, .acceptSocket true]).map fun _ =>
              decide (t.pending = [] ∧
                ∀ s ≤ t.pool.curSessionId, ∀ c ∈ t.conns s, c.Settled)) = some true := by
    decide +kernel
  simp only [Option.bind_eq_some_iff, Option.map_eq_some_iff, decide_eq_true_eq] at hrun
  rcases hrun with ⟨t, ht, u, hu, v, hv, hpending, hsettled⟩
  have hquiet := quiet_of_settled (known_run ht) hpending hsettled
  exact ⟨t, u, v, ht, hu, hv, stop_is_final hquiet hu (by simp) hv⟩

/-- A reconnect that is queued when the user stops undoes the stop, and a connection whose
connect event is queued enters `m_onlines` without having been asked to close. -/
theorem reconnect_undoes_stop :
    (∃ t u v, run (TcpObj.step NetBlock.blockClass) (create ⟨.client, true⟩ ⟨0, []⟩)
        [.start true, .handler 1 (.handleConnect true)] = some t ∧
      TcpObj.step NetBlock.blockClass t .stop = some u ∧
      run (TcpObj.step NetBlock.blockClass) u [.poll, .event] = some v ∧
      v.stopped = false ∧ v.attempts = u.attempts + 1) ∧
    ∃ t u v, run (TcpObj.step NetBlock.blockClass) (create ⟨.server, false⟩ ⟨0, []⟩)
        [.start true, .acceptSocket false, .handler 1 .handlAccept] = some t ∧
      TcpObj.step NetBlock.blockClass t .stop = some u ∧
      run (TcpObj.step NetBlock.blockClass) u [.poll, .event] = some v ∧
      v.onlines = [1] ∧ (v.conns 1).map ConnState.closeAsked = some false := by
  refine ⟨?_, ?_⟩
  · have hrun : ((run (TcpObj.step NetBlock.blockClass) (create ⟨.client, true⟩ ⟨0, []⟩)
        [.start true, .handler 1 (.handleConnect true)]).bind fun t =>
          (TcpObj.step NetBlock.blockClass t .stop).bind fun u =>
            (run (TcpObj.step NetBlock.blockClass) u [.poll, .event]).map fun v =>
              (u.attempts, v.attempts, v.stopped)) = some (1, 2, false) := by
      decide +kernel
    simp only [Option.bind_eq_some_iff, Option.map_eq_some_iff, Prod.mk.injEq] at hrun
    rcases hrun with ⟨t, ht, u, hu, v, hv, hbefore, hafter, hstopped⟩
    exact ⟨t, u, v, ht, hu, hv, hstopped, by rw [hbefore, hafter]⟩
  · have hrun : ((run (TcpObj.step NetBlock.blockClass) (create ⟨.server, false⟩ ⟨0, []⟩)
        [.start true, .acceptSocket false, .handler 1 .handlAccept]).bind fun t =>
          (TcpObj.step NetBlock.blockClass t .stop).bind fun u =>
            (run (TcpObj.step NetBlock.blockClass) u [.poll, .event]).map fun v =>
              (v.onlines, (v.conns 1).map ConnState.closeAsked)) = some ([1], some false) := by
      decide +kernel
    simp only [Option.bind_eq_some_iff, Option.map_eq_some_iff, Prod.mk.injEq] at hrun
    rcases hrun with ⟨t, ht, u, hu, v, hv, honlines, hasked⟩
    exact ⟨t, u, v, ht, hu, hv, honlines, Option.map_eq_some_iff.mpr hasked⟩

end TcpObj

end FannyNet

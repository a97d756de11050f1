import FannyNet.SendPath

/-!
# Closing with data in hand

A close without error is put off until everything is sent, so it drops nothing.  After
a failed write or a close with an error, what is left in the send buffer stays there:
a handler that still waits may offer it to the socket again, and a later close without
error is put off for ever.

Main results:

- Theorem `ConnState.graceful_close_drops_nothing`: a close without error drops nothing.
- Theorem `ConnState.no_write_after_failure_iff`: when no write follows a failed one.
- Theorem `ConnState.dead_close_quiet_iff`: when a close of a closed connection is not
  put off.
-/

namespace FannyNet

open Library.Transition

namespace ConnState

variable {β : Type} {K : BlockClass β} {s s' : ConnState β} {effects : List (Effect β)}

/-! ## A close without error -/

/-- Whenever `handleClose` without error closes the socket, every byte of every block
handed to `send` until then has been written. -/
theorem graceful_close_drops_nothing (sid : SessionId) (size : Nat) {actions : List ConnAction}
    (hactions : ∀ a ∈ actions, ¬ a.ComesUp) (h : run (next K) (up sid size) actions = some s)
    {i : Nat} (hi : s.closing[i]? = some false)
    (hclose : s.step K (.handler (.handleClose i)) = some (s', effects))
    (hshut : Effect.closeSocket ∈ effects) :
    s.completed = unreadAll s.accepted ∧
      ((∀ p ∈ s.accepted, p.readPos = 0) → s.completed = s.accepted.flatMap NetBuffer.data) := by
  have hinv : s.sendPath.Flying ∧ s.sendPath.Balanced := by
    refine run_sendPath (I := fun s => s.Flying ∧ s.Balanced) ?_ hactions
      ⟨flying_up sid size, balanced_up sid size⟩ h
    intro s a ws t hmove ha hs
    exact ⟨hmove.flying hs.1, hmove.balanced ha hs.1 hs.2⟩
  rcases hinv with ⟨hflying, hbalanced⟩
  have hunsent : s.conn.unsent = false := by
    rcases step_handleClose hclose with ⟨er, her, ⟨-, -, -, rfl⟩ | ⟨hdone, -, -⟩⟩
    · simp at hshut
    · rw [hi, Option.some.injEq] at her
      rcases hdone with rfl | hdone
      · cases her
      · exact hdone
  rcases hflying.unsent_eq_false_iff.mp hunsent with ⟨-, hlist, hempty⟩
  have hbytes : s.completed = unreadAll s.accepted := by
    rcases hbalanced with hbytes | ⟨-, -, hne⟩
    · change s.completed ++ s.conn.bufferSend.unread ++ unreadAll s.conn.sendList =
        unreadAll s.accepted at hbytes
      have hlist' : s.conn.sendList = [] := hlist
      have hempty' : s.conn.bufferSend.unread = [] := hempty
      rw [hlist', hempty', unreadAll_nil, List.append_nil, List.append_nil] at hbytes
      exact hbytes
    · exact absurd hempty hne
  exact ⟨hbytes, fun hfresh => hbytes.trans (unreadAll_eq_data hfresh)⟩

/-- A close that is put off while a write is in flight, and carried out after it. -/
def closedInTime : List ConnAction :=
  [.send (filled [1, 2, 3]), .handler (.writeMessage 0), .close false, .handler (.handleClose 0),
    .handler (.handleWrite 0 false 3)]

theorem graceful_close_drops_nothing_closedInTime :
    ∃ s : ConnState NetBlock, run (next NetBlock.blockClass) (up 1 4) closedInTime = some s ∧
      s.completed = s.accepted.flatMap NetBuffer.data ∧ s.accepted ≠ [] := by
  have hclosed : (run (next NetBlock.blockClass) (up 1 4) closedInTime).any (fun s =>
      s.closing[0]? = some false ∧ s.accepted ≠ [] ∧ (∀ p ∈ s.accepted, p.readPos = 0) ∧
        (s.step NetBlock.blockClass (.handler (.handleClose 0))).any fun r =>
          .closeSocket ∈ r.2) = true := by
    decide +kernel
  rcases (Option.any_eq_true _ _).mp hclosed with ⟨s, hs, hvalues⟩
  rw [decide_eq_true_eq] at hvalues
  rcases hvalues with ⟨hi, hne, hfresh, hstep⟩
  rcases (Option.any_eq_true _ _).mp hstep with ⟨⟨s', effects⟩, hclose, hshut⟩
  have hactions : ∀ a ∈ closedInTime, ¬ a.ComesUp := by
    simp [closedInTime, ConnAction.ComesUp]
  exact ⟨s, hs, (graceful_close_drops_nothing 1 4 hactions hs hi hclose
    (of_decide_eq_true hshut)).2 hfresh, hne⟩

/-! ## After a failed write -/

/-- A waiting `writeMessage` is run while the connection is up after a failed write. -/
def RetriesWrite (s : ConnState β) : ConnAction → Prop
  | .handler (.writeMessage i) =>
      s.posted[i]? ≠ none ∧ s.writeFailed = true ∧ s.conn.connected = true
  | _ => False

/-- After a failed write, and as long as none is started, its bytes stay in the send
buffer and nothing is in flight. -/
structure Spoilt (s : ConnState β) : Prop where
  flying : s.sendPath.Flying
  left : s.writeFailed = true → s.conn.isSend = false ∧ s.conn.bufferSend.unread ≠ []

/-- Without a retry no write is started after a failed one, and its bytes stay. -/
theorem spoilt_move {t t' : SendPath} {a : ConnAction} {ws : List Bytes}
    (h : SendPath.Move t a ws t') (hf : t.Flying)
    (hs : t.writeFailed = true → t.isSend = false ∧ t.buffer.unread ≠ [])
    (ha : ∀ i, a = .handler (.writeMessage i) → t.posted[i]? ≠ none → t.writeFailed = true →
      t.connected = false) :
    (t.writeFailed = true → ws = []) ∧
      (t'.writeFailed = true → t'.isSend = false ∧ t'.buffer.unread ≠ []) := by
  have hnone : t.writeFailed = true → ∀ (i : Nat) (bytes : Bytes), t.writing[i]? ≠ some bytes := by
    intro hfailed i bytes hi
    have hsend := (hf.of_getElem? hi).1
    rw [(hs hfailed).1] at hsend
    cases hsend
  cases h with
  | quiet => exact ⟨fun _ => rfl, hs⟩
  | send p => exact ⟨fun _ => rfl, hs⟩
  | idle i => exact ⟨fun _ => rfl, hs⟩
  | wake i size hi hconn hsend =>
      have hgood : ¬ t.writeFailed = true := by
        intro hfailed
        rw [ha i rfl (by rw [hi]; exact Option.some_ne_none size) hfailed] at hconn
        cases hconn
      exact ⟨fun hfailed => absurd hfailed hgood, fun hfailed => absurd hfailed hgood⟩
  | shut => exact ⟨fun _ => rfl, hs⟩
  | up =>
      refine ⟨fun _ => rfl, ?_⟩
      intro hfailed
      cases hfailed
  | failed i size bytes hi => exact ⟨fun _ => rfl, fun _ => ⟨rfl, (hf.of_getElem? hi).2.2.2⟩⟩
  | late i bytes hi =>
      refine ⟨fun _ => rfl, ?_⟩
      intro hfailed
      exact absurd hi (hnone hfailed i bytes)
  | written i bytes hi =>
      exact ⟨fun hfailed => absurd hi (hnone hfailed i bytes),
        fun hfailed => absurd hi (hnone hfailed i bytes)⟩

theorem mem_writesOf {bytes : Bytes} :
    bytes ∈ writesOf effects ↔ .asyncWrite bytes ∈ effects := by
  rw [writesOf, List.mem_filterMap]
  constructor
  · rintro ⟨e, he, hbytes⟩
    cases e with
    | asyncWrite written =>
        rw [Option.some.injEq] at hbytes
        rw [← hbytes]
        exact he
    | _ => cases hbytes
  · intro hmem
    exact ⟨_, hmem, rfl⟩

theorem flying_create (sid : SessionId) (size : Nat) :
    (create sid size : ConnState β).sendPath.Flying where
  buffer := ⟨NetBuffer.valid_create size, rfl, rfl⟩
  blocks := by
    intro p hp
    cases hp
  posted := by
    intro n hn
    cases hn
  writing := Or.inr ⟨rfl, rfl⟩

theorem spoilt_next {a : ConnAction} (hs : s.Spoilt) (ha : ¬ s.RetriesWrite a)
    (h : s.step K a = some (s', effects)) :
    (s.writeFailed = true → writesOf effects = []) ∧ s'.Spoilt := by
  have hmove := step_sendPath h
  have hquiet : ∀ i, a = .handler (.writeMessage i) → s.posted[i]? ≠ none →
      s.writeFailed = true → s.conn.connected = false := by
    intro i hi hposted hfailed
    rw [hi] at ha
    by_contra hconn
    exact ha ⟨hposted, hfailed, Bool.eq_true_of_not_eq_false hconn⟩
  rcases spoilt_move hmove hs.flying hs.left hquiet with ⟨hnone, hleft⟩
  exact ⟨hnone, hmove.flying hs.flying, hleft⟩

/-- A retry offers the bytes of the failed write to the socket again. -/
theorem retry_starts_write {a : ConnAction} (hs : s.Spoilt) (ha : s.RetriesWrite a) :
    ∃ s' effects, s.step K a = some (s', effects) ∧ writesOf effects ≠ [] := by
  cases a with
  | handler handler =>
      cases handler with
      | writeMessage i =>
          rcases ha with ⟨hposted, hfailed, hconn⟩
          rcases hs.left hfailed with ⟨hsend, hne⟩
          rcases Option.ne_none_iff_exists'.mp hposted with ⟨size, hi⟩
          have hzero : size = 0 := hs.flying.posted size (List.mem_of_getElem? hi)
          subst hzero
          rcases sendPath_writeMessage (s := { s with posted := s.posted.eraseIdx i }) hconn hsend
            0 with ⟨-, hwrites⟩
          have hstep : s.step K (.handler (.writeMessage i)) =
              some ({ s with posted := s.posted.eraseIdx i }.handled (s.conn.writeMessage 0)) := by
            simp only [step, runHandler, hi, Option.bind_eq_bind, Option.bind_some]
          refine ⟨_, _, hstep, ?_⟩
          intro hnil
          exact SendPath.started_ne_nil hs.flying.buffer hs.flying.blocks hne
            (hwrites.symm.trans hnil)
      | _ => exact ha.elim
  | _ => exact ha.elim

/-- After a failed write no write is started until the connection comes up again, exactly
in the runs in which no waiting `writeMessage` is run between a failed write and the close
that it asked for. -/
theorem no_write_after_failure_iff (sid : SessionId) (size : Nat) (actions : List ConnAction) :
    Along (next K) (fun s a => ∀ s' effects, s.step K a = some (s', effects) →
        s.writeFailed = true → ∀ bytes, Effect.asyncWrite bytes ∉ effects)
        (create sid size : ConnState β) actions ↔
      Along (next K) (fun s a => ¬ s.RetriesWrite a) (create sid size : ConnState β) actions := by
  refine along_iff_along (I := Spoilt) ?_ ?_ ⟨flying_create sid size, ?_⟩
  · intro s a hs
    constructor
    · intro hnone hretry
      rcases retry_starts_write (K := K) hs hretry with ⟨s', effects, hstep, hwrites⟩
      rcases List.exists_mem_of_ne_nil _ hwrites with ⟨bytes, hbytes⟩
      have hfailed : s.writeFailed = true := by
        cases a with
        | handler handler =>
            cases handler with
            | writeMessage i => exact hretry.2.1
            | _ => exact hretry.elim
        | _ => exact hretry.elim
      exact hnone s' effects hstep hfailed bytes (mem_writesOf.mp hbytes)
    · intro hretry s' effects hstep hfailed bytes hbytes
      have hwrites := (spoilt_next hs hretry hstep).1 hfailed
      rw [← mem_writesOf, hwrites] at hbytes
      cases hbytes
  · intro s a s' hs hretry hnext
    rcases next_eq_some.mp hnext with ⟨effects, hstep⟩
    exact (spoilt_next hs hretry hstep).2
  · intro hfailed
    cases hfailed

/-- The first write fails after one byte, and a handler posted meanwhile is run before the
close. -/
def rewritten : List ConnAction :=
  [.postAccept, .handler .handlAccept, .send (filled [1, 2, 3]), .handler (.writeMessage 0),
    .send (filled [4]), .handler (.handleWrite 0 true 1)]

/-- The bytes of a failed write, of which one is on the wire, are offered to the socket
again. -/
theorem failed_write_is_repeated :
    ∃ s s' : ConnState NetBlock, ∃ effects,
      run (next NetBlock.blockClass) (create 1 8) rewritten = some s ∧ s.writeFailed = true ∧
        s.step NetBlock.blockClass (.handler (.writeMessage 0)) = some (s', effects) ∧
          Effect.asyncWrite [1, 2, 3, 4] ∈ effects := by
  have hrun : (run (next NetBlock.blockClass) (create 1 8) rewritten).any (fun s =>
      s.writeFailed = true ∧ (s.step NetBlock.blockClass (.handler (.writeMessage 0))).any
        fun r => .asyncWrite [1, 2, 3, 4] ∈ r.2) = true := by
    decide +kernel
  rcases (Option.any_eq_true _ _).mp hrun with ⟨s, hs, hvalues⟩
  rw [decide_eq_true_eq] at hvalues
  rcases (Option.any_eq_true _ _).mp hvalues.2 with ⟨⟨s', effects⟩, hstep, hmem⟩
  exact ⟨s, s', effects, hs, hvalues.1, hstep, of_decide_eq_true hmem⟩

/-! ## Closing a closed connection -/

/-- Nothing is handed to `send` once the connection is closed, and an error closes it only
when nothing is left to send. -/
def LeavesNothing (s : ConnState β) : ConnAction → Prop
  | .send _ => s.closed = false
  | .handler (.handleClose i) => s.closing[i]? = some true → s.conn.unsent = false
  | _ => True

/-- A connection that was closed is down and has nothing left to send. -/
def Spent (s : ConnState β) : Prop :=
  s.closed = true → s.conn.connected = false ∧ s.conn.unsent = false

theorem mem_handleClose_iff {conn : Connection β} {er : NetErrorType} :
    Effect.postHandleClose er ∈ (conn.handleClose false).2 ↔ er = false ∧ conn.unsent = true := by
  rcases conn.handleClose_cases false with ⟨-, hunsent, hclose⟩ | ⟨hdone, hclose⟩
  · simp [hclose, hunsent]
  · have hunsent : conn.unsent = false := by
      rcases hdone with hdone | hdone
      · cases hdone
      · exact hdone
    simp [hclose, hunsent]

/-- The moves that are no close leave a closed connection with nothing to send. -/
theorem spent_move {t t' : SendPath} {a : ConnAction} {ws : List Bytes}
    (h : SendPath.Move t a ws t') (hclose : ∀ i, a ≠ .handler (.handleClose i))
    (hsend : ∀ p, a = .send p → t.closed = false)
    (hs : t.closed = true → t.connected = false ∧ t.unsent = false) :
    t'.closed = true → t'.connected = false ∧ t'.unsent = false := by
  have hup : t.connected = true → ¬ t.closed = true := by
    intro hconn hclosed
    rw [(hs hclosed).1] at hconn
    cases hconn
  cases h with
  | quiet => exact hs
  | send p =>
      intro hclosed
      rw [hsend p rfl] at hclosed
      cases hclosed
  | idle i => exact hs
  | wake i size hi hconn => exact fun hclosed => absurd hclosed (hup hconn)
  | shut i => exact absurd rfl (hclose i)
  | up =>
      intro hclosed
      cases hclosed
  | failed i size bytes hi =>
      intro hclosed
      rcases hs hclosed with ⟨hdown, hunsent⟩
      exact ⟨hdown, SendPath.unsent_eq_false_iff.mpr
        ⟨rfl, (SendPath.unsent_eq_false_iff.mp hunsent).2⟩⟩
  | late i bytes hi =>
      intro hclosed
      rcases hs hclosed with ⟨hdown, hunsent⟩
      exact ⟨hdown, SendPath.unsent_eq_false_iff.mpr
        ⟨rfl, (SendPath.unsent_eq_false_iff.mp hunsent).2⟩⟩
  | written i bytes hi hconn => exact fun hclosed => absurd hclosed (hup hconn)

theorem spent_next {a : ConnAction} (hs : s.Spent) (ha : s.LeavesNothing a)
    (h : s.step K a = some (s', effects)) : s'.Spent := by
  by_cases hclose : ∃ i, a = .handler (.handleClose i)
  · rcases hclose with ⟨i, rfl⟩
    rcases step_handleClose h with ⟨er, hi, ⟨-, -, rfl, -⟩ | ⟨hdone, rfl, -⟩⟩
    · exact hs
    · refine fun _ => ⟨rfl, ?_⟩
      rcases hdone with rfl | hdone
      · exact ha hi
      · exact hdone
  · rw [not_exists] at hclose
    have hsend : ∀ p, a = .send p → s.closed = false := by
      rintro p rfl
      exact ha
    exact spent_move (step_sendPath h) hclose hsend hs

/-- What is left when it is not meant to be: the connection is closed with something left
to send. -/
theorem not_spent_next {a : ConnAction} (ha : ¬ s.LeavesNothing a) :
    ∃ s' effects, s.step K a = some (s', effects) ∧ s'.closed = true ∧ s'.conn.unsent = true := by
  cases a with
  | send p =>
      refine ⟨_, _, rfl, Bool.eq_true_of_not_eq_false ha, ?_⟩
      simp [Connection.unsent, Connection.send, perform]
  | handler handler =>
      cases handler with
      | handleClose i =>
          rw [LeavesNothing, Classical.not_imp, Bool.not_eq_false] at ha
          rcases ha with ⟨hi, hunsent⟩
          have hstep : s.step K (.handler (.handleClose i)) =
              some ({ s with closing := s.closing.eraseIdx i }.handled
                (s.conn.handleClose true)) := by
            simp only [step, runHandler, hi, Option.bind_eq_bind, Option.bind_some]
          exact ⟨_, _, hstep, rfl, hunsent⟩
      | _ => exact absurd trivial ha
  | _ => exact absurd trivial ha

/-- No state is reached in which a close without error of a closed connection is put off,
exactly in the runs that leave nothing to send behind. -/
theorem dead_close_quiet_iff (sid : SessionId) (size : Nat) (actions : List ConnAction) :
    Along (next K) (fun s a => ∀ s', s.next K a = some s' → s'.closed = true →
        ∀ er, Effect.postHandleClose er ∉ (s'.conn.handleClose false).2)
        (create sid size : ConnState β) actions ↔
      Along (next K) LeavesNothing (create sid size : ConnState β) actions := by
  refine along_iff_along (I := Spent) ?_ ?_ ?_
  · intro s a hs
    constructor
    · intro hquiet
      by_contra ha
      rcases not_spent_next (K := K) ha with ⟨s', effects, hstep, hclosed, hunsent⟩
      exact hquiet s' (next_eq_some.mpr ⟨effects, hstep⟩) hclosed false
        (mem_handleClose_iff.mpr ⟨rfl, hunsent⟩)
    · intro ha s' hnext hclosed er hmem
      rcases next_eq_some.mp hnext with ⟨effects, hstep⟩
      have hunsent := (spent_next hs ha hstep hclosed).2
      rw [(mem_handleClose_iff.mp hmem).2] at hunsent
      cases hunsent
  · intro s a s' hs ha hnext
    rcases next_eq_some.mp hnext with ⟨effects, hstep⟩
    exact spent_next hs ha hstep
  · intro hclosed
    cases hclosed

/-- The peer resets the connection while a write is in flight, and the object is told to
close it before it has heard of that. -/
def resetThenKicked : List ConnAction :=
  [.postAccept, .handler .handlAccept, .send (filled [1, 2, 3]), .handler (.writeMessage 0),
    .handler (.handleReadSome 0 true []), .handler (.handleClose 0),
    .handler (.handleWrite 0 true 0), .handler (.handleClose 0), .close false]

/-- With nothing else waiting, the close of a closed connection leaves the state as it is
and posts itself again. -/
theorem dead_close_repeats :
    ∃ s : ConnState NetBlock,
      run (next NetBlock.blockClass) (create 1 8) resetThenKicked = some s ∧
        (s.closed = true ∧ s.conn.connected = false) ∧
        (s.closing = [false] ∧ s.posted = [] ∧ s.reading = [] ∧ s.writing = []) ∧
        s.step NetBlock.blockClass (.handler (.handleClose 0)) =
          some (s, [.postHandleClose false]) := by
  have hrun : (run (next NetBlock.blockClass) (create 1 8) resetThenKicked).any (fun s =>
      (s.closed = true ∧ s.conn.connected = false) ∧
        (s.closing = [false] ∧ s.posted = [] ∧ s.reading = [] ∧ s.writing = []) ∧
        s.step NetBlock.blockClass (.handler (.handleClose 0)) =
          some (s, [.postHandleClose false])) = true := by
    decide +kernel
  rcases (Option.any_eq_true _ _).mp hrun with ⟨s, hs, hvalues⟩
  rw [decide_eq_true_eq] at hvalues
  exact ⟨s, hs, hvalues⟩

end ConnState

end FannyNet

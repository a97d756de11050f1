import FannyNet.Closing
import FannyNet.Transfer

/-!
# A graceful close comes to an end

`handleClose` without error posts itself again as long as anything is left to send.  When
nothing more is sent and no write fails, the handlers of the send path run out of work, and from
then on the close is carried out.

Main results:

- Definition `ConnState.Leaving`: what an orderly connection keeps until it is closed.
- Theorem `ConnState.close_is_carried_out`: the work is bounded, and after it the close is not
  put off.
-/

namespace FannyNet

open Library Library.Transition

/-- Fails nothing, takes the connection up nowhere, and closes only without error. -/
def ConnAction.Orderly : ConnAction → Prop
  | .close er => er = false
  | .handler (.handleClose _) => True
  | a => a.Healthy

/-- Orderly, and not a call of `send`. -/
def ConnAction.Parting (a : ConnAction) : Prop :=
  a.Orderly ∧ a.sent = []

theorem ConnAction.Orderly.healthy {a : ConnAction} (h : a.Orderly)
    (hclose : ∀ i, a ≠ .handler (.handleClose i)) : a.Healthy := by
  cases a with
  | close er => exact not_false
  | handler handler =>
      cases handler with
      | handleClose i => exact absurd rfl (hclose i)
      | _ => exact h
  | _ => exact h

theorem ConnAction.Orderly.not_comesUp {a : ConnAction} (h : a.Orderly) : ¬ a.ComesUp := by
  by_cases hclose : ∃ i, a = .handler (.handleClose i)
  · rcases hclose with ⟨i, rfl⟩
    exact not_false
  · rw [not_exists] at hclose
    exact (h.healthy hclose).unbroken.staysUp.not_comesUp

namespace SendPath

variable {s t : SendPath} {a : ConnAction} {ws : List Bytes}

/-- The handlers that are left to run, at most, without the ways over the transport. -/
def unwritten (s : SendPath) : Nat :=
  2 * s.posted.length + s.writing.length + ((unreadAll s.accepted).length - s.completed.length)

/-- The handlers are part of what is left to do for a transport. -/
theorem backlog_eq_unwritten (s : SendPath) (w : Wire UInt8) :
    s.backlog w = s.unwritten +
      (2 * ((unreadAll s.accepted).length - w.taken.length) + w.flight.length) := by
  simp only [backlog, unwritten]
  omega

/-- A posted `writeMessage` that runs is one less. -/
theorem unwritten_wake {i size : Nat} (hi : s.posted[i]? = some size)
    (ht : t = { s with posted := s.posted.eraseIdx i } ∨
      t = ({ s with posted := s.posted.eraseIdx i }).refill size) :
    1 + t.unwritten ≤ s.unwritten := by
  have haccepted : t.accepted = s.accepted := by
    rcases ht with rfl | rfl
    · rfl
    · rfl
  have hle := backlog_wake (w := Wire.idle) hi ht
  rw [backlog_eq_unwritten, backlog_eq_unwritten, haccepted] at hle
  omega

/-- A write that ends leaves less to write. -/
theorem unwritten_written (h : s.Flying) (hbalanced : s.Balanced) (hconn : s.connected = true)
    {i : Nat} {bytes : Bytes} (hi : s.writing[i]? = some bytes)
    (ht : t = ({ s with
      isSend := false, writing := s.writing.eraseIdx i,
      completed := s.completed ++ bytes }).refill bytes.length) :
    1 + t.unwritten ≤ s.unwritten := by
  rcases h.of_getElem? hi with ⟨-, hbytes, hnone, hne⟩
  have hlen := List.length_eraseIdx_add_one (List.getElem?_eq_some_iff.mp hi).1
  have hpos : 0 < bytes.length := List.length_pos_iff.mpr (hbytes ▸ hne)
  have hall : s.completed.length + bytes.length ≤ (unreadAll s.accepted).length := by
    rcases hbalanced with heq | ⟨hdown, -⟩
    · rw [← heq, ← hbytes]
      simp only [List.length_append]
      omega
    · rw [hconn] at hdown
      cases hdown
  have hle := backlog_refill_le { s with
    isSend := false, writing := s.writing.eraseIdx i, completed := s.completed ++ bytes }
    bytes.length (w := Wire.idle)
  rw [backlog_eq_unwritten, backlog_eq_unwritten, ← ht] at hle
  have haccepted : t.accepted = s.accepted := by
    rw [ht]
    rfl
  rw [haccepted] at hle
  simp only [unwritten, List.length_append] at hle ⊢
  omega

/-- A write that ends after the connection was closed is one less. -/
theorem unwritten_late {i : Nat} {bytes : Bytes} (hi : s.writing[i]? = some bytes) :
    1 + ({ s with
      isSend := false, writing := s.writing.eraseIdx i,
      completed := s.completed ++ bytes } : SendPath).unwritten ≤ s.unwritten := by
  have hlen := List.length_eraseIdx_add_one (List.getElem?_eq_some_iff.mp hi).1
  simp only [unwritten, List.length_append]
  omega

/-- What is left to write counts down to nothing to send. -/
theorem unsent_of_idle (h : s.Flying) (hawake : s.Awake) (hposted : s.posted = [])
    (hwriting : s.writing = []) : s.unsent = false := by
  have hsend : s.isSend = false := by
    rcases h.writing with ⟨-, hone, -⟩ | ⟨hidle, -⟩
    · rw [hwriting] at hone
      cases hone
    · exact hidle
  rw [h.unsent_eq_false_iff]
  by_contra hmore
  have hdue : s.sendList ≠ [] ∨ s.buffer.unread ≠ [] := by
    by_contra hnone
    simp only [not_or, ne_eq, not_not] at hnone
    exact hmore ⟨hsend, hnone⟩
  rcases hawake.due hdue with hsend' | hposted'
  · rw [hsend] at hsend'
    cases hsend'
  · exact hposted' hposted

end SendPath

namespace ConnState

variable {β : Type} {K : BlockClass β} {s s' : ConnState β} {effects : List (Effect β)}
  {a : ConnAction}

/-! ## Until the socket is closed -/

/-- An orderly connection: every close that waits is without error, and until one of them is
carried out no wake-up is lost and no byte either. -/
structure Leaving (s : ConnState β) : Prop where
  graceful : ∀ er ∈ s.closing, er = false
  flying : s.sendPath.Flying
  waiting : s.closed = false → s.sendPath.Awake ∧ s.sendPath.Balanced

theorem leaving_up (sid : SessionId) {size : Nat} (hsize : 0 < size) :
    (up sid size : ConnState β).Leaving where
  graceful := nofun
  flying := flying_up sid size
  waiting _ := ⟨awake_up sid hsize, balanced_up sid size⟩

/-- Only calls of `close` add to the closes that wait, as long as nothing fails. -/
theorem closing_healthy (h : s.step K a = some (s', effects)) (ha : a.Healthy) :
    s'.closing = s.closing ∧ s'.closed = s.closed ∨
      ∃ er, a = .close er ∧ s'.closing = s.closing ++ [er] ∧ s'.closed = s.closed := by
  cases a with
  | close er =>
      cases h
      exact Or.inr ⟨er, rfl, rfl, rfl⟩
  | handler handler =>
      left
      cases handler with
      | writeMessage i =>
          rcases frame_writeMessage h with ⟨ps, out, total, sending, ws, rfl⟩
          exact ⟨rfl, rfl⟩
      | handleClose i => exact ha.elim
      | handlAccept => exact absurd trivial ha.unbroken.staysUp.not_comesUp
      | handleReadSome i error bytes =>
          rcases step_handleReadSome h with ⟨room, -, -, ⟨-, rfl, -⟩ | ⟨-, rfl, -⟩ |
            ⟨-, -, conn', ps, -, -, rfl, -⟩⟩
          · exact ⟨rfl, rfl⟩
          · exact ha.elim
          · exact ⟨rfl, rfl⟩
      | handleWrite i error size =>
          rcases step_handleWrite h with ⟨bytes, -, ⟨rfl, -⟩ | ⟨-, -, -, rfl, -⟩ | ⟨-, -, -, heq⟩⟩
          · exact ha.elim
          · exact ⟨rfl, rfl⟩
          · rcases handled_writeMessage (s.wrote i bytes false) size with
              ⟨ps, out, total, sending, ws, hwrite⟩
            rw [hwrite] at heq
            cases heq
            exact ⟨rfl, rfl⟩
      | handleConnect error => exact absurd trivial ha.unbroken.staysUp.not_comesUp
  | _ =>
      cases h
      exact Or.inl ⟨rfl, rfl⟩

theorem Leaving.step (h : s.Leaving) (ha : a.Orderly) (hstep : s.step K a = some (s', effects)) :
    s'.Leaving := by
  by_cases hclose : ∃ i, a = .handler (.handleClose i)
  · rcases hclose with ⟨i, rfl⟩
    have hrest : ∀ er ∈ s.closing.eraseIdx i, er = false :=
      fun er her => h.graceful er (List.mem_of_mem_eraseIdx her)
    rcases step_handleClose hstep with ⟨er, hi, ⟨-, -, rfl, -⟩ | ⟨-, rfl, -⟩⟩
    · refine ⟨?_, h.flying, h.waiting⟩
      intro er her
      rcases List.mem_append.mp her with her | her
      · exact hrest er her
      · exact List.mem_singleton.mp her
    · exact ⟨hrest, ⟨h.flying.buffer, h.flying.blocks, h.flying.posted, h.flying.writing⟩, nofun⟩
  · rw [not_exists] at hclose
    have hhealthy := ha.healthy hclose
    have hmove := step_sendPath hstep
    have hwaiting : s'.closed = s.closed → s'.closed = false →
        s'.sendPath.Awake ∧ s'.sendPath.Balanced := by
      intro hsame hopen
      rcases h.waiting (hsame ▸ hopen) with ⟨hawake, hbalanced⟩
      exact ⟨hmove.awake hhealthy.unbroken h.flying hawake,
        hmove.balanced ha.not_comesUp h.flying hbalanced⟩
    rcases closing_healthy hstep hhealthy with ⟨hsame, hclosed⟩ | ⟨er, rfl, hmore, hclosed⟩
    · exact ⟨hsame ▸ h.graceful, hmove.flying h.flying, hwaiting hclosed⟩
    · refine ⟨?_, hmove.flying h.flying, hwaiting hclosed⟩
      intro er' her
      rw [hmore, List.mem_append, List.mem_singleton] at her
      rcases her with her | rfl
      · exact h.graceful er' her
      · exact ha

/-! ## From the last call of `send` on -/

/-- A close waits until one is carried out, and then everything has been written. -/
structure Parted (s : ConnState β) : Prop where
  leaving : s.Leaving
  closing : s.closed = false → s.closing ≠ []
  spent : s.Spent
  written : s.closed = true → s.completed = unreadAll s.accepted

/-- What was handed to `send` has been written once nothing is left to send. -/
theorem completed_of_unsent (h : s.Leaving) (hopen : s.closed = false)
    (hunsent : s.conn.unsent = false) : s.completed = unreadAll s.accepted := by
  rcases h.flying.unsent_eq_false_iff.mp hunsent with ⟨-, hlist, hempty⟩
  rcases (h.waiting hopen).2 with hbytes | ⟨-, -, hne⟩
  · rw [hlist, hempty, unreadAll_nil, List.append_nil, List.append_nil] at hbytes
    exact hbytes
  · exact absurd hempty hne

/-- The bytes written by a connection that is closed with nothing to send stay what they are. -/
theorem completed_kept (h : s.sendPath.Flying) (hspent : s.Spent) (hclosed : s.closed = true)
    (hup : ¬ a.ComesUp) (hstep : s.step K a = some (s', effects)) : s'.completed = s.completed := by
  rcases hspent hclosed with ⟨hdown, hunsent⟩
  have hnone : s.writing = [] := h.writing_eq_nil (h.unsent_eq_false_iff.mp hunsent).1
  have hidle : ∀ {i : Nat} {bytes : Bytes}, s.sendPath.writing[i]? ≠ some bytes := by
    intro i bytes hi
    change s.writing[i]? = _ at hi
    rw [hnone] at hi
    cases hi
  have hmove := step_sendPath hstep
  change s'.sendPath.completed = s.sendPath.completed
  change s.sendPath.connected = false at hdown
  generalize s'.sendPath = t', writesOf effects = ws at hmove
  cases hmove with
  | late i bytes hi => exact absurd hi hidle
  | written i bytes hi => exact absurd hi hidle
  | up a hcomes => exact absurd hcomes hup
  | _ => rfl

theorem accepted_parting (ha : a.Parting) (hstep : s.step K a = some (s', effects)) :
    s'.accepted = s.accepted := by
  have hsame := (step_sendPath hstep).history.1
  rw [ha.2, List.append_nil] at hsame
  exact hsame

theorem Parted.step (h : s.Parted) (ha : a.Parting) (hstep : s.step K a = some (s', effects)) :
    s'.Parted := by
  have haccepted := accepted_parting ha hstep
  have hleaves : s.LeavesNothing a := by
    cases a with
    | send p => cases ha.2
    | handler handler =>
        cases handler with
        | handleClose i =>
            intro hi
            cases h.leaving.graceful true (List.mem_of_getElem? hi)
        | _ => exact trivial
    | _ => exact trivial
  have hspent := spent_next h.spent hleaves hstep
  have hkept : s.closed = true → s'.completed = unreadAll s'.accepted := by
    intro hclosed
    rw [completed_kept h.leaving.flying h.spent hclosed ha.1.not_comesUp hstep, haccepted]
    exact h.written hclosed
  by_cases hclose : ∃ i, a = .handler (.handleClose i)
  · rcases hclose with ⟨i, rfl⟩
    refine ⟨h.leaving.step ha.1 hstep, ?_, hspent, ?_⟩
    · rcases step_handleClose hstep with ⟨er, -, ⟨-, -, rfl, -⟩ | ⟨-, rfl, -⟩⟩
      · exact fun _ => by simp
      · nofun
    · intro _
      by_cases hopen : s.closed = true
      · exact hkept hopen
      · rw [Bool.not_eq_true] at hopen
        rcases step_handleClose hstep with ⟨er, hi, ⟨-, -, rfl, -⟩ | ⟨hshut, rfl, -⟩⟩
        · rename_i hclosed
          rw [hopen] at hclosed
          cases hclosed
        · have her := h.leaving.graceful er (List.mem_of_getElem? hi)
          have hunsent : s.conn.unsent = false := by
            refine hshut.resolve_left ?_
            rw [her]
            nofun
          have hdone : s.completed = unreadAll s.accepted :=
            completed_of_unsent h.leaving hopen hunsent
          exact hdone
  · rw [not_exists] at hclose
    have hcases := closing_healthy hstep (ha.1.healthy hclose)
    have hsame : s'.closed = s.closed := by
      rcases hcases with ⟨-, hsame⟩ | ⟨er, -, -, hsame⟩
      · exact hsame
      · exact hsame
    refine ⟨h.leaving.step ha.1 hstep, ?_, hspent, fun hclosed => hkept (hsame ▸ hclosed)⟩
    intro hopen
    have hne := h.closing (hsame ▸ hopen)
    rcases hcases with ⟨hclosing, -⟩ | ⟨er, -, hclosing, -⟩
    · rw [hclosing]
      exact hne
    · rw [hclosing]
      simp

/-! ## The work that is left -/

/-- Every handler of the send path is one less, and without calls of `send` nothing adds one. -/
theorem unwritten_next (h : s.Parted) (ha : a.Parting) (hstep : s.step K a = some (s', effects)) :
    (if a.Writes then 1 else 0) + s'.sendPath.unwritten ≤ s.sendPath.unwritten := by
  by_cases hclose : ∃ i, a = .handler (.handleClose i)
  · rcases hclose with ⟨i, rfl⟩
    rw [if_neg (show ¬ ConnAction.Writes (.handler (.handleClose i)) from not_false), Nat.zero_add]
    rcases step_handleClose hstep with ⟨er, -, ⟨-, -, rfl, -⟩ | ⟨-, rfl, -⟩⟩
    · exact Nat.le_refl _
    · exact Nat.le_refl _
  · rw [not_exists] at hclose
    have hhealthy := ha.1.healthy hclose
    by_cases hwrites : a.Writes
    · rw [if_pos hwrites]
      cases a with
      | handler handler =>
          cases handler with
          | writeMessage i =>
              rcases step_writeMessage hstep with ⟨size, hi, ⟨-, rfl, -⟩ | ⟨hconn, hsend, heq⟩⟩
              · exact SendPath.unwritten_wake hi (Or.inl rfl)
              · have hpath := (sendPath_writeMessage
                  (s := { s with posted := s.posted.eraseIdx i }) hconn hsend size).1
                rw [← heq] at hpath
                exact SendPath.unwritten_wake hi (Or.inr hpath)
          | handleWrite i error size =>
              rcases step_handleWrite hstep with ⟨bytes, hi, ⟨rfl, -⟩ | ⟨-, -, hdown, rfl, -⟩ |
                ⟨rfl, rfl, hconn, heq⟩⟩
              · exact hhealthy.unbroken.elim
              · exact SendPath.unwritten_late (s := s.sendPath) hi
              · have hopen : s.closed = false := by
                  by_contra hne
                  have hdown := (h.spent ((Bool.not_eq_false _).mp hne)).1
                  rw [hconn] at hdown
                  cases hdown
                have hpath := (sendPath_writeMessage (s := s.wrote i bytes false) hconn rfl
                  bytes.length).1
                rw [← heq, wrote, Bool.or_false] at hpath
                exact SendPath.unwritten_written h.leaving.flying (h.leaving.waiting hopen).2 hconn
                  hi hpath
          | _ => exact hwrites.elim
      | _ => exact hwrites.elim
    · rw [if_neg hwrites, sendPath_frame hstep hhealthy.unbroken ha.2 hwrites, Nat.zero_add]

/-- As long as any work is left one of the handlers can run. -/
theorem exists_unwritten (K : BlockClass β) (h : s.Parted) (hne : s.sendPath.unwritten ≠ 0) :
    ∃ a t, a.Parting ∧ a.Writes ∧ s.next K a = some t := by
  by_cases hposted : s.posted = []
  · have hwriting : s.writing ≠ [] := by
      intro hwriting
      have hall : s.completed = unreadAll s.accepted := by
        by_cases hclosed : s.closed = true
        · exact h.written hclosed
        · rw [Bool.not_eq_true] at hclosed
          exact completed_of_unsent h.leaving hclosed (SendPath.unsent_of_idle h.leaving.flying
            (h.leaving.waiting hclosed).1 hposted hwriting)
      refine hne ?_
      change 2 * s.posted.length + s.writing.length +
        ((unreadAll s.accepted).length - s.completed.length) = 0
      rw [hposted, hwriting, hall]
      simp
    rcases List.exists_cons_of_ne_nil hwriting with ⟨bytes, rest, hcons⟩
    have hnext : ∃ t, s.next K (.handler (.handleWrite 0 false bytes.length)) = some t := by
      refine Option.isSome_iff_exists.mp ?_
      simp [next, ConnState.step, runHandler, hcons]
    rcases hnext with ⟨t, ht⟩
    exact ⟨.handler (.handleWrite 0 false bytes.length), t, ⟨not_false, rfl⟩, trivial, ht⟩
  · rcases List.exists_cons_of_ne_nil hposted with ⟨n, ns, hcons⟩
    have hnext : ∃ t, s.next K (.handler (.writeMessage 0)) = some t := by
      refine Option.isSome_iff_exists.mp ?_
      simp [next, ConnState.step, runHandler, hcons]
    rcases hnext with ⟨t, ht⟩
    exact ⟨.handler (.writeMessage 0), t, ⟨not_false, rfl⟩, trivial, ht⟩

/-- With no handler of the send path left to run, a close that runs is carried out. -/
theorem closes_of_idle (h : s.Parted) (hposted : s.posted = []) (hwriting : s.writing = [])
    {i : Nat} (hstep : s.step K (.handler (.handleClose i)) = some (s', effects)) :
    .closeSocket ∈ effects := by
  have hunsent : s.conn.unsent = false := by
    by_cases hclosed : s.closed = true
    · exact (h.spent hclosed).2
    · rw [Bool.not_eq_true] at hclosed
      exact SendPath.unsent_of_idle h.leaving.flying (h.leaving.waiting hclosed).1 hposted hwriting
  rcases step_handleClose hstep with ⟨er, -, ⟨-, hmore, -⟩ | ⟨-, -, rfl⟩⟩
  · rw [hunsent] at hmore
    cases hmore
  · simp

/-- With no work left, a close that waits can be carried out. -/
theorem exists_close (K : BlockClass β) (h : s.Parted) (hzero : s.sendPath.unwritten = 0)
    (hopen : s.closed = false) :
    ∃ t, s.next K (.handler (.handleClose 0)) = some t ∧ t.closed = true := by
  change 2 * s.posted.length + s.writing.length +
    ((unreadAll s.accepted).length - s.completed.length) = 0 at hzero
  have hposted : s.posted = [] := List.eq_nil_of_length_eq_zero (by omega)
  have hwriting : s.writing = [] := List.eq_nil_of_length_eq_zero (by omega)
  rcases List.exists_cons_of_ne_nil (h.closing hopen) with ⟨er, ers, hcons⟩
  have hstep : ∃ x, s.step K (.handler (.handleClose 0)) = some x := by
    refine Option.isSome_iff_exists.mp ?_
    simp [ConnState.step, runHandler, hcons]
  rcases hstep with ⟨⟨t, effects⟩, hstep⟩
  refine ⟨t, next_eq_some.mpr ⟨effects, hstep⟩, ?_⟩
  have hshut := closes_of_idle h hposted hwriting hstep
  rcases step_handleClose hstep with ⟨er', -, ⟨-, -, -, rfl⟩ | ⟨-, rfl, -⟩⟩
  · simp at hshut
  · rfl

/-- A close without error that waits, when nothing fails and nothing more is sent: at most as
many handlers of the send path run as the count says, when none is left the next close that runs
closes the socket, and so the socket can be closed with every byte written. -/
theorem close_is_carried_out (sid : SessionId) {size : Nat} (hsize : 0 < size)
    {actions : List ConnAction} (horderly : ∀ a ∈ actions, a.Orderly)
    (h : run (next K) (up sid size) actions = some s) (hopen : s.closed = false)
    (hasked : s.closing ≠ []) :
    (∀ later u, Along (next K) (fun _ a => a.Parting) s later → run (next K) s later = some u →
      worked (next K) (fun _ a => a.Writes) s later ≤ s.sendPath.unwritten ∧
      (u.posted = [] → u.writing = [] → ∀ i u' effects,
        u.step K (.handler (.handleClose i)) = some (u', effects) → .closeSocket ∈ effects)) ∧
    ∃ later u, Along (next K) (fun _ a => a.Parting) s later ∧ run (next K) s later = some u ∧
      u.closed = true ∧ u.completed = unreadAll s.accepted := by
  have hleaving : s.Leaving := by
    refine run_invariant_of_along (I := Leaving) (P := fun _ (a : ConnAction) => a.Orderly) ?_
      (leaving_up sid hsize) (along_of_forall horderly) h
    intro s a t hs ha hnext
    rcases next_eq_some.mp hnext with ⟨effects, hstep⟩
    exact hs.step ha hstep
  have hopened : ¬ s.closed = true := by
    rw [hopen]
    nofun
  have hparted : s.Parted ∧ s.accepted = s.accepted :=
    ⟨⟨hleaving, fun _ => hasked, fun hclosed => absurd hclosed hopened,
      fun hclosed => absurd hclosed hopened⟩, rfl⟩
  have hwork : ∀ (t : ConnState β) (a : ConnAction) (t' : ConnState β),
      (t.Parted ∧ t.accepted = s.accepted) → a.Parting →
      t.next K a = some t' → (t'.Parted ∧ t'.accepted = s.accepted) ∧
        (if a.Writes then 1 else 0) + t'.sendPath.unwritten ≤ t.sendPath.unwritten := by
    intro t a t' ht ha hnext
    rcases next_eq_some.mp hnext with ⟨effects, hstep⟩
    exact ⟨⟨ht.1.step ha hstep, (accepted_parting ha hstep).trans ht.2⟩,
      unwritten_next ht.1 ha hstep⟩
  constructor
  · intro later u hlater hrun
    have hle := worked_add_le hwork hparted hlater hrun
    have hu := run_invariant_of_along (fun t a t' ht ha hnext => (hwork t a t' ht ha hnext).1)
      hparted hlater hrun
    exact ⟨Nat.le_trans (Nat.le_add_right _ _) hle, fun hposted hwriting i u' effects hstep =>
      closes_of_idle hu.1 hposted hwriting hstep⟩
  · rcases exists_rest hwork (fun t ht hne => exists_unwritten K ht.1 hne) hparted with
      ⟨later, u, halong, hrun, hu, hzero⟩
    by_cases hclosed : u.closed = true
    · exact ⟨later, u, halong, hrun, hclosed, hu.2 ▸ hu.1.written hclosed⟩
    · rcases exists_close K hu.1 hzero ((Bool.not_eq_true _).mp hclosed) with ⟨t, ht, htclosed⟩
      have hlast : ConnAction.Parting (.handler (.handleClose 0)) := ⟨trivial, rfl⟩
      rcases (hwork u _ t hu hlast ht).1 with ⟨hparted', haccepted⟩
      refine ⟨later ++ [.handler (.handleClose 0)], t, ?_, ?_, htclosed, ?_⟩
      · rw [along_append]
        exact ⟨halong, fun _ _ => ⟨hlast, fun _ _ => trivial⟩⟩
      · rw [run_append, hrun, Option.bind_some, run_cons]
        exact ⟨t, ht, rfl⟩
      · rw [hparted'.written htclosed, haccepted]

/-- Two blocks are sent, and the connection is asked to close while the first write is in
flight. -/
def askedToClose : List ConnAction :=
  [.send (filled [1, 2, 3]), .handler (.writeMessage 0), .send (filled [4, 5]), .close false,
    .handler (.handleClose 0)]

theorem close_is_carried_out_asked :
    ∃ s : ConnState NetBlock, run (next NetBlock.blockClass) (up 1 4) askedToClose = some s ∧
      s.sendPath.unwritten ≠ 0 ∧
      ∃ later u, run (next NetBlock.blockClass) s later = some u ∧ u.closed = true ∧
        u.completed = [1, 2, 3, 4, 5] := by
  have hrun : (run (next NetBlock.blockClass) (up 1 4) askedToClose).any (fun s =>
      s.sendPath.unwritten ≠ 0 ∧ s.closed = false ∧ s.closing ≠ [] ∧
        unreadAll s.accepted = [1, 2, 3, 4, 5]) = true := by
    decide +kernel
  have horderly : ∀ a ∈ askedToClose, a.Orderly := by
    simp [askedToClose, ConnAction.Orderly, ConnAction.Healthy, ConnAction.Unbroken,
      ConnAction.StaysUp, ConnAction.ComesUp]
  rcases (Option.any_eq_true _ _).mp hrun with ⟨s, hs, hvalues⟩
  rw [decide_eq_true_eq] at hvalues
  rcases hvalues with ⟨hleft, hopen, hasked, hbytes⟩
  rcases (close_is_carried_out 1 (by decide) horderly hs hopen hasked).2 with
    ⟨later, u, -, hu, hclosed, hcompleted⟩
  exact ⟨s, hs, hleft, later, u, hu, hclosed, hcompleted.trans hbytes⟩

end ConnState

end FannyNet

import FannyNet.Link

/-!
# Transfers come to an end

Two connections that are up, whose reads and writes succeed and which nobody closes.  What is
left to do for the bytes handed to `send` is counted, and every handler and every move of the
transport lowers the count.

Main results:

- Theorem `Link.rest_delivers_all`: at rest, everything sent at one end was posted at the other.
- Theorem `Link.transfer_ends`: without further calls of `send` the ends come to rest, after
  at most as many steps as the count says.
- Theorem `Link.counters_agree`: `m_totalSend` and `m_totalRevc` differ by what is under way,
  modulo `2 ^ 64`.
-/

namespace FannyNet

open Library Library.Transition Library.Decoder

/-- Keeps the connection up, with no read and no write that fails. -/
def ConnAction.Healthy : ConnAction → Prop
  | .handler (.handleReadSome _ true _) => False
  | a => a.Unbroken

theorem ConnAction.Healthy.unbroken {a : ConnAction} (h : a.Healthy) : a.Unbroken := by
  cases a with
  | handler handler =>
      cases handler with
      | handleReadSome i error bytes =>
          cases error with
          | false => exact h
          | true => exact h.elim
      | _ => exact h
  | _ => exact h

/-- A connection that nobody takes up or down does not come up again. -/
theorem ConnAction.StaysUp.not_reopens {a : ConnAction} (h : a.StaysUp) {β : Type}
    (s : ConnState β) : ¬ s.Reopens a := by
  cases a with
  | handler handler =>
      cases handler with
      | handlAccept => exact absurd trivial h.not_comesUp
      | handleConnect error => exact absurd trivial h.not_comesUp
      | _ => exact not_false
  | _ => exact not_false

/-- What one end is asked for keeps both ends going. -/
def LinkAction.Healthy : LinkAction → Prop
  | .carry _ _ => True
  | .act _ a => a.Healthy

/-- Neither takes an end up or down nor is a write that fails. -/
def LinkAction.Unbroken : LinkAction → Prop
  | .carry _ _ => True
  | .act _ a => a.Unbroken

namespace Link

open ConnState

variable {β : Type}

/-- Two connections that have just come up. -/
def up (sid : Side → SessionId) (size : Nat) : Link β where
  conn x := ConnState.up (sid x) size
  wire _ := Wire.idle

/-- Both ends are up and read, and both transports work. -/
structure Going (l : Link β) : Prop where
  awake : ∀ x, (l.conn x).sendPath.Awake
  works : ∀ x, (l.wire x).broken = false
  reading : ∀ x, (l.conn x).reading = [(l.conn x).conn.room]

section
variable {K : BlockClass β} {σ μ : Type} {D : Decoder UInt8 σ μ Exn} {R : Decodes K D}
  {size : Nat} {l l' : Link β}

theorem Going.connected (h : l.Going) (x : Side) : (l.conn x).conn.connected = true :=
  (h.awake x).connected

theorem going_up (sid : Side → SessionId) (hsize : 0 < size) : (up sid size : Link β).Going where
  awake x := awake_up (sid x) hsize
  works _ := rfl
  reading _ := rfl

theorem sound_up (sid : Side → SessionId) : Sound R size (up sid size) where
  carried x :=
    { flying := flying_up (sid x) size
      opened := fun _ => Or.inl rfl
      shut := nofun
      taken := List.prefix_rfl
      written := fun _ => ⟨List.prefix_rfl, List.prefix_rfl⟩
      together := fun _ => (balanced_up (sid x) size).imp_right fun hdown => nomatch hdown.1 }
  heard x :=
    { shut := nofun
      messages := ⟨[], [], D.init, .nil D.init, .nil, List.prefix_rfl,
        fun _ => ⟨rfl, Decodes.reading_accepted (sid x) size, Or.inr ⟨rfl, rfl⟩⟩⟩ }

/-- Only reads and coming up start a read. -/
theorem reading_frame {s s' : ConnState β} {a : ConnAction} {effects : List (Effect β)}
    (h : s.step K a = some (s', effects)) (hup : ¬ a.ComesUp)
    (hread : ∀ i error bytes, a ≠ .handler (.handleReadSome i error bytes)) :
    s'.reading = s.reading ∧ s'.conn.room = s.conn.room := by
  cases a with
  | handler handler =>
      cases handler with
      | writeMessage i =>
          rcases frame_writeMessage h with ⟨ps, out, total, sending, ws, rfl⟩
          exact ⟨rfl, rfl⟩
      | handleClose i =>
          rcases step_handleClose h with ⟨er, -, ⟨-, -, rfl, -⟩ | ⟨-, rfl, -⟩⟩
          · exact ⟨rfl, rfl⟩
          · exact ⟨rfl, rfl⟩
      | handlAccept => exact absurd trivial hup
      | handleReadSome i error bytes => exact absurd rfl (hread i error bytes)
      | handleWrite i error size =>
          rcases frame_handleWrite h with
            ⟨ps, out, total, sending, ws, closing, completed, failed, asked, rfl⟩
          exact ⟨rfl, rfl⟩
      | handleConnect error => exact absurd trivial hup
  | _ =>
      cases h
      exact ⟨rfl, rfl⟩

/-- A read stays outstanding at an end that is up and whose reads succeed. -/
theorem reading_next {s s' : ConnState β} {a : ConnAction} {effects : List (Effect β)}
    (h : s.step K a = some (s', effects)) (ha : a.Healthy) (hconn : s.conn.connected = true)
    (hread : s.reading = [s.conn.room]) : s'.reading = [s'.conn.room] := by
  have hother : (∀ i error bytes, a ≠ .handler (.handleReadSome i error bytes)) →
      s'.reading = [s'.conn.room] := by
    intro hne
    rcases reading_frame h ha.unbroken.staysUp.not_comesUp hne with ⟨hreading, hroom⟩
    rw [hreading, hroom, hread]
  cases a with
  | handler handler =>
      cases handler with
      | handleReadSome i error bytes =>
          rcases step_handleReadSome h with ⟨room, hi, -, ⟨hdown, -⟩ | ⟨-, rfl, -⟩ |
            ⟨-, -, conn', ps, -, -, rfl, -⟩⟩
          · rw [hconn] at hdown
            cases hdown
          · exact ha.elim
          · have hlt := (List.getElem?_eq_some_iff.mp hi).1
            rw [hread, List.length_singleton] at hlt
            simp [hread, Nat.lt_one_iff.mp hlt]
      | _ => exact hother (by simp)
  | _ => exact hother (by simp)

/-- A healthy step keeps both ends going. -/
theorem Going.step (h : l.Going) (hsound : Sound R size l) {a : LinkAction} (ha : a.Healthy)
    (hstep : l.step K a = some l') : l'.Going := by
  cases a with
  | carry x n =>
      rcases carry_eq_some hstep with ⟨hworks, hconn, hwire_other, hwire⟩
      refine ⟨hconn ▸ h.awake, Side.forall_of x ?_ ?_, hconn ▸ h.reading⟩
      · rw [hwire, Wire.broken_take]
        exact hworks
      · rw [hwire_other]
        exact h.works x.other
  | act x a =>
      have ha : a.Healthy := ha
      rcases act_eq_some hstep with
        ⟨c, own, others, effects, hc, hown, hothers, hconn, hconn_other, hwire, hwire_other⟩
      refine ⟨Side.forall_of x ?_ ?_, Side.forall_of x ?_ ?_, Side.forall_of x ?_ ?_⟩
      · rw [hconn]
        exact (step_sendPath hc).awake ha.unbroken (hsound.carried x).flying (h.awake x)
      · rw [hconn_other]
        exact h.awake x.other
      · rw [hwire]
        rcases SendPath.writesTo_cases hown with ⟨-, i, n, rfl⟩ | ⟨rfl, -, -⟩
        · exact ha.unbroken.elim
        · exact h.works x
      · rw [hwire_other, (ConnAction.readsFrom_spec hothers).2.2]
        exact h.works x.other
      · rw [hconn]
        exact reading_next hc ha (h.connected x) (h.reading x)
      · rw [hconn_other]
        exact h.reading x.other

end

end Link

/-! ## What is left to do -/

/-- The steps that are left for one direction, at most: two for a posted `writeMessage`, one
for a write in flight, and for each byte its write, its way onto the transport, which counts
twice, and its way off it. -/
def SendPath.backlog (s : SendPath) (w : Wire UInt8) : Nat :=
  2 * s.posted.length + s.writing.length + ((unreadAll s.accepted).length - s.completed.length) +
    2 * ((unreadAll s.accepted).length - w.taken.length) + w.flight.length

/-- The handlers of the send path. -/
def ConnAction.Writes : ConnAction → Prop
  | .handler (.writeMessage _) => True
  | .handler (.handleWrite _ _ _) => True
  | _ => False

instance ConnAction.decidableWrites : (a : ConnAction) → Decidable a.Writes
  | .send _ => inferInstanceAs (Decidable False)
  | .close _ => inferInstanceAs (Decidable False)
  | .postAccept => inferInstanceAs (Decidable False)
  | .connect => inferInstanceAs (Decidable False)
  | .handler (.writeMessage _) => inferInstanceAs (Decidable True)
  | .handler (.handleWrite _ _ _) => inferInstanceAs (Decidable True)
  | .handler (.handleClose _) => inferInstanceAs (Decidable False)
  | .handler .handlAccept => inferInstanceAs (Decidable False)
  | .handler (.handleReadSome _ _ _) => inferInstanceAs (Decidable False)
  | .handler (.handleConnect _) => inferInstanceAs (Decidable False)

namespace SendPath

variable {s t : SendPath} {w : Wire UInt8}

/-- Refilling starts at most one write. -/
theorem backlog_refill_le (s : SendPath) (size : Nat) :
    (s.refill size).backlog w ≤ s.backlog w + 1 := by
  have hstarted : (s.started size).length ≤ 1 := by
    unfold started
    split
    · exact Nat.le_refl 1
    · exact Nat.zero_le 1
  have hwriting : (s.refill size).writing.length = s.writing.length + (s.started size).length :=
    List.length_append
  have hrest : (s.refill size).backlog w + s.writing.length =
      s.backlog w + (s.refill size).writing.length := by
    simp only [backlog, refill]
    omega
  omega

/-- A posted `writeMessage` that runs is one less, whether or not it starts a write. -/
theorem backlog_wake {i size : Nat} (hi : s.posted[i]? = some size)
    (ht : t = { s with posted := s.posted.eraseIdx i } ∨
      t = ({ s with posted := s.posted.eraseIdx i }).refill size) :
    1 + t.backlog w ≤ s.backlog w := by
  have hlen := List.length_eraseIdx_add_one (List.getElem?_eq_some_iff.mp hi).1
  have hless : ({ s with posted := s.posted.eraseIdx i } : SendPath).backlog w + 2 =
      s.backlog w := by
    simp only [backlog]
    omega
  rcases ht with rfl | rfl
  · omega
  · have hle := backlog_refill_le { s with posted := s.posted.eraseIdx i } size (w := w)
    omega

/-- A write that ends takes its bytes off the backlog. -/
theorem backlog_written (h : s.Carried w) (hw : w.broken = false) {i : Nat} {bytes : Bytes}
    (hi : s.writing[i]? = some bytes)
    (ht : t = ({ s with
      isSend := false, writing := s.writing.eraseIdx i,
      completed := s.completed ++ bytes }).refill bytes.length) :
    1 + t.backlog w ≤ s.backlog w := by
  rcases h.flying.of_getElem? hi with ⟨hsend, hbytes, -, hne⟩
  rcases h.flying.writing with ⟨-, hwriting, -⟩ | ⟨hidle, -⟩
  · have hpref := (h.writing_prefix hw (by rw [hwriting]; simp)).length_le
    have hpos : 0 < bytes.length := List.length_pos_iff.mpr (hbytes ▸ hne)
    have hlen := List.length_eraseIdx_add_one (List.getElem?_eq_some_iff.mp hi).1
    rw [hwriting, List.flatten_singleton, ← hbytes, List.length_append] at hpref
    have hless : ({ s with
        isSend := false, writing := s.writing.eraseIdx i,
        completed := s.completed ++ bytes } : SendPath).backlog w + 2 ≤ s.backlog w := by
      simp only [backlog, List.length_append]
      omega
    have hle := backlog_refill_le { s with
      isSend := false, writing := s.writing.eraseIdx i, completed := s.completed ++ bytes }
      bytes.length (w := w)
    rw [ht]
    omega
  · rw [hsend] at hidle
    cases hidle

/-- Bytes that the transport takes are nearer to the other end. -/
theorem backlog_carry (h : s.Carried w) (hw : w.broken = false) (n : Nat) :
    ((s.untaken w).take n).length + s.backlog (w.take ((s.untaken w).take n)) ≤ s.backlog w := by
  have hpref := (h.carry hw n).taken.length_le
  have hflight : (w.take ((s.untaken w).take n)).flight.length =
      w.flight.length + ((s.untaken w).take n).length := List.length_append
  have htaken : (w.take ((s.untaken w).take n)).taken.length =
      w.taken.length + ((s.untaken w).take n).length := by
    rw [Wire.taken_take, List.length_append]
  simp only [backlog]
  omega

end SendPath

namespace ConnState

variable {β : Type} {K : BlockClass β} {s s' : ConnState β} {effects : List (Effect β)}
  {a : ConnAction} {w w' : Wire UInt8}

/-- What neither sends nor takes the connection up or down leaves the send path alone. -/
theorem sendPath_frame (h : s.step K a = some (s', effects)) (ha : a.Unbroken)
    (hsent : a.sent = []) (hwrites : ¬ a.Writes) : s'.sendPath = s.sendPath := by
  cases a with
  | send p => cases hsent
  | handler handler =>
      cases handler with
      | writeMessage i => exact absurd trivial hwrites
      | handleWrite i error size => exact absurd trivial hwrites
      | handleClose i => exact ha.elim
      | handlAccept => exact absurd trivial ha.staysUp.not_comesUp
      | handleConnect error => exact absurd trivial ha.staysUp.not_comesUp
      | handleReadSome i error bytes =>
          rcases step_handleReadSome h with ⟨room, -, -, ⟨-, rfl, -⟩ | ⟨-, -, rfl, -⟩ |
            ⟨-, -, conn', ps, -, ⟨buf, wait, rfl⟩, rfl, -⟩⟩
          · rfl
          · rfl
          · rfl
  | _ =>
      cases h
      rfl

/-- Every handler of the send path lowers its backlog, and nothing but `send` raises it. -/
theorem backlog_next (h : s.step K a = some (s', effects)) (ha : a.Unbroken) (hsent : a.sent = [])
    (hc : s.sendPath.Carried w) (hconn : s.conn.connected = true) (hworks : w.broken = false)
    (hw : s.sendPath.writesTo w a = some w') :
    (if a.Writes then 1 else 0) + s'.sendPath.backlog w' ≤ s.sendPath.backlog w := by
  have hsame : w' = w := by
    rcases SendPath.writesTo_cases hw with ⟨-, i, n, rfl⟩ | ⟨rfl, -, -⟩
    · exact ha.elim
    · rfl
  subst hsame
  by_cases hwrites : a.Writes
  · rw [if_pos hwrites]
    cases a with
    | handler handler =>
        cases handler with
        | writeMessage i =>
            rcases step_writeMessage h with ⟨size, hi, ⟨-, rfl, -⟩ | ⟨-, hsend, heq⟩⟩
            · exact SendPath.backlog_wake hi (Or.inl rfl)
            · have hpath := (sendPath_writeMessage (s := { s with posted := s.posted.eraseIdx i })
                hconn hsend size).1
              rw [← heq] at hpath
              exact SendPath.backlog_wake hi (Or.inr hpath)
        | handleWrite i error size =>
            rcases step_handleWrite h with ⟨bytes, hi, ⟨rfl, -⟩ | ⟨-, -, hdown, -⟩ |
              ⟨rfl, rfl, -, heq⟩⟩
            · exact ha.elim
            · rw [hconn] at hdown
              cases hdown
            · have hpath := (sendPath_writeMessage (s := s.wrote i bytes false) hconn rfl
                bytes.length).1
              rw [← heq, wrote, Bool.or_false] at hpath
              exact SendPath.backlog_written hc hworks hi hpath
        | _ => exact hwrites.elim
    | _ => exact hwrites.elim
  · rw [if_neg hwrites, sendPath_frame h ha hsent hwrites, Nat.zero_add]

end ConnState

/-! ## Coming to rest -/

/-- Healthy, and not a call of `send`. -/
def LinkAction.Onward : LinkAction → Prop
  | .carry _ _ => True
  | .act _ a => a.Healthy ∧ a.sent = []

theorem LinkAction.Onward.healthy {a : LinkAction} (h : a.Onward) : a.Healthy := by
  cases a with
  | carry x n => trivial
  | act x a => exact h.1

namespace Link

open ConnState

variable {β : Type}

/-- A handler of the send path, a read of some bytes, or the transport taking some. -/
def Works (l : Link β) : LinkAction → Prop
  | .carry x n => ((l.conn x).sendPath.untaken (l.wire x)).take n ≠ []
  | .act _ a => a.Writes ∨ a.read.flatten ≠ []

instance (l : Link β) : (a : LinkAction) → Decidable (l.Works a)
  | .carry _ _ => inferInstanceAs (Decidable (_ ≠ _))
  | .act _ _ => inferInstanceAs (Decidable (_ ∨ _))

/-- What is left to do for both directions. -/
def backlog (l : Link β) : Nat :=
  (l.conn .near).sendPath.backlog (l.wire .near) + (l.conn .far).sendPath.backlog (l.wire .far)

theorem backlog_eq (l : Link β) (x : Side) :
    l.backlog = (l.conn x).sendPath.backlog (l.wire x) +
      (l.conn x.other).sendPath.backlog (l.wire x.other) := by
  cases x with
  | near => rfl
  | far => exact Nat.add_comm _ _

section
variable {K : BlockClass β} {σ μ : Type} {D : Decoder UInt8 σ μ Exn} {R : Decodes K D}
  {size : Nat} {l l' : Link β}

/-- Bytes that are given to a read are off the backlog. -/
theorem backlog_readsFrom {s : SendPath} {w w' : Wire UInt8} {a : ConnAction}
    (h : a.readsFrom w = some w') :
    a.read.flatten.length + s.backlog w' = s.backlog w := by
  rcases ConnAction.readsFrom_spec h with ⟨hgiven, htaken, -⟩
  have hlen := w'.length_taken
  rw [htaken, hgiven, w.length_taken, List.length_append] at hlen
  simp only [SendPath.backlog, htaken]
  omega

/-- Every working step lowers the backlog, and without calls of `send` nothing raises it. -/
theorem backlog_step (h : l.Going) (hsound : Sound R size l) {a : LinkAction} (ha : a.Onward)
    (hstep : l.step K a = some l') : (if l.Works a then 1 else 0) + l'.backlog ≤ l.backlog := by
  cases a with
  | carry x n =>
      rcases carry_eq_some hstep with ⟨hworks, hconn, hwire_other, hwire⟩
      have hle := SendPath.backlog_carry (hsound.carried x) hworks n
      rw [l'.backlog_eq x, l.backlog_eq x, hconn, hwire_other, hwire]
      split
      · rename_i hne
        have hpos := List.length_pos_iff.mpr hne
        omega
      · omega
  | act x a =>
      rcases act_eq_some hstep with
        ⟨c, own, others, effects, hc, hown, hothers, hconn, hconn_other, hwire, hwire_other⟩
      have hle := backlog_next hc ha.1.unbroken ha.2 (hsound.carried x) (h.connected x) (h.works x)
        hown
      have hread := backlog_readsFrom (s := (l.conn x.other).sendPath) hothers
      rw [l'.backlog_eq x, l.backlog_eq x, hconn, hconn_other, hwire, hwire_other]
      by_cases hwrites : a.Writes
      · have hworks : l.Works (.act x a) := Or.inl hwrites
        rw [if_pos hwrites] at hle
        rw [if_pos hworks]
        omega
      · rw [if_neg hwrites] at hle
        split
        · rename_i hworks
          have hpos := List.length_pos_iff.mpr (hworks.resolve_left hwrites)
          omega
        · omega

/-- A step that is neither a call of `send` nor broken, of ends that go on. -/
theorem onward_step (h : l.Going ∧ Sound R size l) {a : LinkAction} (ha : a.Onward)
    (hstep : l.step K a = some l') :
    (l'.Going ∧ Sound R size l') ∧ (if l.Works a then 1 else 0) + l'.backlog ≤ l.backlog := by
  have honce : l.ComesUpOnce a := by
    cases a with
    | carry x n => trivial
    | act x a => exact ha.1.unbroken.staysUp.not_reopens (l.conn x)
  exact ⟨⟨h.1.step h.2 ha.healthy hstep, h.2.step honce hstep⟩, backlog_step h.1 h.2 ha hstep⟩

/-- With nothing left to do, the other end was given all that was handed to `send`. -/
theorem given_of_backlog (hsound : Sound R size l) {x : Side}
    (hzero : (l.conn x).sendPath.backlog (l.wire x) = 0) :
    (l.wire x).given = unreadAll (l.conn x).accepted := by
  simp only [SendPath.backlog] at hzero
  have hflight : (l.wire x).flight = [] := List.eq_nil_of_length_eq_zero (by omega)
  rw [Wire.given_eq_taken hflight]
  refine (hsound.carried x).taken.eq_of_length_le ?_
  omega

/-- At the other end the messages are those of all the bytes. -/
theorem delivered_of_backlog {Stream : Bytes → Prop} (hres : D.Resumable Stream) (h : l.Going)
    (hsound : Sound R size l) {x : Side}
    (hzero : (l.conn x).sendPath.backlog (l.wire x) = 0) {ms : List μ} {out : Except Exn σ}
    (hstream : Stream (unreadAll (l.conn x).accepted))
    (hall : D.Pumps D.init (unreadAll (l.conn x).accepted) ms out) :
    List.Forall₂ R.Shows ms (l.conn x.other).messages := by
  rcases (hsound.heard x.other).messages with ⟨reads, ms', st, hruns, hshows, -, hopen⟩
  have hclosed : (l.conn x.other).closed = false := by
    by_contra hne
    rw [Bool.not_eq_false] at hne
    have hdown := (hsound.heard x.other).shut hne
    rw [h.connected x.other] at hdown
    cases hdown
  have hflat := (hopen hclosed).1
  rw [Side.other_other, given_of_backlog hsound hzero] at hflat
  have hpumps := (runs_iff_pumps hres R.lawful (hflat ▸ hstream)).mp hruns
  rw [hflat] at hpumps
  rcases hall.unique hpumps with ⟨rfl, -⟩
  exact hshows

/-! ## The next step -/

/-- A step of one end to which the transports agree. -/
theorem exists_act {x : Side} {a : ConnAction} {own others : Wire UInt8}
    (hnext : ∃ c, (l.conn x).next K a = some c)
    (hown : (l.conn x).sendPath.writesTo (l.wire x) a = some own)
    (hothers : a.readsFrom (l.wire x.other) = some others) :
    ∃ l', l.step K (.act x a) = some l' := by
  rcases hnext with ⟨c, hc⟩
  refine Option.isSome_iff_exists.mp ?_
  simp only [Link.step, act, hc, hown, hothers, Option.bind_eq_bind, Option.bind_some,
    Option.isSome_some]

/-- A `writeMessage` that is posted can run. -/
theorem exists_writeMessage {x : Side} (hne : (l.conn x).posted ≠ []) :
    ∃ l', l.step K (.act x (.handler (.writeMessage 0))) = some l' := by
  refine exists_act ?_ rfl rfl
  rcases List.exists_cons_of_ne_nil hne with ⟨n, ns, hposted⟩
  refine Option.isSome_iff_exists.mp ?_
  simp [next, ConnState.step, runHandler, hposted]

/-- A write in flight can end when all of it was taken, and else more of it can be taken. -/
theorem exists_write {x : Side} (hworks : (l.wire x).broken = false)
    (hne : (l.conn x).writing ≠ []) :
    ∃ a l', a.Onward ∧ l.Works a ∧ l.step K a = some l' := by
  rcases List.exists_cons_of_ne_nil hne with ⟨bytes, rest, hwriting⟩
  by_cases hall : (l.conn x).sendPath.untaken (l.wire x) = []
  · have hnext :
        ∃ c, (l.conn x).next K (.handler (.handleWrite 0 false bytes.length)) = some c := by
      refine Option.isSome_iff_exists.mp ?_
      simp [next, ConnState.step, runHandler, hwriting]
    rcases exists_act (l := l) hnext (if_pos ⟨hworks, hall⟩) rfl with ⟨l', hstep⟩
    exact ⟨.act x (.handler (.handleWrite 0 false bytes.length)), l', ⟨not_false, rfl⟩,
      Or.inl trivial, hstep⟩
  · refine ⟨.carry x 1, l.carry x 1, trivial, ?_, if_neg (by simp [hworks])⟩
    simpa [Works] using hall

/-- Bytes under way can be read where a read is outstanding that does not fail. -/
theorem exists_read {x : Side} (hreads : ∃ result, (l.conn x.other).conn.handleReadSome K false
      ((l.wire x).flight.take 1) = .ok result)
    (hreading : (l.conn x.other).reading = [(l.conn x.other).conn.room])
    (hroom : 0 < (l.conn x.other).conn.room) (hne : (l.wire x).flight ≠ []) :
    ∃ a l', a.Onward ∧ l.Works a ∧ l.step K a = some l' := by
  rcases hreads with ⟨result, hresult⟩
  rcases (l.wire x).exists_give 1 with ⟨w, hgive⟩
  have hlen : ((l.wire x).flight.take 1).length ≤ (l.conn x.other).conn.room := by
    rw [List.length_take]
    omega
  have hnext : ∃ c, (l.conn x.other).next K
      (.handler (.handleReadSome 0 false ((l.wire x).flight.take 1))) = some c := by
    refine Option.isSome_iff_exists.mp ?_
    simp only [next, ConnState.step, runHandler, hreading, List.getElem?_cons_zero, hresult,
      if_neg (Nat.not_lt.mpr hlen), Except.toOption, Option.bind_eq_bind, Option.bind_some,
      Option.map_some, Option.isSome_some]
  have hothers : (ConnAction.handler (.handleReadSome 0 false ((l.wire x).flight.take 1))).readsFrom
      (l.wire x.other.other) = some w := by
    rw [Side.other_other]
    exact hgive
  rcases exists_act (l := l) hnext rfl hothers with ⟨l', hstep⟩
  refine ⟨.act x.other (.handler (.handleReadSome 0 false ((l.wire x).flight.take 1))), l',
    ⟨not_false, rfl⟩, Or.inr ?_, hstep⟩
  rw [ConnAction.read, List.flatten_singleton]
  simpa using hne

/-- Where nothing is posted and no write is in flight, what is left to do is to read. -/
theorem flight_of_backlog {s : SendPath} {w : Wire UInt8} (h : s.Carried w) (hawake : s.Awake)
    (hw : w.broken = false) (hposted : s.posted = []) (hwriting : s.writing = [])
    (hne : s.backlog w ≠ 0) : w.flight ≠ [] := by
  have hsend : s.isSend = false := by
    rcases h.flying.writing with ⟨-, hone, -⟩ | ⟨hidle, -⟩
    · rw [hwriting] at hone
      cases hone
    · exact hidle
  have hnone : ¬ (s.sendList ≠ [] ∨ s.buffer.unread ≠ []) := by
    intro hmore
    rcases hawake.due hmore with hsend' | hposted'
    · rw [hsend] at hsend'
      cases hsend'
    · exact hposted' hposted
  simp only [not_or, ne_eq, not_not] at hnone
  have htogether := h.together_of_up hw hawake.connected
  rw [SendPath.Together, hnone.1, hnone.2, unreadAll_nil, List.append_nil, List.append_nil]
    at htogether
  have htaken := h.taken_eq hw hwriting
  intro hflight
  refine hne ?_
  simp only [SendPath.backlog, hposted, hwriting, hflight, htaken, htogether, List.length_nil]
  omega

end

/-- A `NetBlock` connection always has room for a read, and no read fails. -/
theorem reads_block {size : Nat} (hsize : sizeofHead ≤ size) {v : Bytes}
    {conn : Connection NetBlock} (h : NetBlock.decodes.Reading size v conn) (bytes : Bytes) :
    0 < conn.room ∧ (bytes.length ≤ conn.room →
      ∃ result, conn.handleReadSome NetBlock.blockClass false bytes = .ok result) := by
  constructor
  · have hlen := h.valid.length_unread
    have hmax := h.maxLen
    rcases h.pending with ⟨u, hunread, hpending⟩
    have hpos : 0 < sizeofHead := by decide
    have hu : u.length < sizeofHead := by
      cases hwait : conn.waitMessage with
      | none =>
          rw [hwait] at hpending
          rw [hpending.2]
          exact hpos
      | some k =>
          rw [hwait] at hpending
          cases hpending.2 with
          | head hshort _ _ hv =>
              rw [hv]
              exact hshort
          | body _ _ _ _ hnil =>
              rw [hnil]
              exact hpos
    rw [hunread, List.append_nil, h.readPos, Nat.sub_zero] at hlen
    simp only [Connection.room, NetBuffer.maxLength, NetBuffer.length]
    omega
  · intro hfit
    rcases NetBlock.decodes.lawful.exists_pumps h.isOpen bytes with ⟨ms, out, hpumps⟩
    cases out with
    | error e => exact absurd hpumps NetBlock.not_pumps_error
    | ok v' =>
        rcases Decodes.readSome_pumps hpumps h hfit [] with ⟨conn', ps, hread, -, -⟩
        rcases exists_of_bind hread with ⟨result, hresult, -⟩
        exact ⟨result, hresult⟩

/-- As long as anything is left to do for `NetBlock`s there is a step that does some of it. -/
theorem exists_work {size : Nat} (hsize : sizeofHead ≤ size) {l : Link NetBlock} (h : l.Going)
    (hsound : Sound NetBlock.decodes size l) (hne : l.backlog ≠ 0) :
    ∃ a l', a.Onward ∧ l.Works a ∧ l.step NetBlock.blockClass a = some l' := by
  have hside : ∃ x, (l.conn x).sendPath.backlog (l.wire x) ≠ 0 := by
    by_contra hnone
    simp only [not_exists, ne_eq, not_not] at hnone
    rw [backlog, hnone, hnone] at hne
    exact hne rfl
  rcases hside with ⟨x, hx⟩
  by_cases hposted : (l.conn x).posted = []
  · by_cases hwriting : (l.conn x).writing = []
    · have hflight :=
        flight_of_backlog (hsound.carried x) (h.awake x) (h.works x) hposted hwriting hx
      rcases (hsound.heard x.other).messages with ⟨reads, ms, v, -, -, -, hopen⟩
      have hclosed : (l.conn x.other).closed = false := by
        by_contra hshut
        have hdown := (hsound.heard x.other).shut ((Bool.not_eq_false _).mp hshut)
        rw [h.connected x.other] at hdown
        cases hdown
      have hreading : NetBlock.decodes.Reading size v (l.conn x.other).conn :=
        reading_congr (hopen hclosed).2.1 rfl rfl (h.connected x.other)
      rcases reads_block hsize hreading ((l.wire x).flight.take 1) with ⟨hroom, hreads⟩
      refine exists_read (hreads ?_) (h.reading x.other) hroom hflight
      rw [List.length_take]
      omega
    · exact exists_write (h.works x) hwriting
  · rcases exists_writeMessage (K := NetBlock.blockClass) hposted with ⟨l', hstep⟩
    exact ⟨.act x (.handler (.writeMessage 0)), l', ⟨not_false, rfl⟩, Or.inl trivial, hstep⟩

/-! ## Transfers -/

/-- Only calls of `send` add to the blocks of an end. -/
theorem accepted_onward {K : BlockClass β} {l l' : Link β} {a : LinkAction} (ha : a.Onward)
    (hstep : l.step K a = some l') (x : Side) : (l'.conn x).accepted = (l.conn x).accepted := by
  cases a with
  | carry y n => rw [(carry_eq_some hstep).2.1]
  | act y a =>
      rcases act_eq_some hstep with
        ⟨c, own, others, effects, hc, -, -, hconn, hconn_other, -, -⟩
      have hsame := (step_sendPath hc).history.1
      rw [ha.2, List.append_nil] at hsame
      revert x
      refine Side.forall_of y ?_ ?_
      · rw [hconn]
        exact hsame
      · rw [hconn_other]

/-- Ends that have come up and whose reads and writes succeed go on. -/
theorem going_run {K : BlockClass β} {σ μ : Type} {D : Decoder UInt8 σ μ Exn}
    (R : Decodes K D) (sid : Side → SessionId) {size : Nat} (hsize : 0 < size) {l : Link β}
    {as : List LinkAction} (hhealthy : ∀ a ∈ as, a.Healthy)
    (h : run (Link.step K) (up sid size) as = some l) : l.Going ∧ Sound R size l := by
  refine run_invariant_of_along (I := fun l => l.Going ∧ Sound R size l)
    (P := fun _ a => a.Healthy) ?_ ⟨going_up sid hsize, sound_up sid⟩
    (along_of_forall hhealthy) h
  intro l a l' hl ha hstep
  have honce : l.ComesUpOnce a := by
    cases a with
    | carry x n => trivial
    | act x a => exact (ConnAction.Healthy.unbroken ha).staysUp.not_reopens (l.conn x)
  exact ⟨hl.1.step hl.2 ha hstep, hl.2.step honce hstep⟩

/-- The payloads that an end has posted, when nothing is left to do. -/
theorem blocks_of_backlog {size : Nat} {l : Link NetBlock} (h : l.Going)
    (hsound : Sound NetBlock.decodes size l) {x : Side}
    (hzero : (l.conn x).sendPath.backlog (l.wire x) = 0) {sent : List NetBlock.Sent}
    (hsent : (l.conn x).accepted.map NetBuffer.unread = sent.map fun m => m.block.bytes) :
    ((l.conn x.other).messages.map fun k => k.data.map NetBuffer.data) =
      sent.map fun m => some m.payloads.flatten := by
  have hall := pumps_of_sent hsent
  have hshows := delivered_of_backlog NetBlock.resumable_frameDecoder h hsound hzero trivial hall
  rw [NetBlock.data_of_shows hshows, List.map_map]
  rfl

/-- Where no `writeMessage` is posted and nothing is in flight or under way, all the blocks
that were handed to `send` have arrived, each once and in order. -/
theorem rest_delivers_all (sid : Side → SessionId) {size : Nat} (hsize : 0 < size)
    {l : Link NetBlock} {as : List LinkAction} (hhealthy : ∀ a ∈ as, a.Healthy)
    (h : run (Link.step NetBlock.blockClass) (up sid size) as = some l) {x : Side}
    (hposted : (l.conn x).posted = []) (hwriting : (l.conn x).writing = [])
    (hflight : (l.wire x).flight = []) {sent : List NetBlock.Sent}
    (hsent : (l.conn x).accepted.map NetBuffer.unread = sent.map fun m => m.block.bytes) :
    ((l.conn x.other).messages.map fun k => k.data.map NetBuffer.data) =
      sent.map fun m => some m.payloads.flatten := by
  rcases going_run NetBlock.decodes sid hsize hhealthy h with ⟨hgoing, hsound⟩
  have hzero : (l.conn x).sendPath.backlog (l.wire x) = 0 := by
    by_contra hne
    exact flight_of_backlog (hsound.carried x) (hgoing.awake x) (hgoing.works x) hposted hwriting
      hne hflight
  exact blocks_of_backlog hgoing hsound hzero hsent

/-- When nothing more is sent, at most as many steps do something for what was sent as the
count says, and some of them bring all of it to the other end. -/
theorem transfer_ends (sid : Side → SessionId) {size : Nat} (hsize : sizeofHead ≤ size)
    {l : Link NetBlock} {as : List LinkAction} (hhealthy : ∀ a ∈ as, a.Healthy)
    (h : run (Link.step NetBlock.blockClass) (up sid size) as = some l) :
    (∀ later u, Along (Link.step NetBlock.blockClass) (fun _ a => a.Onward) l later →
      run (Link.step NetBlock.blockClass) l later = some u →
        worked (Link.step NetBlock.blockClass) Works l later ≤ l.backlog) ∧
    ∃ later u, Along (Link.step NetBlock.blockClass) (fun _ a => a.Onward) l later ∧
      run (Link.step NetBlock.blockClass) l later = some u ∧
      ∀ x (sent : List NetBlock.Sent),
        ((l.conn x).accepted.map NetBuffer.unread = sent.map fun m => m.block.bytes) →
          ((u.conn x.other).messages.map fun k => k.data.map NetBuffer.data) =
            sent.map fun m => some m.payloads.flatten := by
  have hpos : 0 < size := Nat.lt_of_lt_of_le (by decide) hsize
  have hgood := going_run NetBlock.decodes sid hpos hhealthy h
  have hstep : ∀ (s : Link NetBlock) a t, (s.Going ∧ Sound NetBlock.decodes size s) →
      a.Onward → s.step NetBlock.blockClass a = some t →
      (t.Going ∧ Sound NetBlock.decodes size t) ∧
        (if s.Works a then 1 else 0) + t.backlog ≤ s.backlog :=
    fun _ _ _ hs ha ht => onward_step hs ha ht
  have hwork : ∀ s : Link NetBlock, (s.Going ∧ Sound NetBlock.decodes size s) → s.backlog ≠ 0 →
      ∃ a t, a.Onward ∧ s.Works a ∧ s.step NetBlock.blockClass a = some t :=
    fun _ hs hne => exists_work hsize hs.1 hs.2 hne
  constructor
  · intro later u hlater hrun
    have hle := worked_add_le hstep hgood hlater hrun
    omega
  · rcases exists_rest hstep hwork hgood with ⟨later, u, halong, hrun, hu, hzero⟩
    refine ⟨later, u, halong, hrun, ?_⟩
    intro x sent hsent
    have haccepted : (u.conn x).accepted = (l.conn x).accepted := by
      refine run_invariant_of_along (I := fun t => (t.conn x).accepted = (l.conn x).accepted)
        (P := fun _ (a : LinkAction) => a.Onward) ?_ rfl halong hrun
      intro s a t hs ha ht
      exact (accepted_onward ha ht x).trans hs
    rw [u.backlog_eq x] at hzero
    exact blocks_of_backlog hu.1 hu.2 (Nat.eq_zero_of_add_eq_zero_right hzero) (haccepted ▸ hsent)

/-- A block in either direction, the first of them in two pieces. -/
def bothWays : List LinkAction :=
  [.act .near (.send (filled (NetBlock.build 3 8 [text "he", [], text "llo"]).bytes)),
    .act .far (.send (filled (NetBlock.build 5 1 [text "x"]).bytes)),
    .act .near (.handler (.writeMessage 0)), .carry .near 3,
    .act .far (.handler (.handleReadSome 0 false [17, 0])), .carry .near 14,
    .act .far (.handler (.writeMessage 0)), .act .near (.handler (.handleWrite 0 false 17)),
    .act .far (.handler (.handleReadSome 0 false
      [0, 0, 0, 0, 0, 0, 0, 0, 0, 0, 104, 101, 108, 108, 111]))]

theorem healthy_bothWays : ∀ a ∈ bothWays, a.Healthy := by
  simp [bothWays, LinkAction.Healthy, ConnAction.Healthy, ConnAction.Unbroken, ConnAction.StaysUp,
    ConnAction.ComesUp]

/-- The block of the near end. -/
def hello : List NetBlock.Sent :=
  NetBlock.twoSent.take 1

theorem rest_delivers_all_bothWays :
    ∃ l, run (Link.step NetBlock.blockClass) (up (fun _ => 1) 32) bothWays = some l ∧
      ((l.conn .far).messages.map fun k => k.data.map NetBuffer.data) =
        hello.map fun m => some m.payloads.flatten := by
  have hrun : (run (Link.step NetBlock.blockClass) (up (fun _ => 1) 32) bothWays).any (fun l =>
      (l.conn .near).posted = [] ∧ (l.conn .near).writing = [] ∧ (l.wire .near).flight = [] ∧
        (l.conn .near).accepted.map NetBuffer.unread = hello.map fun m => m.block.bytes) =
          true := by
    decide +kernel
  rcases (Option.any_eq_true _ _).mp hrun with ⟨l, hl, hvalues⟩
  rw [decide_eq_true_eq] at hvalues
  rcases hvalues with ⟨hposted, hwriting, hflight, hsent⟩
  exact ⟨l, hl, rest_delivers_all (fun _ => 1) (by decide) healthy_bothWays hl (x := .near) hposted
    hwriting hflight hsent⟩

/-- From the point where the block of the near end is written but not read. -/
theorem transfer_ends_bothWays :
    ∃ l, run (Link.step NetBlock.blockClass) (up (fun _ => 1) 32) (bothWays.take 3) = some l ∧
      l.backlog ≠ 0 ∧
      ∃ later u, run (Link.step NetBlock.blockClass) l later = some u ∧
        ((u.conn .far).messages.map fun k => k.data.map NetBuffer.data) =
          hello.map fun m => some m.payloads.flatten := by
  have hrun : (run (Link.step NetBlock.blockClass) (up (fun _ => 1) 32)
      (bothWays.take 3)).any (fun l => l.backlog ≠ 0 ∧
        (l.conn .near).accepted.map NetBuffer.unread = hello.map fun m => m.block.bytes) =
          true := by
    decide +kernel
  have hhealthy : ∀ a ∈ bothWays.take 3, a.Healthy :=
    fun a ha => healthy_bothWays a (List.mem_of_mem_take ha)
  rcases (Option.any_eq_true _ _).mp hrun with ⟨l, hl, hvalues⟩
  rw [decide_eq_true_eq] at hvalues
  rcases (transfer_ends (fun _ => 1) (by decide) hhealthy hl).2 with ⟨later, u, -, hu, hall⟩
  exact ⟨l, hl, hvalues.1, later, u, hu, hall .near hello hvalues.2⟩

end Link

/-! ## The counters -/

namespace ConnState

variable {β : Type} {K : BlockClass β} {s s' : ConnState β} {effects : List (Effect β)}
  {a : ConnAction}

/-- `m_totalSend` counts the bytes of the writes that succeeded, `m_totalRevc` those of the
reads, both as far as a `size_t` goes. -/
structure Counted (s : ConnState β) (given : Bytes) : Prop where
  connected : s.conn.connected = true
  sent : s.conn.totalSend = s.completed.length % 18446744073709551616
  received : s.conn.totalRecv = given.length % 18446744073709551616

/-- `writeMessage` with nothing in flight counts the bytes it is told of. -/
theorem total_writeMessage (hconn : s.conn.connected = true) (hsend : s.conn.isSend = false)
    (size : Nat) :
    (s.handled (s.conn.writeMessage size)).1.conn.connected = true ∧
      (s.handled (s.conn.writeMessage size)).1.conn.totalSend = sizeAdd s.conn.totalSend size ∧
      (s.handled (s.conn.writeMessage size)).1.conn.totalRecv = s.conn.totalRecv ∧
      (s.handled (s.conn.writeMessage size)).1.completed = s.completed := by
  rcases s.conn.writeMessage_cases size with
    ⟨hidle | hidle, -⟩ | ⟨-, -, ps, out, -, hwrite⟩
  · simp [hconn] at hidle
  · simp [hsend] at hidle
  · rw [hwrite]
    cases hread : out.hasRead with
    | false => simp [handled, hconn]
    | true => simp [handled, perform, hconn]

/-- A connection that stays up counts what it writes and reads. -/
theorem Counted.next {given : Bytes} (h : s.Counted given) (hflying : s.sendPath.Flying)
    (ha : a.StaysUp) (hstep : s.step K a = some (s', effects)) :
    s'.Counted (given ++ a.read.flatten) := by
  have hquiet : s'.Counted given → a.read = [] → s'.Counted (given ++ a.read.flatten) := by
    intro hs hread
    rw [hread, List.flatten_nil, List.append_nil]
    exact hs
  cases a with
  | handler handler =>
      cases handler with
      | writeMessage i =>
          refine hquiet ?_ rfl
          rcases step_writeMessage hstep with ⟨size, hi, ⟨-, rfl, -⟩ | ⟨hconn, hsend, heq⟩⟩
          · exact ⟨h.connected, h.sent, h.received⟩
          · have hzero : size = 0 := hflying.posted size (List.mem_of_getElem? hi)
            rcases total_writeMessage (s := { s with posted := s.posted.eraseIdx i }) hconn hsend
              size with ⟨hup, htotal, hrecv, hcompleted⟩
            rw [← heq] at hup htotal hrecv hcompleted
            refine ⟨hup, ?_, hrecv.trans h.received⟩
            rw [htotal, hcompleted, hzero, h.sent, sizeAdd_mod, Nat.add_zero]
      | handleWrite i error size =>
          refine hquiet ?_ rfl
          rcases step_handleWrite hstep with ⟨bytes, hi, ⟨-, -, rfl, -⟩ | ⟨-, -, hdown, -⟩ |
            ⟨-, rfl, hconn, heq⟩⟩
          · exact ⟨h.connected, h.sent, h.received⟩
          · rw [h.connected] at hdown
            cases hdown
          · rcases total_writeMessage (s := s.wrote i bytes false) hconn rfl bytes.length with
              ⟨hup, htotal, hrecv, hcompleted⟩
            rw [← heq] at hup htotal hrecv hcompleted
            refine ⟨hup, ?_, hrecv.trans h.received⟩
            rw [htotal, hcompleted]
            simp only [wrote, Bool.false_eq_true, if_false, List.length_append, h.sent, sizeAdd_mod]
      | handleReadSome i error bytes =>
          rcases step_handleReadSome hstep with ⟨room, -, -, ⟨hdown, -⟩ | ⟨-, rfl, rfl, -⟩ |
            ⟨-, rfl, conn', ps, -, ⟨buf, wait, rfl⟩, rfl, -⟩⟩
          · rw [h.connected] at hdown
            cases hdown
          · exact hquiet ⟨h.connected, h.sent, h.received⟩ rfl
          · refine ⟨h.connected, h.sent, ?_⟩
            rw [ConnAction.read, List.flatten_singleton, List.length_append, ← sizeAdd_mod,
              ← h.received]
      | handleClose i => exact ha.elim
      | handlAccept => exact absurd trivial ha.not_comesUp
      | handleConnect error => exact absurd trivial ha.not_comesUp
  | _ =>
      cases hstep
      exact hquiet ⟨h.connected, h.sent, h.received⟩ rfl

end ConnState

namespace Link

open ConnState

variable {β : Type} {K : BlockClass β} {σ μ : Type} {D : Decoder UInt8 σ μ Exn} {size : Nat}
  {l l' : Link β}

/-- Both ends are up, no write has failed, and the counters count. -/
structure Counts (R : Decodes K D) (size : Nat) (l : Link β) : Prop where
  sound : Sound R size l
  works : ∀ x, (l.wire x).broken = false
  counted : ∀ x, (l.conn x).Counted (l.wire x.other).given

theorem counts_up (R : Decodes K D) (sid : Side → SessionId) : Counts R size (up sid size) where
  sound := sound_up sid
  works _ := rfl
  counted _ := ⟨rfl, rfl, rfl⟩

theorem Counts.step {R : Decodes K D} (h : Counts R size l) {a : LinkAction} (ha : a.Unbroken)
    (hstep : l.step K a = some l') : Counts R size l' := by
  cases a with
  | carry x n =>
      rcases carry_eq_some hstep with ⟨hworks, hconn, hwire_other, hwire⟩
      refine ⟨h.sound.step (a := .carry x n) trivial hstep, Side.forall_of x ?_ ?_,
        Side.forall_of x ?_ ?_⟩
      · rw [hwire, Wire.broken_take]
        exact hworks
      · rw [hwire_other]
        exact h.works x.other
      · rw [hconn, hwire_other]
        exact h.counted x
      · rw [hconn, Side.other_other, hwire, Wire.given_take]
        have hcounted := h.counted x.other
        rwa [Side.other_other] at hcounted
  | act x a =>
      have ha : a.Unbroken := ha
      have hsound := h.sound.step (a := .act x a) (ha.staysUp.not_reopens _) hstep
      rcases act_eq_some hstep with
        ⟨c, own, others, effects, hc, hown, hothers, hconn, hconn_other, hwire, hwire_other⟩
      rcases ConnAction.readsFrom_spec hothers with ⟨hgiven, -, hbroken⟩
      refine ⟨hsound, Side.forall_of x ?_ ?_, Side.forall_of x ?_ ?_⟩
      · rw [hwire]
        rcases SendPath.writesTo_cases hown with ⟨-, i, n, rfl⟩ | ⟨rfl, -, -⟩
        · exact ha.elim
        · exact h.works x
      · rw [hwire_other, hbroken]
        exact h.works x.other
      · rw [hconn, hwire_other, hgiven]
        exact (h.counted x).next (h.sound.carried x).flying ha.staysUp hc
      · rw [hconn_other, Side.other_other, hwire, SendPath.given_of_writesTo hown]
        have hcounted := h.counted x.other
        rwa [Side.other_other] at hcounted

/-- What one end has counted as received and what is under way is what the other has counted as
sent and the bytes that were taken of the write in flight, as `size_t` sums; while the bytes
written and in flight are fewer than `2 ^ 64`, the counters are ordered so. -/
theorem counters_agree (R : Decodes K D) (sid : Side → SessionId) {as : List LinkAction}
    (hunbroken : ∀ a ∈ as, a.Unbroken) (h : run (Link.step K) (up sid size) as = some l)
    (x : Side) :
    (∃ n ≤ (l.conn x).writing.flatten.length,
      sizeAdd (l.conn x.other).conn.totalRecv (l.wire x).flight.length =
        sizeAdd (l.conn x).conn.totalSend n) ∧
    ((l.conn x).completed.length + (l.conn x).writing.flatten.length < 18446744073709551616 →
      (l.conn x).conn.totalSend ≤ (l.conn x.other).conn.totalRecv + (l.wire x).flight.length ∧
        (l.conn x.other).conn.totalRecv + (l.wire x).flight.length ≤
          (l.conn x).conn.totalSend + (l.conn x).writing.flatten.length) := by
  have hcounts : Counts R size l :=
    run_invariant_of_along (P := fun _ (a : LinkAction) => a.Unbroken)
      (fun _ _ _ hs ha hstep => hs.step ha hstep) (counts_up R sid) (along_of_forall hunbroken) h
  have hsent := (hcounts.counted x).sent
  have hreceived := (hcounts.counted x.other).received
  rw [Side.other_other] at hreceived
  rcases (hcounts.sound.carried x).written (hcounts.works x) with ⟨hle, hge⟩
  have htaken := (l.wire x).length_taken
  have hle' := hle.length_le
  have hge' := hge.length_le
  rw [List.length_append] at hge'
  change (l.conn x).completed.length ≤ _ at hle'
  change _ ≤ (l.conn x).completed.length + (l.conn x).writing.flatten.length at hge'
  constructor
  · refine ⟨(l.wire x).taken.length - (l.conn x).completed.length, by omega, ?_⟩
    rw [hreceived, hsent, sizeAdd_mod, sizeAdd_mod, ← htaken, Nat.add_sub_cancel' hle']
  · intro hfew
    rw [Nat.mod_eq_of_lt (by omega)] at hsent hreceived
    omega

theorem counters_agree_bothWays :
    ∃ l : Link NetBlock,
      run (Link.step NetBlock.blockClass) (up (fun _ => 1) 32) bothWays = some l ∧
        (l.conn .near).conn.totalSend = 17 ∧
        (l.conn .near).conn.totalSend ≤
          (l.conn .far).conn.totalRecv + (l.wire .near).flight.length := by
  have hrun : (run (Link.step NetBlock.blockClass) (up (fun _ => 1) 32) bothWays).any (fun l =>
      (l.conn .near).conn.totalSend = 17 ∧ (l.conn .near).completed.length +
        (l.conn .near).writing.flatten.length < 18446744073709551616) = true := by
    decide +kernel
  have hunbroken : ∀ a ∈ bothWays, a.Unbroken := by
    simp [bothWays, LinkAction.Unbroken, ConnAction.Unbroken, ConnAction.StaysUp,
      ConnAction.ComesUp]
  rcases (Option.any_eq_true _ _).mp hrun with ⟨l, hl, hvalues⟩
  rw [decide_eq_true_eq] at hvalues
  have hagree := counters_agree NetBlock.decodes (fun _ => 1) hunbroken hl .near
  exact ⟨l, hl, hvalues.1, (hagree.2 hvalues.2).1⟩

end Link

end FannyNet

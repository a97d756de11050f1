import FannyNet.Reconnect
import FannyNet.Library.Wire

/-!
# Two connections and the transport between them

Both ends of a TCP connection are a `Connection`.  What one writes the transport takes, at
any pace while the write is in flight, and gives to the reads of the other, cut in any way.
A write succeeds when all its bytes were taken; one that fails breaks the transport down.

Main results:

- Definition `Link.step`: calls, handlers of both ends and the transport, in any order.
- Theorem `SendPath.Carried.next` and theorem `ConnState.Heard.next`: what a step keeps at the
  sending and at the receiving end.
- Theorem `Link.delivers_prefix`: what is posted at one end is, in order and each once, the
  beginning of what was handed to `send` at the other.
-/

namespace FannyNet

open Library Library.Transition Library.Decoder

/-! ## The system -/

/-- The two ends. -/
inductive Side where
  | near
  | far
deriving DecidableEq, Repr

def Side.other : Side → Side
  | .near => .far
  | .far => .near

@[simp]
theorem Side.other_other (x : Side) : x.other.other = x := by
  cases x <;> rfl

theorem Side.other_ne (x : Side) : x.other ≠ x := by
  cases x <;> decide

/-- What holds at an end and at the other holds at both. -/
theorem Side.forall_of {P : Side → Prop} (x : Side) (hx : P x) (hother : P x.other) (y : Side) :
    P y := by
  cases x with
  | near =>
      cases y with
      | near => exact hx
      | far => exact hother
  | far =>
      cases y with
      | near => exact hother
      | far => exact hx

/-- The bytes of the write in flight that the transport has not taken. -/
def SendPath.untaken (s : SendPath) (w : Wire UInt8) : Bytes :=
  (s.completed ++ s.writing.flatten).drop w.taken.length

/-- What an action asks of the transport that its connection writes to: a write succeeds
when all of it was taken, and a failed one breaks the transport down. -/
def SendPath.writesTo (s : SendPath) (w : Wire UInt8) : ConnAction → Option (Wire UInt8)
  | .handler (.handleWrite _ true _) => some w.breakDown
  | .handler (.handleWrite _ false _) =>
      if w.broken = false ∧ s.untaken w = [] then some w else none
  | _ => some w

/-- What an action asks of the transport that its connection reads from. -/
def ConnAction.readsFrom (w : Wire UInt8) : ConnAction → Option (Wire UInt8)
  | .handler (.handleReadSome _ false bytes) => w.give bytes
  | _ => some w

/-- The connections at both ends, and the transport that each end writes to. -/
structure Link (β : Type) where
  conn : Side → ConnState β
  wire : Side → Wire UInt8

/-- The transport takes bytes, or one of the ends takes a step. -/
inductive LinkAction where
  | carry (x : Side) (n : Nat)
  | act (x : Side) (a : ConnAction)

namespace Link

variable {β : Type}

/-- Two connections on which nothing has happened. -/
def create (sid : Side → SessionId) (size : Nat) : Link β where
  conn x := ConnState.create (sid x) size
  wire _ := Wire.idle

section
variable (K : BlockClass β)

/-- The transport that an end writes to takes up to `n` bytes. -/
def carry (l : Link β) (x : Side) (n : Nat) : Link β :=
  { l with
    wire := Function.update l.wire x
      ((l.wire x).take (((l.conn x).sendPath.untaken (l.wire x)).take n)) }

/-- One end takes a step. -/
def act (l : Link β) (x : Side) (a : ConnAction) : Option (Link β) := do
  let c ← (l.conn x).next K a
  let own ← (l.conn x).sendPath.writesTo (l.wire x) a
  let others ← a.readsFrom (l.wire x.other)
  some {
    conn := Function.update l.conn x c
    wire := Function.update (Function.update l.wire x own) x.other others }

def step (l : Link β) : LinkAction → Option (Link β)
  | .carry x n => if (l.wire x).broken then none else some (l.carry x n)
  | .act x a => l.act K x a

end

end Link

/-! ## The sending end -/

namespace SendPath

/-- What was handed to `send` is what was written, what is in the send buffer and what is
queued. -/
def Together (s : SendPath) : Prop :=
  s.completed ++ s.buffer.unread ++ unreadAll s.sendList = unreadAll s.accepted

/-- The send path of a connection that comes up once, with its transport: what was taken
is the beginning of what was handed to `send`, and as long as the transport works only
bytes of the write in flight were taken before it has ended. -/
structure Carried (s : SendPath) (w : Wire UInt8) : Prop where
  flying : s.Flying
  opened : s.isSend = true → s.connected = true ∨ s.closed = true
  shut : s.closed = true → s.connected = false
  taken : w.taken <+: unreadAll s.accepted
  written : w.broken = false →
    s.completed <+: w.taken ∧ w.taken <+: s.completed ++ s.writing.flatten
  together : w.broken = false → s.Together ∨ (s.closed = true ∧ s.isSend = false)

variable {s t : SendPath} {w w' : Wire UInt8} {a : ConnAction} {ws : List Bytes}

/-- The bytes of the write in flight, and those before it, were handed to `send`. -/
theorem Carried.writing_prefix (h : s.Carried w) (hw : w.broken = false)
    (hne : s.writing ≠ []) : s.completed ++ s.writing.flatten <+: unreadAll s.accepted := by
  rcases h.flying.writing with ⟨hsend, hwriting, -⟩ | ⟨-, hnil⟩
  · rcases h.together hw with heq | ⟨-, hidle⟩
    · rw [hwriting, List.flatten_singleton, ← heq]
      exact List.prefix_append _ _
    · rw [hsend] at hidle
      cases hidle
  · exact absurd hnil hne

/-- Between two writes everything taken has been written. -/
theorem Carried.taken_eq (h : s.Carried w) (hw : w.broken = false) (hnil : s.writing = []) :
    w.taken = s.completed := by
  rcases h.written hw with ⟨hle, hge⟩
  rw [hnil, List.flatten_nil, List.append_nil] at hge
  exact hge.eq_of_length_le hle.length_le

/-- The transport takes more of the write in flight. -/
theorem Carried.carry (h : s.Carried w) (hw : w.broken = false) (n : Nat) :
    s.Carried (w.take ((s.untaken w).take n)) := by
  rcases h.written hw with ⟨hle, rest, hrest⟩
  have hmore : s.untaken w = rest := by
    rw [untaken, ← hrest, List.drop_left]
  have hpref : w.taken ++ rest.take n <+: s.completed ++ s.writing.flatten := by
    rw [← hrest, List.prefix_append_right_inj]
    exact List.take_prefix n rest
  rw [hmore]
  refine ⟨h.flying, h.opened, h.shut, ?_, fun hw' => ⟨?_, ?_⟩, h.together⟩
  · rw [Wire.taken_take]
    by_cases hnil : s.writing = []
    · have hempty : rest = [] := by
        rw [h.taken_eq hw hnil, hnil, List.flatten_nil] at hrest
        exact List.append_cancel_left hrest
      rw [hempty, List.take_nil, List.append_nil]
      exact h.taken
    · exact hpref.trans (h.writing_prefix hw hnil)
  · rw [Wire.taken_take]
    exact hle.trans (List.prefix_append _ _)
  · rw [Wire.taken_take]
    exact hpref

/-- When all of the write in flight was taken, it is what follows the writes that have ended. -/
theorem Carried.taken_all (h : s.Carried w) (hw : w.broken = false) (hall : s.untaken w = []) :
    w.taken = s.completed ++ s.writing.flatten := by
  refine (h.written hw).2.eq_of_length_le ?_
  rw [untaken, List.drop_eq_nil_iff] at hall
  exact hall

/-- The transport does not change, breaks down with a failed write, or has taken all of the
write that ends. -/
theorem writesTo_cases (h : s.writesTo w a = some w') :
    (w' = w.breakDown ∧ ∃ i size, a = .handler (.handleWrite i true size)) ∨
      (w' = w ∧ (∀ i size, a ≠ .handler (.handleWrite i true size)) ∧
        ∀ i size, a = .handler (.handleWrite i false size) →
          w.broken = false ∧ s.untaken w = []) := by
  cases a with
  | handler handler =>
      cases handler with
      | handleWrite i error size =>
          cases error with
          | true =>
              simp only [writesTo, Option.some.injEq] at h
              exact Or.inl ⟨h.symm, i, size, rfl⟩
          | false =>
              simp only [writesTo, Option.ite_none_right_eq_some, Option.some.injEq] at h
              exact Or.inr ⟨h.2.symm, by simp, fun _ _ _ => h.1⟩
      | _ =>
          simp only [writesTo, Option.some.injEq] at h
          exact Or.inr ⟨h.symm, by simp, by simp⟩
  | _ =>
      simp only [writesTo, Option.some.injEq] at h
      exact Or.inr ⟨h.symm, by simp, by simp⟩

/-- Writing gives nothing to the receiver. -/
theorem given_of_writesTo (h : s.writesTo w a = some w') : w'.given = w.given := by
  rcases writesTo_cases h with ⟨rfl, -⟩ | ⟨rfl, -, -⟩
  · exact Wire.given_breakDown w
  · rfl

/-- What is carried depends on what was taken, and on whether the transport works. -/
theorem Carried.congr (h : s.Carried w) (htaken : w'.taken = w.taken)
    (hbroken : w'.broken = w.broken) : s.Carried w' where
  flying := h.flying
  opened := h.opened
  shut := h.shut
  taken := htaken ▸ h.taken
  written hw := htaken ▸ h.written (hbroken ▸ hw)
  together hw := h.together (hbroken ▸ hw)

/-- Refilling keeps the bytes together. -/
theorem together_refill (hout : Sendable s.buffer) (hps : ∀ p ∈ s.sendList, p.Valid) {size : Nat}
    (hsize : size ≤ s.buffer.unread.length)
    (hbytes : s.completed ++ s.buffer.unread.drop size ++ unreadAll s.sendList =
      unreadAll s.accepted) : (s.refill size).Together := by
  rcases refill_spec hout hps hsize with ⟨-, -, hmoved, -⟩
  change s.completed ++ (s.refill size).buffer.unread ++ unreadAll (s.refill size).sendList =
    unreadAll s.accepted
  rw [List.append_assoc, hmoved, ← List.append_assoc, hbytes]

theorem Flying.writing_eq_nil (h : s.Flying) (hsend : s.isSend = false) : s.writing = [] := by
  rcases h.writing with ⟨hsend', -⟩ | ⟨-, hnil⟩
  · rw [hsend] at hsend'
    cases hsend'
  · exact hnil

/-- A connection that is up has its bytes together. -/
theorem Carried.together_of_up (h : s.Carried w) (hw : w.broken = false)
    (hconn : s.connected = true) : s.Together := by
  rcases h.together hw with heq | ⟨hclosed, -⟩
  · exact heq
  · rw [h.shut hclosed] at hconn
    cases hconn

/-- A write that succeeds ends with all of its bytes taken. -/
theorem Carried.taken_of_written (h : s.Carried w) {i n : Nat} {bytes : Bytes}
    (hi : s.writing[i]? = some bytes)
    (hw : s.writesTo w (.handler (.handleWrite i false n)) = some w') :
    w.broken = false ∧ w.taken = s.completed ++ bytes := by
  rcases writesTo_cases hw with ⟨-, j, size, hne⟩ | ⟨-, -, hall⟩
  · cases hne
  · rcases hall i n rfl with ⟨hworks, hnone⟩
    rcases h.flying.of_getElem? hi with ⟨hsend, hbytes, -, -⟩
    rcases h.flying.writing with ⟨-, hwriting, -⟩ | ⟨hidle, -⟩
    · have heq := h.taken_all hworks hnone
      rw [hwriting, List.flatten_singleton, ← hbytes] at heq
      exact ⟨hworks, heq⟩
    · rw [hsend] at hidle
      cases hidle

/-- What a move of a connection that does not come up again keeps. -/
theorem Carried.move (h : s.Carried w) (hmove : Move s a ws t)
    (hclosed : s.closed = true → t.closed = true) (hw : s.writesTo w a = some w') :
    t.Carried w' := by
  have hcases := writesTo_cases hw
  have htaken : w'.taken = w.taken := by
    rcases hcases with ⟨rfl, -⟩ | ⟨rfl, -, -⟩
    · exact Wire.taken_breakDown w
    · rfl
  have hworks : w'.broken = false → w' = w ∧ w.broken = false := by
    intro hw'
    rcases hcases with ⟨rfl, -⟩ | ⟨rfl, -, -⟩
    · cases hw'
    · exact ⟨rfl, hw'⟩
  have hgrows : w'.taken <+: unreadAll t.accepted := by
    rw [htaken, hmove.history.1, unreadAll_append]
    exact h.taken.trans (List.prefix_append _ _)
  have hflying := hmove.flying h.flying
  cases hmove with
  | quiet =>
      exact ⟨h.flying, h.opened, h.shut, hgrows, fun hw' => htaken ▸ h.written (hworks hw').2,
        fun hw' => h.together (hworks hw').2⟩
  | send p =>
      refine ⟨hflying, h.opened, h.shut, hgrows, fun hw' => htaken ▸ h.written (hworks hw').2, ?_⟩
      intro hw'
      refine (h.together (hworks hw').2).imp_left ?_
      intro heq
      simp only [Together, unreadAll_append]
      rw [← List.append_assoc, heq]
  | idle i =>
      exact ⟨hflying, h.opened, h.shut, hgrows, fun hw' => htaken ▸ h.written (hworks hw').2,
        fun hw' => h.together (hworks hw').2⟩
  | wake i size hi hconn hsend =>
      have hzero : size = 0 := h.flying.posted size (List.mem_of_getElem? hi)
      subst hzero
      refine ⟨hflying, fun _ => Or.inl hconn, h.shut, hgrows, ?_, ?_⟩
      · intro hw'
        rw [htaken, h.taken_eq (hworks hw').2 (h.flying.writing_eq_nil hsend)]
        exact ⟨List.prefix_rfl, List.prefix_append _ _⟩
      · intro hw'
        exact Or.inl (together_refill (s := { s with posted := s.posted.eraseIdx i })
          h.flying.buffer h.flying.blocks (Nat.zero_le _)
          (h.together_of_up (hworks hw').2 hconn))
  | shut i er hnone =>
      refine ⟨hflying, fun _ => Or.inr rfl, fun _ => rfl, hgrows,
        fun hw' => htaken ▸ h.written (hworks hw').2, ?_⟩
      intro hw'
      exact (h.together (hworks hw').2).imp_right fun hidle => ⟨rfl, hidle.2⟩
  | up a hup =>
      have hopen : ¬ s.closed = true := by
        intro hshut
        cases hclosed hshut
      refine ⟨hflying, fun _ => Or.inl rfl, nofun, hgrows,
        fun hw' => htaken ▸ h.written (hworks hw').2, ?_⟩
      intro hw'
      exact (h.together (hworks hw').2).imp_right fun hidle => absurd hidle.1 hopen
  | failed i size bytes hi =>
      -- the transport breaks down with the write
      refine ⟨hflying, nofun, h.shut, hgrows, ?_, ?_⟩
      · intro hw'
        rcases hcases with ⟨rfl, -⟩ | ⟨-, hne, -⟩
        · cases hw'
        · exact absurd rfl (hne i size)
      · intro hw'
        rcases hcases with ⟨rfl, -⟩ | ⟨-, hne, -⟩
        · cases hw'
        · exact absurd rfl (hne i size)
  | late i bytes hi hconn =>
      have hwrote := h.taken_of_written hi hw
      have hsend := (h.flying.of_getElem? hi).1
      refine ⟨hflying, nofun, h.shut, hgrows, ?_, ?_⟩
      · intro _
        rw [htaken, hwrote.2]
        exact ⟨List.prefix_rfl, List.prefix_append _ _⟩
      · intro _
        refine Or.inr ⟨?_, rfl⟩
        rcases h.opened hsend with hup | hshut
        · rw [hconn] at hup
          cases hup
        · exact hshut
  | written i bytes hi hconn =>
      have hwrote := h.taken_of_written hi hw
      have hbytes := (h.flying.of_getElem? hi).2.1
      refine ⟨hflying, fun _ => Or.inl hconn, h.shut, hgrows, ?_, ?_⟩
      · intro _
        rw [htaken, hwrote.2]
        exact ⟨List.prefix_rfl, List.prefix_append _ _⟩
      · intro _
        refine Or.inl (together_refill (s := { s with
          isSend := false, writing := s.writing.eraseIdx i, completed := s.completed ++ bytes })
          h.flying.buffer h.flying.blocks (le_of_eq (by rw [hbytes])) ?_)
        rw [hbytes, List.drop_length, List.append_nil]
        exact h.together_of_up hwrote.1 hconn

/-- A connection that is closed is down. -/
theorem Move.shut_down (h : Move s a ws t) (hs : s.closed = true → s.connected = false) :
    t.closed = true → t.connected = false := by
  cases h with
  | shut => exact fun _ => rfl
  | up => nofun
  | _ => exact hs

/-- A connection goes down only when it is closed. -/
theorem Move.connected_of_open (h : Move s a ws t) (hopen : t.closed = false)
    (hs : s.connected = true) : t.connected = true := by
  cases h with
  | shut => cases hopen
  | up => rfl
  | _ => exact hs

end SendPath

/-! ## The receiving end -/

/-- What the bytes that an end is given amount to: those of its successful read. -/
theorem ConnAction.readsFrom_spec {a : ConnAction} {w w' : Wire UInt8}
    (h : a.readsFrom w = some w') :
    w'.given = w.given ++ a.read.flatten ∧ w'.taken = w.taken ∧ w'.broken = w.broken := by
  have hsame : some w = some w' → w'.given = w.given ++ [] ∧ w'.taken = w.taken ∧
      w'.broken = w.broken := by
    intro heq
    cases heq
    exact ⟨(List.append_nil _).symm, rfl, rfl⟩
  cases a with
  | handler handler =>
      cases handler with
      | handleReadSome i error bytes =>
          cases error with
          | true => exact hsame h
          | false =>
              have hgive : w.give bytes = some w' := h
              rw [ConnAction.read, List.flatten_singleton]
              exact ⟨Wire.given_of_give hgive, Wire.taken_of_give hgive, Wire.broken_of_give hgive⟩
      | _ => exact hsame h
  | _ => exact hsame h

/-- An action that brings a connection up again, or up twice. -/
def ConnState.Reopens {β : Type} (s : ConnState β) : ConnAction → Prop
  | .handler .handlAccept => s.conn.connected = true ∨ s.closed = true
  | .handler (.handleConnect false) => s.conn.connected = false ∧ s.closed = true
  | _ => False

namespace ConnState

variable {β : Type} {K : BlockClass β} {s s' : ConnState β} {effects : List (Effect β)}
  {a : ConnAction}

/-- A connection comes up from a state in which it has never been up, or nothing changes
but that a connect has ended. -/
theorem step_comesUp (h : s.step K a = some (s', effects)) (hup : a.ComesUp)
    (hopens : ¬ s.Reopens a) :
    (s.conn.connected = false ∧ s.closed = false ∧
      s' = cameUp { s with accepting := s'.accepting, connecting := s'.connecting }) ∨
      s' = { s with connecting := s'.connecting } := by
  cases a with
  | handler handler =>
      cases handler with
      | handlAccept =>
          rcases step_handlAccept h with ⟨-, rfl, -⟩
          simp only [Reopens, not_or, Bool.not_eq_true] at hopens
          exact Or.inl ⟨hopens.1, hopens.2, rfl⟩
      | handleConnect error =>
          rcases step_handleConnect h with ⟨-, ⟨-, rfl, -⟩ | ⟨-, -, rfl, -⟩ | ⟨hdown, rfl, rfl, -⟩⟩
          · exact Or.inr rfl
          · exact Or.inr rfl
          · simp only [Reopens, not_and, Bool.not_eq_true] at hopens
            exact Or.inl ⟨hdown, hopens hdown, rfl⟩
      | _ => exact hup.elim
  | _ => exact hup.elim

/-- A connection that does not come up again stays closed. -/
theorem closed_kept (h : s.step K a = some (s', effects)) (hopens : ¬ s.Reopens a)
    (hclosed : s.closed = true) : s'.closed = true := by
  by_cases hup : a.ComesUp
  · rcases step_comesUp h hup hopens with ⟨-, hopen, -⟩ | heq
    · rw [hclosed] at hopen
      cases hopen
    · rw [heq]
      exact hclosed
  · have hmove := step_sendPath h
    change s.sendPath.closed = true at hclosed
    change s'.sendPath.closed = true
    generalize s'.sendPath = t', writesOf effects = ws at hmove
    cases hmove with
    | shut => rfl
    | up a hcomes => exact absurd hcomes hup
    | _ => exact hclosed

section
variable {σ μ : Type} {D : Decoder UInt8 σ μ Exn} {R : Decodes K D} {size : Nat} {given : Bytes}

/-- The receiving part of a connection that comes up once: until it is closed its messages
are what the decoder made of all it was given, and then they stay what they are. -/
structure Heard (R : Decodes K D) (size : Nat) (s : ConnState β) (given : Bytes) : Prop where
  shut : s.closed = true → s.conn.connected = false
  messages : ∃ reads ms st, D.Runs D.init reads ms (.ok st) ∧
    List.Forall₂ R.Shows ms s.messages ∧ reads.flatten <+: given ∧
    (s.closed = false → reads.flatten = given ∧
      R.Reading size st { s.conn with connected := true } ∧
      (s.reading = [] ∨ (s.conn.connected = true ∧ s.reading = [s.conn.room])))

theorem heard_create (sid : SessionId) : Heard R size (create sid size) [] where
  shut := nofun
  messages := ⟨[], [], D.init, .nil D.init, .nil, List.prefix_rfl,
    fun _ => ⟨rfl, Decodes.reading_accepted sid size, Or.inl rfl⟩⟩

/-- The connection comes up, or a connect ends without effect. -/
theorem Heard.comesUp (h : Heard R size s given) (hstep : s.step K a = some (s', effects))
    (hup : a.ComesUp) (hopens : ¬ s.Reopens a) : Heard R size s' given := by
  rcases h.messages with ⟨reads, ms, st, hruns, hshows, hpref, hopen⟩
  rcases step_comesUp hstep hup hopens with ⟨hdown, hnever, heq⟩ | heq
  · rcases hopen hnever with ⟨hgiven, hreading, hread⟩
    rw [heq]
    refine ⟨nofun, reads, ms, st, hruns, hshows, hpref, fun _ => ⟨hgiven, hreading, Or.inr ?_⟩⟩
    rcases hread with hnil | ⟨hconn, -⟩
    · simp [cameUp, hnil, Connection.room]
    · rw [hdown] at hconn
      cases hconn
  · rw [heq]
    exact ⟨h.shut, reads, ms, st, hruns, hshows, hpref, hopen⟩

/-- A successful read, on a connection that has not been closed. -/
theorem Heard.read (h : Heard R size s given) {i : Nat} {bytes : Bytes}
    (hstep : s.step K (.handler (.handleReadSome i false bytes)) = some (s', effects))
    (hnever : s.closed = false) : Heard R size s' (given ++ bytes) := by
  rcases h.messages with ⟨reads, ms, st, hruns, hshows, -, hopen⟩
  rcases hopen hnever with ⟨hgiven, hreading, hread⟩
  rcases step_handleReadSome hstep with ⟨room, hi, -, hcases⟩
  rcases hread with hnil | ⟨hconn, hone⟩
  · -- no read is outstanding
    rw [hnil] at hi
    cases hi
  · have hserving : Serving R size st s := ⟨reading_congr hreading rfl rfl hconn, Or.inr hone⟩
    rcases serving_read hserving hstep with
      ⟨ms', st', ps, hpumps, hmessages, hshows', hserving'⟩
    have hclosed : s'.closed = false := by
      rcases hcases with ⟨-, rfl, -⟩ | ⟨-, -, rfl, -⟩ | ⟨-, -, conn', ps', -, -, rfl, -⟩
      · exact hnever
      · exact hnever
      · exact hnever
    have hruns' := hruns.append (Runs.cons hpumps (Runs.nil st'))
    rw [List.append_nil] at hruns'
    have hflat : (reads ++ [bytes]).flatten = given ++ bytes := by
      rw [List.flatten_append, List.flatten_singleton, hgiven]
    refine ⟨?_, reads ++ [bytes], ms ++ ms', st', hruns', ?_, hflat ▸ List.prefix_rfl,
      fun _ => ⟨hflat, reading_congr hserving'.decoding rfl rfl rfl, ?_⟩⟩
    · rw [hclosed]
      nofun
    · rw [hmessages]
      exact List.rel_append hshows hshows'
    · exact hserving'.reading.imp_right fun hread => ⟨hserving'.decoding.connected, hread⟩

/-- A step that reads nothing. -/
theorem Heard.quiet (h : Heard R size s given) (hstep : s.step K a = some (s', effects))
    (hup : ¬ a.ComesUp) (hread : a.read = []) (hnever : s.closed = false) :
    Heard R size s' given := by
  have hmove := step_sendPath hstep
  rcases h.messages with ⟨reads, ms, st, hruns, hshows, hpref, hopen⟩
  rcases hopen hnever with ⟨hgiven, hreading, hone⟩
  rcases step_keeps_receiving hstep (Or.inl hread) with ⟨hbuffer, hwait, hmessages, hreads⟩
  refine ⟨hmove.shut_down h.shut, reads, ms, st, hruns, hmessages ▸ hshows, hpref, fun hopen' =>
    ⟨hgiven, reading_congr hreading hbuffer hwait rfl, ?_⟩⟩
  rcases hone with hnil | ⟨hconn, hone⟩
  · rcases hreads with heq | ⟨i, hi, -⟩ | ⟨hcomes, -⟩
    · exact Or.inl (heq.trans hnil)
    · rw [hnil] at hi
      exact absurd hi (Nat.not_lt_zero i)
    · exact absurd hcomes hup
  · have hreads' := reading_kept (Or.inr hone)
      (hreads.imp_right fun hmore => hmore.resolve_right fun hcomes => hup hcomes.1)
    refine hreads'.imp_right fun hone' => ⟨hmove.connected_of_open hopen' hconn, ?_⟩
    rw [hone', room_congr hbuffer]

/-- A step of a connection that was closed. -/
theorem Heard.closed (h : Heard R size s given) (hstep : s.step K a = some (s', effects))
    (hclosed : s.closed = true) (hclosed' : s'.closed = true) {more : Bytes} :
    Heard R size s' (given ++ more) := by
  rcases h.messages with ⟨reads, ms, st, hruns, hshows, hpref, -⟩
  rcases step_keeps_receiving hstep (Or.inr (h.shut hclosed)) with ⟨-, -, hmessages, -⟩
  refine ⟨(step_sendPath hstep).shut_down h.shut, reads, ms, st, hruns, hmessages ▸ hshows,
    hpref.trans (List.prefix_append _ _), ?_⟩
  rw [hclosed']
  nofun

/-- What a step of a connection that does not come up again keeps, with what it was given
then. -/
theorem Heard.next (h : Heard R size s given) (hstep : s.step K a = some (s', effects))
    (hopens : ¬ s.Reopens a) : Heard R size s' (given ++ a.read.flatten) := by
  by_cases hup : a.ComesUp
  · have hnone : a.read = [] := by
      cases a with
      | handler handler => cases handler <;> first | rfl | exact hup.elim
      | _ => rfl
    rw [hnone, List.flatten_nil, List.append_nil]
    exact h.comesUp hstep hup hopens
  · by_cases hclosed : s.closed = true
    · exact h.closed hstep hclosed (closed_kept hstep hopens hclosed)
    · rw [Bool.not_eq_true] at hclosed
      by_cases hread : a.read = []
      · rw [hread, List.flatten_nil, List.append_nil]
        exact h.quiet hstep hup hread hclosed
      · cases a with
        | handler handler =>
            cases handler with
            | handleReadSome i error bytes =>
                cases error with
                | true => exact absurd rfl hread
                | false =>
                    rw [ConnAction.read, List.flatten_singleton]
                    exact h.read hstep hclosed
            | _ => exact absurd rfl hread
        | _ => exact absurd rfl hread

end

end ConnState

/-- The data of completed blocks. -/
theorem NetBlock.data_of_shows {ms : List (Head × Bytes)} {blocks : List NetBlock}
    (h : List.Forall₂ decodes.Shows ms blocks) :
    (blocks.map fun k => k.data.map NetBuffer.data) = ms.map fun m => some m.2 := by
  induction h with
  | nil => rfl
  | cons hshow _ ih => rw [List.map_cons, List.map_cons, hshow.data_eq, ih]

/-! ## Both ends -/

/-- No end comes up again, or comes up twice. -/
def Link.ComesUpOnce {β : Type} (l : Link β) : LinkAction → Prop
  | .carry _ _ => True
  | .act x a => ¬ (l.conn x).Reopens a

namespace Link

open ConnState

variable {β : Type} {K : BlockClass β} {σ μ : Type} {D : Decoder UInt8 σ μ Exn}
  {R : Decodes K D} {size : Nat} {l l' : Link β}

/-- In both directions: what the transport took from the one end, and what the other has
made of what it was given. -/
structure Sound (R : Decodes K D) (size : Nat) (l : Link β) : Prop where
  carried : ∀ x, (l.conn x).sendPath.Carried (l.wire x)
  heard : ∀ x, Heard R size (l.conn x) (l.wire x.other).given

theorem carried_create (sid : SessionId) :
    (ConnState.create sid size : ConnState β).sendPath.Carried Wire.idle where
  flying := flying_create sid size
  opened := nofun
  shut := nofun
  taken := List.prefix_rfl
  written _ := ⟨List.prefix_rfl, List.prefix_rfl⟩
  together _ := by
    refine Or.inl ?_
    change [] ++ (NetBuffer.create size).unread ++ [] = []
    rw [NetBuffer.unread_create]
    rfl

theorem sound_create (sid : Side → SessionId) : Sound R size (create sid size) where
  carried x := carried_create (sid x)
  heard x := heard_create (sid x)

/-- What a step of one end changes: its state, and the transports it writes to and reads
from. -/
theorem act_eq_some {x : Side} {a : ConnAction} (h : l.act K x a = some l') :
    ∃ c own others effects, (l.conn x).step K a = some (c, effects) ∧
      (l.conn x).sendPath.writesTo (l.wire x) a = some own ∧
      a.readsFrom (l.wire x.other) = some others ∧
      l'.conn x = c ∧ l'.conn x.other = l.conn x.other ∧
      l'.wire x = own ∧ l'.wire x.other = others := by
  simp only [act, Option.bind_eq_bind, Option.bind_eq_some_iff, Option.some.injEq] at h
  rcases h with ⟨c, hc, own, hown, others, hothers, rfl⟩
  rcases next_eq_some.mp hc with ⟨effects, hstep⟩
  refine ⟨c, own, others, effects, hstep, hown, hothers, Function.update_self .., ?_, ?_,
    Function.update_self ..⟩
  · exact Function.update_of_ne x.other_ne ..
  · exact (Function.update_of_ne x.other_ne.symm ..).trans (Function.update_self ..)

/-- What a move of the transport changes. -/
theorem carry_eq_some {x : Side} {n : Nat} (h : l.step K (.carry x n) = some l') :
    (l.wire x).broken = false ∧ l'.conn = l.conn ∧ l'.wire x.other = l.wire x.other ∧
      l'.wire x = (l.wire x).take (((l.conn x).sendPath.untaken (l.wire x)).take n) := by
  simp only [Link.step, Option.ite_none_left_eq_some, Bool.not_eq_true, Option.some.injEq] at h
  rcases h with ⟨hworks, rfl⟩
  exact ⟨hworks, rfl, Function.update_of_ne x.other_ne .., Function.update_self ..⟩

/-- A step of one end, as that end and the other see it. -/
theorem Sound.act (h : Sound R size l) {x : Side} {a : ConnAction} (hact : l.act K x a = some l')
    (hopens : ¬ (l.conn x).Reopens a) : Sound R size l' := by
  rcases act_eq_some hact with
    ⟨c, own, others, effects, hstep, hown, hothers, hconn, hconn_other, hwire, hwire_other⟩
  rcases ConnAction.readsFrom_spec hothers with ⟨hgiven, htaken, hbroken⟩
  refine ⟨Side.forall_of x ?_ ?_, Side.forall_of x ?_ ?_⟩
  · rw [hconn, hwire]
    exact (h.carried x).move (step_sendPath hstep) (closed_kept hstep hopens) hown
  · rw [hconn_other, hwire_other]
    exact (h.carried x.other).congr htaken hbroken
  · rw [hconn, hwire_other, hgiven]
    exact (h.heard x).next hstep hopens
  · rw [hconn_other, Side.other_other, hwire, SendPath.given_of_writesTo hown]
    have hheard := h.heard x.other
    rwa [Side.other_other] at hheard

/-- What a step keeps, unless an end comes up again. -/
theorem Sound.step {a : LinkAction} (h : Sound R size l) (hopens : l.ComesUpOnce a)
    (hstep : l.step K a = some l') : Sound R size l' := by
  cases a with
  | carry x n =>
      rcases carry_eq_some hstep with ⟨hworks, hconn, hwire_other, hwire⟩
      refine ⟨Side.forall_of x ?_ ?_, Side.forall_of x ?_ ?_⟩
      · rw [hconn, hwire]
        exact (h.carried x).carry hworks n
      · rw [hconn, hwire_other]
        exact h.carried x.other
      · rw [hconn, hwire_other]
        exact h.heard x
      · rw [hconn, Side.other_other, hwire, Wire.given_take]
        have hheard := h.heard x.other
        rwa [Side.other_other] at hheard
  | act x a => exact h.act hstep hopens

/-- The messages posted at one end are the first of those that the bytes handed to `send` at
the other end amount to, whatever the ends and the transport do in between. -/
theorem delivers_prefix {Stream : Bytes → Prop} (hres : D.Resumable Stream) (sid : Side → SessionId)
    {as : List LinkAction} (honce : Along (Link.step K) ComesUpOnce (create sid size) as)
    (h : run (Link.step K) (create sid size) as = some l) {x : Side} {ms : List μ}
    {out : Except Exn σ} (hstream : Stream (unreadAll (l.conn x).accepted))
    (hall : D.Pumps D.init (unreadAll (l.conn x).accepted) ms out) :
    ∃ ms', ms' <+: ms ∧ List.Forall₂ R.Shows ms' (l.conn x.other).messages := by
  have hsound : Sound R size l :=
    run_invariant_of_along (fun _ _ _ hs ha hstep => hs.step ha hstep) (sound_create sid) honce h
  rcases (hsound.heard x.other).messages with ⟨reads, ms', st, hruns, hshows, hpref, -⟩
  rw [Side.other_other] at hpref
  have hbytes : reads.flatten <+: unreadAll (l.conn x).accepted :=
    (hpref.trans (l.wire x).given_isPrefix).trans (hsound.carried x).taken
  exact ⟨ms', hres.runs_prefix R.lawful hstream hbytes hruns hall, hshows⟩

/-- The bytes of the blocks that were handed to `send` are those of their messages. -/
theorem pumps_of_sent {blocks : List NetBuffer} {sent : List NetBlock.Sent}
    (hsent : blocks.map NetBuffer.unread = sent.map fun m => m.block.bytes) :
    NetBlock.frameDecoder.Pumps [] (unreadAll blocks)
      (sent.map fun m =>
        (NetBlock.headOfLen (sizeofHead + m.payloads.flatten.length), m.payloads.flatten))
      (.ok []) := by
  have hbytes : unreadAll blocks = sent.flatMap fun m => m.block.bytes := by
    rw [unreadAll, List.flatMap_def, hsent, ← List.flatMap_def]
  rw [hbytes]
  exact NetBlock.lawful_frameDecoder.pumps_flatMap
    (fun m rest (_ : True) => NetBlock.feed_sent m rest) fun _ _ => trivial

/-- What the blocks of a sender amount to at the other end: their payloads, each once and in
order. -/
theorem blocks_arrive (sid : Side → SessionId) {l : Link NetBlock} {as : List LinkAction}
    (honce : Along (Link.step NetBlock.blockClass) ComesUpOnce (create sid size) as)
    (h : run (Link.step NetBlock.blockClass) (create sid size) as = some l) {x : Side}
    {sent : List NetBlock.Sent}
    (hsent : (l.conn x).accepted.map NetBuffer.unread = sent.map fun m => m.block.bytes) :
    ((l.conn x.other).messages.map fun k => k.data.map NetBuffer.data) <+:
      sent.map fun m => some m.payloads.flatten := by
  have hall := pumps_of_sent hsent
  rcases delivers_prefix (R := NetBlock.decodes) NetBlock.resumable_frameDecoder sid honce h trivial
    hall with ⟨ms, hpref, hshows⟩
  rw [NetBlock.data_of_shows hshows]
  have hmap := hpref.map fun m => some m.2
  rwa [List.map_map] at hmap

instance (s : ConnState β) : (a : ConnAction) → Decidable (s.Reopens a)
  | .send _ => inferInstanceAs (Decidable False)
  | .close _ => inferInstanceAs (Decidable False)
  | .postAccept => inferInstanceAs (Decidable False)
  | .connect => inferInstanceAs (Decidable False)
  | .handler .handlAccept => inferInstanceAs (Decidable (_ ∨ _))
  | .handler (.handleConnect false) => inferInstanceAs (Decidable (_ ∧ _))
  | .handler (.handleConnect true) => inferInstanceAs (Decidable False)
  | .handler (.writeMessage _) => inferInstanceAs (Decidable False)
  | .handler (.handleClose _) => inferInstanceAs (Decidable False)
  | .handler (.handleReadSome _ _ _) => inferInstanceAs (Decidable False)
  | .handler (.handleWrite _ _ _) => inferInstanceAs (Decidable False)

instance (l : Link β) : (a : LinkAction) → Decidable (l.ComesUpOnce a)
  | .carry _ _ => inferInstanceAs (Decidable True)
  | .act _ _ => inferInstanceAs (Decidable (¬ _))

/-- Two blocks are sent while both ends come up, and the bytes of the second are only in
part at the other end when the connection is closed there. -/
def cutShort : List LinkAction :=
  [.act .near .postAccept, .act .near (.handler .handlAccept), .act .far .connect,
    .act .far (.handler (.handleConnect false)),
    .act .near (.send (filled (NetBlock.build 3 8 [text "he", [], text "llo"]).bytes)),
    .act .near (.send (filled (NetBlock.build 3 1 [[], []]).bytes)),
    .act .near (.handler (.writeMessage 0)), .carry .near 14,
    .act .far (.handler (.handleReadSome 0 false [17, 0, 0, 0, 0, 0, 0])), .carry .near 15,
    .act .near (.handler (.handleWrite 0 false 29)),
    .act .far (.handler (.handleReadSome 0 false
      [0, 0, 0, 0, 0, 104, 101, 108, 108, 111, 12, 0, 0])),
    .act .far (.close false), .act .far (.handler (.handleClose 0)),
    .act .far (.handler (.handleReadSome 0 false [0, 0, 0, 0]))]

theorem blocks_arrive_cutShort :
    ∃ l, run (Link.step NetBlock.blockClass) (create (fun _ => 1) 32) cutShort = some l ∧
      (l.conn .far).messages.length = 1 ∧
      ((l.conn .far).messages.map fun k => k.data.map NetBuffer.data) <+:
        NetBlock.twoSent.map fun m => some m.payloads.flatten := by
  have hrun : (run (Link.step NetBlock.blockClass) (create (fun _ => 1) 32) cutShort).any (fun l =>
      (l.conn .far).messages.length = 1 ∧
        (l.conn .near).accepted.map NetBuffer.unread =
          NetBlock.twoSent.map fun m => m.block.bytes) = true := by
    decide +kernel
  rcases (Option.any_eq_true _ _).mp hrun with ⟨l, hl, hvalues⟩
  rw [decide_eq_true_eq] at hvalues
  exact ⟨l, hl, hvalues.1, blocks_arrive (fun _ => 1) (by decide +kernel) hl hvalues.2⟩

end Link

end FannyNet

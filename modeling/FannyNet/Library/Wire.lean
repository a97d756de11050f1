import Mathlib.Data.List.Infix
import Mathlib.Tactic.Common

/-!
# Transports

A transport carries a stream from a sender to a receiver: it takes elements from the
sender, keeps them in order, and gives them to the receiver in pieces of any length.  Once
it has broken down it takes nothing more, and what is under way may still arrive.

Main results:

- Theorems `taken_take` and `taken_of_give`: nothing is lost or added under way.
- Theorem `given_isPrefix`: what the receiver was given is the beginning of what was taken.
-/

namespace Library

/-- A transport: what its receiver was given, what is under way, and whether it has broken
down. -/
structure Wire (α : Type*) where
  given : List α
  flight : List α
  broken : Bool
deriving DecidableEq, Repr

namespace Wire

variable {α : Type*}

/-- A transport that has carried nothing. -/
def idle : Wire α :=
  ⟨[], [], false⟩

/-- All that was taken from the sender. -/
def taken (w : Wire α) : List α :=
  w.given ++ w.flight

/-- Elements are taken from the sender. -/
def take (w : Wire α) (xs : List α) : Wire α :=
  { w with flight := w.flight ++ xs }

/-- The receiver is given the first elements that are under way. -/
def give [DecidableEq α] (w : Wire α) (xs : List α) : Option (Wire α) :=
  if xs <+: w.flight then
    some { w with given := w.given ++ xs, flight := w.flight.drop xs.length }
  else none

/-- The transport breaks down. -/
def breakDown (w : Wire α) : Wire α :=
  { w with broken := true }

@[simp]
theorem taken_idle : (idle : Wire α).taken = [] :=
  rfl

@[simp]
theorem given_idle : (idle : Wire α).given = [] :=
  rfl

@[simp]
theorem taken_take (w : Wire α) (xs : List α) : (w.take xs).taken = w.taken ++ xs :=
  (List.append_assoc w.given w.flight xs).symm

@[simp]
theorem given_take (w : Wire α) (xs : List α) : (w.take xs).given = w.given :=
  rfl

@[simp]
theorem broken_take (w : Wire α) (xs : List α) : (w.take xs).broken = w.broken :=
  rfl

@[simp]
theorem taken_breakDown (w : Wire α) : w.breakDown.taken = w.taken :=
  rfl

@[simp]
theorem given_breakDown (w : Wire α) : w.breakDown.given = w.given :=
  rfl

theorem given_isPrefix (w : Wire α) : w.given <+: w.taken :=
  List.prefix_append _ _

/-- With nothing under way, all that was taken was given. -/
theorem given_eq_taken {w : Wire α} (h : w.flight = []) : w.given = w.taken := by
  rw [taken, h, List.append_nil]

theorem length_taken (w : Wire α) : w.taken.length = w.given.length + w.flight.length :=
  List.length_append

variable [DecidableEq α] {w w' : Wire α} {xs : List α}

theorem give_eq_some_iff : w.give xs = some w' ↔
    xs <+: w.flight ∧ w' = ⟨w.given ++ xs, w.flight.drop xs.length, w.broken⟩ := by
  unfold give
  constructor
  · intro h
    split at h
    · rename_i hpref
      cases h
      exact ⟨hpref, rfl⟩
    · cases h
  · rintro ⟨hpref, rfl⟩
    rw [if_pos hpref]

theorem given_of_give (h : w.give xs = some w') : w'.given = w.given ++ xs := by
  rcases give_eq_some_iff.mp h with ⟨-, rfl⟩
  rfl

/-- What was taken stays what it is when a part of it is given. -/
theorem taken_of_give (h : w.give xs = some w') : w'.taken = w.taken := by
  rcases give_eq_some_iff.mp h with ⟨⟨ys, hflight⟩, rfl⟩
  simp only [taken, ← hflight, List.drop_left, List.append_assoc]

theorem broken_of_give (h : w.give xs = some w') : w'.broken = w.broken := by
  rcases give_eq_some_iff.mp h with ⟨-, rfl⟩
  rfl

/-- The first elements under way can be given, however many. -/
theorem exists_give (w : Wire α) (n : Nat) : ∃ w', w.give (w.flight.take n) = some w' :=
  ⟨_, give_eq_some_iff.mpr ⟨List.take_prefix n w.flight, rfl⟩⟩

end Wire
end Library

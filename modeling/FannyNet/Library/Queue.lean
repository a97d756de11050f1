import FannyNet.Library.Transition
import Mathlib.Data.List.Infix
import Mathlib.Logic.Function.Basic

/-!
# Queues and their history

Several first-in first-out queues.  An event puts elements behind those that wait, takes
elements that wait at the front, or empties a queue.

Main results:

- Definitions `appended` and `taken`: what went into a queue, and out of it, since it was
  last emptied.
- Theorem `taken_append_of_run`: what was taken, followed by what waits, is what was
  appended.
-/

namespace Library
namespace Queue

open Transition

variable {ι α : Type*}

/-- An event at one of several queues. -/
inductive Event (ι α : Type*) where
  | append (i : ι) (xs : List α)
  | take (i : ι) (xs : List α)
  | reset (i : ι)
deriving DecidableEq, Repr

variable [DecidableEq ι]

/-- What is put into queue `i` behind `xs`. -/
def appendedBehind (i : ι) (xs : List α) : Event ι α → List α
  | .append j ys => if j = i then xs ++ ys else xs
  | .take _ _ => xs
  | .reset j => if j = i then [] else xs

/-- What is taken from queue `i` behind `xs`. -/
def takenBehind (i : ι) (xs : List α) : Event ι α → List α
  | .append _ _ => xs
  | .take j ys => if j = i then xs ++ ys else xs
  | .reset j => if j = i then [] else xs

/-- What was put into queue `i` since it was last emptied. -/
def appended (i : ι) (es : List (Event ι α)) : List α :=
  es.foldl (appendedBehind i) []

/-- What was taken from queue `i` since it was last emptied. -/
def taken (i : ι) (es : List (Event ι α)) : List α :=
  es.foldl (takenBehind i) []

/-- The queues after an event.  Only what waits at the front can be taken. -/
def step [DecidableEq α] (q : ι → List α) : Event ι α → Option (ι → List α)
  | .append i xs => some (Function.update q i (q i ++ xs))
  | .take i xs =>
      if xs <+: q i then some (Function.update q i ((q i).drop xs.length)) else none
  | .reset i => some (Function.update q i [])

section
variable (i : ι) (es : List (Event ι α))

theorem appended_concat (e : Event ι α) :
    appended i (es ++ [e]) = appendedBehind i (appended i es) e := by
  rw [appended, List.foldl_append, List.foldl_cons, List.foldl_nil, appended]

theorem taken_concat (e : Event ι α) : taken i (es ++ [e]) = takenBehind i (taken i es) e := by
  rw [taken, List.foldl_append, List.foldl_cons, List.foldl_nil, taken]

end

variable [DecidableEq α]

/-- One event at queues that agree with their history. -/
theorem takenBehind_append {q q' : ι → List α} {e : Event ι α} (h : step q e = some q')
    {xs ys : List α} {i : ι} (hi : xs ++ q i = ys) :
    takenBehind i xs e ++ q' i = appendedBehind i ys e := by
  cases e with
  | append j zs =>
      rw [step, Option.some.injEq] at h
      subst h
      by_cases hj : j = i
      · subst hj
        rw [takenBehind, appendedBehind, if_pos rfl, Function.update_self, ← hi, List.append_assoc]
      · rw [takenBehind, appendedBehind, if_neg hj, Function.update_of_ne (Ne.symm hj)]
        exact hi
  | take j zs =>
      rw [step] at h
      by_cases hfront : zs <+: q j
      · rw [if_pos hfront, Option.some.injEq] at h
        subst h
        by_cases hj : j = i
        · subst hj
          rw [takenBehind, appendedBehind, if_pos rfl, Function.update_self, ← hi,
            List.append_assoc]
          rcases hfront with ⟨rest, hrest⟩
          rw [← hrest, List.drop_left]
        · rw [takenBehind, appendedBehind, if_neg hj, Function.update_of_ne (Ne.symm hj)]
          exact hi
      · rw [if_neg hfront] at h
        cases h
  | reset j =>
      rw [step, Option.some.injEq] at h
      subst h
      by_cases hj : j = i
      · subst hj
        rw [takenBehind, appendedBehind, if_pos rfl, if_pos rfl, Function.update_self,
          List.append_nil]
      · rw [takenBehind, appendedBehind, if_neg hj, if_neg hj, Function.update_of_ne (Ne.symm hj)]
        exact hi

/-- What was taken, followed by what waits, is what was appended, in order. -/
theorem taken_append_of_run {es : List (Event ι α)} {q : ι → List α}
    (h : run step (fun _ => []) es = some q) (i : ι) : taken i es ++ q i = appended i es := by
  induction es using List.reverseRecOn generalizing q with
  | nil =>
      rw [run_nil, Option.some.injEq] at h
      rw [← h]
      rfl
  | append_singleton es e ih =>
      rw [run_append, Option.bind_eq_some_iff] at h
      rcases h with ⟨q₁, hq₁, he⟩
      rcases run_cons.mp he with ⟨q₂, hstep, hnil⟩
      rw [run_nil, Option.some.injEq] at hnil
      rw [← hnil, taken_concat, appended_concat]
      exact takenBehind_append hstep (ih hq₁)

end Queue
end Library

import Mathlib.Logic.Relation
import Mathlib.Tactic.Common

/-!
# Loops and their passes

A loop is given by its pass: from a state, a pass goes on in a new state or leaves with a
result.  Nothing bounds the number of passes.  A function with a bound as its first argument
computes a loop as soon as it satisfies the equation of the loop and the bound exceeds a
measure that every pass makes smaller.

Main results:

- Theorem `Ends.exists_leave`: the result of a loop is that of a pass in a state it reaches.
- Theorem `Reaches.invariant` and theorem `shrinks_of_step`: what every pass keeps holds of
  every state that is reached, and what every pass makes smaller gets smaller throughout.
- Theorem `ends_of_shrinks`: a loop with a measure ends with what the bounded function
  computes.
-/

namespace Library
namespace Loop

/-- What a pass of a loop does. -/
inductive Pass (σ ρ : Type*) where
  | again (s : σ)
  | leave (r : ρ)

variable {σ ρ : Type*} (pass : σ → Pass σ ρ)

/-- The loop entered in a state ends with a result. -/
inductive Ends : σ → ρ → Prop where
  | leave {s : σ} {r : ρ} (h : pass s = .leave r) : Ends s r
  | again {s t : σ} {r : ρ} (h : pass s = .again t) (ht : Ends t r) : Ends s r

/-- The states in which a pass of the loop entered in `s` begins. -/
def Reaches (s t : σ) : Prop :=
  Relation.ReflTransGen (fun s t => pass s = .again t) s t

/-- In the loop entered in `s` every pass that goes on makes the measure smaller. -/
def Shrinks (μ : σ → Nat) (s : σ) : Prop :=
  ∀ t u, Reaches pass s t → pass t = .again u → μ u < μ t

/-- A function with a bound on the passes satisfies the equation of the loop. -/
def Computes (f : Nat → σ → ρ) : Prop :=
  ∀ n s, f (n + 1) s =
    match pass s with
    | .again t => f n t
    | .leave r => r

variable {pass}

theorem Reaches.entry (s : σ) : Reaches pass s s :=
  Relation.ReflTransGen.refl

/-- The first pass that goes on comes before all others. -/
theorem Reaches.head {s t u : σ} (h : pass s = .again t) (hu : Reaches pass t u) :
    Reaches pass s u :=
  Relation.ReflTransGen.head h hu

/-- What every pass keeps holds of every state that is reached. -/
theorem Reaches.invariant {I : σ → Prop} (hstep : ∀ s t, I s → pass s = .again t → I t) {s t : σ}
    (hs : I s) (h : Reaches pass s t) : I t := by
  induction h with
  | refl => exact hs
  | tail _ hagain ih => exact hstep _ _ ih hagain

/-- The result is that of a pass in a state that is reached. -/
theorem Ends.exists_leave {s : σ} {r : ρ} (h : Ends pass s r) :
    ∃ t, Reaches pass s t ∧ pass t = .leave r := by
  induction h with
  | leave hleave => exact ⟨_, .entry _, hleave⟩
  | again hagain _ ih =>
      rcases ih with ⟨u, hu, hleave⟩
      exact ⟨u, hu.head hagain, hleave⟩

section
variable {I : σ → Prop} {μ : σ → Nat}

/-- What every pass makes smaller, where an invariant holds, gets smaller throughout. -/
theorem shrinks_of_step (hstep : ∀ s t, I s → pass s = .again t → I t ∧ μ t < μ s) {s : σ}
    (hs : I s) : Shrinks pass μ s := by
  intro t u ht hagain
  have hinv : I t := ht.invariant (fun s t hI h => (hstep s t hI h).1) hs
  exact (hstep t u hinv hagain).2

/-- A loop with a measure ends, with what a function computes whose bound exceeds it. -/
theorem ends_of_shrinks {f : Nat → σ → ρ} (hf : Computes pass f) {n : Nat} {s : σ}
    (h : Shrinks pass μ s) (hn : μ s < n) : Ends pass s (f n s) := by
  induction n generalizing s with
  | zero => exact absurd hn (Nat.not_lt_zero _)
  | succ n ih =>
      rw [hf n s]
      cases hpass : pass s with
      | leave r => exact .leave hpass
      | again t =>
          have hlt : μ t < μ s := h s t (.entry s) hpass
          have hrest : Shrinks pass μ t := fun u v hu => h u v (hu.head hpass)
          exact .again hpass (ih hrest (by omega))

end

end Loop
end Library

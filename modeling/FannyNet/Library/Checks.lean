import Mathlib.Tactic.Common

/-!
# Programs with run-time checks

A program that can fail, and the same program with checks compiled in, which can fail in more
ways.  The checked program passes its checks when it does what the other does, with the failures
of the one among those of the other.

Main results:

- Theorem `Passes.bind`: the checked steps of a program one after the other.
- Theorem `Passes.step` and theorem `Passes.call`: a step with nothing to check, and a checked
  step in the place of one that cannot fail.
-/

namespace Library
namespace Checks

universe u

variable {ε ε' : Type*} {α γ : Type u} {lift : ε → ε'}

/-- The checked program `x` passes its checks as `y` runs, and what `y` returns satisfies `P`. -/
structure Passes (lift : ε → ε') (x : Except ε' α) (y : Except ε α) (P : α → Prop) : Prop where
  eq : x = y.mapError lift
  post : ∀ a, y = .ok a → P a

theorem Passes.ok {a : α} {P : α → Prop} (h : P a) : Passes lift (.ok a) (.ok a) P := by
  constructor
  · rfl
  · intro b hb
    cases hb
    exact h

/-- A program without checks of its own. -/
theorem Passes.lifted {y : Except ε α} {P : α → Prop} (h : ∀ a, y = .ok a → P a) :
    Passes lift (y.mapError lift) y P :=
  ⟨rfl, h⟩

theorem Passes.imp {x : Except ε' α} {y : Except ε α} {P Q : α → Prop}
    (h : Passes lift x y P) (himp : ∀ a, P a → Q a) : Passes lift x y Q :=
  ⟨h.eq, fun a ha => himp a (h.post a ha)⟩

theorem Passes.bind {x : Except ε' α} {y : Except ε α} {f : α → Except ε' γ} {g : α → Except ε γ}
    {P : α → Prop} {Q : γ → Prop} (h : Passes lift x y P)
    (hf : ∀ a, P a → Passes lift (f a) (g a) Q) : Passes lift (x >>= f) (y >>= g) Q := by
  rcases h with ⟨rfl, hpost⟩
  cases y with
  | error e =>
      constructor
      · rfl
      · intro c hc
        cases hc
  | ok a => exact hf a (hpost a rfl)

/-- A step without checks of its own. -/
theorem Passes.step {y : Except ε α} {f : α → Except ε' γ} {g : α → Except ε γ} {Q : γ → Prop}
    (hf : ∀ a, Passes lift (f a) (g a) Q) : Passes lift (y.mapError lift >>= f) (y >>= g) Q :=
  Passes.bind (Passes.lifted fun _ _ => trivial) fun a (_ : True) => hf a

/-- The step that is checked returns `a`. -/
theorem Passes.call {x : Except ε' α} {a : α} {f : α → Except ε' γ} {y : Except ε γ}
    {P : α → Prop} {Q : γ → Prop} (h : Passes lift x (.ok a) P)
    (hf : P a → Passes lift (f a) y Q) : Passes lift (x >>= f) y Q := by
  have hx : x = .ok a := h.eq
  rw [hx]
  exact hf (h.post a rfl)

end Checks
end Library

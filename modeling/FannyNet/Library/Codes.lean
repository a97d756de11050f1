import Mathlib.Data.List.Infix
import Mathlib.Data.List.Flatten
import Mathlib.Tactic.Common
import FannyNet.Library.Lines

/-!
# Codes that can be read from the front

A code is readable when a word at the front of a text determines what it encodes and where it
ends.  Headers that count what follows them make readable codes of sized words and of counted
lists.

Main results:

- Theorem `Readable.sized` and theorem `Readable.counted`: the codes behind a header.
- Theorem `Readable.flatMap_prefix_iff`: one text of words begins another exactly if its words
  are the first of the other.
-/

namespace Library

variable {α ω : Type*}

/-- A word at the front of a text tells what it encodes and where it ends. -/
def Readable (enc : ω → List α) : Prop :=
  ∀ v w x y, enc v ++ x = enc w ++ y → v = w ∧ x = y

namespace Readable

variable {enc : ω → List α}

/-- A word in front does no harm. -/
theorem after (h : Readable enc) (front : List α) : Readable fun w => front ++ enc w := by
  intro v w x y heq
  simp only [List.append_assoc] at heq
  exact h v w x y (List.append_cancel_left heq)

/-- A text that determines what it encodes, up to a terminator that it does not contain. -/
theorem terminated (hinj : Function.Injective enc) {t : α} (hfree : ∀ w, t ∉ enc w)
    (tail : List α) : Readable fun w => enc w ++ t :: tail := by
  intro v w x y heq
  simp only [List.append_assoc, List.cons_append] at heq
  rcases Nat.le_total (enc v).length (enc w).length with hle | hle
  · rcases Lines.eq_of_append_terminator (hfree w) hle heq with ⟨hvw, hxy⟩
    exact ⟨hinj hvw, List.append_cancel_left hxy⟩
  · rcases Lines.eq_of_append_terminator (hfree v) hle heq.symm with ⟨hwv, hyx⟩
    exact ⟨hinj hwv.symm, List.append_cancel_left hyx.symm⟩

/-- Words of any content behind a header that tells their length. -/
theorem sized {header : Nat → List α} (h : Readable header) (tail : List α) :
    Readable fun w : List α => header w.length ++ (w ++ tail) := by
  intro v w x y heq
  simp only [List.append_assoc] at heq
  rcases h _ _ _ _ heq with ⟨hlen, hrest⟩
  rcases List.append_inj hrest hlen with ⟨hvw, htail⟩
  exact ⟨hvw, List.append_cancel_left htail⟩

/-- As many words determine where they end. -/
theorem flatMap_inj (h : Readable enc) {vs ws : List ω} (hlen : vs.length = ws.length)
    {x y : List α} (heq : vs.flatMap enc ++ x = ws.flatMap enc ++ y) : vs = ws ∧ x = y := by
  induction vs generalizing ws with
  | nil =>
      have hnil : ws = [] := List.eq_nil_of_length_eq_zero hlen.symm
      subst hnil
      exact ⟨rfl, heq⟩
  | cons v vs ih =>
      cases ws with
      | nil => cases hlen
      | cons w ws =>
          rw [List.flatMap_cons, List.flatMap_cons, List.append_assoc, List.append_assoc] at heq
          rcases h _ _ _ _ heq with ⟨rfl, hrest⟩
          rcases ih (Nat.succ.inj hlen) hrest with ⟨rfl, hxy⟩
          exact ⟨rfl, hxy⟩

/-- Lists of words behind a header that tells their number. -/
theorem counted {header : Nat → List α} (hheader : Readable header) (h : Readable enc) :
    Readable fun ws : List ω => header ws.length ++ ws.flatMap enc := by
  intro vs ws x y heq
  simp only [List.append_assoc] at heq
  rcases hheader _ _ _ _ heq with ⟨hlen, hrest⟩
  exact h.flatMap_inj hlen hrest

/-- What is encoded through another type is read through it. -/
theorem comp {ι : Type*} (h : Readable enc) {f : ι → ω} (hf : Function.Injective f) :
    Readable fun i => enc (f i) := by
  intro i j x y heq
  rcases h _ _ _ _ heq with ⟨hij, hxy⟩
  exact ⟨hf hij, hxy⟩

/-- Where no word is empty, one text begins another exactly if its words are the first of the
other. -/
theorem flatMap_prefix_iff (h : Readable enc) (hne : ∀ w, enc w ≠ []) {vs ws : List ω} :
    vs.flatMap enc <+: ws.flatMap enc ↔ vs <+: ws := by
  constructor
  · induction vs generalizing ws with
    | nil =>
        intro _
        exact List.nil_prefix
    | cons v vs ih =>
        rintro ⟨y, heq⟩
        rw [List.flatMap_cons, List.append_assoc] at heq
        cases ws with
        | nil =>
            exfalso
            exact hne v (List.append_eq_nil_iff.mp heq).1
        | cons w ws =>
            rw [List.flatMap_cons] at heq
            rcases h _ _ _ _ heq with ⟨rfl, hrest⟩
            exact List.cons_prefix_cons.mpr ⟨rfl, ih ⟨y, hrest⟩⟩
  · rintro ⟨us, rfl⟩
    rw [List.flatMap_append]
    exact List.prefix_append _ _

end Readable
end Library

import Mathlib.Data.List.DropRight
import Mathlib.Data.List.Infix
import Mathlib.Tactic.Common

/-!
# Terminated lines in a sequence

Line-oriented stream readers look for the first terminator, take everything up
to it and strip a set of trailing characters.  This module develops the two
operations over an arbitrary alphabet.

Main results:

- Theorem `splitAfter_line`: a terminator-free prefix followed by the
  terminator is split off exactly.
- Theorem `splitAfter_append_left`: searching a longer sequence whose head has
  no terminator only prolongs the line.
- Theorem `splitAfter_eq_some_iff`: a successful split is a decomposition at
  the first terminator.
- Theorem `rtrim_append_of_all`: a strippable tail disappears, and nothing else
  does when the last kept character is not strippable.
-/

namespace Library
namespace Lines

variable {α : Type*} [DecidableEq α]

/-! ## Splitting after the first terminator -/

/-- Split after the first occurrence of `t`; the terminator stays with the line. -/
def splitAfter (t : α) : List α → Option (List α × List α)
  | [] => none
  | x :: xs =>
      if x = t then some ([x], xs)
      else (splitAfter t xs).map fun p => (x :: p.1, p.2)

@[simp]
theorem splitAfter_nil (t : α) : splitAfter t [] = none :=
  rfl

/-- A prefix without the terminator is carried into the line unchanged. -/
theorem splitAfter_append_left {t : α} {w : List α} (hw : t ∉ w) (xs : List α) :
    splitAfter t (w ++ xs) = (splitAfter t xs).map fun p => (w ++ p.1, p.2) := by
  induction w with
  | nil => simp
  | cons x w ih =>
      have hx : x ≠ t := fun h => hw (by simp [h])
      have hrest : t ∉ w := fun h => hw (by simp [h])
      simp only [List.cons_append, splitAfter, if_neg hx, ih hrest, Option.map_map]
      rfl

/-- The line in front of the first terminator is split off exactly. -/
theorem splitAfter_line {t : α} {w : List α} (hw : t ∉ w) (r : List α) :
    splitAfter t (w ++ t :: r) = some (w ++ [t], r) := by
  rw [splitAfter_append_left hw]
  simp [splitAfter]

theorem splitAfter_eq_none_iff {t : α} {xs : List α} :
    splitAfter t xs = none ↔ t ∉ xs := by
  induction xs with
  | nil => simp
  | cons x xs ih =>
      by_cases hx : x = t
      · simp [splitAfter, hx]
      · simp [splitAfter, hx, ih, Ne.symm hx]

/-- A successful split is a decomposition at the first terminator. -/
theorem splitAfter_eq_some_iff {t : α} {xs l r : List α} :
    splitAfter t xs = some (l, r) ↔ ∃ w, t ∉ w ∧ l = w ++ [t] ∧ xs = w ++ t :: r := by
  constructor
  · induction xs generalizing l with
    | nil => simp
    | cons x xs ih =>
        intro h
        by_cases hx : x = t
        · subst x
          simp only [splitAfter, if_true, Option.some.injEq, Prod.mk.injEq] at h
          exact ⟨[], by simp, by simp [← h.1], by simp [h.2]⟩
        · simp only [splitAfter, if_neg hx, Option.map_eq_some_iff, Prod.mk.injEq] at h
          obtain ⟨⟨l', r'⟩, hsplit, hl, hr⟩ := h
          simp only at hl hr
          subst hl hr
          obtain ⟨w, hw, rfl, rfl⟩ := ih hsplit
          exact ⟨x :: w, by simp [hw, Ne.symm hx], by simp, by simp⟩
  · rintro ⟨w, hw, rfl, rfl⟩
    exact splitAfter_line hw r

/-- Splitting loses nothing. -/
theorem splitAfter_append {t : α} {xs l r : List α} (h : splitAfter t xs = some (l, r)) :
    l ++ r = xs := by
  obtain ⟨w, -, rfl, rfl⟩ := splitAfter_eq_some_iff.mp h
  simp

/-- The rest is strictly shorter, so a reader that loops on it terminates. -/
theorem splitAfter_length_lt {t : α} {xs l r : List α} (h : splitAfter t xs = some (l, r)) :
    r.length < xs.length := by
  obtain ⟨w, -, rfl, rfl⟩ := splitAfter_eq_some_iff.mp h
  simp only [List.length_append, List.length_cons]
  omega

/-- Later input never changes a line that is already complete. -/
theorem splitAfter_append_right {t : α} {xs l r : List α} (h : splitAfter t xs = some (l, r))
    (ys : List α) : splitAfter t (xs ++ ys) = some (l, r ++ ys) := by
  obtain ⟨w, hw, rfl, rfl⟩ := splitAfter_eq_some_iff.mp h
  simpa using splitAfter_line hw (r ++ ys)

/-- The split is where the first occurrence is. -/
theorem splitAfter_eq_idxOf (t : α) (xs : List α) :
    splitAfter t xs = (xs.idxOf? t).map fun i => (xs.take (i + 1), xs.drop (i + 1)) := by
  induction xs with
  | nil => rfl
  | cons x xs ih =>
      by_cases hx : x = t
      · simp [splitAfter, hx, List.idxOf?_cons]
      · simp only [splitAfter, if_neg hx, ih, Option.map_map, List.idxOf?_cons, beq_iff_eq]
        rfl

/-! ## Stripping a trailing character set -/

/-- Remove the longest tail made of characters of `ws`. -/
def rtrim (ws : List α) (s : List α) : List α :=
  s.rdropWhile (· ∈ ws)

@[simp]
theorem rtrim_nil (ws : List α) : rtrim ws [] = [] :=
  rfl

/-- A tail of strippable characters is removed. -/
theorem rtrim_append_of_all {ws tail : List α} (htail : ∀ x ∈ tail, x ∈ ws) (s : List α) :
    rtrim ws (s ++ tail) = rtrim ws s := by
  induction tail using List.reverseRecOn with
  | nil => simp
  | append_singleton tail x ih =>
      have hx : x ∈ ws := htail x (by simp)
      have hrest : ∀ y ∈ tail, y ∈ ws := fun y hy => htail y (by simp [hy])
      rw [← List.append_assoc, rtrim, List.rdropWhile_concat_pos _ _ _ (by simpa using hx)]
      exact ih hrest

/-- Text whose characters are all kept is not touched. -/
theorem rtrim_of_forall_notMem {ws s : List α} (hs : ∀ x ∈ s, x ∉ ws) : rtrim ws s = s := by
  rcases List.eq_nil_or_concat s with rfl | ⟨s', x, rfl⟩
  · rfl
  · have hx : x ∉ ws := hs x (by simp)
    rw [List.concat_eq_append, rtrim, List.rdropWhile_concat_neg _ _ _ (by simpa using hx)]

/-- A last character outside the set stops the trimming. -/
theorem rtrim_concat_of_notMem {ws : List α} {x : α} (hx : x ∉ ws) (s : List α) :
    rtrim ws (s ++ [x]) = s ++ [x] := by
  rw [rtrim, List.rdropWhile_concat_neg _ _ _ (by simpa using hx)]

omit [DecidableEq α] in
/-- The first terminator of a text ends every prefix of it that ends in one. -/
theorem eq_of_append_terminator {t : α} {p q x y : List α} (hq : t ∉ q)
    (hlen : p.length ≤ q.length) (h : p ++ t :: x = q ++ t :: y) : p = q ∧ x = y := by
  rcases List.append_eq_append_iff.mp h with ⟨a, ha, hx⟩ | ⟨c, hc, hy⟩
  · cases a with
    | nil =>
        rw [List.nil_append] at hx
        exact ⟨by simpa using ha.symm, (List.cons.inj hx).2⟩
    | cons b a =>
        exfalso
        apply hq
        rw [ha, (List.cons.inj hx).1]
        simp
  · have hnil : c = [] := by
      rw [hc, List.length_append] at hlen
      exact List.length_eq_zero_iff.mp (by omega)
    subst hnil
    rw [List.nil_append] at hy
    exact ⟨by simpa using hc, (List.cons.inj hy).2.symm⟩

end Lines
end Library

import Mathlib.Data.List.Count
import Mathlib.Data.List.Infix
import Mathlib.Tactic.Common

/-!
# Logs of sessions

A log whose entries open a session, close it, or are to stand inside it.  Sessions do
not nest: an opening entry opens the session, whatever came before it.

Main results:

- Theorem `exists_opening`: in an open log there is an opening entry that no closing
  one follows.
- Theorems `Inside.concat` and `Balanced.concat`: what is kept as a log grows.
-/

namespace Library
namespace Sessions

/-- What an entry does to the session. -/
inductive Role where
  | opening
  | closing
  | inner
  | other
deriving DecidableEq, Repr

variable {α : Type*} (role : α → Role)

/-- Whether the session is open behind one more entry. -/
def after (b : Bool) (x : α) : Bool :=
  match role x with
  | .opening => true
  | .closing => false
  | _ => b

/-- Whether a log ends in an open session. -/
def isOpen (l : List α) : Bool :=
  l.foldl (after role) false

/-- Every inner entry of a log stands in an open session. -/
def Inside (l : List α) : Prop :=
  ∀ a x b, l = a ++ x :: b → role x = .inner → isOpen role a = true

def openings (l : List α) : Nat :=
  l.countP fun x => role x = .opening

def closings (l : List α) : Nat :=
  l.countP fun x => role x = .closing

/-- At no point of a log are there more closing than opening entries. -/
def Balanced (l : List α) : Prop :=
  ∀ p, p <+: l → closings role p ≤ openings role p

variable {role} {l : List α} {x : α}

@[simp]
theorem isOpen_nil : isOpen role [] = false :=
  rfl

@[simp]
theorem isOpen_append (l m : List α) :
    isOpen role (l ++ m) = m.foldl (after role) (isOpen role l) := by
  rw [isOpen, List.foldl_append, isOpen]

/-- Inner entries do not close a session. -/
theorem foldl_after_inner {xs : List α} (hxs : ∀ x ∈ xs, role x = .inner) (b : Bool) :
    xs.foldl (after role) b = b := by
  induction xs with
  | nil => rfl
  | cons x xs ih =>
      rw [List.forall_mem_cons] at hxs
      rw [List.foldl_cons, after, hxs.1]
      exact ih hxs.2

/-- What is open behind a log was open before it, or an entry of it opened it. -/
theorem foldl_after_eq_true {b : Bool} (h : l.foldl (after role) b = true) :
    b = true ∨ ∃ x ∈ l, role x = .opening := by
  induction l generalizing b with
  | nil => exact Or.inl h
  | cons x xs ih =>
      rw [List.foldl_cons] at h
      rcases ih h with hx | ⟨y, hy, hopening⟩
      · cases hrole : role x with
        | opening => exact Or.inr ⟨x, List.mem_cons_self, hrole⟩
        | closing => simp [after, hrole] at hx
        | inner => exact Or.inl (by simpa [after, hrole] using hx)
        | other => exact Or.inl (by simpa [after, hrole] using hx)
      · exact Or.inr ⟨y, List.mem_cons_of_mem x hy, hopening⟩

/-- In an open log there is an opening entry that no closing one follows. -/
theorem exists_opening (h : isOpen role l = true) :
    ∃ a x b, l = a ++ x :: b ∧ role x = .opening ∧ ∀ y ∈ b, role y ≠ .closing := by
  induction l using List.reverseRecOn with
  | nil => cases h
  | append_singleton l x ih =>
      rw [isOpen_append, List.foldl_cons, List.foldl_nil] at h
      cases hrole : role x with
      | opening => exact ⟨l, x, [], rfl, hrole, by simp⟩
      | closing =>
          rw [after, hrole] at h
          cases h
      | inner =>
          rw [after, hrole] at h
          rcases ih h with ⟨a, y, b, rfl, hy, hb⟩
          refine ⟨a, y, b ++ [x], by simp, hy, ?_⟩
          simp only [List.forall_mem_append, List.forall_mem_singleton]
          exact ⟨hb, by simp [hrole]⟩
      | other =>
          rw [after, hrole] at h
          rcases ih h with ⟨a, y, b, rfl, hy, hb⟩
          refine ⟨a, y, b ++ [x], by simp, hy, ?_⟩
          simp only [List.forall_mem_append, List.forall_mem_singleton]
          exact ⟨hb, by simp [hrole]⟩

/-- Entries that say nothing about the session may be left out. -/
theorem isOpen_filter {p : α → Bool} (hp : ∀ x ∈ l, p x = false → role x = .other) :
    isOpen role (l.filter p) = isOpen role l := by
  induction l using List.reverseRecOn with
  | nil => rfl
  | append_singleton l x ih =>
      rw [List.forall_mem_append, List.forall_mem_singleton] at hp
      rw [List.filter_append, isOpen_append, isOpen_append, ih hp.1]
      cases hx : p x with
      | true => simp [hx]
      | false => simp [hx, after, hp.2 hx]

/-- Entries that say nothing about the session do not count. -/
theorem countP_role_filter {p : α → Bool} {r : Role} (hr : r ≠ .other)
    (hp : ∀ x ∈ l, p x = false → role x = .other) :
    (l.filter p).countP (fun x => role x = r) = l.countP fun x => role x = r := by
  rw [List.countP_filter]
  refine List.countP_congr ?_
  intro x hx
  simp only [Bool.and_eq_true, decide_eq_true_eq, and_iff_left_iff_imp]
  intro hrole
  by_contra hpx
  rw [Bool.not_eq_true] at hpx
  exact hr (hrole.symm.trans (hp x hx hpx))

theorem balanced_of_filter {p : α → Bool} (h : Balanced role (l.filter p))
    (hp : ∀ x ∈ l, p x = false → role x = .other) : Balanced role l := by
  intro q hq
  have hq' := fun x hx => hp x (hq.subset hx)
  have hle := h _ (hq.filter p)
  rw [closings, openings, countP_role_filter (by simp) hq', countP_role_filter (by simp) hq'] at hle
  exact hle

/-! ## Growing logs -/

theorem inside_nil : Inside role ([] : List α) := by
  intro a x b h
  simp at h

theorem Inside.concat (h : Inside role l) (hx : role x = .inner → isOpen role l = true) :
    Inside role (l ++ [x]) := by
  intro a y b heq hy
  rcases List.eq_nil_or_concat b with rfl | ⟨c, z, rfl⟩
  · rcases List.append_inj' heq rfl with ⟨rfl, hxy⟩
    rw [List.cons.injEq] at hxy
    exact hx (hxy.1 ▸ hy)
  · rw [List.concat_eq_append, ← List.cons_append, ← List.append_assoc] at heq
    exact h a y c (List.append_inj' heq rfl).1 hy

/-- Inner entries may be added to an open log. -/
theorem Inside.append {xs : List α} (h : Inside role l) (hopen : isOpen role l = true)
    (hxs : ∀ x ∈ xs, role x = .inner) : Inside role (l ++ xs) := by
  induction xs generalizing l with
  | nil => simpa using h
  | cons x xs ih =>
      rw [List.forall_mem_cons] at hxs
      rw [List.append_cons]
      refine ih (h.concat fun _ => hopen) ?_ hxs.2
      rw [isOpen_append, foldl_after_inner (by simp [hxs.1]), hopen]

theorem Inside.of_prefix {l' : List α} (h : Inside role l) (hl : l' <+: l) : Inside role l' := by
  rcases hl with ⟨m, rfl⟩
  rintro a x b rfl hx
  exact h a x (b ++ m) (by simp) hx

theorem balanced_nil : Balanced role ([] : List α) := by
  intro p hp
  rw [List.prefix_nil.mp hp]
  exact le_rfl

theorem closings_append (l m : List α) :
    closings role (l ++ m) = closings role l + closings role m :=
  List.countP_append

theorem openings_append (l m : List α) :
    openings role (l ++ m) = openings role l + openings role m :=
  List.countP_append

/-- A closing entry may be added while one opening entry is ahead. -/
theorem Balanced.concat (h : Balanced role l)
    (hx : role x = .closing → closings role l < openings role l) : Balanced role (l ++ [x]) := by
  intro p hp
  rcases List.prefix_concat_iff.mp hp with rfl | hp
  · have hl := h l List.prefix_rfl
    rw [closings_append, openings_append]
    by_cases hrole : role x = .closing
    · have hlt := hx hrole
      simp only [closings, openings, List.countP_singleton, hrole] at hlt ⊢
      simp only [decide_true, if_true, reduceCtorEq, decide_false, Bool.false_eq_true, if_false]
      omega
    · have hzero : closings role [x] = 0 := by simp [closings, hrole]
      omega
  · exact h p hp

/-- Inner entries do not count. -/
theorem Balanced.append {xs : List α} (h : Balanced role l) (hxs : ∀ x ∈ xs, role x = .inner) :
    Balanced role (l ++ xs) := by
  induction xs generalizing l with
  | nil => simpa using h
  | cons x xs ih =>
      rw [List.forall_mem_cons] at hxs
      rw [List.append_cons]
      refine ih (h.concat ?_) hxs.2
      simp [hxs.1]

theorem Balanced.of_prefix {l' : List α} (h : Balanced role l) (hl : l' <+: l) :
    Balanced role l' :=
  fun p hp => h p (hp.trans hl)

end Sessions
end Library

import Mathlib.Data.Finset.Union
import Mathlib.Data.List.AList
import Mathlib.Data.Set.Pairwise.Basic
import Mathlib.Logic.Function.Basic

/-!
# An index over a family of sets

Values are kept in the sets of a family, and a table finds them again by their keys.  The
table is an index of the family when it finds exactly the values that are kept.

Main results:

- Theorems `Indexes.insert` and `Indexes.erase`: a value that enters or leaves its set, and
  the table under its key.
- Theorems `Indexes.keys_eq` and `Indexes.pairwiseDisjoint`: the keys of the table are the
  disjoint union of the keys of the sets.
-/

namespace Library

variable {ι κ α : Type*} [DecidableEq κ]

/-- The table finds under a key the one value with that key that is kept. -/
def Indexes (key : α → κ) (m : AList fun _ : κ => α) (S : ι → Finset α) : Prop :=
  ∀ k a, m.lookup k = some a ↔ (∃ i, a ∈ S i) ∧ key a = k

namespace Indexes

variable {key key' : α → κ} {m : AList fun _ : κ => α} {S : ι → Finset α} {i j : ι} {a b : α}

theorem lookup_key (h : Indexes key m S) (ha : a ∈ S i) : m.lookup (key a) = some a :=
  (h (key a) a).mpr ⟨⟨i, ha⟩, rfl⟩

/-- A key determines the value. -/
theorem eq_of_key (h : Indexes key m S) (ha : a ∈ S i) (hb : b ∈ S j) (hkey : key a = key b) :
    a = b := by
  have hlookup := h.lookup_key ha
  rw [hkey, h.lookup_key hb, Option.some.injEq] at hlookup
  exact hlookup.symm

/-- Only the keys of what is kept matter. -/
theorem congr (h : Indexes key m S) (hkey : ∀ i, ∀ a ∈ S i, key' a = key a) :
    Indexes key' m S := by
  intro k a
  rw [h k a]
  constructor
  · rintro ⟨⟨i, ha⟩, hk⟩
    exact ⟨⟨i, ha⟩, by rw [hkey i a ha, hk]⟩
  · rintro ⟨⟨i, ha⟩, hk⟩
    exact ⟨⟨i, ha⟩, by rw [← hkey i a ha, hk]⟩

theorem empty : Indexes key ∅ fun _ : ι => ∅ := by
  intro k a
  simp

variable [DecidableEq ι] [DecidableEq α]

/-- A value enters the set `i`, and the table. -/
theorem insert (h : Indexes key m S) (hkey : ∀ j, ∀ b ∈ S j, key b = key a → b = a) :
    Indexes key (m.insert (key a) a) (Function.update S i (insert a (S i))) := by
  have hmem : ∀ b, (∃ j, b ∈ Function.update S i (Insert.insert a (S i)) j) ↔
      b = a ∨ ∃ j, b ∈ S j := by
    intro b
    constructor
    · rintro ⟨j, hb⟩
      by_cases hj : j = i
      · subst hj
        rw [Function.update_self, Finset.mem_insert] at hb
        exact hb.imp_right fun hb => ⟨j, hb⟩
      · rw [Function.update_of_ne hj] at hb
        exact Or.inr ⟨j, hb⟩
    · rintro (rfl | ⟨j, hb⟩)
      · exact ⟨i, by simp⟩
      · by_cases hj : j = i
        · subst hj
          exact ⟨j, by simp [hb]⟩
        · exact ⟨j, by rw [Function.update_of_ne hj]; exact hb⟩
  intro k b
  rw [hmem]
  by_cases hk : k = key a
  · subst hk
    rw [AList.lookup_insert, Option.some.injEq]
    constructor
    · rintro rfl
      exact ⟨Or.inl rfl, rfl⟩
    · rintro ⟨rfl | ⟨j, hb⟩, hkb⟩
      · rfl
      · exact (hkey j b hb hkb).symm
  · rw [AList.lookup_insert_ne hk, h k b]
    constructor
    · rintro ⟨hb, hkb⟩
      exact ⟨Or.inr hb, hkb⟩
    · rintro ⟨rfl | hb, hkb⟩
      · exact absurd hkb.symm hk
      · exact ⟨hb, hkb⟩

/-- A value leaves the set `i`, the only one it may be in, and the table. -/
theorem erase (h : Indexes key m S) (hkey : ∀ j, ∀ b ∈ S j, key b = key a → b = a)
    (hown : ∀ j, a ∈ S j → j = i) :
    Indexes key (m.erase (key a)) (Function.update S i ((S i).erase a)) := by
  have hmem : ∀ b, (∃ j, b ∈ Function.update S i ((S i).erase a) j) ↔
      b ≠ a ∧ ∃ j, b ∈ S j := by
    intro b
    constructor
    · rintro ⟨j, hb⟩
      by_cases hj : j = i
      · subst hj
        rw [Function.update_self, Finset.mem_erase] at hb
        exact ⟨hb.1, j, hb.2⟩
      · rw [Function.update_of_ne hj] at hb
        refine ⟨?_, j, hb⟩
        rintro rfl
        exact hj (hown j hb)
    · rintro ⟨hne, j, hb⟩
      by_cases hj : j = i
      · subst hj
        exact ⟨j, by simp [hb, hne]⟩
      · exact ⟨j, by rw [Function.update_of_ne hj]; exact hb⟩
  intro k b
  rw [hmem]
  by_cases hk : k = key a
  · subst hk
    rw [AList.lookup_erase]
    constructor
    · intro hnone
      cases hnone
    · rintro ⟨⟨hne, j, hb⟩, hkb⟩
      exact absurd (hkey j b hb hkb) hne
  · rw [AList.lookup_erase_ne hk, h k b]
    constructor
    · rintro ⟨hb, hkb⟩
      refine ⟨⟨?_, hb⟩, hkb⟩
      rintro rfl
      exact hk hkb.symm
    · rintro ⟨⟨-, hb⟩, hkb⟩
      exact ⟨hb, hkb⟩

omit [DecidableEq ι] [DecidableEq α] in
/-- The keys of the table are the keys of what is kept, over any indices that leave out only
empty sets. -/
theorem keys_eq (h : Indexes key m S) {s : Finset ι} (hs : ∀ i, S i ≠ ∅ → i ∈ s) :
    m.keys.toFinset = s.biUnion fun i => (S i).image key := by
  ext k
  rw [List.mem_toFinset, ← AList.mem_keys, ← AList.lookup_isSome, Option.isSome_iff_exists,
    Finset.mem_biUnion]
  constructor
  · rintro ⟨a, ha⟩
    rcases (h k a).mp ha with ⟨⟨i, hi⟩, hk⟩
    exact ⟨i, hs i (Finset.ne_empty_of_mem hi), Finset.mem_image.mpr ⟨a, hi, hk⟩⟩
  · rintro ⟨i, -, hk⟩
    rcases Finset.mem_image.mp hk with ⟨a, ha, rfl⟩
    exact ⟨a, h.lookup_key ha⟩

omit [DecidableEq ι] [DecidableEq α] in
/-- No key belongs to two of the sets, when no value does. -/
theorem pairwiseDisjoint (h : Indexes key m S) (hown : ∀ i j a, a ∈ S i → a ∈ S j → i = j)
    (s : Set ι) : s.PairwiseDisjoint fun i => (S i).image key := by
  intro i _ j _ hne
  apply Finset.disjoint_left.mpr
  intro k hi hj
  rcases Finset.mem_image.mp hi with ⟨a, ha, rfl⟩
  rcases Finset.mem_image.mp hj with ⟨b, hb, hkey⟩
  have hab := h.eq_of_key hb ha hkey
  subst hab
  exact hne (hown i j b ha hb)

end Indexes

end Library

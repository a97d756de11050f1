import Mathlib.Data.Nat.Digits.Lemmas
import Mathlib.Tactic.Common
import Mathlib.Tactic.Ring

/-!
# Decimal text

Decimal numerals as byte strings: the canonical print of a natural number or an
integer, the value of a digit string, and the grammar of a signed integer text.

Main results:

- Theorem `value_decimal`: the canonical print has the value it was printed for.
- Theorem `value_suffix_decimal`: the value of a tail of a canonical numeral is
  the number modulo a power of ten.
- Theorem `value_proper_suffix_ne`: no nonempty proper tail of a canonical
  numeral has the value of the whole numeral.
- Theorem `parseInt_eq_some_iff`: the executable integer reader accepts exactly
  the signed integer grammar.
-/

namespace Library
namespace Decimal

/-! ## Digits and values -/

/-- The ASCII digits. -/
def IsDigit (b : UInt8) : Prop :=
  48 ≤ b.toNat ∧ b.toNat ≤ 57

instance (b : UInt8) : Decidable (IsDigit b) :=
  inferInstanceAs (Decidable (_ ∧ _))

-- a text is gone through byte by byte, not all bytes
instance (s : List UInt8) : Decidable (∀ b ∈ s, IsDigit b) :=
  List.decidableBAll _ s

/-- The number an ASCII digit stands for. -/
def digitVal (b : UInt8) : Nat :=
  b.toNat - 48

/-- The ASCII digit of a number below ten. -/
def digitByte (d : Nat) : UInt8 :=
  UInt8.ofNat (48 + d)

/-- Positional value, most significant digit first. -/
def value (s : List UInt8) : Nat :=
  s.foldl (fun acc b => 10 * acc + digitVal b) 0

/-- Canonical decimal print: no leading zero except for zero itself. -/
def decimal (n : Nat) : List UInt8 :=
  if n = 0 then [48] else (Nat.digits 10 n).reverse.map digitByte

theorem digitByte_toNat {d : Nat} (hd : d < 10) : (digitByte d).toNat = 48 + d := by
  simp only [digitByte, UInt8.toNat_ofNat']
  omega

@[simp]
theorem digitVal_digitByte {d : Nat} (hd : d < 10) : digitVal (digitByte d) = d := by
  simp [digitVal, digitByte_toNat hd]

theorem isDigit_digitByte {d : Nat} (hd : d < 10) : IsDigit (digitByte d) := by
  simp only [IsDigit, digitByte_toNat hd]
  omega

theorem digitVal_lt {b : UInt8} (hb : IsDigit b) : digitVal b < 10 := by
  have := hb.2
  simp only [digitVal]
  omega

/-! ## Values of concatenations -/

@[simp]
theorem value_nil : value [] = 0 :=
  rfl

theorem foldl_value (s : List UInt8) (acc : Nat) :
    s.foldl (fun acc b => 10 * acc + digitVal b) acc = acc * 10 ^ s.length + value s := by
  induction s generalizing acc with
  | nil => simp
  | cons b s ih =>
      simp only [List.foldl_cons, value, List.length_cons]
      rw [ih, ih (10 * 0 + digitVal b)]
      ring

/-- Appending digits shifts the value of the head by their number. -/
theorem value_append (s t : List UInt8) : value (s ++ t) = value s * 10 ^ t.length + value t := by
  rw [value, List.foldl_append, foldl_value]
  rfl

/-- A digit string is worth less than the power of ten of its length. -/
theorem value_lt {s : List UInt8} (hs : ∀ b ∈ s, IsDigit b) : value s < 10 ^ s.length := by
  induction s using List.reverseRecOn with
  | nil => simp
  | append_singleton s b ih =>
      have hb : digitVal b < 10 := digitVal_lt (hs b (by simp))
      have hs' := ih fun x hx => hs x (by simp [hx])
      have hlast : value [b] = digitVal b := by simp [value]
      rw [value_append, hlast, List.length_append, List.length_singleton, pow_succ]
      omega

/-! ## The canonical print -/

theorem decimal_ne_nil (n : Nat) : decimal n ≠ [] := by
  unfold decimal
  split
  · simp
  · rename_i hn
    simpa [Nat.digits_eq_nil_iff_eq_zero] using hn

theorem decimal_isDigit {n : Nat} {b : UInt8} (hb : b ∈ decimal n) : IsDigit b := by
  unfold decimal at hb
  split at hb
  · simp only [List.mem_singleton] at hb
    subst b
    decide
  · simp only [List.mem_map, List.mem_reverse] at hb
    obtain ⟨d, hd, rfl⟩ := hb
    exact isDigit_digitByte (Nat.digits_lt_base (by norm_num) hd)

theorem value_map_reverse {ds : List Nat} (hds : ∀ d ∈ ds, d < 10) :
    value (ds.reverse.map digitByte) = Nat.ofDigits 10 ds := by
  induction ds with
  | nil => rfl
  | cons d ds ih =>
      have hd : d < 10 := hds d (by simp)
      have hlast : value [digitByte d] = d := by simp [value, digitVal_digitByte hd]
      rw [List.reverse_cons, List.map_append, value_append, ih fun x hx => hds x (by simp [hx])]
      simp only [List.map_cons, List.map_nil, hlast, List.length_singleton, pow_one,
        Nat.ofDigits_cons]
      ring

/-- The canonical print has the value it was printed for. -/
@[simp]
theorem value_decimal (n : Nat) : value (decimal n) = n := by
  unfold decimal
  split
  · rename_i hn
    subst n
    rfl
  · rw [value_map_reverse fun d hd => Nat.digits_lt_base (by norm_num) hd, Nat.ofDigits_digits]

/-- Every digit of a canonical numeral of two or more digits is needed. -/
theorem pow_length_le_of_decimal {n : Nat} (h : 1 < (decimal n).length) :
    10 ^ ((decimal n).length - 1) ≤ n := by
  unfold decimal at h ⊢
  split at h
  · simp at h
  · rename_i hn
    simp only [if_neg hn, List.length_map, List.length_reverse]
    have := Nat.base_pow_length_digits_le 10 n (by norm_num) hn
    have hlen : (Nat.digits 10 n).length ≠ 0 := by
      simpa [Nat.digits_eq_nil_iff_eq_zero] using hn
    obtain ⟨k, hk⟩ := Nat.exists_eq_succ_of_ne_zero hlen
    rw [hk] at this ⊢
    simp only [pow_succ, Nat.succ_eq_add_one, Nat.add_sub_cancel] at this ⊢
    omega

/-- A tail of a canonical numeral keeps the low digits. -/
theorem value_suffix_decimal {n : Nat} {s : List UInt8} (hs : s <:+ decimal n) :
    value s = n % 10 ^ s.length := by
  obtain ⟨p, hp⟩ := hs
  have hvalue : n = value p * 10 ^ s.length + value s := by
    rw [← value_append, hp, value_decimal]
  have hlt : value s < 10 ^ s.length := by
    apply value_lt
    intro b hb
    exact decimal_isDigit (n := n) (by rw [← hp]; simp [hb])
  rw [hvalue, Nat.mul_comm, Nat.mul_add_mod, Nat.mod_eq_of_lt hlt]

/-- No nonempty proper tail of a canonical numeral has the value of the whole. -/
theorem value_proper_suffix_ne {n : Nat} {s : List UInt8} (hs : s <:+ decimal n)
    (hne : s ≠ []) (hlen : s.length < (decimal n).length) : value s ≠ n := by
  have hpos : 0 < s.length := List.length_pos_iff.mpr hne
  have hle : 10 ^ ((decimal n).length - 1) ≤ n := pow_length_le_of_decimal (by omega)
  have hmono : 10 ^ s.length ≤ 10 ^ ((decimal n).length - 1) :=
    Nat.pow_le_pow_right (by norm_num) (by omega)
  have hlt : value s < 10 ^ s.length := by
    rw [value_suffix_decimal hs]
    exact Nat.mod_lt _ (by positivity)
  omega

/-! ## Signed integer texts -/

/-- `+`. -/
def plusSign : UInt8 := 43

/-- `-`. -/
def minusSign : UInt8 := 45

/-- An optional sign followed by at least one digit. -/
inductive IsIntText : List UInt8 → Int → Prop where
  | plain {ds : List UInt8} (hne : ds ≠ []) (hds : ∀ b ∈ ds, IsDigit b) :
      IsIntText ds (value ds)
  | plus {ds : List UInt8} (hne : ds ≠ []) (hds : ∀ b ∈ ds, IsDigit b) :
      IsIntText (plusSign :: ds) (value ds)
  | minus {ds : List UInt8} (hne : ds ≠ []) (hds : ∀ b ∈ ds, IsDigit b) :
      IsIntText (minusSign :: ds) (-(value ds : Int))

/-- Canonical print of an integer. -/
def intDecimal : Int → List UInt8
  | .ofNat n => decimal n
  | .negSucc n => minusSign :: decimal (n + 1)

theorem isIntText_decimal (n : Nat) : IsIntText (decimal n) n := by
  simpa using IsIntText.plain (decimal_ne_nil n) fun b hb => decimal_isDigit hb

theorem isIntText_intDecimal (n : Int) : IsIntText (intDecimal n) n := by
  cases n with
  | ofNat n => exact isIntText_decimal n
  | negSucc n =>
      have h := IsIntText.minus (decimal_ne_nil (n + 1)) fun b hb => decimal_isDigit hb
      simpa [intDecimal, Int.negSucc_eq] using h

/-- Executable digit-string reader. -/
def parseNat (s : List UInt8) : Option Nat :=
  if s ≠ [] ∧ ∀ b ∈ s, IsDigit b then some (value s) else none

/-- Executable signed reader. -/
def parseInt : List UInt8 → Option Int
  | [] => none
  | b :: s =>
      if b = minusSign then (parseNat s).map fun n : Nat => -(n : Int)
      else if b = plusSign then (parseNat s).map fun n : Nat => (n : Int)
      else (parseNat (b :: s)).map fun n : Nat => (n : Int)

theorem parseNat_eq_some_iff {s : List UInt8} {n : Nat} :
    parseNat s = some n ↔ s ≠ [] ∧ (∀ b ∈ s, IsDigit b) ∧ value s = n := by
  unfold parseNat
  split
  · rename_i h
    simp only [Option.some.injEq]
    exact ⟨fun hv => ⟨h.1, h.2, hv⟩, fun hv => hv.2.2⟩
  · rename_i h
    simp only [reduceCtorEq, false_iff, not_and]
    intro hne hds
    exact absurd ⟨hne, hds⟩ h

theorem not_isDigit_plusSign : ¬ IsDigit plusSign := by decide

theorem not_isDigit_minusSign : ¬ IsDigit minusSign := by decide

/-- The executable reader accepts exactly the signed integer grammar. -/
theorem parseInt_eq_some_iff {s : List UInt8} {n : Int} :
    parseInt s = some n ↔ IsIntText s n := by
  constructor
  · intro h
    cases s with
    | nil => simp [parseInt] at h
    | cons b s =>
        simp only [parseInt] at h
        split at h
        · rename_i hb
          subst b
          simp only [Option.map_eq_some_iff, parseNat_eq_some_iff] at h
          obtain ⟨m, ⟨hne, hds, rfl⟩, rfl⟩ := h
          exact .minus hne hds
        · split at h
          · rename_i hb
            subst b
            simp only [Option.map_eq_some_iff, parseNat_eq_some_iff] at h
            obtain ⟨m, ⟨hne, hds, rfl⟩, rfl⟩ := h
            exact .plus hne hds
          · simp only [Option.map_eq_some_iff, parseNat_eq_some_iff] at h
            obtain ⟨m, ⟨hne, hds, rfl⟩, rfl⟩ := h
            exact .plain hne hds
  · intro h
    cases h with
    | plain hne hds =>
        cases s with
        | nil => exact absurd rfl hne
        | cons b s =>
            have hb : IsDigit b := hds b (by simp)
            have hminus : b ≠ minusSign := fun e => not_isDigit_minusSign (e ▸ hb)
            have hplus : b ≠ plusSign := fun e => not_isDigit_plusSign (e ▸ hb)
            simp [parseInt, hminus, hplus, parseNat_eq_some_iff.mpr ⟨hne, hds, rfl⟩]
    | plus hne hds =>
        have hsign : plusSign ≠ minusSign := by decide
        simp [parseInt, hsign, parseNat_eq_some_iff.mpr ⟨hne, hds, rfl⟩]
    | minus hne hds =>
        simp [parseInt, parseNat_eq_some_iff.mpr ⟨hne, hds, rfl⟩]

/-- A text denotes at most one integer. -/
theorem IsIntText.unique {s : List UInt8} {m n : Int} (hm : IsIntText s m)
    (hn : IsIntText s n) : m = n := by
  have := (parseInt_eq_some_iff.mpr hm).symm.trans (parseInt_eq_some_iff.mpr hn)
  simpa using this

theorem IsIntText.ne_nil {s : List UInt8} {n : Int} (h : IsIntText s n) : s ≠ [] := by
  cases h with
  | plain hne hds => exact hne
  | plus hne hds => simp
  | minus hne hds => simp

/-- An integer text is made of digits and signs. -/
theorem IsIntText.mem {s : List UInt8} {n : Int} (h : IsIntText s n) {b : UInt8} (hb : b ∈ s) :
    IsDigit b ∨ b = plusSign ∨ b = minusSign := by
  cases h with
  | plain hne hds => exact Or.inl (hds b hb)
  | plus hne hds =>
      rcases List.mem_cons.mp hb with rfl | hb
      · exact Or.inr (Or.inl rfl)
      · exact Or.inl (hds b hb)
  | minus hne hds =>
      rcases List.mem_cons.mp hb with rfl | hb
      · exact Or.inr (Or.inr rfl)
      · exact Or.inl (hds b hb)

/-- The last character of an integer text is a digit. -/
theorem IsIntText.isDigit_of_concat {s : List UInt8} {b : UInt8} {n : Int}
    (h : IsIntText (s ++ [b]) n) : IsDigit b := by
  have last_mem : ∀ {c : UInt8} {ds : List UInt8}, ds ≠ [] → s ++ [b] = c :: ds → b ∈ ds := by
    intro c ds hne heq
    have hlast : (s ++ [b]).getLast? = (c :: ds).getLast? := by rw [heq]
    rw [List.getLast?_concat, List.getLast?_cons_of_ne_nil hne] at hlast
    exact List.mem_of_getLast? hlast.symm
  generalize htext : s ++ [b] = t at h
  cases h with
  | plain hne hds => exact hds b (by simp [← htext])
  | plus hne hds => exact hds b (last_mem hne htext)
  | minus hne hds => exact hds b (last_mem hne htext)

/-- A digit string has no sign to read. -/
theorem IsIntText.eq_value_of_isDigit {s : List UInt8} {n : Int} (h : IsIntText s n)
    (hs : ∀ b ∈ s, IsDigit b) : n = value s := by
  cases h with
  | plain hne hds => rfl
  | plus hne hds => exact absurd (hs plusSign (by simp)) not_isDigit_plusSign
  | minus hne hds => exact absurd (hs minusSign (by simp)) not_isDigit_minusSign

end Decimal
end Library

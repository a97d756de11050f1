import FannyNet.Library.Decimal
import FannyNet.Library.Lines

/-!
# Primitives of the C++ code

Byte strings, the machine integers that lengths pass through, and the
operations of `std::string` and `boost::lexical_cast` that can throw.

`size_t` is 64 bits wide and `int` 32 bits.  Conversions to `size_t` are taken
modulo `2 ^ 64`; signed overflow, undefined in C++, wraps as on the targeted
two's-complement machines.  Byte counts of buffers that exist in memory are plain
natural numbers.

Main results:

- Theorem `toSize_of_nonneg`: a conversion of a number in range is exact.
- Theorems `intAdd_of_le` and `sizeAdd_of_lt`: a sum in range is exact.
- Theorem `lexicalCast_eq_ok_iff`: the conversion succeeds exactly on the
  decimal integers that fit an `int`.
-/

namespace FannyNet

open Library

/-- Byte strings: `std::string` values and buffer contents. -/
abbrev Bytes := List UInt8

/-- The bytes of an ASCII literal. -/
def text (s : String) : Bytes :=
  s.toList.map fun c => UInt8.ofNat c.toNat

/-- Carriage return. -/
def CR : UInt8 := 13

/-- Line feed, `REDIS_PREFIX_LBR[0]`. -/
def LF : UInt8 := 10

/-- `SessionId`, an unsigned 64-bit counter value. -/
abbrev SessionId := Nat

/-! ## Machine integers -/

/-- Largest `int`. -/
def INT_MAX : Int := 2147483647

/-- Smallest `int`. -/
def INT_MIN : Int := -2147483648

/-- Largest size of an object in memory. -/
def PTRDIFF_MAX : Nat := 9223372036854775807

/-- Conversion of an integer to `size_t`. -/
def toSize (i : Int) : Nat :=
  (i % 18446744073709551616).toNat

/-- Addition of two `int` values. -/
def intAdd (a b : Int) : Int :=
  (a + b).bmod 4294967296

/-- Addition of two `size_t` values. -/
def sizeAdd (a b : Nat) : Nat :=
  (a + b) % 18446744073709551616

/-- Subtraction of two `size_t` values. -/
def sizeSub (a b : Nat) : Nat :=
  toSize ((a : Int) - b)

theorem toSize_of_nonneg {i : Int} (h0 : 0 ≤ i) (h : i < 18446744073709551616) :
    toSize i = i.toNat := by
  rw [toSize, Int.emod_eq_of_lt h0 h]

theorem toSize_lt (i : Int) : toSize i < 18446744073709551616 := by
  have h0 := Int.emod_nonneg i (b := 18446744073709551616) (by decide)
  have h1 := Int.emod_lt_of_pos i (b := 18446744073709551616) (by decide)
  simp only [toSize]
  omega

theorem intAdd_of_le {a b : Int} (hlo : INT_MIN ≤ a + b) (hhi : a + b ≤ INT_MAX) :
    intAdd a b = a + b := by
  simp only [INT_MIN, INT_MAX] at hlo hhi
  simp only [intAdd, Int.bmod_def]
  omega

theorem sizeAdd_of_lt {a b : Nat} (h : a + b < 18446744073709551616) : sizeAdd a b = a + b :=
  Nat.mod_eq_of_lt h

/-- A sum that was reduced before goes on as if it had not been. -/
theorem sizeAdd_mod (a b : Nat) :
    sizeAdd (a % 18446744073709551616) b = (a + b) % 18446744073709551616 :=
  Nat.mod_add_mod a _ b

theorem sizeSub_of_le {a b : Nat} (hb : b ≤ a) (ha : a < 18446744073709551616) :
    sizeSub a b = a - b := by
  rw [sizeSub, toSize_of_nonneg (by omega) (by omega)]
  omega

/-- The number of bytes awaited for a body, an `int` sum converted to `size_t`. -/
theorem bodyLen_exact {n : Int} (h0 : 0 ≤ n) (h : n ≤ INT_MAX - 2) :
    toSize (intAdd n 2) = n.toNat + 2 := by
  simp only [INT_MAX] at h
  rw [intAdd_of_le (by simp only [INT_MIN]; omega) (by simp only [INT_MAX]; omega),
    toSize_of_nonneg (by omega) (by omega)]
  omega

/-- Past the last two lengths the sum wraps to a length near `2 ^ 64`. -/
theorem bodyLen_wrap {n : Int} (hlo : INT_MAX - 2 < n) (hhi : n ≤ INT_MAX) :
    (toSize (intAdd n 2) : Int) = n + 2 + 18446744069414584320 := by
  simp only [INT_MAX] at hlo hhi
  simp only [toSize, intAdd, Int.bmod_def]
  omega

/-- The bytes of a 32-bit POD in memory, least significant first. -/
def podBytes (n : Nat) : Bytes :=
  [UInt8.ofNat n, UInt8.ofNat (n / 256), UInt8.ofNat (n / 65536), UInt8.ofNat (n / 16777216)]

/-- The 32-bit POD at the start of a memory range. -/
def podValue (bs : Bytes) : Nat :=
  (bs.getD 0 0).toNat + 256 * (bs.getD 1 0).toNat + 65536 * (bs.getD 2 0).toNat +
    16777216 * (bs.getD 3 0).toNat

theorem podValue_lt (bs : Bytes) : podValue bs < 4294967296 := by
  have h0 := (bs.getD 0 0).toNat_lt
  have h1 := (bs.getD 1 0).toNat_lt
  have h2 := (bs.getD 2 0).toNat_lt
  have h3 := (bs.getD 3 0).toNat_lt
  simp only [podValue]
  omega

/-- Reading a POD back, whatever follows it. -/
theorem podValue_podBytes {n : Nat} (hn : n < 4294967296) (rest : Bytes) :
    podValue (podBytes n ++ rest) = n := by
  simp only [podValue, podBytes, List.cons_append, List.getD_cons_zero, List.getD_cons_succ,
    UInt8.toNat_ofNat']
  omega

/-! ## Exceptions and strings -/

/-- The exceptions that reach the callers of `recv`. -/
inductive Exn where
  | badLexicalCast
  | outOfRange
  | runtimeError
deriving DecidableEq, Repr

@[simp]
theorem ok_bind {ε α β : Type} (a : α) (f : α → Except ε β) : (Except.ok a >>= f) = f a := by
  simp only [bind, Except.bind]

@[simp]
theorem error_bind {ε α β : Type} (e : ε) (f : α → Except ε β) :
    (Except.error e >>= f) = Except.error e := by
  simp only [bind, Except.bind]

/-- A computation that returns has returned at each step. -/
theorem exists_of_bind {ε α β : Type} {x : Except ε α} {f : α → Except ε β} {b : β}
    (h : x >>= f = .ok b) : ∃ a, x = .ok a ∧ f a = .ok b := by
  cases x with
  | error e => cases h
  | ok a => exact ⟨a, rfl, h⟩

/-- A computation that is seen to return. -/
theorem exists_ok_of_any {ε α : Type} {e : Except ε α} {P : α → Bool}
    (h : e.toOption.any P = true) : ∃ a, e = .ok a ∧ P a = true := by
  cases e with
  | error f => simp [Except.toOption] at h
  | ok a => exact ⟨a, rfl, by simpa [Except.toOption] using h⟩

/-- `std::string::substr(pos)`. -/
def substr (s : Bytes) (pos : Nat) : Except Exn Bytes :=
  if pos ≤ s.length then .ok (s.drop pos) else .error .outOfRange

/-- `std::string::erase(pos)`, the string that is left. -/
def erase (s : Bytes) (pos : Nat) : Except Exn Bytes :=
  if pos ≤ s.length then .ok (s.take pos) else .error .outOfRange

theorem substr_of_le {s : Bytes} {pos : Nat} (h : pos ≤ s.length) :
    substr s pos = .ok (s.drop pos) :=
  if_pos h

theorem substr_of_lt {s : Bytes} {pos : Nat} (h : s.length < pos) :
    substr s pos = .error .outOfRange :=
  if_neg (by omega)

theorem length_erase {s s' : Bytes} {pos : Nat} (h : erase s pos = .ok s') : s'.length = pos := by
  unfold erase at h
  split at h
  · cases h
    rw [List.length_take]
    omega
  · cases h

@[simp]
theorem substr_cons_one (b : UInt8) (s : Bytes) : substr (b :: s) 1 = .ok s := by
  simp [substr]

@[simp]
theorem substr_nil_one : substr [] 1 = .error .outOfRange := by
  simp [substr]

/-- The conversion `boost::lexical_cast<int>` of a string.  Boost is not part of
the repository: the code relies on it to accept an optional sign and decimal
digits, the whole string, within the range of `int`, and to throw on anything
else. -/
class LexicalCast where
  toInt : Bytes → Option Int
  toInt_eq_some_iff : ∀ s n,
    toInt s = some n ↔ Decimal.IsIntText s n ∧ INT_MIN ≤ n ∧ n ≤ INT_MAX

/-- `boost::lexical_cast<int>` as the code calls it. -/
def lexicalCast [LexicalCast] (s : Bytes) : Except Exn Int :=
  match LexicalCast.toInt s with
  | some n => .ok n
  | none => .error .badLexicalCast

section
variable [LexicalCast]

theorem lexicalCast_eq_ok_iff {s : Bytes} {n : Int} :
    lexicalCast s = .ok n ↔ Decimal.IsIntText s n ∧ INT_MIN ≤ n ∧ n ≤ INT_MAX := by
  rw [← LexicalCast.toInt_eq_some_iff]
  unfold lexicalCast
  cases LexicalCast.toInt s <;> simp

/-- What is not an `int` is refused, always with the same exception. -/
theorem lexicalCast_eq_error_iff {s : Bytes} {e : Exn} :
    lexicalCast s = .error e ↔
      e = .badLexicalCast ∧ ∀ n, ¬ (Decimal.IsIntText s n ∧ INT_MIN ≤ n ∧ n ≤ INT_MAX) := by
  cases h : lexicalCast s with
  | ok n =>
      have hn := lexicalCast_eq_ok_iff.mp h
      simp only [reduceCtorEq, false_iff]
      rintro ⟨-, hall⟩
      exact hall n hn
  | error f =>
      have hall : ∀ n, ¬ (Decimal.IsIntText s n ∧ INT_MIN ≤ n ∧ n ≤ INT_MAX) := by
        intro n hn
        rw [lexicalCast_eq_ok_iff.mpr hn] at h
        cases h
      have hf : f = .badLexicalCast := by
        unfold lexicalCast at h
        split at h <;> simp_all
      simp only [Except.error.injEq, hf]
      exact ⟨fun he => ⟨he.symm, hall⟩, fun he => he.1.symm⟩

theorem lexicalCast_nil : lexicalCast [] = .error .badLexicalCast :=
  lexicalCast_eq_error_iff.mpr ⟨rfl, fun _ h => h.1.ne_nil rfl⟩

/-- A canonical numeral in range is read back. -/
theorem lexicalCast_decimal {n : Nat} (hn : (n : Int) ≤ INT_MAX) :
    lexicalCast (Decimal.decimal n) = .ok n :=
  lexicalCast_eq_ok_iff.mpr ⟨Decimal.isIntText_decimal n, by simp only [INT_MIN]; omega, hn⟩

/-- A canonical numeral out of range is refused. -/
theorem lexicalCast_decimal_of_lt {n : Nat} (hn : INT_MAX < (n : Int)) :
    lexicalCast (Decimal.decimal n) = .error .badLexicalCast := by
  refine lexicalCast_eq_error_iff.mpr ⟨rfl, ?_⟩
  rintro m ⟨htext, -, hle⟩
  have := htext.unique (Decimal.isIntText_decimal n)
  omega

end

/-- The documented behaviour, executably; used to run the model. -/
instance : LexicalCast where
  toInt s := (Decimal.parseInt s).filter fun n => decide (INT_MIN ≤ n ∧ n ≤ INT_MAX)
  toInt_eq_some_iff s n := by
    simp [Option.filter_eq_some_iff, Decimal.parseInt_eq_some_iff]

end FannyNet

import Mathlib.Algebra.Group.Nat.Defs
import Mathlib.Data.List.Basic
import Mathlib.Data.List.Induction

/-!
Decimal numerals in ASCII: the value of a string of digits and the numeral of a number.
A reader that accumulates the leading digits in wrapping 64-bit arithmetic gets their
value modulo 2^64.
-/
namespace WarpApi.DecimalNumeral

def isDigit (c : UInt8) : Bool := 48 ≤ c && c ≤ 57

def pushDigit (n : ℕ) (c : UInt8) : ℕ := 10 * n + (c.toNat - 48)

def value (digits : List UInt8) : ℕ := digits.foldl pushDigit 0

def numeral (n : ℕ) : List UInt8 := (Nat.toDigits 10 n).map fun c => UInt8.ofNat c.toNat

theorem isDigit_iff (c : UInt8) : isDigit c = true ↔ 48 ≤ c.toNat ∧ c.toNat ≤ 57 := by
  simp [isDigit, UInt8.le_iff_toNat_le]

theorem toNat_of_isDigit {c : Char} (h : c.isDigit = true) :
    48 ≤ c.toNat ∧ c.toNat ≤ 57 := by
  simpa [Char.isDigit, UInt32.le_iff_toNat_le] using h

theorem isDigit_of_mem_numeral {n : ℕ} {c : UInt8} (h : c ∈ numeral n) : isDigit c = true := by
  obtain ⟨d, hd, rfl⟩ := List.mem_map.mp h
  have hrange := toNat_of_isDigit (Nat.isDigit_of_mem_toDigits (by decide) (by decide) hd)
  rw [isDigit_iff, UInt8.toNat_ofNat']
  omega

theorem value_numeral (n : ℕ) : value (numeral n) = n := by
  have hchars : ∀ (cs : List Char) (m : ℕ), (∀ c ∈ cs, c.isDigit = true) →
      (cs.map fun c => UInt8.ofNat c.toNat).foldl pushDigit m = Nat.ofDigitChars 10 cs m := by
    intro cs
    induction cs with
    | nil =>
      intro m _
      rfl
    | cons c cs ih =>
      intro m hdigits
      have hrange := toNat_of_isDigit (hdigits c (List.mem_cons_self ..))
      have hpush : pushDigit m (UInt8.ofNat c.toNat) = 10 * m + (c.toNat - 48) := by
        rw [pushDigit, UInt8.toNat_ofNat', Nat.mod_eq_of_lt (by omega)]
      rw [List.map_cons, List.foldl_cons, hpush, Nat.ofDigitChars_cons]
      exact ih _ fun d hd => hdigits d (List.mem_cons_of_mem _ hd)
  rw [value, numeral, hchars _ _ fun c hc => Nat.isDigit_of_mem_toDigits (by decide) (by decide) hc]
  exact Nat.ofDigitChars_ten_toDigits

/-- k digits write numbers below 10^k. -/
theorem value_lt_pow (digits : List UInt8) (h : ∀ c ∈ digits, isDigit c = true) :
    value digits < 10 ^ digits.length := by
  induction digits using List.reverseRecOn with
  | nil => decide
  | append_singleton digits c ih =>
    have hfront := ih fun d hd => h d (List.mem_append_left _ hd)
    have hrange := (isDigit_iff c).mp (h c (List.mem_append_right _ (List.mem_singleton_self c)))
    rw [value, List.foldl_append, List.foldl_cons, List.foldl_nil, List.length_append, pow_add]
    unfold value at hfront
    simp only [pushDigit, List.length_singleton, pow_one]
    omega

theorem length_numeral_le {n k : ℕ} (hk : 0 < k) (hn : n < 10 ^ k) : (numeral n).length ≤ k := by
  rw [numeral, List.length_map]
  exact (Nat.length_toDigits_le_iff (by decide) hk).mpr hn

theorem pushDigit_wrap (result : UInt64) {c : UInt8} (h : isDigit c = true) :
    (result * 10 + (c - 48).toUInt64).toNat = pushDigit result.toNat c % 2 ^ 64 := by
  have hrange := (isDigit_iff c).mp h
  have hsub : (c - 48).toNat = c.toNat - 48 := by
    rw [UInt8.toNat_sub_of_le]
    · rfl
    · rw [UInt8.le_iff_toNat_le]
      exact hrange.1
  rw [UInt64.toNat_add, UInt64.toNat_mul, UInt8.toNat_toUInt64, hsub, pushDigit]
  have hten : (10 : UInt64).toNat = 10 := rfl
  rw [hten]
  omega

theorem pushDigit_mod (n : ℕ) (c : UInt8) :
    pushDigit (n % 2 ^ 64) c % 2 ^ 64 = pushDigit n c % 2 ^ 64 := by
  unfold pushDigit
  omega

theorem foldl_pushDigit_mod (digits : List UInt8) (n : ℕ) :
    digits.foldl pushDigit (n % 2 ^ 64) % 2 ^ 64 = digits.foldl pushDigit n % 2 ^ 64 := by
  induction digits generalizing n with
  | nil => exact Nat.mod_mod _ _
  | cons c digits ih =>
    rw [List.foldl_cons, List.foldl_cons, ← ih, pushDigit_mod, ih]

variable {digits rest : List UInt8}

theorem takeWhile_isDigit_append (hdigits : ∀ c ∈ digits, isDigit c = true)
    (hrest : ∀ c, rest.head? = some c → isDigit c = false) :
    (digits ++ rest).takeWhile isDigit = digits := by
  rw [List.takeWhile_append_of_pos hdigits]
  cases rest with
  | nil => simp
  | cons c rest => simp [hrest c rfl]

end WarpApi.DecimalNumeral

import Mathlib.Algebra.Group.Nat.Defs
import Mathlib.Data.List.Induction

/-!
Numbers as bytes, the most significant byte first, and the reader that shifts
the bytes one after the other into a 64-bit word.
-/
namespace WarpApi.BigEndian

/-- The lowest `width` bytes of n. -/
def bytes : ℕ → ℕ → List UInt8
  | 0, _ => []
  | width + 1, n => bytes width (n / 256) ++ [UInt8.ofNat n]

def value (bs : List UInt8) : ℕ := bs.foldl (fun n c => n * 256 + c.toNat) 0

def shiftIn (bs : List UInt8) : UInt64 := bs.foldl (fun n c => n <<< 8 ||| c.toUInt64) 0

@[simp] theorem length_bytes (width n : ℕ) : (bytes width n).length = width := by
  induction width generalizing n with
  | zero => rfl
  | succ width ih => rw [bytes, List.length_append, ih, List.length_singleton]

theorem value_append_singleton (bs : List UInt8) (c : UInt8) :
    value (bs ++ [c]) = value bs * 256 + c.toNat := by
  simp only [value, List.foldl_append, List.foldl_cons, List.foldl_nil]

theorem value_bytes (width n : ℕ) (h : n < 256 ^ width) : value (bytes width n) = n := by
  induction width generalizing n with
  | zero =>
    rw [Nat.pow_zero] at h
    obtain rfl : n = 0 := by omega
    rfl
  | succ width ih =>
    have hdiv : n / 256 < 256 ^ width := by
      rw [Nat.pow_succ] at h
      exact Nat.div_lt_of_lt_mul (by omega)
    rw [bytes, value_append_singleton, ih _ hdiv, UInt8.toNat_ofNat']
    omega

theorem value_lt (bs : List UInt8) : value bs < 256 ^ bs.length := by
  induction bs using List.reverseRecOn with
  | nil => simp [value]
  | append_singleton bs c ih =>
    have hc := c.toNat_lt
    rw [value_append_singleton, List.length_append, List.length_singleton, Nat.pow_succ]
    omega

theorem bytes_value (bs : List UInt8) : bytes bs.length (value bs) = bs := by
  induction bs using List.reverseRecOn with
  | nil => rfl
  | append_singleton bs c ih =>
    have hc := c.toNat_lt
    have hdiv : (value bs * 256 + c.toNat) / 256 = value bs := by omega
    have hbyte : UInt8.ofNat (value bs * 256 + c.toNat) = c := by
      apply UInt8.toNat_inj.mp
      rw [UInt8.toNat_ofNat']
      omega
    rw [List.length_append, List.length_singleton, value_append_singleton, bytes, hdiv, ih, hbyte]

/-- Shifting one byte in is exact as long as nothing is shifted out. -/
theorem toNat_shiftLeft_or (n : UInt64) (c : UInt8) (h : n.toNat * 256 < 2 ^ 64) :
    (n <<< 8 ||| c.toUInt64).toNat = n.toNat * 256 + c.toNat := by
  have hshift : (n <<< 8).toNat = n.toNat <<< 8 := by
    rw [UInt64.toNat_shiftLeft]
    show n.toNat <<< 8 % 2 ^ 64 = n.toNat <<< 8
    rw [Nat.shiftLeft_eq]
    exact Nat.mod_eq_of_lt h
  rw [UInt64.toNat_or, hshift, UInt8.toNat_toUInt64,
    ← Nat.shiftLeft_add_eq_or_of_lt c.toNat_lt, Nat.shiftLeft_eq]

/-- At most eight bytes are read as the number that they stand for. -/
theorem toNat_shiftIn (bs : List UInt8) (h : bs.length ≤ 8) : (shiftIn bs).toNat = value bs := by
  induction bs using List.reverseRecOn with
  | nil => rfl
  | append_singleton bs c ih =>
    rw [List.length_append, List.length_singleton] at h
    have hbs := ih (by omega)
    have hlt : value bs * 256 < 2 ^ 64 := by
      have hvalue := value_lt bs
      have hpow : 256 ^ bs.length ≤ 256 ^ 7 := Nat.pow_le_pow_right (by omega) (by omega)
      omega
    rw [value_append_singleton, ← hbs, ← toNat_shiftLeft_or _ c (by rw [hbs]; exact hlt)]
    simp only [shiftIn, List.foldl_append, List.foldl_cons, List.foldl_nil]

end WarpApi.BigEndian

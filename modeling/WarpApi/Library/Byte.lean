import Mathlib.Algebra.Group.Nat.Defs

/-!
Bytes and their numbers. A decidable property of all bytes, or of all below a bound, is
one of finitely many numbers.
-/
namespace WarpApi.Byte

theorem forall_of_lt {p : UInt8 → Prop} {n : ℕ} (h : ∀ i : Fin n, p (UInt8.ofNat i.val))
    (c : UInt8) (hc : c.toNat < n) : p c := by
  have hp := h ⟨c.toNat, hc⟩
  rwa [UInt8.ofNat_toNat] at hp

theorem forall_of_fin {p : UInt8 → Prop} (h : ∀ i : Fin 256, p (UInt8.ofNat i.val)) (c : UInt8) :
    p c :=
  forall_of_lt h c c.toNat_lt

theorem ofNat_eq {n : ℕ} {c : UInt8} (h : n = c.toNat) : UInt8.ofNat n = c := by
  rw [h, UInt8.ofNat_toNat]

theorem toNat_ofNat {n : ℕ} (h : n < 256) : (UInt8.ofNat n).toNat = n :=
  UInt8.toNat_ofNat_of_lt' h

end WarpApi.Byte

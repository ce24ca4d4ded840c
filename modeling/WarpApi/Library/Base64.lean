import WarpApi.Library.Byte
import Mathlib.Data.List.GetD
import Mathlib.Data.List.Nodup

/-!
The base64 encoding of RFC 4648 over any alphabet. Three bytes give four digits of six
bits, and padding fills up a shorter last group. The decoder refuses other characters,
padding inside the text, and bits left over in front of the padding.
-/
namespace WarpApi.Base64

/-- The 64 digits are different, and the padding is none of them. -/
structure Alphabet (α : Type*) where
  digits : List α
  pad : α
  length_digits : digits.length = 64
  nodup_digits : digits.Nodup
  pad_notMem : pad ∉ digits

/-- The upper case letters, the lower case letters, the digits, '+' and '/', in ASCII. -/
def standard : Alphabet UInt8 where
  digits := (List.range' 65 26 ++ List.range' 97 26 ++ List.range' 48 10 ++ [43, 47]).map
    UInt8.ofNat
  pad := 61
  length_digits := by decide
  nodup_digits := by decide
  pad_notMem := by decide

namespace Alphabet

open Byte

variable {α : Type*} (A : Alphabet α)

def digit (v : ℕ) : α := A.digits.getD v A.pad

def encode : List UInt8 → List α
  | a :: b :: c :: rest =>
    A.digit (a.toNat / 4) :: A.digit (a.toNat % 4 * 16 + b.toNat / 16) ::
      A.digit (b.toNat % 16 * 4 + c.toNat / 64) :: A.digit (c.toNat % 64) :: encode rest
  | [a, b] =>
    [A.digit (a.toNat / 4), A.digit (a.toNat % 4 * 16 + b.toNat / 16),
      A.digit (b.toNat % 16 * 4), A.pad]
  | [a] => [A.digit (a.toNat / 4), A.digit (a.toNat % 4 * 16), A.pad, A.pad]
  | [] => []

theorem length_encode (bytes : List UInt8) :
    (A.encode bytes).length = (bytes.length + 2) / 3 * 4 := by
  fun_induction A.encode bytes with
  | case1 a b c rest ih =>
    simp only [List.length_cons, ih]
    omega
  | case2 a b => simp only [List.length_cons, List.length_nil]
  | case3 a => simp only [List.length_cons, List.length_nil]
  | case4 => rfl

variable {v : ℕ} {c : α}

theorem digit_eq (h : v < 64) : A.digit v = A.digits.get ⟨v, A.length_digits ▸ h⟩ :=
  List.getD_eq_getElem _ _ _

theorem digit_mem (h : v < 64) : A.digit v ∈ A.digits := by
  rw [A.digit_eq h]
  exact List.get_mem _ _

theorem digit_ne_pad (h : v < 64) : A.digit v ≠ A.pad :=
  fun heq => A.pad_notMem (heq ▸ A.digit_mem h)

variable [DecidableEq α]

def value (c : α) : Option ℕ := if c ∈ A.digits then some (A.digits.idxOf c) else none

theorem value_digit (h : v < 64) : A.value (A.digit v) = some v := by
  rw [value, if_pos (A.digit_mem h), A.digit_eq h]
  exact congrArg some (A.nodup_digits.idxOf_getElem v _)

theorem eq_digit_of_value (h : A.value c = some v) : v < 64 ∧ c = A.digit v := by
  unfold value at h
  split_ifs at h with hmem
  obtain rfl := Option.some.inj h
  have hlt : A.digits.idxOf c < 64 := A.length_digits ▸ List.idxOf_lt_length_of_mem hmem
  refine ⟨hlt, ?_⟩
  rw [A.digit_eq hlt]
  exact (List.getElem_idxOf _).symm

/-- The digits in front of the last padding character. -/
def decodePadded (w x y : α) : Option (List UInt8) := do
  let w ← A.value w
  let x ← A.value x
  if y = A.pad then
    if x % 16 = 0 then some [UInt8.ofNat (w * 4 + x / 16)] else none
  else
    let y ← A.value y
    if y % 4 = 0 then
      some [UInt8.ofNat (w * 4 + x / 16), UInt8.ofNat (x % 16 * 16 + y / 4)]
    else none

def decode : List α → Option (List UInt8)
  | w :: x :: y :: z :: rest =>
    if z = A.pad ∧ rest = [] then A.decodePadded w x y
    else do
      let w ← A.value w
      let x ← A.value x
      let y ← A.value y
      let z ← A.value z
      let bytes ← decode rest
      some (UInt8.ofNat (w * 4 + x / 16) :: UInt8.ofNat (x % 16 * 16 + y / 4) ::
        UInt8.ofNat (y % 4 * 64 + z) :: bytes)
  | [] => some []
  | _ => none

/-- The decoder takes every encoding back to its bytes. -/
theorem decode_encode (bytes : List UInt8) : A.decode (A.encode bytes) = some bytes := by
  fun_induction A.encode bytes with
  | case1 a b c rest ih =>
    have ha := a.toNat_lt
    have hb := b.toNat_lt
    have hc := c.toNat_lt
    have hfull : ¬ (A.digit (c.toNat % 64) = A.pad ∧ A.encode rest = []) :=
      fun h => A.digit_ne_pad (by omega) h.1
    rw [decode, if_neg hfull, A.value_digit (by omega), A.value_digit (by omega),
      A.value_digit (by omega), A.value_digit (by omega), ih]
    simp only [Option.bind_eq_bind, Option.bind_some]
    rw [ofNat_eq (c := a) (by omega), ofNat_eq (c := b) (by omega), ofNat_eq (c := c) (by omega)]
  | case2 a b =>
    have ha := a.toNat_lt
    have hb := b.toNat_lt
    have hdigit : A.digit (b.toNat % 16 * 4) ≠ A.pad := A.digit_ne_pad (by omega)
    rw [decode, if_pos ⟨rfl, rfl⟩, decodePadded, A.value_digit (by omega),
      A.value_digit (by omega), A.value_digit (by omega)]
    simp only [Option.bind_eq_bind, Option.bind_some]
    rw [if_neg hdigit, if_pos (by omega), ofNat_eq (c := a) (by omega),
      ofNat_eq (c := b) (by omega)]
  | case3 a =>
    have ha := a.toNat_lt
    rw [decode, if_pos ⟨rfl, rfl⟩, decodePadded, A.value_digit (by omega),
      A.value_digit (by omega)]
    simp only [Option.bind_eq_bind, Option.bind_some]
    rw [if_pos trivial, if_pos (by omega), ofNat_eq (c := a) (by omega)]
  | case4 => rfl

theorem eq_encode_of_decodePadded {w x y : α} {bytes : List UInt8}
    (h : A.decodePadded w x y = some bytes) : [w, x, y, A.pad] = A.encode bytes := by
  simp only [decodePadded, Option.bind_eq_bind, Option.bind_eq_some_iff] at h
  obtain ⟨w', hw, x', hx, h⟩ := h
  obtain ⟨hw', rfl⟩ := A.eq_digit_of_value hw
  obtain ⟨hx', rfl⟩ := A.eq_digit_of_value hx
  split_ifs at h with hpad hzero
  · obtain rfl := Option.some.inj h
    subst hpad
    have hfirst : (w' * 4 + x' / 16) / 4 = w' := by omega
    have hsecond : (w' * 4 + x' / 16) % 4 * 16 = x' := by omega
    rw [encode, toNat_ofNat (by omega), hfirst, hsecond]
  · obtain ⟨y', hy, hbytes⟩ := Option.bind_eq_some_iff.mp h
    obtain ⟨hy', rfl⟩ := A.eq_digit_of_value hy
    split_ifs at hbytes with hzero
    obtain rfl := Option.some.inj hbytes
    have hfirst : (w' * 4 + x' / 16) / 4 = w' := by omega
    have hsecond : (w' * 4 + x' / 16) % 4 * 16 + (x' % 16 * 16 + y' / 4) / 16 = x' := by omega
    have hthird : (x' % 16 * 16 + y' / 4) % 16 * 4 = y' := by omega
    rw [encode, toNat_ofNat (by omega), toNat_ofNat (by omega), hfirst, hsecond, hthird]

/-- A text that is accepted is the encoding of the bytes it is decoded to. -/
theorem eq_encode_of_decode {text : List α} {bytes : List UInt8}
    (h : A.decode text = some bytes) : text = A.encode bytes := by
  induction text using Alphabet.decode.induct A generalizing bytes with
  | case1 w x y z rest hlast =>
    rw [decode, if_pos hlast] at h
    obtain ⟨rfl, rfl⟩ := hlast
    exact A.eq_encode_of_decodePadded h
  | case2 w x y z rest hlast ih =>
    rw [decode, if_neg hlast] at h
    simp only [Option.bind_eq_bind, Option.bind_eq_some_iff] at h
    obtain ⟨w', hw, x', hx, y', hy, z', hz, bytes', hrest, h⟩ := h
    obtain ⟨hw', rfl⟩ := A.eq_digit_of_value hw
    obtain ⟨hx', rfl⟩ := A.eq_digit_of_value hx
    obtain ⟨hy', rfl⟩ := A.eq_digit_of_value hy
    obtain ⟨hz', rfl⟩ := A.eq_digit_of_value hz
    obtain rfl := Option.some.inj h
    have hfirst : (w' * 4 + x' / 16) / 4 = w' := by omega
    have hsecond : (w' * 4 + x' / 16) % 4 * 16 + (x' % 16 * 16 + y' / 4) / 16 = x' := by omega
    have hthird : (x' % 16 * 16 + y' / 4) % 16 * 4 + (y' % 4 * 64 + z') / 64 = y' := by omega
    have hfourth : (y' % 4 * 64 + z') % 64 = z' := by omega
    rw [encode, ← ih hrest, toNat_ofNat (by omega), toNat_ofNat (by omega),
      toNat_ofNat (by omega), hfirst, hsecond, hthird, hfourth]
  | case3 =>
    obtain rfl := Option.some.inj h
    rfl
  | case4 text hfour hnil =>
    rw [decode] at h
    · simp at h
    · exact hfour
    · exact hnil

/-- Bytes have one text, and the decoder takes this one only. -/
theorem decode_eq_some_iff (text : List α) (bytes : List UInt8) :
    A.decode text = some bytes ↔ text = A.encode bytes :=
  ⟨A.eq_encode_of_decode, fun h => h ▸ A.decode_encode bytes⟩

end Alphabet

end WarpApi.Base64

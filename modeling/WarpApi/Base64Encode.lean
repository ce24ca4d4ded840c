import WarpApi.StringUtils
import WarpApi.Library.Base64
import WarpApi.Library.CheckedBuffer
import Mathlib.Algebra.Order.Floor.Div

/-!
`StringUtils::base64Encode` with the string that it sizes first and then fills through a
pointer. Reads of the input and writes to the string are checked.
-/
namespace WarpApi

open CheckedBuffer

variable {n : ℕ}

/-- `outLen`, the size that the string is given. -/
def base64OutLen (len : ℕ) : ℕ := (len + 2) / 3 * 4

/-- The loop over whole groups; it returns the index behind them. -/
def base64MainLoop (data : Bytes) (mainLen i : ℕ) (out : Cursor UInt8 n) :
    Option (ℕ × Cursor UInt8 n) :=
  if i < mainLen then do
    let a ← data[i]?
    let b ← data[i + 1]?
    let c ← data[i + 2]?
    let chunk := a.toUInt32 <<< 16 ||| b.toUInt32 <<< 8 ||| c.toUInt32
    let out ← out.putAll
      [base64Char chunk 18, base64Char chunk 12, base64Char chunk 6, base64Char chunk 0]
    base64MainLoop data mainLen (i + 3) out
  else some (i, out)
termination_by mainLen - i

/-- The group behind the loop, when there is one. -/
def base64Tail (data : Bytes) (i : ℕ) (out : Cursor UInt8 n) : Option (Cursor UInt8 n) :=
  if i < data.length then do
    let a ← data[i]?
    let chunk := a.toUInt32 <<< 16
    let hasSecond := decide (i + 1 < data.length)
    let chunk ←
      if hasSecond then data[i + 1]?.map fun (b : UInt8) => chunk ||| b.toUInt32 <<< 8
      else some chunk
    out.putAll
      [base64Char chunk 18, base64Char chunk 12, if hasSecond then base64Char chunk 6 else 61, 61]
  else some out

def base64EncodeInto (data : Bytes) : Option (Cursor UInt8 (base64OutLen data.length)) := do
  let mainLen := data.length - data.length % 3
  let main ← base64MainLoop data mainLen 0 (Cursor.start (Vector.replicate _ 0))
  base64Tail data main.1 main.2

theorem base64Table_eq : base64Table = Base64.standard.digits := by decide

theorem base64Char_eq (chunk shift : UInt32) (hshift : shift.toNat < 32) :
    base64Char chunk shift = Base64.standard.digit (chunk.toNat / 2 ^ shift.toNat % 64) := by
  have hindex : ((chunk >>> shift) &&& 0x3F).toNat = chunk.toNat / 2 ^ shift.toNat % 64 := by
    rw [UInt32.toNat_and, UInt32.toNat_shiftRight, Nat.mod_eq_of_lt hshift,
      Nat.shiftRight_eq_div_pow]
    exact Nat.and_two_pow_sub_one_eq_mod _ 6
  have hlt : chunk.toNat / 2 ^ shift.toNat % 64 < Base64.standard.digits.length := by
    rw [Base64.standard.length_digits]
    exact Nat.mod_lt _ (by omega)
  rw [base64Char, hindex, base64Table_eq, Base64.Alphabet.digit, List.getD_eq_getElem _ _ hlt,
    List.getD_eq_getElem _ _ hlt]

theorem toNat_byte_shiftLeft (c : UInt8) (shift : UInt32) (hshift : shift.toNat ≤ 24) :
    (c.toUInt32 <<< shift).toNat = c.toNat <<< shift.toNat := by
  have hc := c.toNat_lt
  have hpow : 2 ^ shift.toNat ≤ 2 ^ 24 := Nat.pow_le_pow_right (by omega) hshift
  have hlt : c.toNat * 2 ^ shift.toNat < 2 ^ 32 := by
    have hmul : c.toNat * 2 ^ shift.toNat ≤ 255 * 2 ^ 24 := Nat.mul_le_mul (by omega) hpow
    omega
  rw [UInt32.toNat_shiftLeft, UInt8.toNat_toUInt32, Nat.mod_eq_of_lt (by omega : _ < 32),
    Nat.shiftLeft_eq, Nat.mod_eq_of_lt hlt]

theorem toNat_chunk (a b : UInt8) :
    (a.toUInt32 <<< 16 ||| b.toUInt32 <<< 8).toNat = a.toNat * 65536 + b.toNat * 256 := by
  have hb := b.toNat_lt
  have hlow : b.toNat <<< 8 < 2 ^ 16 := by
    rw [Nat.shiftLeft_eq]
    omega
  rw [UInt32.toNat_or, toNat_byte_shiftLeft a 16 (by decide), toNat_byte_shiftLeft b 8 (by decide)]
  show a.toNat <<< 16 ||| b.toNat <<< 8 = _
  rw [← Nat.shiftLeft_add_eq_or_of_lt hlow, Nat.shiftLeft_eq, Nat.shiftLeft_eq]

theorem toNat_chunk_or (a b c : UInt8) :
    (a.toUInt32 <<< 16 ||| b.toUInt32 <<< 8 ||| c.toUInt32).toNat =
      a.toNat * 65536 + b.toNat * 256 + c.toNat := by
  have hhigh : a.toNat * 65536 + b.toNat * 256 = (a.toNat * 256 + b.toNat) <<< 8 := by
    rw [Nat.shiftLeft_eq]
    omega
  rw [UInt32.toNat_or, toNat_chunk, hhigh, UInt8.toNat_toUInt32,
    ← Nat.shiftLeft_add_eq_or_of_lt c.toNat_lt]

/-- The function computes the base64 encoding over the standard alphabet. -/
theorem base64Encode_eq (data : Bytes) : base64Encode data = Base64.standard.encode data := by
  fun_induction base64Encode data with
  | case1 a b c rest chunk ih =>
    have ha := a.toNat_lt
    have hb := b.toNat_lt
    have hc := c.toNat_lt
    have hchunk : chunk.toNat = a.toNat * 65536 + b.toNat * 256 + c.toNat := toNat_chunk_or a b c
    have hfirst : chunk.toNat / 2 ^ 18 % 64 = a.toNat / 4 := by omega
    have hsecond : chunk.toNat / 2 ^ 12 % 64 = a.toNat % 4 * 16 + b.toNat / 16 := by omega
    have hthird : chunk.toNat / 2 ^ 6 % 64 = b.toNat % 16 * 4 + c.toNat / 64 := by omega
    have hfourth : chunk.toNat / 2 ^ 0 % 64 = c.toNat % 64 := by omega
    rw [base64Char_eq _ 18 (by decide), base64Char_eq _ 12 (by decide),
      base64Char_eq _ 6 (by decide), base64Char_eq _ 0 (by decide), ih, Base64.Alphabet.encode,
      ← hfirst, ← hsecond, ← hthird, ← hfourth]
    rfl
  | case2 a b chunk =>
    have ha := a.toNat_lt
    have hb := b.toNat_lt
    have hchunk : chunk.toNat = a.toNat * 65536 + b.toNat * 256 := toNat_chunk a b
    have hfirst : chunk.toNat / 2 ^ 18 % 64 = a.toNat / 4 := by omega
    have hsecond : chunk.toNat / 2 ^ 12 % 64 = a.toNat % 4 * 16 + b.toNat / 16 := by omega
    have hthird : chunk.toNat / 2 ^ 6 % 64 = b.toNat % 16 * 4 := by omega
    rw [base64Char_eq _ 18 (by decide), base64Char_eq _ 12 (by decide),
      base64Char_eq _ 6 (by decide), Base64.Alphabet.encode, ← hfirst, ← hsecond, ← hthird]
    rfl
  | case3 a chunk =>
    have ha := a.toNat_lt
    have hchunk : chunk.toNat = a.toNat <<< 16 := toNat_byte_shiftLeft a 16 (by decide)
    rw [Nat.shiftLeft_eq] at hchunk
    have hfirst : chunk.toNat / 2 ^ 18 % 64 = a.toNat / 4 := by omega
    have hsecond : chunk.toNat / 2 ^ 12 % 64 = a.toNat % 4 * 16 := by omega
    rw [base64Char_eq _ 18 (by decide), base64Char_eq _ 12 (by decide), Base64.Alphabet.encode,
      ← hfirst, ← hsecond]
    rfl
  | case4 => rfl

variable {data rest : Bytes} {mainLen i : ℕ} {out : Cursor UInt8 n} {pre : Bytes}

theorem getElem?_of_drop (hdrop : data.drop i = rest) (j : ℕ) : data[i + j]? = rest[j]? := by
  rw [← hdrop, List.getElem?_drop]

theorem length_of_drop (hdrop : data.drop i = rest) (hi : i ≤ data.length) :
    data.length = i + rest.length := by
  rw [← hdrop, List.length_drop]
  omega

/-- One turn writes the four characters of a group behind what stands there. -/
theorem base64MainLoop_group (a b c : UInt8) (hdrop : data.drop i = a :: b :: c :: rest)
    (hi : i < mainLen) (hfilled : out.Filled pre)
    (hroom : pre.length + (base64Encode (a :: b :: c :: rest)).length ≤ n) :
    ∃ out' group, base64MainLoop data mainLen i out = base64MainLoop data mainLen (i + 3) out' ∧
      out'.Filled (pre ++ group) ∧
        base64Encode (a :: b :: c :: rest) = group ++ base64Encode rest := by
  rw [base64Encode, List.length_cons, List.length_cons, List.length_cons, List.length_cons] at hroom
  obtain ⟨out', hputAll, hfilled'⟩ := hfilled.putAll
    [base64Char (a.toUInt32 <<< 16 ||| b.toUInt32 <<< 8 ||| c.toUInt32) 18,
      base64Char (a.toUInt32 <<< 16 ||| b.toUInt32 <<< 8 ||| c.toUInt32) 12,
      base64Char (a.toUInt32 <<< 16 ||| b.toUInt32 <<< 8 ||| c.toUInt32) 6,
      base64Char (a.toUInt32 <<< 16 ||| b.toUInt32 <<< 8 ||| c.toUInt32) 0]
    (by simp only [List.length_cons, List.length_nil]; omega)
  refine ⟨out', _, ?_, hfilled', rfl⟩
  have h0 : data[i]? = some a := getElem?_of_drop hdrop 0
  have h1 : data[i + 1]? = some b := getElem?_of_drop hdrop 1
  have h2 : data[i + 2]? = some c := getElem?_of_drop hdrop 2
  rw [base64MainLoop, if_pos hi, h0, h1, h2]
  simp only [Option.bind_eq_bind, Option.bind_some]
  rw [hputAll, Option.bind_some]

theorem base64MainLoop_exit (hi : mainLen ≤ i) :
    base64MainLoop data mainLen i out = some (i, out) := by
  rw [base64MainLoop, if_neg (by omega)]

theorem base64Tail_filled (hdrop : data.drop i = rest) (hi : i ≤ data.length)
    (hshort : rest.length < 3) (hfilled : out.Filled pre)
    (hroom : pre.length + (base64Encode rest).length ≤ n) :
    ∃ out', base64Tail data i out = some out' ∧ out'.Filled (pre ++ base64Encode rest) := by
  have hlength := length_of_drop hdrop hi
  have hput := hfilled.putAll (base64Encode rest) hroom
  rcases rest with _ | ⟨a, _ | ⟨b, _ | ⟨c, rest⟩⟩⟩
  · rw [base64Tail, if_neg (by simp only [List.length_nil] at hlength; omega)]
    exact hput
  · have h0 : data[i]? = some a := getElem?_of_drop hdrop 0
    have hlast : decide (i + 1 < data.length) = false := by
      simp only [List.length_cons, List.length_nil] at hlength
      simp only [decide_eq_false_iff_not]
      omega
    rw [base64Tail, if_pos (by simp only [List.length_cons] at hlength; omega), h0]
    simp only [Option.bind_eq_bind, Option.bind_some, hlast, Bool.false_eq_true, if_false]
    exact hput
  · have h0 : data[i]? = some a := getElem?_of_drop hdrop 0
    have h1 : data[i + 1]? = some b := getElem?_of_drop hdrop 1
    have hsecond : decide (i + 1 < data.length) = true := by
      simp only [List.length_cons, List.length_nil] at hlength
      simp only [decide_eq_true_eq]
      omega
    rw [base64Tail, if_pos (by simp only [List.length_cons] at hlength; omega), h0, h1]
    simp only [Option.bind_eq_bind, Option.bind_some, hsecond, if_true, Option.map_some]
    exact hput
  · simp only [List.length_cons] at hshort
    omega

theorem base64MainLoop_short (hdrop : data.drop i = rest) (hi : i ≤ data.length)
    (hthree : i % 3 = 0) (hshort : rest.length < 3) (hfilled : out.Filled pre)
    (hroom : pre.length + (base64Encode rest).length ≤ n) :
    ∃ out', ((base64MainLoop data (data.length - data.length % 3) i out).bind fun main =>
        base64Tail data main.1 main.2) = some out' ∧ out'.Filled (pre ++ base64Encode rest) := by
  have hlength := length_of_drop hdrop hi
  rw [base64MainLoop_exit (by omega), Option.bind_some]
  exact base64Tail_filled hdrop hi hshort hfilled hroom

/-- From any group on, the loop and the tail write the encoding of what is left. -/
theorem base64MainLoop_filled (hdrop : data.drop i = rest) (hi : i ≤ data.length)
    (hthree : i % 3 = 0) (hfilled : out.Filled pre)
    (hroom : pre.length + (base64Encode rest).length ≤ n) :
    ∃ out', ((base64MainLoop data (data.length - data.length % 3) i out).bind fun main =>
        base64Tail data main.1 main.2) = some out' ∧ out'.Filled (pre ++ base64Encode rest) := by
  induction rest using base64Encode.induct generalizing i out pre with
  | case1 a b c rest ih =>
    have hlength := length_of_drop hdrop hi
    simp only [List.length_cons] at hlength
    have hturn : i < data.length - data.length % 3 := by omega
    obtain ⟨out', group, hloop, hfilled', hgroup⟩ :=
      base64MainLoop_group a b c hdrop hturn hfilled hroom
    have hdrop' : data.drop (i + 3) = rest := by
      rw [← List.drop_drop, hdrop]
      rfl
    rw [hgroup, List.length_append] at hroom
    rw [hloop, hgroup, ← List.append_assoc]
    apply ih hdrop' (by omega) (by omega) hfilled'
    rw [List.length_append]
    omega
  | case2 a b => exact base64MainLoop_short hdrop hi hthree (by simp) hfilled hroom
  | case3 a => exact base64MainLoop_short hdrop hi hthree (by simp) hfilled hroom
  | case4 => exact base64MainLoop_short hdrop hi hthree (by simp) hfilled hroom

theorem length_base64Encode (data : Bytes) :
    (base64Encode data).length = base64OutLen data.length := by
  rw [base64Encode_eq, Base64.Alphabet.length_encode, base64OutLen]

theorem base64OutLen_eq_ceilDiv (len : ℕ) : base64OutLen len = 4 * (len ⌈/⌉ 3) := by
  rw [base64OutLen, Nat.ceilDiv_eq_add_pred_div, Nat.mul_comm, Nat.add_sub_assoc (by omega)]

/-- The pointer stays inside the string, and fills it with the encoding. -/
theorem base64EncodeInto_filled (data : Bytes) :
    ∃ out, base64EncodeInto data = some out ∧ out.Filled (base64Encode data) :=
  base64MainLoop_filled rfl (Nat.zero_le _) rfl (Cursor.filled_start _)
    (Nat.le_of_eq ((Nat.zero_add _).trans (length_base64Encode data)))

/-- The result has the length of a base64 text, the string is filled with it and each of its
positions is written once, and the decoder returns the input. -/
theorem base64Encode_roundTrip (data : Bytes) :
    (base64Encode data).length = 4 * (data.length ⌈/⌉ 3) ∧
      (∃ out, base64EncodeInto data = some out ∧ out.buf.toList = base64Encode data ∧
        ∀ pos, out.written.count pos = if pos < (base64Encode data).length then 1 else 0) ∧
      Base64.standard.decode (base64Encode data) = some data := by
  refine ⟨?_, ?_, ?_⟩
  · rw [length_base64Encode, base64OutLen_eq_ceilDiv]
  · obtain ⟨out, hout, hfilled⟩ := base64EncodeInto_filled data
    exact ⟨out, hout, hfilled.toList_eq (length_base64Encode data), hfilled.count_written⟩
  · rw [base64Encode_eq]
    exact Base64.standard.decode_encode data

example : base64Encode (ascii "fooba") = ascii "Zm9vYmE=" := by decide

/-- The decoder accepts no other text for these bytes. -/
theorem decode_eq_some_iff_base64Encode (text data : Bytes) :
    Base64.standard.decode text = some data ↔ text = base64Encode data := by
  rw [base64Encode_eq]
  exact Base64.standard.decode_eq_some_iff text data

end WarpApi

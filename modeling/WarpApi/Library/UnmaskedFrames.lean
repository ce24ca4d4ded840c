import WarpApi.Library.BigEndian
import WarpApi.Library.Byte
import WarpApi.Library.SelfDelimiting

/-!
Frames of RFC 6455 without a mask, as a server sends them. The decoder refuses reserved
bits, a mask bit and a length that is not written in its shortest form. The highest bit of
a length of eight bytes is a bit of the length like the others.
-/
namespace WarpApi.UnmaskedFrames

structure Frame where
  fin : Bool
  opcode : UInt8
  payload : List UInt8
  deriving DecidableEq

/-- Four bits for the opcode and at most eight bytes for the length. -/
def Frame.valid (f : Frame) : Prop := f.opcode.toNat < 16 ∧ f.payload.length < 2 ^ 64

def lengthBytes (n : ℕ) : List UInt8 :=
  if n ≤ 125 then [UInt8.ofNat n]
  else if n < 2 ^ 16 then 126 :: BigEndian.bytes 2 n
  else 127 :: BigEndian.bytes 8 n

def firstByte (fin : Bool) (opcode : UInt8) : UInt8 := (if fin then 0x80 else 0) ||| opcode

def encode (f : Frame) : List UInt8 :=
  firstByte f.fin f.opcode :: (lengthBytes f.payload.length ++ f.payload)

/-- A length of several bytes that has no shorter form. -/
def readExtended (width least : ℕ) (data : List UInt8) : Option (ℕ × List UInt8) :=
  if data.length < width then none
  else if BigEndian.value (data.take width) < least then none
  else some (BigEndian.value (data.take width), data.drop width)

def readLength : List UInt8 → Option (ℕ × List UInt8)
  | [] => none
  | b :: data =>
    if b.toNat ≤ 125 then some (b.toNat, data)
    else if b = 126 then readExtended 2 126 data
    else if b = 127 then readExtended 8 (2 ^ 16) data
    else none

def decode : List UInt8 → Option (Frame × List UInt8)
  | [] => none
  | b :: data =>
    if b &&& 0x70 ≠ 0 then none
    else match readLength data with
      | none => none
      | some (n, data) =>
        if data.length < n then none
        else some (⟨b &&& 0x80 ≠ 0, b &&& 0x0F, data.take n⟩, data.drop n)

theorem firstByte_bits (fin : Bool) {opcode : UInt8} (h : opcode.toNat < 16) :
    firstByte fin opcode &&& 0x70 = 0 ∧ decide (firstByte fin opcode &&& 0x80 ≠ 0) = fin ∧
      firstByte fin opcode &&& 0x0F = opcode := by
  revert fin
  apply Byte.forall_of_lt _ opcode h
  decide +kernel

theorem firstByte_of_bits {b : UInt8} (h : b &&& 0x70 = 0) :
    (b &&& 0x0F).toNat < 16 ∧ firstByte (b &&& 0x80 ≠ 0) (b &&& 0x0F) = b := by
  revert h
  apply Byte.forall_of_fin _ b
  decide +kernel

theorem readExtended_bytes {width least n : ℕ} (rest : List UInt8) (hleast : least ≤ n)
    (hn : n < 256 ^ width) :
    readExtended width least (BigEndian.bytes width n ++ rest) = some (n, rest) := by
  have hlength := BigEndian.length_bytes width n
  have hlong : ¬ (BigEndian.bytes width n ++ rest).length < width := by
    rw [List.length_append]
    omega
  rw [readExtended, if_neg hlong, List.take_left' hlength, BigEndian.value_bytes width n hn,
    if_neg (Nat.not_lt.mpr hleast), List.drop_left' hlength]

theorem of_readExtended {width least n : ℕ} {data rest : List UInt8}
    (h : readExtended width least data = some (n, rest)) :
    least ≤ n ∧ n < 256 ^ width ∧ data = BigEndian.bytes width n ++ rest := by
  unfold readExtended at h
  split_ifs at h with hshort hleast
  simp only [Option.some.injEq, Prod.mk.injEq] at h
  obtain ⟨rfl, rfl⟩ := h
  have hwidth : (data.take width).length = width := by
    rw [List.length_take]
    omega
  have hlt := BigEndian.value_lt (data.take width)
  have hbytes := BigEndian.bytes_value (data.take width)
  rw [hwidth] at hlt hbytes
  rw [hbytes, List.take_append_drop]
  exact ⟨Nat.not_lt.mp hleast, hlt, rfl⟩

theorem readLength_lengthBytes {n : ℕ} (rest : List UInt8) (hn : n < 2 ^ 64) :
    readLength (lengthBytes n ++ rest) = some (n, rest) := by
  unfold lengthBytes
  split_ifs with hseven hsixteen
  · have hbyte : (UInt8.ofNat n).toNat = n := by
      rw [UInt8.toNat_ofNat']
      omega
    rw [List.singleton_append, readLength, hbyte, if_pos hseven]
  · rw [List.cons_append, readLength, if_neg (by decide), if_pos rfl]
    exact readExtended_bytes rest (by omega) hsixteen
  · rw [List.cons_append, readLength, if_neg (by decide), if_neg (by decide), if_pos rfl]
    exact readExtended_bytes rest (by omega) hn

theorem of_readLength {n : ℕ} {data rest : List UInt8} (h : readLength data = some (n, rest)) :
    n < 2 ^ 64 ∧ data = lengthBytes n ++ rest := by
  cases data with
  | nil => simp [readLength] at h
  | cons b data =>
    rw [readLength] at h
    unfold lengthBytes
    split_ifs at h with hseven hb hb
    · simp only [Option.some.injEq, Prod.mk.injEq] at h
      obtain ⟨rfl, rfl⟩ := h
      rw [if_pos hseven, UInt8.ofNat_toNat]
      exact ⟨by omega, rfl⟩
    · obtain ⟨hleast, hlt, rfl⟩ := of_readExtended h
      rw [if_neg (by omega), if_pos (by omega), hb]
      exact ⟨by omega, rfl⟩
    · obtain ⟨hleast, hlt, rfl⟩ := of_readExtended h
      rw [if_neg (by omega), if_neg (by omega), hb]
      exact ⟨by omega, rfl⟩

theorem decode_encode (f : Frame) (rest : List UInt8) (h : f.valid) :
    decode (encode f ++ rest) = some (f, rest) := by
  obtain ⟨hreserved, hfin, hopcode⟩ := firstByte_bits f.fin h.1
  have hlong : ¬ (f.payload ++ rest).length < f.payload.length := by
    rw [List.length_append]
    omega
  rw [encode, List.cons_append, List.append_assoc, decode, if_neg (by simp [hreserved]),
    readLength_lengthBytes _ h.2]
  dsimp only
  rw [if_neg hlong, hfin, hopcode, List.take_left, List.drop_left]

theorem valid_of_decode (data : List UInt8) (f : Frame) (rest : List UInt8)
    (h : decode data = some (f, rest)) : f.valid ∧ data = encode f ++ rest := by
  cases data with
  | nil => simp [decode] at h
  | cons b data =>
    rw [decode] at h
    split_ifs at h with hreserved
    cases hlength : readLength data with
    | none => simp [hlength] at h
    | some p =>
      obtain ⟨n, tail⟩ := p
      obtain ⟨hn, rfl⟩ := of_readLength hlength
      simp only [hlength] at h
      split_ifs at h with hshort
      simp only [Option.some.injEq, Prod.mk.injEq] at h
      obtain ⟨rfl, rfl⟩ := h
      obtain ⟨hopcode, hfirst⟩ := firstByte_of_bits (not_not.mp hreserved)
      have htake : (tail.take n).length = n := by
        rw [List.length_take]
        omega
      refine ⟨⟨hopcode, by rw [htake]; exact hn⟩, ?_⟩
      rw [encode]
      dsimp only
      rw [hfirst, htake, List.cons_append, List.append_assoc, List.take_append_drop]

def code : SelfDelimiting Frame UInt8 where
  valid := Frame.valid
  encode := encode
  decode := decode
  encode_ne_nil _ := List.cons_ne_nil _ _
  decode_encode := decode_encode
  valid_of_decode := valid_of_decode

end WarpApi.UnmaskedFrames

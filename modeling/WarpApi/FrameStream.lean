import WarpApi.FrameRuns
import WarpApi.Library.UnmaskedFrames

/-!
Series of `ws::sendFrame`. What the function writes is the encoding of an unmasked frame,
with the length in its shortest form, so a series that fits in the write buffer can be
read back from it frame by frame.
-/
namespace WarpApi

/-- The function is called once for every frame. -/
def sendFrames (writeBuf : RingBuffer) (frames : List Frame) : RingBuffer :=
  frames.foldl (fun writeBuf f => sendFrame writeBuf f.opcode f.payload f.fin) writeBuf

def Frame.unmasked (f : Frame) : UnmaskedFrames.Frame := ⟨f.fin, f.opcode, f.payload⟩

theorem sendFrames_eq_push (writeBuf : RingBuffer) (frames : List Frame) :
    sendFrames writeBuf frames = writeBuf.push (frames.flatMap Frame.bytes) := by
  induction frames generalizing writeBuf with
  | nil => exact (BoundedQueue.push_nil writeBuf).symm
  | cons f frames ih =>
    show sendFrames (sendFrame writeBuf f.opcode f.payload f.fin) frames = _
    rw [ih, sendFrame_eq_push, BoundedQueue.push_push, List.flatMap_cons]
    rfl

theorem toUInt8_shiftRight (n : UInt64) (shift : UInt64) (h : shift.toNat < 64) :
    (n >>> shift).toUInt8 = UInt8.ofNat (n.toNat / 2 ^ shift.toNat) := by
  apply UInt8.toNat_inj.mp
  rw [UInt64.toNat_toUInt8, UInt64.toNat_shiftRight, Nat.mod_eq_of_lt h,
    Nat.shiftRight_eq_div_pow, UInt8.toNat_ofNat']

/-- The loop over the eight bytes of a long length. -/
theorem bigEndian64_ofNat {len : ℕ} (h : len < 2 ^ 64) :
    bigEndian64 (UInt64.ofNat len) = BigEndian.bytes 8 len := by
  have hlen : (UInt64.ofNat len).toNat = len := by
    rw [UInt64.toNat_ofNat', Nat.mod_eq_of_lt h]
  have hbyte : ∀ shift : UInt64, shift.toNat < 64 →
      (UInt64.ofNat len >>> shift).toUInt8 = UInt8.ofNat (len / 2 ^ shift.toNat) := by
    intro shift hshift
    rw [toUInt8_shiftRight _ shift hshift, hlen]
  simp only [bigEndian64, List.map_cons, List.map_nil, BigEndian.bytes, List.nil_append,
    List.cons_append, Nat.div_div_eq_div_mul]
  rw [hbyte 56 (by decide), hbyte 48 (by decide), hbyte 40 (by decide), hbyte 32 (by decide),
    hbyte 24 (by decide), hbyte 16 (by decide), hbyte 8 (by decide), hbyte 0 (by decide)]
  simp

theorem frameHeader_eq (opcode : UInt8) (fin : Bool) {len : ℕ} (hopcode : opcode.toNat < 16)
    (hlen : len < 2 ^ 64) : frameHeader opcode fin len =
      UnmaskedFrames.firstByte fin opcode :: UnmaskedFrames.lengthBytes len := by
  have hfour : opcode &&& 0x0F = opcode := by
    apply Byte.forall_of_lt _ opcode hopcode
    decide +kernel
  rw [frameHeader, hfour, UnmaskedFrames.firstByte, UnmaskedFrames.lengthBytes]
  by_cases hseven : len ≤ 125
  · rw [if_pos hseven, if_pos hseven]
  · by_cases hsixteen : len < 2 ^ 16
    · have hle : len ≤ 0xFFFF := Nat.le_of_lt_succ hsixteen
      rw [if_neg hseven, if_neg hseven, if_pos hle, if_pos hsixteen]
      rfl
    · have hgt : ¬ len ≤ 0xFFFF := fun hle => hsixteen (Nat.lt_succ_of_le hle)
      rw [if_neg hseven, if_neg hseven, if_neg hgt, if_neg hsixteen, bigEndian64_ofNat hlen]

theorem Frame.bytes_eq_encode {f : Frame} (h : f.unmasked.valid) :
    f.bytes = UnmaskedFrames.encode f.unmasked := by
  have hlen : f.payload.length < 2 ^ 64 := h.2
  rw [Frame.bytes, frameHeader_eq f.opcode f.fin h.1 hlen]
  rfl

/-- The local array of the header has 14 bytes. -/
theorem length_frameHeader_le (opcode : UInt8) (fin : Bool) (len : ℕ) :
    (frameHeader opcode fin len).length ≤ 14 := by
  unfold frameHeader bigEndian64
  split_ifs <;> simp

theorem unmasked_injective : Function.Injective Frame.unmasked := by
  rintro ⟨opcode, fin, payload⟩ ⟨opcode', fin', payload'⟩ h
  simp only [Frame.unmasked, UnmaskedFrames.Frame.mk.injEq] at h
  obtain ⟨rfl, rfl, rfl⟩ := h
  rfl

theorem flatMap_bytes {frames : List Frame} (h : ∀ f ∈ frames, f.unmasked.valid) :
    frames.flatMap Frame.bytes = (frames.map Frame.unmasked).flatMap UnmaskedFrames.encode := by
  rw [List.flatMap_map]
  exact List.flatMap_congr fun f hf => Frame.bytes_eq_encode (h f hf)

theorem decodeAll_bytes {frames : List Frame} (h : ∀ f ∈ frames, f.unmasked.valid) :
    UnmaskedFrames.code.decodeAll (frames.flatMap Frame.bytes) =
      some (frames.map Frame.unmasked) := by
  rw [SelfDelimiting.decodeAll_eq_some_iff, flatMap_bytes h]
  refine ⟨fun g hg => ?_, rfl⟩
  obtain ⟨f, hf, rfl⟩ := List.mem_map.mp hg
  exact h f hf

/-- A series that fits in an empty write buffer is read back from it, and no other series
is; the lengths are in their shortest form and the header stays in its array. -/
theorem sendFrames_decodes (writeBuf : RingBuffer) (frames : List Frame)
    (hempty : writeBuf.unread = [])
    (hvalid : ∀ f ∈ frames, f.opcode.toNat < 16 ∧ f.payload.length < 2 ^ 64)
    (hfits : (frames.flatMap Frame.bytes).length ≤ writeBuf.free) :
    UnmaskedFrames.code.decodeAll (sendFrames writeBuf frames).unread =
        some (frames.map Frame.unmasked) ∧
      (∀ others : List Frame, (∀ f ∈ others, f.opcode.toNat < 16 ∧ f.payload.length < 2 ^ 64) →
        others.flatMap Frame.bytes = (sendFrames writeBuf frames).unread → others = frames) ∧
      ∀ f ∈ frames, (∃ b, frameHeader f.opcode f.fin f.payload.length =
          b :: UnmaskedFrames.lengthBytes f.payload.length) ∧
        (frameHeader f.opcode f.fin f.payload.length).length ≤ 14 := by
  have hunread : (sendFrames writeBuf frames).unread = frames.flatMap Frame.bytes := by
    rw [sendFrames_eq_push, BoundedQueue.unread_push_of_le _ _ hfits, hempty, List.nil_append]
  refine ⟨?_, fun others hothers hsame => ?_, fun f hf => ?_⟩
  · rw [hunread]
    exact decodeAll_bytes hvalid
  · have hdecoded := decodeAll_bytes hothers
    rw [hsame, hunread, decodeAll_bytes hvalid, Option.some.injEq] at hdecoded
    exact (unmasked_injective.list_map hdecoded).symm
  · exact ⟨⟨_, frameHeader_eq f.opcode f.fin (hvalid f hf).1 (hvalid f hf).2⟩,
      length_frameHeader_le _ _ _⟩

theorem sendFrames_decodes_three :
    UnmaskedFrames.code.decodeAll (sendFrames (BoundedQueue.empty 20)
        [⟨1, true, ascii "hi"⟩, ⟨1, false, ascii "x"⟩, ⟨8, true, [3, 234]⟩]).unread =
      some [⟨true, 1, ascii "hi"⟩, ⟨false, 1, ascii "x"⟩, ⟨true, 8, [3, 234]⟩] :=
  (sendFrames_decodes (BoundedQueue.empty 20)
    [⟨1, true, ascii "hi"⟩, ⟨1, false, ascii "x"⟩, ⟨8, true, [3, 234]⟩]
    rfl (by decide) (by decide)).1

end WarpApi

import WarpApi.SentFrames
import WarpApi.Library.BigEndian
import WarpApi.Library.Byte

/-!
The frames that a client sends. A client masks every payload with a key of four
bytes and may write a length in every form that is able to hold it. Frames put
one behind the other are dispatched in their order and used up exactly.
-/
namespace WarpApi

inductive ClientOpcode
  | text | binary | ping | pong
  deriving DecidableEq

def ClientOpcode.code : ClientOpcode → UInt8
  | .text => 0x1
  | .binary => 0x2
  | .ping => 0x9
  | .pong => 0xA

theorem ClientOpcode.code_ne_close (opcode : ClientOpcode) : opcode.code ≠ wsOpClose := by
  cases opcode <;> decide

def ClientOpcode.isControl : ClientOpcode → Bool
  | .text | .binary => false
  | .ping | .pong => true

/-- The length as 7 bits, or behind them as 16 or as 64 bits. -/
inductive LengthForm
  | seven | sixteen | sixtyFour
  deriving DecidableEq

def LengthForm.max : LengthForm → ℕ
  | .seven => 125
  | .sixteen => 2 ^ 16 - 1
  | .sixtyFour => 2 ^ 64 - 1

/-- The length field, with the mask bit in its first byte. -/
def LengthForm.bytes (form : LengthForm) (len : ℕ) : Bytes :=
  match form with
  | .seven => [0x80 ||| UInt8.ofNat len]
  | .sixteen => (0x80 ||| 126) :: BigEndian.bytes 2 len
  | .sixtyFour => (0x80 ||| 127) :: BigEndian.bytes 8 len

/-- A final frame with a length that its form can write. -/
structure ClientFrame where
  opcode : ClientOpcode
  key : Vector UInt8 4
  form : LengthForm
  payload : Bytes
  length_le : payload.length ≤ form.max
  control_le : opcode.isControl = true → payload.length ≤ 125

/-- Octet i is combined with octet i mod 4 of the key. -/
def applyMask (key : Vector UInt8 4) (payload : Bytes) : Bytes :=
  payload.mapIdx fun i c => c ^^^ key.get ⟨i % 4, Nat.mod_lt i (by decide)⟩

namespace ClientFrame

def encode (f : ClientFrame) : Bytes :=
  (0x80 ||| f.opcode.code) :: (f.form.bytes f.payload.length ++
    (f.key.toList ++ applyMask f.key f.payload))

def frame (f : ClientFrame) : Frame := ⟨f.opcode.code, true, f.payload⟩

end ClientFrame

theorem unmask_applyMask (key : Vector UInt8 4) (payload : Bytes) :
    unmask key.toList (applyMask key payload) = payload := by
  apply List.ext_getElem
  · simp only [unmask, applyMask, List.length_mapIdx]
  · intro i h1 h2
    have hkey : key.toList.getD (i % 4) 0 = key.get ⟨i % 4, Nat.mod_lt i (by decide)⟩ := by
      rw [List.getD_eq_getElem?_getD, List.getElem?_eq_getElem (by
        rw [Vector.length_toList]
        exact Nat.mod_lt i (by decide))]
      rfl
    simp only [unmask, applyMask, List.getElem_mapIdx]
    rw [hkey, UInt8.xor_assoc, UInt8.xor_self, UInt8.xor_zero]

theorem maskBit (x : UInt8) :
    (0x80 ||| x) &&& 0x80 ≠ 0 ∧ (x.toNat < 128 → (0x80 ||| x) &&& 0x7F = x) := by
  apply Byte.forall_of_fin _ x
  decide +kernel

def LengthForm.size (form : LengthForm) : ℕ :=
  match form with
  | .seven => 2
  | .sixteen => 4
  | .sixtyFour => 10

theorem LengthForm.length_bytes (form : LengthForm) (len : ℕ) :
    (form.bytes len).length + 1 = form.size := by
  cases form <;> simp [LengthForm.bytes, LengthForm.size]

theorem payloadLength_seven (len : ℕ) (b0 : UInt8) (rest : Bytes) (hlen : len ≤ 125) :
    payloadLength (b0 :: (LengthForm.seven.bytes len ++ rest)) = some (UInt64.ofNat len, 2) := by
  have hnat : (UInt8.ofNat len).toNat = len := by
    rw [UInt8.toNat_ofNat']
    omega
  have hseven : (0x80 ||| UInt8.ofNat len) &&& 0x7F = UInt8.ofNat len :=
    (maskBit _).2 (by omega)
  have hne (c : UInt8) (hc : 125 < c.toNat) : UInt8.ofNat len ≠ c := by
    intro h
    rw [← h, hnat] at hc
    omega
  show payloadLength (b0 :: (0x80 ||| UInt8.ofNat len) :: rest) = _
  unfold payloadLength
  simp only [List.getD_cons_succ, List.getD_cons_zero, hseven]
  rw [if_neg (hne 126 (by decide)), if_neg (hne 127 (by decide))]
  have hword : (UInt8.ofNat len).toUInt64 = UInt64.ofNat len := by
    apply UInt64.toNat_inj.mp
    rw [UInt8.toNat_toUInt64, hnat, UInt64.toNat_ofNat']
    omega
  rw [hword]

theorem payloadLength_sixteen (len : ℕ) (b0 : UInt8) (rest : Bytes) (hlen : len < 256 ^ 2) :
    payloadLength (b0 :: (LengthForm.sixteen.bytes len ++ rest)) = some (UInt64.ofNat len, 4) := by
  obtain ⟨c, d, hbytes⟩ : ∃ c d, BigEndian.bytes 2 len = [c, d] :=
    List.length_eq_two.mp (BigEndian.length_bytes 2 len)
  have hvalue := BigEndian.value_bytes 2 len hlen
  have hword : c.toUInt64 <<< 8 ||| d.toUInt64 = UInt64.ofNat len := by
    apply UInt64.toNat_inj.mp
    have hshift : c.toUInt64 <<< 8 ||| d.toUInt64 = BigEndian.shiftIn [c, d] := by
      simp [BigEndian.shiftIn]
    rw [hshift, BigEndian.toNat_shiftIn [c, d] (by simp), ← hbytes, hvalue,
      UInt64.toNat_ofNat', Nat.mod_eq_of_lt (by omega)]
  show payloadLength (b0 :: (0x80 ||| 126) :: (BigEndian.bytes 2 len ++ rest)) = _
  rw [hbytes]
  unfold payloadLength
  have h126 : ((0x80 : UInt8) ||| 126) &&& 0x7F = 126 := by decide
  simp only [List.cons_append, List.nil_append, List.getD_cons_succ, List.getD_cons_zero, h126,
    if_true, List.length_cons]
  rw [if_neg (by omega), hword]

theorem payloadLength_sixtyFour (len : ℕ) (b0 : UInt8) (rest : Bytes) (hlen : len < 256 ^ 8) :
    payloadLength (b0 :: (LengthForm.sixtyFour.bytes len ++ rest)) =
      some (UInt64.ofNat len, 10) := by
  have hvalue := BigEndian.value_bytes 8 len hlen
  have hlength := BigEndian.length_bytes 8 len
  have hword : BigEndian.shiftIn (BigEndian.bytes 8 len) = UInt64.ofNat len := by
    apply UInt64.toNat_inj.mp
    rw [BigEndian.toNat_shiftIn _ (by rw [hlength]), hvalue, UInt64.toNat_ofNat',
      Nat.mod_eq_of_lt (by omega)]
  show payloadLength (b0 :: (0x80 ||| 127) :: (BigEndian.bytes 8 len ++ rest)) = _
  unfold payloadLength
  have h127 : ((0x80 : UInt8) ||| 127) &&& 0x7F = 127 := by decide
  simp only [List.getD_cons_succ, List.getD_cons_zero, h127, if_true, List.length_cons,
    List.length_append, hlength, List.drop_succ_cons, List.drop_zero]
  rw [if_neg (by decide), if_neg (by omega), List.take_append_of_le_length (by rw [hlength]),
    List.take_of_length_le (by rw [hlength])]
  show some (BigEndian.shiftIn (BigEndian.bytes 8 len), 10) = _
  rw [hword]

/-- Each form is read back as the length that it was written for. -/
theorem payloadLength_encode (form : LengthForm) (len : ℕ) (b0 : UInt8) (rest : Bytes)
    (hlen : len ≤ form.max) :
    payloadLength (b0 :: (form.bytes len ++ rest)) = some (UInt64.ofNat len, form.size) := by
  cases form with
  | seven => exact payloadLength_seven len b0 rest hlen
  | sixteen => exact payloadLength_sixteen len b0 rest (Nat.lt_of_le_of_lt hlen (by decide))
  | sixtyFour => exact payloadLength_sixtyFour len b0 rest (Nat.lt_of_le_of_lt hlen (by decide))

theorem LengthForm.max_lt (form : LengthForm) : form.max < 2 ^ 64 := by
  cases form <;> decide

theorem LengthForm.masked (form : LengthForm) (len : ℕ) (b0 : UInt8) (rest : Bytes) :
    (b0 :: (form.bytes len ++ rest)).getD 1 0 &&& 0x80 ≠ 0 := by
  cases form with
  | seven => exact (maskBit (UInt8.ofNat len)).1
  | sixteen => exact (maskBit 126).1
  | sixtyFour => exact (maskBit 127).1

theorem length_applyMask (key : Vector UInt8 4) (payload : Bytes) :
    (applyMask key payload).length = payload.length := List.length_mapIdx

/-- A frame with a mask, whatever its first byte, with a length that its form can write. -/
structure MaskedFrame where
  first : UInt8
  key : Vector UInt8 4
  form : LengthForm
  payload : Bytes
  length_le : payload.length ≤ form.max

/-- The lengths at which the decoder gives the connection up: over the limit, or too long
for a control frame. -/
def Frame.tooLong (settings : SettingsData) (f : Frame) : Bool :=
  (f.opcode &&& 0x08 ≠ 0 && wsControlMaxPayload < f.payload.length) ||
    settings.maxBodySize.toNat < f.payload.length

namespace MaskedFrame

def encode (f : MaskedFrame) : Bytes :=
  f.first :: (f.form.bytes f.payload.length ++ (f.key.toList ++ applyMask f.key f.payload))

/-- The reserved bits of the first byte are not looked at. -/
def frame (f : MaskedFrame) : Frame := ⟨f.first &&& 0x0F, f.first &&& 0x80 ≠ 0, f.payload⟩

theorem length_encode (f : MaskedFrame) :
    f.encode.length = f.form.size + 4 + f.payload.length := by
  have hform := f.form.length_bytes f.payload.length
  simp only [encode, List.length_cons, List.length_append, Vector.length_toList,
    length_applyMask]
  omega

/-- A complete frame is refused for its length or decoded. -/
theorem nextFrame_encode (settings : SettingsData)
    (hbody : settings.maxBodySize.toNat + 14 < 2 ^ 64) (f : MaskedFrame) (rest : Bytes) :
    nextFrame settings (f.encode ++ rest) =
      if f.frame.tooLong settings then .reject
      else .frame f.frame.opcode f.frame.fin f.frame.payload f.encode.length := by
  have hform := f.form.length_bytes f.payload.length
  have hdata : f.encode ++ rest = f.first :: (f.form.bytes f.payload.length ++
      (f.key.toList ++ (applyMask f.key f.payload ++ rest))) := by
    simp only [encode, List.cons_append, List.append_assoc]
  have hword : (UInt64.ofNat f.payload.length).toNat = f.payload.length := by
    rw [UInt64.toNat_ofNat', Nat.mod_eq_of_lt (f.length_le.trans_lt f.form.max_lt)]
  have htotal : (f.encode ++ rest).length =
      f.form.size + 4 + f.payload.length + rest.length := by
    rw [List.length_append, length_encode]
  have hdrop : (f.encode ++ rest).drop f.form.size =
      f.key.toList ++ (applyMask f.key f.payload ++ rest) := by
    rw [hdata, ← hform, List.drop_succ_cons, List.drop_left]
  have hpayload : (f.encode ++ rest).drop (f.form.size + 4) =
      applyMask f.key f.payload ++ rest := by
    rw [← List.drop_drop, hdrop, List.drop_left' (Vector.length_toList)]
  have hfirst : (f.encode ++ rest).getD 0 0 = f.first := by rw [hdata]; rfl
  have hmask : (f.encode ++ rest).getD 1 0 &&& 0x80 ≠ 0 := by
    rw [hdata]
    exact f.form.masked _ _ _
  have hlength : payloadLength (f.encode ++ rest) =
      some (UInt64.ofNat f.payload.length, f.form.size) := by
    rw [hdata]
    exact payloadLength_encode f.form _ _ _ f.length_le
  have hmax : UInt64.ofNat f.payload.length > settings.maxBodySize ↔
      settings.maxBodySize.toNat < f.payload.length := by
    rw [gt_iff_lt, UInt64.lt_iff_toNat_lt, hword]
  have hwhole : ¬ (f.encode ++ rest).length < f.encode.length := by
    rw [List.length_append]
    omega
  rw [nextFrame_eq settings hbody, if_neg (by omega), if_neg hmask, hlength]
  dsimp only
  rw [hword, hfirst, hdrop, hpayload, List.take_left' (Vector.length_toList),
    List.take_left' (length_applyMask _ _), unmask_applyMask, ← length_encode]
  simp only [hmax]
  rw [if_neg hwhole]
  unfold Frame.tooLong frame
  dsimp only
  by_cases hcontrol : (decide (f.first &&& 0x0F &&& 0x08 ≠ 0) &&
      decide (wsControlMaxPayload < f.payload.length)) = true
  · rw [if_pos hcontrol, hcontrol, Bool.true_or, if_pos rfl]
  · rw [if_neg hcontrol, Bool.eq_false_iff.mpr hcontrol, Bool.false_or]
    simp only [decide_eq_true_eq]

end MaskedFrame

namespace ClientFrame

def masked (f : ClientFrame) : MaskedFrame :=
  ⟨0x80 ||| f.opcode.code, f.key, f.form, f.payload, f.length_le⟩

theorem frame_masked (f : ClientFrame) : f.masked.frame = f.frame := by
  have hfirst : (0x80 ||| f.opcode.code) &&& 0x0F = f.opcode.code ∧
      (0x80 ||| f.opcode.code) &&& 0x80 ≠ 0 := by
    cases f.opcode <;> decide
  unfold MaskedFrame.frame masked frame
  dsimp only
  rw [hfirst.1, decide_eq_true hfirst.2]

theorem nextFrame_encode (settings : SettingsData)
    (hbody : settings.maxBodySize.toNat + 14 < 2 ^ 64) (f : ClientFrame)
    (hlen : f.payload.length ≤ settings.maxBodySize.toNat) (rest : Bytes) :
    nextFrame settings (f.encode ++ rest) =
      .frame f.opcode.code true f.payload f.encode.length := by
  have hcontrol : f.opcode.code &&& 0x08 ≠ 0 → f.payload.length ≤ wsControlMaxPayload := by
    intro hbit
    refine f.control_le ?_
    revert hbit
    cases f.opcode <;> decide
  have hshort : f.frame.tooLong settings = false := by
    unfold Frame.tooLong frame
    simp only [Bool.or_eq_false_iff, Bool.and_eq_false_iff, decide_eq_false_iff_not]
    refine ⟨?_, by omega⟩
    by_cases hbit : f.opcode.code &&& 0x08 ≠ 0
    · exact Or.inr (Nat.not_lt.mpr (hcontrol hbit))
    · exact Or.inl hbit
  have hnext := f.masked.nextFrame_encode settings hbody rest
  rw [frame_masked, hshort] at hnext
  exact hnext

theorem dispatchFrame_goesOn (s : Session) (f : ClientFrame) :
    ∃ t, s.dispatchFrame f.frame.opcode f.frame.fin f.frame.payload = (true, t) := by
  unfold Session.dispatchFrame frame
  cases f.opcode with
  | text => exact ⟨_, rfl⟩
  | binary => exact ⟨_, rfl⟩
  | ping => exact ⟨_, rfl⟩
  | pong => exact ⟨_, rfl⟩

/-- A stream of frames is dispatched frame by frame, and nothing of it is left over. -/
theorem run_encode (settings : SettingsData) (hbody : settings.maxBodySize.toNat + 14 < 2 ^ 64)
    (frames : List ClientFrame)
    (hlen : ∀ f ∈ frames, f.payload.length ≤ settings.maxBodySize.toNat) (s : Session)
    (hread : s.readBuffer.unread = frames.flatMap encode) :
    ∃ turns t, FrameRun settings s turns true t ∧
      turns.map Turn.frame = frames.map frame ∧ t.readBuffer.unread = [] := by
  induction frames generalizing s with
  | nil =>
    refine ⟨[], s, FrameRun.wait ?_, rfl, hread⟩
    rw [hread]
    rfl
  | cons f frames ih =>
    rw [List.flatMap_cons] at hread
    have hnext := nextFrame_encode settings hbody f (hlen f List.mem_cons_self)
      (frames.flatMap encode)
    rw [← hread] at hnext
    obtain ⟨t, hd⟩ := dispatchFrame_goesOn
      { s with readBuffer := s.readBuffer.advance f.encode.length } f
    have hrest : t.readBuffer.unread = frames.flatMap encode := by
      rw [FrameRun.turn_readBuffer (f := f.frame) rfl hd, BoundedQueue.unread_advance, hread,
        List.drop_left]
    obtain ⟨turns, u, hrun, hframes, hunread⟩ :=
      ih (fun g hg => hlen g (List.mem_cons_of_mem _ hg)) t hrest
    refine ⟨_, u, FrameRun.next (f := f.frame) hnext rfl hd hrun, ?_, hunread⟩
    rw [List.map_cons, List.map_cons, hframes]

end ClientFrame

/-- A call of `onMessage`, or a PONG. -/
def Obs.isReaction : Obs → Bool
  | .wsMessage _ => true
  | .frame opcode _ _ => opcode = wsOpPong
  | _ => false

/-- The reaction that the frame asks for; messages need a callback. -/
def ClientFrame.reaction (onMessage : Bool) (f : ClientFrame) : Option Obs :=
  match f.opcode with
  | .text | .binary => if onMessage then some (.wsMessage f.payload) else none
  | .ping => some (.frame wsOpPong true f.payload)
  | .pong => none

theorem filter_contextCalls (calls : List ContextCall) :
    (calls.map ContextCall.entry).filter Obs.isReaction = [] := by
  rw [List.filter_eq_nil_iff]
  intro o ho h
  obtain ⟨c, -, rfl⟩ := List.mem_map.mp ho
  cases c with
  | sendText payload => exact absurd (show wsOpText = wsOpPong from of_decide_eq_true h) (by decide)
  | sendBinary payload =>
    exact absurd (show wsOpBinary = wsOpPong from of_decide_eq_true h) (by decide)
  | close code reason =>
    exact absurd (show wsOpClose = wsOpPong from of_decide_eq_true h) (by decide)

theorem ClientFrame.entries_reaction (onMessage onClose : Bool) (f : ClientFrame) (turn : Turn)
    (hframe : turn.frame = f.frame) :
    (turn.entries onMessage onClose).filter Obs.isReaction = (f.reaction onMessage).toList := by
  unfold Turn.entries ClientFrame.reaction
  rw [hframe]
  unfold ClientFrame.frame
  dsimp only
  cases f.opcode with
  | text | binary =>
    cases onMessage with
    | false => rfl
    | true =>
      show (.wsMessage f.payload :: turn.calls.map ContextCall.entry).filter Obs.isReaction = _
      rw [List.filter_cons_of_pos rfl, filter_contextCalls]
      rfl
  | ping => rfl
  | pong => rfl

/-- Frames as clients encode them, one behind the other, are all dispatched in one call:
it uses up every byte, runs `onMessage` on the payloads of the TEXT and BINARY frames
and answers each PING with a PONG of the same payload, all in the order of the frames. -/
theorem processFrames_encode (settings : SettingsData)
    (hbody : settings.maxBodySize.toNat + 14 < 2 ^ 64) (frames : List ClientFrame)
    (hlen : ∀ f ∈ frames, f.payload.length ≤ settings.maxBodySize.toNat) (s : Session)
    (hread : s.readBuffer.unread = frames.flatMap ClientFrame.encode) :
    ∃ t os, s.processFrames settings = some (true, t) ∧ t.readBuffer.unread = [] ∧
      Sends s t os ∧
      os.filter Obs.isReaction = frames.filterMap (ClientFrame.reaction s.handlesMessages) := by
  obtain ⟨turns, t, hrun, hframes, hunread⟩ :=
    ClientFrame.run_encode settings hbody frames hlen s hread
  have hnoClose : ∀ turn ∈ turns, turn.frame.opcode = wsOpClose → s.wsState.closeSent = false := by
    intro turn hturn hop
    have hmem : turn.frame ∈ turns.map Turn.frame := List.mem_map_of_mem hturn
    rw [hframes] at hmem
    obtain ⟨f, -, hf⟩ := List.mem_map.mp hmem
    rw [← hf] at hop
    exact absurd hop f.opcode.code_ne_close
  refine ⟨t, _, ?_, hunread, hrun.sends hnoClose, ?_⟩
  · rw [Session.processFrames_eq, hrun.processTurns_eq, Option.map_some]
  · clear hnoClose hread hlen hrun hunread
    induction frames generalizing turns with
    | nil =>
      rw [List.map_nil, List.map_eq_nil_iff] at hframes
      rw [hframes]
      rfl
    | cons f frames ih =>
      cases turns with
      | nil => simp at hframes
      | cons turn turns =>
        rw [List.map_cons, List.map_cons, List.cons.injEq] at hframes
        have hrest := ih turns hframes.2
        have hturn := ClientFrame.entries_reaction s.handlesMessages s.handlesClose f turn hframes.1
        rw [List.flatMap_cons, List.filter_append, hturn, hrest, List.filterMap_cons]
        cases f.reaction s.handlesMessages <;> rfl

def pingThenText : List ClientFrame :=
  [⟨.ping, #v[1, 2, 3, 4], .seven, [104, 105], by decide, by decide⟩,
   ⟨.text, #v[9, 9, 9, 9], .sixteen, [72], by decide, by decide⟩]

theorem processFrames_pingThenText :
    ∃ (t : Session) (os : List Obs),
      ((upgradedSession ⟨none, some fun _ p => [.sendText p], none⟩).receive
        (pingThenText.flatMap ClientFrame.encode)).processFrames configJson = some (true, t) ∧
      t.readBuffer.unread = [] ∧
      os.filter Obs.isReaction = [.frame wsOpPong true [104, 105], .wsMessage [72]] := by
  obtain ⟨t, os, hprocess, hunread, -, hreactions⟩ :=
    processFrames_encode configJson (by decide) pingThenText (by decide)
      ((upgradedSession ⟨none, some fun _ p => [.sendText p], none⟩).receive
        (pingThenText.flatMap ClientFrame.encode)) (by decide +kernel)
  exact ⟨t, os, hprocess, hunread, hreactions⟩

end WarpApi

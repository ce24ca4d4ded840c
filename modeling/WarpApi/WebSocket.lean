import WarpApi.Session

/-!
WebSocket.cpp and WebSocketContext.cpp: the frame encoder, the frame decoder
and the dispatch of decoded frames to the route's callbacks.
-/
namespace WarpApi

def kWsGuid : Bytes := ascii "258EAFA5-E914-47DA-95CA-C5AB0DC85B11"

def wsControlMaxPayload : ℕ := 125

def wsOpText : UInt8 := 0x1
def wsOpBinary : UInt8 := 0x2
def wsOpClose : UInt8 := 0x8
def wsOpPing : UInt8 := 0x9
def wsOpPong : UInt8 := 0xA

/-- The eight bytes of a 64-bit length, most significant first. -/
def bigEndian64 (len : UInt64) : Bytes :=
  ([56, 48, 40, 32, 24, 16, 8, 0] : List UInt64).map fun shift => (len >>> shift).toUInt8

def frameHeader (opcode : UInt8) (fin : Bool) (len : ℕ) : Bytes :=
  ((if fin then 0x80 else 0x00) ||| (opcode &&& 0x0F)) ::
    if len ≤ 125 then [UInt8.ofNat len]
    else if len ≤ 0xFFFF then [126, UInt8.ofNat (len / 256), UInt8.ofNat len]
    else 127 :: bigEndian64 (UInt64.ofNat len)

def sendFrame (writeBuf : RingBuffer) (opcode : UInt8) (payload : Bytes) (fin : Bool) :
    RingBuffer :=
  let writeBuf := write writeBuf (frameHeader opcode fin payload.length)
  if payload.isEmpty then writeBuf else write writeBuf payload

/-- One turn of the decoding loop up to the dispatch. `overrun` marks a payload
that would be read past the received bytes. -/
inductive FrameStep
  | needMore
  | reject
  | overrun
  | frame (opcode : UInt8) (fin : Bool) (payload : Bytes) (consumed : ℕ)
  deriving DecidableEq

/-- The length field behind the first two bytes: its value and the offset after it. -/
def payloadLength (data : Bytes) : Option (UInt64 × ℕ) :=
  let len7 := data.getD 1 0 &&& 0x7F
  if len7 = 126 then
    if data.length < 4 then none
    else some ((data.getD 2 0).toUInt64 <<< 8 ||| (data.getD 3 0).toUInt64, 4)
  else if len7 = 127 then
    if data.length < 10 then none
    else some (((data.drop 2).take 8).foldl (fun n c => n <<< 8 ||| c.toUInt64) 0, 10)
  else some (len7.toUInt64, 2)

def unmask (mask payload : Bytes) : Bytes :=
  payload.mapIdx fun i c => c ^^^ mask.getD (i % 4) 0

def nextFrame (settings : SettingsData) (data : Bytes) : FrameStep :=
  if data.length < 2 then .needMore
  else
    let fin := data.getD 0 0 &&& 0x80 ≠ 0
    let opcode := data.getD 0 0 &&& 0x0F
    if data.getD 1 0 &&& 0x80 = 0 then .reject
    else match payloadLength data with
      | none => .needMore
      | some (payloadLen, offset) =>
        if opcode &&& 0x08 ≠ 0 && wsControlMaxPayload < payloadLen.toNat then .reject
        else if payloadLen > settings.maxBodySize then .reject
        else if data.length < offset + 4 then .needMore
        else if data.length < (UInt64.ofNat (offset + 4) + payloadLen).toNat then .needMore
        else if data.length < offset + 4 + payloadLen.toNat then .overrun
        else
          let mask := (data.drop offset).take 4
          let payload := (data.drop (offset + 4)).take payloadLen.toNat
          .frame opcode fin (unmask mask payload) (offset + 4 + payloadLen.toNat)

namespace Session

def wsFrameSend (s : Session) (opcode : UInt8) (payload : Bytes) (fin : Bool) : Session :=
  { s with writeBuffer := sendFrame s.writeBuffer opcode payload fin }.note
    (.frame opcode fin payload)

/-- The close payload of `WebSocketContext::close`: the code, then at most 123 bytes. -/
def closePayload (code : UInt16) (reason : Bytes) : Bytes :=
  [(code >>> 8).toUInt8, code.toUInt8] ++ reason.take 123

def contextCall (s : Session) : ContextCall → Session
  | .sendText payload => s.wsFrameSend wsOpText payload true
  | .sendBinary payload => s.wsFrameSend wsOpBinary payload true
  | .close code reason => s.wsFrameSend wsOpClose (closePayload code reason) true

def contextCalls (s : Session) (calls : List ContextCall) : Session := calls.foldl contextCall s

def protocolError : Bytes := [0x03, 0xEA]

def sendProtocolClose (s : Session) : Bool × Session :=
  let s := s.wsFrameSend wsOpClose protocolError true
  (false, { s with wsState := { s.wsState with closeSent := true } })

def runOnOpen (s : Session) (route : WebSocketRoute) : Session :=
  match route.onOpen with
  | some f => (s.note .wsOpen).contextCalls (f s.moment)
  | none => s

def runOnMessage (s : Session) (payload : Bytes) : Session :=
  match s.wsState.route.bind WebSocketRoute.onMessage with
  | some f => (s.note (.wsMessage payload)).contextCalls (f s.moment payload)
  | none => s

def runOnClose (s : Session) : Session :=
  match s.wsState.route.bind WebSocketRoute.onClose with
  | some f => (s.note .wsClose).contextCalls (f s.moment)
  | none => s

def echoClose (s : Session) (payload : Bytes) : Session :=
  if s.wsState.closeSent then s
  else
    let s := s.wsFrameSend wsOpClose (payload.take wsControlMaxPayload) true
    { s with wsState := { s.wsState with closeSent := true } }

def dispatchFrame (s : Session) (opcode : UInt8) (fin : Bool) (payload : Bytes) : Bool × Session :=
  if !fin then s.sendProtocolClose
  else if opcode = wsOpText ∨ opcode = wsOpBinary then (true, s.runOnMessage payload)
  else if opcode = wsOpPing then (true, s.wsFrameSend wsOpPong payload true)
  else if opcode = wsOpPong then (true, s)
  else if opcode = wsOpClose then (false, (s.echoClose payload).runOnClose)
  else s.sendProtocolClose

/-- `none`: a payload overran the received bytes. A frame takes at least six
bytes, so the unread bytes bound the number of turns. -/
def processFramesLoop (settings : SettingsData) : ℕ → Session → Option (Bool × Session)
  | 0, _ => none
  | turns + 1, s =>
    match nextFrame settings s.readBuffer.unread with
    | .needMore => some (true, s)
    | .reject => some (false, s)
    | .overrun => none
    | .frame opcode fin payload consumed =>
      match { s with readBuffer := s.readBuffer.advance consumed }.dispatchFrame
          opcode fin payload with
      | (true, s) => processFramesLoop settings turns s
      | (false, s) => some (false, s)

def processFrames (settings : SettingsData) (s : Session) : Option (Bool × Session) :=
  processFramesLoop settings (s.readBuffer.size + 1) s

end Session

theorem sendFrame_eq_push (rb : RingBuffer) (opcode : UInt8) (payload : Bytes) (fin : Bool) :
    sendFrame rb opcode payload fin =
      rb.push (frameHeader opcode fin payload.length ++ payload) := by
  unfold sendFrame
  dsimp only
  rw [write_eq_push, write_eq_push, BoundedQueue.push_push]
  split
  · rename_i hempty
    rw [List.isEmpty_iff.mp hempty, List.append_nil]
  · rfl

theorem sendFrame_mono (rb : RingBuffer) (opcode : UInt8) (payload : Bytes) (fin : Bool) :
    rb.written <+: (sendFrame rb opcode payload fin).written ∧
      (sendFrame rb opcode payload fin).readPos = rb.readPos := by
  rw [sendFrame_eq_push]
  exact ⟨rb.written_prefix_push _, rfl⟩

/-- Frame processing is made of frames that are sent, of notes about the callbacks, of
changes of the protocol state and of reading on: a relation that respects these
respects `processFrames`. -/
structure FrameRelation (R : Session → Session → Prop) : Prop where
  refl : ∀ s, R s s
  trans : ∀ s t u, R s t → R t u → R s u
  send : ∀ (s : Session) opcode payload fin, R s (s.wsFrameSend opcode payload fin)
  opened : ∀ s : Session, R s (s.note .wsOpen)
  message : ∀ (s : Session) payload, R s (s.note (.wsMessage payload))
  closed : ∀ s : Session, R s (s.note .wsClose)
  state : ∀ (s : Session) w, R s { s with wsState := w }
  advance : ∀ (s : Session) n, R s { s with readBuffer := s.readBuffer.advance n }

namespace FrameRelation

variable {R : Session → Session → Prop}

theorem contextCalls (h : FrameRelation R) (s : Session) (calls : List ContextCall) :
    R s (s.contextCalls calls) := by
  induction calls generalizing s with
  | nil => exact h.refl s
  | cons c cs ih =>
    have hcall : R s (s.contextCall c) := by
      cases c <;> exact h.send _ _ _ _
    exact h.trans _ _ _ hcall (ih (s.contextCall c))

theorem sendProtocolClose (h : FrameRelation R) (s : Session) : R s s.sendProtocolClose.2 :=
  h.trans _ _ _ (h.send s _ _ _) (h.state _ _)

theorem runOnOpen (h : FrameRelation R) (s : Session) (route : WebSocketRoute) :
    R s (s.runOnOpen route) := by
  unfold Session.runOnOpen
  split
  · exact h.trans _ _ _ (h.opened s) (h.contextCalls _ _)
  · exact h.refl s

theorem runOnMessage (h : FrameRelation R) (s : Session) (payload : Bytes) :
    R s (s.runOnMessage payload) := by
  unfold Session.runOnMessage
  split
  · exact h.trans _ _ _ (h.message s payload) (h.contextCalls _ _)
  · exact h.refl s

theorem runOnClose (h : FrameRelation R) (s : Session) : R s s.runOnClose := by
  unfold Session.runOnClose
  split
  · exact h.trans _ _ _ (h.closed s) (h.contextCalls _ _)
  · exact h.refl s

theorem echoClose (h : FrameRelation R) (s : Session) (payload : Bytes) :
    R s (s.echoClose payload) := by
  unfold Session.echoClose
  split
  · exact h.refl s
  · exact h.trans _ _ _ (h.send s _ _ _) (h.state _ _)

theorem dispatchFrame (h : FrameRelation R) (s : Session) (opcode : UInt8) (fin : Bool)
    (payload : Bytes) : R s (s.dispatchFrame opcode fin payload).2 := by
  unfold Session.dispatchFrame
  split_ifs
  · exact h.sendProtocolClose s
  · exact h.runOnMessage s payload
  · exact h.send s _ _ _
  · exact h.refl s
  · exact h.trans _ _ _ (h.echoClose s payload) (h.runOnClose _)
  · exact h.sendProtocolClose s

theorem processFramesLoop (h : FrameRelation R) (settings : SettingsData) (turns : ℕ)
    (s t : Session) (alive : Bool)
    (hloop : Session.processFramesLoop settings turns s = some (alive, t)) : R s t := by
  induction turns generalizing s with
  | zero => simp [Session.processFramesLoop] at hloop
  | succ turns ih =>
    rw [Session.processFramesLoop] at hloop
    split at hloop
    · simp only [Option.some.injEq, Prod.mk.injEq] at hloop
      exact hloop.2 ▸ h.refl s
    · simp only [Option.some.injEq, Prod.mk.injEq] at hloop
      exact hloop.2 ▸ h.refl s
    · simp at hloop
    · rename_i opcode fin payload consumed _
      have hstep := h.trans _ _ _ (h.advance s consumed) (h.dispatchFrame _ opcode fin payload)
      split at hloop
      · rename_i s' heq
        rw [heq] at hstep
        exact h.trans _ _ _ hstep (ih s' hloop)
      · rename_i s' heq
        rw [heq] at hstep
        simp only [Option.some.injEq, Prod.mk.injEq] at hloop
        exact hloop.2 ▸ hstep

end FrameRelation

namespace Handles

theorem wsFrameSend (s : Session) (opcode : UInt8) (payload : Bytes) (fin : Bool) :
    Handles s (s.wsFrameSend opcode payload fin) :=
  { refl s with
    written := (sendFrame_mono _ _ _ _).1
    readPos_eq := (sendFrame_mono _ _ _ _).2
    log_suffix := List.suffix_cons _ _ }

theorem frameRelation : FrameRelation Handles where
  refl := refl
  trans := fun _ _ _ => trans
  send := wsFrameSend
  opened := fun s => note s _
  message := fun s _ => note s _
  closed := fun s => note s _
  state := fun s _ => { refl s with }
  advance := fun s _ => { refl s with }

theorem runOnOpen (s : Session) (route : WebSocketRoute) : Handles s (s.runOnOpen route) :=
  frameRelation.runOnOpen s route

theorem processFramesLoop (settings : SettingsData) (turns : ℕ) (s t : Session) (alive : Bool)
    (h : Session.processFramesLoop settings turns s = some (alive, t)) : Handles s t :=
  frameRelation.processFramesLoop settings turns s t alive h

end Handles

end WarpApi

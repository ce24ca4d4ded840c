import WarpApi.CloseFrames
import WarpApi.Handshake
import WarpApi.Library.CheckedBuffer

/-!
`Session::upgradeToWebSocket` with the buffer that it copies the key into. The buffer has
64 bytes and the GUID takes 36 of them, but the validity test does not look at the length
of the key. The header lookup is arbitrary here.
-/
namespace WarpApi

open CheckedBuffer

/-- `char material[64]`, filled by the two copies; `none` when they leave it. -/
def upgradeMaterial (material : Vector UInt8 64) (wsKey : Bytes) : Option Bytes :=
  (copyTo material 0 wsKey).bind fun material =>
    (copyTo material wsKey.length kWsGuid).bind fun material =>
      view material (wsKey.length + kWsGuid.length)

namespace Session

/-- The 101 response and the switch of the protocol, up to `onOpen`. -/
def switchProtocol (s : Session) (route : WebSocketRoute) (accept : Bytes) : Session :=
  let out := write (write (write s.writeBuffer handshakePart1) accept) handshakePart2
  let s := { s with writeBuffer := out }.note
    (.handshake (handshakePart1 ++ accept ++ handshakePart2))
  { s with mode := .webSocket
           wsState := ⟨some route, false⟩
           keepAlive := true
           req := s.req.reset }

/-- `none`: a copy has left the buffer. -/
def upgradeToWebSocketIn (server : Server) (lookup : HeaderType → Bytes)
    (material : Vector UInt8 64) (s : Session) : Option (Bool × Session) :=
  match server.endpoints.getWebSocketEndpoint s.req.data.path with
  | none => some (false, s)
  | some route =>
    if validUpgrade s.req lookup then
      (upgradeMaterial material (lookup .secWebSocketKey)).map fun material =>
        (true, (s.switchProtocol route (base64Encode (server.sha1 material).toList)).runOnOpen
          route)
    else some (true, s.sendBadUpgradeResponse server)

end Session

/-- The 101 response for this key, and the frames that `onOpen` sends behind it. -/
def switchingOutput (server : Server) (route : WebSocketRoute) (wsKey : Bytes) (s : Session) :
    Bytes :=
  handshakePart1 ++ acceptKey server wsKey ++ handshakePart2 ++
    (((s.switchProtocol route (acceptKey server wsKey)).openCalls route).map
      ContextCall.frame).flatMap Frame.bytes

structure SwitchesProtocol (server : Server) (route : WebSocketRoute) (wsKey : Bytes)
    (s t : Session) : Prop where
  out : (switchingOutput server route wsKey s).length ≤ s.writeBuffer.free →
    t.writeBuffer.unread = s.writeBuffer.unread ++ switchingOutput server route wsKey s
  mode : t.mode = .webSocket
  wsState : t.wsState = ⟨some route, false⟩
  req : t.req = s.req.reset

/-- One response with the status 400, and protocol and route as they were. -/
structure RefusesUpgrade (s t : Session) : Prop where
  response : ∃ r body, r.status = 400 ∧ t.log = .response r body :: s.log ∧
    t.writeBuffer = s.writeBuffer.push (r.serialise body)
  mode : t.mode = s.mode
  wsState : t.wsState = s.wsState
  keepAlive : t.keepAlive = false

/-- Both outcomes, and no copy behind the end of the buffer. -/
structure UpgradesCorrectly (server : Server) (lookup : HeaderType → Bytes)
    (material : Vector UInt8 64) (route : WebSocketRoute) (s : Session) : Prop where
  accepted : Session.validUpgrade s.req lookup = true →
    upgradeMaterial material (lookup .secWebSocketKey) =
        some (lookup .secWebSocketKey ++ kWsGuid) ∧
      ∃ t, s.upgradeToWebSocketIn server lookup material = some (true, t) ∧
        SwitchesProtocol server route (lookup .secWebSocketKey) s t
  refused : Session.validUpgrade s.req lookup = false →
    ∃ t, s.upgradeToWebSocketIn server lookup material = some (true, t) ∧ RefusesUpgrade s t

theorem upgradeMaterial_eq (material : Vector UInt8 64) (wsKey : Bytes) :
    upgradeMaterial material wsKey =
      if wsKey.length ≤ 28 then some (wsKey ++ kWsGuid) else none := by
  have hguid : kWsGuid.length = 36 := by decide +kernel
  have hfits : wsKey.length + kWsGuid.length ≤ 64 ↔ wsKey.length ≤ 28 := by omega
  rw [upgradeMaterial, copy_copy_view]
  simp only [hfits]

/-- The sources without the buffer. -/
theorem upgradeToWebSocketIn_eq (server : Server) (lookup : HeaderType → Bytes)
    (material : Vector UInt8 64) (s : Session) (h : (lookup .secWebSocketKey).length ≤ 28) :
    s.upgradeToWebSocketIn server lookup material = some (s.upgradeToWebSocket server lookup) := by
  unfold Session.upgradeToWebSocketIn Session.upgradeToWebSocket
  cases server.endpoints.getWebSocketEndpoint s.req.data.path with
  | none => rfl
  | some route =>
    dsimp only
    split
    · rw [upgradeMaterial_eq, if_pos h]
      rfl
    · rfl

/-- Frame processing touches neither the mode nor the request. -/
theorem modeRelation :
    FrameRelation (fun s t : Session => t.mode = s.mode ∧ t.req = s.req) where
  refl := fun _ => ⟨rfl, rfl⟩
  trans := fun _ _ _ h h' => ⟨h'.1.trans h.1, h'.2.trans h.2⟩
  send := fun _ _ _ _ => ⟨rfl, rfl⟩
  opened := fun _ => ⟨rfl, rfl⟩
  message := fun _ _ => ⟨rfl, rfl⟩
  closed := fun _ => ⟨rfl, rfl⟩
  state := fun _ _ => ⟨rfl, rfl⟩
  advance := fun _ _ => ⟨rfl, rfl⟩

theorem switchesProtocol_runOnOpen (server : Server) (route : WebSocketRoute) (wsKey : Bytes)
    (s : Session) : SwitchesProtocol server route wsKey s
      ((s.switchProtocol route (acceptKey server wsKey)).runOnOpen route) := by
  have hkept := modeRelation.runOnOpen (s.switchProtocol route (acceptKey server wsKey)) route
  obtain ⟨os, hsends, hframes⟩ :=
    (s.switchProtocol route (acceptKey server wsKey)).sends_runOnOpen route
  refine ⟨fun hroom => ?_, hkept.1, ?_, hkept.2⟩
  · have hresponse : (s.switchProtocol route (acceptKey server wsKey)).writeBuffer =
        s.writeBuffer.push (handshakePart1 ++ acceptKey server wsKey ++ handshakePart2) := by
      show write (write (write s.writeBuffer handshakePart1) _) handshakePart2 = _
      rw [write_eq_push, write_eq_push, write_eq_push, BoundedQueue.push_push,
        BoundedQueue.push_push, List.append_assoc]
    rw [hsends.out, hframes, hresponse, BoundedQueue.push_push]
    exact BoundedQueue.unread_push_of_le _ _ hroom
  · exact (Session.wsState_runOnOpen _ route).trans rfl

theorem status_addHeader (r : HttpResponse) (key : HeaderType) (value : Bytes) :
    (r.addHeader key value).status = r.status := by
  unfold HttpResponse.addHeader
  dsimp only
  split_ifs <;> rfl

theorem refusesUpgrade_respond (server : Server) (s : Session) (r : HttpResponse) (body : Bytes)
    (hstatus : r.status = 400) :
    RefusesUpgrade s ({ s.respond r body with keepAlive := false }.setClosingIfIoUring server) := by
  unfold Session.setClosingIfIoUring
  cases server.backend <;>
    exact ⟨⟨r, body, hstatus, rfl, HttpResponse.setBody_eq_push _ _ _⟩, rfl, rfl, rfl⟩

theorem refusesUpgrade_sendBadUpgradeResponse (server : Server) (s : Session) :
    RefusesUpgrade s (s.sendBadUpgradeResponse server) := by
  refine refusesUpgrade_respond server s _ badUpgradeBody ?_
  rw [status_addHeader, status_addHeader]
  rfl

/-- The session is upgraded as it should be exactly when the request is refused or the
key leaves room for the GUID. -/
theorem upgradesCorrectly_iff (server : Server) (lookup : HeaderType → Bytes)
    (material : Vector UInt8 64) (route : WebSocketRoute) (s : Session)
    (hroute : server.endpoints.getWebSocketEndpoint s.req.data.path = some route) :
    UpgradesCorrectly server lookup material route s ↔
      Session.validUpgrade s.req lookup = false ∨ (lookup .secWebSocketKey).length ≤ 28 := by
  constructor
  · intro h
    by_cases hvalid : Session.validUpgrade s.req lookup = true
    · have hmaterial := (h.accepted hvalid).1
      rw [upgradeMaterial_eq] at hmaterial
      split_ifs at hmaterial with hkey
      exact Or.inr hkey
    · exact Or.inl (Bool.not_eq_true _ ▸ hvalid)
  · intro h
    constructor
    · intro hvalid
      have hkey := h.resolve_left (by simp [hvalid])
      refine ⟨by rw [upgradeMaterial_eq, if_pos hkey], _, ?_,
        switchesProtocol_runOnOpen server route (lookup .secWebSocketKey) s⟩
      simp only [Session.upgradeToWebSocketIn, hroute, hvalid, if_true, upgradeMaterial_eq,
        if_pos hkey, Option.map_some, acceptKey]
    · intro hvalid
      refine ⟨_, ?_, refusesUpgrade_sendBadUpgradeResponse server s⟩
      simp only [Session.upgradeToWebSocketIn, hroute, hvalid, Bool.false_eq_true, if_false]

def handshakeLookup (wsKey : Bytes) (key : HeaderType) : Bytes :=
  if key = .upgrade then ascii "websocket"
  else if key = .connection then ascii "Upgrade"
  else if key = .secWebSocketKey then wsKey
  else if key = .secWebSocketVersion then ascii "13"
  else []

def chatSession : Session :=
  { Session.init configJson 0 5 with
    req := (HttpRequest.init.setMethod .get).setPath (ascii "/chat") [] }

theorem upgradesCorrectly_sampleKey :
    UpgradesCorrectly chatServer (handshakeLookup sampleKey) (Vector.replicate 64 0) sampleRoute
      chatSession :=
  (upgradesCorrectly_iff chatServer (handshakeLookup sampleKey) (Vector.replicate 64 0)
    sampleRoute chatSession rfl).mpr (Or.inr (by decide +kernel))

/-- The test lets a key of 29 bytes through, and the second copy leaves the buffer. -/
theorem long_key_leaves_buffer :
    Session.validUpgrade chatSession.req (handshakeLookup (List.replicate 29 65)) = true ∧
      ¬ UpgradesCorrectly chatServer (handshakeLookup (List.replicate 29 65))
        (Vector.replicate 64 0) sampleRoute chatSession := by
  have hvalid : Session.validUpgrade chatSession.req
      (handshakeLookup (List.replicate 29 65)) = true := by decide +kernel
  refine ⟨hvalid, fun h => ?_⟩
  have hmaterial := (h.accepted hvalid).1
  have hnone : upgradeMaterial (Vector.replicate 64 0)
      (handshakeLookup (List.replicate 29 65) .secWebSocketKey) = none :=
    (upgradeMaterial_eq _ _).trans (if_neg (by decide +kernel))
  rw [hnone] at hmaterial
  simp at hmaterial

end WarpApi

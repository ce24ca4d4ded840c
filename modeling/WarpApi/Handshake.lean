import WarpApi.HandleRequest
import WarpApi.RequestGrammar

/-!
The opening handshake of a WebSocket client. A handshake request names a
registered route and carries the four headers of the protocol among any others.
`getHeader` never returns a stored value, so the validity test in
`upgradeToWebSocket` fails on every request and the session stays in HTTP mode.
-/
namespace WarpApi

/-- A header line with this name and a value that meets the test; letter case does
not matter in the name. -/
def HasField (fields : List Bytes) (name : Bytes) (test : Bytes → Prop) : Prop :=
  ∃ f ∈ fields, ∃ written value,
    splitHeader f = some (written, value) ∧ iequalsSmall written name ∧ test value

/-- A complete request that a WebSocket client sends to a registered path. -/
structure HandshakeRequest (server : Server) where
  request : CompleteRequest server.settings
  path : Bytes
  route : WebSocketRoute
  key : Bytes
  registered : server.endpoints.getWebSocketEndpoint path = some route
  line_eq : request.head.line = ascii "GET " ++ path ++ ascii " HTTP/1.1"
  path_plain : space ∉ path ∧ questionMark ∉ path
  upgrade : HasField request.head.fields HeaderType.upgrade.httpName fun v =>
    iequalsSmall v websocketUpgradeHeader
  connection : HasField request.head.fields HeaderType.connection.httpName fun v =>
    iequalsSmall v upgradeHeader
  version : HasField request.head.fields HeaderType.secWebSocketVersion.httpName fun v =>
    v = wsVersion13Header
  secKey : HasField request.head.fields HeaderType.secWebSocketKey.httpName fun v => v = key
  key_length : key.length = 24
  key_base64 : ∀ c ∈ key, c ∈ base64Table ∨ c = 61

/-- One request arrives on a fresh session, is parsed and handled. -/
def serveFirst (server : Server) (self : SessionId) (socket : ℤ) (received : Bytes) : Session :=
  match ((Session.init server.settings self socket).receive received).attemptRequest
      server.settings with
  | (true, s) => s.handleRequest server
  | (false, s) => s

/-- The session has answered with the 101 response for this key and talks WebSocket. -/
structure Upgraded (server : Server) (route : WebSocketRoute) (key : Bytes) (s : Session) :
    Prop where
  written : handshakePart1 ++ acceptKey server key ++ handshakePart2 <+: s.writeBuffer.written
  mode : s.mode = .webSocket
  wsState : s.wsState = ⟨some route, false⟩
  opened : route.onOpen.isSome → Obs.wsOpen ∈ s.log

theorem mode_serveFirst (server : Server) (self : SessionId) (socket : ℤ) (received : Bytes) :
    (serveFirst server self socket received).mode = .http := by
  have hmode := Session.mode_attemptRequest server.settings
    ((Session.init server.settings self socket).receive received)
  unfold serveFirst
  split <;> rename_i s heq <;> rw [heq] at hmode
  · rw [(Answers.handleRequest server s).mode_eq, hmode]
    rfl
  · rw [hmode]
    rfl

/-- No handshake request is ever answered with the upgrade. -/
theorem handshake_never_upgraded (server : Server) (self : SessionId) (socket : ℤ)
    (h : HandshakeRequest server) :
    ¬ Upgraded server h.route h.key (serveFirst server self socket h.request.bytes) := by
  intro hup
  have hmode := hup.mode
  rw [mode_serveFirst] at hmode
  exact absurd hmode (by decide)

def sampleRoute : WebSocketRoute := ⟨none, none, none⟩

def chatServer : Server :=
  { bareServer .epoll with
    endpoints := ⟨fun _ => InkixTree.empty, InkixTree.empty.insert (ascii "/chat") sampleRoute⟩ }

def sampleKey : Bytes := ascii "dGhlIHNhbXBsZSBub25jZQ=="

def sampleHead : Head where
  line := ascii "GET /chat HTTP/1.1"
  requestLine := ⟨ascii "GET", ascii "/chat", [], httpVersion⟩
  fields := [ascii "Host: example", ascii "Upgrade: websocket", ascii "Connection: Upgrade",
    ascii "Sec-WebSocket-Version: 13", ascii "Sec-WebSocket-Key: " ++ sampleKey]
  line_cr := by decide
  line_ok := by decide
  fields_ok := by decide +kernel

def sampleHandshake : HandshakeRequest chatServer where
  request := ⟨sampleHead, [], 0, by decide +kernel, rfl, by decide +kernel⟩
  path := ascii "/chat"
  route := sampleRoute
  key := sampleKey
  registered := rfl
  line_eq := by decide
  path_plain := by decide +kernel
  upgrade := ⟨ascii "Upgrade: websocket", by decide, ascii "Upgrade", ascii "websocket",
    by decide +kernel⟩
  connection := ⟨ascii "Connection: Upgrade", by decide, ascii "Connection", ascii "Upgrade",
    by decide +kernel⟩
  version := ⟨ascii "Sec-WebSocket-Version: 13", by decide, ascii "Sec-WebSocket-Version",
    ascii "13", by decide +kernel⟩
  secKey := ⟨ascii "Sec-WebSocket-Key: " ++ sampleKey, by decide, ascii "Sec-WebSocket-Key",
    sampleKey, by decide +kernel⟩
  key_length := by decide
  key_base64 := by decide +kernel

/-- This client gets the 400 response and no switch of the protocol. -/
theorem sample_handshake_rejected :
    ¬ Upgraded chatServer sampleRoute sampleKey
        (serveFirst chatServer 0 5 sampleHandshake.request.bytes) ∧
      ascii "HTTP/1.1 400 Bad Request" <+:
        (serveFirst chatServer 0 5 sampleHandshake.request.bytes).writeBuffer.written := by
  constructor
  · intro hup
    have hmode := hup.mode
    rw [mode_serveFirst] at hmode
    exact absurd hmode (by decide)
  · decide +kernel

end WarpApi

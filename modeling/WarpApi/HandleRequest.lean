import WarpApi.ParseRequest
import WarpApi.WebSocket

/-!
`Session::handleRequest`, `Session::upgradeToWebSocket` and the loop
`while (parseRequest()) handleRequest();`. The header lookup is a parameter of
the handshake, so that it can also be studied apart from `HttpRequest::getHeader`.
-/
namespace WarpApi

/-- The bits that send a request to `upgradeToWebSocket`. -/
def upgradeMask : ℕ :=
  HeaderType.upgrade.val ||| HeaderType.secWebSocketKey.val ||| HeaderType.secWebSocketVersion.val

def handshakePart1 : Bytes :=
  ascii "HTTP/1.1 101 Switching Protocols" ++ crlf ++ ascii "Upgrade: websocket" ++ crlf ++
    ascii "Connection: Upgrade" ++ crlf ++ ascii "Sec-WebSocket-Accept: "

def handshakePart2 : Bytes := crlf ++ crlf

def acceptKey (server : Server) (wsKey : Bytes) : Bytes :=
  base64Encode (server.sha1 (wsKey ++ kWsGuid)).toList

def badUpgradeBody : Bytes := ascii "Invalid WebSocket upgrade request."
def notFoundBody : Bytes := ascii "Endpoint not found."
def serverErrorBody (what : Bytes) : Bytes := ascii "Internal Server error: " ++ what

/-- The effect of one call on the response object itself. -/
def HttpResponse.apply (r : HttpResponse) : ResponseCall → HttpResponse
  | .setStatus status => r.setStatus status
  | .setVersion version => r.setVersion version
  | .addHeader key value => r.addHeader key value
  | .setBody _ => r

namespace Session

/-- `response.setBody(body)` on a response bound to the write buffer. -/
def respond (s : Session) (r : HttpResponse) (body : Bytes) : Session :=
  { s with writeBuffer := r.setBody body s.writeBuffer }.note (.response r body)

def sendBadUpgradeResponse (server : Server) (s : Session) : Session :=
  let response := (((HttpResponse.init.setStatus 400).setVersion httpVersion).addHeader
    .server appInfoHeader).addHeader .connection closeConnHeader
  let s := s.respond response badUpgradeBody
  { s with keepAlive := false }.setClosingIfIoUring server

def validUpgrade (req : HttpRequest) (lookup : HeaderType → Bytes) : Bool :=
  req.data.method = .get &&
    iequalsSmall (lookup .upgrade) websocketUpgradeHeader &&
    iequalsSmall (lookup .connection) upgradeHeader &&
    !(lookup .secWebSocketKey).isEmpty &&
    lookup .secWebSocketVersion == wsVersion13Header

/-- The 101 response and the switch of the protocol. -/
def acceptUpgrade (server : Server) (s : Session) (route : WebSocketRoute) (wsKey : Bytes) :
    Session :=
  let accept := acceptKey server wsKey
  let out := write (write (write s.writeBuffer handshakePart1) accept) handshakePart2
  let s := { s with writeBuffer := out }.note
    (.handshake (handshakePart1 ++ accept ++ handshakePart2))
  { s with mode := .webSocket
           wsState := ⟨some route, false⟩
           keepAlive := true
           req := s.req.reset }.runOnOpen route

/-- `false`: no WebSocket route is registered for the path. -/
def upgradeToWebSocket (server : Server) (lookup : HeaderType → Bytes) (s : Session) :
    Bool × Session :=
  match server.endpoints.getWebSocketEndpoint s.req.data.path with
  | none => (false, s)
  | some route =>
    if validUpgrade s.req lookup then
      (true, s.acceptUpgrade server route (lookup .secWebSocketKey))
    else (true, s.sendBadUpgradeResponse server)

def responseCall (r : HttpResponse) (s : Session) (c : ResponseCall) : HttpResponse × Session :=
  match c with
  | .setBody body => (r, s.respond r body)
  | _ => (r.apply c, s)

def responseCalls : HttpResponse → Session → List ResponseCall → HttpResponse × Session
  | r, s, [] => (r, s)
  | r, s, c :: cs =>
    let (r, s) := responseCall r s c
    responseCalls r s cs

/-- The answer to a `std::exception`: the response object is used once more. -/
def respondError (server : Server) (s : Session) (r : HttpResponse) (what : Bytes) : Session :=
  let r := r.setStatus 500
  if s.keepAlive then
    { s.setClosingIfIoUring server with keepAlive := false }.respond
      (r.addHeader .connection closeConnHeader) (serverErrorBody what)
  else s.respond r (serverErrorBody what)

def runHandler (s : Session) (r : HttpResponse) (ran : HandlerRun) : HttpResponse × Session :=
  let (r, s) := responseCalls r (s.note (.handlerRan s.keepAlive ran)) ran.calls
  (r, s.note (.handlerDone r.strayAccesses))

/-- `endpoint->exec` inside the try block. -/
def execEndpoint (server : Server) (s : Session) (r : HttpResponse) (endpoint : Endpoint) :
    Session :=
  let ran := endpoint.exec s.moment s.req
  let (r, s) := s.runHandler r ran
  match ran.thrown with
  | none => s
  | some what => s.respondError server r what

def baseResponse : HttpResponse :=
  (HttpResponse.init.setVersion httpVersion).addHeader .server appInfoHeader

/-- The response object as the handler gets it. -/
def openResponse (keepAlive : Bool) : HttpResponse :=
  baseResponse.addHeader .connection (if keepAlive then keepAliveHeader else closeConnHeader)

def routeRequest (server : Server) (s : Session) (r : HttpResponse) : Session :=
  match server.endpoints.getEndpoint s.req.data.method s.req.data.path with
  | some endpoint => s.execEndpoint server r endpoint
  | none => s.respond (r.setStatus 404) notFoundBody

def handleRequestWith (server : Server) (lookup : HttpRequest → HeaderType → Bytes)
    (s : Session) : Session :=
  if hasHeader s.req.presentHeaders upgradeMask then
    (s.upgradeToWebSocket server (lookup s.req)).2
  else if s.keepAlive then s.routeRequest server (openResponse true)
  else (s.setClosingIfIoUring server).routeRequest server (openResponse false)

def handleRequest (server : Server) (s : Session) : Session :=
  s.handleRequestWith server HttpRequest.getHeader

/-- One `parseRequest`, as the log records it. -/
def attemptRequest (settings : SettingsData) (s : Session) : Bool × Session :=
  let unread := s.readBuffer.unread
  let before := s.req
  match (s.note (.attempt unread)).parseRequest settings with
  | (false, s) => (false, s)
  | (true, s) => (true, s.note (.handled before s.req unread))

/-- `while (parseRequest()) handleRequest();` with at most `turns` requests. `none`:
the loop has not come to an end by then. -/
def parseLoop (settings : SettingsData) (handle : Session → Session) :
    ℕ → Session → Option Session
  | 0, _ => none
  | turns + 1, s =>
    match s.attemptRequest settings with
    | (false, s) => some s
    | (true, s) => parseLoop settings handle turns (handle s)

/-- A request takes at least one byte unless its length wraps around to zero, and
then the loop never ends. -/
def drain (settings : SettingsData) (handle : Session → Session) (s : Session) : Option Session :=
  parseLoop settings handle (s.readBuffer.size + 1) s

/-- What both backends do with the bytes that a recv brought. `false`: the frame
loop gives the connection up. -/
def processInput (server : Server) (s : Session) : Option (Bool × Session) :=
  match s.mode with
  | .http => (s.drain server.settings (handleRequest server)).map fun s => (true, s)
  | .webSocket => s.processFrames server.settings

end Session

namespace Session

theorem attemptRequest_of_none {settings : SettingsData} {s : Session}
    (h : (parseBytes settings s.readBuffer.unread s.req s.keepAlive).consumed = none) :
    s.attemptRequest settings =
      (false, { s with
        req := (parseBytes settings s.readBuffer.unread s.req s.keepAlive).req
        keepAlive := (parseBytes settings s.readBuffer.unread s.req s.keepAlive).keepAlive
        log := .attempt s.readBuffer.unread :: s.log }) := by
  simp only [attemptRequest, parseRequest, note, h]

theorem attemptRequest_of_some {settings : SettingsData} {s : Session} {n : ℕ}
    (h : (parseBytes settings s.readBuffer.unread s.req s.keepAlive).consumed = some n) :
    s.attemptRequest settings =
      (true, { s with
        req := (parseBytes settings s.readBuffer.unread s.req s.keepAlive).req
        keepAlive := (parseBytes settings s.readBuffer.unread s.req s.keepAlive).keepAlive
        readBuffer := s.readBuffer.advance n
        log := .handled s.req (parseBytes settings s.readBuffer.unread s.req s.keepAlive).req
          s.readBuffer.unread :: .attempt s.readBuffer.unread :: s.log }) := by
  simp only [attemptRequest, parseRequest, note, h]

theorem mode_attemptRequest (settings : SettingsData) (s : Session) :
    (s.attemptRequest settings).2.mode = s.mode := by
  cases h : (parseBytes settings s.readBuffer.unread s.req s.keepAlive).consumed with
  | none => rw [attemptRequest_of_none h]
  | some n => rw [attemptRequest_of_some h]

end Session

/-- A relation that parsing and handling respect relates the ends of the loop. -/
theorem parseLoop_relates (R : Session → Session → Prop) {settings : SettingsData}
    {handle : Session → Session} (htrans : ∀ s t u, R s t → R t u → R s u)
    (hattempt : ∀ s, R s (s.attemptRequest settings).2) (hhandle : ∀ s, R s (handle s))
    (turns : ℕ) (s t : Session) (h : s.parseLoop settings handle turns = some t) : R s t := by
  induction turns generalizing s with
  | zero => simp [Session.parseLoop] at h
  | succ turns ih =>
    have hs := hattempt s
    rw [Session.parseLoop] at h
    split at h <;> rename_i s' heq <;> rw [heq] at hs
    · exact Option.some.inj h ▸ hs
    · exact htrans _ _ _ hs (htrans _ _ _ (hhandle s') (ih _ h))

/-- Answering is made of responses, of the two notes about a handler, and of the
decision to close: a relation that respects these respects `handleRequest`. -/
structure AnswerRelation (server : Server) (R : Session → Session → Prop) : Prop where
  refl : ∀ s, R s s
  trans : ∀ s t u, R s t → R t u → R s u
  respond : ∀ (s : Session) r body, R s (s.respond r body)
  ran : ∀ (s : Session) ran, R s (s.note (.handlerRan s.keepAlive ran))
  done : ∀ (s : Session) strays, R s (s.note (.handlerDone strays))
  keepAliveOff : ∀ s : Session, R s { s with keepAlive := false }
  closing : ∀ s, R s (s.setClosingIfIoUring server)

/-- `getHeader` returns nothing, so no upgrade request is ever found valid. -/
theorem upgradeToWebSocket_eq (server : Server) (s : Session) :
    (s.upgradeToWebSocket server s.req.getHeader).2 =
      match server.endpoints.getWebSocketEndpoint s.req.data.path with
      | none => s
      | some _ => s.sendBadUpgradeResponse server := by
  have hinvalid : Session.validUpgrade s.req s.req.getHeader = false := by
    simp [Session.validUpgrade, HttpRequest.getHeader_eq_nil]
  rw [Session.upgradeToWebSocket, hinvalid]
  cases server.endpoints.getWebSocketEndpoint s.req.data.path <;> rfl

namespace AnswerRelation

variable {server : Server} {R : Session → Session → Prop}

theorem responseCalls (h : AnswerRelation server R) (r : HttpResponse) (s : Session)
    (calls : List ResponseCall) : R s (Session.responseCalls r s calls).2 := by
  induction calls generalizing r s with
  | nil => exact h.refl s
  | cons c cs ih =>
    have hcall : R s (Session.responseCall r s c).2 := by
      cases c with
      | setBody body => exact h.respond s r body
      | _ => exact h.refl s
    exact h.trans _ _ _ hcall (ih _ _)

theorem runHandler (h : AnswerRelation server R) (s : Session) (r : HttpResponse)
    (ran : HandlerRun) : R s (s.runHandler r ran).2 :=
  h.trans _ _ _ (h.trans _ _ _ (h.ran s ran) (h.responseCalls r _ ran.calls)) (h.done _ _)

theorem sendBadUpgradeResponse (h : AnswerRelation server R) (s : Session) :
    R s (s.sendBadUpgradeResponse server) :=
  h.trans _ _ _ (h.trans _ _ _ (h.respond s _ _) (h.keepAliveOff _)) (h.closing _)

theorem respondError (h : AnswerRelation server R) (s : Session) (r : HttpResponse)
    (what : Bytes) : R s (s.respondError server r what) := by
  unfold Session.respondError
  dsimp only
  split
  · exact h.trans _ _ _ (h.trans _ _ _ (h.closing s) (h.keepAliveOff _)) (h.respond _ _ _)
  · exact h.respond s _ _

theorem routeRequest (h : AnswerRelation server R) (s : Session) (r : HttpResponse) :
    R s (s.routeRequest server r) := by
  unfold Session.routeRequest Session.execEndpoint
  dsimp only
  split
  · split
    · exact h.runHandler s r _
    · exact h.trans _ _ _ (h.runHandler s r _) (h.respondError _ _ _)
  · exact h.respond s _ _

theorem handleRequest (h : AnswerRelation server R) (s : Session) :
    R s (s.handleRequest server) := by
  unfold Session.handleRequest Session.handleRequestWith
  split
  · rw [upgradeToWebSocket_eq]
    split
    · exact h.refl s
    · exact h.sendBadUpgradeResponse s
  · split
    · exact h.routeRequest s _
    · exact h.trans _ _ _ (h.closing s) (h.routeRequest _ _)

end AnswerRelation

/-- Both protocols: what parsing, answering and frames respect, input respects. -/
theorem processInput_relates {server : Server} {R : Session → Session → Prop}
    (hanswer : AnswerRelation server R) (hframe : FrameRelation R)
    (hattempt : ∀ s, R s (s.attemptRequest server.settings).2) {s t : Session} {alive : Bool}
    (h : s.processInput server = some (alive, t)) : R s t := by
  unfold Session.processInput at h
  split at h
  · simp only [Option.map_eq_some_iff, Prod.mk.injEq] at h
    obtain ⟨t', hdrain, -, rfl⟩ := h
    exact parseLoop_relates R hanswer.trans hattempt hanswer.handleRequest _ s t' hdrain
  · exact hframe.processFramesLoop server.settings _ s t alive h

namespace Handles

theorem answerRelation (server : Server) : AnswerRelation server Handles where
  refl := refl
  trans := fun _ _ _ => trans
  respond := fun s r body =>
    { refl s with
      written := (r.setBody_mono body s.writeBuffer).1
      readPos_eq := (r.setBody_mono body s.writeBuffer).2
      log_suffix := List.suffix_cons _ _ }
  ran := fun s _ => note s _
  done := fun s _ => note s _
  keepAliveOff := fun s => { refl s with }
  closing := setClosingIfIoUring server

theorem acceptUpgrade (server : Server) (s : Session) (route : WebSocketRoute) (wsKey : Bytes) :
    Handles s (s.acceptUpgrade server route wsKey) := by
  have hwrite : Handles s
      { s with
        writeBuffer := (write (write (write s.writeBuffer handshakePart1)
          (acceptKey server wsKey)) handshakePart2)
        log := .handshake (handshakePart1 ++ acceptKey server wsKey ++ handshakePart2) :: s.log
        mode := .webSocket
        wsState := ⟨some route, false⟩
        keepAlive := true
        req := s.req.reset } := by
    refine { refl s with written := ?_, readPos_eq := ?_, log_suffix := List.suffix_cons _ _ }
    · simp only [write_eq_push, BoundedQueue.push_push]
      exact BoundedQueue.written_prefix_push _ _
    · simp only [write_eq_push]
      rfl
  exact hwrite.trans (runOnOpen _ route)

theorem handleRequestWith (server : Server) (lookup : HttpRequest → HeaderType → Bytes)
    (s : Session) : Handles s (s.handleRequestWith server lookup) := by
  unfold Session.handleRequestWith Session.upgradeToWebSocket
  split
  · cases server.endpoints.getWebSocketEndpoint s.req.data.path with
    | none => exact refl s
    | some route =>
      dsimp only
      split
      · exact acceptUpgrade server s route _
      · exact (answerRelation server).sendBadUpgradeResponse s
  · split
    · exact (answerRelation server).routeRequest s _
    · exact ((answerRelation server).closing s).trans ((answerRelation server).routeRequest _ _)

theorem attemptRequest (settings : SettingsData) (s : Session) :
    Handles s (s.attemptRequest settings).2 := by
  have hparse := (note s (.attempt s.readBuffer.unread)).trans
    (parseRequest settings (s.note (.attempt s.readBuffer.unread)))
  unfold Session.attemptRequest
  dsimp only
  split <;> rename_i s' heq <;> rw [heq] at hparse
  · exact hparse
  · exact hparse.trans (note _ _)

theorem parseLoop (settings : SettingsData) (handle : Session → Session)
    (hhandle : ∀ s, Handles s (handle s)) (turns : ℕ) (s t : Session)
    (h : Session.parseLoop settings handle turns s = some t) : Handles s t :=
  parseLoop_relates Handles (fun _ _ _ => trans) (attemptRequest settings) hhandle turns s t h

theorem processInput (server : Server) (s t : Session) (alive : Bool)
    (h : s.processInput server = some (alive, t)) : Handles s t :=
  processInput_relates (answerRelation server) frameRelation (attemptRequest server.settings) h

end Handles

/-- What answering a request leaves alone besides, and what it notes. `getHeader`
returns nothing, so no request is ever upgraded and the protocol state is kept. -/
structure Answers (s t : Session) : Prop where
  req_eq : t.req = s.req
  readBuffer_eq : t.readBuffer = s.readBuffer
  mode_eq : t.mode = s.mode
  wsState_eq : t.wsState = s.wsState
  capacity_eq : t.writeBuffer.capacity = s.writeBuffer.capacity
  entries : NewEntries (fun o => o.isAnswer = true) s t
  flag : t.keepAlive = s.keepAlive ∨ t.keepAlive = false

namespace Answers

theorem refl (s : Session) : Answers s s :=
  ⟨rfl, rfl, rfl, rfl, rfl, NewEntries.of_log_eq rfl, Or.inl rfl⟩

theorem trans {s t u : Session} (h : Answers s t) (h' : Answers t u) : Answers s u where
  req_eq := h'.req_eq.trans h.req_eq
  readBuffer_eq := h'.readBuffer_eq.trans h.readBuffer_eq
  mode_eq := h'.mode_eq.trans h.mode_eq
  wsState_eq := h'.wsState_eq.trans h.wsState_eq
  capacity_eq := h'.capacity_eq.trans h.capacity_eq
  entries := h.entries.trans h'.entries
  flag := h'.flag.elim (fun he => h.flag.imp he.trans he.trans) Or.inr

theorem setClosingIfIoUring (server : Server) (s : Session) :
    Answers s (s.setClosingIfIoUring server) := by
  unfold Session.setClosingIfIoUring
  cases server.backend <;> exact ⟨rfl, rfl, rfl, rfl, rfl, .of_log_eq rfl, Or.inl rfl⟩

theorem answerRelation (server : Server) : AnswerRelation server Answers where
  refl := refl
  trans := fun _ _ _ => trans
  respond := fun s r body =>
    ⟨rfl, rfl, rfl, rfl, r.capacity_setBody body s.writeBuffer, .of_cons rfl rfl, Or.inl rfl⟩
  ran := fun _ _ => ⟨rfl, rfl, rfl, rfl, rfl, .of_cons rfl rfl, Or.inl rfl⟩
  done := fun _ _ => ⟨rfl, rfl, rfl, rfl, rfl, .of_cons rfl rfl, Or.inl rfl⟩
  keepAliveOff := fun _ => ⟨rfl, rfl, rfl, rfl, rfl, .of_log_eq rfl, Or.inr rfl⟩
  closing := setClosingIfIoUring server

theorem handleRequest (server : Server) (s : Session) : Answers s (s.handleRequest server) :=
  (answerRelation server).handleRequest s

end Answers

theorem processInput_http {server : Server} {s t : Session} {alive : Bool}
    (hmode : s.mode = .http) (h : s.processInput server = some (alive, t)) :
    alive = true ∧ t.mode = .http := by
  unfold Session.processInput at h
  rw [hmode] at h
  simp only [Option.map_eq_some_iff, Prod.mk.injEq] at h
  obtain ⟨u, hdrain, rfl, rfl⟩ := h
  refine ⟨rfl, Eq.trans ?_ hmode⟩
  exact parseLoop_relates (fun s t => t.mode = s.mode) (fun _ _ _ h h' => h'.trans h)
    (Session.mode_attemptRequest server.settings)
    (fun s => (Answers.handleRequest server s).mode_eq) _ s u hdrain

namespace Session

theorem keepAlive_setClosingIfIoUring (server : Server) (s : Session) :
    (s.setClosingIfIoUring server).keepAlive = s.keepAlive := by
  unfold setClosingIfIoUring
  cases server.backend <;> rfl

/-- A handler cannot reach the flag. -/
theorem keepAlive_runHandler (s : Session) (r : HttpResponse) (ran : HandlerRun) :
    (s.runHandler r ran).2.keepAlive = s.keepAlive := by
  have hcalls : ∀ (calls : List ResponseCall) (r : HttpResponse) (s : Session),
      (responseCalls r s calls).2.keepAlive = s.keepAlive := by
    intro calls
    induction calls with
    | nil => exact fun r s => rfl
    | cons c cs ih =>
      intro r s
      have hcall : (responseCall r s c).2.keepAlive = s.keepAlive := by
        cases c <;> rfl
      exact (ih _ _).trans hcall
  exact hcalls ran.calls r (s.note (.handlerRan s.keepAlive ran))

end Session

end WarpApi

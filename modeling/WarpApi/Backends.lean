import WarpApi.FrameRuns
import WarpApi.HandleRequest

/-!
The part of a session that decides what it answers. The descriptor, the tick of the
timer and the fields of the io_uring build are not looked at when received bytes are
processed, and the read buffer only by the parser and the decoder. So two sessions that
agree in the other fields answer alike, also when one of them is in the other backend.
-/
namespace WarpApi

/-- The same application: at most the backend differs. -/
structure SameApplication (a b : Server) : Prop where
  settings_eq : b.settings = a.settings
  endpoints_eq : b.endpoints = a.endpoints
  sha1_eq : b.sha1 = a.sha1

/-- The two sessions agree in all that answering looks at. -/
structure Alike (s t : Session) : Prop where
  self_eq : t.self = s.self
  req_eq : t.req = s.req
  keepAlive_eq : t.keepAlive = s.keepAlive
  mode_eq : t.mode = s.mode
  wsState_eq : t.wsState = s.wsState
  writeBuffer_eq : t.writeBuffer = s.writeBuffer
  log_eq : t.log = s.log

namespace Alike

variable {a b : Server} {s t : Session}

theorem moment_eq (h : Alike s t) : t.moment = s.moment := by
  unfold Session.moment
  rw [h.self_eq, h.log_eq]

theorem note (h : Alike s t) (o : Obs) : Alike (s.note o) (t.note o) :=
  { h with log_eq := congrArg (List.cons o) h.log_eq }

theorem setClosingIfIoUring (h : Alike s t) :
    Alike (s.setClosingIfIoUring a) (t.setClosingIfIoUring b) := by
  unfold Session.setClosingIfIoUring
  cases a.backend <;> cases b.backend <;> exact { h with }

theorem keepAliveOff (h : Alike s t) :
    Alike { s with keepAlive := false } { t with keepAlive := false } :=
  { h with keepAlive_eq := rfl }

theorem respond (h : Alike s t) (r : HttpResponse) (body : Bytes) :
    Alike (s.respond r body) (t.respond r body) :=
  { h with
    writeBuffer_eq := by
      simp only [Session.respond, Session.note, h.writeBuffer_eq]
    log_eq := by
      show Obs.response r body :: t.log = _
      rw [h.log_eq]
      rfl }

theorem wsFrameSend (h : Alike s t) (opcode : UInt8) (payload : Bytes) (fin : Bool) :
    Alike (s.wsFrameSend opcode payload fin) (t.wsFrameSend opcode payload fin) :=
  { h with
    writeBuffer_eq := congrArg (fun rb => sendFrame rb opcode payload fin) h.writeBuffer_eq
    log_eq := by
      show Obs.frame opcode fin payload :: t.log = _
      rw [h.log_eq]
      rfl }

theorem responseCalls (h : Alike s t) (r : HttpResponse) (calls : List ResponseCall) :
    (Session.responseCalls r t calls).1 = (Session.responseCalls r s calls).1 ∧
      Alike (Session.responseCalls r s calls).2 (Session.responseCalls r t calls).2 := by
  induction calls generalizing r s t with
  | nil => exact ⟨rfl, h⟩
  | cons c calls ih =>
    cases c with
    | setBody body => exact ih (h.respond r body) r
    | setStatus status => exact ih h _
    | setVersion version => exact ih h _
    | addHeader key value => exact ih h _

theorem runHandler (h : Alike s t) (r : HttpResponse) (ran : HandlerRun) :
    (t.runHandler r ran).1 = (s.runHandler r ran).1 ∧
      Alike (s.runHandler r ran).2 (t.runHandler r ran).2 := by
  unfold Session.runHandler
  rw [h.keepAlive_eq]
  obtain ⟨hresponse, halike⟩ := (h.note (.handlerRan s.keepAlive ran)).responseCalls r ran.calls
  refine ⟨hresponse, ?_⟩
  have hnoted := halike.note (.handlerDone
    (Session.responseCalls r (s.note (.handlerRan s.keepAlive ran)) ran.calls).1.strayAccesses)
  dsimp only
  rw [hresponse]
  exact hnoted

theorem respondError (h : Alike s t) (r : HttpResponse) (what : Bytes) :
    Alike (s.respondError a r what) (t.respondError b r what) := by
  unfold Session.respondError
  rw [h.keepAlive_eq]
  dsimp only
  split
  · exact h.setClosingIfIoUring.keepAliveOff.respond _ _
  · exact h.respond _ _

theorem execEndpoint (h : Alike s t) (r : HttpResponse) (endpoint : Endpoint) :
    Alike (s.execEndpoint a r endpoint) (t.execEndpoint b r endpoint) := by
  unfold Session.execEndpoint
  rw [h.moment_eq, h.req_eq]
  obtain ⟨hresponse, halike⟩ := h.runHandler r (endpoint.exec s.moment s.req)
  dsimp only
  cases (endpoint.exec s.moment s.req).thrown with
  | none => exact halike
  | some what =>
    dsimp only
    rw [hresponse]
    exact halike.respondError _ what

theorem routeRequest (happ : SameApplication a b) (h : Alike s t) (r : HttpResponse) :
    Alike (s.routeRequest a r) (t.routeRequest b r) := by
  unfold Session.routeRequest
  rw [happ.endpoints_eq, h.req_eq]
  cases a.endpoints.getEndpoint s.req.data.method s.req.data.path with
  | some endpoint => exact h.execEndpoint r endpoint
  | none => exact h.respond _ _

theorem sendBadUpgradeResponse (h : Alike s t) :
    Alike (s.sendBadUpgradeResponse a) (t.sendBadUpgradeResponse b) :=
  ((h.respond _ _).keepAliveOff).setClosingIfIoUring

/-- Both sessions find the same header fields, so both are upgraded or none is. -/
theorem handleRequest (happ : SameApplication a b) (h : Alike s t) :
    Alike (s.handleRequest a) (t.handleRequest b) := by
  unfold Session.handleRequest Session.handleRequestWith
  rw [h.req_eq, h.keepAlive_eq]
  split
  · rw [← h.req_eq, upgradeToWebSocket_eq, h.req_eq, upgradeToWebSocket_eq, happ.endpoints_eq]
    cases a.endpoints.getWebSocketEndpoint s.req.data.path with
    | none => exact h
    | some route => exact h.sendBadUpgradeResponse
  · split
    · exact h.routeRequest happ _
    · exact h.setClosingIfIoUring.routeRequest happ _

theorem contextCalls (h : Alike s t) (calls : List ContextCall) :
    Alike (s.contextCalls calls) (t.contextCalls calls) := by
  induction calls generalizing s t with
  | nil => exact h
  | cons c calls ih =>
    have hcall : Alike (s.contextCall c) (t.contextCall c) := by
      cases c <;> exact h.wsFrameSend _ _ _
    exact ih hcall

theorem sendProtocolClose (h : Alike s t) :
    Alike s.sendProtocolClose.2 t.sendProtocolClose.2 :=
  { h.wsFrameSend wsOpClose Session.protocolError true with
    wsState_eq := congrArg (fun w : WsState => { w with closeSent := true }) h.wsState_eq }

theorem runOnMessage (h : Alike s t) (payload : Bytes) :
    Alike (s.runOnMessage payload) (t.runOnMessage payload) := by
  unfold Session.runOnMessage
  rw [h.wsState_eq, h.moment_eq]
  cases s.wsState.route.bind WebSocketRoute.onMessage with
  | none => exact h
  | some f => exact (h.note _).contextCalls _

theorem runOnClose (h : Alike s t) : Alike s.runOnClose t.runOnClose := by
  unfold Session.runOnClose
  rw [h.wsState_eq, h.moment_eq]
  cases s.wsState.route.bind WebSocketRoute.onClose with
  | none => exact h
  | some f => exact (h.note _).contextCalls _

theorem echoClose (h : Alike s t) (payload : Bytes) :
    Alike (s.echoClose payload) (t.echoClose payload) := by
  unfold Session.echoClose
  rw [h.wsState_eq]
  split
  · exact h
  · exact { h.wsFrameSend wsOpClose (payload.take wsControlMaxPayload) true with
      wsState_eq := congrArg (fun w : WsState => { w with closeSent := true }) h.wsState_eq }

theorem dispatchFrame (h : Alike s t) (opcode : UInt8) (fin : Bool) (payload : Bytes) :
    (t.dispatchFrame opcode fin payload).1 = (s.dispatchFrame opcode fin payload).1 ∧
      Alike (s.dispatchFrame opcode fin payload).2 (t.dispatchFrame opcode fin payload).2 := by
  unfold Session.dispatchFrame
  split_ifs
  · exact ⟨rfl, h.sendProtocolClose⟩
  · exact ⟨rfl, h.runOnMessage payload⟩
  · exact ⟨rfl, h.wsFrameSend _ _ _⟩
  · exact ⟨rfl, h⟩
  · exact ⟨rfl, (h.echoClose payload).runOnClose⟩
  · exact ⟨rfl, h.sendProtocolClose⟩

end Alike

structure AlikeInput (s t : Session) : Prop extends Alike s t where
  readBuffer_eq : t.readBuffer = s.readBuffer

namespace AlikeInput

variable {a b : Server} {s t : Session}

theorem handleRequest (happ : SameApplication a b) (h : AlikeInput s t) :
    AlikeInput (s.handleRequest a) (t.handleRequest b) :=
  { h.toAlike.handleRequest happ with
    readBuffer_eq := by
      rw [(Answers.handleRequest b t).readBuffer_eq, (Answers.handleRequest a s).readBuffer_eq,
        h.readBuffer_eq] }

theorem attemptRequest (settings : SettingsData) (h : AlikeInput s t) :
    (t.attemptRequest settings).1 = (s.attemptRequest settings).1 ∧
      AlikeInput (s.attemptRequest settings).2 (t.attemptRequest settings).2 := by
  have hparse : parseBytes settings t.readBuffer.unread t.req t.keepAlive =
      parseBytes settings s.readBuffer.unread s.req s.keepAlive := by
    rw [h.readBuffer_eq, h.req_eq, h.keepAlive_eq]
  cases hconsumed : (parseBytes settings s.readBuffer.unread s.req s.keepAlive).consumed with
  | none =>
    rw [Session.attemptRequest_of_none hconsumed,
      Session.attemptRequest_of_none ((congrArg ParseResult.consumed hparse).trans hconsumed),
      hparse, h.readBuffer_eq, h.log_eq]
    exact ⟨rfl, { h with req_eq := rfl, keepAlive_eq := rfl, log_eq := rfl, readBuffer_eq := rfl }⟩
  | some n =>
    rw [Session.attemptRequest_of_some hconsumed,
      Session.attemptRequest_of_some ((congrArg ParseResult.consumed hparse).trans hconsumed),
      hparse, h.readBuffer_eq, h.log_eq, h.req_eq]
    exact ⟨rfl, { h with req_eq := rfl, keepAlive_eq := rfl, log_eq := rfl, readBuffer_eq := rfl }⟩

theorem parseLoop (happ : SameApplication a b) (turns : ℕ) (h : AlikeInput s t) :
    Option.Rel AlikeInput (s.parseLoop a.settings (Session.handleRequest a) turns)
      (t.parseLoop b.settings (Session.handleRequest b) turns) := by
  rw [happ.settings_eq]
  induction turns generalizing s t with
  | zero => exact Option.Rel.none
  | succ turns ih =>
    obtain ⟨hfst, hsnd⟩ := h.attemptRequest a.settings
    unfold Session.parseLoop
    cases hs : s.attemptRequest a.settings with
    | mk taken s' =>
      cases ht : t.attemptRequest a.settings with
      | mk taken' t' =>
        rw [hs, ht] at hfst hsnd
        obtain rfl : taken' = taken := hfst
        cases taken' with
        | false => exact Option.Rel.some hsnd
        | true => exact ih (hsnd.handleRequest happ)

theorem processFramesLoop (settings : SettingsData) (turns : ℕ) (h : AlikeInput s t) :
    Option.Rel (fun out out' => out'.1 = out.1 ∧ AlikeInput out.2 out'.2)
      (Session.processFramesLoop settings turns s)
      (Session.processFramesLoop settings turns t) := by
  induction turns generalizing s t with
  | zero => exact Option.Rel.none
  | succ turns ih =>
    unfold Session.processFramesLoop
    rw [h.readBuffer_eq]
    cases nextFrame settings s.readBuffer.unread with
    | needMore => exact Option.Rel.some ⟨rfl, h⟩
    | reject => exact Option.Rel.some ⟨rfl, h⟩
    | overrun => exact Option.Rel.none
    | frame opcode fin payload consumed =>
      have hadvanced : Alike { s with readBuffer := s.readBuffer.advance consumed }
          { t with readBuffer := s.readBuffer.advance consumed } := { h with }
      obtain ⟨hfst, hsnd⟩ := hadvanced.dispatchFrame opcode fin payload
      have hbuffers := Session.readBuffer_dispatchFrame
        { s with readBuffer := s.readBuffer.advance consumed } opcode fin payload
      have hbuffert := Session.readBuffer_dispatchFrame
        { t with readBuffer := s.readBuffer.advance consumed } opcode fin payload
      dsimp only
      cases hs : { s with readBuffer := s.readBuffer.advance consumed }.dispatchFrame
          opcode fin payload with
      | mk alive s' =>
        cases ht : { t with readBuffer := s.readBuffer.advance consumed }.dispatchFrame
            opcode fin payload with
        | mk alive' t' =>
          rw [hs] at hfst hsnd hbuffers
          rw [ht] at hfst hsnd hbuffert
          obtain rfl : alive' = alive := hfst
          have halike : AlikeInput s' t' :=
            { hsnd with readBuffer_eq := hbuffert.trans hbuffers.symm }
          cases alive' with
          | false => exact Option.Rel.some ⟨rfl, halike⟩
          | true => exact ih halike

end AlikeInput

/-- The two backends process the same bytes in the same way: they come to an end together,
give the connection up together, and are left with the same request object, buffers,
protocol state and log, whatever their descriptors, timers and operations in flight. -/
theorem processInput_alike {a b : Server} (happ : SameApplication a b) {s t : Session}
    (h : AlikeInput s t) :
    Option.Rel (fun out out' => out'.1 = out.1 ∧ AlikeInput out.2 out'.2)
      (s.processInput a) (t.processInput b) := by
  unfold Session.processInput
  rw [h.mode_eq]
  cases s.mode with
  | http =>
    have hloop := h.parseLoop happ (s.readBuffer.size + 1)
    unfold Session.drain
    rw [h.readBuffer_eq]
    generalize s.parseLoop a.settings (Session.handleRequest a) (s.readBuffer.size + 1) = x at hloop
    generalize t.parseLoop b.settings (Session.handleRequest b) (s.readBuffer.size + 1) = y at hloop
    cases hloop with
    | none => exact Option.Rel.none
    | some halike => exact Option.Rel.some ⟨rfl, halike⟩
  | webSocket =>
    have hloop := h.processFramesLoop a.settings (s.readBuffer.size + 1)
    unfold Session.processFrames
    rw [h.readBuffer_eq, happ.settings_eq]
    exact hloop

theorem processInput_alike_get :
    Option.Rel (fun out out' => out'.1 = out.1 ∧ AlikeInput out.2 out'.2)
      ((receiving configJson (ascii "GET / HTTP/1.1\r\n\r\n")).processInput (bareServer .epoll))
      ({ receiving configJson (ascii "GET / HTTP/1.1\r\n\r\n") with
          socket := 9, lastActivityTick := 1000 }.processInput (bareServer .ioUring)) := by
  have happ : SameApplication (bareServer .epoll) (bareServer .ioUring) := ⟨rfl, rfl, rfl⟩
  exact processInput_alike happ ⟨⟨rfl, rfl, rfl, rfl, rfl, rfl, rfl⟩, rfl⟩

end WarpApi

import WarpApi.Handshake

/-!
What becomes of the bytes behind a handshake request. The header lookup is
arbitrary here. The protocol mode is looked at once for each received chunk,
outside of the loop `while (parseRequest()) handleRequest();`, so the loop goes on
with `parseRequest` after the request that switched the mode.
-/
namespace WarpApi

/-- `Session::processInput` with any header lookup. -/
def Session.processInputWith (server : Server) (lookup : HttpRequest → HeaderType → Bytes)
    (s : Session) : Option (Bool × Session) :=
  match s.mode with
  | .http =>
    (s.drain server.settings (handleRequestWith server lookup)).map fun s => (true, s)
  | .webSocket => s.processFrames server.settings

theorem Session.processInputWith_getHeader (server : Server) (s : Session) :
    s.processInputWith server HttpRequest.getHeader = s.processInput server := rfl

/-- The states in which the loop calls `handleRequest`. -/
inductive CallsHandler (settings : SettingsData) (handle : Session → Session) :
    Session → Session → Prop
  | now {s s' : Session} (h : s.attemptRequest settings = (true, s')) :
      CallsHandler settings handle s s'
  | later {s s' u : Session} (h : s.attemptRequest settings = (true, s'))
      (htail : CallsHandler settings handle (handle s') u) : CallsHandler settings handle s u

/-- `upgradeToWebSocket` accepts the request. -/
def Upgrades (server : Server) (lookup : HttpRequest → HeaderType → Bytes) (req : HttpRequest) :
    Prop :=
  hasHeader req.presentHeaders upgradeMask = true ∧
    (server.endpoints.getWebSocketEndpoint req.data.path).isSome = true ∧
      Session.validUpgrade req (lookup req) = true

/-- Once `handleRequest` has left the session in WebSocket mode, `parseRequest` is not
called again, and all that is left of the chunk goes through `processFrames`. -/
def HandsOver (server : Server) (lookup : HttpRequest → HeaderType → Bytes) (s : Session)
    (alive : Bool) (t : Session) : Prop :=
  ∀ s', CallsHandler server.settings (Session.handleRequestWith server lookup) s s' →
    (s'.handleRequestWith server lookup).mode = .webSocket →
    (∀ new, t.log = new ++ (s'.handleRequestWith server lookup).log →
      ∀ unread, Obs.attempt unread ∉ new) ∧
    (s'.handleRequestWith server lookup).processFrames server.settings = some (alive, t)

theorem mode_contextCalls (s : Session) (calls : List ContextCall) :
    (s.contextCalls calls).mode = s.mode := by
  induction calls generalizing s with
  | nil => rfl
  | cons c calls ih =>
    have hcall : (s.contextCall c).mode = s.mode := by
      cases c <;> rfl
    exact (ih (s.contextCall c)).trans hcall

theorem mode_acceptUpgrade (server : Server) (s : Session) (route : WebSocketRoute)
    (wsKey : Bytes) : (s.acceptUpgrade server route wsKey).mode = .webSocket := by
  unfold Session.acceptUpgrade Session.runOnOpen
  dsimp only
  cases route.onOpen with
  | none => rfl
  | some f => exact mode_contextCalls _ _

theorem mode_of_upgrades (server : Server) (lookup : HttpRequest → HeaderType → Bytes)
    (s : Session) (h : Upgrades server lookup s.req) :
    (s.handleRequestWith server lookup).mode = .webSocket := by
  obtain ⟨hmask, hroute, hvalid⟩ := h
  obtain ⟨route, hroute⟩ := Option.isSome_iff_exists.mp hroute
  unfold Session.handleRequestWith Session.upgradeToWebSocket
  rw [if_pos hmask, hroute, hvalid]
  exact mode_acceptUpgrade server s route _

theorem mode_of_not_upgrades (server : Server) (lookup : HttpRequest → HeaderType → Bytes)
    (s : Session) (h : ¬ Upgrades server lookup s.req) :
    (s.handleRequestWith server lookup).mode = s.mode := by
  unfold Session.handleRequestWith Session.upgradeToWebSocket
  by_cases hmask : hasHeader s.req.presentHeaders upgradeMask = true
  · rw [if_pos hmask]
    cases hroute : server.endpoints.getWebSocketEndpoint s.req.data.path with
    | none => rfl
    | some route =>
      dsimp only
      rw [if_neg fun hvalid => h ⟨hmask, by rw [hroute]; rfl, hvalid⟩]
      exact ((Answers.answerRelation server).sendBadUpgradeResponse s).mode_eq
  · rw [if_neg hmask]
    split
    · exact ((Answers.answerRelation server).routeRequest s _).mode_eq
    · exact (((Answers.answerRelation server).routeRequest _ _).mode_eq).trans
        ((Answers.answerRelation server).closing s).mode_eq

namespace CallsHandler

variable {settings : SettingsData} {handle : Session → Session}

theorem first (s : Session) (h : (s.attemptRequest settings).1 = true) :
    CallsHandler settings handle s (s.attemptRequest settings).2 := now (Prod.ext h rfl)

/-- Behind every request the loop goes on. -/
theorem loop_goes_on {s s' t : Session} (h : CallsHandler settings handle s s') (turns : ℕ)
    (hloop : s.parseLoop settings handle turns = some t) :
    ∃ turns, (handle s').parseLoop settings handle turns = some t := by
  induction h generalizing turns with
  | now h =>
    cases turns with
    | zero => simp [Session.parseLoop] at hloop
    | succ turns =>
      rw [Session.parseLoop, h] at hloop
      exact ⟨turns, hloop⟩
  | later h htail ih =>
    cases turns with
    | zero => simp [Session.parseLoop] at hloop
    | succ turns =>
      rw [Session.parseLoop, h] at hloop
      exact ih turns hloop

theorem mode_eq {server : Server} {lookup : HttpRequest → HeaderType → Bytes} {s s' : Session}
    (h : CallsHandler settings (Session.handleRequestWith server lookup) s s')
    (hmode : s.mode = .http)
    (hnone : ∀ u, CallsHandler settings (Session.handleRequestWith server lookup) s u →
      ¬ Upgrades server lookup u.req) : s'.mode = .http := by
  induction h with
  | @now s s' h =>
    have hkept := s.mode_attemptRequest settings
    rw [h, hmode] at hkept
    exact hkept
  | @later s s' u h htail ih =>
    have hkept := s.mode_attemptRequest settings
    rw [h, hmode] at hkept
    refine ih ?_ fun v hv => hnone v (later h hv)
    rw [mode_of_not_upgrades server lookup s' (hnone s' (now h))]
    exact hkept

end CallsHandler

theorem parseLoop_attempts (settings : SettingsData) (handle : Session → Session)
    (hhandle : ∀ s, Handles s (handle s)) (turns : ℕ) (s t : Session)
    (h : s.parseLoop settings handle turns = some t) :
    ∃ new unread, t.log = new ++ s.log ∧ Obs.attempt unread ∈ new := by
  cases turns with
  | zero => simp [Session.parseLoop] at h
  | succ turns =>
    rw [Session.parseLoop] at h
    have hfirst : ∃ more, (s.attemptRequest settings).2.log =
        (more ++ [.attempt s.readBuffer.unread]) ++ s.log := by
      cases hparse : (parseBytes settings s.readBuffer.unread s.req s.keepAlive).consumed with
      | none => exact ⟨[], by rw [Session.attemptRequest_of_none hparse]; rfl⟩
      | some n => exact ⟨[_], by rw [Session.attemptRequest_of_some hparse]; rfl⟩
    obtain ⟨more, hmore⟩ := hfirst
    have hrest : (s.attemptRequest settings).2.log <:+ t.log := by
      cases hattempt : s.attemptRequest settings with
      | mk again u =>
        rw [hattempt] at h
        cases again with
        | false => exact (Option.some.inj h) ▸ List.suffix_refl _
        | true =>
          exact ((hhandle u).trans
            (Handles.parseLoop settings handle hhandle turns (handle u) t h)).log_suffix
    obtain ⟨rest, hrest⟩ := hrest
    refine ⟨rest ++ (more ++ [.attempt s.readBuffer.unread]), s.readBuffer.unread, ?_, by simp⟩
    rw [← hrest, hmore]
    simp only [List.append_assoc]

/-- The handling of a chunk that contains an upgraded request never hands over. -/
theorem not_handsOver_of_upgrades (server : Server)
    (lookup : HttpRequest → HeaderType → Bytes) (s s' t : Session) (alive : Bool)
    (hmode : s.mode = .http) (hrun : s.processInputWith server lookup = some (alive, t))
    (hcall : CallsHandler server.settings (Session.handleRequestWith server lookup) s s')
    (hup : Upgrades server lookup s'.req) : ¬ HandsOver server lookup s alive t := by
  intro hover
  unfold Session.processInputWith at hrun
  rw [hmode] at hrun
  simp only [Option.map_eq_some_iff, Prod.mk.injEq] at hrun
  obtain ⟨t', hdrain, -, rfl⟩ := hrun
  obtain ⟨turns, hloop⟩ := hcall.loop_goes_on _ hdrain
  obtain ⟨new, unread, hlog, hmem⟩ := parseLoop_attempts server.settings _
    (Handles.handleRequestWith server lookup) turns _ t' hloop
  exact (hover s' hcall (mode_of_upgrades server lookup s' hup)).1 new hlog unread hmem

/-- Bytes behind a handshake are handed over exactly in the chunks that upgrade nothing:
where a request is upgraded, `parseRequest` is called on what follows it. -/
theorem handsOver_iff (server : Server) (lookup : HttpRequest → HeaderType → Bytes)
    (s t : Session) (chunk : Bytes) (alive : Bool) (hmode : s.mode = .http)
    (hrun : (s.receive chunk).processInputWith server lookup = some (alive, t)) :
    HandsOver server lookup (s.receive chunk) alive t ↔
      ∀ s', CallsHandler server.settings (Session.handleRequestWith server lookup)
        (s.receive chunk) s' → ¬ Upgrades server lookup s'.req := by
  constructor
  · intro hover s' hcall hup
    have hreceived : (s.receive chunk).mode = .http := hmode
    exact not_handsOver_of_upgrades server lookup _ s' t alive hreceived hrun hcall hup hover
  · intro hnone s' hcall hupgraded
    have hhttp := hcall.mode_eq (show (s.receive chunk).mode = .http from hmode) hnone
    rw [mode_of_not_upgrades server lookup s' (hnone s' hcall), hhttp] at hupgraded
    exact absurd hupgraded (by decide)

def sampleLookup (_ : HttpRequest) : HeaderType → Bytes
  | .upgrade => ascii "websocket"
  | .connection => ascii "Upgrade"
  | .secWebSocketKey => sampleKey
  | .secWebSocketVersion => ascii "13"
  | _ => []

def maskedPing : Bytes := [0x89, 0x80, 0, 0, 0, 0]

def refusedPost : Bytes :=
  ascii "POST /chat HTTP/1.1\r\nUpgrade: websocket\r\nConnection: Upgrade\r\n" ++
    ascii "Sec-WebSocket-Version: 13\r\nSec-WebSocket-Key: " ++ sampleKey ++ crlf ++ crlf

def refusedPostAndPing : Session := receiving configJson (refusedPost ++ maskedPing)

/-- Its bits send it to `upgradeToWebSocket`, which finds every field and refuses the method. -/
theorem handsOver_refusedPost :
    ∃ alive t, refusedPostAndPing.processInputWith chatServer sampleLookup = some (alive, t) ∧
      (refusedPostAndPing.attemptRequest configJson).1 = true ∧
      hasHeader (refusedPostAndPing.attemptRequest configJson).2.req.presentHeaders upgradeMask =
        true ∧
      HandsOver chatServer sampleLookup refusedPostAndPing alive t := by
  have hsome : (refusedPostAndPing.processInputWith chatServer sampleLookup).isSome = true := by
    decide +kernel
  obtain ⟨⟨alive, t⟩, hrun⟩ := Option.isSome_iff_exists.mp hsome
  refine ⟨alive, t, hrun, by decide +kernel, by decide +kernel, ?_⟩
  refine (handsOver_iff chatServer sampleLookup (Session.init configJson 0 5) t
    (refusedPost ++ maskedPing) alive rfl hrun).mpr fun s' hcall => ?_
  have hrefused : ¬ Upgrades chatServer sampleLookup
      (refusedPostAndPing.attemptRequest configJson).2.req := by
    unfold Upgrades
    decide +kernel
  have hlast : (((refusedPostAndPing.attemptRequest configJson).2.handleRequestWith chatServer
      sampleLookup).attemptRequest configJson).1 = false := by decide +kernel
  cases hcall with
  | now h =>
    rw [show s' = (refusedPostAndPing.attemptRequest configJson).2 from (congrArg Prod.snd h).symm]
    exact hrefused
  | @later _ u _ h htail =>
    rw [show (refusedPostAndPing.attemptRequest configJson).2 = u from congrArg Prod.snd h] at hlast
    cases htail with
    | now h' => exact absurd (hlast.symm.trans (congrArg Prod.fst h')) Bool.false_ne_true
    | later h' => exact absurd (hlast.symm.trans (congrArg Prod.fst h')) Bool.false_ne_true

/-- A handshake and a PING that arrive in one chunk. -/
def handshakeAndPing : Session :=
  (Session.init configJson 0 5).receive (sampleHandshake.request.bytes ++ maskedPing)

/-- The PING stays in the read buffer: the session has switched to WebSocket, and
`parseRequest` has been called on the frame. -/
theorem ping_behind_handshake_not_processed :
    ∃ alive t, handshakeAndPing.processInputWith chatServer sampleLookup = some (alive, t) ∧
      t.mode = .webSocket ∧ t.readBuffer.unread = maskedPing ∧
      ¬ HandsOver chatServer sampleLookup handshakeAndPing alive t := by
  have hout : (handshakeAndPing.processInputWith chatServer sampleLookup).map
      (fun out => (out.2.mode, out.2.readBuffer.unread)) = some (.webSocket, maskedPing) := by
    decide +kernel
  have hattempt : (handshakeAndPing.attemptRequest chatServer.settings).1 = true := by
    decide +kernel
  have hup : Upgrades chatServer sampleLookup
      (handshakeAndPing.attemptRequest chatServer.settings).2.req := by
    unfold Upgrades
    decide +kernel
  obtain ⟨⟨alive, t⟩, hrun, ht⟩ := Option.map_eq_some_iff.mp hout
  obtain ⟨hmode, hunread⟩ := Prod.mk.inj ht
  exact ⟨alive, t, hrun, hmode, hunread, not_handsOver_of_upgrades chatServer sampleLookup
    handshakeAndPing _ t alive rfl hrun (CallsHandler.first handshakeAndPing hattempt) hup⟩

end WarpApi

import WarpApi.HandleRequest

/-!
How many responses one call of `handleRequest` appends. The log tells the
responses that were written and the header-table indices that were out of
bounds; `Appends` follows both through the calls of the sources.
-/
namespace WarpApi

def responseOf : Obs → Option (HttpResponse × Bytes)
  | .response r body => some (r, body)
  | _ => none

/-- The responses in a piece of the log, oldest first. -/
def responsesOf (log : List Obs) : List (HttpResponse × Bytes) := log.reverse.filterMap responseOf

/-- Indices behind the header arrays that were used. -/
def straysOf (log : List Obs) : List ℕ :=
  log.flatMap fun
    | .response r _ => r.strayAccesses
    | .handlerDone strays => strays
    | _ => []

def serialiseAll (rs : List (HttpResponse × Bytes)) : Bytes :=
  (rs.map fun r => r.1.serialise r.2).flatten

/-- Between s and t these responses were written, and all of them were appended
if there was room. -/
structure Appends (s t : Session) (rs : List (HttpResponse × Bytes)) (strays : List ℕ) : Prop where
  log : ∃ new, t.log = new ++ s.log ∧ responsesOf new = rs ∧ straysOf new = strays
  written : (serialiseAll rs).length ≤ s.writeBuffer.free →
    t.writeBuffer = s.writeBuffer.push (serialiseAll rs)

/-- Exactly one complete response was appended, and no header was stored or looked
up outside the arrays. -/
def AnsweredOnce (s t : Session) : Prop :=
  ∃ new r body, t.log = new ++ s.log ∧ responsesOf new = [(r, body)] ∧ straysOf new = [] ∧
    t.writeBuffer.written = s.writeBuffer.written ++ r.serialise body

namespace Appends

theorem refl (s : Session) : Appends s s [] [] :=
  ⟨⟨[], rfl, rfl, rfl⟩, fun _ => (BoundedQueue.push_nil _).symm⟩

theorem trans {s t u : Session} {rs rs' : List (HttpResponse × Bytes)} {strays strays' : List ℕ}
    (h : Appends s t rs strays) (h' : Appends t u rs' strays') :
    Appends s u (rs ++ rs') (strays' ++ strays) := by
  obtain ⟨new, hlog, hrs, hstrays⟩ := h.log
  obtain ⟨new', hlog', hrs', hstrays'⟩ := h'.log
  refine ⟨⟨new' ++ new, ?_, ?_, ?_⟩, ?_⟩
  · rw [hlog', hlog, List.append_assoc]
  · rw [← hrs, ← hrs', responsesOf, List.reverse_append, List.filterMap_append]
    rfl
  · rw [← hstrays, ← hstrays', straysOf, List.flatMap_append]
    rfl
  · intro hroom
    have hall : serialiseAll (rs ++ rs') = serialiseAll rs ++ serialiseAll rs' := by
      simp only [serialiseAll, List.map_append, List.flatten_append]
    rw [hall, List.length_append] at hroom
    have ht := h.written (by omega)
    have hfree : (serialiseAll rs').length ≤ t.writeBuffer.free := by
      rw [ht, BoundedQueue.free_push_of_le _ _ (by omega)]
      omega
    rw [h'.written hfree, ht, BoundedQueue.push_push, hall]

theorem of_eq {s t : Session} (hlog : t.log = s.log) (hbuf : t.writeBuffer = s.writeBuffer) :
    Appends s t [] [] :=
  ⟨⟨[], hlog, rfl, rfl⟩, fun _ => hbuf.trans (BoundedQueue.push_nil _).symm⟩

theorem note (s : Session) (o : Obs) (h : responseOf o = none) :
    Appends s (s.note o) [] (straysOf [o]) := by
  refine ⟨⟨[o], rfl, ?_, rfl⟩, fun _ => (BoundedQueue.push_nil _).symm⟩
  simp only [responsesOf, List.reverse_singleton, List.filterMap_cons, h, List.filterMap_nil]

theorem respond (s : Session) (r : HttpResponse) (body : Bytes) :
    Appends s (s.respond r body) [(r, body)] r.strayAccesses := by
  refine ⟨⟨[.response r body], rfl, rfl, by simp [straysOf]⟩, fun _ => ?_⟩
  simp only [serialiseAll, List.map_cons, List.map_nil, List.flatten_cons, List.flatten_nil,
    List.append_nil]
  exact HttpResponse.setBody_eq_push r body _

theorem setClosingIfIoUring (server : Server) (s : Session) :
    Appends s (s.setClosingIfIoUring server) [] [] := by
  unfold Session.setClosingIfIoUring
  cases server.backend <;> exact of_eq rfl rfl

/-- The log decides how many responses there were. -/
theorem answeredOnce_iff {s t : Session} {rs : List (HttpResponse × Bytes)} {strays : List ℕ}
    (h : Appends s t rs strays) (hroom : (serialiseAll rs).length ≤ s.writeBuffer.free) :
    AnsweredOnce s t ↔ rs.length = 1 ∧ strays = [] := by
  obtain ⟨new, hlog, hrs, hstrays⟩ := h.log
  constructor
  · rintro ⟨new', r, body, hlog', hrs', hstrays', -⟩
    have heq : new' = new := by
      rw [hlog] at hlog'
      exact (List.append_cancel_right hlog').symm
    subst heq
    rw [← hrs, ← hstrays, hrs', hstrays']
    exact ⟨rfl, rfl⟩
  · rintro ⟨hone, rfl⟩
    obtain ⟨⟨r, body⟩, rfl⟩ := List.length_eq_one_iff.mp hone
    refine ⟨new, r, body, hlog, hrs, hstrays, ?_⟩
    rw [h.written hroom, BoundedQueue.written_push_of_le _ _ hroom]
    simp [serialiseAll]

end Appends

namespace HttpResponse

/-- The headers that these calls add stay inside the two arrays. -/
def InTable (r : HttpResponse) (calls : List ResponseCall) : Prop :=
  (calls.foldl apply r).strayAccesses = []

instance (r : HttpResponse) (calls : List ResponseCall) : Decidable (r.InTable calls) :=
  inferInstanceAs (Decidable (_ = []))

theorem strayAccesses_addHeader (r : HttpResponse) (key : HeaderType) (value : Bytes) :
    r.strayAccesses <:+ (r.addHeader key value).strayAccesses := by
  unfold addHeader
  dsimp only
  split_ifs
  · exact List.suffix_refl _
  · exact List.suffix_cons _ _
  · exact List.suffix_refl _
  · exact List.suffix_cons _ _

theorem strayAccesses_apply (r : HttpResponse) (c : ResponseCall) :
    r.strayAccesses <:+ (r.apply c).strayAccesses := by
  cases c with
  | addHeader key value => exact strayAccesses_addHeader r key value
  | _ => exact List.suffix_refl _

theorem strayAccesses_foldl (r : HttpResponse) (calls : List ResponseCall) :
    r.strayAccesses <:+ (calls.foldl apply r).strayAccesses := by
  induction calls generalizing r with
  | nil => exact List.suffix_refl _
  | cons c cs ih => exact (strayAccesses_apply r c).trans (ih _)

end HttpResponse

def ResponseCall.isSetBody : ResponseCall → Bool
  | .setBody _ => true
  | _ => false

/-- The calls write one response for each `setBody`, and what leaves the arrays
shows in the response object at the end. -/
theorem appends_responseCalls (r : HttpResponse) (s : Session) (calls : List ResponseCall) :
    (Session.responseCalls r s calls).1 = calls.foldl HttpResponse.apply r ∧
      ∃ rs strays, Appends s (Session.responseCalls r s calls).2 rs strays ∧
        rs.length = calls.countP ResponseCall.isSetBody ∧ (r.InTable calls → strays = []) := by
  induction calls generalizing r s with
  | nil => exact ⟨rfl, [], [], Appends.refl s, rfl, fun _ => rfl⟩
  | cons c cs ih =>
    obtain ⟨hfst, rs, strays, happ, hlen, hin⟩ := ih (Session.responseCall r s c).1
      (Session.responseCall r s c).2
    have happly : (Session.responseCall r s c).1 = r.apply c := by cases c <;> rfl
    rw [happly] at hin
    refine ⟨hfst.trans (by rw [happly]; rfl), ?_⟩
    cases c with
    | setBody body =>
      refine ⟨_, _, (Appends.respond s r body).trans happ, ?_, fun h => ?_⟩
      · rw [List.length_append, hlen, List.countP_cons_of_pos rfl]
        simp [Nat.add_comm]
      · have hnow : r.strayAccesses = [] := by
          have hsuffix := HttpResponse.strayAccesses_foldl r (.setBody body :: cs)
          rw [h] at hsuffix
          exact List.suffix_nil.mp hsuffix
        rw [hin h, hnow]
        rfl
    | _ =>
      refine ⟨rs, strays, happ, hlen.trans ?_, hin⟩
      rw [List.countP_cons_of_neg (by simp [ResponseCall.isSetBody])]

theorem appends_runHandler (r : HttpResponse) (s : Session) (ran : HandlerRun) :
    (s.runHandler r ran).1 = ran.calls.foldl HttpResponse.apply r ∧
      ∃ rs strays, Appends s (s.runHandler r ran).2 rs strays ∧
        rs.length = ran.calls.countP ResponseCall.isSetBody ∧
          (strays = [] ↔ r.InTable ran.calls) := by
  have hstart := Appends.note s (.handlerRan s.keepAlive ran) rfl
  obtain ⟨hfst, rs, strays, happ, hlen, hin⟩ := appends_responseCalls r
    (s.note (.handlerRan s.keepAlive ran)) ran.calls
  have hdone := Appends.note (Session.responseCalls r (s.note (.handlerRan s.keepAlive ran))
    ran.calls).2 (.handlerDone (Session.responseCalls r (s.note (.handlerRan s.keepAlive ran))
    ran.calls).1.strayAccesses) rfl
  refine ⟨hfst, _, _, (hstart.trans happ).trans hdone, ?_, ?_⟩
  · simpa using hlen
  · have hnow : straysOf [.handlerDone (Session.responseCalls r
        (s.note (.handlerRan s.keepAlive ran)) ran.calls).1.strayAccesses] =
        (ran.calls.foldl HttpResponse.apply r).strayAccesses := by
      rw [hfst]
      simp [straysOf]
    rw [hnow]
    constructor
    · exact fun h => (List.append_eq_nil_iff.mp h).1
    · intro h
      rw [hin h, h]
      rfl

/-- A handler that returns has to call `setBody` once, and one that throws must not
call it at all, because the error response follows. -/
def HandlerRun.WritesOnce (keepAlive : Bool) (ran : HandlerRun) : Prop :=
  match ran.thrown with
  | none =>
    ran.calls.countP ResponseCall.isSetBody = 1 ∧
      (Session.openResponse keepAlive).InTable ran.calls
  | some _ =>
    ran.calls.countP ResponseCall.isSetBody = 0 ∧
      (Session.openResponse keepAlive).InTable
        (ran.calls ++ if keepAlive then [.addHeader .connection closeConnHeader] else [])

/-- The calls on the response keep to its arrays, the one of the error response too. -/
def HandlerRun.Confined (keepAlive : Bool) (ran : HandlerRun) : Prop :=
  (Session.openResponse keepAlive).InTable
    (ran.calls ++
      if ran.thrown.isSome && keepAlive then [.addHeader .connection closeConnHeader] else [])

def Server.Confined (server : Server) : Prop :=
  ∀ method path endpoint, server.endpoints.getEndpoint method path = some endpoint →
    ∀ moment req keepAlive, (endpoint.exec moment req).Confined keepAlive

theorem HandlerRun.writesOnce_iff (keepAlive : Bool) (ran : HandlerRun) :
    ran.WritesOnce keepAlive ↔
      ran.calls.countP ResponseCall.isSetBody = (if ran.thrown.isSome then 0 else 1) ∧
        ran.Confined keepAlive := by
  unfold WritesOnce Confined
  cases ran.thrown with
  | none => simp
  | some what => simp

/-- The requests that get one response: an upgrade request needs a route, and a
handler has to write once. -/
def GetsOne (server : Server) (s : Session) : Prop :=
  if hasHeader s.req.presentHeaders upgradeMask then
    (server.endpoints.getWebSocketEndpoint s.req.data.path).isSome = true
  else
    ∀ endpoint, server.endpoints.getEndpoint s.req.data.method s.req.data.path = some endpoint →
      (endpoint.exec s.moment s.req).WritesOnce s.keepAlive

theorem appends_respondError (server : Server) (s : Session) (r : HttpResponse) (what : Bytes) :
    ∃ rs strays, Appends s (s.respondError server r what) rs strays ∧ rs.length = 1 ∧
      strays =
        (if s.keepAlive then r.addHeader .connection closeConnHeader else r).strayAccesses := by
  have hstatus : ∀ key value, ((r.setStatus 500).addHeader key value).strayAccesses =
      (r.addHeader key value).strayAccesses := by
    intro key value
    unfold HttpResponse.addHeader HttpResponse.setStatus
    dsimp only
    split_ifs <;> rfl
  unfold Session.respondError
  dsimp only
  split
  · have hclosing := Appends.setClosingIfIoUring server s
    have hflag : Appends (s.setClosingIfIoUring server)
        { s.setClosingIfIoUring server with keepAlive := false } [] [] := Appends.of_eq rfl rfl
    refine ⟨_, _, (hclosing.trans hflag).trans (Appends.respond _ _ _), rfl, ?_⟩
    rw [hstatus, List.append_nil, List.append_nil]
  · exact ⟨_, _, Appends.respond s _ _, rfl, rfl⟩

theorem appends_routeRequest (server : Server) (s : Session) :
    ∃ rs strays, Appends s (s.routeRequest server (Session.openResponse s.keepAlive)) rs strays ∧
      (rs.length = 1 ↔ ∀ endpoint,
        server.endpoints.getEndpoint s.req.data.method s.req.data.path = some endpoint →
          (endpoint.exec s.moment s.req).calls.countP ResponseCall.isSetBody =
            if (endpoint.exec s.moment s.req).thrown.isSome then 0 else 1) ∧
      (strays = [] ↔ ∀ endpoint,
        server.endpoints.getEndpoint s.req.data.method s.req.data.path = some endpoint →
          (endpoint.exec s.moment s.req).Confined s.keepAlive) := by
  unfold Session.routeRequest
  cases hroute : server.endpoints.getEndpoint s.req.data.method s.req.data.path with
  | none =>
    refine ⟨_, _, Appends.respond s _ _, ?_⟩
    have hstrays : ((Session.openResponse s.keepAlive).setStatus 404).strayAccesses = [] := by
      cases s.keepAlive <;> decide
    simp [hstrays]
  | some endpoint =>
    obtain ⟨hfst, rs, strays, happ, hlen, hin⟩ :=
      appends_runHandler (Session.openResponse s.keepAlive) s (endpoint.exec s.moment s.req)
    have hkeep := s.keepAlive_runHandler (Session.openResponse s.keepAlive)
      (endpoint.exec s.moment s.req)
    simp only [Session.execEndpoint, HandlerRun.Confined, Option.some.injEq, forall_eq']
    cases hthrown : (endpoint.exec s.moment s.req).thrown with
    | none => exact ⟨rs, strays, happ, by simp [hlen], by simp [hin]⟩
    | some what =>
      obtain ⟨rs', strays', herror, hone, hstrays'⟩ := appends_respondError server
        (s.runHandler (Session.openResponse s.keepAlive) (endpoint.exec s.moment s.req)).2
        (s.runHandler (Session.openResponse s.keepAlive) (endpoint.exec s.moment s.req)).1 what
      refine ⟨_, _, happ.trans herror, ?_, ?_⟩
      · rw [List.length_append, hlen, hone, Option.isSome_some, if_pos rfl]
        omega
      · rw [hkeep, hfst] at hstrays'
        have hfinal : (Session.openResponse s.keepAlive).InTable
            ((endpoint.exec s.moment s.req).calls ++
              if (some what).isSome && s.keepAlive then
                [.addHeader .connection closeConnHeader] else []) ↔ strays' = [] := by
          rw [hstrays', HttpResponse.InTable, List.foldl_append, Option.isSome_some, Bool.true_and]
          cases s.keepAlive <;> rfl
        rw [hfinal, List.append_eq_nil_iff]
        refine ⟨And.left, fun hnil => ⟨hnil, hin.mpr ?_⟩⟩
        have hsuffix : ((endpoint.exec s.moment s.req).calls.foldl HttpResponse.apply
            (Session.openResponse s.keepAlive)).strayAccesses <:+ strays' := by
          rw [hstrays']
          split
          · exact HttpResponse.strayAccesses_addHeader _ _ _
          · exact List.suffix_refl _
        rw [hnil] at hsuffix
        exact List.suffix_nil.mp hsuffix

theorem appends_routeRequest_of (server : Server) {s t : Session} (happ : Appends s t [] [])
    (hkeep : t.keepAlive = s.keepAlive) (hreq : t.req = s.req) (hmoment : t.moment = s.moment) :
    ∃ rs strays, Appends s (t.routeRequest server (Session.openResponse s.keepAlive)) rs strays ∧
      ((rs.length = 1 ∧ strays = []) ↔ ∀ endpoint,
        server.endpoints.getEndpoint s.req.data.method s.req.data.path = some endpoint →
          (endpoint.exec s.moment s.req).WritesOnce s.keepAlive) ∧
      (server.Confined → strays = []) := by
  obtain ⟨rs, strays, hroute, hlen, hin⟩ := appends_routeRequest server t
  rw [hkeep] at hroute hin
  rw [hreq, hmoment] at hlen hin
  refine ⟨_, _, happ.trans hroute, ?_, fun hserver => ?_⟩
  · rw [List.nil_append, List.append_nil, hlen, hin, ← forall_and]
    simp only [HandlerRun.writesOnce_iff, imp_and]
  · rw [List.append_nil]
    exact hin.mpr fun endpoint hendpoint => hserver _ _ endpoint hendpoint _ _ _

/-- GetsOne tells how many responses there are. Where the handlers keep to the arrays,
nothing else leaves them. -/
theorem appends_handleRequest (server : Server) (s : Session) :
    ∃ rs strays, Appends s (s.handleRequest server) rs strays ∧
      ((rs.length = 1 ∧ strays = []) ↔ GetsOne server s) ∧ (server.Confined → strays = []) := by
  unfold Session.handleRequest Session.handleRequestWith GetsOne
  split
  · rw [upgradeToWebSocket_eq]
    split
    · rename_i hroute
      exact ⟨[], [], Appends.refl s, by simp [hroute], fun _ => rfl⟩
    · rename_i route hroute
      have hflag : ∀ t : Session, Appends t { t with keepAlive := false } [] [] :=
        fun t => Appends.of_eq rfl rfl
      refine ⟨_, _, ((Appends.respond s _ _).trans (hflag _)).trans
        (Appends.setClosingIfIoUring server _), ?_, fun _ => by decide⟩
      simp only [hroute, Option.isSome_some, iff_true]
      exact ⟨rfl, by decide⟩
  · cases hkeep : s.keepAlive with
    | true =>
      have hopen := appends_routeRequest_of server (Appends.refl s) rfl rfl rfl
      rwa [hkeep] at hopen
    | false =>
      have hmoment : (s.setClosingIfIoUring server).moment = s.moment := by
        unfold Session.setClosingIfIoUring
        cases server.backend <;> rfl
      have hopen := appends_routeRequest_of server
        (Appends.setClosingIfIoUring server s) (s.keepAlive_setClosingIfIoUring server)
        (Answers.setClosingIfIoUring server s).req_eq hmoment
      rwa [hkeep] at hopen

def responsesBetween (s t : Session) : List (HttpResponse × Bytes) :=
  responsesOf (t.log.take (t.log.length - s.log.length))

theorem responsesBetween_eq {s t : Session} {rs : List (HttpResponse × Bytes)} {strays : List ℕ}
    (h : Appends s t rs strays) : responsesBetween s t = rs := by
  obtain ⟨new, hlog, hrs, -⟩ := h.log
  rw [responsesBetween, hlog, List.length_append, Nat.add_sub_cancel, List.take_left, hrs]

/-- A request is answered once exactly when it is one that gets one response. -/
theorem handleRequest_answeredOnce_iff (server : Server) (s : Session)
    (hroom : (serialiseAll (responsesBetween s (s.handleRequest server))).length ≤
      s.writeBuffer.free) :
    AnsweredOnce s (s.handleRequest server) ↔ GetsOne server s := by
  obtain ⟨rs, strays, happ, hiff, -⟩ := appends_handleRequest server s
  rw [responsesBetween_eq happ] at hroom
  rw [happ.answeredOnce_iff hroom, hiff]

def accepted (server : Server) (received : Bytes) : Session :=
  (((Session.init server.settings 0 5).receive received).attemptRequest server.settings).2

def serverWith (backend : Backend) (handler : RequestHandler) : Server :=
  { bareServer backend with
    endpoints :=
      { endpointsMap := fun method =>
          if method = .get then InkixTree.empty.insert (ascii "/") ⟨ascii "/", .get, handler⟩
          else InkixTree.empty
        wsEndpoints := InkixTree.empty } }

def greet : RequestHandler := fun _ _ => ⟨[.setStatus 200, .setBody (ascii "hello")], none⟩

def getRoot : Bytes := ascii "GET / HTTP/1.1\r\nHost: a\r\n\r\n"

theorem greeting_answeredOnce :
    AnsweredOnce (accepted (serverWith .epoll greet) getRoot)
      ((accepted (serverWith .epoll greet) getRoot).handleRequest (serverWith .epoll greet)) :=
  (handleRequest_answeredOnce_iff (serverWith .epoll greet)
    (accepted (serverWith .epoll greet) getRoot) (by decide +kernel)).mpr (by
      have hplain : hasHeader (accepted (serverWith .epoll greet) getRoot).req.presentHeaders
          upgradeMask = false := by decide +kernel
      rw [GetsOne, hplain]
      intro endpoint hendpoint
      have hfound : (serverWith .epoll greet).endpoints.getEndpoint
          (accepted (serverWith .epoll greet) getRoot).req.data.method
          (accepted (serverWith .epoll greet) getRoot).req.data.path =
          some ⟨ascii "/", .get, greet⟩ := by
        have hmethod : (accepted (serverWith .epoll greet) getRoot).req.data.method = .get := by
          decide +kernel
        have hpath : (accepted (serverWith .epoll greet) getRoot).req.data.path = ascii "/" := by
          decide +kernel
        rw [hmethod, hpath]
        rfl
      obtain rfl := Option.some.inj (hfound.symm.trans hendpoint)
      have hkeep : (accepted (serverWith .epoll greet) getRoot).keepAlive = true := by
        decide +kernel
      rw [hkeep]
      exact ⟨by decide, by decide +kernel⟩)

def upgradeNowhere : Bytes :=
  ascii ("GET /chat HTTP/1.1\r\nUpgrade: websocket\r\nConnection: Upgrade\r\n" ++
    "Sec-WebSocket-Version: 13\r\nSec-WebSocket-Key: dGhlIHNhbXBsZSBub25jZQ==\r\n\r\n")

theorem upgrade_without_route_unanswered :
    (accepted (bareServer .epoll) upgradeNowhere).readBuffer.unread = [] ∧
      ¬ AnsweredOnce (accepted (bareServer .epoll) upgradeNowhere)
        ((accepted (bareServer .epoll) upgradeNowhere).handleRequest (bareServer .epoll)) := by
  refine ⟨by decide +kernel, ?_⟩
  have hroom : (serialiseAll []).length ≤
      (accepted (bareServer .epoll) upgradeNowhere).writeBuffer.free := Nat.zero_le _
  have hsame : (accepted (bareServer .epoll) upgradeNowhere).handleRequest (bareServer .epoll) =
      accepted (bareServer .epoll) upgradeNowhere := by
    have hflagged : hasHeader (accepted (bareServer .epoll) upgradeNowhere).req.presentHeaders
        upgradeMask = true := by decide +kernel
    have hnone : ∀ path, (bareServer .epoll).endpoints.getWebSocketEndpoint path = none :=
      fun _ => rfl
    rw [Session.handleRequest, Session.handleRequestWith, hflagged, if_pos rfl,
      Session.upgradeToWebSocket, hnone]
  rw [hsame, (Appends.refl _).answeredOnce_iff hroom]
  decide

end WarpApi

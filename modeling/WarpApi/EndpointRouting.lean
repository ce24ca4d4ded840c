import WarpApi.OneResponse
import WarpApi.RequestGrammar

/-!
From the method token and the path of a request to the handler that runs. The tables
hold the first endpoint registered for a method and route. The token is told by its
first letter, and by its length where that is P, so other tokens than the method names
reach the tables too.
-/
namespace WarpApi

def methodNames : List (Bytes × Method) :=
  [(ascii "GET", .get), (ascii "POST", .post), (ascii "PUT", .put), (ascii "PATCH", .patch),
   (ascii "DELETE", .delete), (ascii "HEAD", .head), (ascii "OPTIONS", .options)]

def methodNamed (token : Bytes) : Option Method := methodNames.lookup token

theorem parseMethod_of_named {token : Bytes} {method : Method}
    (h : methodNamed token = some method) : HttpRequest.parseMethod token = method := by
  obtain ⟨before, after, hnames, -⟩ := List.lookup_eq_some_iff.mp h
  have hmem : (token, method) ∈ methodNames :=
    hnames ▸ List.mem_append_right _ (List.mem_cons_self ..)
  have hall : ∀ p ∈ methodNames, HttpRequest.parseMethod p.1 = p.2 := by decide
  exact hall _ hmem

namespace EndpointManager

/-- A call that throws leaves the tables as they are. -/
def tryRegister (m : EndpointManager) (endpoint : Endpoint) : EndpointManager :=
  (m.registerEndpoint endpoint).getD m

/-- The tables after a series of calls; the WebSocket routes are registered apart. -/
def registered (wsEndpoints : InkixTree WebSocketRoute) (endpoints : List Endpoint) :
    EndpointManager :=
  endpoints.foldl tryRegister ⟨fun _ => InkixTree.empty, wsEndpoints⟩

/-- The endpoint that a series of calls registers: the first for the method and route. -/
def firstFor (endpoints : List Endpoint) (method : Method) (route : Bytes) : Option Endpoint :=
  endpoints.find? fun e => e.method = method ∧ e.route = route

theorem getEndpoint_tryRegister (m : EndpointManager) (endpoint : Endpoint) (method : Method)
    (route : Bytes) :
    (m.tryRegister endpoint).getEndpoint method route =
      (m.getEndpoint method route).or
        (if endpoint.method = method ∧ endpoint.route = route then some endpoint else none) := by
  unfold tryRegister registerEndpoint
  dsimp only
  split
  · rename_i htaken
    rw [Option.getD_none]
    split
    · rename_i hsame
      rw [hsame.1, hsame.2] at htaken
      exact (Option.or_of_isSome htaken).symm
    · rw [Option.or_none]
  · rename_i hfree
    rw [Option.getD_some]
    unfold getEndpoint
    dsimp only
    by_cases hmethod : endpoint.method = method
    · subst hmethod
      rw [Function.update_self, InkixTree.insert, InkixTree.get, List.lookup_cons]
      by_cases hroute : endpoint.route = route
      · subst hroute
        rw [Bool.not_eq_true, Option.isSome_eq_false_iff, Option.isNone_iff_eq_none] at hfree
        simp [hfree]
      · have hne : (route == endpoint.route) = false := by simpa using Ne.symm hroute
        rw [hne, if_neg fun h => hroute h.2, Option.or_none]
        rfl
    · rw [Function.update_of_ne (Ne.symm hmethod), if_neg fun h => hmethod h.1, Option.or_none]

/-- Calls that throw lose nothing: the first endpoint for a method and route is served. -/
theorem getEndpoint_registered (wsEndpoints : InkixTree WebSocketRoute) (endpoints : List Endpoint)
    (method : Method) (route : Bytes) :
    (registered wsEndpoints endpoints).getEndpoint method route =
      firstFor endpoints method route := by
  have hfold : ∀ m : EndpointManager, (endpoints.foldl tryRegister m).getEndpoint method route =
      (m.getEndpoint method route).or (firstFor endpoints method route) := by
    induction endpoints with
    | nil => exact fun m => (Option.or_none).symm
    | cons e endpoints ih =>
      intro m
      rw [List.foldl_cons, ih, getEndpoint_tryRegister, Option.or_assoc]
      congr 1
      unfold firstFor
      rw [List.find?_cons]
      by_cases hsame : e.method = method ∧ e.route = route
      · rw [if_pos hsame, Option.some_or]
        simp [hsame]
      · rw [if_neg hsame, Option.none_or]
        simp [hsame]
  exact (hfold _).trans (Option.none_or)

end EndpointManager

/-- The request object shows the method read from the token, and the path. -/
theorem view_of_accepted {settings : SettingsData} {s t : Session} {line : RequestLine}
    (h : s.parseRequest settings = (true, t))
    (hline : requestLineOf s.readBuffer.unread = some line) :
    t.req.data.method = HttpRequest.parseMethod line.method ∧ t.req.data.path = line.path := by
  obtain ⟨n, hconsumed, rfl⟩ := Session.parseRequest_eq_true h
  rcases parseBytes_cases settings s.readBuffer.unread with hnone |
    ⟨head, tail, rest, length, hdata, -, -, -, -, haccept⟩
  · rw [hnone] at hconsumed
    simp at hconsumed
  · rw [hdata, requestLineOf_head, Option.some.injEq] at hline
    subst hline
    have hview := head.view_result s.req length (rest.take length.toNat)
    dsimp only
    rw [haccept, Head.accept]
    simp only [HttpRequest.view, RequestView.mk.injEq] at hview
    exact ⟨hview.1, hview.2.1⟩

def Obs.handlerRun? : Obs → Option HandlerRun
  | .handlerRan _ ran => some ran
  | _ => none

/-- The calls of handlers in a piece of the log, oldest first. -/
def handlerRuns (log : List Obs) : List HandlerRun := log.reverse.filterMap Obs.handlerRun?

namespace Session

/-- Answering s ran the handler of this endpoint, on the parsed request, and no other. -/
def RunsHandler (server : Server) (s : Session) (endpoint : Endpoint) : Prop :=
  ∃ new, (s.handleRequest server).log = new ++ s.log ∧
    handlerRuns new = [endpoint.exec s.moment s.req]

/-- Answering s ran no handler and made one response, a 404. -/
def AnswersNotFound (server : Server) (s : Session) : Prop :=
  ∃ new r, (s.handleRequest server).log = new ++ s.log ∧ handlerRuns new = [] ∧
    responsesOf new = [(r, notFoundBody)] ∧ r.status = 404

def NoRun (s t : Session) : Prop := ∃ new, t.log = new ++ s.log ∧ handlerRuns new = []

theorem NoRun.trans {s t u : Session} (h : NoRun s t) (h' : NoRun t u) : NoRun s u := by
  obtain ⟨new, hlog, hruns⟩ := h
  obtain ⟨new', hlog', hruns'⟩ := h'
  refine ⟨new' ++ new, by rw [hlog', hlog, List.append_assoc], ?_⟩
  unfold handlerRuns at hruns hruns' ⊢
  rw [List.reverse_append, List.filterMap_append, hruns, hruns', List.append_nil]

theorem noRun_responseCalls (r : HttpResponse) (s : Session) (calls : List ResponseCall) :
    NoRun s (responseCalls r s calls).2 := by
  induction calls generalizing r s with
  | nil => exact ⟨[], rfl, rfl⟩
  | cons c cs ih =>
    have hcall : NoRun s (responseCall r s c).2 := by
      cases c with
      | setBody body => exact ⟨[_], rfl, rfl⟩
      | _ => exact ⟨[], rfl, rfl⟩
    exact hcall.trans (ih _ _)

theorem noRun_respondError (server : Server) (s : Session) (r : HttpResponse) (what : Bytes) :
    NoRun s (s.respondError server r what) := by
  unfold respondError setClosingIfIoUring
  dsimp only
  cases server.backend <;> split <;> exact ⟨[_], rfl, rfl⟩

theorem handlerRuns_execEndpoint (server : Server) (s : Session) (r : HttpResponse)
    (endpoint : Endpoint) :
    ∃ new, (s.execEndpoint server r endpoint).log = new ++ s.log ∧
      handlerRuns new = [endpoint.exec s.moment s.req] := by
  have hrest : NoRun (s.note (.handlerRan s.keepAlive (endpoint.exec s.moment s.req)))
      (s.execEndpoint server r endpoint) := by
    have hcalls := noRun_responseCalls r
      (s.note (.handlerRan s.keepAlive (endpoint.exec s.moment s.req)))
      (endpoint.exec s.moment s.req).calls
    have hran : NoRun (s.note (.handlerRan s.keepAlive (endpoint.exec s.moment s.req)))
        (s.runHandler r (endpoint.exec s.moment s.req)).2 := hcalls.trans ⟨[_], rfl, rfl⟩
    unfold execEndpoint
    dsimp only
    split
    · exact hran
    · exact hran.trans (noRun_respondError server _ _ _)
  obtain ⟨new, hlog, hruns⟩ := hrest
  refine ⟨new ++ [.handlerRan s.keepAlive (endpoint.exec s.moment s.req)], ?_, ?_⟩
  · rw [hlog, List.append_assoc]
    rfl
  · unfold handlerRuns at hruns ⊢
    rw [List.reverse_append, List.filterMap_append, hruns]
    rfl

theorem not_both {server : Server} {s : Session} {endpoint : Endpoint}
    (hruns : s.RunsHandler server endpoint) : ¬ s.AnswersNotFound server := by
  obtain ⟨new, hlog, hone⟩ := hruns
  rintro ⟨new', -, hlog', hnone, -, -⟩
  rw [hlog] at hlog'
  obtain rfl := List.append_cancel_right hlog'
  simp [hone] at hnone

/-- What a plain request is answered with: the endpoint found in the tables, or a 404. -/
theorem handleRequest_plain (server : Server) (s : Session)
    (hplain : hasHeader s.req.presentHeaders upgradeMask = false) :
    match server.endpoints.getEndpoint s.req.data.method s.req.data.path with
    | some endpoint => s.RunsHandler server endpoint
    | none => s.AnswersNotFound server := by
  -- the session in which the request is routed differs at most in its status
  have hroute : ∃ (u : Session) (r : HttpResponse),
      s.handleRequest server = u.routeRequest server r ∧ u.req = s.req ∧ u.log = s.log ∧
        u.moment = s.moment := by
    unfold handleRequest handleRequestWith
    rw [hplain, if_neg Bool.false_ne_true]
    split
    · exact ⟨s, _, rfl, rfl, rfl, rfl⟩
    · refine ⟨s.setClosingIfIoUring server, _, rfl, ?_⟩
      unfold setClosingIfIoUring
      cases server.backend <;> exact ⟨rfl, rfl, rfl⟩
  obtain ⟨u, r, hhandle, hreq, hlog, hmoment⟩ := hroute
  unfold RunsHandler AnswersNotFound
  rw [hhandle, routeRequest, hreq, ← hlog, ← hmoment]
  cases server.endpoints.getEndpoint s.req.data.method s.req.data.path with
  | some endpoint =>
    have hruns := handlerRuns_execEndpoint server u r endpoint
    rw [hreq] at hruns
    exact hruns
  | none => exact ⟨[_], r.setStatus 404, rfl, rfl, rfl, rfl⟩

/-- The handler registered for the method of that name and the path runs, or none and
the answer is a 404. -/
def Routed (server : Server) (endpoints : List Endpoint) (line : RequestLine) (s : Session) :
    Prop :=
  match methodNamed line.method with
  | none => s.AnswersNotFound server
  | some method =>
    match EndpointManager.firstFor endpoints method line.path with
    | some endpoint => s.RunsHandler server endpoint
    | none => s.AnswersNotFound server

end Session

/-- An accepted plain request is routed by its token's name exactly when the token is a
method name or nothing is registered for the method that its first letter and length
stand for. -/
theorem routed_iff (server : Server) (wsEndpoints : InkixTree WebSocketRoute)
    (endpoints : List Endpoint) (s t : Session) (line : RequestLine)
    (htables : server.endpoints = EndpointManager.registered wsEndpoints endpoints)
    (hparse : s.parseRequest server.settings = (true, t))
    (hline : requestLineOf s.readBuffer.unread = some line)
    (hplain : hasHeader t.req.presentHeaders upgradeMask = false) :
    t.Routed server endpoints line ↔
      methodNamed line.method ≠ none ∨
        EndpointManager.firstFor endpoints (HttpRequest.parseMethod line.method) line.path =
          none := by
  obtain ⟨hmethod, hpath⟩ := view_of_accepted hparse hline
  have hanswer := t.handleRequest_plain server hplain
  rw [htables, EndpointManager.getEndpoint_registered, hmethod, hpath] at hanswer
  unfold Session.Routed
  cases hnamed : methodNamed line.method with
  | some method =>
    rw [parseMethod_of_named hnamed] at hanswer
    exact ⟨fun _ => Or.inl (by simp), fun _ => hanswer⟩
  | none =>
    cases hfirst : EndpointManager.firstFor endpoints (HttpRequest.parseMethod line.method)
        line.path with
    | none =>
      rw [hfirst] at hanswer
      exact ⟨fun _ => Or.inr rfl, fun _ => hanswer⟩
    | some endpoint =>
      rw [hfirst] at hanswer
      exact ⟨fun h => absurd h (Session.not_both hanswer), by simp⟩

def rootEndpoint : Endpoint := ⟨ascii "/", .get, greet⟩

def rootServer : Server :=
  { bareServer .epoll with
    endpoints := EndpointManager.registered InkixTree.empty [rootEndpoint] }

def getLine : RequestLine := ⟨ascii "GET", ascii "/", [], httpVersion⟩

theorem routed_getRoot :
    ((receiving configJson getRoot).parseRequest configJson).2.Routed rootServer [rootEndpoint]
      getLine := by
  have hparse : (receiving configJson getRoot).parseRequest rootServer.settings =
      (true, ((receiving configJson getRoot).parseRequest configJson).2) :=
    Prod.ext (by decide +kernel) rfl
  exact (routed_iff rootServer InkixTree.empty [rootEndpoint] _ _ getLine rfl hparse
    (by decide +kernel) (by decide +kernel)).mpr (Or.inl (by decide))

/-- Any token that starts with a G is taken for GET. -/
def graphRoot : Bytes := ascii "GRAPH / HTTP/1.1\r\n\r\n"

theorem graphRoot_not_routed :
    ∃ t, (receiving configJson graphRoot).parseRequest configJson = (true, t) ∧
      requestLineOf (receiving configJson graphRoot).readBuffer.unread =
        some { getLine with method := ascii "GRAPH" } ∧
      hasHeader t.req.presentHeaders upgradeMask = false ∧
      ¬ t.Routed rootServer [rootEndpoint] { getLine with method := ascii "GRAPH" } := by
  have hplain : hasHeader
      ((receiving configJson graphRoot).parseRequest configJson).2.req.presentHeaders
      upgradeMask = false := by decide +kernel
  refine ⟨((receiving configJson graphRoot).parseRequest configJson).2,
    Prod.ext (by decide +kernel) rfl, by decide +kernel, hplain, ?_⟩
  have hmethod : ((receiving configJson graphRoot).parseRequest configJson).2.req.data.method =
      .get := by decide +kernel
  have hpath : ((receiving configJson graphRoot).parseRequest configJson).2.req.data.path =
      ascii "/" := by decide +kernel
  have hanswer := Session.handleRequest_plain rootServer _ hplain
  rw [hmethod, hpath] at hanswer
  intro hrouted
  exact absurd hrouted (Session.not_both hanswer)

end WarpApi

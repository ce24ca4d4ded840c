import WarpApi.OneResponse
import WarpApi.Pipelining

/-!
What a server answers, told from the requests alone. A handler may look at the request
object, which holds what earlier requests have left in it, and that depends on when the
write buffer ran empty, because then it is reset. Where neither the handler nor the test
for an upgrade looks at what was there before, the answer is a function of the request: no
buffer, no socket and no clock is in it.
-/
namespace WarpApi

def callResponses : HttpResponse → List ResponseCall → List (HttpResponse × Bytes)
  | _, [] => []
  | r, .setBody body :: calls => (r, body) :: callResponses r calls
  | r, .setStatus status :: calls => callResponses (r.setStatus status) calls
  | r, .setVersion version :: calls => callResponses (r.setVersion version) calls
  | r, .addHeader key value :: calls => callResponses (r.addHeader key value) calls

/-- The answer to an exception, on what the calls have made of the response object. -/
def errorResponse (keepAlive : Bool) (r : HttpResponse) (what : Bytes) : HttpResponse × Bytes :=
  (if keepAlive then (r.setStatus 500).addHeader .connection closeConnHeader else r.setStatus 500,
    serverErrorBody what)

def handlerResponses (keepAlive : Bool) (ran : HandlerRun) : List (HttpResponse × Bytes) :=
  callResponses (Session.openResponse keepAlive) ran.calls ++
    (ran.thrown.map (errorResponse keepAlive
      (ran.calls.foldl HttpResponse.apply (Session.openResponse keepAlive)))).toList

/-- The responses to a request that asks for no upgrade. -/
def responsesTo (server : Server) (keepAlive : Bool) (moment : Moment) (req : HttpRequest) :
    List (HttpResponse × Bytes) :=
  match server.endpoints.getEndpoint req.data.method req.data.path with
  | some endpoint => handlerResponses keepAlive (endpoint.exec moment req)
  | none => [((Session.openResponse keepAlive).setStatus 404, notFoundBody)]

namespace CompleteRequest

/-- The answer to r as the first request of the first session. -/
def answer (server : Server) (r : CompleteRequest server.settings) : Bytes :=
  serialiseAll (responsesTo server r.head.keepAlive ⟨0, 0⟩ (r.request HttpRequest.init))

/-- Nothing but r decides its answer: it has no header with this bit, and its handler does
the same whatever was in the request object before. -/
structure SelfContained (server : Server) (bit : ℕ) (r : CompleteRequest server.settings) :
    Prop where
  unmarked : ∀ line ∈ r.head.fields, (headerOf line).1.val.testBit bit = false
  alone : ∀ endpoint, server.endpoints.getEndpoint
      (HttpRequest.parseMethod r.head.requestLine.method) r.head.requestLine.path = some endpoint →
    ∀ (m m' : Moment) (req req' : HttpRequest),
      endpoint.exec m (r.request req) = endpoint.exec m' (r.request req')

variable {settings : SettingsData} (r : CompleteRequest settings)

theorem testBit_presentHeaders_request (req : HttpRequest) (i : ℕ) :
    (r.request req).presentHeaders.testBit i = (req.presentHeaders.testBit i ||
      r.head.fields.any fun line => (headerOf line).1.val.testBit i) := by
  have hpresent : (r.request req).presentHeaders =
      (r.head.fields.foldl storeField (startScan req r.head.requestLine).req).presentHeaders := by
    unfold request Head.result
    split <;> rfl
  rw [hpresent, testBit_presentHeaders_foldl]
  rfl

theorem route_request (req : HttpRequest) :
    (r.request req).data.method = HttpRequest.parseMethod r.head.requestLine.method ∧
      (r.request req).data.path = r.head.requestLine.path := by
  have hview := r.head.view_result req r.length r.body
  rw [HttpRequest.view, RequestView.mk.injEq] at hview
  exact ⟨hview.1, hview.2.1⟩

variable {server : Server} {bit : ℕ} {r : CompleteRequest server.settings}

theorem SelfContained.testBit_request (h : r.SelfContained server bit) {req : HttpRequest}
    (hclear : req.presentHeaders.testBit bit = false) :
    (r.request req).presentHeaders.testBit bit = false := by
  rw [testBit_presentHeaders_request, hclear, Bool.false_or, List.any_eq_false]
  intro line hline
  rw [h.unmarked line hline]
  exact Bool.false_ne_true

theorem SelfContained.responsesTo_eq (h : r.SelfContained server bit) (keepAlive : Bool)
    (m m' : Moment) (req req' : HttpRequest) :
    responsesTo server keepAlive m (r.request req) =
      responsesTo server keepAlive m' (r.request req') := by
  obtain ⟨hmethod, hpath⟩ := r.route_request req
  obtain ⟨hmethod', hpath'⟩ := r.route_request req'
  rw [responsesTo, responsesTo, hmethod, hmethod', hpath, hpath']
  cases hroute : server.endpoints.getEndpoint
      (HttpRequest.parseMethod r.head.requestLine.method) r.head.requestLine.path with
  | none => rfl
  | some endpoint =>
    dsimp only
    rw [h.alone endpoint hroute m m' req req']

end CompleteRequest

theorem hasHeader_upgradeMask_of_clear {bit present : ℕ} (hbit : upgradeMask.testBit bit = true)
    (hclear : present.testBit bit = false) : hasHeader present upgradeMask = false := by
  rw [← Bool.not_eq_true, hasHeader_iff]
  intro hall
  exact absurd (hall bit hbit) (by rw [hclear]; exact Bool.false_ne_true)

theorem serialiseAll_append (rs rs' : List (HttpResponse × Bytes)) :
    serialiseAll (rs ++ rs') = serialiseAll rs ++ serialiseAll rs' := by
  rw [serialiseAll, List.map_append, List.flatten_append]
  rfl

namespace Session

theorem writeBuffer_respond (s : Session) (r : HttpResponse) (body : Bytes) :
    (s.respond r body).writeBuffer = s.writeBuffer.push (serialiseAll [(r, body)]) := by
  rw [serialiseAll, List.map_singleton, List.flatten_singleton]
  exact HttpResponse.setBody_eq_push r body s.writeBuffer

theorem writeBuffer_setClosingIfIoUring (server : Server) (s : Session) :
    (s.setClosingIfIoUring server).writeBuffer = s.writeBuffer := by
  unfold setClosingIfIoUring
  cases server.backend <;> rfl

theorem writeBuffer_responseCalls (r : HttpResponse) (s : Session) (calls : List ResponseCall) :
    (responseCalls r s calls).2.writeBuffer =
      s.writeBuffer.push (serialiseAll (callResponses r calls)) := by
  induction calls generalizing r s with
  | nil => exact (BoundedQueue.push_nil _).symm
  | cons c calls ih =>
    cases c with
    | setBody body =>
      have hcall := ih r (s.respond r body)
      rw [writeBuffer_respond, BoundedQueue.push_push, ← serialiseAll_append] at hcall
      exact hcall
    | setStatus status => exact ih (r.setStatus status) s
    | setVersion version => exact ih (r.setVersion version) s
    | addHeader key value => exact ih (r.addHeader key value) s

theorem writeBuffer_respondError (server : Server) (s : Session) (r : HttpResponse)
    (what : Bytes) :
    (s.respondError server r what).writeBuffer =
      s.writeBuffer.push (serialiseAll [errorResponse s.keepAlive r what]) := by
  unfold respondError errorResponse
  cases s.keepAlive with
  | true =>
    simp only [if_true]
    rw [writeBuffer_respond]
    exact congrArg (fun q => BoundedQueue.push q _) (writeBuffer_setClosingIfIoUring server s)
  | false => exact writeBuffer_respond s _ _

theorem writeBuffer_execEndpoint (server : Server) (s : Session) (endpoint : Endpoint) :
    (s.execEndpoint server (openResponse s.keepAlive) endpoint).writeBuffer =
      s.writeBuffer.push (serialiseAll (handlerResponses s.keepAlive
        (endpoint.exec s.moment s.req))) := by
  generalize hran : endpoint.exec s.moment s.req = ran
  obtain ⟨hobject, -⟩ := appends_runHandler (openResponse s.keepAlive) s ran
  have hcalls : (s.runHandler (openResponse s.keepAlive) ran).2.writeBuffer =
      s.writeBuffer.push (serialiseAll (callResponses (openResponse s.keepAlive) ran.calls)) :=
    writeBuffer_responseCalls _ (s.note (.handlerRan s.keepAlive ran)) ran.calls
  have hkeep := s.keepAlive_runHandler (openResponse s.keepAlive) ran
  unfold execEndpoint handlerResponses
  dsimp only
  rw [hran]
  cases ran.thrown with
  | none =>
    rw [Option.map_none, Option.toList_none, List.append_nil]
    exact hcalls
  | some what =>
    rw [Option.map_some, Option.toList_some, serialiseAll_append, ← BoundedQueue.push_push,
      ← hcalls, ← hobject]
    have herror := writeBuffer_respondError server
      (s.runHandler (openResponse s.keepAlive) ran).2
      (s.runHandler (openResponse s.keepAlive) ran).1 what
    rw [hkeep] at herror
    exact herror

theorem writeBuffer_routeRequest (server : Server) (s : Session) :
    (s.routeRequest server (openResponse s.keepAlive)).writeBuffer =
      s.writeBuffer.push (serialiseAll (responsesTo server s.keepAlive s.moment s.req)) := by
  rw [routeRequest, responsesTo]
  cases server.endpoints.getEndpoint s.req.data.method s.req.data.path with
  | none => exact writeBuffer_respond s _ _
  | some endpoint => exact writeBuffer_execEndpoint server s endpoint

theorem writeBuffer_handleRequest (server : Server) (s : Session)
    (hplain : hasHeader s.req.presentHeaders upgradeMask = false) :
    (s.handleRequest server).writeBuffer =
      s.writeBuffer.push (serialiseAll (responsesTo server s.keepAlive s.moment s.req)) := by
  rw [handleRequest, handleRequestWith, hplain, if_neg Bool.false_ne_true]
  have hroute := writeBuffer_routeRequest server s
  cases hkeep : s.keepAlive with
  | true =>
    rw [hkeep] at hroute
    rw [if_pos rfl]
    exact hroute
  | false =>
    rw [if_neg Bool.false_ne_true]
    have hclosing := writeBuffer_routeRequest server (s.setClosingIfIoUring server)
    rw [keepAlive_setClosingIfIoUring, hkeep, (Answers.setClosingIfIoUring server s).req_eq,
      writeBuffer_setClosingIfIoUring] at hclosing
    have hmoment : (s.setClosingIfIoUring server).moment = s.moment := by
      unfold setClosingIfIoUring
      cases server.backend <;> rfl
    rwa [hmoment] at hclosing

/-- A series of self-contained requests, on a session that has not seen the bit. -/
theorem answerAll_eq {server : Server} {bit : ℕ} (hbit : upgradeMask.testBit bit = true)
    (rest : Bytes) (rs : List (CompleteRequest server.settings))
    (hrs : ∀ r ∈ rs, r.SelfContained server bit) (s : Session)
    (hclear : s.req.presentHeaders.testBit bit = false) :
    (s.answerAll server rest rs).writeBuffer =
        s.writeBuffer.push (rs.flatMap (CompleteRequest.answer server)) ∧
      (s.answerAll server rest rs).req.presentHeaders.testBit bit = false ∧
      (s.answerAll server rest rs).mode = s.mode := by
  induction rs generalizing s with
  | nil => exact ⟨(BoundedQueue.push_nil _).symm, hclear, rfl⟩
  | cons r rs ih =>
    have hr := hrs r List.mem_cons_self
    rw [answerAll]
    generalize htaken : s.taken r (rs.flatMap CompleteRequest.bytes ++ rest) = v
    have hreq : v.req = r.request s.req := by rw [← htaken]; rfl
    have hkeep : v.keepAlive = r.head.keepAlive := by rw [← htaken]; rfl
    have hout : v.writeBuffer = s.writeBuffer := by rw [← htaken]; rfl
    have hmode : v.mode = s.mode := by rw [← htaken]; rfl
    have hvclear : v.req.presentHeaders.testBit bit = false := by
      rw [hreq]
      exact hr.testBit_request hclear
    have hanswers := Answers.handleRequest server v
    obtain ⟨hall, hlater, hkept⟩ := ih (fun r' hr' => hrs r' (List.mem_cons_of_mem _ hr'))
      (v.handleRequest server) (by rw [hanswers.req_eq]; exact hvclear)
    refine ⟨?_, hlater, hkept.trans (hanswers.mode_eq.trans hmode)⟩
    rw [hall, writeBuffer_handleRequest server v (hasHeader_upgradeMask_of_clear hbit hvclear),
      hout, hkeep, hreq, hr.responsesTo_eq _ v.moment ⟨0, 0⟩ s.req HttpRequest.init,
      BoundedQueue.push_push, List.flatMap_cons]
    rfl

end Session

namespace PlainRequest

variable {server : Server} {route : Bytes} {method : Method} (r : PlainRequest server.settings)

theorem body_request (hsize : r.bytes.length < 2 ^ 64) (hbody : r.body ≠ []) (req : HttpRequest) :
    ((r.complete hsize).request req).data.body = r.body := by
  have hview := congrArg RequestView.body (r.view_request hsize req)
  rw [if_neg hbody] at hview
  exact hview

theorem selfContained_echo {bit : ℕ} (hbit : upgradeMask.testBit bit = true)
    (hroute : server.endpoints.getEndpoint method route =
      some ⟨route, method, bodyHandler fun request => request.data.body⟩)
    (hpost : HttpRequest.parseMethod r.method = method ∧ r.path = route) (hbody : r.body ≠ [])
    (hsize : r.bytes.length < 2 ^ 64) : (r.complete hsize).SelfContained server bit where
  unmarked line hline := r.unmarked hline hbit
  alone endpoint hendpoint m m' req req' := by
    obtain ⟨rfl, rfl⟩ := hpost
    obtain rfl := Option.some.inj (hroute.symm.trans hendpoint)
    dsimp only [bodyHandler]
    rw [r.body_request hsize hbody, r.body_request hsize hbody]

theorem answer_echo (hroute : server.endpoints.getEndpoint method route =
      some ⟨route, method, bodyHandler fun request => request.data.body⟩)
    (hpost : HttpRequest.parseMethod r.method = method ∧ r.path = route) (hbody : r.body ≠ [])
    (hsize : r.bytes.length < 2 ^ 64) :
    (r.complete hsize).answer server = (Session.openResponse true).serialise r.body := by
  obtain ⟨hmethod, hpath⟩ := (r.complete hsize).route_request HttpRequest.init
  have hkeep : (r.complete hsize).head.keepAlive = true := r.keepAlive_fields
  have hheld := r.body_request hsize hbody HttpRequest.init
  have hendpoint : server.endpoints.getEndpoint
      ((r.complete hsize).request HttpRequest.init).data.method
      ((r.complete hsize).request HttpRequest.init).data.path =
      some ⟨route, method, bodyHandler fun request => request.data.body⟩ := by
    obtain ⟨rfl, rfl⟩ := hpost
    rw [hmethod, hpath]
    exact hroute
  rw [CompleteRequest.answer, responsesTo, hendpoint, hkeep]
  dsimp only [bodyHandler]
  rw [hheld]
  show serialiseAll [(Session.openResponse true, r.body)] = _
  rw [serialiseAll, List.map_singleton, List.flatten_singleton]

end PlainRequest

end WarpApi

import WarpApi.Backends
import WarpApi.RequestRoundTrip
import WarpApi.Services

/-!
Requests that stand one behind the other in the read buffer. The parse loop takes them
and answers them in turn, each with the request object that the one before it has left.
What POST /apibenchmark answers shows how the body is handed on: a request without one
is given the body of the last request that had one.
-/
namespace WarpApi

namespace Session

/-- `parseRequest` has taken a request, in front of other bytes. -/
def taken {settings : SettingsData} (s : Session) (r : CompleteRequest settings)
    (behind : Bytes) : Session :=
  { s with
    req := r.request s.req
    keepAlive := r.head.keepAlive
    log := .handled s.req (r.request s.req) (r.bytes ++ behind) ::
      .attempt (r.bytes ++ behind) :: s.log }

/-- The requests are taken and answered in their order, with no look at the read buffer. -/
def answerAll (server : Server) (rest : Bytes) :
    List (CompleteRequest server.settings) → Session → Session
  | [], s => s
  | r :: rs, s => answerAll server rest rs
      ((s.taken r (rs.flatMap CompleteRequest.bytes ++ rest)).handleRequest server)

end Session

/-- The parser does not accept these bytes, whatever it has parsed before. -/
def Unparsed (settings : SettingsData) (rest : Bytes) : Prop :=
  ∀ req keepAlive, (parseBytes settings rest req keepAlive).consumed = none

theorem unparsed_of_short (settings : SettingsData) {rest : Bytes}
    (h : rest.length < minRequestSize) : Unparsed settings rest := by
  intro req keepAlive
  rw [parseBytes, if_pos h]

theorem parseLoop_requests (server : Server) (rs : List (CompleteRequest server.settings))
    (rest : Bytes) (hmin : ∀ r ∈ rs, minRequestSize ≤ r.bytes.length)
    (hrest : Unparsed server.settings rest) (v s : Session) (halike : Alike v s)
    (hread : s.readBuffer.unread = rs.flatMap CompleteRequest.bytes ++ rest) (turns : ℕ)
    (hturns : rs.length < turns) :
    ∃ x, Alike (v.answerAll server rest rs) x ∧ x.readBuffer.unread = rest ∧
      s.parseLoop server.settings (Session.handleRequest server) turns =
        some (x.attemptRequest server.settings).2 := by
  induction rs generalizing v s turns with
  | nil =>
    obtain ⟨turns, rfl⟩ : ∃ k, turns = k + 1 := ⟨turns - 1, by omega⟩
    have hnone := hrest s.req s.keepAlive
    rw [← List.nil_append rest, ← List.flatMap_nil, ← hread] at hnone
    refine ⟨s, halike, hread, ?_⟩
    rw [Session.parseLoop, Session.attemptRequest_of_none hnone]
  | cons r rs ih =>
    obtain ⟨turns, rfl⟩ : ∃ k, turns = k + 1 := ⟨turns - 1, by omega⟩
    rw [List.flatMap_cons, List.append_assoc] at hread
    have hsize := hmin r List.mem_cons_self
    have hparse := r.parseBytes_bytes (rs.flatMap CompleteRequest.bytes ++ rest) s.req s.keepAlive
      (by rw [List.length_append]; omega)
    rw [← hread] at hparse
    have hattempt := Session.attemptRequest_of_some (congrArg ParseResult.consumed hparse)
    rw [hparse, hread] at hattempt
    -- the session behind the parser, and what the request makes of v
    generalize hs' : (s.attemptRequest server.settings).2 = s' at *
    have htaken : Alike (v.taken r (rs.flatMap CompleteRequest.bytes ++ rest)) s' := by
      rw [← hs', hattempt]
      refine { halike with req_eq := ?_, keepAlive_eq := rfl, log_eq := ?_ }
      · exact congrArg r.request halike.req_eq
      · show _ :: _ :: s.log = _ :: _ :: v.log
        rw [halike.log_eq, halike.req_eq]
    have hbuffer : s'.readBuffer = s.readBuffer.advance r.bytes.length := by
      rw [← hs', hattempt]
    have hbehind : (s'.handleRequest server).readBuffer.unread =
        rs.flatMap CompleteRequest.bytes ++ rest := by
      rw [(Answers.handleRequest server s').readBuffer_eq, hbuffer, BoundedQueue.unread_advance,
        hread, List.drop_left]
    rw [List.length_cons] at hturns
    obtain ⟨x, hx, hxread, hloop⟩ :=
      ih (fun r' hr' => hmin r' (List.mem_cons_of_mem _ hr')) _ _
        (htaken.handleRequest ⟨rfl, rfl, rfl⟩) hbehind turns (by omega)
    refine ⟨x, hx, hxread, ?_⟩
    have hfst : s.attemptRequest server.settings = (true, s') := by
      rw [← hs', hattempt]
    rw [Session.parseLoop, hfst]
    exact hloop

theorem processInput_series (server : Server) (rs : List (CompleteRequest server.settings))
    (rest chunk : Bytes) (s : Session) (hmode : s.mode = .http)
    (hmin : ∀ r ∈ rs, minRequestSize ≤ r.bytes.length) (hrest : Unparsed server.settings rest)
    (hread : s.readBuffer.unread ++ chunk = rs.flatMap CompleteRequest.bytes ++ rest)
    (hroom : chunk.length ≤ s.readBuffer.free) :
    ∃ x, Alike (s.answerAll server rest rs) x ∧ x.readBuffer.unread = rest ∧
      (s.receive chunk).processInput server =
        some (true, (x.attemptRequest server.settings).2) := by
  have hunread : (s.receive chunk).readBuffer.unread =
      rs.flatMap CompleteRequest.bytes ++ rest := by
    show (s.readBuffer.push chunk).unread = _
    rw [BoundedQueue.unread_push_of_le _ _ hroom, hread]
  have hturns : rs.length < (s.receive chunk).readBuffer.size + 1 := by
    have hcount : rs.length ≤ (rs.flatMap CompleteRequest.bytes).length := by
      clear hread hunread
      induction rs with
      | nil => exact Nat.zero_le _
      | cons r rs ih =>
        have hpos : 0 < r.bytes.length :=
          Nat.lt_of_lt_of_le (by decide : 0 < minRequestSize) (hmin r List.mem_cons_self)
        have htail := ih fun r' hr' => hmin r' (List.mem_cons_of_mem _ hr')
        rw [List.flatMap_cons, List.length_append, List.length_cons]
        omega
    have hsize : (s.receive chunk).readBuffer.size =
        (rs.flatMap CompleteRequest.bytes ++ rest).length := by
      rw [← BoundedQueue.length_unread, hunread]
    rw [hsize, List.length_append]
    omega
  have halike : Alike s (s.receive chunk) := ⟨rfl, rfl, rfl, rfl, rfl, rfl, rfl⟩
  obtain ⟨x, hx, hxread, hloop⟩ := parseLoop_requests server rs rest hmin hrest s
    (s.receive chunk) halike hunread _ hturns
  have hhttp : (s.receive chunk).mode = .http := hmode
  refine ⟨x, hx, hxread, ?_⟩
  rw [Session.processInput, hhttp]
  exact congrArg (Option.map fun s => (true, s)) hloop

theorem attemptRequest_unparsed {settings : SettingsData} {x : Session} {rest : Bytes}
    (hrest : Unparsed settings rest) (hread : x.readBuffer.unread = rest) :
    (x.attemptRequest settings).2.readBuffer = x.readBuffer ∧
      (x.attemptRequest settings).2.writeBuffer = x.writeBuffer ∧
      (x.attemptRequest settings).2.log = .attempt rest :: x.log := by
  have hnone := hrest x.req x.keepAlive
  rw [← hread] at hnone ⊢
  rw [Session.attemptRequest_of_none hnone]
  exact ⟨rfl, rfl, rfl⟩

/-- Pipelined requests in one delivery, whatever was unread before: they are taken and
answered in their order, one after the other, and the bytes behind the last of them wait. -/
theorem processInput_requests (server : Server) (rs : List (CompleteRequest server.settings))
    (rest chunk : Bytes) (s : Session) (hmode : s.mode = .http)
    (hmin : ∀ r ∈ rs, minRequestSize ≤ r.bytes.length) (hrest : Unparsed server.settings rest)
    (hread : s.readBuffer.unread ++ chunk = rs.flatMap CompleteRequest.bytes ++ rest)
    (hroom : chunk.length ≤ s.readBuffer.free) :
    ∃ t, (s.receive chunk).processInput server = some (true, t) ∧
      t.readBuffer.unread = rest ∧
      t.writeBuffer = (s.answerAll server rest rs).writeBuffer ∧
      t.log = .attempt rest :: (s.answerAll server rest rs).log := by
  obtain ⟨x, hx, hxread, hinput⟩ :=
    processInput_series server rs rest chunk s hmode hmin hrest hread hroom
  obtain ⟨hbuffer, hout, hlog⟩ := attemptRequest_unparsed hrest hxread
  exact ⟨_, hinput, by rw [hbuffer, hxread], hout.trans hx.writeBuffer_eq,
    hlog.trans (congrArg (List.cons _) hx.log_eq)⟩

def sizedPost : CompleteRequest configJson :=
  PlainRequest.postItems.complete (by decide +kernel)

theorem two_requests_processed :
    ∃ t, ((Session.init configJson 0 5).receive (PlainRequest.postItems.bytes ++
        (PlainRequest.postItems.bytes ++ ascii "GET"))).processInput (bareServer .epoll) =
          some (true, t) ∧ t.readBuffer.unread = ascii "GET" := by
  obtain ⟨t, hinput, hunread, -, -⟩ := processInput_requests (bareServer .epoll)
    [sizedPost, sizedPost] (ascii "GET")
    (PlainRequest.postItems.bytes ++ (PlainRequest.postItems.bytes ++ ascii "GET"))
    (Session.init configJson 0 5) rfl (by decide +kernel) (unparsed_of_short _ (by decide))
    (by decide +kernel) (by decide +kernel)
  exact ⟨t, hinput, hunread⟩

/-- The bodies that a series of requests is answered with when each body is sent back. -/
def heldBodies (held : Bytes) : List Bytes → List Bytes
  | [] => []
  | body :: bodies =>
    (if body = [] then held else body) :: heldBodies (if body = [] then held else body) bodies

theorem handleRequest_bodyHandler {server : Server} {s : Session} {route : Bytes}
    {method : Method} (text : HttpRequest → Bytes)
    (hplain : hasHeader s.req.presentHeaders upgradeMask = false) (hkeep : s.keepAlive = true)
    (hroute : server.endpoints.getEndpoint s.req.data.method s.req.data.path =
      some ⟨route, method, bodyHandler text⟩) :
    (s.handleRequest server).writeBuffer =
        s.writeBuffer.push ((Session.openResponse true).serialise (text s.req)) ∧
      (s.handleRequest server).req = s.req := by
  refine ⟨?_, (Answers.handleRequest server s).req_eq⟩
  rw [Session.handleRequest, Session.handleRequestWith, hplain, if_neg Bool.false_ne_true, hkeep,
    if_pos rfl, Session.routeRequest, hroute, ← HttpResponse.setBody_eq_push]
  rfl

theorem PlainRequest.unmarked {settings : SettingsData} (r : PlainRequest settings) {line : Bytes}
    (hline : line ∈ r.fields) {i : ℕ} (hi : upgradeMask.testBit i = true) :
    (headerOf line).1.val.testBit i = false := by
  rcases r.fields_cases hline with hover | rfl
  · rw [hover.headerOf_eq]
    exact Nat.zero_testBit i
  · have hand : (upgradeMask &&& HeaderType.contentLength.val).testBit i = false := by
      rw [show upgradeMask &&& HeaderType.contentLength.val = 0 from rfl, Nat.zero_testBit]
    rw [headerOf_contentLengthLine]
    rwa [Nat.testBit_and, hi, Bool.true_and] at hand

theorem PlainRequest.plain_request {settings : SettingsData} (r : PlainRequest settings)
    (hsize : r.bytes.length < 2 ^ 64) (req : HttpRequest)
    (hplain : hasHeader req.presentHeaders upgradeMask = false) :
    hasHeader ((r.complete hsize).request req).presentHeaders upgradeMask = false := by
  have hpresent : ((r.complete hsize).request req).presentHeaders =
      (r.fields.foldl storeField (startScan req r.head.requestLine).req).presentHeaders := by
    unfold CompleteRequest.request Head.result
    split <;> rfl
  rw [← Bool.not_eq_true, hasHeader_iff] at hplain ⊢
  intro hall
  apply hplain
  intro i hi
  have hbit := hall i hi
  rw [hpresent, testBit_presentHeaders_foldl, Bool.or_eq_true] at hbit
  rcases hbit with hbit | hbit
  · exact hbit
  · exfalso
    obtain ⟨line, hline, hset⟩ := List.any_eq_true.mp hbit
    exact absurd hset (by rw [r.unmarked hline hi]; exact Bool.false_ne_true)

theorem PlainRequest.view_request {settings : SettingsData} (r : PlainRequest settings)
    (hsize : r.bytes.length < 2 ^ 64) (req : HttpRequest) :
    ((r.complete hsize).request req).view =
      { r.view with body := if r.body = [] then req.data.body else r.body } := by
  rw [CompleteRequest.request]
  refine (r.head.view_result req (UInt64.ofNat r.body.length) r.body).trans ?_
  rw [RequestView.mk.injEq]
  refine ⟨rfl, rfl, rfl, rfl, ?_⟩
  have hiff : UInt64.ofNat r.body.length = 0 ↔ r.body = [] := by
    rw [← UInt64.toNat_inj, UInt64.toNat_ofNat', Nat.mod_eq_of_lt r.length_body_lt]
    exact List.length_eq_zero_iff
  simp only [hiff]

theorem exists_answerAll_echo {server : Server} {route : Bytes} {method : Method}
    (hroute : server.endpoints.getEndpoint method route =
      some ⟨route, method, bodyHandler fun request => request.data.body⟩)
    (rs : List (PlainRequest server.settings)) (rest : Bytes)
    (hpost : ∀ r ∈ rs, HttpRequest.parseMethod r.method = method ∧ r.path = route)
    (hsize : ∀ r ∈ rs, r.bytes.length < 2 ^ 64) :
    ∃ cs : List (CompleteRequest server.settings),
      cs.flatMap CompleteRequest.bytes = rs.flatMap PlainRequest.bytes ∧
      (∀ c ∈ cs, minRequestSize ≤ c.bytes.length) ∧
      ∀ s : Session, hasHeader s.req.presentHeaders upgradeMask = false →
        (s.answerAll server rest cs).writeBuffer =
          s.writeBuffer.push ((heldBodies s.req.data.body (rs.map PlainRequest.body)).flatMap
            (Session.openResponse true).serialise) := by
  induction rs with
  | nil =>
    refine ⟨[], rfl, fun c hc => absurd hc List.not_mem_nil, fun s _ => ?_⟩
    exact (BoundedQueue.push_nil _).symm
  | cons r rs ih =>
    obtain ⟨cs, hbytes, hmin, hanswers⟩ := ih (fun r' hr' => hpost r' (List.mem_cons_of_mem _ hr'))
      fun r' hr' => hsize r' (List.mem_cons_of_mem _ hr')
    have hr := hsize r List.mem_cons_self
    obtain ⟨hmethod, hpath⟩ := hpost r List.mem_cons_self
    have hrbytes : (r.complete hr).bytes = r.bytes := rfl
    refine ⟨r.complete hr :: cs, ?_, ?_, fun s hplain => ?_⟩
    · rw [List.flatMap_cons, List.flatMap_cons, hrbytes, hbytes]
    · intro c hc
      rcases List.mem_cons.mp hc with rfl | hc
      · have hle := r.minRequestSize_le []
        rwa [List.append_nil] at hle
      · exact hmin c hc
    · rw [Session.answerAll]
      generalize htaken : s.taken (r.complete hr) (cs.flatMap CompleteRequest.bytes ++ rest) = v
      have hreq : v.req = (r.complete hr).request s.req := by rw [← htaken]; rfl
      have hkeep : v.keepAlive = true := by rw [← htaken]; exact r.keepAlive_fields
      have hout : v.writeBuffer = s.writeBuffer := by rw [← htaken]; rfl
      have hview := r.view_request hr s.req
      rw [← hreq, HttpRequest.view, PlainRequest.view, RequestView.mk.injEq] at hview
      obtain ⟨hvmethod, hvpath, -, -, hvbody⟩ := hview
      have hvplain : hasHeader v.req.presentHeaders upgradeMask = false := by
        rw [hreq]
        exact r.plain_request hr s.req hplain
      have hendpoint : server.endpoints.getEndpoint v.req.data.method v.req.data.path =
          some ⟨route, method, bodyHandler fun request => request.data.body⟩ := by
        rw [hvmethod, hvpath, hmethod, hpath, hroute]
      obtain ⟨hanswer, hkept⟩ := handleRequest_bodyHandler _ hvplain hkeep hendpoint
      rw [hanswers _ (by rw [hkept]; exact hvplain), hanswer, hkept, hout, hvbody,
        BoundedQueue.push_push, List.map_cons, heldBodies, List.flatMap_cons]

/-- Pipelined requests for POST /apibenchmark on a connection whose earlier requests asked
for no upgrade: each is answered with its own body, or with the last non-empty body before
it when it has none, in the order of the requests. -/
theorem benchmark_echoes (texts : JsonTexts) (tables : EndpointManager) (server : Server)
    (hserver : EndpointManager.registerAll (generalServices texts) tables =
      (true, server.endpoints))
    (rs : List (PlainRequest server.settings))
    (hpost : ∀ r ∈ rs, r.method = ascii "POST" ∧ r.path = ascii "/apibenchmark")
    (rest chunk : Bytes) (s : Session) (hmode : s.mode = .http)
    (hplain : hasHeader s.req.presentHeaders upgradeMask = false)
    (hrest : Unparsed server.settings rest)
    (hread : s.readBuffer.unread ++ chunk = rs.flatMap PlainRequest.bytes ++ rest)
    (hroom : chunk.length ≤ s.readBuffer.free) (hcapacity : s.readBuffer.capacity < 2 ^ 64) :
    ∃ t, (s.receive chunk).processInput server = some (true, t) ∧
      t.readBuffer.unread = rest ∧
      t.writeBuffer =
        s.writeBuffer.push ((heldBodies s.req.data.body (rs.map PlainRequest.body)).flatMap
          (Session.openResponse true).serialise) := by
  have hroute := EndpointManager.getEndpoint_constructed hserver
    (e := ⟨ascii "/apibenchmark", .post, bodyHandler fun request => request.data.body⟩)
    (by simp [generalServices])
  have hsize : ∀ r ∈ rs, r.bytes.length < 2 ^ 64 := by
    intro r hr
    have hle : r.bytes.length ≤ (rs.flatMap PlainRequest.bytes).length :=
      (List.sublist_flatten_of_mem (List.mem_map_of_mem hr)).length_le
    have htotal := congrArg List.length hread
    rw [List.length_append, List.length_append, BoundedQueue.length_unread] at htotal
    have hfree := s.readBuffer.size_add_free
    omega
  obtain ⟨cs, hbytes, hmin, hanswers⟩ := exists_answerAll_echo hroute rs rest
    (fun r hr => ⟨by rw [(hpost r hr).1]; decide, (hpost r hr).2⟩) hsize
  obtain ⟨x, hx, hxread, hinput⟩ :=
    processInput_series server cs rest chunk s hmode hmin hrest (hbytes ▸ hread) hroom
  obtain ⟨hbuffer, hout, -⟩ := attemptRequest_unparsed hrest hxread
  exact ⟨_, hinput, by rw [hbuffer, hxread],
    hout.trans (hx.writeBuffer_eq.trans (hanswers s hplain))⟩

theorem post_ne_nil : ascii "POST" ≠ [] := by decide

theorem post_plain : space ∉ ascii "POST" ∧ cr ∉ ascii "POST" := by decide

theorem passedOver_nil : ∀ line ∈ ([] ++ [] : List Bytes), PassedOver line :=
  fun _ hline => absurd hline List.not_mem_nil

def benchmarkPost (body : Bytes) (hbody : body.length ≤ 100) : PlainRequest configJson where
  method := ascii "POST"
  path := ascii "/apibenchmark"
  query := none
  linesBefore := []
  sized := !body.isEmpty
  linesAfter := []
  body := body
  method_ne := post_ne_nil
  method_ok := post_plain
  path_ne := by decide
  path_ok := by decide
  query_ok := fun q hq => absurd hq (by simp)
  lines_ok := passedOver_nil
  body_ok := by
    cases body with
    | nil => rfl
    | cons c body => exact hbody.trans (by decide)

def generalServer : Server :=
  { bareServer .ioUring with
    endpoints := (EndpointManager.registerAll (generalServices
      ⟨ascii "{}", fun _ => .error (ascii "no JSON"), ascii "{}", ascii "{}"⟩)
      EndpointManager.init).2 }

/-- Behind a request with the body "hi" one without a body is answered with "hi" too. -/
theorem benchmark_echoes_hi :
    ∃ t, ((Session.init configJson 0 5).receive
        ([benchmarkPost (ascii "hi") (by decide), benchmarkPost [] (by decide)].flatMap
          PlainRequest.bytes)).processInput generalServer = some (true, t) ∧
      t.writeBuffer = (Session.init configJson 0 5).writeBuffer.push
        ((Session.openResponse true).serialise (ascii "hi") ++
          (Session.openResponse true).serialise (ascii "hi")) := by
  have hserver : EndpointManager.registerAll (generalServices
      ⟨ascii "{}", fun _ => .error (ascii "no JSON"), ascii "{}", ascii "{}"⟩)
      EndpointManager.init = (true, generalServer.endpoints) := Prod.ext rfl rfl
  obtain ⟨t, hinput, -, hout⟩ := benchmark_echoes _ EndpointManager.init generalServer hserver
    [benchmarkPost (ascii "hi") (by decide), benchmarkPost [] (by decide)]
    (fun r hr => by
      rcases List.mem_cons.mp hr with rfl | hr
      · exact ⟨rfl, rfl⟩
      · obtain rfl := List.mem_singleton.mp hr
        exact ⟨rfl, rfl⟩)
    [] _ (Session.init configJson 0 5) rfl rfl (unparsed_of_short _ (by decide))
    (List.append_nil _).symm (by decide +kernel) (by decide +kernel)
  exact ⟨t, hinput, hout⟩

end WarpApi

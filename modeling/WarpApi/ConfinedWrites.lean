import WarpApi.HeaderLines
import WarpApi.OneResponse
import WarpApi.Services
import WarpApi.SessionRules

/-!
Writes that stay in their arrays. A header with a name of 7, 17 or 21 bytes is written far
behind the session, in the memory of other sessions of the pool, and what a handler adds
under such a key far behind its response object. As long as no client sends such a name and
no handler uses such a key, the connections of a worker are apart.
-/
namespace WarpApi

/-- The bytes on which `parseRequest` is called, while it accepts what it is called on. -/
def attempts (settings : SettingsData) : ℕ → Bytes → List Bytes
  | 0, _ => []
  | turns + 1, data =>
    data :: match (parseBytes settings data HttpRequest.init false).consumed with
      | none => []
      | some n => attempts settings turns (data.drop n)

/-- No line that is taken of these bytes has a name of one of the `upgradeLengths`. -/
def NamesConfined (settings : SettingsData) (received : Bytes) : Prop :=
  ∀ data ∈ attempts settings (received.length + 1) received,
    ∀ line ∈ takenLines settings data, (headerOf line).1.hasSlot = true

instance (settings : SettingsData) (received : Bytes) :
    Decidable (NamesConfined settings received) :=
  inferInstanceAs (Decidable (∀ data ∈ attempts settings (received.length + 1) received,
    ∀ line ∈ takenLines settings data, (headerOf line).1.hasSlot = true))

theorem consumed_parseBytes (settings : SettingsData) (data : Bytes) (req req' : HttpRequest)
    (keepAlive keepAlive' : Bool) :
    (parseBytes settings data req keepAlive).consumed =
      (parseBytes settings data req' keepAlive').consumed := by
  rcases parseBytes_cases settings data with hnone | ⟨h, t, rest, n, -, -, -, -, -, hparse⟩
  · rw [hnone, hnone]
  · rw [hparse, hparse]
    rfl

/-- The writes of the parser into its request object and of the handlers into their
responses have stayed in the arrays. -/
structure Session.Confined (s : Session) : Prop where
  request : s.req.strayWrites = []
  responses : straysOf s.log = []

/-- The bytes of the next attempts, once a chunk has come. -/
def ReceivesConfined (server : Server) (s : Session) (chunk : Bytes) : Prop :=
  NamesConfined server.settings (s.readBuffer.unread ++ chunk)

instance (server : Server) (s : Session) (chunk : Bytes) :
    Decidable (ReceivesConfined server s chunk) :=
  inferInstanceAs (Decidable (NamesConfined _ _))

theorem strayWrites_parseLoop (server : Server) (turns : ℕ) (s t : Session)
    (hnames : ∀ data ∈ attempts server.settings turns s.readBuffer.unread,
      ∀ line ∈ takenLines server.settings data, (headerOf line).1.hasSlot = true)
    (h : s.parseLoop server.settings (Session.handleRequest server) turns = some t) :
    t.req.strayWrites = s.req.strayWrites := by
  induction turns generalizing s with
  | zero => simp [Session.parseLoop] at h
  | succ turns ih =>
    rw [attempts, List.forall_mem_cons] at hnames
    obtain ⟨hnow, hlater⟩ := hnames
    have hattempt := (strayWrites_parseBytes_iff _ _ s.req s.keepAlive).mpr hnow
    rw [consumed_parseBytes _ _ _ s.req _ s.keepAlive] at hlater
    rw [Session.parseLoop] at h
    cases hconsumed :
        (parseBytes server.settings s.readBuffer.unread s.req s.keepAlive).consumed with
    | none =>
      rw [Session.attemptRequest_of_none hconsumed] at h
      exact Option.some.inj h ▸ hattempt
    | some n =>
      rw [Session.attemptRequest_of_some hconsumed] at h
      dsimp only at h
      rw [hconsumed] at hlater
      generalize hseen : ({ s with
        req := (parseBytes server.settings s.readBuffer.unread s.req s.keepAlive).req
        keepAlive := (parseBytes server.settings s.readBuffer.unread s.req s.keepAlive).keepAlive
        readBuffer := s.readBuffer.advance n
        log := _ } : Session) = v at h
      have hanswers := Answers.handleRequest server v
      have hunread : (v.handleRequest server).readBuffer.unread = s.readBuffer.unread.drop n := by
        rw [hanswers.readBuffer_eq, ← hseen]
        exact BoundedQueue.unread_advance ..
      rw [ih (v.handleRequest server) (by rw [hunread]; exact hlater) h, hanswers.req_eq, ← hseen]
      exact hattempt

theorem straysOf_parseLoop {server : Server} (hserver : server.Confined) (turns : ℕ)
    (s t : Session)
    (h : s.parseLoop server.settings (Session.handleRequest server) turns = some t)
    (hs : straysOf s.log = []) : straysOf t.log = [] := by
  refine parseLoop_relates (fun s t => straysOf s.log = [] → straysOf t.log = [])
    (fun s t u hst htu hs => htu (hst hs)) (fun s hs => ?_) (fun s hs => ?_) turns s t h hs
  · cases hconsumed :
        (parseBytes server.settings s.readBuffer.unread s.req s.keepAlive).consumed with
    | none =>
      rw [Session.attemptRequest_of_none hconsumed]
      exact hs
    | some n =>
      rw [Session.attemptRequest_of_some hconsumed]
      exact hs
  · obtain ⟨rs, strays, happ, -, hconfined⟩ := appends_handleRequest server s
    obtain ⟨new, hlog, -, hstrays⟩ := happ.log
    rw [hlog, straysOf, List.flatMap_append, ← straysOf, ← straysOf, hstrays, hconfined hserver, hs]
    rfl

/-- A session of HTTP stays one, and its writes stay in the arrays. -/
theorem confined_rule {server : Server} (hserver : server.Confined) :
    SessionRule server (ReceivesConfined server) fun s => s.mode = .http ∧ s.Confined where
  start self socket := ⟨rfl, rfl, rfl⟩
  untouched s t huntouched h := by
    obtain ⟨hmode, hrequest, hresponses⟩ := h
    refine ⟨huntouched.mode_eq.trans hmode, ?_, ?_⟩
    · rcases huntouched.req_eq with hreq | hreq
      · rw [hreq, hrequest]
      · rw [hreq]
        exact hrequest
    · obtain ⟨new, hlog, hnew⟩ := huntouched.entries
      rw [hlog, straysOf, List.flatMap_append, ← straysOf, ← straysOf, hresponses,
        List.append_nil, straysOf, List.flatMap_eq_nil_iff]
      intro o ho
      obtain ⟨socketOpen, rfl⟩ := hnew o ho
      rfl
  feeds_setReading s chunk h := h
  input s chunk alive t h hfed hfits hinput := by
    obtain ⟨hmode, hrequest, hresponses⟩ := h
    have hhttp : (s.receive chunk).mode = .http := hmode
    have hmode' := (processInput_http hhttp hinput).2
    rw [Session.processInput, hhttp] at hinput
    obtain ⟨u, hdrain, heq⟩ := Option.map_eq_some_iff.mp hinput
    obtain ⟨-, rfl⟩ := Prod.mk.inj heq
    have hunread : (s.receive chunk).readBuffer.unread = s.readBuffer.unread ++ chunk :=
      BoundedQueue.unread_push_of_le _ _ hfits
    have hturns : (s.receive chunk).readBuffer.size + 1 =
        (s.readBuffer.unread ++ chunk).length + 1 := by
      rw [← hunread, BoundedQueue.length_unread]
    refine ⟨hmode', ?_, straysOf_parseLoop hserver _ _ _ hdrain hresponses⟩
    refine (strayWrites_parseLoop server _ _ _ ?_ hdrain).trans hrequest
    rw [hturns, hunread]
    exact hfed

theorem confined_of_no_endpoint {server : Server}
    (h : ∀ method path, server.endpoints.getEndpoint method path = none) : server.Confined := by
  intro method path endpoint hget
  rw [h] at hget
  exact absurd hget (by simp)

/-- The handlers of GeneralServices make no other call on the response than `setBody`. -/
theorem confined_generalServices (texts : JsonTexts) (server : Server)
    (hserver : EndpointManager.registerAll (generalServices texts) EndpointManager.init =
      (true, server.endpoints)) : server.Confined := by
  intro method path endpoint hget moment req keepAlive
  have hopen : ∀ keepAlive, (Session.openResponse keepAlive).strayAccesses = [] := by decide
  obtain ⟨done, rest, hsplit, -, -, -, -, htables⟩ :=
    EndpointManager.exists_fills EndpointManager.init (generalServices texts)
  have hfound := htables (.http method path)
  rw [hserver] at hfound
  have hlookup : server.endpoints.lookup (.http method path) = some (.endpoint endpoint) :=
    congrArg (Option.map Registration.endpoint) hget
  rw [hlookup] at hfound
  have hmem := List.mem_append_left rest (List.mem_of_find?_eq_some hfound.symm)
  rw [← hsplit] at hmem
  simp only [generalServices, List.mem_cons, Registration.endpoint.injEq, reduceCtorEq,
    List.not_mem_nil, or_false] at hmem
  rcases hmem with rfl | rfl | rfl | rfl | rfl
  · exact hopen keepAlive
  · show (testHandler texts moment req).Confined keepAlive
    unfold testHandler
    cases texts.test req with
    | ok result => exact hopen keepAlive
    | error what =>
      cases keepAlive with
      | true =>
        show (Session.openResponse true).InTable [.addHeader .connection closeConnHeader]
        decide
      | false => exact hopen false
  · exact hopen keepAlive
  · exact hopen keepAlive
  · exact hopen keepAlive

/-- In every run of the worker in which no client sends a name of one of the
`upgradeLengths`, the session of every connection is what its own events alone make of it,
the sessions in use are those of the connections, and none has written into another. -/
theorem worker_is_its_connections (server : Server) (hserver : server.Confined)
    (es : List LoopEvent) (w : EpollWorker)
    (hfed : ∀ id, Runs.Guarded (connectionStep server id)
      (ConnectionFed server (ReceivesConfined server)) none
      (SideBySide.labelsOf id (EpollWorker.actsOf server es)))
    (hrun : Runs.run (EpollWorker.step server) EpollWorker.init es = some w) :
    ∃ clients : SessionId → Option Session,
      (∀ id, Runs.run (connectionStep server id) none
        (SideBySide.labelsOf id (EpollWorker.actsOf server es)) = some (clients id)) ∧
      (∀ id s, clients id = some s ↔
        ∃ a, w.inUse a = true ∧ w.memory a = some s ∧ s.self = id) ∧
      ∀ id s, clients id = some s → s.Confined := by
  obtain ⟨clients, hclients, hrepresents⟩ := EpollWorker.exists_represented hrun
  have hown := (SideBySide.run_iff _ _ _).mp hclients
  refine ⟨clients, hown, hrepresents, fun id s hs => ?_⟩
  have hone := hown id
  rw [hs] at hone
  exact ((confined_rule hserver).connection (hfed id) hone).2

/-- The first client hangs up and the second one gets its descriptor. Only the second one
sends anything, in its first event. -/
theorem fed_recycled {server : Server} {feeds : Session → Bytes → Prop} {e : EpollEvent} {now : ℕ}
    (hacts : EpollWorker.actsOf server (recycled ++ [.serve e false now]) =
      [(0, .accept 7), (0, .turn ⟨true, false, [.eof], []⟩ 1000), (1, .accept 7), (0, .timeout),
        (1, .turn e now)])
    (hfeeds : ∀ d ∈ e.deliveries server (Session.init server.settings 1 7), feeds d.1 d.2)
    (id : SessionId) :
    Runs.Guarded (connectionStep server id) (ConnectionFed server feeds) none
      (SideBySide.labelsOf id
        (EpollWorker.actsOf server (recycled ++ [.serve e false now]))) := by
  rw [hacts]
  by_cases hsecond : id = 1
  · subst hsecond
    refine ⟨fun s hs => absurd hs (by simp), fun client hclient =>
      ⟨fun s hs d hd => ?_, fun _ _ => trivial⟩⟩
    obtain rfl : Session.init server.settings 1 7 = s :=
      Option.some.inj ((Option.some.inj hclient).trans hs)
    exact hfeeds d hd
  · refine Runs.guarded_of_forall (fun act hact client s hs d hd => ?_) none
    have hmem := SideBySide.mem_labelsOf.mp hact
    simp only [List.mem_cons, List.not_mem_nil, Prod.mk.injEq, hsecond, false_and, or_false,
      false_or] at hmem
    rcases hmem with ⟨-, rfl⟩ | ⟨-, rfl⟩ | ⟨-, rfl⟩
    · exact absurd hd List.not_mem_nil
    · exact absurd hd List.not_mem_nil
    · exact absurd hd List.not_mem_nil

def getEvent : EpollEvent := ⟨true, false, [.data plainRequest, .wouldBlock], [.sent 115]⟩

theorem recycledGet_is_its_connections :
    ∃ w, Runs.run (EpollWorker.step (bareServer .epoll)) EpollWorker.init
        (recycled ++ [.serve getEvent false 2000]) = some w ∧
      ∃ clients : SessionId → Option Session,
        clients 0 = none ∧ (clients 1).map (fun s => s.writeBuffer.readPos) = some 115 ∧
        (∀ id s, clients id = some s ↔
          ∃ a, w.inUse a = true ∧ w.memory a = some s ∧ s.self = id) ∧
        ∀ id s, clients id = some s → s.Confined := by
  have hacts : EpollWorker.actsOf (bareServer .epoll) (recycled ++ [.serve getEvent false 2000]) =
      [(0, .accept 7), (0, .turn ⟨true, false, [.eof], []⟩ 1000), (1, .accept 7), (0, .timeout),
        (1, .turn getEvent 2000)] := by decide +kernel
  have hrun : (Runs.run (EpollWorker.step (bareServer .epoll)) EpollWorker.init
      (recycled ++ [.serve getEvent false 2000])).isSome = true := by decide +kernel
  obtain ⟨w, hw⟩ := Option.isSome_iff_exists.mp hrun
  obtain ⟨clients, hclients, hused, hconfined⟩ := worker_is_its_connections (bareServer .epoll)
    (confined_of_no_endpoint fun _ _ => rfl) _ w (fed_recycled hacts (by decide +kernel)) hw
  have hfirst : (Runs.run (connectionStep (bareServer .epoll) 0) none
      (SideBySide.labelsOf 0 (EpollWorker.actsOf (bareServer .epoll)
        (recycled ++ [.serve getEvent false 2000])))).map Option.isNone = some true := by
    decide +kernel
  have hsecond : (Runs.run (connectionStep (bareServer .epoll) 1) none
      (SideBySide.labelsOf 1 (EpollWorker.actsOf (bareServer .epoll)
        (recycled ++ [.serve getEvent false 2000])))).map
          (Option.map fun s => s.writeBuffer.readPos) = some (some 115) := by
    decide +kernel
  rw [hclients 0] at hfirst
  rw [hclients 1] at hsecond
  exact ⟨w, hw, clients, Option.isNone_iff_eq_none.mp (Option.some.inj hfirst),
    Option.some.inj hsecond, hused, hconfined⟩

end WarpApi

import WarpApi.ConfinedWrites
import WarpApi.Handshake

/-!
What no session ever does. `handleRequest` looks for the fields of a handshake with
`getHeader`, which never finds one, and answers an upgrade request with an error. So in no
run of either loop is a handshake answered or a frame sent, and the callbacks of the
registered WebSocket routes are never called. Nor is `extractQueryParams` ever called: the
handlers find no parameters, whatever the query is.
-/
namespace WarpApi

/-- Entries that requests without parameters, their answers and the write buffer make. No
answer has left the arrays of its response. -/
def Obs.isHttp : Obs → Bool
  | .handled _ seen _ => seen.data.queryParams.isEmpty
  | .handlerDone strays => strays.isEmpty
  | .response r _ => r.strayAccesses.isEmpty
  | .handshake _ => false
  | .frame _ _ _ => false
  | .wsOpen => false
  | .wsMessage _ => false
  | .wsClose => false
  | _ => true

theorem Obs.isHttp_of_isAnswer {o : Obs} (h : o.isAnswer = true) (hstrays : straysOf [o] = []) :
    o.isHttp = true := by
  cases o with
  | handlerRan keepAlive ran => rfl
  | handlerDone strays => exact List.isEmpty_iff.mpr (by simpa [straysOf] using hstrays)
  | response r body => exact List.isEmpty_iff.mpr (by simpa [straysOf] using hstrays)
  | _ => exact absurd h Bool.false_ne_true

/-- Only requests have been handled, without parameters, and no WebSocket route is set. -/
structure HttpOnly (s : Session) : Prop where
  mode : s.mode = .http
  wsState : s.wsState = WsState.init
  params : s.req.data.queryParams = []
  entries : ∀ o ∈ s.log, o.isHttp = true

namespace HttpOnly

/-- A part of the program that keeps protocol and parameters and makes HTTP entries. -/
theorem step {s t : Session} (h : HttpOnly s) (hmode : t.mode = s.mode)
    (hws : t.wsState = s.wsState) (hparams : t.req.data.queryParams = s.req.data.queryParams)
    (hentries : NewEntries (fun o => o.isHttp = true) s t) : HttpOnly t := by
  refine ⟨hmode.trans h.mode, hws.trans h.wsState, hparams.trans h.params, fun o ho => ?_⟩
  obtain ⟨new, hlog, hnew⟩ := hentries
  rw [hlog, List.mem_append] at ho
  exact ho.elim (hnew o) (h.entries o)

theorem attemptRequest {s : Session} (h : HttpOnly s) (settings : SettingsData) :
    HttpOnly (s.attemptRequest settings).2 := by
  have hparams := queryParams_parseBytes settings s.readBuffer.unread s.req s.keepAlive
  cases hconsumed : (parseBytes settings s.readBuffer.unread s.req s.keepAlive).consumed with
  | none =>
    rw [Session.attemptRequest_of_none hconsumed]
    exact h.step rfl rfl hparams (.of_cons rfl rfl)
  | some n =>
    rw [Session.attemptRequest_of_some hconsumed]
    refine h.step rfl rfl hparams ⟨[.handled _ _ _, .attempt _], rfl, fun o ho => ?_⟩
    rcases List.mem_cons.mp ho with rfl | ho
    · exact List.isEmpty_iff.mpr (hparams.trans h.params)
    · rw [List.mem_singleton.mp ho]
      rfl

theorem handleRequest {server : Server} {s : Session} (h : HttpOnly s)
    (hserver : server.Confined) : HttpOnly (s.handleRequest server) := by
  have hanswers := Answers.handleRequest server s
  obtain ⟨new, hlog, hnew⟩ := hanswers.entries
  obtain ⟨rs, strays, happ, -, hconfined⟩ := appends_handleRequest server s
  obtain ⟨new', hlog', -, hstrays⟩ := happ.log
  obtain rfl : new' = new := List.append_cancel_right (hlog'.symm.trans hlog)
  rw [hconfined hserver, straysOf, List.flatMap_eq_nil_iff] at hstrays
  refine h.step hanswers.mode_eq hanswers.wsState_eq (by rw [hanswers.req_eq])
    ⟨new', hlog, fun o ho => Obs.isHttp_of_isAnswer (hnew o ho) ?_⟩
  rw [straysOf, List.flatMap_singleton]
  exact hstrays o ho

theorem processInput {server : Server} {s t : Session} {alive : Bool} (h : HttpOnly s)
    (hserver : server.Confined) (hinput : s.processInput server = some (alive, t)) :
    HttpOnly t := by
  rw [Session.processInput, h.mode] at hinput
  obtain ⟨u, hdrain, heq⟩ := Option.map_eq_some_iff.mp hinput
  obtain ⟨-, rfl⟩ := Prod.mk.inj heq
  exact parseLoop_relates (fun s t => HttpOnly s → HttpOnly t)
    (fun s t u hst htu hs => htu (hst hs)) (fun s hs => hs.attemptRequest _)
    (fun s hs => hs.handleRequest hserver) _ _ _ hdrain h

/-- Any bytes may be received. -/
theorem rule {server : Server} (hserver : server.Confined) :
    SessionRule server (fun _ _ => True) HttpOnly where
  start self socket := ⟨rfl, rfl, rfl, fun o ho => absurd ho List.not_mem_nil⟩
  untouched s t huntouched h := by
    have hparams : t.req.data.queryParams = s.req.data.queryParams := by
      rcases huntouched.req_eq with hreq | hreq
      · rw [hreq]
      · rw [hreq]
        rfl
    refine h.step huntouched.mode_eq huntouched.wsState_eq hparams ?_
    obtain ⟨new, hlog, hnew⟩ := huntouched.entries
    refine ⟨new, hlog, fun o ho => ?_⟩
    obtain ⟨socketOpen, rfl⟩ := hnew o ho
    rfl
  feeds_setReading s chunk htrue := htrue
  input s chunk alive t h _ _ hinput :=
    (show HttpOnly (s.receive chunk) from ⟨h.mode, h.wsState, h.params, h.entries⟩).processInput
      hserver hinput

end HttpOnly

/-- Whatever is registered and whatever the clients send, every session of a worker has
handled requests only, and none of them had parameters. What leaves the header array lands
in other sessions, so the worker has a single client, which may ask for an upgrade, or none
of its clients sends a name of one of the `upgradeLengths`. -/
theorem http_only (server : Server) (hserver : server.Confined) :
    (∀ es w, Runs.run (EpollWorker.step server) EpollWorker.init es = some w →
      (w.accepted ≤ 1 ∨ ∀ id, Runs.Guarded (connectionStep server id)
        (ConnectionFed server (ReceivesConfined server)) none
        (SideBySide.labelsOf id (EpollWorker.actsOf server es))) →
      ∀ a s, w.inUse a = true → w.memory a = some s →
        HttpOnly s ∧ (1 < w.accepted → s.Confined)) ∧
    ∀ entries es w, Runs.run (Worker.step server) (Worker.init entries) es = some w →
      (w.acquired ≤ 1 ∨ Runs.Guarded (Worker.step server)
        (Worker.Meets (View.Feeds fun _ => ReceivesConfined server)) (Worker.init entries) es) →
      ∀ sid s, w.pool sid = some s → HttpOnly s ∧ (1 < w.acquired → s.Confined) := by
  refine ⟨fun es w hrun hfed a s huse hmemory => ⟨?_, fun hmany => ?_⟩,
    fun entries es w hrun hfed sid s hs => ⟨?_, fun hmany => ?_⟩⟩
  · apply EpollWorker.rule (fun _ => HttpOnly.rule hserver) (fun id => ?_) hrun huse hmemory
    exact Runs.guarded_of_forall (fun _ _ _ _ _ _ _ => trivial) _
  · have hnames := hfed.resolve_left (Nat.not_le.mpr hmany)
    exact (EpollWorker.rule (fun _ => confined_rule hserver) hnames hrun huse hmemory).2
  · refine (Worker.rule (fun _ => HttpOnly.rule hserver) ?_ hrun sid).holds s hs
    exact Runs.guarded_of_forall (fun _ _ _ _ _ _ _ _ _ _ _ => trivial) _
  · have hnames := hfed.resolve_left (Nat.not_le.mpr hmany)
    exact ((Worker.rule (fun _ => confined_rule hserver) hnames hrun sid).holds s hs).2

def handshakeEvents : List LoopEvent :=
  [.wait [.listener], .listen [(7, 0)], .wait [.client 7],
    .serve ⟨true, false, [.data sampleHandshake.request.bytes], [.sent 127]⟩ false 1000]

theorem http_only_handshake :
    ∃ w s, Runs.run (EpollWorker.step chatServer) EpollWorker.init handshakeEvents = some w ∧
      w.memory 0 = some s ∧ s.req.strayWrites.length = 3 ∧ s.writeBuffer.readPos = 127 ∧
      HttpOnly s := by
  have hchecks : ((Runs.run (EpollWorker.step chatServer) EpollWorker.init handshakeEvents).bind
      fun w => (w.memory 0).map fun s =>
        (w.accepted, w.inUse 0, s.req.strayWrites.length, s.writeBuffer.readPos)) =
      some (1, true, 3, 127) := by decide +kernel
  obtain ⟨w, hrun, hw⟩ := Option.bind_eq_some_iff.mp hchecks
  obtain ⟨s, hmemory, hs⟩ := Option.map_eq_some_iff.mp hw
  simp only [Prod.mk.injEq] at hs
  obtain ⟨haccepted, huse, hstrays, hsent⟩ := hs
  refine ⟨w, s, hrun, hmemory, hstrays, hsent, ?_⟩
  exact ((http_only chatServer (confined_of_no_endpoint fun _ _ => rfl)).1 handshakeEvents w hrun
    (Or.inl haccepted.le) 0 s huse hmemory).1

end WarpApi

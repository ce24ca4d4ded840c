import WarpApi.Chunking
import WarpApi.EpollSession
import WarpApi.UringRuns

/-!
Requests of one connection. The request object of a session is written to by every
parse and is cleared only when the epoll build has flushed a response, so a request
is seen as a new session would see it exactly when it overwrites what earlier ones
have left behind. The log tells which object a parse has started from.
-/
namespace WarpApi

def presentBit (field : Bytes) : ℕ :=
  match splitHeader field with
  | none => HeaderType.none.val
  | some (name, _) => (headerKey name.length).val

/-- What a header line stores in a slot of the header array. -/
def storedValue (slot : Fin maxHeadersSize) (field : Bytes) : Option Bytes :=
  match splitHeader field with
  | none => none
  | some (name, value) =>
    if headerKey name.length ≠ .none ∧ (headerKey name.length).val = slot.val then some value
    else none

namespace Head

def presentBits (h : Head) : ℕ := (h.fields.map presentBit).foldr (· ||| ·) 0

/-- The last line that stores something in the slot decides. -/
def lastStored (h : Head) (slot : Fin maxHeadersSize) : Option Bytes :=
  h.fields.reverse.findSome? (storedValue slot)

end Head

theorem presentHeaders_storeField (req : HttpRequest) (field : Bytes) :
    (storeField req field).presentHeaders = req.presentHeaders ||| presentBit field := by
  unfold storeField presentBit
  cases splitHeader field with
  | none => exact (Nat.or_zero _).symm
  | some p =>
    obtain ⟨name, value⟩ := p
    dsimp only
    unfold storeHeader HttpRequest.addHeader HttpRequest.addPresent
    by_cases hkey : headerKey name.length = .none
    · rw [hkey]
      exact (Nat.or_zero _).symm
    · rw [if_pos hkey, if_pos hkey]
      split_ifs <;> rfl

theorem headers_storeField (req : HttpRequest) (field : Bytes) (slot : Fin maxHeadersSize) :
    (storeField req field).data.headers slot =
      (storedValue slot field).getD (req.data.headers slot) := by
  unfold storeField storedValue
  cases splitHeader field with
  | none => rfl
  | some p =>
    obtain ⟨name, value⟩ := p
    dsimp only
    unfold storeHeader HttpRequest.addHeader HttpRequest.addPresent
    by_cases hkey : headerKey name.length = .none
    · simp [hkey]
    · rw [if_pos hkey, if_pos hkey]
      by_cases hslot : (headerKey name.length).val = slot.val
      · have hlt : (headerKey name.length).val < maxHeadersSize := hslot ▸ slot.isLt
        have heq : (⟨(headerKey name.length).val, hlt⟩ : Fin maxHeadersSize) = slot := Fin.ext hslot
        rw [dif_pos hlt, if_pos ⟨hkey, hslot⟩, heq]
        exact Function.update_self ..
      · rw [if_neg fun h => hslot h.2]
        split_ifs with hlt
        · exact Function.update_of_ne (fun heq => hslot (congrArg Fin.val heq).symm) ..
        · rfl

namespace Head

variable (h : Head) (req : HttpRequest)

theorem presentHeaders_request :
    (h.request req).presentHeaders = req.presentHeaders ||| h.presentBits := by
  have hfold : ∀ (fields : List Bytes) (req : HttpRequest),
      (fields.foldl storeField req).presentHeaders =
        req.presentHeaders ||| (fields.map presentBit).foldr (· ||| ·) 0 := by
    intro fields
    induction fields with
    | nil => exact fun req => (Nat.or_zero _).symm
    | cons f fields ih =>
      intro req
      rw [List.foldl_cons, ih, presentHeaders_storeField, List.map_cons, List.foldr_cons,
        Nat.or_assoc]
  exact hfold h.fields _

theorem headers_request (slot : Fin maxHeadersSize) :
    (h.request req).data.headers slot = (h.lastStored slot).getD (req.data.headers slot) := by
  have hfold : ∀ (fields : List Bytes) (req : HttpRequest),
      (fields.foldl storeField req).data.headers slot =
        (fields.reverse.findSome? (storedValue slot)).getD (req.data.headers slot) := by
    intro fields
    induction fields with
    | nil => exact fun req => rfl
    | cons f fields ih =>
      intro req
      rw [List.foldl_cons, ih, headers_storeField, List.reverse_cons, List.findSome?_append]
      cases fields.reverse.findSome? (storedValue slot) with
      | none => cases hf : storedValue slot f <;> simp [hf]
      | some value => rfl
  exact hfold h.fields _

theorem presentHeaders_result (n : UInt64) (body : Bytes) :
    (h.result req n body).presentHeaders = req.presentHeaders ||| h.presentBits := by
  unfold result
  split <;> exact h.presentHeaders_request req

theorem headers_result (n : UInt64) (body : Bytes) (slot : Fin maxHeadersSize) :
    (h.result req n body).data.headers slot = (h.lastStored slot).getD (req.data.headers slot) := by
  unfold result
  split <;> exact h.headers_request req slot

end Head

/-- What the parser takes: a complete request, or a head without a body at the end of
the received bytes. The last argument is the part that it takes. -/
inductive Taken (settings : SettingsData) : Bytes → Head → UInt64 → Bytes → Prop
  | complete (r : CompleteRequest settings) (rest : Bytes) :
      Taken settings (r.bytes ++ rest) r.head r.length r.bytes
  | cut (h : Head) (hdecl : declaredLength settings h.fields = some 0) :
      Taken settings h.bytes h 0 h.bytes

theorem Taken.parseBytes_eq {settings : SettingsData} {unread taken : Bytes} {h : Head} {n : UInt64}
    (htaken : Taken settings unread h n taken) :
    ∃ body, ∀ data, data = unread ∨ data = taken → minRequestSize ≤ data.length →
      ∀ req keepAlive, parseBytes settings data req keepAlive =
        ⟨h.result req n body, h.keepAlive, some taken.length⟩ := by
  cases htaken with
  | complete r rest =>
    refine ⟨r.body, ?_⟩
    rintro data (rfl | rfl) hmin req keepAlive
    · exact r.parseBytes_bytes rest req keepAlive hmin
    · have halone := r.parseBytes_bytes [] req keepAlive (by rwa [List.append_nil])
      rwa [List.append_nil] at halone
  | cut _ hdecl =>
    refine ⟨[], ?_⟩
    rintro data (rfl | rfl) hmin req keepAlive
    all_goals
      have hparse := (parseBytes_section settings h [] [] 0 req keepAlive
        (by rwa [List.append_nil]) SectionEnd.exhausted hdecl).1 (Or.inl rfl)
      rw [List.append_nil] at hparse
      exact hparse

/-- Nothing else is taken, unless the length of the request wraps around. -/
theorem taken_or_wraps {settings : SettingsData} {unread : Bytes} {before : HttpRequest}
    {keepAlive : Bool} {consumed : ℕ} (hlt : unread.length < 2 ^ 64)
    (h : (parseBytes settings unread before keepAlive).consumed = some consumed) :
    Wraps settings unread ∨
      ∃ head n taken, Taken settings unread head n taken ∧ consumed = taken.length := by
  have hnext := next_requestDecoder settings unread before keepAlive
  rw [h, Option.map_some] at hnext
  have hlength : ∀ head n taken, Taken settings unread head n taken →
      minRequestSize ≤ unread.length → consumed = taken.length := by
    intro head n taken htaken hmin
    obtain ⟨body, hparse⟩ := htaken.parseBytes_eq
    rw [hparse unread (Or.inl rfl) hmin] at h
    exact (Option.some.inj h).symm
  obtain ⟨hmin, ⟨head, rfl, hdecl⟩ | hwraps | ⟨r, rest, rfl, -⟩⟩ := next_eq_some_cases hlt hnext
  · exact Or.inr ⟨head, 0, _, .cut head hdecl, hlength _ _ _ (.cut head hdecl) hmin⟩
  · exact Or.inl hwraps
  · exact Or.inr ⟨r.head, r.length, _, .complete r rest, hlength _ _ _ (.complete r rest) hmin⟩

/-- What a new session makes of these bytes. -/
def freshParse (settings : SettingsData) (bytes : Bytes) : ParseResult :=
  parseBytes settings bytes (Session.init settings 0 0).req (Session.init settings 0 0).keepAlive

/-- Method, path, query, version, body, present headers and stored values agree. -/
structure SameRequest (a b : HttpRequest) : Prop where
  view : a.view = b.view
  presentHeaders : a.presentHeaders = b.presentHeaders
  headers : a.data.headers = b.data.headers

/-- A new session takes the same request from these bytes. -/
def Isolated (settings : SettingsData) (taken : Bytes) (seen : HttpRequest) : Prop :=
  (freshParse settings taken).consumed = some taken.length ∧
    SameRequest seen (freshParse settings taken).req

/-- The request is long enough to be taken on its own, and it sets again whatever the
request object still holds of earlier ones: the body, the bits and the values. -/
structure Overwrites (h : Head) (n : UInt64) (taken : Bytes) (before : HttpRequest) : Prop where
  size : minRequestSize ≤ taken.length
  body : n = 0 → before.data.body = []
  presentHeaders : before.presentHeaders ||| h.presentBits = h.presentBits
  headers : ∀ slot, h.lastStored slot = none → before.data.headers slot = []

theorem sameRequest_result_iff (h : Head) (n : UInt64) (body : Bytes) (before : HttpRequest) :
    SameRequest (h.result before n body) (h.result HttpRequest.init n body) ↔
      (n = 0 → before.data.body = []) ∧
        before.presentHeaders ||| h.presentBits = h.presentBits ∧
        ∀ slot, h.lastStored slot = none → before.data.headers slot = [] := by
  have hbits : (h.result before n body).presentHeaders =
      (h.result HttpRequest.init n body).presentHeaders ↔
        before.presentHeaders ||| h.presentBits = h.presentBits := by
    have hzero : HttpRequest.init.presentHeaders ||| h.presentBits = h.presentBits := Nat.zero_or _
    rw [h.presentHeaders_result, h.presentHeaders_result, hzero]
  have hview : (h.result before n body).view = (h.result HttpRequest.init n body).view ↔
      (n = 0 → before.data.body = []) := by
    rw [h.view_result, h.view_result, RequestView.mk.injEq]
    by_cases hn : n = 0
    · simp only [hn, if_true, true_and, forall_const]
      exact Iff.rfl
    · simp only [hn, if_false, and_self, false_implies]
  have hslots : (h.result before n body).data.headers =
      (h.result HttpRequest.init n body).data.headers ↔
        ∀ slot, h.lastStored slot = none → before.data.headers slot = [] := by
    rw [funext_iff]
    refine forall_congr' fun slot => ?_
    rw [h.headers_result, h.headers_result]
    cases h.lastStored slot with
    | none => exact ⟨fun heq _ => heq, fun heq => heq rfl⟩
    | some value => exact ⟨fun _ hnone => absurd hnone (by simp), fun _ => rfl⟩
  rw [← hview, ← hslots, ← hbits]
  exact ⟨fun h => ⟨h.view, h.presentHeaders, h.headers⟩, fun h => ⟨h.1, h.2.1, h.2.2⟩⟩

theorem isolated_result_iff {settings : SettingsData} {unread taken : Bytes} {h : Head} {n : UInt64}
    {before : HttpRequest} {keepAlive : Bool} {consumed : ℕ}
    (htaken : Taken settings unread h n taken)
    (hconsumed : (parseBytes settings unread before keepAlive).consumed = some consumed) :
    Isolated settings taken (parseBytes settings unread before keepAlive).req ↔
      Overwrites h n taken before := by
  obtain ⟨body, hparse⟩ := htaken.parseBytes_eq
  have hmin : minRequestSize ≤ unread.length := by
    by_contra hshort
    rw [parseBytes, if_pos (by omega)] at hconsumed
    exact absurd hconsumed (by simp)
  rw [hparse unread (Or.inl rfl) hmin before keepAlive]
  unfold Isolated freshParse
  by_cases hsize : minRequestSize ≤ taken.length
  · rw [hparse taken (Or.inr rfl) hsize]
    have hsame := sameRequest_result_iff h n body before
    exact ⟨fun hi => ⟨hsize, (hsame.mp hi.2).1, (hsame.mp hi.2).2.1, (hsame.mp hi.2).2.2⟩,
      fun ho => ⟨rfl, hsame.mpr ⟨ho.body, ho.presentHeaders, ho.headers⟩⟩⟩
  · refine ⟨fun hi => ?_, fun ho => absurd ho.size hsize⟩
    have hnone := hi.1
    rw [parseBytes, if_pos (by omega)] at hnone
    exact absurd hnone (by simp)

/-- What the log says about a request is what `parseRequest` has done. -/
def Genuine (settings : SettingsData) : Obs → Prop
  | .handled before seen unread => ∃ keepAlive consumed,
    (parseBytes settings unread before keepAlive).consumed = some consumed ∧
      seen = (parseBytes settings unread before keepAlive).req
  | _ => True

/-- An HTTP session stays one and notes what it does. -/
def Notes (settings : SettingsData) (s t : Session) : Prop :=
  s.mode = .http → t.mode = .http ∧ NewEntries (Genuine settings) s t

namespace Notes

variable {settings : SettingsData}

theorem of_log_eq {s t : Session} (hmode : t.mode = s.mode) (hlog : t.log = s.log) :
    Notes settings s t := fun hs => ⟨hmode.trans hs, .of_log_eq hlog⟩

theorem trans (s t u : Session) (h : Notes settings s t) (h' : Notes settings t u) :
    Notes settings s u := fun hs =>
  ⟨(h' (h hs).1).1, (h hs).2.trans (h' (h hs).1).2⟩

theorem attemptRequest (s : Session) : Notes settings s (s.attemptRequest settings).2 := by
  intro hs
  cases hconsumed : (parseBytes settings s.readBuffer.unread s.req s.keepAlive).consumed with
  | none =>
    rw [Session.attemptRequest_of_none hconsumed]
    exact ⟨hs, .of_cons rfl trivial⟩
  | some n =>
    rw [Session.attemptRequest_of_some hconsumed]
    refine ⟨hs, [_, _], rfl, fun o ho => ?_⟩
    rcases List.mem_cons.mp ho with rfl | ho
    · exact ⟨s.keepAlive, n, hconsumed, rfl⟩
    · rw [List.mem_singleton.mp ho]
      trivial

theorem handleRequest (server : Server) (s : Session) :
    Notes settings s (s.handleRequest server) := by
  intro hs
  have hanswers := Answers.handleRequest server s
  obtain ⟨new, hlog, hnew⟩ := hanswers.entries
  refine ⟨hanswers.mode_eq.trans hs, new, hlog, fun o ho => ?_⟩
  have hanswer := hnew o ho
  cases o with
  | handled => simp [Obs.isAnswer] at hanswer
  | _ => trivial

theorem processInput {server : Server} {s t : Session} {alive : Bool}
    (h : s.processInput server = some (alive, t)) : Notes server.settings s t := by
  intro hs
  unfold Session.processInput at h
  rw [hs] at h
  simp only [Option.map_eq_some_iff, Prod.mk.injEq] at h
  obtain ⟨t', hdrain, -, rfl⟩ := h
  exact parseLoop_relates (Notes server.settings) trans attemptRequest (handleRequest server) _ s t'
    hdrain hs

theorem epollRelation (server : Server) : EpollRelation server (Notes server.settings) where
  refl := fun s => of_log_eq rfl rfl
  trans := trans
  close := fun s => of_log_eq rfl rfl
  giveUp := fun s => of_log_eq rfl rfl
  receive := fun s bytes => of_log_eq rfl rfl
  input := fun s alive t => processInput
  sent := fun s n => of_log_eq rfl rfl
  complete := by
    intro s hs
    unfold Session.onWriteComplete
    dsimp only
    split_ifs <;> exact ⟨hs, .of_cons rfl trivial⟩

theorem uringRelation (server : Server) : UringRelation server (Notes server.settings) where
  refl := fun s => of_log_eq rfl rfl
  trans := trans
  input := by
    intro s bytes t _ h
    unfold Session.takeInput at h
    rw [Option.map_eq_some_iff] at h
    obtain ⟨⟨alive, u⟩, hprocess, rfl⟩ := h
    have hu : Notes server.settings s u :=
      trans _ ((s.setReading false).receive bytes) _ (of_log_eq rfl rfl) (processInput hprocess)
    cases alive with
    | true => exact hu
    | false => exact trans _ _ _ hu (of_log_eq rfl rfl)
  flags := fun s _ => of_log_eq rfl rfl
  locked := fun s _ => of_log_eq rfl rfl
  tick := fun s _ => of_log_eq rfl rfl
  release := fun s => of_log_eq rfl rfl
  keepAliveOff := fun s => of_log_eq rfl rfl
  closing := fun s => of_log_eq rfl rfl
  close := fun s => of_log_eq rfl rfl

end Notes

/-- An HTTP session with a genuine log. -/
def GenuineSession (settings : SettingsData) (s : Session) : Prop :=
  s.mode = .http ∧ ∀ o ∈ s.log, Genuine settings o

theorem GenuineSession.notes {settings : SettingsData} {s t : Session}
    (h : GenuineSession settings s) (hn : Notes settings s t) : GenuineSession settings t := by
  obtain ⟨hmode, new, hlog, hnew⟩ := hn h.1
  refine ⟨hmode, fun o ho => ?_⟩
  rw [hlog] at ho
  exact (List.mem_append.mp ho).elim (hnew o) (h.2 o)

theorem genuineSession_init (settings : SettingsData) (sid : SessionId) (socket : ℤ) :
    GenuineSession settings (Session.init settings sid socket) :=
  ⟨rfl, fun _ ho => absurd ho List.not_mem_nil⟩

theorem genuine_localStep {server : Server} {sid : SessionId} {ring : Ring} {e : Event}
    {v v' : View}
    (h : ∀ s, v.session = some s → GenuineSession server.settings s)
    (hstep : LocalStep server sid ring e v v') :
    ∀ s, v'.session = some s → GenuineSession server.settings s := by
  intro t ht
  cases hstep with
  | born fd more =>
    obtain rfl := Option.some.inj ht
    refine (genuineSession_init server.settings sid fd).notes ?_
    unfold Session.onReadReadySqe
    split <;> exact Notes.of_log_eq rfl rfl
  | released => simp at ht
  | handled hcompletes hactive hhandled htouched =>
    obtain rfl := Option.some.inj ht
    refine ((h _ rfl).notes ((Notes.uringRelation server).handled hactive hhandled)).notes ?_
    rcases htouched with ⟨rfl, -⟩ | ⟨⟨now, rfl⟩, -⟩ <;> exact Notes.of_log_eq rfl rfl
  | expiredFreed => simp at ht
  | expiredKept =>
    obtain rfl := Option.some.inj ht
    exact (h _ rfl).notes (Notes.of_log_eq rfl rfl)
  | _ => exact h t ht

/-- The history of a connection: all that its session has done in a run of one of the
two backends. -/
inductive History (server : Server) : List Obs → Prop
  | epoll {sid : SessionId} {socket : ℤ} {es : List EpollEvent} {t : Session}
      (hrun : Runs.run (epollStep server) (Session.init server.settings sid socket) es = some t) :
      History server t.log
  | ioUring {entries : ℕ} {es : List Event} {w : Worker} {sid : SessionId} {s : Session}
      (hrun : Runs.run (Worker.step server) (Worker.init entries) es = some w)
      (hs : w.pool sid = some s) : History server s.log

theorem History.genuine {server : Server} {log : List Obs} (h : History server log) :
    ∀ o ∈ log, Genuine server.settings o := by
  cases h with
  | @epoll sid socket es t hrun =>
    have hnotes := (Notes.epollRelation server).run es _ t hrun
    exact ((genuineSession_init server.settings sid socket).notes hnotes).2
  | @ioUring entries es w sid s hrun hs =>
    exact (Worker.views_of_reachable
      (I := fun _ v => ∀ s, v.session = some s → GenuineSession server.settings s)
      (fun _ _ hs => absurd hs (by simp [View.unused]))
      (fun _ _ _ _ _ hv _ hstep => genuine_localStep hv hstep) ⟨es, hrun⟩ sid s hs).2

/-- In every history every request is seen as a new session would see it exactly when
it overwrites what the earlier requests have left in the request object. -/
theorem isolated_iff_overwrites (server : Server) (log : List Obs) (hlog : History server log)
    (before seen : HttpRequest) (unread : Bytes) (hhandled : .handled before seen unread ∈ log)
    (h : Head) (n : UInt64) (taken : Bytes) (htaken : Taken server.settings unread h n taken) :
    Isolated server.settings taken seen ↔ Overwrites h n taken before := by
  obtain ⟨keepAlive, consumed, hconsumed, rfl⟩ := hlog.genuine _ hhandled
  exact isolated_result_iff htaken hconsumed

/-- The request object before and after the newest handled request, and its bytes. -/
def lastHandled (log : List Obs) : Option (HttpRequest × HttpRequest × Bytes) :=
  log.findSome? fun
    | .handled before seen unread => some (before, seen, unread)
    | _ => none

theorem mem_of_lastHandled {log : List Obs} {before seen : HttpRequest} {unread : Bytes}
    (h : lastHandled log = some (before, seen, unread)) : .handled before seen unread ∈ log := by
  obtain ⟨o, ho, hval⟩ := List.exists_of_findSome?_eq_some h
  cases o with
  | handled => simp_all
  | _ => simp at hval

def plainComplete : CompleteRequest configJson where
  head :=
    { line := ascii "GET /a HTTP/1.1"
      requestLine := ⟨ascii "GET", ascii "/a", [], ascii "HTTP/1.1"⟩
      fields := []
      line_cr := by decide
      line_ok := by decide
      fields_ok := by decide }
  body := []
  length := 0
  declared := by decide
  body_length := by decide
  size_lt := by decide

theorem first_request_isolated :
    ∃ log before seen, History (bareServer .ioUring) log ∧
      .handled before seen plainRequest ∈ log ∧ Isolated configJson plainRequest seen := by
  have hchecks : ((Runs.run (Worker.step (bareServer .ioUring)) (Worker.init 8)
      acceptAndAnswer).bind fun w => (w.pool 0).bind fun s => (lastHandled s.log).map
        fun (before, _, unread) => (decide (unread = plainRequest), decide (before.data.body = []),
          decide (before.presentHeaders = 0), decide (∀ slot, before.data.headers slot = []))) =
      some (true, true, true, true) := by decide +kernel
  obtain ⟨w, hw, hrest⟩ := Option.bind_eq_some_iff.mp hchecks
  obtain ⟨s, hs, hrest⟩ := Option.bind_eq_some_iff.mp hrest
  obtain ⟨⟨before, seen, unread⟩, hlast, hrest⟩ := Option.map_eq_some_iff.mp hrest
  simp only [Prod.mk.injEq, decide_eq_true_eq] at hrest
  obtain ⟨rfl, hbody, hbits, hslots⟩ := hrest
  have hmem := mem_of_lastHandled hlast
  have hbytes : plainComplete.bytes = plainRequest := by decide
  have htaken := Taken.complete plainComplete []
  rw [List.append_nil, hbytes] at htaken
  refine ⟨s.log, before, seen, .ioUring hw hs, hmem, ?_⟩
  refine (isolated_iff_overwrites (bareServer .ioUring) s.log (.ioUring hw hs) before seen
    plainRequest hmem plainComplete.head 0 plainRequest htaken).mpr ?_
  refine ⟨by decide, fun _ => hbody, ?_, fun slot _ => hslots slot⟩
  rw [hbits]
  exact Nat.zero_or _

def upgradeWithBody : Bytes :=
  ascii ("GET /a HTTP/1.1\r\nUpgrade: websocket\r\nSec-WebSocket-Key: k\r\n" ++
    "Sec-WebSocket-Version: 13\r\nContent-Length: 5\r\n\r\nhello")

/-- The request behind it shows the earlier body and goes to `upgradeToWebSocket` itself. -/
theorem plain_request_behind_upgrade :
    ∃ log before seen, History (bareServer .ioUring) log ∧
      .handled before seen plainRequest ∈ log ∧ seen.data.body = ascii "hello" ∧
      hasHeader seen.presentHeaders upgradeMask = true ∧
      hasHeader (freshParse configJson plainRequest).req.presentHeaders upgradeMask = false ∧
      ¬ Isolated configJson plainRequest seen := by
  have hchecks : ((Runs.run (Worker.step (bareServer .ioUring)) (Worker.init 8)
      [.accept 5 true, .submit, .recv 0 16384 (.data upgradeWithBody) 0, .submit,
        .recv 0 16384 (.data plainRequest) 0]).bind fun w => (w.pool 0).bind fun s =>
          (lastHandled s.log).map fun (_, seen, unread) => (decide (unread = plainRequest),
            decide (seen.data.body = ascii "hello"), hasHeader seen.presentHeaders upgradeMask)) =
      some (true, true, true) := by decide +kernel
  obtain ⟨w, hw, hrest⟩ := Option.bind_eq_some_iff.mp hchecks
  obtain ⟨s, hs, hrest⟩ := Option.bind_eq_some_iff.mp hrest
  obtain ⟨⟨before, seen, unread⟩, hlast, hrest⟩ := Option.map_eq_some_iff.mp hrest
  simp only [Prod.mk.injEq, decide_eq_true_eq] at hrest
  obtain ⟨rfl, hbody, hupgrade⟩ := hrest
  have hfresh : hasHeader (freshParse configJson plainRequest).req.presentHeaders upgradeMask =
      false := by decide +kernel
  refine ⟨s.log, before, seen, .ioUring hw hs, mem_of_lastHandled hlast, hbody, hupgrade, hfresh,
    ?_⟩
  intro hisolated
  rw [← hisolated.2.presentHeaders, hupgrade] at hfresh
  exact absurd hfresh (by decide)

end WarpApi

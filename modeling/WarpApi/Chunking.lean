import WarpApi.HandleRequest
import WarpApi.RequestGrammar
import WarpApi.Library.ChunkedDecoding

/-!
Received chunks. `Hands` collects what the parse loop hands to `handleRequest`
when chunks are appended to the read buffer one after the other. The loop is a
decoder whose state is the body that the request object still holds; a cut is
visible when the bytes before it are accepted although more of the same request
may come: behind a complete header line with no blank line seen, and where the
sum of header size and body length wraps around.
-/
namespace WarpApi

/-- What can be observed of `while (parseRequest()) handleRequest();`, run now and
once more behind every further chunk: the requests handed over so far and, when
everything has come to an end, the unread bytes. -/
inductive Hands (server : Server) :
    Session → List Bytes → List RequestView → Option Bytes → Prop
  | now (s : Session) (chunks : List Bytes) : Hands server s chunks [] none
  | done {s t : Session} (h : s.attemptRequest server.settings = (false, t)) :
      Hands server s [] [] (some t.readBuffer.unread)
  | request {s t : Session} {chunks : List Bytes} {views : List RequestView}
      {rest : Option Bytes} (h : s.attemptRequest server.settings = (true, t))
      (htail : Hands server (t.handleRequest server) chunks views rest) :
      Hands server s chunks (t.req.view :: views) rest
  | chunk {s t : Session} {chunk : Bytes} {chunks : List Bytes} {views : List RequestView}
      {rest : Option Bytes} (h : s.attemptRequest server.settings = (false, t))
      (htail : Hands server (t.receive chunk) chunks views rest) :
      Hands server s (chunk :: chunks) views rest

/-- Nothing is waiting in the read buffer of an HTTP session. -/
structure Idle (s : Session) : Prop where
  mode : s.mode = .http
  unread : s.readBuffer.unread = []

/-- The chunks give the same requests and leave the same bytes as one chunk of
all of them, in every idle session whose read buffer has room for the stream. -/
def CutsInvisible (server : Server) (first : Bytes) (chunks : List Bytes) : Prop :=
  ∀ s, Idle s → (first ++ chunks.flatten).length ≤ s.readBuffer.capacity →
    ∀ views rest, Hands server (s.receive first) chunks views rest ↔
      Hands server (s.receive (first ++ chunks.flatten)) [] views rest

/-- A head that declares no body, with its last line just completed. -/
def StopsAtLine (settings : SettingsData) (tail : Bytes) : Prop :=
  ∃ h : Head, tail = h.bytes ∧ declaredLength settings h.fields = some 0

/-- A head whose size and body length add up to 2^64 or more, and to a number
that the received bytes reach once it has wrapped around. -/
def Wraps (settings : SettingsData) (tail : Bytes) : Prop :=
  ∃ (h : Head) (t rest : Bytes) (n : UInt64), tail = h.bytes ++ t ∧
    SectionEnd t (some rest) ∧ declaredLength settings h.fields = some n ∧
    2 ^ 64 ≤ tail.length - rest.length + n.toNat ∧
    (tail.length - rest.length + n.toNat) % 2 ^ 64 ≤ tail.length

/-- Complete requests, then at least 16 bytes that are accepted too early. -/
def Premature (settings : SettingsData) (received : Bytes) : Prop :=
  ∃ (rs : List (CompleteRequest settings)) (tail : Bytes),
    received = (rs.map CompleteRequest.bytes).flatten ++ tail ∧ minRequestSize ≤ tail.length ∧
      (StopsAtLine settings tail ∨ Wraps settings tail)

/-- The state is the body left by the request before. -/
def requestDecoder (settings : SettingsData) : Decoder Bytes UInt8 RequestView where
  next body pending :=
    let result := parseBytes settings pending (HttpRequest.init.setBody body) false
    result.consumed.map fun n => (result.req.data.body, result.req.view, n)

theorem view_accept (h : Head) (n : UInt64) (size : ℕ) (rest : Bytes) (req : HttpRequest) :
    (h.accept n size rest req).req.view =
      ⟨HttpRequest.parseMethod h.requestLine.method, h.requestLine.path, h.requestLine.query,
        h.requestLine.version, if n = 0 then req.data.body else rest.take n.toNat⟩ :=
  h.view_result req n (rest.take n.toNat)

theorem consumed_accept (h : Head) (n : UInt64) (size : ℕ) (rest : Bytes) (req : HttpRequest) :
    (h.accept n size rest req).consumed =
      some (if n = 0 then size else (size + n.toNat) % 2 ^ 64) := rfl

/-- The earlier request object matters only through its body. -/
theorem next_requestDecoder (settings : SettingsData) (data : Bytes) (req : HttpRequest)
    (keepAlive : Bool) :
    (requestDecoder settings).next req.data.body data =
      (parseBytes settings data req keepAlive).consumed.map fun n =>
        ((parseBytes settings data req keepAlive).req.data.body,
          (parseBytes settings data req keepAlive).req.view, n) := by
  simp only [requestDecoder]
  rcases parseBytes_cases settings data with hnone | ⟨h, t, rest, n, -, -, -, -, -, hparse⟩
  · rw [hnone, hnone]
    rfl
  · have hview : (h.accept n (data.length - rest.length) rest
        (HttpRequest.init.setBody req.data.body)).req.view =
        (h.accept n (data.length - rest.length) rest req).req.view := by
      rw [view_accept, view_accept]
      rfl
    have hbody := congrArg RequestView.body hview
    simp only [HttpRequest.view] at hbody
    rw [hparse, hparse, consumed_accept, consumed_accept, hview, hbody]

theorem attemptRequest_eq_false {settings : SettingsData} {s t : Session}
    (h : s.attemptRequest settings = (false, t)) :
    (requestDecoder settings).next s.req.data.body s.readBuffer.unread = none ∧
      t.readBuffer = s.readBuffer ∧ t.req.data.body = s.req.data.body := by
  unfold Session.attemptRequest Session.parseRequest at h
  rw [next_requestDecoder settings _ s.req s.keepAlive]
  dsimp only [Session.note] at h
  cases hconsumed : (parseBytes settings s.readBuffer.unread s.req s.keepAlive).consumed with
  | none =>
    simp only [hconsumed, Prod.mk.injEq, true_and] at h
    subst h
    exact ⟨rfl, rfl, body_parseBytes_of_none settings _ _ _ hconsumed⟩
  | some n => simp [hconsumed] at h

theorem attemptRequest_eq_true {settings : SettingsData} {s t : Session}
    (h : s.attemptRequest settings = (true, t)) :
    ∃ n, (requestDecoder settings).next s.req.data.body s.readBuffer.unread =
        some (t.req.data.body, t.req.view, n) ∧ t.readBuffer = s.readBuffer.advance n := by
  unfold Session.attemptRequest Session.parseRequest at h
  rw [next_requestDecoder settings _ s.req s.keepAlive]
  dsimp only [Session.note] at h
  cases hconsumed : (parseBytes settings s.readBuffer.unread s.req s.keepAlive).consumed with
  | none => simp [hconsumed] at h
  | some n =>
    simp only [hconsumed, Prod.mk.injEq, true_and] at h
    subst h
    exact ⟨n, rfl, rfl⟩

theorem attemptRequest_of_next_none {settings : SettingsData} {s : Session}
    (h : (requestDecoder settings).next s.req.data.body s.readBuffer.unread = none) :
    ∃ t, s.attemptRequest settings = (false, t) ∧ t.readBuffer = s.readBuffer ∧
      t.req.data.body = s.req.data.body := by
  cases hattempt : s.attemptRequest settings with
  | mk ok t =>
    cases ok with
    | false => exact ⟨t, rfl, (attemptRequest_eq_false hattempt).2⟩
    | true =>
      obtain ⟨n, hsome, -⟩ := attemptRequest_eq_true hattempt
      rw [h] at hsome
      simp at hsome

theorem attemptRequest_of_next_some {settings : SettingsData} {s : Session} {body' : Bytes}
    {view : RequestView} {n : ℕ}
    (h : (requestDecoder settings).next s.req.data.body s.readBuffer.unread =
      some (body', view, n)) :
    ∃ t, s.attemptRequest settings = (true, t) ∧ t.req.data.body = body' ∧ t.req.view = view ∧
      t.readBuffer = s.readBuffer.advance n := by
  cases hattempt : s.attemptRequest settings with
  | mk ok t =>
    cases ok with
    | false =>
      rw [(attemptRequest_eq_false hattempt).1] at h
      simp at h
    | true =>
      obtain ⟨m, hsome, hbuf⟩ := attemptRequest_eq_true hattempt
      rw [h] at hsome
      simp only [Option.some.injEq, Prod.mk.injEq] at hsome
      obtain ⟨rfl, rfl, rfl⟩ := hsome
      exact ⟨t, rfl, rfl, rfl, hbuf⟩

/-- Room for a chunk and for what follows it. -/
theorem room_receive (s : Session) (chunk : Bytes) {k : ℕ}
    (hroom : s.readBuffer.size + (chunk.length + k) ≤ s.readBuffer.capacity) :
    chunk.length ≤ s.readBuffer.free ∧
      (s.receive chunk).readBuffer.size + k ≤ (s.receive chunk).readBuffer.capacity := by
  have hfree : chunk.length ≤ s.readBuffer.free := by
    unfold BoundedQueue.free
    omega
  refine ⟨hfree, ?_⟩
  simp only [Session.receive, BoundedQueue.capacity_push]
  rw [BoundedQueue.size_push_of_le _ _ hfree]
  omega

theorem emits_of_hands {server : Server} {s : Session} {chunks : List Bytes}
    {views : List RequestView} {rest : Option Bytes} (h : Hands server s chunks views rest)
    (hroom : s.readBuffer.size + chunks.flatten.length ≤ s.readBuffer.capacity) :
    (requestDecoder server.settings).Emits s.req.data.body s.readBuffer.unread chunks views
      rest := by
  induction h with
  | now s chunks => exact Decoder.Emits.now _ _ _
  | done h =>
    obtain ⟨hnext, hbuf, -⟩ := attemptRequest_eq_false h
    rw [hbuf]
    exact Decoder.Emits.done hnext
  | @request s t chunks views rest h htail ih =>
    obtain ⟨n, hnext, hbuf⟩ := attemptRequest_eq_true h
    have hanswers := Answers.handleRequest server t
    refine Decoder.Emits.item hnext ?_
    rw [← BoundedQueue.unread_advance, ← hbuf, ← hanswers.readBuffer_eq, ← hanswers.req_eq]
    refine ih ?_
    rw [hanswers.readBuffer_eq, hbuf, BoundedQueue.size_advance, BoundedQueue.capacity_advance]
    omega
  | @chunk s t chunk chunks views rest h htail ih =>
    obtain ⟨hnext, hbuf, hbody⟩ := attemptRequest_eq_false h
    rw [List.flatten_cons, List.length_append, ← hbuf] at hroom
    obtain ⟨hfree, hroom⟩ := room_receive _ _ hroom
    refine Decoder.Emits.more hnext ?_
    rw [← hbody, ← hbuf, ← BoundedQueue.unread_push_of_le _ _ hfree]
    exact ih hroom

theorem hands_of_emits {server : Server} {s : Session} {chunks : List Bytes}
    {views : List RequestView} {rest : Option Bytes}
    (h : (requestDecoder server.settings).Emits s.req.data.body s.readBuffer.unread chunks views
      rest)
    (hroom : s.readBuffer.size + chunks.flatten.length ≤ s.readBuffer.capacity) :
    Hands server s chunks views rest := by
  generalize hbody : s.req.data.body = body at h
  generalize hunread : s.readBuffer.unread = unread at h
  induction h generalizing s with
  | now => exact Hands.now _ _
  | done hnext =>
    subst hbody hunread
    obtain ⟨t, hattempt, hbuf, -⟩ := attemptRequest_of_next_none hnext
    rw [← hbuf]
    exact Hands.done hattempt
  | item hnext htail ih =>
    subst hbody hunread
    obtain ⟨t, hattempt, hbody, rfl, hbuf⟩ := attemptRequest_of_next_some hnext
    have hanswers := Answers.handleRequest server t
    refine Hands.request hattempt (ih ?_ ?_ ?_)
    · rw [hanswers.readBuffer_eq, hbuf, BoundedQueue.size_advance, BoundedQueue.capacity_advance]
      omega
    · rw [hanswers.req_eq]
      exact hbody
    · rw [hanswers.readBuffer_eq, hbuf, BoundedQueue.unread_advance]
  | more hnext htail ih =>
    subst hbody hunread
    obtain ⟨t, hattempt, hbuf, hbody⟩ := attemptRequest_of_next_none hnext
    rw [List.flatten_cons, List.length_append, ← hbuf] at hroom
    obtain ⟨hfree, hroom⟩ := room_receive _ _ hroom
    refine Hands.chunk hattempt (ih hroom hbody ?_)
    rw [← hbuf]
    exact BoundedQueue.unread_push_of_le _ _ hfree

/-- The loop of the sources is the request decoder. -/
theorem hands_iff_emits (server : Server) (s : Session) (chunks : List Bytes)
    (views : List RequestView) (rest : Option Bytes)
    (hroom : s.readBuffer.size + chunks.flatten.length ≤ s.readBuffer.capacity) :
    Hands server s chunks views rest ↔
      (requestDecoder server.settings).Emits s.req.data.body s.readBuffer.unread chunks views
        rest :=
  ⟨fun h => emits_of_hands h hroom, fun h => hands_of_emits h hroom⟩

/-- From an idle session the loop decodes the stream from its first byte. -/
theorem hands_receive_iff (server : Server) (s : Session) (hidle : Idle s) (first : Bytes)
    (chunks : List Bytes) (views : List RequestView) (rest : Option Bytes)
    (hroom : (first ++ chunks.flatten).length ≤ s.readBuffer.capacity) :
    Hands server (s.receive first) chunks views rest ↔
      (requestDecoder server.settings).Emits s.req.data.body first chunks views rest := by
  have hsize : s.readBuffer.size = 0 := (BoundedQueue.size_eq_zero_iff _).mpr hidle.unread
  rw [List.length_append] at hroom
  obtain ⟨hfree, hroom⟩ := room_receive s first (by rwa [hsize, Nat.zero_add])
  have hunread : (s.receive first).readBuffer.unread = first := by
    simp only [Session.receive, BoundedQueue.unread_push_of_le _ _ hfree, hidle.unread,
      List.nil_append]
  rw [hands_iff_emits _ _ _ _ _ hroom, hunread]
  rfl

theorem hands_of_parseLoop (server : Server) (turns : ℕ) (s t : Session)
    (h : s.parseLoop server.settings (Session.handleRequest server) turns = some t) :
    ∃ views, Hands server s [] views (some t.readBuffer.unread) := by
  induction turns generalizing s with
  | zero => simp [Session.parseLoop] at h
  | succ turns ih =>
    rw [Session.parseLoop] at h
    split at h <;> rename_i s' hattempt
    · have hst : s' = t := Option.some.inj h
      exact ⟨[], hst ▸ Hands.done hattempt⟩
    · obtain ⟨views, hviews⟩ := ih (s'.handleRequest server) h
      exact ⟨s'.req.view :: views, Hands.request hattempt hviews⟩

theorem next_complete {settings : SettingsData} (r : CompleteRequest settings) (extra body : Bytes)
    (hmin : minRequestSize ≤ (r.bytes ++ extra).length) :
    (requestDecoder settings).next body (r.bytes ++ extra) =
      some ((r.request (HttpRequest.init.setBody body)).data.body,
        (r.request (HttpRequest.init.setBody body)).view, r.bytes.length) := by
  simp only [requestDecoder, r.parseBytes_bytes extra _ false hmin, Option.map_some]

/-- Behind the blank line of a head, the bytes that it declares make a request of it. -/
theorem exists_complete {settings : SettingsData} {head : Head} {n : UInt64} (rest : Bytes)
    (hdecl : declaredLength settings head.fields = some n) (hfits : n.toNat ≤ rest.length)
    (hlt : (head.bytes ++ (crlf ++ rest)).length < 2 ^ 64) :
    ∃ (r : CompleteRequest settings) (extra : Bytes),
      head.bytes ++ (crlf ++ rest) = r.bytes ++ extra ∧
        r.bytes.length = head.bytes.length + 2 + n.toNat := by
  have hbytes : (head.bytes ++ crlf ++ rest.take n.toNat).length =
      head.bytes.length + 2 + n.toNat := by
    simp only [List.length_append, List.length_take, crlf, List.length_cons, List.length_nil]
    omega
  refine ⟨⟨head, rest.take n.toNat, n, hdecl, ?_, ?_⟩, rest.drop n.toNat, ?_, hbytes⟩
  · rw [List.length_take]
    omega
  · simp only [List.length_append, crlf, List.length_cons, List.length_nil] at hlt
    omega
  · simp only [CompleteRequest.bytes, List.append_assoc, List.take_append_drop]

/-- What is accepted is a complete request, or it was accepted too early. -/
theorem next_eq_some_cases {settings : SettingsData} {body body' data : Bytes}
    {view : RequestView} {k : ℕ} (hlt : data.length < 2 ^ 64)
    (h : (requestDecoder settings).next body data = some (body', view, k)) :
    minRequestSize ≤ data.length ∧
      (StopsAtLine settings data ∨ Wraps settings data ∨
        ∃ (r : CompleteRequest settings) (extra : Bytes),
          data = r.bytes ++ extra ∧ k = r.bytes.length) := by
  have hnext := next_requestDecoder settings data (HttpRequest.init.setBody body) false
  have hbody : (HttpRequest.init.setBody body).data.body = body := rfl
  rw [hbody, h] at hnext
  rcases parseBytes_cases settings data with
    hnone | ⟨head, t, rest, n, hdata, hend, hdecl, hmin, hfits, hparse⟩
  · rw [hnone] at hnext
    simp at hnext
  refine ⟨hmin, ?_⟩
  rw [hparse, consumed_accept, Option.map_some] at hnext
  simp only [Option.some.injEq, Prod.mk.injEq] at hnext
  obtain ⟨-, -, hk⟩ := hnext
  by_cases hwrap : 2 ^ 64 ≤ data.length - rest.length + n.toNat
  · refine Or.inr (Or.inl ⟨head, t, rest, n, hdata, hend, hdecl, hwrap, ?_⟩)
    refine hfits.resolve_left ?_
    rintro rfl
    simp at hwrap
    omega
  · have hle : data.length - rest.length + n.toNat ≤ data.length := by
      rcases hfits with rfl | hfits
      · simp
      · rwa [Nat.mod_eq_of_lt (by omega)] at hfits
    have hsum : k = data.length - rest.length + n.toNat := by
      rw [hk]
      split
      · rename_i hzero
        rw [hzero, UInt64.toNat_zero, Nat.add_zero]
      · exact Nat.mod_eq_of_lt (by omega)
    cases hend with
    | exhausted =>
      have hn : n = 0 := by
        apply UInt64.toNat_inj.mp
        rw [UInt64.toNat_zero]
        simp only [List.length_nil] at hle
        omega
      rw [List.append_nil] at hdata
      exact Or.inl ⟨head, hdata, hn ▸ hdecl⟩
    | blank rest =>
      have hlen : data.length = head.bytes.length + 2 + rest.length := by
        rw [hdata]
        simp only [List.length_append, crlf, List.length_cons, List.length_nil]
        omega
      obtain ⟨r, extra, hsplit, hbytes⟩ := exists_complete rest hdecl (by omega)
        (hdata ▸ hlt)
      exact Or.inr (Or.inr ⟨r, extra, hdata.trans hsplit, by omega⟩)

theorem not_premature_nil (settings : SettingsData) : ¬ Premature settings [] := by
  rintro ⟨rs, tail, heq, hmin, -⟩
  have hlen := congrArg List.length heq
  rw [List.length_append, List.length_nil] at hlen
  unfold minRequestSize at hmin
  omega

theorem Premature.cons {settings : SettingsData} {received : Bytes}
    (h : Premature settings received) (r : CompleteRequest settings) :
    Premature settings (r.bytes ++ received) := by
  obtain ⟨rs, tail, rfl, hmin, htail⟩ := h
  exact ⟨r :: rs, tail, by simp, hmin, htail⟩

theorem complete_of_takes {settings : SettingsData} {body body' received rest : Bytes}
    {views : List RequestView}
    (htakes : (requestDecoder settings).Takes body received views body' rest)
    (hlt : received.length < 2 ^ 64) (h : ¬ Premature settings received) :
    ∃ rs : List (CompleteRequest settings),
      received = (rs.map CompleteRequest.bytes).flatten ++ rest := by
  induction htakes with
  | refl body received => exact ⟨[], rfl⟩
  | @item body body' body'' received rest view k views hnext htail ih =>
    obtain ⟨hmin, hstop | hwrap | ⟨r, extra, rfl, rfl⟩⟩ := next_eq_some_cases hlt hnext
    · exact absurd ⟨[], received, rfl, hmin, Or.inl hstop⟩ h
    · exact absurd ⟨[], received, rfl, hmin, Or.inr hwrap⟩ h
    · rw [List.drop_left] at ih
      rw [List.length_append] at hlt
      obtain ⟨rs, hrs⟩ := ih (by omega) fun hextra => h (hextra.cons r)
      exact ⟨r :: rs, by rw [List.map_cons, List.flatten_cons, List.append_assoc, ← hrs]⟩

/-- Received bytes that are not accepted too early settle every request in them. -/
theorem settled_of_not_premature {settings : SettingsData} {received : Bytes}
    (hlt : received.length < 2 ^ 64) (h : ¬ Premature settings received) (body : Bytes) :
    (requestDecoder settings).Settled body received := by
  intro views body' rest htakes body'' view k hnext
  obtain ⟨rs, hrs⟩ := complete_of_takes htakes hlt h
  have hrest : rest.length < 2 ^ 64 := by
    rw [hrs, List.length_append] at hlt
    omega
  obtain ⟨hmin, hstop | hwrap | ⟨r, extra, rfl, rfl⟩⟩ := next_eq_some_cases hrest hnext
  · exact absurd ⟨rs, rest, hrs, hmin, Or.inl hstop⟩ h
  · exact absurd ⟨rs, rest, hrs, hmin, Or.inr hwrap⟩ h
  · refine ⟨by rw [List.length_append]; omega, fun more => ?_⟩
    rw [next_complete r extra body' hmin] at hnext
    rw [List.append_assoc, next_complete r (extra ++ more) body', hnext]
    simp only [List.length_append] at hmin ⊢
    omega

theorem takes_complete {settings : SettingsData} (rs : List (CompleteRequest settings))
    (tail body : Bytes) (hmin : minRequestSize ≤ tail.length) :
    ∃ views body', ∀ extra, (requestDecoder settings).Takes body
      ((rs.map CompleteRequest.bytes).flatten ++ tail ++ extra) views body' (tail ++ extra) := by
  induction rs generalizing body with
  | nil => exact ⟨[], body, fun extra => Decoder.Takes.refl _ _⟩
  | cons r rs ih =>
    obtain ⟨views, body', htakes⟩ := ih (r.request (HttpRequest.init.setBody body)).data.body
    refine ⟨(r.request (HttpRequest.init.setBody body)).view :: views, body', fun extra => ?_⟩
    rw [List.map_cons, List.flatten_cons, List.append_assoc, List.append_assoc,
      ← List.append_assoc _ tail]
    refine Decoder.Takes.item (next_complete r _ body ?_) ?_
    · simp only [List.length_append]
      omega
    · rw [List.drop_left]
      exact htakes extra

/-- A head at the end of the buffer is accepted, and its blank line then is not. -/
theorem StopsAtLine.visible {settings : SettingsData} {tail : Bytes}
    (hmin : minRequestSize ≤ tail.length) (h : StopsAtLine settings tail) (body : Bytes) :
    ∃ views rest, ¬ ((requestDecoder settings).Emits body tail [crlf] views rest ↔
      (requestDecoder settings).Emits body (tail ++ crlf) [] views rest) := by
  obtain ⟨head, rfl, hdecl⟩ := h
  have hcut := (parseBytes_section settings head [] [] 0 (HttpRequest.init.setBody body) false
    (by simpa using hmin) SectionEnd.exhausted hdecl).1 (Or.inl rfl)
  have hwhole := (parseBytes_section settings head (crlf ++ []) [] 0
    (HttpRequest.init.setBody body) false (by simp only [List.length_append]; omega)
    (SectionEnd.blank []) hdecl).1 (Or.inl rfl)
  simp only [List.append_nil, List.length_nil, Nat.sub_zero] at hcut hwhole
  have hnext := next_requestDecoder settings head.bytes (HttpRequest.init.setBody body) false
  have hnext' := next_requestDecoder settings (head.bytes ++ crlf)
    (HttpRequest.init.setBody body) false
  rw [hcut, consumed_accept, if_pos rfl, Option.map_some] at hnext
  rw [hwhole, consumed_accept, if_pos rfl, Option.map_some] at hnext'
  have hview : (head.accept 0 (head.bytes ++ crlf).length [] (HttpRequest.init.setBody body)).req =
      (head.accept 0 head.bytes.length [] (HttpRequest.init.setBody body)).req := rfl
  rw [hview] at hnext'
  have hshort : ∀ body', (requestDecoder settings).next body' crlf = none := by
    intro body'
    simp only [requestDecoder]
    rw [parseBytes, if_pos (by decide)]
    rfl
  have hempty : ∀ body', (requestDecoder settings).next body' [] = none := by
    intro body'
    simp only [requestDecoder]
    rw [parseBytes, if_pos (by decide)]
    rfl
  refine ⟨[(head.accept 0 head.bytes.length [] (HttpRequest.init.setBody body)).req.view],
    some crlf, fun hiff => ?_⟩
  have hemits := hiff.mp (Decoder.Emits.item hnext (by
    rw [List.drop_length]
    exact Decoder.Emits.more (hempty _) (Decoder.Emits.done (hshort _))))
  have hrest := (Decoder.emits_one_of_next hnext' hemits).2
  rw [List.drop_length] at hrest
  cases hrest

/-- A body that was accepted before all of it had come differs from the longer one. -/
theorem Wraps.visible {settings : SettingsData} {tail : Bytes}
    (hmin : minRequestSize ≤ tail.length) (hlt : tail.length < 2 ^ 64)
    (h : Wraps settings tail) (body : Bytes) :
    ∃ views rest, ¬ ((requestDecoder settings).Emits body tail [[0]] views rest ↔
      (requestDecoder settings).Emits body (tail ++ [0]) [] views rest) := by
  obtain ⟨head, t, rest, n, rfl, hend, hdecl, hwrap, hreach⟩ := h
  have hne : n ≠ 0 := by
    rintro rfl
    simp only [UInt64.toNat_zero] at hwrap
    omega
  have hcut := (parseBytes_section settings head t rest n (HttpRequest.init.setBody body) false
    hmin hend hdecl).1 (Or.inr hreach)
  have hnext := next_requestDecoder settings (head.bytes ++ t) (HttpRequest.init.setBody body) false
  rw [hcut, consumed_accept, Option.map_some] at hnext
  refine ⟨[(head.accept n ((head.bytes ++ t).length - rest.length) rest
    (HttpRequest.init.setBody body)).req.view], none, fun hiff => ?_⟩
  have hemits := hiff.mp (Decoder.Emits.item hnext (Decoder.Emits.now _ _ _))
  cases hend with
  | exhausted =>
    have hstuck : SectionEnd [0] none :=
      SectionEnd.stuck [0] (by decide) (by decide) (by decide)
    have hnone := parseBytes_stuck settings head [0] n (HttpRequest.init.setBody body) false
      (by simp only [List.length_append, List.length_nil] at hmin ⊢; omega) hstuck hdecl
    have hnext' := next_requestDecoder settings (head.bytes ++ [0])
      (HttpRequest.init.setBody body) false
    rw [hnone] at hnext'
    rw [List.append_nil] at hemits
    cases hemits with
    | item hsome _ => exact absurd (hsome.symm.trans hnext') (by simp)
  | blank rest =>
    have hsize : (head.bytes ++ (crlf ++ (rest ++ [0]))).length - (rest ++ [0]).length =
        (head.bytes ++ (crlf ++ rest)).length - rest.length := by
      simp only [List.length_append]
      omega
    have hwhole := (parseBytes_section settings head (crlf ++ (rest ++ [0])) (rest ++ [0]) n
      (HttpRequest.init.setBody body) false
      (by simp only [List.length_append] at hmin ⊢; omega) (SectionEnd.blank _) hdecl).1
      (Or.inr (by rw [hsize]; simp only [List.length_append] at hreach ⊢; omega))
    have hnext' := next_requestDecoder settings (head.bytes ++ (crlf ++ (rest ++ [0])))
      (HttpRequest.init.setBody body) false
    rw [hwhole, consumed_accept, Option.map_some] at hnext'
    have hassoc : head.bytes ++ (crlf ++ rest) ++ [0] = head.bytes ++ (crlf ++ (rest ++ [0])) := by
      simp only [List.append_assoc]
    rw [hassoc] at hemits
    have hview := (Decoder.emits_one_of_next hnext' hemits).1
    rw [view_accept, view_accept, if_neg hne, if_neg hne] at hview
    have hlen := congrArg (fun v => v.body.length) hview
    simp only [List.length_append, List.length_take, List.length_cons, List.length_nil] at hlen
    simp only [List.length_append] at hwrap hlt
    omega

/-- Behind bytes that are accepted too early some next chunk shows the cut. -/
theorem Premature.visible {settings : SettingsData} {received : Bytes}
    (hlt : received.length < 2 ^ 64) (h : Premature settings received) (body : Bytes) :
    ∃ next views rest, next.length ≤ 2 ∧
      ¬ ((requestDecoder settings).Emits body received [next] views rest ↔
        (requestDecoder settings).Emits body (received ++ next) [] views rest) := by
  obtain ⟨rs, tail, rfl, hmin, htail⟩ := h
  obtain ⟨before, body', htakes⟩ := takes_complete rs tail body hmin
  have hshift : ∀ next views rest,
      ¬ ((requestDecoder settings).Emits body' tail [next] views rest ↔
        (requestDecoder settings).Emits body' (tail ++ next) [] views rest) →
      ¬ ((requestDecoder settings).Emits body ((rs.map CompleteRequest.bytes).flatten ++ tail)
          [next] (before ++ views) rest ↔
        (requestDecoder settings).Emits body
          ((rs.map CompleteRequest.bytes).flatten ++ tail ++ next) [] (before ++ views) rest) := by
    intro next views rest hne
    have hcut := htakes []
    rw [List.append_nil, List.append_nil] at hcut
    rwa [hcut.emits_append_iff, (htakes next).emits_append_iff]
  rcases htail with hstop | hwrap
  · obtain ⟨views, rest, hne⟩ := hstop.visible hmin body'
    exact ⟨crlf, before ++ views, rest, by decide, hshift _ _ _ hne⟩
  · rw [List.length_append] at hlt
    obtain ⟨views, rest, hne⟩ := hwrap.visible hmin (by omega) body'
    exact ⟨[0], before ++ views, rest, by decide, hshift _ _ _ hne⟩

theorem emits_join_iff {settings : SettingsData} {first next : Bytes} {cs : List Bytes}
    (hlt : (first ++ cs.flatten).length < 2 ^ 64)
    (hpre : ∀ ps, ps <+: cs → ¬ Premature settings (first ++ ps.flatten)) (body : Bytes)
    (views : List RequestView) (rest : Option Bytes) :
    (requestDecoder settings).Emits body first (cs ++ [next]) views rest ↔
      (requestDecoder settings).Emits body (first ++ (cs ++ [next]).flatten) [] views rest := by
  have hsettled : ∀ ps, ps <+: cs →
      (requestDecoder settings).Settled body (first ++ ps.flatten) := by
    rintro ps ⟨qs, rfl⟩
    refine settled_of_not_premature ?_ (hpre ps (List.prefix_append ps qs)) body
    simp only [List.flatten_append, List.length_append] at hlt ⊢
    omega
  have hcuts : ∀ ps qs, cs = ps ++ qs → qs ≠ [] →
      (requestDecoder settings).Settled body (first ++ ps.flatten) :=
    fun ps qs heq _ => hsettled ps ⟨qs, heq.symm⟩
  rw [Decoder.emits_append_iff hcuts, (hsettled cs (List.prefix_refl cs)).emits_cons_iff]
  simp only [List.flatten_append, List.flatten_cons, List.flatten_nil, List.append_nil,
    List.append_assoc]

def roomySession (settings : SettingsData) (room : ℕ) : Session :=
  { Session.init settings 0 0 with readBuffer := BoundedQueue.empty room }

/-- Whatever comes next, the cuts so far cannot be seen, exactly when no cut follows
bytes that are accepted too early. -/
theorem cutsInvisible_iff (server : Server) (chunks : List Bytes)
    (hlt : chunks.flatten.length < 2 ^ 64) :
    (∀ first cs next, first :: cs <+: chunks → CutsInvisible server first (cs ++ [next])) ↔
      ∀ pre, pre <+: chunks → ¬ Premature server.settings pre.flatten := by
  have hlength : ∀ pre, pre <+: chunks → pre.flatten.length < 2 ^ 64 := by
    rintro pre ⟨post, rfl⟩
    rw [List.flatten_append, List.length_append] at hlt
    omega
  constructor
  · intro hinvisible pre
    -- a cut can only be blamed when all cuts before it are settled
    induction hn : pre.length using Nat.strong_induction_on generalizing pre with
    | h n ih =>
      intro hpre hpremature
      cases pre with
      | nil => exact not_premature_nil server.settings hpremature
      | cons first cs =>
        obtain ⟨next, views, rest, -, hne⟩ := hpremature.visible (hlength _ hpre) []
        rw [List.flatten_cons] at hne
        have hiff := hinvisible first cs next hpre
          (roomySession server.settings (first ++ (cs ++ [next]).flatten).length)
          ⟨rfl, rfl⟩ (Nat.le_refl _) views rest
        rw [hands_receive_iff server _ ⟨rfl, rfl⟩ _ _ _ _ (Nat.le_refl _),
          hands_receive_iff server _ ⟨rfl, rfl⟩ _ _ _ _ (by simp [roomySession])] at hiff
        have hbody : ∀ room, (roomySession server.settings room).req.data.body = [] :=
          fun _ => rfl
        rw [hbody] at hiff
        have hsettled : ∀ ps qs, cs = ps ++ qs → qs ≠ [] →
            (requestDecoder server.settings).Settled [] (first ++ ps.flatten) := by
          intro ps qs heq hqs
          have hshort : first :: ps <+: first :: cs := by
            rw [heq]
            exact ⟨qs, rfl⟩
          have hlt' : (first :: ps).length < n := by
            rw [← hn, heq]
            simp only [List.length_cons, List.length_append]
            have := List.length_pos_iff.mpr hqs
            omega
          refine settled_of_not_premature ?_ ?_ []
          · exact hlength (first :: ps) (hshort.trans hpre)
          · exact ih _ hlt' (first :: ps) rfl (hshort.trans hpre)
        apply hne
        rw [← Decoder.emits_append_iff hsettled]
        simpa only [List.flatten_append, List.flatten_cons, List.flatten_nil, List.append_nil,
          List.append_assoc] using hiff
  · intro hpremature first cs next hpre s hidle hroom views rest
    rw [hands_receive_iff server s hidle _ _ _ _ hroom,
      hands_receive_iff server s hidle _ _ _ _ (by simpa using hroom)]
    refine emits_join_iff (hlength _ hpre) (fun ps hps => ?_) _ _ _
    exact hpremature (first :: ps) ((List.cons_prefix_cons.mpr ⟨rfl, hps⟩).trans hpre)

/-- Four bytes are too few for any of this: a cut behind them is not seen. -/
theorem cutsInvisible_behind_four_bytes :
    CutsInvisible (bareServer .ioUring) (ascii "GET ") [ascii "/ HTTP/1.1\r\n\r\n"] := by
  have hiff := cutsInvisible_iff (bareServer .ioUring) [ascii "GET "] (by decide)
  have hsettled : ∀ pre, pre <+: [ascii "GET "] →
      ¬ Premature (bareServer .ioUring).settings pre.flatten := by
    rintro pre hpre ⟨rs, tail, heq, hmin, -⟩
    have hlen := congrArg List.length heq
    have hle := hpre.sublist.flatten.length_le
    have hfour : [ascii "GET "].flatten.length = 4 := by decide
    rw [List.length_append] at hlen
    unfold minRequestSize at hmin
    omega
  exact hiff.mpr hsettled (ascii "GET ") [] _ (List.prefix_refl _)

/-- The two lines of a request in one chunk are one request and leave nothing; cut
between the lines, the second one stays unread. -/
theorem cut_behind_request_line_visible :
    ¬ CutsInvisible (bareServer .epoll) (ascii "GET / HTTP/1.1\r\n") [ascii "Host: a\r\n\r\n"] := by
  intro h
  have hiff := h (roomySession configJson 100) ⟨rfl, rfl⟩ (by decide)
    [⟨.get, ascii "/", [], httpVersion, []⟩] (some (ascii "Host: a\r\n\r\n"))
  rw [hands_receive_iff _ _ ⟨rfl, rfl⟩ _ _ _ _ (by decide),
    hands_receive_iff _ _ ⟨rfl, rfl⟩ _ _ _ _ (by decide)] at hiff
  have hline : (requestDecoder configJson).next [] (ascii "GET / HTTP/1.1\r\n") =
      some ([], ⟨.get, ascii "/", [], httpVersion, []⟩, 16) := by decide +kernel
  have hnone : (requestDecoder configJson).next [] [] = none := by decide +kernel
  have hfield : (requestDecoder configJson).next [] (ascii "Host: a\r\n\r\n") = none := by
    decide +kernel
  have hwhole : (requestDecoder configJson).next []
      (ascii "GET / HTTP/1.1\r\nHost: a\r\n\r\n") =
      some ([], ⟨.get, ascii "/", [], httpVersion, []⟩, 27) := by decide +kernel
  have hcut := hiff.mp
    (Decoder.Emits.item hline (Decoder.Emits.more hnone (Decoder.Emits.done hfield)))
  have hrest := (Decoder.emits_one_of_next hwhole hcut).2
  have hdone : (ascii "GET / HTTP/1.1\r\nHost: a\r\n\r\n").drop 27 = [] := by decide
  rw [hdone] at hrest
  cases hrest

end WarpApi

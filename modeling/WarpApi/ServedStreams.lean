import WarpApi.Answering
import WarpApi.Chunking
import WarpApi.ConfinedWrites
import WarpApi.Library.BlockStream

/-!
A connection on which a stream of requests is sent, and received in chunks of any size. In
front of every recv the complete requests have been answered, and of the next one the
parser holds the bytes and may have stored some header lines already.
-/
namespace WarpApi

/-- A part of a request that is not accepted too early is not accepted. -/
theorem unparsed_of_cut {settings : SettingsData} {rs done left : List (CompleteRequest settings)}
    {received rest : Bytes} (hcut : Cut CompleteRequest.bytes rs received done left rest)
    (hsettled : ¬ Premature settings received) : Unparsed settings rest := by
  have hreceived : received = (done.map CompleteRequest.bytes).flatten ++ rest := by
    rw [hcut.received_eq, List.flatMap_def]
  cases left with
  | nil =>
    rw [hcut.last rfl]
    exact unparsed_of_short settings (by decide)
  | cons r left =>
    obtain ⟨hpart, hne⟩ := hcut.part r rfl
    have hlt : rest.length < r.bytes.length :=
      lt_of_le_of_ne hpart.length_le fun heq => hne (hpart.eq_of_length heq)
    intro req keepAlive
    have hnext := next_requestDecoder settings rest req keepAlive
    cases hconsumed : (parseBytes settings rest req keepAlive).consumed with
    | none => rfl
    | some n =>
      exfalso
      rw [hconsumed, Option.map_some] at hnext
      obtain ⟨hmin, hstop | hwrap | ⟨r', extra, hrest, -⟩⟩ :=
        next_eq_some_cases (Nat.lt_trans hlt r.size_lt) hnext
      · exact hsettled ⟨done, rest, hreceived, hmin, Or.inl hstop⟩
      · exact hsettled ⟨done, rest, hreceived, hmin, Or.inr hwrap⟩
      · -- a complete request of another length would stand at the front of r
        obtain ⟨more, hmore⟩ := hpart
        have hsame : r.bytes ++ [] = r'.bytes ++ (extra ++ more) := by
          rw [List.append_nil, ← hmore, hrest, List.append_assoc]
        have hown := r.parseBytes_bytes [] req keepAlive (by
          rw [List.append_nil]
          omega)
        have hother := r'.parseBytes_bytes (extra ++ more) req keepAlive (by
          rw [← hsame, List.append_nil]
          omega)
        rw [hsame, hother] at hown
        have hlength := Option.some.inj (congrArg ParseResult.consumed hown)
        have hle := congrArg List.length hrest
        rw [List.length_append] at hle
        omega

theorem mem_headerLines_of_prefix {settings : SettingsData} (turns : ℕ) {fields : List Bytes}
    {body rest line : Bytes} (hfields : ∀ f ∈ fields, f ≠ [] ∧ cr ∉ f)
    (hrest : rest <+: fieldBytes fields ++ (crlf ++ body))
    (hline : line ∈ headerLines settings turns rest) : line ∈ fields := by
  induction turns generalizing rest fields with
  | zero => exact absurd hline List.not_mem_nil
  | succ turns ih =>
    rw [headerLines] at hline
    split_ifs at hline with hnil hblank
    · exact absurd hline List.not_mem_nil
    · exact absurd hline List.not_mem_nil
    · cases hfirst : firstLine rest with
      | none =>
        rw [hfirst] at hline
        exact absurd hline List.not_mem_nil
      | some p =>
        obtain ⟨first, behind⟩ := p
        rw [hfirst] at hline
        dsimp only at hline
        split_ifs at hline
        · exact absurd hline List.not_mem_nil
        · obtain ⟨hsplit, hcr⟩ := (firstLine_eq_some_iff _ _ _).mp hfirst
          obtain ⟨more, hmore⟩ := hrest
          cases fields with
          | nil =>
            exfalso
            apply hblank
            have htake : (rest ++ more).take 2 = rest.take 2 := by
              apply List.take_append_of_le_length
              rw [hsplit, List.length_append, List.length_append]
              exact Nat.le_add_right_of_le (Nat.le_add_left 2 _)
            rw [← htake, hmore]
            rfl
          | cons f fields =>
            rw [fieldBytes_cons_append] at hmore
            obtain ⟨hne, hfcr⟩ := hfields f List.mem_cons_self
            have hboth : some (first, behind ++ more) =
                some (f, fieldBytes fields ++ (crlf ++ body)) := by
              rw [← firstLine_append first (behind ++ more) hcr, ← firstLine_append f _ hfcr,
                ← hmore, hsplit, List.append_assoc _ behind]
            obtain ⟨rfl, hbehind⟩ := Prod.mk.inj (Option.some.inj hboth)
            rcases List.mem_cons.mp hline with rfl | hline
            · exact List.mem_cons_self
            · apply List.mem_cons_of_mem
              exact ih (fun g hg => hfields g (List.mem_cons_of_mem _ hg)) ⟨more, hbehind⟩ hline

namespace CompleteRequest

variable {settings : SettingsData} (r : CompleteRequest settings) {rest : Bytes}

/-- Only lines of the request are taken from a part of it or from bytes that go on
behind it. -/
theorem mem_fields_of_mem_takenLines {tail : Bytes} (hpart : rest <+: r.bytes ++ tail)
    {line : Bytes} (hline : line ∈ takenLines settings rest) : line ∈ r.head.fields := by
  obtain ⟨more, hmore⟩ := hpart
  unfold takenLines at hline
  split at hline
  · rename_i requestLine first behind hstart hfirst
    obtain ⟨hsplit, hcr⟩ := (firstLine_eq_some_iff _ _ _).mp hfirst
    have hboth : some (first, behind ++ more) =
        some (r.head.line, fieldBytes r.head.fields ++ (crlf ++ (r.body ++ tail))) := by
      rw [← firstLine_append first (behind ++ more) hcr, ← r.head.firstLine_bytes,
        ← List.append_assoc crlf, ← List.append_assoc _ (crlf ++ r.body),
        ← List.append_assoc _ crlf, ← bytes, ← hmore, hsplit, List.append_assoc _ behind]
    have hbehind := (Prod.mk.inj (Option.some.inj hboth)).2
    exact mem_headerLines_of_prefix _ r.head.fields_ok ⟨more, hbehind⟩ hline
  · exact absurd hline List.not_mem_nil

end CompleteRequest

theorem testBit_attempt {settings : SettingsData} {rest : Bytes} {bit : ℕ} (req : HttpRequest)
    (keepAlive : Bool) (hclear : req.presentHeaders.testBit bit = false)
    (hlines : ∀ line ∈ takenLines settings rest, (headerOf line).1.val.testBit bit = false) :
    (parseBytes settings rest req keepAlive).req.presentHeaders.testBit bit = false := by
  cases hstart : startLine rest with
  | none =>
    rw [parseBytes_of_startLine_none hstart]
    exact hclear
  | some line =>
    obtain ⟨-, hreq⟩ := parseBytes_of_startLine settings hstart req keepAlive
    have hstored : (parseBytes settings rest req keepAlive).req.presentHeaders =
        (linesRequest settings rest line req).presentHeaders := by
      rcases hreq with hreq | ⟨-, body, size, hreq⟩
      · rw [hreq]
      · rw [hreq]
        rfl
    have hbit : (linesRequest settings rest line req).presentHeaders.testBit bit =
        (req.presentHeaders.testBit bit ||
          (takenLines settings rest).any fun line => (headerOf line).1.val.testBit bit) :=
      testBit_presentHeaders_foldl _ _ _
    rw [hstored, hbit, hclear, Bool.false_or, List.any_eq_false]
    intro line hline
    rw [hlines line hline]
    exact Bool.false_ne_true

/-- What waits behind a cut is a part of a request or nothing. -/
theorem mem_fields_of_cut {settings : SettingsData}
    {rs done left : List (CompleteRequest settings)} {received rest : Bytes}
    (hcut : Cut CompleteRequest.bytes rs received done left rest) {line : Bytes}
    (hline : line ∈ takenLines settings rest) : ∃ r ∈ left, line ∈ r.head.fields := by
  cases left with
  | nil =>
    rw [hcut.last rfl] at hline
    exact absurd hline List.not_mem_nil
  | cons r left =>
    have hpart : rest <+: r.bytes ++ [] := by
      rw [List.append_nil]
      exact (hcut.part r rfl).1
    exact ⟨r, List.mem_cons_self, r.mem_fields_of_mem_takenLines hpart hline⟩

theorem mem_fields_of_mem_attempts {settings : SettingsData} (turns : ℕ)
    {rs : List (CompleteRequest settings)} {rest : Bytes} (hrest : Unparsed settings rest)
    (hmin : ∀ r ∈ rs, minRequestSize ≤ r.bytes.length) {data line : Bytes}
    (hdata : data ∈ attempts settings turns (rs.flatMap CompleteRequest.bytes ++ rest))
    (hline : line ∈ takenLines settings data) :
    (∃ r ∈ rs, line ∈ r.head.fields) ∨ line ∈ takenLines settings rest := by
  induction turns generalizing rs with
  | zero => exact absurd hdata List.not_mem_nil
  | succ turns ih =>
    rw [attempts, List.mem_cons] at hdata
    cases rs with
    | nil =>
      rw [List.flatMap_nil, List.nil_append, hrest] at hdata
      rcases hdata with rfl | hdata
      · exact Or.inr hline
      · exact absurd hdata List.not_mem_nil
    | cons r rs =>
      rw [List.flatMap_cons, List.append_assoc] at hdata
      rcases hdata with rfl | hdata
      · have hwhole : r.bytes ++ (rs.flatMap CompleteRequest.bytes ++ rest) <+:
            r.bytes ++ (rs.flatMap CompleteRequest.bytes ++ rest) := List.prefix_refl _
        exact Or.inl ⟨r, List.mem_cons_self, r.mem_fields_of_mem_takenLines hwhole hline⟩
      · have hlength : minRequestSize ≤
            (r.bytes ++ (rs.flatMap CompleteRequest.bytes ++ rest)).length := by
          rw [List.length_append]
          exact Nat.le_add_right_of_le (hmin r List.mem_cons_self)
        rw [r.parseBytes_bytes _ _ _ hlength] at hdata
        dsimp only at hdata
        rw [List.drop_left] at hdata
        rcases ih (fun r' hr' => hmin r' (List.mem_cons_of_mem _ hr')) hdata with
          ⟨r', hr', hfield⟩ | hlast
        · exact Or.inl ⟨r', List.mem_cons_of_mem _ hr', hfield⟩
        · exact Or.inr hlast

/-- The lines of a section and what ends them are told by its bytes. -/
theorem section_inj {fs gs : List Bytes} {t rest u : Bytes} (hfs : ∀ f ∈ fs, f ≠ [] ∧ cr ∉ f)
    (hgs : ∀ g ∈ gs, g ≠ [] ∧ cr ∉ g) (hend : SectionEnd t (some rest))
    (h : fieldBytes fs ++ t = fieldBytes gs ++ (crlf ++ u)) :
    fs = gs ∧ t = crlf ++ rest ∧ rest = u := by
  induction fs generalizing gs with
  | nil =>
    cases hend with
    | exhausted =>
      have hlength := congrArg List.length h
      simp only [fieldBytes, List.flatMap_nil, List.append_nil, List.length_nil, List.length_append,
        crlf, List.length_cons] at hlength
      omega
    | blank rest =>
      cases gs with
      | nil => exact ⟨rfl, rfl, List.append_cancel_left h⟩
      | cons g gs =>
        exfalso
        obtain ⟨hne, hcr⟩ := hgs g List.mem_cons_self
        apply take_two_append_ne g (fieldBytes gs ++ (crlf ++ u)) hne hcr
        rw [← fieldBytes_cons_append, ← h]
        rfl
  | cons f fs ih =>
    obtain ⟨hne, hcr⟩ := hfs f List.mem_cons_self
    rw [fieldBytes_cons_append] at h
    cases gs with
    | nil =>
      exfalso
      apply take_two_append_ne f (fieldBytes fs ++ t) hne hcr
      rw [h]
      rfl
    | cons g gs =>
      obtain ⟨-, hgcr⟩ := hgs g List.mem_cons_self
      rw [fieldBytes_cons_append] at h
      have hboth : some (f, fieldBytes fs ++ t) = some (g, fieldBytes gs ++ (crlf ++ u)) := by
        rw [← firstLine_append f _ hcr, ← firstLine_append g _ hgcr, h]
      obtain ⟨rfl, hbehind⟩ := Prod.mk.inj (Option.some.inj hboth)
      obtain ⟨rfl, ht, hrest⟩ := ih (fun f' hf' => hfs f' (List.mem_cons_of_mem _ hf'))
        (fun g' hg' => hgs g' (List.mem_cons_of_mem _ hg')) hbehind
      exact ⟨rfl, ht, hrest⟩

namespace CompleteRequest

variable {settings : SettingsData} (r : CompleteRequest settings)

theorem head_eq {h : Head} {t rest tail : Bytes} (hend : SectionEnd t (some rest))
    (heq : r.bytes ++ tail = h.bytes ++ t) :
    h.fields = r.head.fields ∧ t = crlf ++ rest ∧ rest = r.body ++ tail := by
  have hbytes : r.bytes ++ tail = r.head.bytes ++ (crlf ++ (r.body ++ tail)) := by
    simp only [bytes, List.append_assoc]
  have hboth : some (r.head.line, fieldBytes r.head.fields ++ (crlf ++ (r.body ++ tail))) =
      some (h.line, fieldBytes h.fields ++ t) := by
    rw [← r.head.firstLine_bytes, ← h.firstLine_bytes, ← hbytes, heq]
  obtain ⟨-, hbehind⟩ := Prod.mk.inj (Option.some.inj hboth)
  exact section_inj h.fields_ok r.head.fields_ok hend hbehind.symm

/-- In front of a complete request there is none that comes too early. -/
theorem not_early {tail : Bytes} :
    ¬ (StopsAtLine settings (r.bytes ++ tail) ∨ Wraps settings (r.bytes ++ tail)) := by
  rintro (⟨h, heq, -⟩ | ⟨h, t, rest, n, heq, hend, hdecl, hwrap, -⟩)
  · rw [← List.append_nil h.bytes] at heq
    obtain ⟨-, hblank, -⟩ := r.head_eq SectionEnd.exhausted heq
    simp [crlf] at hblank
  · obtain ⟨hfields, -, rfl⟩ := r.head_eq hend heq
    rw [hfields, r.declared] at hdecl
    obtain rfl := Option.some.inj hdecl
    have hlt : r.bytes.length < 2 ^ 64 := r.size_lt
    rw [← r.body_length, List.length_append, List.length_append] at hwrap
    have hbody : r.bytes.length = (r.head.bytes ++ crlf).length + r.body.length := by
      rw [bytes, List.length_append]
    omega

theorem bytes_eq_of_append_eq (r' : CompleteRequest settings) {tail tail' : Bytes}
    (hmin : minRequestSize ≤ (r.bytes ++ tail).length) (h : r.bytes ++ tail = r'.bytes ++ tail') :
    r.bytes = r'.bytes ∧ tail = tail' := by
  have hown := r.parseBytes_bytes tail HttpRequest.init false hmin
  have hother := r'.parseBytes_bytes tail' HttpRequest.init false (h ▸ hmin)
  rw [h, hother] at hown
  have hlength := Option.some.inj (congrArg ParseResult.consumed hown)
  exact List.append_inj h hlength.symm

end CompleteRequest

theorem Premature.of_cons {settings : SettingsData} {r : CompleteRequest settings} {tail : Bytes}
    (h : Premature settings (r.bytes ++ tail)) : Premature settings tail := by
  obtain ⟨rs, early, heq, hmin, hearly⟩ := h
  cases rs with
  | nil =>
    rw [List.map_nil, List.flatten_nil, List.nil_append] at heq
    exact absurd (heq ▸ hearly) r.not_early
  | cons r' rs =>
    rw [List.map_cons, List.flatten_cons, List.append_assoc] at heq
    have hlength : minRequestSize ≤ (r.bytes ++ tail).length := by
      rw [heq, List.length_append, List.length_append]
      omega
    obtain ⟨-, htail⟩ := r.bytes_eq_of_append_eq r' hlength heq
    exact ⟨rs, early, htail, hmin, hearly⟩

theorem not_premature_requests {settings : SettingsData} (rs : List (CompleteRequest settings))
    {rest : Bytes} (hrest : rest.length < minRequestSize) :
    ¬ Premature settings (rs.flatMap CompleteRequest.bytes ++ rest) := by
  induction rs with
  | nil =>
    rintro ⟨rs, early, heq, hmin, -⟩
    have hlength := congrArg List.length heq
    rw [List.flatMap_nil, List.nil_append, List.length_append] at hlength
    omega
  | cons r rs ih =>
    intro h
    rw [List.flatMap_cons, List.append_assoc] at h
    exact ih h.of_cons

/-- `done` has been answered, `rest` has come of the next request, and no header with the
bit has been seen. -/
structure Served (server : Server) (bit : ℕ) (done : List (CompleteRequest server.settings))
    (rest : Bytes) (s : Session) : Prop where
  mode : s.mode = .http
  unread : s.readBuffer.unread = rest
  written : s.writeBuffer.written = done.flatMap (CompleteRequest.answer server)
  unmarked : s.req.presentHeaders.testBit bit = false

/-- All that has been received is a beginning of the requests, and is served. -/
def InService (server : Server) (bit : ℕ) (rs : List (CompleteRequest server.settings))
    (s : Session) : Prop :=
  ∃ done left rest, Cut CompleteRequest.bytes rs s.readBuffer.written done left rest ∧
    Served server bit done rest s

/-- A chunk that goes on with the requests, does not end where bytes are accepted too
early, and completes no more requests than the write buffer has room for their answers. -/
structure Delivers (server : Server) (rs : List (CompleteRequest server.settings)) (s : Session)
    (chunk : Bytes) : Prop where
  continues : s.readBuffer.written ++ chunk <+: rs.flatMap CompleteRequest.bytes
  settled : ¬ Premature server.settings (s.readBuffer.written ++ chunk)
  room : ∀ done left rest,
    Cut CompleteRequest.bytes rs (s.readBuffer.written ++ chunk) done left rest →
      (done.flatMap (CompleteRequest.answer server)).length ≤
        s.writeBuffer.readPos + s.writeBuffer.capacity

theorem Delivers.of_room {server : Server} {rs : List (CompleteRequest server.settings)}
    {s : Session} {chunk : Bytes}
    (hcontinues : s.readBuffer.written ++ chunk <+: rs.flatMap CompleteRequest.bytes)
    (hsettled : ¬ Premature server.settings (s.readBuffer.written ++ chunk))
    (hroom : (rs.flatMap (CompleteRequest.answer server)).length ≤
      s.writeBuffer.readPos + s.writeBuffer.capacity) : Delivers server rs s chunk := by
  refine ⟨hcontinues, hsettled, fun done left rest hcut => ?_⟩
  rw [hcut.items_eq, List.flatMap_append, List.length_append] at hroom
  omega

theorem inService_init (server : Server) {bit : ℕ} (rs : List (CompleteRequest server.settings))
    (self : SessionId) (socket : ℤ) (hmin : ∀ r ∈ rs, minRequestSize ≤ r.bytes.length) :
    InService server bit rs (Session.init server.settings self socket) := by
  refine ⟨[], rs, [], ⟨rfl, rfl, fun r hr => ⟨List.nil_prefix, ?_⟩, fun _ => rfl⟩,
    ⟨rfl, rfl, rfl, Nat.zero_testBit bit⟩⟩
  intro hnil
  have hlength := hmin r (List.mem_of_mem_head? hr)
  rw [← hnil] at hlength
  exact absurd hlength (by decide)

/-- A step that reads nothing and answers nothing. The request object may be reset. -/
theorem InService.of_eq {server : Server} {bit : ℕ} {rs : List (CompleteRequest server.settings)}
    {s t : Session} (h : InService server bit rs s) (hmode : t.mode = s.mode)
    (hread : t.readBuffer = s.readBuffer)
    (hwritten : t.writeBuffer.written = s.writeBuffer.written)
    (hreq : t.req = s.req ∨ t.req = s.req.reset) : InService server bit rs t := by
  obtain ⟨done, left, rest, hcut, hserved⟩ := h
  refine ⟨done, left, rest, by rw [hread]; exact hcut, ?_⟩
  refine ⟨hmode.trans hserved.mode, by rw [hread, hserved.unread],
    hwritten.trans hserved.written, ?_⟩
  rcases hreq with hreq | hreq
  · rw [hreq]
    exact hserved.unmarked
  · rw [hreq]
    exact Nat.zero_testBit bit

theorem written_readBuffer_processInput {server : Server} {s t : Session} {alive : Bool}
    (hmode : s.mode = .http) (h : s.processInput server = some (alive, t)) :
    t.readBuffer.written = s.readBuffer.written := by
  rw [Session.processInput, hmode] at h
  obtain ⟨u, hdrain, heq⟩ := Option.map_eq_some_iff.mp h
  obtain ⟨-, rfl⟩ := Prod.mk.inj heq
  refine parseLoop_relates (fun s t => t.readBuffer.written = s.readBuffer.written)
    (fun s t u hst htu => htu.trans hst) ?_ ?_ _ _ _ hdrain
  · intro s
    cases hconsumed :
        (parseBytes server.settings s.readBuffer.unread s.req s.keepAlive).consumed with
    | none => rw [Session.attemptRequest_of_none hconsumed]
    | some n =>
      rw [Session.attemptRequest_of_some hconsumed]
      rfl
  · intro s
    rw [(Answers.handleRequest server s).readBuffer_eq]

theorem Served.input {server : Server} {bit : ℕ} (hbit : upgradeMask.testBit bit = true)
    {done left more later : List (CompleteRequest server.settings)} {rest chunk rest' : Bytes}
    {s : Session} (h : Served server bit done rest s)
    (hcut : Cut CompleteRequest.bytes left (rest ++ chunk) more later rest')
    (hleft : ∀ r ∈ left, r.SelfContained server bit)
    (hmin : ∀ r ∈ more, minRequestSize ≤ r.bytes.length)
    (hwaits : Unparsed server.settings rest') (hfits : chunk.length ≤ s.readBuffer.free)
    (hroom : ((done ++ more).flatMap (CompleteRequest.answer server)).length ≤
      s.writeBuffer.readPos + s.writeBuffer.capacity) :
    ∃ t, (s.receive chunk).processInput server = some (true, t) ∧
      Served server bit (done ++ more) rest' t := by
  obtain ⟨x, hx, hxread, hinput⟩ := processInput_series server more rest' chunk s h.mode hmin hwaits
    (by rw [h.unread, hcut.received_eq]) hfits
  obtain ⟨hout, hclear, hmode⟩ := Session.answerAll_eq hbit rest' more
    (fun r hr => hleft r (by rw [hcut.items_eq]; exact List.mem_append_left _ hr)) s h.unmarked
  refine ⟨_, hinput, ?_⟩
  have hnone := hwaits x.req x.keepAlive
  rw [← hxread] at hnone
  rw [Session.attemptRequest_of_none hnone, hxread]
  constructor
  · exact (hx.mode_eq.trans hmode).trans h.mode
  · exact hxread
  · have hfree : (more.flatMap (CompleteRequest.answer server)).length ≤ s.writeBuffer.free := by
      have hpos := s.writeBuffer.readPos_le
      have hsize := s.writeBuffer.size_add_free
      rw [List.flatMap_append, List.length_append, ← h.written] at hroom
      unfold BoundedQueue.size at hsize
      omega
    show x.writeBuffer.written = _
    rw [hx.writeBuffer_eq, hout, BoundedQueue.written_push_of_le _ _ hfree, h.written,
      List.flatMap_append]
  · apply testBit_attempt
    · rw [hx.req_eq]
      exact hclear
    · intro line hline
      obtain ⟨r, hr, hfield⟩ := mem_fields_of_cut hcut hline
      refine (hleft r ?_).unmarked line hfield
      rw [hcut.items_eq]
      exact List.mem_append_right _ hr

theorem InService.input {server : Server} {bit : ℕ} (hbit : upgradeMask.testBit bit = true)
    {rs : List (CompleteRequest server.settings)} (hrs : ∀ r ∈ rs, r.SelfContained server bit)
    (hmin : ∀ r ∈ rs, minRequestSize ≤ r.bytes.length) {s : Session} {chunk : Bytes}
    (h : InService server bit rs s) (hchunk : Delivers server rs s chunk)
    (hfits : chunk.length ≤ s.readBuffer.free) :
    ∃ t, (s.receive chunk).processInput server = some (true, t) ∧ InService server bit rs t ∧
      t.readBuffer.written = s.readBuffer.written ++ chunk := by
  obtain ⟨done, left, rest, hcut, hserved⟩ := h
  obtain ⟨more, later, rest', hnext⟩ := hcut.exists_append hchunk.continues
  have hwhole := hcut.append hnext
  have hleft : ∀ r ∈ left, r ∈ rs := by
    intro r hr
    rw [hcut.items_eq]
    exact List.mem_append_right _ hr
  obtain ⟨t, hinput, hserved'⟩ := hserved.input hbit hnext (fun r hr => hrs r (hleft r hr))
    (fun r hr => hmin r (hleft r (by rw [hnext.items_eq]; exact List.mem_append_left _ hr)))
    (unparsed_of_cut hwhole hchunk.settled) hfits (hchunk.room _ _ _ hwhole)
  have hhttp : (s.receive chunk).mode = .http := hserved.mode
  have hwritten : t.readBuffer.written = s.readBuffer.written ++ chunk := by
    rw [written_readBuffer_processInput hhttp hinput]
    exact BoundedQueue.written_push_of_le _ _ hfits
  exact ⟨t, hinput, ⟨done ++ more, later, rest', hwritten ▸ hwhole, hserved'⟩, hwritten⟩

theorem hasSlot_of_unmarked {line : Bytes} (h : ∀ bit, upgradeMask.testBit bit = true →
    (headerOf line).1.val.testBit bit = false) : (headerOf line).1.hasSlot = true := by
  have hkey : ∀ n, (∀ bit, upgradeMask.testBit bit = true →
      (headerKey n).val.testBit bit = false) → (headerKey n).hasSlot = true := by
    intro n hn
    unfold headerKey at hn ⊢
    split
    · decide
    · decide
    · exact absurd (hn 10 (by decide)) (by decide)
    · exact absurd (hn 11 (by decide)) (by decide)
    · exact absurd (hn 12 (by decide)) (by decide)
    · decide
  revert h
  unfold headerOf
  cases splitHeader line with
  | none => exact fun _ => by decide
  | some p => exact hkey p.1.length

theorem InService.receivesConfined {server : Server} {bit : ℕ}
    {rs : List (CompleteRequest server.settings)}
    (hrs : ∀ r ∈ rs, ∀ line ∈ r.head.fields, (headerOf line).1.hasSlot = true)
    (hmin : ∀ r ∈ rs, minRequestSize ≤ r.bytes.length) {s : Session} {chunk : Bytes}
    (h : InService server bit rs s) (hchunk : Delivers server rs s chunk) :
    ReceivesConfined server s chunk := by
  obtain ⟨done, left, rest, hcut, hserved⟩ := h
  obtain ⟨more, later, rest', hnext⟩ := hcut.exists_append hchunk.continues
  have hwhole := hcut.append hnext
  have hmore : ∀ r ∈ more, r ∈ rs := by
    intro r hr
    rw [hwhole.items_eq]
    exact List.mem_append_left _ (List.mem_append_right _ hr)
  intro data hdata line hline
  rw [hserved.unread, hnext.received_eq] at hdata
  rcases mem_fields_of_mem_attempts _ (unparsed_of_cut hwhole hchunk.settled)
    (fun r hr => hmin r (hmore r hr)) hdata hline with ⟨r, hr, hfield⟩ | hrest
  · exact hrs r (hmore r hr) line hfield
  · obtain ⟨r, hr, hfield⟩ := mem_fields_of_cut hwhole hrest
    refine hrs r ?_ line hfield
    rw [hwhole.items_eq]
    exact List.mem_append_right _ hr

theorem InService.received {server : Server} {bit : ℕ}
    {rs : List (CompleteRequest server.settings)} {s : Session} (h : InService server bit rs s) :
    s.readBuffer.written <+: rs.flatMap CompleteRequest.bytes := by
  obtain ⟨done, left, rest, hcut, -⟩ := h
  exact hcut.isPrefix

theorem InService.written_of_whole {server : Server} {bit : ℕ}
    {rs : List (CompleteRequest server.settings)} {s : Session} (h : InService server bit rs s)
    (hall : s.readBuffer.written = rs.flatMap CompleteRequest.bytes) :
    s.writeBuffer.written = rs.flatMap (CompleteRequest.answer server) := by
  obtain ⟨done, left, rest, hcut, hserved⟩ := h
  rw [hserved.written, hcut.done_eq_of_whole hall]

end WarpApi

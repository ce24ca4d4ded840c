import WarpApi.ParseRequest

/-!
The shape of a request on the wire, and what `parseBytes` makes of it. A head is
a request line and header lines, each closed by CRLF; a complete request is a
head, a blank line and as many body bytes as the head declares. Everything that
the parser accepts starts with a head, which either ends in a blank line or at
the end of the received bytes.
-/
namespace WarpApi

def fieldBytes (fields : List Bytes) : Bytes := fields.flatMap fun f => f ++ crlf

/-- A request line and header lines; the blank line behind them is not included. -/
structure Head where
  line : Bytes
  requestLine : RequestLine
  fields : List Bytes
  line_cr : cr ∉ line
  line_ok : splitRequestLine line = some requestLine
  fields_ok : ∀ f ∈ fields, f ≠ [] ∧ cr ∉ f

def Head.bytes (h : Head) : Bytes := h.line ++ crlf ++ fieldBytes h.fields

/-- The body length in force after one more line; `none` over the limit. -/
def declareLength (settings : SettingsData) (n : UInt64) (field : Bytes) : Option UInt64 :=
  match splitHeader field with
  | none => some n
  | some (name, value) =>
    if headerKey name.length = .contentLength then
      if fastAtoi value > settings.maxBodySize then none else some (fastAtoi value)
    else some n

def declaredLength (settings : SettingsData) (fields : List Bytes) : Option UInt64 :=
  fields.foldlM (declareLength settings) 0

def storeField (req : HttpRequest) (field : Bytes) : HttpRequest :=
  match splitHeader field with
  | none => req
  | some (name, value) => storeHeader req (headerKey name.length) value

def fieldKeepAlive (keepAlive : Bool) (field : Bytes) : Bool :=
  match splitHeader field with
  | none => keepAlive
  | some (name, value) =>
    if headerKey name.length = .connection then connectionKeepAlive keepAlive value else keepAlive

def isLengthField (field : Bytes) : Bool :=
  match splitHeader field with
  | none => false
  | some (name, _) => headerKey name.length = .contentLength

def Head.request (h : Head) (req : HttpRequest) : HttpRequest :=
  h.fields.foldl storeField (startScan req h.requestLine).req

def Head.keepAlive (h : Head) : Bool := h.fields.foldl fieldKeepAlive true

/-- A complete request: head, blank line and as many body bytes as declared. -/
structure CompleteRequest (settings : SettingsData) where
  head : Head
  body : Bytes
  length : UInt64
  declared : declaredLength settings head.fields = some length
  body_length : body.length = length.toNat
  size_lt : (head.bytes ++ crlf ++ body).length < 2 ^ 64

def CompleteRequest.bytes {settings : SettingsData} (r : CompleteRequest settings) : Bytes :=
  r.head.bytes ++ crlf ++ r.body

theorem headerLine_eq (settings : SettingsData) (field : Bytes) (st : HeaderScan) :
    headerLine settings field st =
      (declareLength settings st.contentLength field).map fun n =>
        { req := storeField st.req field
          keepAlive := fieldKeepAlive st.keepAlive field
          contentLength := n
          hasContentLen := st.hasContentLen || isLengthField field } := by
  unfold headerLine declareLength storeField fieldKeepAlive isLengthField
  cases splitHeader field with
  | none => simp
  | some p =>
    obtain ⟨name, value⟩ := p
    by_cases hkey : headerKey name.length = .contentLength
    · by_cases hmax : fastAtoi value > settings.maxBodySize
      · simp [hkey, hmax]
      · simp [hkey, hmax]
    · simp [hkey]

theorem foldlM_headerLine (settings : SettingsData) (fields : List Bytes) (st : HeaderScan) :
    fields.foldlM (fun st f => headerLine settings f st) st =
      (fields.foldlM (declareLength settings) st.contentLength).map fun n =>
        { req := fields.foldl storeField st.req
          keepAlive := fields.foldl fieldKeepAlive st.keepAlive
          contentLength := n
          hasContentLen := st.hasContentLen || fields.any isLengthField } := by
  induction fields generalizing st with
  | nil => simp
  | cons f fields ih =>
    rw [List.foldlM_cons, List.foldlM_cons, headerLine_eq]
    cases declareLength settings st.contentLength f with
    | none => rfl
    | some n =>
      simp only [Option.map_some, Option.bind_eq_bind, Option.bind_some, ih, List.foldl_cons,
        List.any_cons, Bool.or_assoc]

theorem any_isLengthField (settings : SettingsData) (fields : List Bytes) (m n : UInt64)
    (h : fields.foldlM (declareLength settings) m = some n) (hne : n ≠ m) :
    fields.any isLengthField = true := by
  induction fields generalizing m with
  | nil =>
    have hmn : m = n := Option.some.inj h
    exact absurd hmn.symm hne
  | cons f fields ih =>
    rw [List.foldlM_cons] at h
    by_cases hf : isLengthField f = true
    · simp [hf]
    · have hkeep : declareLength settings m f = some m := by
        unfold declareLength
        unfold isLengthField at hf
        cases hsplit : splitHeader f with
        | none => rfl
        | some p =>
          simp only [hsplit, decide_eq_true_eq] at hf
          simp only [hf, if_false]
      rw [hkeep] at h
      simp [ih m h hne]

/-- How the bytes behind the last complete header line end the loop. -/
inductive SectionEnd : Bytes → Option Bytes → Prop
  | exhausted : SectionEnd [] (some [])
  | blank (rest : Bytes) : SectionEnd (crlf ++ rest) (some rest)
  | stuck (t : Bytes) (hne : t ≠ []) (hblank : t.take 2 ≠ crlf) (hline : firstLine t = none) :
      SectionEnd t none

theorem take_two_append_ne (f rest : Bytes) (hne : f ≠ []) (hcr : cr ∉ f) :
    (f ++ crlf ++ rest).take 2 ≠ crlf := by
  intro h
  cases f with
  | nil => exact hne rfl
  | cons c f =>
    have hc : c = cr := by simpa [crlf] using congrArg List.head? h
    exact hcr (hc ▸ List.mem_cons_self ..)

/-- Every byte string splits into complete header lines and an end. -/
theorem exists_section (data : Bytes) :
    ∃ fields t out, data = fieldBytes fields ++ t ∧ (∀ f ∈ fields, f ≠ [] ∧ cr ∉ f) ∧
      SectionEnd t out := by
  induction hn : data.length using Nat.strong_induction_on generalizing data with
  | h n ih =>
    by_cases hnil : data = []
    · exact ⟨[], [], some [], by simp [fieldBytes, hnil], by simp, SectionEnd.exhausted⟩
    by_cases hblank : data.take 2 = crlf
    · refine ⟨[], data, some (data.drop 2), rfl, by simp, ?_⟩
      have heq : data = crlf ++ data.drop 2 := by rw [← hblank, List.take_append_drop]
      rw [heq]
      exact SectionEnd.blank _
    cases hline : firstLine data with
    | none => exact ⟨[], data, none, rfl, by simp, SectionEnd.stuck data hnil hblank hline⟩
    | some p =>
      obtain ⟨line, rest⟩ := p
      obtain ⟨heq, hcr⟩ := (firstLine_eq_some_iff _ _ _).mp hline
      have hlt : rest.length < n := by
        rw [← hn, heq]
        simp only [List.length_append, crlf, List.length_cons, List.length_nil]
        omega
      obtain ⟨fields, t, out, hrest, hfields, hend⟩ := ih rest.length hlt rest rfl
      have hline_ne : line ≠ [] := by
        rintro rfl
        exact hblank (by simp [heq, crlf])
      refine ⟨line :: fields, t, out, ?_, ?_, hend⟩
      · rw [heq, hrest]
        simp [fieldBytes]
      · intro f hf
        rcases List.mem_cons.mp hf with rfl | hf
        · exact ⟨hline_ne, hcr⟩
        · exact hfields f hf

theorem headerLoop_end (settings : SettingsData) (turns : ℕ) (t : Bytes) (out : Option Bytes)
    (st : HeaderScan) (h : SectionEnd t out) :
    headerLoop settings (turns + 1) t st = (out, st) := by
  cases h with
  | exhausted => simp [headerLoop]
  | blank rest => simp [headerLoop, crlf]
  | stuck t hne hblank hline => simp [headerLoop, hne, hblank, hline]

theorem headerLoop_line (settings : SettingsData) (turns : ℕ) (f rest : Bytes) (st : HeaderScan)
    (hne : f ≠ []) (hcr : cr ∉ f) :
    headerLoop settings (turns + 1) (f ++ crlf ++ rest) st =
      match headerLine settings f st with
      | none => (none, st)
      | some st => headerLoop settings turns rest st := by
  have hnil : f ++ crlf ++ rest ≠ [] := by simp [hne]
  have hblank := take_two_append_ne f rest hne hcr
  cases hline : headerLine settings f st with
  | none =>
    simp only [headerLoop, if_neg hnil, if_neg hblank, firstLine_append f rest hcr, hline]
  | some st =>
    simp only [headerLoop, if_neg hnil, if_neg hblank, firstLine_append f rest hcr, hline]

theorem fieldBytes_cons_append (f : Bytes) (fields : List Bytes) (t : Bytes) :
    fieldBytes (f :: fields) ++ t = f ++ crlf ++ (fieldBytes fields ++ t) := by
  simp only [fieldBytes, List.flatMap_cons, List.append_assoc]

/-- The loop runs through the complete lines and then meets the end. -/
theorem headerLoop_section (settings : SettingsData) (fields : List Bytes) (t : Bytes)
    (out : Option Bytes) (st st' : HeaderScan) (turns : ℕ)
    (hfields : ∀ f ∈ fields, f ≠ [] ∧ cr ∉ f) (hend : SectionEnd t out)
    (hturns : fields.length < turns)
    (hfold : fields.foldlM (fun st f => headerLine settings f st) st = some st') :
    headerLoop settings turns (fieldBytes fields ++ t) st = (out, st') := by
  induction fields generalizing st turns with
  | nil =>
    obtain ⟨turns, rfl⟩ : ∃ k, turns = k + 1 := ⟨turns - 1, by simp at hturns; omega⟩
    have hst : st = st' := Option.some.inj hfold
    exact hst ▸ headerLoop_end settings turns t out st hend
  | cons f fields ih =>
    obtain ⟨turns, rfl⟩ : ∃ k, turns = k + 1 := ⟨turns - 1, by simp at hturns; omega⟩
    obtain ⟨hne, hcr⟩ := hfields f (List.mem_cons_self ..)
    rw [List.foldlM_cons] at hfold
    rw [fieldBytes_cons_append, headerLoop_line settings turns f _ st hne hcr]
    cases hline : headerLine settings f st with
    | none => simp [hline] at hfold
    | some st₁ =>
      rw [hline] at hfold
      exact ih st₁ turns (fun g hg => hfields g (List.mem_cons_of_mem _ hg))
        (by simpa using hturns) hfold

/-- A line that declares more than the limit makes the loop give up. -/
theorem headerLoop_over_limit (settings : SettingsData) (fields : List Bytes) (t : Bytes)
    (st : HeaderScan) (turns : ℕ) (hfields : ∀ f ∈ fields, f ≠ [] ∧ cr ∉ f)
    (hfold : fields.foldlM (fun st f => headerLine settings f st) st = none) :
    (headerLoop settings turns (fieldBytes fields ++ t) st).1 = none := by
  induction fields generalizing st turns with
  | nil => simp at hfold
  | cons f fields ih =>
    cases turns with
    | zero => rfl
    | succ turns =>
      obtain ⟨hne, hcr⟩ := hfields f (List.mem_cons_self ..)
      rw [List.foldlM_cons] at hfold
      rw [fieldBytes_cons_append, headerLoop_line settings turns f _ st hne hcr]
      cases hline : headerLine settings f st with
      | none => rfl
      | some st₁ =>
        rw [hline] at hfold
        exact ih st₁ turns (fun g hg => hfields g (List.mem_cons_of_mem _ hg)) hfold

theorem length_le_fieldBytes (fields : List Bytes) :
    fields.length ≤ (fieldBytes fields).length := by
  induction fields with
  | nil => simp
  | cons f fields ih =>
    simp only [fieldBytes, List.flatMap_cons, List.length_append, crlf, List.length_cons,
      List.length_nil] at *
    omega

/-- The part of a request that its handler is mostly interested in. -/
structure RequestView where
  method : Method
  path : Bytes
  query : Bytes
  version : Bytes
  body : Bytes
  deriving DecidableEq

def HttpRequest.view (r : HttpRequest) : RequestView :=
  ⟨r.data.method, r.data.path, r.data.query, r.data.version, r.data.body⟩

theorem view_storeHeader (req : HttpRequest) (key : HeaderType) (value : Bytes) :
    (storeHeader req key value).view = req.view := by
  unfold storeHeader HttpRequest.addHeader HttpRequest.addPresent
  split_ifs <;> rfl

theorem view_storeField (req : HttpRequest) (field : Bytes) :
    (storeField req field).view = req.view := by
  unfold storeField
  split
  · rfl
  · exact view_storeHeader _ _ _

theorem view_foldl_storeField (fields : List Bytes) (req : HttpRequest) :
    (fields.foldl storeField req).view = req.view := by
  induction fields generalizing req with
  | nil => rfl
  | cons f fields ih => rw [List.foldl_cons, ih, view_storeField]

theorem Head.view_request (h : Head) (req : HttpRequest) :
    (h.request req).view =
      ⟨HttpRequest.parseMethod h.requestLine.method, h.requestLine.path, h.requestLine.query,
        h.requestLine.version, req.data.body⟩ := view_foldl_storeField _ _

theorem body_headerLine (settings : SettingsData) (field : Bytes) (st st' : HeaderScan)
    (h : headerLine settings field st = some st') :
    st'.req.data.body = st.req.data.body := by
  rw [headerLine_eq, Option.map_eq_some_iff] at h
  obtain ⟨n, -, rfl⟩ := h
  exact congrArg RequestView.body (view_storeField _ _)

theorem body_headerLoop (settings : SettingsData) (turns : ℕ) (rest : Bytes) (st : HeaderScan) :
    (headerLoop settings turns rest st).2.req.data.body = st.req.data.body := by
  induction turns generalizing rest st with
  | zero => rfl
  | succ turns ih =>
    rw [headerLoop]
    split_ifs
    · rfl
    · rfl
    · split
      · rfl
      · split
        · rfl
        · rename_i heq
          rw [ih, body_headerLine settings _ _ _ heq]

/-- A failed attempt leaves the body of the earlier request in place. -/
theorem body_parseBytes_of_none (settings : SettingsData) (data : Bytes) (req : HttpRequest)
    (keepAlive : Bool) (h : (parseBytes settings data req keepAlive).consumed = none) :
    (parseBytes settings data req keepAlive).req.data.body = req.data.body := by
  unfold parseBytes at h ⊢
  split_ifs at h ⊢ with hmin
  · rfl
  cases hline : firstLine data with
  | none => rfl
  | some p =>
    rw [hline] at h
    cases hsplit : splitRequestLine p.1 with
    | none => simp only [hsplit]
    | some requestLine =>
      have hbody := body_headerLoop settings (p.2.length + 1) p.2 (startScan req requestLine)
      have hstart : (startScan req requestLine).req.data.body = req.data.body := rfl
      simp only [hsplit] at h ⊢
      cases hloop : headerLoop settings (p.2.length + 1) p.2 (startScan req requestLine) with
      | mk out st =>
        rw [hloop, hstart] at hbody
        rw [hloop] at h
        cases out with
        | none => exact hbody
        | some rest =>
          dsimp only at h ⊢
          unfold takeBody at h ⊢
          dsimp only at h ⊢
          split_ifs at h ⊢
          exact hbody

/-- The request object after a head and its body; without a body the earlier one stays. -/
def Head.result (h : Head) (req : HttpRequest) (n : UInt64) (body : Bytes) : HttpRequest :=
  if n = 0 then h.request req else (h.request req).setBodyView body n.toNat

theorem Head.view_result (h : Head) (req : HttpRequest) (n : UInt64) (body : Bytes) :
    (h.result req n body).view =
      ⟨HttpRequest.parseMethod h.requestLine.method, h.requestLine.path, h.requestLine.query,
        h.requestLine.version, if n = 0 then req.data.body else body⟩ := by
  have hview := h.view_request req
  unfold Head.result
  split
  · exact hview
  · simp only [HttpRequest.view, RequestView.mk.injEq] at hview ⊢
    exact ⟨hview.1, hview.2.1, hview.2.2.1, hview.2.2.2.1, rfl⟩

/-- What the parser makes of a head with declared length n, `size` bytes in front
of `rest`: the advance is the sum of both in 64-bit arithmetic. -/
def Head.accept (h : Head) (n : UInt64) (size : ℕ) (rest : Bytes) (req : HttpRequest) :
    ParseResult :=
  ⟨h.result req n (rest.take n.toNat), h.keepAlive,
    some (if n = 0 then size else (size + n.toNat) % 2 ^ 64)⟩

/-- The test for the body: the wrapped sum does not exceed the received bytes. -/
def Fits (data rest : Bytes) (n : UInt64) : Prop :=
  n = 0 ∨ (data.length - rest.length + n.toNat) % 2 ^ 64 ≤ data.length

theorem foldlM_startScan (settings : SettingsData) (h : Head) (req : HttpRequest) :
    h.fields.foldlM (fun st f => headerLine settings f st) (startScan req h.requestLine) =
      (declaredLength settings h.fields).map fun n =>
        ⟨h.request req, h.keepAlive, n, h.fields.any isLengthField⟩ := by
  rw [foldlM_headerLine]
  rfl

theorem takeBody_eq (data rest : Bytes) (st : HeaderScan)
    (hhas : st.contentLength ≠ 0 → st.hasContentLen = true) :
    takeBody data rest st =
      if st.contentLength = 0 then ⟨st.req, st.keepAlive, some (data.length - rest.length)⟩
      else if data.length < (data.length - rest.length + st.contentLength.toNat) % 2 ^ 64 then
        ⟨st.req, st.keepAlive, none⟩
      else ⟨st.req.setBodyView (rest.take st.contentLength.toNat) st.contentLength.toNat,
        st.keepAlive, some ((data.length - rest.length + st.contentLength.toNat) % 2 ^ 64)⟩ := by
  have hsum : (UInt64.ofNat (data.length - rest.length) + st.contentLength).toNat =
      (data.length - rest.length + st.contentLength.toNat) % 2 ^ 64 := by
    rw [UInt64.toNat_add, UInt64.toNat_ofNat']
    omega
  by_cases hzero : st.contentLength = 0
  · simp [takeBody, hzero]
  · have hpos : st.contentLength > 0 := UInt64.pos_iff_ne_zero.mpr hzero
    simp only [takeBody, hhas hzero, hpos, true_and, if_true, if_neg hzero, hsum]

theorem Head.firstLine_bytes (h : Head) (t : Bytes) :
    firstLine (h.bytes ++ t) = some (h.line, fieldBytes h.fields ++ t) := by
  have hbytes : h.bytes ++ t = h.line ++ crlf ++ (fieldBytes h.fields ++ t) := by
    simp only [Head.bytes, List.append_assoc]
  rw [hbytes]
  exact firstLine_append _ _ h.line_cr

theorem parseBytes_head (settings : SettingsData) (h : Head) (t : Bytes) (req : HttpRequest)
    (keepAlive : Bool) (hmin : minRequestSize ≤ (h.bytes ++ t).length) :
    parseBytes settings (h.bytes ++ t) req keepAlive =
      match headerLoop settings ((fieldBytes h.fields ++ t).length + 1) (fieldBytes h.fields ++ t)
        (startScan req h.requestLine) with
      | (none, st) => ⟨st.req, st.keepAlive, none⟩
      | (some rest, st) => takeBody (h.bytes ++ t) rest st := by
  have hline := h.firstLine_bytes t
  have hlong : ¬(h.bytes ++ t).length < minRequestSize := by omega
  cases hloop : headerLoop settings ((fieldBytes h.fields ++ t).length + 1)
      (fieldBytes h.fields ++ t) (startScan req h.requestLine) with
  | mk rest st =>
    cases rest with
    | none => simp only [parseBytes, if_neg hlong, hline, h.line_ok, hloop]
    | some rest => simp only [parseBytes, if_neg hlong, hline, h.line_ok, hloop]

theorem parseBytes_over_limit (settings : SettingsData) (h : Head) (t : Bytes) (req : HttpRequest)
    (keepAlive : Bool) (hmin : minRequestSize ≤ (h.bytes ++ t).length)
    (hdecl : declaredLength settings h.fields = none) :
    (parseBytes settings (h.bytes ++ t) req keepAlive).consumed = none := by
  have hfold := foldlM_startScan settings h req
  rw [hdecl, Option.map_none] at hfold
  have hloop := headerLoop_over_limit settings h.fields t _
    ((fieldBytes h.fields ++ t).length + 1) h.fields_ok hfold
  rw [parseBytes_head settings h t req keepAlive hmin]
  split
  · rfl
  · rename_i heq
    rw [heq] at hloop
    simp at hloop

theorem headerLoop_head (settings : SettingsData) (h : Head) (t : Bytes) (out : Option Bytes)
    (n : UInt64) (req : HttpRequest) (hend : SectionEnd t out)
    (hdecl : declaredLength settings h.fields = some n) :
    headerLoop settings ((fieldBytes h.fields ++ t).length + 1) (fieldBytes h.fields ++ t)
        (startScan req h.requestLine) =
      (out, ⟨h.request req, h.keepAlive, n, h.fields.any isLengthField⟩) := by
  have hfold := foldlM_startScan settings h req
  rw [hdecl, Option.map_some] at hfold
  have hlen := length_le_fieldBytes h.fields
  exact headerLoop_section settings h.fields t out _ _ _ h.fields_ok hend
    (by rw [List.length_append]; omega) hfold

theorem parseBytes_stuck (settings : SettingsData) (h : Head) (t : Bytes) (n : UInt64)
    (req : HttpRequest) (keepAlive : Bool) (hmin : minRequestSize ≤ (h.bytes ++ t).length)
    (hend : SectionEnd t none) (hdecl : declaredLength settings h.fields = some n) :
    (parseBytes settings (h.bytes ++ t) req keepAlive).consumed = none := by
  rw [parseBytes_head settings h t req keepAlive hmin,
    headerLoop_head settings h t none n req hend hdecl]

theorem parseBytes_section (settings : SettingsData) (h : Head) (t rest : Bytes) (n : UInt64)
    (req : HttpRequest) (keepAlive : Bool) (hmin : minRequestSize ≤ (h.bytes ++ t).length)
    (hend : SectionEnd t (some rest)) (hdecl : declaredLength settings h.fields = some n) :
    (Fits (h.bytes ++ t) rest n → parseBytes settings (h.bytes ++ t) req keepAlive =
        h.accept n ((h.bytes ++ t).length - rest.length) rest req) ∧
      (¬ Fits (h.bytes ++ t) rest n →
        (parseBytes settings (h.bytes ++ t) req keepAlive).consumed = none) := by
  have hparse : parseBytes settings (h.bytes ++ t) req keepAlive =
      takeBody (h.bytes ++ t) rest
        ⟨h.request req, h.keepAlive, n, h.fields.any isLengthField⟩ := by
    rw [parseBytes_head settings h t req keepAlive hmin,
      headerLoop_head settings h t (some rest) n req hend hdecl]
  rw [takeBody_eq _ _ _ fun hne => any_isLengthField settings h.fields 0 n hdecl hne] at hparse
  dsimp only at hparse
  constructor
  · intro hfits
    rw [hparse, Head.accept, Head.result]
    by_cases hzero : n = 0
    · simp only [hzero, if_true]
    · have hle := hfits.resolve_left hzero
      rw [if_neg hzero, if_neg hzero, if_neg hzero, if_neg (by omega)]
  · intro hfits
    rw [Fits, not_or] at hfits
    rw [hparse, if_neg hfits.1, if_pos (by omega)]

def requestLineOf (data : Bytes) : Option RequestLine :=
  (firstLine data).bind fun p => splitRequestLine p.1

theorem requestLineOf_head (h : Head) (t : Bytes) :
    requestLineOf (h.bytes ++ t) = some h.requestLine := by
  rw [requestLineOf, h.firstLine_bytes t]
  exact h.line_ok

/-- Bytes whose first line is a request line start with a head. -/
theorem exists_head (data line tail : Bytes) (requestLine : RequestLine)
    (hline : firstLine data = some (line, tail))
    (hsplit : splitRequestLine line = some requestLine) :
    ∃ (h : Head) (t : Bytes) (out : Option Bytes), data = h.bytes ++ t ∧ SectionEnd t out := by
  obtain ⟨hdata, hcr⟩ := (firstLine_eq_some_iff _ _ _).mp hline
  obtain ⟨fields, t, out, htail, hfields, hend⟩ := exists_section tail
  refine ⟨⟨line, requestLine, fields, hcr, hsplit, hfields⟩, t, out, ?_, hend⟩
  rw [hdata, htail]
  simp only [Head.bytes, List.append_assoc]

/-- The parser accepts exactly the heads whose section has ended and whose body
fits, and it uses the earlier request object only for what the head leaves unset. -/
theorem parseBytes_cases (settings : SettingsData) (data : Bytes) :
    (∀ req keepAlive, (parseBytes settings data req keepAlive).consumed = none) ∨
      ∃ (h : Head) (t rest : Bytes) (n : UInt64), data = h.bytes ++ t ∧
        SectionEnd t (some rest) ∧ declaredLength settings h.fields = some n ∧
        minRequestSize ≤ data.length ∧ Fits data rest n ∧
        ∀ req keepAlive, parseBytes settings data req keepAlive =
          h.accept n (data.length - rest.length) rest req := by
  by_cases hmin : data.length < minRequestSize
  · exact Or.inl fun req keepAlive => by rw [parseBytes, if_pos hmin]
  have hmin' : minRequestSize ≤ data.length := by omega
  cases hline : firstLine data with
  | none => exact Or.inl fun req keepAlive => by rw [parseBytes, if_neg hmin, hline]
  | some p =>
    obtain ⟨line, tail⟩ := p
    cases hsplit : splitRequestLine line with
    | none =>
      refine Or.inl fun req keepAlive => ?_
      rw [parseBytes, if_neg hmin, hline]
      dsimp only
      rw [hsplit]
    | some requestLine =>
      obtain ⟨h, t, out, rfl, hend⟩ := exists_head data line tail requestLine hline hsplit
      cases hdecl : declaredLength settings h.fields with
      | none =>
        exact Or.inl fun req keepAlive =>
          parseBytes_over_limit settings h t req keepAlive hmin' hdecl
      | some n =>
        cases out with
        | none =>
          exact Or.inl fun req keepAlive =>
            parseBytes_stuck settings h t n req keepAlive hmin' hend hdecl
        | some rest =>
          by_cases hfits : Fits (h.bytes ++ t) rest n
          · exact Or.inr ⟨h, t, rest, n, rfl, hend, hdecl, hmin', hfits, fun req keepAlive =>
              (parseBytes_section settings h t rest n req keepAlive hmin' hend hdecl).1 hfits⟩
          · exact Or.inl fun req keepAlive =>
              (parseBytes_section settings h t rest n req keepAlive hmin' hend hdecl).2 hfits

namespace CompleteRequest

variable {settings : SettingsData} (r : CompleteRequest settings)

/-- The request object after r. -/
def request (req : HttpRequest) : HttpRequest := r.head.result req r.length r.body

theorem length_bytes : r.bytes.length = r.head.bytes.length + 2 + r.length.toNat := by
  simp only [bytes, List.length_append, r.body_length]
  rfl

/-- A complete request is parsed as such, whatever follows it. -/
theorem parseBytes_bytes (extra : Bytes) (req : HttpRequest) (keepAlive : Bool)
    (hmin : minRequestSize ≤ (r.bytes ++ extra).length) :
    parseBytes settings (r.bytes ++ extra) req keepAlive =
      ⟨r.request req, r.head.keepAlive, some r.bytes.length⟩ := by
  have hdata : r.bytes ++ extra = r.head.bytes ++ (crlf ++ (r.body ++ extra)) := by
    simp only [bytes, List.append_assoc]
  have hlen := r.length_bytes
  have hlt : r.bytes.length < 2 ^ 64 := r.size_lt
  have hsize : (r.head.bytes ++ (crlf ++ (r.body ++ extra))).length - (r.body ++ extra).length =
      r.head.bytes.length + 2 := by
    simp only [List.length_append, crlf, List.length_cons, List.length_nil]
    omega
  have htotal : (r.head.bytes.length + 2 + r.length.toNat) % 2 ^ 64 = r.bytes.length := by
    rw [← hlen, Nat.mod_eq_of_lt hlt]
  have hfits : Fits (r.head.bytes ++ (crlf ++ (r.body ++ extra))) (r.body ++ extra) r.length := by
    refine Or.inr ?_
    rw [hsize, htotal, ← hdata, List.length_append]
    omega
  rw [hdata] at hmin ⊢
  rw [(parseBytes_section settings r.head _ _ r.length req keepAlive hmin
    (SectionEnd.blank (r.body ++ extra)) r.declared).1 hfits, hsize, Head.accept, request, htotal,
    ← r.body_length, List.take_left]
  split
  · rename_i hzero
    rw [hlen, hzero]
    rfl
  · rfl

end CompleteRequest

end WarpApi

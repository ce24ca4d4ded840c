import WarpApi.ContentLength
import WarpApi.Library.HttpMessage

/-!
Serialised requests and `parseRequest`. A request whose header lines mean nothing to the
parser, but for an optional Content-Length that states the length of the body, is taken
as it was written: all its bytes and no others, whatever follows them.
-/
namespace WarpApi

open DecimalNumeral

/-- The lengths of the names that `parseRequest` acts on. -/
def knownLengths : List ℕ := [7, 10, 14, 17, 21]

/-- A line that the parser passes over: its name, if it has one, is of no known length. -/
structure PassedOver (line : Bytes) : Prop where
  ne : line ≠ []
  noCr : cr ∉ line
  length : ∀ p ∈ splitHeader line, p.1.length ∉ knownLengths

/-- A request to be written; `sized` tells whether it has a Content-Length. -/
structure PlainRequest (settings : SettingsData) where
  method : Bytes
  path : Bytes
  query : Option Bytes
  linesBefore : List Bytes
  sized : Bool
  linesAfter : List Bytes
  body : Bytes
  method_ne : method ≠ []
  method_ok : space ∉ method ∧ cr ∉ method
  path_ne : path ≠ []
  path_ok : space ∉ path ∧ questionMark ∉ path ∧ cr ∉ path
  query_ok : ∀ q, query = some q → space ∉ q ∧ cr ∉ q
  lines_ok : ∀ line ∈ linesBefore ++ linesAfter, PassedOver line
  body_ok : if sized then body.length ≤ settings.maxBodySize.toNat else body = []

def http11 : Bytes := ascii "HTTP/1.1"

def contentLengthLine (n : ℕ) : Bytes := ascii "Content-Length: " ++ decimal n

namespace PlainRequest

variable {settings : SettingsData} (r : PlainRequest settings)

def line : Bytes :=
  match r.query with
  | none => r.method ++ space :: (r.path ++ space :: http11)
  | some q => r.method ++ space :: (r.path ++ questionMark :: (q ++ space :: http11))

def lengthLines : List Bytes := if r.sized then [contentLengthLine r.body.length] else []

def fields : List Bytes := r.linesBefore ++ r.lengthLines ++ r.linesAfter

def bytes : Bytes := r.line ++ crlf ++ fieldBytes r.fields ++ crlf ++ r.body

def view : RequestView :=
  ⟨HttpRequest.parseMethod r.method, r.path, r.query.getD [], http11, r.body⟩

end PlainRequest

theorem drop_length_append_cons (pre rest : Bytes) (c : UInt8) :
    (pre ++ c :: rest).drop (pre.length + 1) = rest := by
  rw [List.drop_append, List.drop_eq_nil_of_le (by omega)]
  simp

theorem takeWhile_path {path : Bytes} {stop : UInt8} (rest : Bytes)
    (hpath : space ∉ path ∧ questionMark ∉ path) (hstop : stop = space ∨ stop = questionMark) :
    (path ++ stop :: rest).takeWhile (fun c => c != questionMark && c != space) = path := by
  apply HttpMessage.takeWhile_append_cons
  · intro d hd
    have hspace : d ≠ space := fun heq => hpath.1 (heq ▸ hd)
    have hmark : d ≠ questionMark := fun heq => hpath.2 (heq ▸ hd)
    simp [hspace, hmark]
  · rcases hstop with rfl | rfl <;> decide

theorem splitRequestLine_path {method path : Bytes} (version : Bytes) (hmethod : space ∉ method)
    (hpath : space ∉ path ∧ questionMark ∉ path) :
    splitRequestLine (method ++ space :: (path ++ space :: version)) =
      some ⟨method, path, [], version⟩ := by
  have hlong : ¬ method.length = (method ++ space :: (path ++ space :: version)).length := by
    rw [List.length_append, List.length_cons]
    omega
  have hlong' : ¬ path.length = (path ++ space :: version).length := by
    rw [List.length_append, List.length_cons]
    omega
  have hstop : (path ++ space :: version).getD path.length 0 = space := by
    simp [List.getD_eq_getElem?_getD]
  unfold splitRequestLine
  dsimp only
  rw [HttpMessage.takeWhile_append_stop method _ hmethod, if_neg hlong, drop_length_append_cons,
    takeWhile_path version hpath (Or.inl rfl), if_neg hlong', hstop, if_neg (by decide),
    drop_length_append_cons]

theorem splitRequestLine_query {method path query : Bytes} (version : Bytes)
    (hmethod : space ∉ method) (hpath : space ∉ path ∧ questionMark ∉ path)
    (hquery : space ∉ query) :
    splitRequestLine (method ++ space :: (path ++ questionMark :: (query ++ space :: version))) =
      some ⟨method, path, query, version⟩ := by
  have hlong : ¬ method.length =
      (method ++ space :: (path ++ questionMark :: (query ++ space :: version))).length := by
    rw [List.length_append, List.length_cons]
    omega
  have hlong' : ¬ path.length =
      (path ++ questionMark :: (query ++ space :: version)).length := by
    rw [List.length_append, List.length_cons]
    omega
  have hlong'' : ¬ query.length = (query ++ space :: version).length := by
    rw [List.length_append, List.length_cons]
    omega
  have hstop : (path ++ questionMark :: (query ++ space :: version)).getD path.length 0 =
      questionMark := by
    simp [List.getD_eq_getElem?_getD]
  unfold splitRequestLine
  dsimp only
  rw [HttpMessage.takeWhile_append_stop method _ hmethod, if_neg hlong, drop_length_append_cons,
    takeWhile_path _ hpath (Or.inr rfl), if_neg hlong', if_pos hstop, drop_length_append_cons,
    HttpMessage.takeWhile_append_stop query _ hquery, if_neg hlong'', drop_length_append_cons]

theorem headerKey_eq_none {n : ℕ} (h : n ∉ knownLengths) : headerKey n = .none := by
  simp only [knownLengths, List.mem_cons, List.not_mem_nil, or_false, not_or] at h
  unfold headerKey
  split <;> first | rfl | simp at h

theorem PassedOver.headerOf_eq {line : Bytes} (h : PassedOver line) :
    (headerOf line).1 = .none := by
  unfold headerOf
  cases hsplit : splitHeader line with
  | none => rfl
  | some p => exact headerKey_eq_none (h.length p hsplit)

theorem PassedOver.not_sameLength {line : Bytes} (h : PassedOver line) :
    ¬ sameLength .contentLength line = true := by
  rw [sameLength_iff (by decide), h.headerOf_eq]
  decide

theorem headerOf_contentLengthLine (n : ℕ) :
    headerOf (contentLengthLine n) = (.contentLength, decimal n) := by
  have hline : contentLengthLine n = ascii "Content-Length" ++ colon :: (space :: decimal n) := by
    have htext : ascii "Content-Length: " = ascii "Content-Length" ++ [colon, space] := by decide
    rw [contentLengthLine, htext, List.append_assoc]
    rfl
  have hname : (contentLengthLine n).takeWhile (· != colon) = ascii "Content-Length" := by
    rw [hline]
    exact HttpMessage.takeWhile_append_stop _ _ (by decide)
  have hraw : rawValue (contentLengthLine n) = space :: decimal n := by
    rw [rawValue, hname, hline, drop_length_append_cons]
  have hlong : ¬ (ascii "Content-Length").length = (contentLengthLine n).length := by
    rw [hline, List.length_append, List.length_cons]
    omega
  rcases splitHeader_cases (contentLengthLine n) with hnone | hsome
  · unfold splitHeader at hnone
    dsimp only at hnone
    rw [hname, if_neg hlong] at hnone
    simp at hnone
  · rw [hname, hraw, List.head?_cons, if_pos rfl, List.tail_cons] at hsome
    rw [headerOf, hsome]
    rfl

/-- The parser reads back the number that was printed. -/
theorem fastAtoi_decimal (n : ℕ) : fastAtoi (decimal n) = UInt64.ofNat n := by
  have htake : (numeral n ++ []).takeWhile isDigit = numeral n :=
    takeWhile_isDigit_append (fun c hc => isDigit_of_mem_numeral hc) (by simp)
  rw [List.append_nil] at htake
  apply UInt64.toNat_inj.mp
  rw [fastAtoi_toNat, decimal_eq_numeral, htake, value_numeral, UInt64.toNat_ofNat']

namespace PlainRequest

variable {settings : SettingsData} (r : PlainRequest settings)

theorem declaredLength_fields :
    declaredLength settings r.fields = some (UInt64.ofNat r.body.length) := by
  have hbefore : ∀ line ∈ r.linesBefore, ¬ sameLength .contentLength line = true :=
    fun line hline => (r.lines_ok line (List.mem_append_left _ hline)).not_sameLength
  have hafter : ∀ line ∈ r.linesAfter, ¬ sameLength .contentLength line = true :=
    fun line hline => (r.lines_ok line (List.mem_append_right _ hline)).not_sameLength
  have hlength : r.lengthLines.foldlM (declareLength settings) 0 =
      some (UInt64.ofNat r.body.length) := by
    have hbody := r.body_ok
    unfold lengthLines
    cases hsized : r.sized with
    | false =>
      simp only [hsized, Bool.false_eq_true, if_false] at hbody ⊢
      rw [hbody]
      rfl
    | true =>
      simp only [hsized, if_true] at hbody ⊢
      have hmax := settings.maxBodySize.toNat_lt
      have hlt : r.body.length < 2 ^ 64 := by omega
      have hvalue : fastAtoi (headerOf (contentLengthLine r.body.length)).2 =
          UInt64.ofNat r.body.length := by
        rw [headerOf_contentLengthLine]
        exact fastAtoi_decimal _
      have hover : ¬ overLimit settings (contentLengthLine r.body.length) = true := by
        intro htrue
        rw [overLimit, hvalue, Bool.and_eq_true] at htrue
        have hgt := UInt64.lt_iff_toNat_lt.mp (of_decide_eq_true htrue.2)
        rw [UInt64.toNat_ofNat', Nat.mod_eq_of_lt hlt] at hgt
        omega
      simp only [List.foldlM_cons, List.foldlM_nil]
      rw [declareLength_eq, if_neg hover, hvalue, headerOf_contentLengthLine, if_pos rfl]
      rfl
  rw [declaredLength, fields, List.foldlM_append, List.foldlM_append,
    foldlM_declareLength_of_others settings 0 _ hbefore]
  simp only [Option.bind_eq_bind, Option.bind_some]
  rw [hlength]
  exact foldlM_declareLength_of_others settings _ _ hafter

theorem fields_cases {line : Bytes} (h : line ∈ r.fields) :
    PassedOver line ∨ line = contentLengthLine r.body.length := by
  rcases List.mem_append.mp h with h | h
  · rcases List.mem_append.mp h with h | h
    · exact Or.inl (r.lines_ok line (List.mem_append_left _ h))
    · unfold lengthLines at h
      split_ifs at h
      · exact Or.inr (List.mem_singleton.mp h)
      · simp at h
  · exact Or.inl (r.lines_ok line (List.mem_append_right _ h))

theorem keepAlive_fields : r.fields.foldl fieldKeepAlive true = true := by
  have hnone : r.fields.filterMap connectionChoice = [] := by
    rw [List.filterMap_eq_nil_iff]
    intro line hline
    have hkey : (headerOf line).1 ≠ .connection := by
      rcases r.fields_cases hline with hover | rfl
      · rw [hover.headerOf_eq]
        decide
      · rw [headerOf_contentLengthLine]
        exact (by decide : HeaderType.contentLength ≠ .connection)
    rw [connectionChoice, if_neg hkey]
  rw [keepAlive_foldl, hnone]
  rfl

theorem fields_ok : ∀ f ∈ r.fields, f ≠ [] ∧ cr ∉ f := by
  intro f hf
  rcases r.fields_cases hf with hover | rfl
  · exact ⟨hover.ne, hover.noCr⟩
  · have htext : cr ∉ ascii "Content-Length: " := by decide
    have hdigits : cr ∉ decimal r.body.length := fun hmem =>
      absurd (isDigit_of_mem_numeral hmem) (by decide)
    refine ⟨List.append_ne_nil_of_left_ne_nil (by decide) _, fun hmem => ?_⟩
    rcases List.mem_append.mp hmem with hmem | hmem
    · exact htext hmem
    · exact hdigits hmem

theorem splitRequestLine_line :
    splitRequestLine r.line = some ⟨r.method, r.path, r.query.getD [], http11⟩ := by
  have hpath : space ∉ r.path ∧ questionMark ∉ r.path := ⟨r.path_ok.1, r.path_ok.2.1⟩
  unfold line
  cases hquery : r.query with
  | none => exact splitRequestLine_path _ r.method_ok.1 hpath
  | some q => exact splitRequestLine_query _ r.method_ok.1 hpath (r.query_ok q hquery).1

theorem cr_notMem_line : cr ∉ r.line := by
  have hversion : cr ∉ http11 := by decide
  have hspace : cr ≠ space := by decide
  have hmark : cr ≠ questionMark := by decide
  have hmethod := r.method_ok.2
  have hpath := r.path_ok.2.2
  unfold line
  cases hquery : r.query with
  | none =>
    simp only [List.mem_append, List.mem_cons, not_or]
    exact ⟨hmethod, hspace, hpath, hspace, hversion⟩
  | some q =>
    simp only [List.mem_append, List.mem_cons, not_or]
    exact ⟨hmethod, hspace, hpath, hmark, (r.query_ok q hquery).2, hspace, hversion⟩

def head : Head where
  line := r.line
  requestLine := ⟨r.method, r.path, r.query.getD [], http11⟩
  fields := r.fields
  line_cr := r.cr_notMem_line
  line_ok := r.splitRequestLine_line
  fields_ok := r.fields_ok

theorem length_body_lt : r.body.length < 2 ^ 64 := by
  have hbody := r.body_ok
  have hmax := settings.maxBodySize.toNat_lt
  split_ifs at hbody
  · omega
  · rw [hbody]
    exact Nat.two_pow_pos 64

def complete (hsize : r.bytes.length < 2 ^ 64) : CompleteRequest settings where
  head := r.head
  body := r.body
  length := UInt64.ofNat r.body.length
  declared := r.declaredLength_fields
  body_length := by
    rw [UInt64.toNat_ofNat', Nat.mod_eq_of_lt r.length_body_lt]
  size_lt := hsize

/-- The shortest request has one letter each as its method and its path. -/
theorem minRequestSize_le (rest : Bytes) : minRequestSize ≤ (r.bytes ++ rest).length := by
  have hmethod := List.length_pos_iff.mpr r.method_ne
  have hpath := List.length_pos_iff.mpr r.path_ne
  have hversion : http11.length = 8 := by decide
  have hline : 12 ≤ r.line.length := by
    unfold line
    cases r.query with
    | none =>
      simp only [List.length_append, List.length_cons, hversion]
      omega
    | some q =>
      simp only [List.length_append, List.length_cons, hversion]
      omega
  simp only [bytes, List.length_append, crlf, List.length_cons, List.length_nil, minRequestSize]
  omega

/-- A serialised request is parsed back, and what follows it is left. -/
theorem parseRequest_bytes (rest : Bytes) (s : Session) (old : HttpRequest)
    (hreset : s.req = old.reset) (hunread : s.readBuffer.unread = r.bytes ++ rest)
    (hsize : r.bytes.length < 2 ^ 64) :
    ∃ t, s.parseRequest settings = (true, t) ∧
      t.readBuffer = s.readBuffer.advance r.bytes.length ∧ t.readBuffer.unread = rest ∧
      t.req.view = r.view ∧ t.keepAlive = true := by
  have hbytes : (r.complete hsize).bytes = r.bytes := rfl
  have hparse := (r.complete hsize).parseBytes_bytes rest s.req s.keepAlive
    (r.minRequestSize_le rest)
  rw [hbytes, ← hunread] at hparse
  have hview : ((r.complete hsize).request s.req).view = r.view := by
    have hresult := r.head.view_result s.req (UInt64.ofNat r.body.length) r.body
    rw [CompleteRequest.request]
    refine hresult.trans ?_
    rw [PlainRequest.view, RequestView.mk.injEq]
    refine ⟨rfl, rfl, rfl, rfl, ?_⟩
    split_ifs with hzero
    · have hlength := congrArg UInt64.toNat hzero
      rw [UInt64.toNat_ofNat', Nat.mod_eq_of_lt r.length_body_lt] at hlength
      rw [hreset, List.length_eq_zero_iff.mp hlength]
      rfl
    · rfl
  refine ⟨_, by rw [Session.parseRequest, hparse], rfl, ?_, hview, r.keepAlive_fields⟩
  rw [BoundedQueue.unread_advance, hunread, List.drop_left]

def postItems : PlainRequest configJson where
  method := ascii "POST"
  path := ascii "/items"
  query := some (ascii "page=2")
  linesBefore := [ascii "Host: here", ascii "no colon"]
  sized := true
  linesAfter := []
  body := ascii "hi"
  method_ne := by decide
  method_ok := by decide
  path_ne := by decide
  path_ok := by decide
  query_ok := by
    intro q hq
    obtain rfl := Option.some.inj hq
    decide
  lines_ok := by
    intro line hline
    rcases List.mem_cons.mp hline with rfl | hline
    · exact ⟨by decide, by decide, by decide⟩
    · obtain rfl := List.mem_singleton.mp hline
      exact ⟨by decide, by decide, by decide⟩
  body_ok := by decide

def receivingItems : Session := receivingReset configJson (postItems.bytes ++ ascii "GET /")

theorem parseRequest_postItems :
    ∃ t, receivingItems.parseRequest configJson = (true, t) ∧
      t.readBuffer = receivingItems.readBuffer.advance postItems.bytes.length ∧
      t.readBuffer.unread = ascii "GET /" ∧ t.req.view = postItems.view ∧ t.keepAlive = true :=
  postItems.parseRequest_bytes (ascii "GET /") receivingItems HttpRequest.init rfl
    (by decide +kernel) (by decide +kernel)

end PlainRequest

end WarpApi

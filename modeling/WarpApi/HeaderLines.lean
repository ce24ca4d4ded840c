import WarpApi.RequestGrammar
import WarpApi.Library.LastWrite

/-!
The header lines that an attempt takes, told from the bytes alone, and what they make of
the request object. A line is stored under a key that is read from the length of its
name, and the key is the index of its slot; three of the five keys are no indices.
-/
namespace WarpApi

open LastWrite

/-- The key and the value under which a line is stored. -/
def headerOf (line : Bytes) : HeaderType × Bytes :=
  match splitHeader line with
  | none => (.none, [])
  | some (name, value) => (headerKey name.length, value)

/-- The line declares a body beyond the limit. -/
def overLimit (settings : SettingsData) (line : Bytes) : Bool :=
  (headerOf line).1 = .contentLength && fastAtoi (headerOf line).2 > settings.maxBodySize

/-- The lines up to the blank one, to the end of the bytes, to an incomplete line or to
one over the limit. -/
def headerLines (settings : SettingsData) : ℕ → Bytes → List Bytes
  | 0, _ => []
  | turns + 1, rest =>
    if rest = [] then []
    else if rest.take 2 = crlf then []
    else match firstLine rest with
      | none => []
      | some (line, rest) =>
        if overLimit settings line then [] else line :: headerLines settings turns rest

/-- The request line that an attempt on these bytes gets to store. -/
def startLine (data : Bytes) : Option RequestLine :=
  if data.length < minRequestSize then none else requestLineOf data

/-- The header lines that an attempt on these bytes gets to store. -/
def takenLines (settings : SettingsData) (data : Bytes) : List Bytes :=
  match startLine data, firstLine data with
  | some _, some (_, rest) => headerLines settings (rest.length + 1) rest
  | _, _ => []

theorem storeField_eq (req : HttpRequest) (line : Bytes) :
    storeField req line = storeHeader req (headerOf line).1 (headerOf line).2 := by
  unfold storeField headerOf
  cases splitHeader line with
  | none => simp [storeHeader, HttpRequest.addHeader]
  | some p => rfl

theorem fieldKeepAlive_eq (keepAlive : Bool) (line : Bytes) :
    fieldKeepAlive keepAlive line =
      if (headerOf line).1 = .connection then connectionKeepAlive keepAlive (headerOf line).2
      else keepAlive := by
  unfold fieldKeepAlive headerOf
  cases splitHeader line with
  | none => simp
  | some p => rfl

theorem declareLength_eq (settings : SettingsData) (n : UInt64) (line : Bytes) :
    declareLength settings n line =
      if overLimit settings line then none
      else some (if (headerOf line).1 = .contentLength then fastAtoi (headerOf line).2 else n) := by
  unfold declareLength overLimit headerOf
  cases splitHeader line with
  | none => simp
  | some p =>
    dsimp only
    by_cases hkey : headerKey p.1.length = .contentLength
    · by_cases hmax : fastAtoi p.2 > settings.maxBodySize
      · simp [hkey, hmax]
      · simp [hkey, hmax]
    · simp [hkey]

/-- The body length that a line declares, if it does. -/
def lengthChoice (line : Bytes) : Option UInt64 :=
  if (headerOf line).1 = .contentLength then some (fastAtoi (headerOf line).2) else none

theorem headerLoop_lines (settings : SettingsData) (turns : ℕ) (rest : Bytes) (st : HeaderScan) :
    (headerLoop settings turns rest st).2.req =
        (headerLines settings turns rest).foldl storeField st.req ∧
      (headerLoop settings turns rest st).2.keepAlive =
        (headerLines settings turns rest).foldl fieldKeepAlive st.keepAlive ∧
      (headerLoop settings turns rest st).2.contentLength =
        (headerLines settings turns rest).foldl (fun n line => (lengthChoice line).getD n)
          st.contentLength := by
  induction turns generalizing rest st with
  | zero => exact ⟨rfl, rfl, rfl⟩
  | succ turns ih =>
    rw [headerLoop, headerLines]
    split_ifs
    · exact ⟨rfl, rfl, rfl⟩
    · exact ⟨rfl, rfl, rfl⟩
    · cases firstLine rest with
      | none => exact ⟨rfl, rfl, rfl⟩
      | some p =>
        dsimp only
        rw [headerLine_eq, declareLength_eq]
        by_cases hover : overLimit settings p.1 = true
        · rw [if_pos hover, if_pos hover]
          exact ⟨rfl, rfl, rfl⟩
        · have hlength : (lengthChoice p.1).getD st.contentLength =
              if (headerOf p.1).1 = .contentLength then fastAtoi (headerOf p.1).2
              else st.contentLength := by
            unfold lengthChoice
            split_ifs <;> rfl
          rw [if_neg hover, if_neg hover, ← hlength]
          exact ih p.2 _

theorem takenLines_of_startLine (settings : SettingsData) {data line rest : Bytes}
    {requestLine : RequestLine} (hstart : startLine data = some requestLine)
    (hline : firstLine data = some (line, rest)) :
    takenLines settings data = headerLines settings (rest.length + 1) rest := by
  rw [takenLines, hstart, hline]

/-- The request object before a body is taken. -/
def linesRequest (settings : SettingsData) (data : Bytes) (line : RequestLine)
    (req : HttpRequest) : HttpRequest :=
  (takenLines settings data).foldl storeField (startScan req line).req

/-- An attempt that stores no request line leaves no trace. -/
theorem parseBytes_of_startLine_none {settings : SettingsData} {data : Bytes}
    (h : startLine data = none) (req : HttpRequest) (keepAlive : Bool) :
    parseBytes settings data req keepAlive = ⟨req, keepAlive, none⟩ := by
  unfold startLine requestLineOf at h
  unfold parseBytes
  split_ifs at h ⊢ with hmin
  · rfl
  · cases hline : firstLine data with
    | none => rfl
    | some p =>
      rw [hline, Option.bind_some] at h
      dsimp only
      rw [h]

/-- Any other attempt stores the request line and the lines taken, and it may set a body
when it succeeds. -/
theorem parseBytes_of_startLine (settings : SettingsData) {data : Bytes} {line : RequestLine}
    (h : startLine data = some line) (req : HttpRequest) (keepAlive : Bool) :
    (parseBytes settings data req keepAlive).keepAlive =
        (takenLines settings data).foldl fieldKeepAlive true ∧
      ((parseBytes settings data req keepAlive).req = linesRequest settings data line req ∨
        (parseBytes settings data req keepAlive).consumed ≠ none ∧
          ∃ body size, (parseBytes settings data req keepAlive).req =
            (linesRequest settings data line req).setBodyView body size) := by
  have hstart := h
  unfold startLine requestLineOf at h
  split_ifs at h with hmin
  rw [Option.bind_eq_some_iff] at h
  obtain ⟨⟨first, rest⟩, hline, hsplit⟩ := h
  have htaken := takenLines_of_startLine settings hstart hline
  obtain ⟨hreq, hkeep, -⟩ := headerLoop_lines settings (rest.length + 1) rest (startScan req line)
  unfold linesRequest
  rw [parseBytes, if_neg hmin, hline, htaken]
  dsimp only at hsplit ⊢
  rw [hsplit]
  dsimp only
  cases hloop : headerLoop settings (rest.length + 1) rest (startScan req line) with
  | mk out st =>
    rw [hloop] at hreq hkeep
    cases out with
    | none => exact ⟨hkeep, Or.inl hreq⟩
    | some behind =>
      dsimp only
      unfold takeBody
      dsimp only
      split_ifs
      · exact ⟨hkeep, Or.inl hreq⟩
      · refine ⟨hkeep, Or.inr ⟨by simp, behind.take st.contentLength.toNat,
          st.contentLength.toNat, ?_⟩⟩
        exact congrArg (HttpRequest.setBodyView · _ _) hreq
      · exact ⟨hkeep, Or.inl hreq⟩

namespace HttpRequest

/-- The index at which `getHeader` reads; its guard lets none through. -/
def readIndex (key : HeaderType) : Option ℕ :=
  if key.val < HeaderType.none.val then some key.val else none

theorem getHeader_eq (r : HttpRequest) (key : HeaderType) :
    r.getHeader key =
      match readIndex key with
      | some i => if h : i < maxHeadersSize then r.data.headers ⟨i, h⟩ else []
      | none => [] := by
  unfold getHeader readIndex
  by_cases hbelow : key.val < HeaderType.none.val
  · rw [if_pos hbelow, if_pos hbelow]
  · rw [if_neg hbelow, if_neg hbelow]

/-- No write of the later object and no read left the header array. -/
def HeadersInArray (before after : HttpRequest) : Prop :=
  after.strayWrites = before.strayWrites ∧
    ∀ key i, readIndex key = some i → i < maxHeadersSize

theorem strayWrites_storeHeader (r : HttpRequest) (key : HeaderType) (value : Bytes) :
    (storeHeader r key value).strayWrites =
      if key.hasSlot then r.strayWrites else key.val :: r.strayWrites := by
  unfold storeHeader addHeader addPresent HeaderType.hasSlot
  by_cases hkey : key = .none
  · subst hkey
    rfl
  · simp only [ne_eq, hkey, not_false_eq_true, if_true, decide_eq_true_eq]
    split_ifs <;> rfl

end HttpRequest

open HttpRequest

/-- The write into the header array that a line makes, if its key is an index. -/
def slotWrite? (line : Bytes) : Option (Fin maxHeadersSize × Bytes) :=
  if h : (headerOf line).1 ≠ .none ∧ (headerOf line).1.val < maxHeadersSize then
    some (⟨(headerOf line).1.val, h.2⟩, (headerOf line).2)
  else none

def slotWrites (lines : List Bytes) : List (Fin maxHeadersSize × Bytes) :=
  lines.filterMap slotWrite?

theorem headers_of_slotWrite (req : HttpRequest) (line : Bytes) :
    (storeField req line).data.headers =
      match slotWrite? line with
      | some w => Function.update req.data.headers w.1 w.2
      | none => req.data.headers := by
  rw [storeField_eq]
  unfold storeHeader addHeader addPresent slotWrite?
  by_cases hkey : (headerOf line).1 = .none
  · simp [hkey]
  · by_cases hlt : (headerOf line).1.val < maxHeadersSize
    · simp [hkey, hlt]
    · simp [hkey, hlt]

/-- Each slot shows the last value written to it. -/
theorem headers_foldl (lines : List Bytes) (req : HttpRequest) (slot : Fin maxHeadersSize) :
    (lines.foldl storeField req).data.headers slot =
      (lastValue slot (slotWrites lines)).getD (req.data.headers slot) := by
  have hfold : (lines.foldl storeField req).data.headers =
      (slotWrites lines).foldl (fun m w => Function.update m w.1 w.2) req.data.headers := by
    induction lines generalizing req with
    | nil => rfl
    | cons line lines ih =>
      rw [List.foldl_cons, ih, headers_of_slotWrite, slotWrites, slotWrites, List.filterMap_cons]
      cases slotWrite? line <;> rfl
  rw [hfold, foldl_update]

/-- A bit of the mask is set when it was, or when a line has a key with that bit. -/
theorem testBit_presentHeaders_foldl (lines : List Bytes) (req : HttpRequest) (i : ℕ) :
    (lines.foldl storeField req).presentHeaders.testBit i =
      (req.presentHeaders.testBit i || lines.any fun line => (headerOf line).1.val.testBit i) := by
  induction lines generalizing req with
  | nil => simp
  | cons line lines ih =>
    have hstep : (storeField req line).presentHeaders =
        req.presentHeaders ||| (headerOf line).1.val := by
      rw [storeField_eq]
      unfold storeHeader addHeader addPresent
      by_cases hkey : (headerOf line).1 = .none
      · rw [hkey]
        exact (Nat.or_zero _).symm
      · simp only [ne_eq, hkey, not_false_eq_true, if_true]
        split_ifs <;> rfl
    rw [List.foldl_cons, ih, hstep, Nat.testBit_or, List.any_cons, Bool.or_assoc]

theorem hasHeader_iff (flags required : ℕ) :
    hasHeader flags required = true ↔ ∀ i, required.testBit i = true → flags.testBit i = true := by
  unfold hasHeader
  rw [beq_iff_eq]
  constructor
  · intro h i hi
    rw [← h, Nat.testBit_and, Bool.and_eq_true] at hi
    exact hi.1
  · intro h
    apply Nat.eq_of_testBit_eq
    intro i
    rw [Nat.testBit_and]
    cases hi : required.testBit i with
    | false => rw [Bool.and_false]
    | true => rw [h i hi, Bool.and_true]

theorem presentHeaders_foldl_eq_iff (lines : List Bytes) (req : HttpRequest) :
    (lines.foldl storeField req).presentHeaders = req.presentHeaders ↔
      ∀ line ∈ lines, hasHeader req.presentHeaders (headerOf line).1.val = true := by
  constructor
  · intro heq line hline
    rw [hasHeader_iff]
    intro i hi
    rw [← heq, testBit_presentHeaders_foldl, Bool.or_eq_true]
    exact Or.inr (List.any_eq_true.mpr ⟨line, hline, hi⟩)
  · intro hset
    apply Nat.eq_of_testBit_eq
    intro i
    rw [testBit_presentHeaders_foldl]
    cases hany : lines.any fun line => (headerOf line).1.val.testBit i with
    | false => rw [Bool.or_false]
    | true =>
      obtain ⟨line, hline, hi⟩ := List.any_eq_true.mp hany
      rw [(hasHeader_iff _ _).mp (hset line hline) i hi, Bool.true_or]

/-- Header lines change the headers of the data only. -/
theorem data_foldl {β : Type*} (field : RequestData → β)
    (hfield : ∀ d headers, field { d with headers := headers } = field d) (lines : List Bytes)
    (req : HttpRequest) : field (lines.foldl storeField req).data = field req.data := by
  induction lines generalizing req with
  | nil => rfl
  | cons line lines ih =>
    rw [List.foldl_cons, ih, storeField_eq]
    unfold storeHeader addHeader addPresent
    split_ifs
    · exact hfield _ _
    · rfl
    · rfl

theorem queryParams_foldl (lines : List Bytes) (req : HttpRequest) :
    (lines.foldl storeField req).data.queryParams = req.data.queryParams :=
  data_foldl RequestData.queryParams (fun _ _ => rfl) lines req

theorem queryParams_parseBytes (settings : SettingsData) (data : Bytes) (req : HttpRequest)
    (keepAlive : Bool) :
    (parseBytes settings data req keepAlive).req.data.queryParams = req.data.queryParams := by
  cases hstart : startLine data with
  | none => rw [parseBytes_of_startLine_none hstart]
  | some line =>
    have hlines : (linesRequest settings data line req).data.queryParams =
        req.data.queryParams := queryParams_foldl _ _
    obtain ⟨-, hreq | ⟨-, body, size, hreq⟩⟩ :=
      parseBytes_of_startLine settings hstart req keepAlive
    · rw [hreq, hlines]
    · rw [hreq]
      exact hlines

/-- The flag that a line decides, if it does. -/
def connectionChoice (line : Bytes) : Option Bool :=
  if (headerOf line).1 = .connection then
    if iequalsSmall (headerOf line).2 closeConnHeader then some false
    else if iequalsSmall (headerOf line).2 keepAliveHeader then some true
    else none
  else none

/-- The last line that decides about the flag is the one that counts. -/
theorem keepAlive_foldl (lines : List Bytes) (keepAlive : Bool) :
    lines.foldl fieldKeepAlive keepAlive =
      ((lines.filterMap connectionChoice).getLast?).getD keepAlive := by
  have hstep : fieldKeepAlive = fun keepAlive line =>
      (connectionChoice line).getD keepAlive := by
    funext keepAlive line
    rw [fieldKeepAlive_eq, connectionChoice, connectionKeepAlive]
    split_ifs <;> rfl
  rw [hstep, foldl_choice]

theorem strayWrites_foldl (lines : List Bytes) (req : HttpRequest) :
    req.strayWrites <:+ (lines.foldl storeField req).strayWrites ∧
      ((lines.foldl storeField req).strayWrites = req.strayWrites ↔
        ∀ line ∈ lines, (headerOf line).1.hasSlot = true) := by
  induction lines generalizing req with
  | nil => exact ⟨List.suffix_refl _, by simp⟩
  | cons line lines ih =>
    obtain ⟨hsuffix, hiff⟩ := ih (storeField req line)
    have hstep := strayWrites_storeHeader req (headerOf line).1 (headerOf line).2
    rw [← storeField_eq] at hstep
    rw [List.foldl_cons, List.forall_mem_cons]
    by_cases hindex : (headerOf line).1.hasSlot = true
    · rw [if_pos hindex] at hstep
      rw [hstep] at hsuffix hiff
      exact ⟨hsuffix, hiff.trans ⟨fun h => ⟨hindex, h⟩, fun h => h.2⟩⟩
    · rw [if_neg hindex] at hstep
      rw [hstep] at hsuffix
      refine ⟨(List.suffix_cons _ _).trans hsuffix, fun heq => ?_, fun h => absurd h.1 hindex⟩
      have hlen := hsuffix.length_le
      rw [heq, List.length_cons] at hlen
      omega

/-- An attempt writes inside the header array exactly when all the lines that it takes
do. -/
theorem strayWrites_parseBytes_iff (settings : SettingsData) (data : Bytes) (req : HttpRequest)
    (keepAlive : Bool) :
    (parseBytes settings data req keepAlive).req.strayWrites = req.strayWrites ↔
      ∀ line ∈ takenLines settings data, (headerOf line).1.hasSlot = true := by
  cases hstart : startLine data with
  | none =>
    rw [parseBytes_of_startLine_none hstart, takenLines, hstart]
    simp
  | some line =>
    obtain ⟨-, hreq⟩ := parseBytes_of_startLine settings hstart req keepAlive
    have hstray : (parseBytes settings data req keepAlive).req.strayWrites =
        (linesRequest settings data line req).strayWrites := by
      rcases hreq with hreq | ⟨-, body, size, hreq⟩
      · rw [hreq]
      · rw [hreq]
        rfl
    rw [hstray]
    exact (strayWrites_foldl _ (startScan req line).req).2

/-- The names that `parseRequest` takes for Upgrade, Sec-WebSocket-Key and
Sec-WebSocket-Version. -/
def upgradeLengths : List ℕ := [7, 17, 21]

theorem hasSlot_headerOf (line : Bytes) :
    (headerOf line).1.hasSlot = true ↔
      ∀ name value, splitHeader line = some (name, value) → name.length ∉ upgradeLengths := by
  have hkey : ∀ n, (headerKey n).hasSlot = true ↔ n ∉ upgradeLengths := by
    intro n
    unfold headerKey upgradeLengths
    split <;> simp_all +decide
  unfold headerOf
  cases hsplit : splitHeader line with
  | none => exact ⟨fun _ name value h => by simp at h, fun _ => by decide⟩
  | some p =>
    dsimp only
    rw [hkey]
    constructor
    · intro h name value heq
      obtain rfl := Option.some.inj heq
      exact h
    · exact fun h => h p.1 p.2 rfl

/-- An attempt stays inside the header array exactly when it takes no line with a name of
the length of Upgrade, Sec-WebSocket-Key or Sec-WebSocket-Version. -/
theorem headersInArray_iff (settings : SettingsData) (s : Session) :
    HeadersInArray s.req (s.parseRequest settings).2.req ↔
      ∀ line ∈ takenLines settings s.readBuffer.unread, ∀ name value,
        splitHeader line = some (name, value) → name.length ∉ upgradeLengths := by
  have hread : ∀ key i, readIndex key = some i → i < maxHeadersSize := by
    intro key i h
    have hnone : ¬ key.val < HeaderType.none.val := by
      rw [show HeaderType.none.val = 0 by decide]
      exact Nat.not_lt_zero _
    rw [readIndex, if_neg hnone] at h
    simp at h
  unfold HeadersInArray
  rw [(s.parseRequest_fields settings).1, and_iff_left hread]
  simp only [← hasSlot_headerOf]
  exact strayWrites_parseBytes_iff settings s.readBuffer.unread s.req s.keepAlive

/-- The header lines of a handshake leave the array. -/
def upgradeRoot : Bytes := ascii "GET / HTTP/1.1\r\nUpgrade: websocket\r\n\r\n"

theorem upgradeRoot_leaves_array :
    ¬ HeadersInArray (Session.init configJson 0 5).req
      ((receiving configJson upgradeRoot).parseRequest configJson).2.req := by
  intro h
  exact absurd h.1 (by decide +kernel)

end WarpApi

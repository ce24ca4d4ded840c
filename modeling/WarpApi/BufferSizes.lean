import WarpApi.ClientFrames
import WarpApi.RequestGrammar

/-!
The limits of the settings against the size of the read buffer. `max_body_size`
bounds a body or a payload alone, while the buffer of `max_request_size` bytes has
to hold the head or the frame header as well. The two limits agree only where the
room for a header is left over, and for requests hardly ever.
-/
namespace WarpApi

/-- `parseRequest` up to the body: the bytes of the whole request. -/
def requestSize (settings : SettingsData) (data : Bytes) (req : HttpRequest) : Option ℕ :=
  if data.length < minRequestSize then none
  else match firstLine data with
    | none => none
    | some (line, rest) =>
      match splitRequestLine line with
      | none => none
      | some requestLine =>
        match headerLoop settings (rest.length + 1) rest (startScan req requestLine) with
        | (none, _) => none
        | (some rest, st) => some (data.length - rest.length + st.contentLength.toNat)

/-- `processFrames` up to the checks of the length: the bytes of the whole frame. -/
def frameSize (settings : SettingsData) (data : Bytes) : Option ℕ :=
  if data.length < 2 then none
  else if data.getD 1 0 &&& 0x80 = 0 then none
  else match payloadLength data with
    | none => none
    | some (len, offset) =>
      if data.getD 0 0 &&& 0x0F &&& 0x08 ≠ 0 && wsControlMaxPayload < len.toNat then none
      else if len > settings.maxBodySize then none
      else some (offset + 4 + len.toNat)

namespace Session

/-- The size of what the received bytes begin, once its length has been admitted. -/
def admittedSize (settings : SettingsData) (s : Session) : Option ℕ :=
  match s.mode with
  | .http => requestSize settings s.readBuffer.unread s.req
  | .webSocket => frameSize settings s.readBuffer.unread

/-- The parser gives up until more bytes have come. -/
def waits (settings : SettingsData) (s : Session) : Prop :=
  match s.mode with
  | .http => (parseBytes settings s.readBuffer.unread s.req s.keepAlive).consumed = none
  | .webSocket => nextFrame settings s.readBuffer.unread = .needMore

/-- The rest of an admitted body or payload is awaited, and there is no room for it. -/
def Stalled (settings : SettingsData) (s : Session) : Prop :=
  (s.admittedSize settings).isSome = true ∧ s.waits settings ∧ s.readBuffer.free = 0

end Session

/-- Whatever a session has received: what is admitted fits in its read buffer, and it
never waits for the rest with a full one. -/
def Roomy (settings : SettingsData) : Prop :=
  ∀ s : Session, s.readBuffer.capacity = settings.maxRequestSize.toNat →
    (∀ n, s.admittedSize settings = some n → n ≤ settings.maxRequestSize.toNat) ∧
      ¬ s.Stalled settings

theorem two_le_of_splitRequestLine {line : Bytes} {requestLine : RequestLine}
    (h : splitRequestLine line = some requestLine) : 2 ≤ line.length := by
  unfold splitRequestLine at h
  dsimp only at h
  split_ifs at h with hmethod hpath
  all_goals
    have hle : (line.takeWhile (· != space)).length ≤ line.length :=
      List.IsPrefix.length_le (List.takeWhile_prefix _)
    have hle' := List.IsPrefix.length_le (List.takeWhile_prefix
      (fun c => c != questionMark && c != space)
      (l := line.drop ((line.takeWhile (· != space)).length + 1)))
    rw [List.length_drop] at hle' hpath
    omega

theorem length_of_splitHeader {line name value : Bytes}
    (h : splitHeader line = some (name, value)) :
    name.length + 1 + value.length ≤ line.length := by
  have hprefix : (line.takeWhile (· != colon)).length ≤ line.length :=
    List.IsPrefix.length_le (List.takeWhile_prefix _)
  unfold splitHeader at h
  dsimp only at h
  split_ifs at h with hname hspace
  all_goals
    simp only [Option.some.injEq, Prod.mk.injEq] at h
    obtain ⟨rfl, rfl⟩ := h
    simp only [List.length_tail, List.length_drop]
    omega

theorem eq_of_headerKey {n : ℕ} (h : headerKey n = .contentLength) : n = 14 := by
  unfold headerKey at h
  split at h <;> first | rfl | exact absurd h (by decide)

/-- A length of 10^k or more has k + 1 digits; the name and the colon take 15 bytes. -/
theorem long_of_declareLength {settings : SettingsData} {m n : UInt64} {field : Bytes} {k : ℕ}
    (h : declareLength settings m field = some n) (hn : 10 ^ k ≤ n.toNat) :
    10 ^ k ≤ m.toNat ∨ 16 + k ≤ field.length := by
  unfold declareLength at h
  cases hsplit : splitHeader field with
  | none =>
    rw [hsplit] at h
    exact Or.inl (Option.some.inj h ▸ hn)
  | some p =>
    obtain ⟨name, value⟩ := p
    simp only [hsplit] at h
    split_ifs at h with hkey hmax
    · have hdigits : k < value.length := by
        rw [← Option.some.inj h] at hn
        exact lt_length_of_fastAtoi hn
      have hlong := length_of_splitHeader hsplit
      rw [eq_of_headerKey hkey] at hlong
      exact Or.inr (by omega)
    · exact Or.inl (Option.some.inj h ▸ hn)

theorem long_of_declaredLength (settings : SettingsData) (fields : List Bytes) (m n : UInt64)
    {k : ℕ} (h : fields.foldlM (declareLength settings) m = some n) (hn : 10 ^ k ≤ n.toNat) :
    10 ^ k ≤ m.toNat ∨ 18 + k ≤ (fieldBytes fields).length := by
  induction fields generalizing m with
  | nil => exact Or.inl (Option.some.inj h ▸ hn)
  | cons f fields ih =>
    rw [List.foldlM_cons] at h
    cases hf : declareLength settings m f with
    | none => simp [hf] at h
    | some i =>
      rw [hf] at h
      have hsize : (fieldBytes (f :: fields)).length =
          f.length + 2 + (fieldBytes fields).length := by
        simp only [fieldBytes, List.flatMap_cons, List.length_append]
        rfl
      rw [hsize]
      rcases ih i h with hi | hlong
      · rcases long_of_declareLength hf hi with hm | hlong
        · exact Or.inl hm
        · right
          omega
      · right
        omega

theorem le_of_declaredLength (settings : SettingsData) (fields : List Bytes) (m n : UInt64)
    (hm : m ≤ settings.maxBodySize) (h : fields.foldlM (declareLength settings) m = some n) :
    n ≤ settings.maxBodySize := by
  induction fields generalizing m with
  | nil => exact Option.some.inj h ▸ hm
  | cons f fields ih =>
    rw [List.foldlM_cons] at h
    cases hf : declareLength settings m f with
    | none => simp [hf] at h
    | some k =>
      rw [hf] at h
      refine ih k ?_ h
      unfold declareLength at hf
      split at hf
      · exact Option.some.inj hf ▸ hm
      · split_ifs at hf with hkey hmax
        · exact Option.some.inj hf ▸ UInt64.not_lt.mp hmax
        · exact Option.some.inj hf ▸ hm

theorem requestSize_head (settings : SettingsData) (h : Head) (t : Bytes) (req : HttpRequest)
    (hmin : minRequestSize ≤ (h.bytes ++ t).length) :
    requestSize settings (h.bytes ++ t) req =
      match headerLoop settings ((fieldBytes h.fields ++ t).length + 1) (fieldBytes h.fields ++ t)
        (startScan req h.requestLine) with
      | (none, _) => none
      | (some rest, st) =>
        some ((h.bytes ++ t).length - rest.length + st.contentLength.toNat) := by
  unfold requestSize
  rw [if_neg (by omega), h.firstLine_bytes t]
  simp only [h.line_ok]

theorem requestSize_section (settings : SettingsData) (h : Head) (t rest : Bytes) (n : UInt64)
    (req : HttpRequest) (hmin : minRequestSize ≤ (h.bytes ++ t).length)
    (hend : SectionEnd t (some rest)) (hdecl : declaredLength settings h.fields = some n) :
    requestSize settings (h.bytes ++ t) req =
      some ((h.bytes ++ t).length - rest.length + n.toNat) := by
  rw [requestSize_head settings h t req hmin,
    headerLoop_head settings h t (some rest) n req hend hdecl]

/-- What is admitted is a head whose section has ended and the length that it declares. -/
theorem exists_of_requestSize {settings : SettingsData} {data : Bytes} {req : HttpRequest} {k : ℕ}
    (hsize : requestSize settings data req = some k) :
    ∃ (h : Head) (t rest : Bytes) (n : UInt64), data = h.bytes ++ t ∧
      SectionEnd t (some rest) ∧ declaredLength settings h.fields = some n ∧
      minRequestSize ≤ data.length ∧ k = data.length - rest.length + n.toNat := by
  obtain ⟨h, t, out, rfl, hend, hmin⟩ : ∃ h t out, data = Head.bytes h ++ t ∧
      SectionEnd t out ∧ minRequestSize ≤ data.length := by
    unfold requestSize at hsize
    by_cases hmin : data.length < minRequestSize
    · simp [hmin] at hsize
    rw [if_neg hmin] at hsize
    cases hline : firstLine data with
    | none => simp [hline] at hsize
    | some p =>
      obtain ⟨line, tail⟩ := p
      simp only [hline] at hsize
      cases hsplit : splitRequestLine line with
      | none => simp [hsplit] at hsize
      | some requestLine =>
        obtain ⟨h, t, out, hdata, hend⟩ := exists_head data line tail requestLine hline hsplit
        exact ⟨h, t, out, hdata, hend, Nat.not_lt.mp hmin⟩
  cases hdecl : declaredLength settings h.fields with
  | none =>
    have hfold := foldlM_startScan settings h req
    rw [hdecl, Option.map_none] at hfold
    have hloop := headerLoop_over_limit settings h.fields t _
      ((fieldBytes h.fields ++ t).length + 1) h.fields_ok hfold
    rw [requestSize_head settings h t req hmin] at hsize
    split at hsize
    · simp at hsize
    · rename_i heq
      rw [heq] at hloop
      simp at hloop
  | some n =>
    cases out with
    | none =>
      rw [requestSize_head settings h t req hmin,
        headerLoop_head settings h t none n req hend hdecl] at hsize
      simp at hsize
    | some rest =>
      rw [requestSize_section settings h t rest n req hmin hend hdecl] at hsize
      exact ⟨h, t, rest, n, rfl, hend, hdecl, hmin, (Option.some.inj hsize).symm⟩

/-- The head of a request with a body takes 22 bytes or more, and one more for every
further digit of the length. -/
theorem long_head {settings : SettingsData} {h : Head} {t rest : Bytes} {n : UInt64} {k : ℕ}
    (hend : SectionEnd t (some rest)) (hdecl : declaredLength settings h.fields = some n)
    (hn : 10 ^ k ≤ n.toNat) : 22 + k ≤ (h.bytes ++ t).length - rest.length := by
  have hline := two_le_of_splitRequestLine h.line_ok
  have hpow : ¬ 10 ^ k ≤ (0 : UInt64).toNat := Nat.not_le.mpr (Nat.pow_pos (by decide))
  have hfields := (long_of_declaredLength settings h.fields 0 n hdecl hn).resolve_left hpow
  have hrest : rest.length ≤ t.length := by
    cases hend with
    | exhausted => exact Nat.le_refl _
    | blank => exact (List.length_append ▸ Nat.le_add_left _ _)
  simp only [Head.bytes, List.length_append, crlf, List.length_cons, List.length_nil]
  omega

theorem requestSize_le {settings : SettingsData} {data : Bytes} {req : HttpRequest} {k : ℕ}
    (hsize : requestSize settings data req = some k)
    (hdata : data.length ≤ settings.maxRequestSize.toNat)
    (hroom : settings.maxBodySize = 0 ∨ settings.maxRequestSize.toNat < 22) :
    k ≤ data.length := by
  obtain ⟨h, t, rest, n, rfl, hend, hdecl, -, rfl⟩ := exists_of_requestSize hsize
  have hzero : n = 0 := by
    rcases hroom with hbody | hsmall
    · have hle := le_of_declaredLength settings h.fields 0 n (by simp) hdecl
      rw [hbody] at hle
      exact UInt64.le_antisymm hle (by simp)
    · by_contra hne
      have hone : 10 ^ 0 ≤ n.toNat :=
        Nat.pos_of_ne_zero fun hzero => hne (UInt64.toNat_inj.mp hzero)
      have hlong := long_head hend hdecl hone
      omega
  rw [hzero]
  exact Nat.sub_le _ _

theorem consumed_of_requestSize {settings : SettingsData} {data : Bytes} {req : HttpRequest}
    {k : ℕ} (keepAlive : Bool) (hsize : requestSize settings data req = some k)
    (hle : k ≤ data.length) : (parseBytes settings data req keepAlive).consumed ≠ none := by
  obtain ⟨h, t, rest, n, rfl, hend, hdecl, hmin, rfl⟩ := exists_of_requestSize hsize
  have hfits : Fits (h.bytes ++ t) rest n := Or.inr ((Nat.mod_le _ _).trans hle)
  rw [(parseBytes_section settings h t rest n req keepAlive hmin hend hdecl).1 hfits]
  simp [Head.accept]

/-- The request line of a request for a path of k letters, and a body of one byte. -/
def paddedHead (k : ℕ) : Head where
  line := space :: (List.replicate k 97 ++ [space])
  requestLine := ⟨[], List.replicate k 97, [], []⟩
  fields := [ascii "Content-Length:1"]
  line_cr := by
    simp only [List.mem_cons, List.mem_append, List.mem_replicate, List.not_mem_nil, or_false]
    rintro (h | ⟨-, h⟩ | h) <;> exact absurd h (by decide)
  line_ok := by
    have hpath : (List.replicate k (97 : UInt8) ++ [space]).takeWhile
        (fun c => c != questionMark && c != space) = List.replicate k 97 := by
      rw [List.takeWhile_append_of_pos]
      · simp
      · intro c hc
        rw [(List.mem_replicate.mp hc).2]
        decide
    have hspace : space ≠ questionMark := by decide
    have hversion : List.drop (k + 1) (List.replicate k (97 : UInt8) ++ [space]) = [] :=
      List.drop_eq_nil_of_le (by simp)
    unfold splitRequestLine
    dsimp only
    rw [List.takeWhile_cons_of_neg (by simp)]
    simp [hpath, hspace, hversion]
  fields_ok := by
    intro f hf
    rw [List.mem_singleton.mp hf]
    decide

theorem length_paddedHead (k : ℕ) : (paddedHead k).bytes.length = k + 22 := by
  simp only [Head.bytes, paddedHead, fieldBytes, List.length_append, List.length_cons,
    List.length_replicate, List.flatMap_cons, List.flatMap_nil, List.length_nil]
  have hname : (ascii "Content-Length:1").length = 16 := by decide
  have hcrlf : crlf.length = 2 := rfl
  omega

theorem declaredLength_paddedHead (settings : SettingsData) (k : ℕ)
    (hbody : settings.maxBodySize ≠ 0) :
    declaredLength settings (paddedHead k).fields = some 1 := by
  have hsplit : splitHeader (ascii "Content-Length:1") = some (ascii "Content-Length", [49]) := by
    decide
  have hkey : headerKey (ascii "Content-Length").length = .contentLength := by decide
  have hone : fastAtoi [49] = 1 := by decide
  have hle : ¬ (1 : UInt64) > settings.maxBodySize := by
    rw [gt_iff_lt, UInt64.not_lt, UInt64.le_iff_toNat_le]
    exact Nat.pos_of_ne_zero fun hzero => hbody (UInt64.toNat_inj.mp hzero)
  have hdeclare : declareLength settings 0 (ascii "Content-Length:1") = some 1 := by
    rw [declareLength, hsplit]
    simp only [hkey, if_true, hone, if_neg hle]
  show (declareLength settings 0 (ascii "Content-Length:1")).bind some = some 1
  rw [hdeclare]
  rfl

theorem requestSize_paddedHead (settings : SettingsData) (k : ℕ) (req : HttpRequest)
    (hbody : settings.maxBodySize ≠ 0) :
    requestSize settings (paddedHead k).bytes req = some (k + 23) := by
  have hlength := length_paddedHead k
  have hsize := requestSize_section settings (paddedHead k) [] [] 1 req
    (by rw [List.append_nil, hlength, minRequestSize]; omega) SectionEnd.exhausted
    (declaredLength_paddedHead settings k hbody)
  rw [List.append_nil, hlength] at hsize
  exact hsize

theorem readBuffer_receive (settings : SettingsData) (self : SessionId) (socket : ℤ) (data : Bytes)
    (hdata : data.length ≤ settings.maxRequestSize.toNat) :
    ((Session.init settings self socket).receive data).readBuffer.unread = data := by
  have hfree : data.length ≤ (Session.init settings self socket).readBuffer.free := hdata
  exact BoundedQueue.unread_push_of_le _ data hfree

theorem stalled_paddedHead (settings : SettingsData) (self : SessionId) (socket : ℤ) (k : ℕ)
    (hk : k + 22 = settings.maxRequestSize.toNat) (hwrap : k + 23 < 2 ^ 64)
    (hbody : settings.maxBodySize ≠ 0) :
    ((Session.init settings self socket).receive (paddedHead k).bytes).Stalled settings := by
  have hlength := length_paddedHead k
  have hunread := readBuffer_receive settings self socket (paddedHead k).bytes (by omega)
  have hmin : minRequestSize ≤ ((paddedHead k).bytes ++ []).length := by
    rw [List.append_nil, hlength, minRequestSize]
    omega
  refine ⟨?_, ?_, ?_⟩
  · show (requestSize settings
      ((Session.init settings self socket).receive (paddedHead k).bytes).readBuffer.unread _).isSome
        = true
    rw [hunread, requestSize_paddedHead settings k _ hbody]
    rfl
  · show (parseBytes settings
      ((Session.init settings self socket).receive (paddedHead k).bytes).readBuffer.unread _
        _).consumed = none
    rw [hunread, ← List.append_nil (paddedHead k).bytes]
    refine (parseBytes_section settings (paddedHead k) [] [] 1 _ _ hmin SectionEnd.exhausted
      (declaredLength_paddedHead settings k hbody)).2 ?_
    rintro (hzero | hle)
    · exact absurd hzero (by decide)
    · have hone : (1 : UInt64).toNat = 1 := rfl
      rw [List.append_nil, hlength, List.length_nil, hone] at hle
      omega
  · have hsize := congrArg List.length hunread
    rw [BoundedQueue.length_unread, hlength] at hsize
    unfold BoundedQueue.free
    rw [hsize]
    show settings.maxRequestSize.toNat - (k + 22) = 0
    omega

theorem offset_of_payloadLength {data : Bytes} {len : UInt64} {offset : ℕ} (hdata : 2 ≤ data.length)
    (h : payloadLength data = some (len, offset)) :
    (offset = 2 ∨ offset = 4 ∨ offset = 10) ∧ offset ≤ data.length := by
  unfold payloadLength at h
  dsimp only at h
  split_ifs at h <;> simp only [Option.some.injEq, Prod.mk.injEq] at h <;> omega

theorem exists_of_frameSize {settings : SettingsData} {data : Bytes} {k : ℕ}
    (h : frameSize settings data = some k) :
    ∃ (len : UInt64) (offset : ℕ), 2 ≤ data.length ∧ ¬ (data.getD 1 0 &&& 0x80 = 0) ∧
      payloadLength data = some (len, offset) ∧
      ¬ (data.getD 0 0 &&& 0x0F &&& 0x08 ≠ 0 && wsControlMaxPayload < len.toNat) = true ∧
      ¬ len > settings.maxBodySize ∧ k = offset + 4 + len.toNat := by
  unfold frameSize at h
  split_ifs at h with hdata hmask
  cases hlength : payloadLength data with
  | none => simp [hlength] at h
  | some p =>
    obtain ⟨len, offset⟩ := p
    simp only [hlength] at h
    split_ifs at h with hcontrol hmax
    exact ⟨len, offset, Nat.not_lt.mp hdata, hmask, rfl, hcontrol, hmax,
      (Option.some.inj h).symm⟩

theorem frameSize_le {settings : SettingsData} {data : Bytes} {k : ℕ}
    (h : frameSize settings data = some k) (hdata : data.length ≤ settings.maxRequestSize.toNat)
    (hroom : settings.maxRequestSize.toNat < 2 ∨
      8 + settings.maxBodySize.toNat ≤ settings.maxRequestSize.toNat ∧
        settings.maxRequestSize.toNat < 10 ∨
      14 + settings.maxBodySize.toNat ≤ settings.maxRequestSize.toNat) :
    k ≤ settings.maxRequestSize.toNat := by
  obtain ⟨len, offset, htwo, -, hlength, -, hmax, rfl⟩ := exists_of_frameSize h
  have hle : len.toNat ≤ settings.maxBodySize.toNat :=
    UInt64.le_iff_toNat_le.mp (UInt64.not_lt.mp hmax)
  obtain ⟨hoffset, hoffset'⟩ := offset_of_payloadLength htwo hlength
  omega

theorem nextFrame_of_frameSize {settings : SettingsData} {data : Bytes} {k : ℕ}
    (h : frameSize settings data = some k) (hle : k ≤ data.length) :
    nextFrame settings data ≠ .needMore := by
  obtain ⟨len, offset, htwo, hmask, hlength, hcontrol, hmax, rfl⟩ := exists_of_frameSize h
  have hwrap : (UInt64.ofNat (offset + 4) + len).toNat ≤ offset + 4 + len.toNat := by
    rw [UInt64.toNat_add, UInt64.toNat_ofNat']
    exact (Nat.mod_le _ _).trans (Nat.add_le_add_right (Nat.mod_le _ _) _)
  unfold nextFrame
  dsimp only
  rw [if_neg (by omega), if_neg hmask, hlength]
  dsimp only
  rw [if_neg hcontrol, if_neg hmax, if_neg (by omega), if_neg (by omega), if_neg (by omega)]
  exact FrameStep.noConfusion

theorem frameSize_header (settings : SettingsData) (form : LengthForm) (len : ℕ)
    (hlen : len ≤ form.max) (hbody : len ≤ settings.maxBodySize.toNat) :
    frameSize settings (0x82 :: (form.bytes len ++ [])) = some (form.size + 4 + len) := by
  have hword : (UInt64.ofNat len).toNat = len := by
    rw [UInt64.toNat_ofNat', Nat.mod_eq_of_lt (Nat.lt_of_le_of_lt hlen form.max_lt)]
  have htwo : ¬ (0x82 :: (form.bytes len ++ [])).length < 2 := by
    have hsize := form.length_bytes len
    rw [List.append_nil, List.length_cons, hsize]
    cases form <;> decide
  have hmax : ¬ UInt64.ofNat len > settings.maxBodySize := by
    rw [gt_iff_lt, UInt64.not_lt, UInt64.le_iff_toNat_le, hword]
    exact hbody
  have hdata : ((0x82 : UInt8) &&& 0x0F &&& 0x08 ≠ 0) = False := by decide
  unfold frameSize
  rw [if_neg htwo, if_neg (form.masked len 0x82 []), payloadLength_encode form len 0x82 [] hlen]
  dsimp only
  rw [if_neg (by simp [hdata]), if_neg hmax, hword]

def framedSession (settings : SettingsData) (data : Bytes) : Session :=
  { (Session.init settings 0 5).receive data with mode := .webSocket }

/-- A frame header that fits in the buffer, without its frame. -/
theorem not_roomy_of_header (settings : SettingsData) (form : LengthForm) (len : ℕ)
    (hlen : len ≤ form.max) (hbody : len ≤ settings.maxBodySize.toNat)
    (hfits : form.size ≤ settings.maxRequestSize.toNat)
    (hlong : settings.maxRequestSize.toNat < form.size + 4 + len) : ¬ Roomy settings := by
  intro hroomy
  have hsize : (0x82 :: (form.bytes len ++ [])).length = form.size := by
    rw [List.append_nil, List.length_cons, form.length_bytes len]
  have hunread := readBuffer_receive settings 0 5 (0x82 :: (form.bytes len ++ [])) (by omega)
  have hle := (hroomy (framedSession settings (0x82 :: (form.bytes len ++ []))) rfl).1
    (form.size + 4 + len) ((congrArg (frameSize settings) hunread).trans
      (frameSize_header settings form len hlen hbody))
  omega

theorem not_roomy_of_paddedHead (settings : SettingsData) (hbody : settings.maxBodySize ≠ 0)
    (hlong : 22 ≤ settings.maxRequestSize.toNat) : ¬ Roomy settings := by
  intro hroomy
  obtain ⟨k, hk⟩ : ∃ k, k + 22 = settings.maxRequestSize.toNat :=
    ⟨settings.maxRequestSize.toNat - 22, by omega⟩
  have hlength := length_paddedHead k
  have hunread := readBuffer_receive settings 0 5 (paddedHead k).bytes (by omega)
  have hle := (hroomy ((Session.init settings 0 5).receive (paddedHead k).bytes) rfl).1 (k + 23)
    ((congrArg (requestSize settings · HttpRequest.init) hunread).trans
      (requestSize_paddedHead settings k _ hbody))
  omega

theorem heads_of_roomy {settings : SettingsData} (hroomy : Roomy settings) :
    settings.maxBodySize = 0 ∨ settings.maxRequestSize.toNat < 22 := by
  by_contra hlong
  rw [not_or, Nat.not_lt] at hlong
  exact not_roomy_of_paddedHead settings hlong.1 hlong.2 hroomy

theorem frames_of_roomy {settings : SettingsData} (hroomy : Roomy settings) :
    settings.maxRequestSize.toNat < 2 ∨
      8 + settings.maxBodySize.toNat ≤ settings.maxRequestSize.toNat ∧
        settings.maxRequestSize.toNat < 10 ∨
      14 + settings.maxBodySize.toNat ≤ settings.maxRequestSize.toNat := by
  by_contra hframe
  rw [not_or, not_or] at hframe
  obtain ⟨h2, h8, h14⟩ := hframe
  have hmax := settings.maxBodySize.toNat_lt
  by_cases h10 : 10 ≤ settings.maxRequestSize.toNat
  · refine not_roomy_of_header settings .sixtyFour settings.maxBodySize.toNat ?_ (Nat.le_refl _)
      h10 ?_ hroomy
    · exact Nat.le_sub_one_of_lt hmax
    · show settings.maxRequestSize.toNat < 10 + 4 + settings.maxBodySize.toNat
      omega
  by_cases h4 : 4 ≤ settings.maxRequestSize.toNat
  · refine not_roomy_of_header settings .sixteen (settings.maxRequestSize.toNat - 7) ?_ ?_ h4 ?_
      hroomy
    · show settings.maxRequestSize.toNat - 7 ≤ 2 ^ 16 - 1
      omega
    · omega
    · show settings.maxRequestSize.toNat < 4 + 4 + (settings.maxRequestSize.toNat - 7)
      omega
  · refine not_roomy_of_header settings .seven 0 (Nat.zero_le _) (Nat.zero_le _) ?_ ?_ hroomy
    · show 2 ≤ settings.maxRequestSize.toNat
      omega
    · show settings.maxRequestSize.toNat < 2 + 4 + 0
      omega

theorem not_stalled_of_le {settings : SettingsData} {s : Session}
    (hle : ∀ n, s.admittedSize settings = some n → n ≤ s.readBuffer.capacity) :
    ¬ s.Stalled settings := by
  rintro ⟨hadmitted, hwaits, hfull⟩
  obtain ⟨n, hn⟩ := Option.isSome_iff_exists.mp hadmitted
  have hunread : n ≤ s.readBuffer.unread.length := by
    have hspace := s.readBuffer.size_add_free
    have hn' := hle n hn
    rw [BoundedQueue.length_unread]
    omega
  unfold Session.admittedSize at hn
  unfold Session.waits at hwaits
  cases hmode : s.mode with
  | http =>
    rw [hmode] at hn hwaits
    exact consumed_of_requestSize s.keepAlive hn hunread hwaits
  | webSocket =>
    rw [hmode] at hn hwaits
    exact nextFrame_of_frameSize hn hunread hwaits

/-- Which limits agree with the size of the read buffer, whatever a session receives. A
client may write a length in a longer form than it needs, so ten bytes of header and
four of mask have to be left over; and a body of one byte may stand behind a head that
fills the buffer. -/
theorem roomy_iff (settings : SettingsData) :
    Roomy settings ↔
      settings.maxRequestSize.toNat < 2 ∨
        8 + settings.maxBodySize.toNat ≤ settings.maxRequestSize.toNat ∧
          settings.maxRequestSize.toNat < 10 ∨
        14 + settings.maxBodySize.toNat ≤ settings.maxRequestSize.toNat ∧
          (settings.maxBodySize = 0 ∨ settings.maxRequestSize.toNat < 22) := by
  constructor
  · intro hroomy
    rcases frames_of_roomy hroomy with h2 | h10 | h14
    · exact Or.inl h2
    · exact Or.inr (Or.inl h10)
    · exact Or.inr (Or.inr ⟨h14, heads_of_roomy hroomy⟩)
  · intro hroom s hcapacity
    have hdata : s.readBuffer.unread.length ≤ settings.maxRequestSize.toNat := by
      rw [BoundedQueue.length_unread, ← hcapacity]
      exact s.readBuffer.size_le_capacity
    have hfits : ∀ n, s.admittedSize settings = some n → n ≤ settings.maxRequestSize.toNat := by
      intro n hn
      unfold Session.admittedSize at hn
      cases hmode : s.mode with
      | http =>
        rw [hmode] at hn
        have hshort : settings.maxBodySize = 0 ∨ settings.maxRequestSize.toNat < 22 := by
          rcases hroom with h | h | h
          · right
            omega
          · right
            omega
          · exact h.2
        exact (requestSize_le hn hdata hshort).trans hdata
      | webSocket =>
        rw [hmode] at hn
        exact frameSize_le hn hdata (by omega)
    exact ⟨hfits, not_stalled_of_le (hcapacity ▸ hfits)⟩

/-- With the limits of config.json a request whose head takes 16384 bytes is admitted
with its body of one byte, and the buffer is full. -/
theorem configJson_stalls :
    configJson.isValid = true ∧
      ((Session.init configJson 0 5).receive (paddedHead 16362).bytes).Stalled configJson ∧
      ¬ Roomy configJson :=
  ⟨by decide, stalled_paddedHead configJson 0 5 16362 rfl (by decide) (by decide),
    not_roomy_of_paddedHead configJson (by decide) (by decide)⟩

end WarpApi

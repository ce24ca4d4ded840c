import WarpApi.BufferSizes
import WarpApi.RequestRoundTrip

/-!
The two sums that are compared with the received bytes: the size of the head and the
content length, and the offset behind the mask and the payload length. Both are computed
modulo 2^64, and the validation of the settings bounds neither summand.
-/
namespace WarpApi

/-- `headerSize + contentLength` in `parseRequest`, as computed and exactly, if it comes to
the comparison. -/
def bodySum (settings : SettingsData) (data : Bytes) (req : HttpRequest) : Option (UInt64 × ℕ) :=
  if data.length < minRequestSize then none
  else match firstLine data with
    | none => none
    | some (line, rest) =>
      match splitRequestLine line with
      | none => none
      | some requestLine =>
        match headerLoop settings (rest.length + 1) rest (startScan req requestLine) with
        | (none, _) => none
        | (some rest, st) =>
          let headerSize := data.length - rest.length
          if st.hasContentLen ∧ st.contentLength > 0 then
            some (UInt64.ofNat headerSize + st.contentLength,
              headerSize + st.contentLength.toNat)
          else none

/-- `offset + payloadLen` in `processFrames`, as computed and exactly. -/
def payloadSum (settings : SettingsData) (data : Bytes) : Option (UInt64 × ℕ) :=
  if data.length < 2 then none
  else if data.getD 1 0 &&& 0x80 = 0 then none
  else match payloadLength data with
    | none => none
    | some (len, offset) =>
      if data.getD 0 0 &&& 0x0F &&& 0x08 ≠ 0 && wsControlMaxPayload < len.toNat then none
      else if len > settings.maxBodySize then none
      else if data.length < offset + 4 then none
      else some (UInt64.ofNat (offset + 4) + len, offset + 4 + len.toNat)

def Session.comparedSum (settings : SettingsData) (s : Session) : Option (UInt64 × ℕ) :=
  match s.mode with
  | .http => bodySum settings s.readBuffer.unread s.req
  | .webSocket => payloadSum settings s.readBuffer.unread

/-- Whatever a session has received: the sum is the exact one when it is compared, and
nothing is taken that is longer than the received bytes. -/
structure SumsExact (settings : SettingsData) : Prop where
  exact : ∀ s : Session, s.readBuffer.capacity = settings.maxRequestSize.toNat →
    ∀ sum size, s.comparedSum settings = some (sum, size) → sum.toNat = size
  taken : ∀ s : Session, s.readBuffer.capacity = settings.maxRequestSize.toNat →
    ∀ sum size, s.comparedSum settings = some (sum, size) → ¬ s.waits settings →
      size ≤ s.readBuffer.size

/-- Limits under which no sum reaches 2^64. The shortest head that declares a length of 20
digits takes 41 bytes, and a frame header with a length of eight bytes and the mask 14. -/
def SumsFit (settings : SettingsData) : Prop :=
  (settings.maxRequestSize.toNat < 41 ∨
      settings.maxRequestSize.toNat + settings.maxBodySize.toNat < 2 ^ 64) ∧
    (settings.maxRequestSize.toNat < 14 ∨ settings.maxBodySize.toNat + 14 < 2 ^ 64)

/-- What has happened in the parser when it comes to the comparison. -/
theorem bodySum_eq_some {settings : SettingsData} {data : Bytes} {req : HttpRequest}
    {sum : UInt64} {size : ℕ} (h : bodySum settings data req = some (sum, size)) :
    ∃ line rest requestLine left st, ¬ data.length < minRequestSize ∧
      firstLine data = some (line, rest) ∧ splitRequestLine line = some requestLine ∧
      headerLoop settings (rest.length + 1) rest (startScan req requestLine) = (some left, st) ∧
      (st.hasContentLen ∧ st.contentLength > 0) ∧
      UInt64.ofNat (data.length - left.length) + st.contentLength = sum ∧
      data.length - left.length + st.contentLength.toNat = size := by
  unfold bodySum at h
  split_ifs at h with hmin
  cases hline : firstLine data with
  | none => simp [hline] at h
  | some p =>
    cases hsplit : splitRequestLine p.1 with
    | none => simp [hline, hsplit] at h
    | some requestLine =>
      simp only [hline, hsplit] at h
      cases hloop : headerLoop settings (p.2.length + 1) p.2 (startScan req requestLine) with
      | mk out st =>
        cases out with
        | none => simp [hloop] at h
        | some left =>
          simp only [hloop] at h
          split_ifs at h with hbody
          simp only [Option.some.injEq, Prod.mk.injEq] at h
          exact ⟨p.1, p.2, requestLine, left, st, hmin, rfl, hsplit, hloop, hbody, h.1, h.2⟩

theorem consumed_of_bodySum {settings : SettingsData} {data : Bytes} {req : HttpRequest}
    {sum : UInt64} {size : ℕ} (keepAlive : Bool)
    (h : bodySum settings data req = some (sum, size)) :
    (parseBytes settings data req keepAlive).consumed =
      if data.length < sum.toNat then none else some sum.toNat := by
  obtain ⟨line, rest, requestLine, left, st, hmin, hline, hsplit, hloop, hbody, hsum, -⟩ :=
    bodySum_eq_some h
  unfold parseBytes
  simp only [if_neg hmin, hline, hsplit, hloop]
  rw [takeBody, if_pos hbody]
  dsimp only
  rw [hsum]
  split_ifs <;> rfl

theorem nextFrame_of_payloadSum {settings : SettingsData} {data : Bytes} {sum : UInt64} {size : ℕ}
    (h : payloadSum settings data = some (sum, size)) :
    nextFrame settings data = .needMore ↔ data.length < sum.toNat := by
  unfold payloadSum at h
  unfold nextFrame
  split_ifs at h with hdata hmask
  rw [if_neg hdata]
  dsimp only
  rw [if_neg hmask]
  cases hlength : payloadLength data with
  | none => simp [hlength] at h
  | some r =>
    obtain ⟨len, offset⟩ := r
    simp only [hlength] at h ⊢
    split_ifs at h with hcontrol hmax hkey
    simp only [Option.some.injEq, Prod.mk.injEq] at h
    rw [if_neg hcontrol, if_neg hmax, if_neg hkey, h.1]
    split_ifs with hsum hend
    · exact ⟨fun _ => hsum, fun _ => rfl⟩
    · exact ⟨False.elim, fun hlt => absurd hlt hsum⟩
    · exact ⟨False.elim, fun hlt => absurd hlt hsum⟩

/-- Where the sum is exact, what is taken has been received. -/
theorem Session.le_size_of_comparedSum {settings : SettingsData} {s : Session} {sum : UInt64}
    {size : ℕ} (h : s.comparedSum settings = some (sum, size)) (hexact : sum.toNat = size)
    (hwaits : ¬ s.waits settings) : size ≤ s.readBuffer.size := by
  rw [← hexact, ← BoundedQueue.length_unread]
  unfold Session.comparedSum at h
  unfold Session.waits at hwaits
  by_contra hlt
  rw [Nat.not_le] at hlt
  cases hmode : s.mode with
  | http =>
    rw [hmode] at h hwaits
    exact hwaits ((consumed_of_bodySum s.keepAlive h).trans (if_pos hlt))
  | webSocket =>
    rw [hmode] at h hwaits
    exact hwaits ((nextFrame_of_payloadSum h).mpr hlt)

theorem bodySum_section (settings : SettingsData) (h : Head) (t rest : Bytes) (n : UInt64)
    (req : HttpRequest) (hmin : minRequestSize ≤ (h.bytes ++ t).length)
    (hend : SectionEnd t (some rest)) (hdecl : declaredLength settings h.fields = some n) :
    bodySum settings (h.bytes ++ t) req =
      if n = 0 then none
      else some (UInt64.ofNat ((h.bytes ++ t).length - rest.length) + n,
        (h.bytes ++ t).length - rest.length + n.toNat) := by
  unfold bodySum
  rw [if_neg (by omega), h.firstLine_bytes t]
  simp only [h.line_ok, headerLoop_head settings h t (some rest) n req hend hdecl]
  by_cases hzero : n = 0
  · simp [hzero]
  · have hhas := any_isLengthField settings h.fields 0 n hdecl hzero
    have hpos : n > 0 := UInt64.pos_iff_ne_zero.mpr hzero
    rw [if_pos ⟨hhas, hpos⟩, if_neg hzero]

theorem requestSize_of_bodySum {settings : SettingsData} {data : Bytes} {req : HttpRequest}
    {sum : UInt64} {size : ℕ} (h : bodySum settings data req = some (sum, size)) :
    requestSize settings data req = some size := by
  obtain ⟨line, rest, requestLine, left, st, hmin, hline, hsplit, hloop, -, -, hsize⟩ :=
    bodySum_eq_some h
  unfold requestSize
  simp only [if_neg hmin, hline, hsplit, hloop]
  rw [hsize]

theorem toNat_ofNat_add (size : ℕ) (n : UInt64) :
    (UInt64.ofNat size + n).toNat = (size + n.toNat) % 2 ^ 64 := by
  rw [UInt64.toNat_add, UInt64.toNat_ofNat']
  omega

theorem bodySum_exact {settings : SettingsData} {data : Bytes} {req : HttpRequest} {sum : UInt64}
    {size : ℕ} (hdata : data.length ≤ settings.maxRequestSize.toNat)
    (hroom : settings.maxRequestSize.toNat < 41 ∨
      settings.maxRequestSize.toNat + settings.maxBodySize.toNat < 2 ^ 64)
    (h : bodySum settings data req = some (sum, size)) : sum.toNat = size := by
  obtain ⟨head, t, rest, n, rfl, hend, hdecl, hmin, -⟩ :=
    exists_of_requestSize (requestSize_of_bodySum h)
  rw [bodySum_section settings head t rest n req hmin hend hdecl] at h
  split_ifs at h with hzero
  simp only [Option.some.injEq, Prod.mk.injEq] at h
  obtain ⟨rfl, rfl⟩ := h
  rw [toNat_ofNat_add]
  refine Nat.mod_eq_of_lt ?_
  have hle : n.toNat ≤ settings.maxBodySize.toNat :=
    UInt64.le_iff_toNat_le.mp (le_of_declaredLength settings head.fields 0 n (by simp) hdecl)
  rcases hroom with hsmall | hsum
  · -- A number of 20 digits does not fit in the head.
    by_cases hlong : 10 ^ 19 ≤ n.toNat
    · have hhead := long_head hend hdecl hlong
      omega
    · omega
  · omega

/-- Only the long form of the length field holds large lengths. -/
theorem payloadLength_small {data : Bytes} {len : UInt64} {offset : ℕ}
    (h : payloadLength data = some (len, offset)) : offset = 10 ∨ len.toNat < 2 ^ 16 := by
  unfold payloadLength at h
  dsimp only at h
  split_ifs at h
  · simp only [Option.some.injEq, Prod.mk.injEq] at h
    right
    rw [← h.1, UInt64.toNat_or, UInt64.toNat_shiftLeft, UInt8.toNat_toUInt64, UInt8.toNat_toUInt64]
    have hhigh := (data.getD 2 0).toNat_lt
    have hlow := (data.getD 3 0).toNat_lt
    refine Nat.or_lt_two_pow ((Nat.mod_le _ _).trans_lt ?_) (by omega)
    rw [Nat.shiftLeft_eq]
    have hshift : (8 : UInt64).toNat % 64 = 8 := rfl
    rw [hshift]
    omega
  · simp only [Option.some.injEq, Prod.mk.injEq] at h
    exact Or.inl h.2.symm
  · simp only [Option.some.injEq, Prod.mk.injEq] at h
    right
    rw [← h.1, UInt8.toNat_toUInt64]
    have hbyte := (data.getD 1 0 &&& 0x7F).toNat_lt
    omega

theorem payloadSum_exact {settings : SettingsData} {data : Bytes} {sum : UInt64} {size : ℕ}
    (hdata : data.length ≤ settings.maxRequestSize.toNat)
    (hroom : settings.maxRequestSize.toNat < 14 ∨ settings.maxBodySize.toNat + 14 < 2 ^ 64)
    (h : payloadSum settings data = some (sum, size)) : sum.toNat = size := by
  unfold payloadSum at h
  split_ifs at h with htwo hmask
  cases hlength : payloadLength data with
  | none => simp [hlength] at h
  | some r =>
    obtain ⟨len, offset⟩ := r
    simp only [hlength] at h
    split_ifs at h with hcontrol hmax hkey
    simp only [Option.some.injEq, Prod.mk.injEq] at h
    obtain ⟨rfl, rfl⟩ := h
    rw [toNat_ofNat_add]
    refine Nat.mod_eq_of_lt ?_
    have hle : len.toNat ≤ settings.maxBodySize.toNat :=
      UInt64.le_iff_toNat_le.mp (UInt64.not_lt.mp hmax)
    have hoffset := (payloadLength_offset data len offset (by omega) hlength).2.1
    rcases payloadLength_small hlength with rfl | hsmall
    · rcases hroom with hshort | hbody <;> omega
    · omega

theorem declaration_eq (n : ℕ) :
    ascii "Content-Length:" ++ decimal n = ascii "Content-Length" ++ colon :: decimal n := by
  have htext : ascii "Content-Length:" = ascii "Content-Length" ++ [colon] := by decide
  rw [htext, List.append_assoc]
  rfl

theorem splitHeader_declaration (n : ℕ) :
    splitHeader (ascii "Content-Length:" ++ decimal n) =
      some (ascii "Content-Length", decimal n) := by
  have hlong : ¬ (ascii "Content-Length").length =
      (ascii "Content-Length" ++ colon :: decimal n).length := by
    rw [List.length_append, List.length_cons]
    omega
  have hhead : (decimal n).head? ≠ some space := by
    intro hspace
    have hmem : space ∈ decimal n := List.mem_of_mem_head? hspace
    exact absurd (DecimalNumeral.isDigit_of_mem_numeral hmem) (by decide)
  unfold splitHeader
  rw [declaration_eq]
  dsimp only
  rw [HttpMessage.takeWhile_append_stop _ _ (by decide), if_neg hlong, drop_length_append_cons,
    if_neg hhead]

def declaringHead (k n : ℕ) : Head :=
  { paddedHead k with
    fields := [ascii "Content-Length:" ++ decimal n]
    fields_ok := by
      intro f hf
      rw [List.mem_singleton.mp hf]
      refine ⟨by simp [ascii], fun hcr => ?_⟩
      rcases List.mem_append.mp hcr with hname | hdigit
      · exact absurd hname (by decide)
      · exact absurd (DecimalNumeral.isDigit_of_mem_numeral hdigit) (by decide) }

theorem length_declaringHead (k n : ℕ) :
    (declaringHead k n).bytes.length = k + 21 + (decimal n).length := by
  have hname : (ascii "Content-Length:").length = 15 := by decide
  have hcrlf : crlf.length = 2 := rfl
  simp only [Head.bytes, declaringHead, paddedHead, fieldBytes, List.length_append,
    List.length_cons, List.length_replicate, List.flatMap_cons, List.flatMap_nil, List.length_nil]
  omega

theorem declaredLength_declaringHead (settings : SettingsData) (k : ℕ) :
    declaredLength settings (declaringHead k settings.maxBodySize.toNat).fields =
      some settings.maxBodySize := by
  have hkey : headerKey (ascii "Content-Length").length = .contentLength := by decide
  have hvalue : fastAtoi (decimal settings.maxBodySize.toNat) = settings.maxBodySize := by
    rw [fastAtoi_decimal, UInt64.ofNat_toNat]
  have hdeclare : declareLength settings 0
      (ascii "Content-Length:" ++ decimal settings.maxBodySize.toNat) =
        some settings.maxBodySize := by
    rw [declareLength, splitHeader_declaration]
    simp only [hkey, if_true, hvalue, gt_iff_lt, if_neg (UInt64.lt_irrefl _)]
  show (declareLength settings 0
    (ascii "Content-Length:" ++ decimal settings.maxBodySize.toNat)).bind some = _
  rw [hdeclare]
  rfl

theorem not_exact_of_declaringHead (settings : SettingsData)
    (hlong : 41 ≤ settings.maxRequestSize.toNat)
    (hsum : 2 ^ 64 ≤ settings.maxRequestSize.toNat + settings.maxBodySize.toNat) :
    ¬ SumsExact settings := by
  intro hexact
  have hbody := settings.maxBodySize.toNat_lt
  have hrequest := settings.maxRequestSize.toNat_lt
  have hdigits : (decimal settings.maxBodySize.toNat).length ≤ 20 :=
    DecimalNumeral.length_numeral_le (by decide) (hbody.trans (by decide))
  obtain ⟨k, hk⟩ : ∃ k, k + 21 + (decimal settings.maxBodySize.toNat).length =
      settings.maxRequestSize.toNat :=
    ⟨settings.maxRequestSize.toNat - 21 - (decimal settings.maxBodySize.toNat).length, by omega⟩
  rw [← length_declaringHead] at hk
  have hzero : settings.maxBodySize ≠ 0 := by
    intro hzero
    rw [hzero, UInt64.toNat_zero] at hsum
    omega
  have hunread := readBuffer_receive settings 0 5 _ hk.le
  have hcompared : bodySum settings
      (declaringHead k settings.maxBodySize.toNat).bytes HttpRequest.init =
        some (UInt64.ofNat settings.maxRequestSize.toNat + settings.maxBodySize,
          settings.maxRequestSize.toNat + settings.maxBodySize.toNat) := by
    have hsection := bodySum_section settings (declaringHead k settings.maxBodySize.toNat) [] []
      settings.maxBodySize HttpRequest.init
      (by rw [List.append_nil, hk, minRequestSize]; omega) SectionEnd.exhausted
      (declaredLength_declaringHead settings k)
    rw [List.append_nil, hk, if_neg hzero] at hsection
    exact hsection
  have hsame := hexact.exact ((Session.init settings 0 5).receive
    (declaringHead k settings.maxBodySize.toNat).bytes) rfl _ _
      ((congrArg (bodySum settings · HttpRequest.init) hunread).trans hcompared)
  have hlt := (UInt64.ofNat settings.maxRequestSize.toNat + settings.maxBodySize).toNat_lt
  omega

def longHeader (len : ℕ) : Bytes := 0x82 :: (LengthForm.sixtyFour.bytes len ++ [0, 0, 0, 0])

theorem length_longHeader (len : ℕ) : (longHeader len).length = 14 := by
  have hform := LengthForm.sixtyFour.length_bytes len
  simp only [longHeader, List.length_cons, List.length_append, LengthForm.size,
    List.length_nil] at hform ⊢
  omega

theorem payloadSum_longHeader (settings : SettingsData) :
    payloadSum settings (longHeader settings.maxBodySize.toNat) =
      some (UInt64.ofNat 14 + settings.maxBodySize, 14 + settings.maxBodySize.toNat) := by
  have hlength := length_longHeader settings.maxBodySize.toNat
  have hmax : settings.maxBodySize.toNat ≤ LengthForm.sixtyFour.max :=
    Nat.le_sub_one_of_lt settings.maxBodySize.toNat_lt
  have hdecoded : payloadLength (longHeader settings.maxBodySize.toNat) =
      some (settings.maxBodySize, 10) := by
    rw [longHeader, payloadLength_encode _ _ _ _ hmax, UInt64.ofNat_toNat]
    rfl
  have hdata : ((longHeader settings.maxBodySize.toNat).getD 0 0 &&& 0x0F &&& 0x08 ≠ 0) =
      False := by
    show ((0x82 : UInt8) &&& 0x0F &&& 0x08 ≠ 0) = False
    decide
  have hmask : ¬ (longHeader settings.maxBodySize.toNat).getD 1 0 &&& 0x80 = 0 :=
    LengthForm.sixtyFour.masked _ _ _
  unfold payloadSum
  rw [if_neg (by omega), if_neg hmask, hdecoded]
  simp only [hdata, decide_false, Bool.false_and, Bool.false_eq_true, if_false, gt_iff_lt,
    if_neg (UInt64.lt_irrefl _), hlength, Nat.lt_irrefl]

theorem not_exact_of_longHeader (settings : SettingsData)
    (hlong : 14 ≤ settings.maxRequestSize.toNat)
    (hsum : 2 ^ 64 ≤ settings.maxBodySize.toNat + 14) : ¬ SumsExact settings := by
  intro hexact
  have hunread := readBuffer_receive settings 0 5 (longHeader settings.maxBodySize.toNat)
    (by rw [length_longHeader]; exact hlong)
  have hsame := hexact.exact (framedSession settings (longHeader settings.maxBodySize.toNat)) rfl
    _ _ ((congrArg (payloadSum settings) hunread).trans (payloadSum_longHeader settings))
  have hlt := (UInt64.ofNat 14 + settings.maxBodySize).toNat_lt
  omega

/-- Which limits keep both sums exact, whatever a session receives. -/
theorem sumsExact_iff (settings : SettingsData) : SumsExact settings ↔ SumsFit settings := by
  constructor
  · intro hexact
    constructor
    · by_contra hwrap
      rw [not_or, Nat.not_lt, Nat.not_lt] at hwrap
      exact not_exact_of_declaringHead settings hwrap.1 hwrap.2 hexact
    · by_contra hwrap
      rw [not_or, Nat.not_lt, Nat.not_lt] at hwrap
      exact not_exact_of_longHeader settings hwrap.1 hwrap.2 hexact
  · rintro ⟨hrequests, hframes⟩
    have hexact : ∀ s : Session, s.readBuffer.capacity = settings.maxRequestSize.toNat →
        ∀ sum size, s.comparedSum settings = some (sum, size) → sum.toNat = size := by
      intro s hcapacity sum size h
      have hdata : s.readBuffer.unread.length ≤ settings.maxRequestSize.toNat := by
        rw [BoundedQueue.length_unread, ← hcapacity]
        exact s.readBuffer.size_le_capacity
      unfold Session.comparedSum at h
      cases hmode : s.mode with
      | http =>
        rw [hmode] at h
        exact bodySum_exact hdata hrequests h
      | webSocket =>
        rw [hmode] at h
        exact payloadSum_exact hdata hframes h
    exact ⟨hexact, fun s hcapacity sum size h hwaits =>
      Session.le_size_of_comparedSum h (hexact s hcapacity sum size h) hwaits⟩

/-- No limit on bodies is a valid setting, and then a frame whose length field says
2^64 - 1 is taken with its header alone. -/
theorem unlimited_bodies_wrap :
    { configJson with maxBodySize := 0xFFFFFFFFFFFFFFFF }.isValid = true ∧
      ¬ SumsExact { configJson with maxBodySize := 0xFFFFFFFFFFFFFFFF } :=
  ⟨by decide, not_exact_of_longHeader _ (by decide) (by decide)⟩

end WarpApi

import WarpApi.HeaderNames

/-!
How `parseRequest` takes a Content-Length. `fast_atoi` reads the leading digits in
wrapping arithmetic behind at most one space, and the limit is compared with what is left
of them; the sum with the size of the section wraps as well. So the length is what the
line says only in sections where the whole value is one number that is small enough.
-/
namespace WarpApi

open DecimalNumeral

/-- A request line, header lines and a blank line, cut at the CRLFs of the buffer. -/
structure HeaderSection where
  line : Bytes
  fields : List Bytes
  line_crlf : ¬ crlf <:+: line
  fields_crlf : ∀ f ∈ fields, f ≠ [] ∧ ¬ crlf <:+: f

def HeaderSection.bytes (h : HeaderSection) : Bytes :=
  h.line ++ crlf ++ (fieldBytes h.fields ++ crlf)

/-- Of the lines with a name of fourteen letters there is one, a Content-Length. -/
structure SizedSection extends HeaderSection where
  field : Bytes
  only : fields.filter (sameLength .contentLength) = [field]
  name : named .contentLength field = true

/-- All bytes behind the colon. -/
def rawValue (line : Bytes) : Bytes := line.drop ((line.takeWhile (· != colon)).length + 1)

/-- The leading digits of the value, modulo 2^64. -/
def SizedSection.leading (h : SizedSection) : ℕ :=
  value ((valueOf h.field).takeWhile isDigit) % 2 ^ 64

/-- The request is not accepted: a CR inside a line, no request line, leading digits over
the limit, or too few bytes behind the section. -/
def SizedSection.Refused (settings : SettingsData) (h : SizedSection) (rest : Bytes) : Prop :=
  (∃ f ∈ h.line :: h.fields, cr ∈ f) ∨ splitRequestLine h.line = none ∨
    settings.maxBodySize.toNat < h.leading ∨
    h.leading ≠ 0 ∧ (h.bytes ++ rest).length < (h.bytes.length + h.leading) % 2 ^ 64

/-- A number between spaces. -/
def Spaced (raw : Bytes) (before : ℕ) (digits : Bytes) (after : ℕ) : Prop :=
  raw = List.replicate before space ++ digits ++ List.replicate after space ∧
    digits ≠ [] ∧ ∀ c ∈ digits, isDigit c = true

/-- One number, zero or behind at most one space and too small to wrap. -/
def SizedSection.PlainLength (h : SizedSection) : Prop :=
  ∃ before digits after, Spaced (rawValue h.field) before digits after ∧
    (value digits = 0 ∨ before ≤ 1 ∧ h.bytes.length + value digits < 2 ^ 64)

/-- An accepted request has one number within the limit as its Content-Length, and that
many bytes as its body. -/
def SizedSection.TakenAtFaceValue (settings : SettingsData) (h : SizedSection) (rest : Bytes)
    (s : Session) : Prop :=
  ∀ t, s.parseRequest settings = (true, t) →
    ∃ before digits after, Spaced (rawValue h.field) before digits after ∧
      value digits ≤ settings.maxBodySize.toNat ∧
      t.readBuffer.readPos = s.readBuffer.readPos + (h.bytes.length + value digits) ∧
      (value digits ≠ 0 → t.req.data.body = rest.take (value digits) ∧
        t.req.data.body.length = value digits)

/-- A line with a CR in front of its CRLF is not a line to the parser. -/
theorem firstLine_of_mem_cr {f : Bytes} (rest : Bytes) (hcrlf : ¬ crlf <:+: f) (hcr : cr ∈ f) :
    firstLine (f ++ crlf ++ rest) = none := by
  obtain ⟨pre, post, rfl, hpre⟩ := (exists_first_cr f).resolve_left (not_not_intro hcr)
  have hdata : pre ++ cr :: post ++ crlf ++ rest = pre ++ cr :: (post ++ crlf ++ rest) := by
    simp only [List.append_assoc, List.cons_append]
  rw [hdata, firstLine, findCrlf_append _ _ hpre]
  have hnext : (pre ++ cr :: (post ++ crlf ++ rest)).getD (pre.length + 1) 0 ≠ lf := by
    rw [List.getD_append_right _ _ _ _ (by omega)]
    cases post with
    | nil =>
      rw [show pre.length + 1 - pre.length = 1 by omega]
      exact (by decide : cr ≠ lf)
    | cons c post =>
      intro hlf
      rw [show pre.length + 1 - pre.length = 1 by omega] at hlf
      have hc : c = lf := hlf
      exact hcrlf ⟨pre, post, by simp [crlf, hc]⟩
  dsimp only
  rw [if_pos (Or.inr hnext)]

theorem headerLoop_of_mem_cr (settings : SettingsData) (turns : ℕ) (fields : List Bytes)
    (rest : Bytes) (st : HeaderScan) (hfields : ∀ f ∈ fields, f ≠ [] ∧ ¬ crlf <:+: f)
    (hcr : ∃ f ∈ fields, cr ∈ f) :
    (headerLoop settings turns (fieldBytes fields ++ rest) st).1 = none := by
  induction fields generalizing turns st with
  | nil => simp at hcr
  | cons f fields ih =>
    cases turns with
    | zero => rfl
    | succ turns =>
      obtain ⟨hne, hcrlf⟩ := hfields f (List.mem_cons_self ..)
      rw [fieldBytes_cons_append]
      by_cases hmem : cr ∈ f
      · have hnil : f ++ crlf ++ (fieldBytes fields ++ rest) ≠ [] := by simp [crlf]
        have hblank : (f ++ crlf ++ (fieldBytes fields ++ rest)).take 2 ≠ crlf := by
          intro htake
          cases f with
          | nil => exact hne rfl
          | cons c f =>
            cases f with
            | nil =>
              have hlf : cr = lf := by simpa [crlf] using congrArg (List.getD · 1 0) htake
              exact absurd hlf (by decide)
            | cons d f =>
              have heq : [c, d] = crlf := by simpa using htake
              exact hcrlf ⟨[], f, by rw [← heq]; rfl⟩
        rw [headerLoop, if_neg hnil, if_neg hblank, firstLine_of_mem_cr _ hcrlf hmem]
      · have hcr' : ∃ g ∈ fields, cr ∈ g := by
          obtain ⟨g, hg, hgcr⟩ := hcr
          rcases List.mem_cons.mp hg with rfl | hg
          · exact absurd hgcr hmem
          · exact ⟨g, hg, hgcr⟩
        rw [headerLoop_line settings turns f _ st hne hmem]
        cases headerLine settings f st with
        | none => rfl
        | some st' => exact ih turns st' (fun g hg => hfields g (List.mem_cons_of_mem _ hg)) hcr'

theorem splitHeader_cases (line : Bytes) :
    splitHeader line = none ∨ splitHeader line = some (line.takeWhile (· != colon),
      if (rawValue line).head? = some space then (rawValue line).tail else rawValue line) := by
  unfold splitHeader rawValue
  dsimp only
  split_ifs
  · exact Or.inl rfl
  · exact Or.inr rfl
  · exact Or.inr rfl

theorem foldlM_declareLength_of_others (settings : SettingsData) (n : UInt64) (lines : List Bytes)
    (hlines : ∀ line ∈ lines, ¬ sameLength .contentLength line = true) :
    lines.foldlM (declareLength settings) n = some n := by
  induction lines with
  | nil => rfl
  | cons line lines ih =>
    have hkey : (headerOf line).1 ≠ .contentLength := fun heq =>
      hlines line (List.mem_cons_self ..) ((sameLength_iff (by decide) line).mpr heq)
    have hline : declareLength settings n line = some n := by
      rw [declareLength_eq, overLimit, if_neg hkey]
      simp [hkey]
    rw [List.foldlM_cons, hline]
    exact ih fun other hother => hlines other (List.mem_cons_of_mem _ hother)

namespace SizedSection

variable {settings : SettingsData} {h : SizedSection} {rest : Bytes}

theorem fastAtoi_valueOf (h : SizedSection) : (fastAtoi (valueOf h.field)).toNat = h.leading :=
  fastAtoi_toNat _

theorem headerOf_field (h : SizedSection) : (headerOf h.field).1 = .contentLength :=
  (sameLength_iff (by decide) h.field).mp (sameLength_of_named h.name)

/-- The one Content-Length line decides the declared length. -/
theorem declaredLength_eq (settings : SettingsData) (h : SizedSection) :
    declaredLength settings h.fields =
      if settings.maxBodySize.toNat < h.leading then none
      else some (fastAtoi (valueOf h.field)) := by
  obtain ⟨before, after, hfields, hbefore, -, hafter⟩ := List.filter_eq_cons_iff.mp h.only
  have hothers : ∀ line ∈ after, ¬ sameLength .contentLength line = true :=
    List.filter_eq_nil_iff.mp hafter
  have hover : overLimit settings h.field = true ↔
      settings.maxBodySize.toNat < h.leading := by
    rw [overLimit, h.headerOf_field, ← h.fastAtoi_valueOf]
    simp [valueOf, UInt64.lt_iff_toNat_lt]
  have hfield : declareLength settings 0 h.field =
      if settings.maxBodySize.toNat < h.leading then none
      else some (fastAtoi (valueOf h.field)) := by
    rw [declareLength_eq, h.headerOf_field, if_pos rfl]
    by_cases hlt : settings.maxBodySize.toNat < h.leading
    · rw [if_pos (hover.mpr hlt), if_pos hlt]
    · rw [if_neg (fun htrue => hlt (hover.mp htrue)), if_neg hlt]
      rfl
  rw [declaredLength, hfields, List.foldlM_append,
    foldlM_declareLength_of_others settings 0 before hbefore]
  simp only [Option.bind_eq_bind, Option.bind_some, List.foldlM_cons]
  rw [hfield]
  split_ifs
  · rfl
  · exact foldlM_declareLength_of_others settings _ after hothers

theorem minRequestSize_le (h : SizedSection) (rest : Bytes) :
    minRequestSize ≤ (h.bytes ++ rest).length := by
  obtain ⟨before, after, hfields, -⟩ := List.filter_eq_cons_iff.mp h.only
  have hname : 14 ≤ h.field.length := by
    have hsame := sameLength_of_named h.name
    unfold sameLength at hsame
    rcases splitHeader_cases h.field with hnone | hsome
    · simp [hnone] at hsame
    · rw [hsome] at hsame
      have hlen : (h.field.takeWhile (· != colon)).length = 14 := beq_iff_eq.mp hsame
      have hle := (List.takeWhile_prefix (l := h.field) (· != colon)).length_le
      omega
  unfold HeaderSection.bytes
  rw [hfields]
  simp only [fieldBytes, List.flatMap_append, List.flatMap_cons, List.length_append, crlf,
    List.length_cons, List.length_nil, minRequestSize]
  omega

/-- What the parser makes of a section that it does not refuse. -/
structure Accepted (settings : SettingsData) (h : SizedSection) (rest : Bytes)
    (result : ParseResult) : Prop where
  limit : h.leading ≤ settings.maxBodySize.toNat
  enough : h.leading = 0 ∨
    (h.bytes.length + h.leading) % 2 ^ 64 ≤ (h.bytes ++ rest).length
  consumed : result.consumed = some
    (if h.leading = 0 then h.bytes.length else (h.bytes.length + h.leading) % 2 ^ 64)
  body : h.leading ≠ 0 → result.req.data.body = rest.take h.leading

theorem bytes_append (h : SizedSection) (rest : Bytes) :
    h.bytes ++ rest = h.line ++ crlf ++ (fieldBytes h.fields ++ (crlf ++ rest)) := by
  simp only [HeaderSection.bytes, List.append_assoc]

theorem consumed_of_no_head (settings : SettingsData) (h : SizedSection) (rest : Bytes)
    (req : HttpRequest) (keepAlive : Bool)
    (hno : (∃ f ∈ h.line :: h.fields, cr ∈ f) ∨ splitRequestLine h.line = none) :
    (parseBytes settings (h.bytes ++ rest) req keepAlive).consumed = none := by
  have hmin := h.minRequestSize_le rest
  have hlong : ¬ (h.bytes ++ rest).length < minRequestSize := by omega
  by_cases hcrline : cr ∈ h.line
  · rw [parseBytes, if_neg hlong, h.bytes_append, firstLine_of_mem_cr _ h.line_crlf hcrline]
  have hline : firstLine (h.bytes ++ rest) =
      some (h.line, fieldBytes h.fields ++ (crlf ++ rest)) := by
    rw [h.bytes_append, firstLine_append _ _ hcrline]
  rw [parseBytes, if_neg hlong, hline]
  dsimp only
  cases hsplit : splitRequestLine h.line with
  | none => rfl
  | some requestLine =>
    have hcrfields : ∃ f ∈ h.fields, cr ∈ f := by
      rcases hno with ⟨f, hf, hcr⟩ | hnone
      · rcases List.mem_cons.mp hf with rfl | hf
        · exact absurd hcr hcrline
        · exact ⟨f, hf, hcr⟩
      · simp [hsplit] at hnone
    have hloop := headerLoop_of_mem_cr settings
      ((fieldBytes h.fields ++ (crlf ++ rest)).length + 1) h.fields (crlf ++ rest)
      (startScan req requestLine) h.fields_crlf hcrfields
    dsimp only
    split
    · rfl
    · rename_i heq
      rw [heq] at hloop
      simp at hloop

theorem exists_head_of_section (h : SizedSection)
    (hno : ¬ ((∃ f ∈ h.line :: h.fields, cr ∈ f) ∨ splitRequestLine h.line = none)) :
    ∃ head : Head, head.fields = h.fields ∧
      ∀ rest, h.bytes ++ rest = head.bytes ++ (crlf ++ rest) := by
  rw [not_or] at hno
  obtain ⟨requestLine, hsplit⟩ := Option.ne_none_iff_exists'.mp hno.2
  refine ⟨⟨h.line, requestLine, h.fields, ?_, hsplit, fun f hf => ?_⟩, rfl, fun rest => ?_⟩
  · exact fun hcr => hno.1 ⟨h.line, List.mem_cons_self .., hcr⟩
  · exact ⟨(h.fields_crlf f hf).1, fun hcr => hno.1 ⟨f, List.mem_cons_of_mem _ hf, hcr⟩⟩
  · rw [h.bytes_append]
    simp only [Head.bytes, List.append_assoc]

theorem parseBytes_of_head (settings : SettingsData) (h : SizedSection) (rest : Bytes)
    (req : HttpRequest) (keepAlive : Bool) {head : Head} (hfields : head.fields = h.fields)
    (hdata : h.bytes ++ rest = head.bytes ++ (crlf ++ rest)) :
    if settings.maxBodySize.toNat < h.leading ∨ h.leading ≠ 0 ∧
        (h.bytes ++ rest).length < (h.bytes.length + h.leading) % 2 ^ 64 then
      (parseBytes settings (h.bytes ++ rest) req keepAlive).consumed = none
    else h.Accepted settings rest (parseBytes settings (h.bytes ++ rest) req keepAlive) := by
  have hmin := h.minRequestSize_le rest
  have hsize : (h.bytes ++ rest).length - rest.length = h.bytes.length := by
    rw [List.length_append]
    omega
  have hzero : fastAtoi (valueOf h.field) = 0 ↔ h.leading = 0 := by
    rw [← h.fastAtoi_valueOf]
    exact UInt64.toNat_inj.symm
  have hdecl := h.declaredLength_eq settings
  rw [← hfields] at hdecl
  by_cases hover : settings.maxBodySize.toNat < h.leading
  · rw [if_pos hover] at hdecl
    rw [if_pos (Or.inl hover), hdata]
    exact parseBytes_over_limit settings head _ req keepAlive (hdata ▸ hmin) hdecl
  rw [if_neg hover] at hdecl
  obtain ⟨hfits, hshort⟩ := parseBytes_section settings head (crlf ++ rest) rest _ req keepAlive
    (hdata ▸ hmin) (SectionEnd.blank rest) hdecl
  rw [← hdata, Fits, hsize, h.fastAtoi_valueOf, hzero] at hfits hshort
  split_ifs with hrefused
  · obtain ⟨hne, hlt⟩ := hrefused.resolve_left hover
    exact hshort fun henough => by
      have hle := henough.resolve_left hne
      omega
  · rw [not_or, not_and, Nat.not_lt, Nat.not_lt] at hrefused
    have henough : h.leading = 0 ∨
        (h.bytes.length + h.leading) % 2 ^ 64 ≤ (h.bytes ++ rest).length :=
      or_iff_not_imp_left.mpr hrefused.2
    rw [hfits henough]
    refine ⟨hrefused.1, henough, ?_, fun hne => ?_⟩
    · simp only [Head.accept, hzero, h.fastAtoi_valueOf]
    · have hview := congrArg RequestView.body (head.view_result req (fastAtoi (valueOf h.field))
        (rest.take (fastAtoi (valueOf h.field)).toNat))
      dsimp only [Head.accept]
      rw [if_neg (fun heq => hne (hzero.mp heq)), h.fastAtoi_valueOf] at hview
      rw [h.fastAtoi_valueOf]
      exact hview

theorem parseBytes_cases (settings : SettingsData) (h : SizedSection) (rest : Bytes)
    (req : HttpRequest) (keepAlive : Bool) :
    h.Refused settings rest ∧
        (parseBytes settings (h.bytes ++ rest) req keepAlive).consumed = none ∨
      ¬ h.Refused settings rest ∧
        h.Accepted settings rest (parseBytes settings (h.bytes ++ rest) req keepAlive) := by
  unfold Refused
  by_cases hno : (∃ f ∈ h.line :: h.fields, cr ∈ f) ∨ splitRequestLine h.line = none
  · exact Or.inl ⟨hno.elim Or.inl fun hnone => Or.inr (Or.inl hnone),
      h.consumed_of_no_head settings rest req keepAlive hno⟩
  obtain ⟨head, hfields, hdata⟩ := h.exists_head_of_section hno
  have hcases := h.parseBytes_of_head settings rest req keepAlive hfields (hdata rest)
  split_ifs at hcases with hrefused
  · exact Or.inl ⟨Or.inr (Or.inr hrefused), hcases⟩
  · rw [not_or] at hno
    exact Or.inr ⟨fun hr => hr.elim hno.1 fun hr => hr.elim hno.2 hrefused, hcases⟩

theorem valueOf_field (h : SizedSection) :
    valueOf h.field = if (rawValue h.field).head? = some space then (rawValue h.field).tail
      else rawValue h.field := by
  have hsame := sameLength_of_named h.name
  unfold sameLength at hsame
  rcases splitHeader_cases h.field with hnone | hsome
  · simp [hnone] at hsame
  · rw [valueOf, headerOf, hsome]

theorem digits_of_spaced {raw : Bytes} {before : ℕ} {digits : Bytes} {after : ℕ}
    (h : Spaced raw before digits after) : digits = raw.filter isDigit := by
  obtain ⟨rfl, -, hdigits⟩ := h
  have hspaces : ∀ n, (List.replicate n space).filter isDigit = [] := fun n =>
    List.filter_replicate_of_neg (by decide)
  rw [List.filter_append, List.filter_append, hspaces, hspaces, List.filter_eq_self.mpr hdigits,
    List.nil_append, List.append_nil]

/-- One space is skipped; behind two of them there is no digit. -/
theorem leading_of_spaced {before : ℕ} {digits : Bytes} {after : ℕ}
    (hspaced : Spaced (rawValue h.field) before digits after) :
    h.leading = if before ≤ 1 then value digits % 2 ^ 64 else 0 := by
  obtain ⟨hraw, hne, hdigits⟩ := hspaced
  have hbehind : ∀ c, (List.replicate after space).head? = some c → isDigit c = false := by
    intro c hc
    have hmem := List.mem_of_mem_head? hc
    rw [List.eq_of_mem_replicate hmem]
    decide
  have htake := takeWhile_isDigit_append hdigits hbehind
  rw [leading, h.valueOf_field, hraw]
  cases before with
  | zero =>
    have hhead : (List.replicate 0 space ++ digits ++ List.replicate after space).head? ≠
        some space := by
      obtain ⟨c, cs, rfl⟩ := List.exists_cons_of_ne_nil hne
      intro hspace
      have hc : c = space := Option.some.inj hspace
      have hdigit := hdigits c (List.mem_cons_self ..)
      rw [hc] at hdigit
      exact absurd hdigit (by decide)
    rw [if_neg hhead, List.replicate_zero, List.nil_append, htake, if_pos (Nat.zero_le 1)]
  | succ before =>
    rw [List.replicate_succ, List.cons_append, List.cons_append, List.head?_cons, if_pos rfl,
      List.tail_cons]
    cases before with
    | zero => rw [List.replicate_zero, List.nil_append, htake, if_pos (Nat.le_refl 1)]
    | succ before =>
      rw [List.replicate_succ, List.cons_append, List.cons_append, List.takeWhile_cons,
        if_neg (by decide), if_neg (by omega)]
      rfl

/-- What is taken at face value is plain, as the code reads a plain length only. -/
theorem plainLength_of_taken {s : Session} (hunread : s.readBuffer.unread = h.bytes ++ rest)
    (hacc : h.Accepted settings rest (parseBytes settings (h.bytes ++ rest) s.req s.keepAlive))
    (htaken : h.TakenAtFaceValue settings rest s) : h.PlainLength := by
  have hsize : settings.maxBodySize.toNat < 2 ^ 64 := settings.maxBodySize.toNat_lt
  have hconsumed := hacc.consumed
  rw [← hunread] at hconsumed
  obtain ⟨t, ht, hpos⟩ := Session.parseRequest_of_consumed hconsumed
  obtain ⟨before, digits, after, hspaced, hvalue, hreadPos, -⟩ := htaken t ht
  refine ⟨before, digits, after, hspaced, ?_⟩
  have hleading := h.leading_of_spaced hspaced
  rw [hpos] at hreadPos
  by_cases hzero : value digits = 0
  · exact Or.inl hzero
  by_cases hbefore : before ≤ 1
  · rw [if_pos hbefore, Nat.mod_eq_of_lt (by omega)] at hleading
    rw [hleading, if_neg hzero] at hreadPos
    have hwrap := Nat.mod_lt (h.bytes.length + value digits) (by decide : 0 < 2 ^ 64)
    exact Or.inr ⟨hbefore, by omega⟩
  · rw [if_neg hbefore] at hleading
    rw [hleading, if_pos rfl] at hreadPos
    omega

/-- The code reads a plain length as it stands. -/
theorem taken_of_plainLength {s : Session} (hunread : s.readBuffer.unread = h.bytes ++ rest)
    (hacc : h.Accepted settings rest (parseBytes settings (h.bytes ++ rest) s.req s.keepAlive))
    (hplain : h.PlainLength) : h.TakenAtFaceValue settings rest s := by
  obtain ⟨before, digits, after, hspaced, hplain⟩ := hplain
  have hleading := h.leading_of_spaced hspaced
  have hvalue : h.leading = value digits := by
    rcases hplain with hzero | ⟨hbefore, hlt⟩
    · rw [hleading, hzero]
      split_ifs <;> rfl
    · rw [hleading, if_pos hbefore, Nat.mod_eq_of_lt (by omega)]
  obtain ⟨hmax, henough, hconsumed, hbody⟩ := hacc
  rw [hvalue] at hmax henough hconsumed hbody
  have hfits : h.bytes.length + value digits ≤ (h.bytes ++ rest).length := by
    by_cases hzero : value digits = 0
    · rw [hzero, List.length_append]
      omega
    · have hle := henough.resolve_left hzero
      rwa [Nat.mod_eq_of_lt (hplain.resolve_left hzero).2] at hle
  intro t ht
  obtain ⟨n, hn, rfl⟩ := Session.parseRequest_eq_true ht
  rw [hunread] at hn ⊢
  have hnumber : n = h.bytes.length + value digits := by
    rw [hconsumed] at hn
    rw [← Option.some.inj hn]
    split_ifs with hzero
    · omega
    · exact Nat.mod_eq_of_lt (hplain.resolve_left hzero).2
  refine ⟨before, digits, after, hspaced, hmax, ?_, fun hne => ?_⟩
  · have hlen : (h.bytes ++ rest).length =
        s.readBuffer.written.length - s.readBuffer.readPos := by
      rw [← hunread, BoundedQueue.length_unread, BoundedQueue.size]
    have hread := s.readBuffer.readPos_le
    show min (s.readBuffer.readPos + n) s.readBuffer.written.length = _
    rw [hnumber]
    omega
  · have heq := hbody hne
    have hlength := congrArg List.length heq
    rw [List.length_take] at hlength
    rw [List.length_append] at hfits
    refine ⟨heq, ?_⟩
    dsimp only
    omega

/-- A Content-Length is taken at face value exactly in sections that are refused and in
those that hold one number, zero or behind at most one space and too small to wrap. -/
theorem takenAtFaceValue_iff (settings : SettingsData) (h : SizedSection) (rest : Bytes)
    (s : Session) (hunread : s.readBuffer.unread = h.bytes ++ rest) :
    h.TakenAtFaceValue settings rest s ↔ h.Refused settings rest ∨ h.PlainLength := by
  rcases h.parseBytes_cases settings rest s.req s.keepAlive with
    ⟨hrefused, hnone⟩ | ⟨hkept, hacc⟩
  · refine ⟨fun _ => Or.inl hrefused, fun _ t ht => ?_⟩
    obtain ⟨n, hn, -⟩ := Session.parseRequest_eq_true ht
    rw [hunread, hnone] at hn
    simp at hn
  · constructor
    · intro htaken
      exact Or.inr (plainLength_of_taken hunread hacc htaken)
    · intro hplain
      exact taken_of_plainLength hunread hacc (hplain.resolve_left hkept)

def plainPost : SizedSection where
  line := ascii "POST / HTTP/1.1"
  fields := [ascii "Content-Length: 2"]
  line_crlf := by decide
  fields_crlf := by decide
  field := ascii "Content-Length: 2"
  only := by decide
  name := by decide

theorem takenAtFaceValue_plainPost :
    plainPost.TakenAtFaceValue configJson (ascii "hi")
      (receiving configJson (plainPost.bytes ++ ascii "hi")) :=
  (takenAtFaceValue_iff configJson plainPost (ascii "hi")
    (receiving configJson (plainPost.bytes ++ ascii "hi")) (by decide +kernel)).mpr
      (Or.inr ⟨1, ascii "2", 0, ⟨by decide, by decide, by decide +kernel⟩,
        Or.inr ⟨by decide, by decide +kernel⟩⟩)

def wrappingPost : SizedSection where
  line := ascii "POST / HTTP/1.1"
  fields := [ascii "Content-Length: 18446744073709551618"]
  line_crlf := by decide
  fields_crlf := by decide
  field := ascii "Content-Length: 18446744073709551618"
  only := by decide
  name := by decide

/-- It passes the limit and is taken for 2. -/
theorem wrappingPost_not_face_value :
    ¬ wrappingPost.TakenAtFaceValue configJson (ascii "hi")
      (receiving configJson (wrappingPost.bytes ++ ascii "hi")) := by
  intro h
  have haccepted : ((receiving configJson (wrappingPost.bytes ++ ascii "hi")).parseRequest
      configJson).1 = true := by decide +kernel
  obtain ⟨before, digits, after, hspaced, hvalue, -⟩ := h _ (Prod.ext haccepted rfl)
  rw [digits_of_spaced hspaced] at hvalue
  exact absurd hvalue (by decide +kernel)

end SizedSection

end WarpApi

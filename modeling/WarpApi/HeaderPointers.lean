import WarpApi.ParsePointers

/-!
The header lines and the body with pointers, and with them the whole attempt. No read leaves
the received bytes, no loop runs on for ever, and what the views show is what `parseBytes`
stores.
-/
namespace WarpApi

open CheckedScan

variable {data : Bytes} {p hEnd lineEnd : ℕ}

theorem iequalsLoopPtr_eq (b : Bytes) (hend : p + b.length ≤ data.length) :
    iequalsLoopPtr data p b = some
      (((slice data p (p + b.length)).zip b).all fun c => c.1 ||| 32 == c.2 ||| 32) := by
  induction b generalizing p with
  | nil =>
    rw [iequalsLoopPtr, List.zip_nil_right]
    rfl
  | cons c b ih =>
    rw [List.length_cons] at hend ⊢
    obtain ⟨a, ha, hslice⟩ := slice_eq_cons data (show p < p + (b.length + 1) by omega) hend
    rw [iequalsLoopPtr, ha, hslice, List.zip_cons_cons, List.all_cons,
      show p + (b.length + 1) = p + 1 + b.length by omega]
    simp only [Option.bind_eq_bind, Option.bind_some]
    by_cases heq : a ||| 32 = c ||| 32
    · rw [if_neg (not_not_intro heq), ih (by omega), beq_iff_eq.mpr heq, Bool.true_and]
    · rw [if_pos heq, beq_eq_false_iff_ne.mpr heq, Bool.false_and]

theorem iequalsSmallPtr_eq (b : Bytes) (hp : p ≤ hEnd) (hend : hEnd ≤ data.length) :
    iequalsSmallPtr data p (hEnd - p) b = some (iequalsSmall (slice data p hEnd) b) := by
  unfold iequalsSmallPtr iequalsSmall
  rw [length_slice hend]
  by_cases hlen : hEnd - p = b.length
  · rw [if_neg (not_not_intro hlen), if_neg (not_not_intro hlen), iequalsLoopPtr_eq b (by omega),
      show p + b.length = hEnd by omega]
  · rw [if_pos hlen, if_pos hlen]

theorem atoiPtr_eq (len : ℕ) (result : UInt64) (hend : p + len ≤ data.length) :
    atoiPtr data len p result = some (atoiLoop result (slice data p (p + len))) := by
  induction len generalizing p result with
  | zero =>
    rw [atoiPtr, Nat.add_zero, slice_of_le (Nat.le_refl _)]
    rfl
  | succ len ih =>
    obtain ⟨c, hc, hslice⟩ := slice_eq_cons data (show p < p + (len + 1) by omega) hend
    rw [atoiPtr, hc, hslice, atoiLoop, show p + (len + 1) = p + 1 + len by omega]
    simp only [Option.bind_eq_bind, Option.bind_some]
    split_ifs
    · rfl
    · exact ih _ (by omega)

theorem connectionPtr_eq (keepAlive : Bool) (hp : p ≤ hEnd) (hend : hEnd ≤ data.length) :
    connectionPtr data p (hEnd - p) keepAlive =
      some (connectionKeepAlive keepAlive (slice data p hEnd)) := by
  unfold connectionPtr connectionKeepAlive
  rw [iequalsSmallPtr_eq _ hp hend, iequalsSmallPtr_eq _ hp hend]
  simp only [Option.bind_eq_bind, Option.bind_some]
  split_ifs <;> rfl

/-- The scan that the views show, on top of this request object. -/
def PtrScan.shown (data : Bytes) (req : HttpRequest) (st : PtrScan) : HeaderScan where
  req := st.headers.foldl (fun req h => storeHeader req h.1 (h.2.bytes data)) req
  keepAlive := st.keepAlive
  contentLength := st.contentLength
  hasContentLen := st.hasContentLen

/-- All header values lie within the first n bytes, and the length is within the limit. -/
structure PtrScan.Fits (settings : SettingsData) (n : ℕ) (st : PtrScan) : Prop where
  headers : ∀ h ∈ st.headers, h.2.Inside n
  contentLength : st.contentLength ≤ settings.maxBodySize

theorem PtrScan.Fits.mono {settings : SettingsData} {m n : ℕ} {st : PtrScan}
    (h : st.Fits settings m) (hn : m ≤ n) : st.Fits settings n :=
  ⟨fun header hmem => (h.headers header hmem).mono hn, h.contentLength⟩

/-- The value starts behind the colon or behind one space, and not behind the line. -/
theorem valueStartPtr_spec (data : Bytes) {colonEnd hEnd : ℕ} (hcolon : colonEnd < hEnd)
    (hend : hEnd ≤ data.length) :
    ∃ v, valueStartPtr data colonEnd hEnd = some v ∧ colonEnd < v ∧ v ≤ hEnd ∧
      (if (slice data (colonEnd + 1) hEnd).head? = some space
        then (slice data (colonEnd + 1) hEnd).tail else slice data (colonEnd + 1) hEnd) =
        slice data v hEnd := by
  unfold valueStartPtr
  by_cases hlast : colonEnd + 1 < hEnd
  · obtain ⟨c, hc, hslice⟩ := slice_eq_cons data hlast hend
    rw [if_pos hlast, hc, hslice]
    simp only [Option.bind_eq_bind, Option.bind_some, List.head?_cons, Option.some.injEq,
      List.tail_cons]
    by_cases hspace : c = space
    · exact ⟨colonEnd + 2, by rw [if_pos hspace], by omega, by omega, by rw [if_pos hspace]⟩
    · exact ⟨colonEnd + 1, by rw [if_neg hspace], by omega, by omega,
        by rw [if_neg hspace, hslice]⟩
  · refine ⟨colonEnd + 1, if_neg hlast, by omega, by omega, ?_⟩
    rw [slice_of_le (by omega)]
    rfl

theorem headerLinePtr_spec (settings : SettingsData) (data : Bytes) {p hEnd : ℕ} {st : PtrScan}
    (hp : p ≤ hEnd)
    (hend : hEnd ≤ data.length) (hst : st.Fits settings hEnd) :
    ∃ r, headerLinePtr settings data p hEnd st = some r ∧
      (∀ req, headerLine settings (slice data p hEnd) (st.shown data req) =
        r.map (PtrScan.shown data req)) ∧
      ∀ st' ∈ r, st'.Fits settings hEnd := by
  unfold headerLinePtr headerLine splitHeader
  obtain ⟨c, hc, hpc, hcle, hname, hclen, hlen, hbehind⟩ := scan_token (· != colon) hp hend
  simp only [hc, Option.bind_eq_bind, Option.bind_some, hname, hclen, hlen, hbehind]
  by_cases hcend : c = hEnd
  · refine ⟨some st, if_pos hcend, fun req => ?_, fun st' hst' => ?_⟩
    · rw [if_pos (by rw [hcend])]
      rfl
    · exact Option.some.inj hst' ▸ hst
  rw [if_neg hcend, if_neg (by omega)]
  obtain ⟨v, hv, hcv, hvle, hvalue⟩ := valueStartPtr_spec data
    (show c < hEnd by omega) hend
  have hkeep : keepAlivePtr data (headerKey (c - p)) v (hEnd - v) st.keepAlive =
      some (if headerKey (c - p) = .connection then
        connectionKeepAlive st.keepAlive (slice data v hEnd) else st.keepAlive) := by
    rw [keepAlivePtr, connectionPtr_eq _ hvle hend]
    split_ifs <;> rfl
  have hatoi : contentLengthPtr data (headerKey (c - p)) v (hEnd - v) st.contentLength =
      some (if headerKey (c - p) = .contentLength then fastAtoi (slice data v hEnd)
        else st.contentLength) := by
    rw [contentLengthPtr, atoiPtr_eq _ _ (by omega), show v + (hEnd - v) = hEnd by omega]
    split_ifs <;> rfl
  simp only [hv, Option.bind_some, hvalue, hkeep, hatoi, hclen]
  by_cases hover : headerKey (c - p) = .contentLength ∧
      (if headerKey (c - p) = .contentLength then fastAtoi (slice data v hEnd)
        else st.contentLength) > settings.maxBodySize
  · exact ⟨none, if_pos hover, fun req => if_pos hover, by simp⟩
  · rw [if_neg hover]
    refine ⟨_, rfl, fun req => ?_, fun st' hst' => ?_⟩
    · have hstore : (st.headers ++ [(headerKey (c - p), StringView.between v hEnd)]).foldl
          (fun req h => storeHeader req h.1 (h.2.bytes data)) req =
          storeHeader (st.shown data req).req (headerKey (c - p)) (slice data v hEnd) := by
        rw [List.foldl_append, List.foldl_cons, List.foldl_nil, StringView.bytes_between data hvle]
        rfl
      refine (if_neg hover).trans ?_
      simp only [Option.map_some, PtrScan.shown] at hstore ⊢
      rw [hstore]
    · obtain rfl := Option.some.inj hst'
      refine ⟨fun h hmem => ?_, ?_⟩
      · rcases List.mem_append.mp hmem with hmem | hmem
        · exact hst.headers h hmem
        · rw [List.mem_singleton.mp hmem]
          exact StringView.inside_between hvle (Nat.le_refl _)
      · dsimp only
        by_cases hkey : headerKey (c - p) = .contentLength
        · exact UInt64.not_lt.mp fun hgt => hover ⟨hkey, hgt⟩
        · rw [if_neg hkey]
          exact hst.contentLength

theorem blankPtr_eq (hp : p < data.length) :
    blankPtr data p = some (decide ((data.drop p).take 2 = crlf)) := by
  have hdrop := List.drop_eq_getElem_cons hp
  unfold blankPtr
  by_cases hlast : p + 1 < data.length
  · have hnext := List.drop_eq_getElem_cons hlast
    rw [if_pos hlast, List.getElem?_eq_getElem hp, List.getElem?_eq_getElem hlast, hdrop, hnext]
    simp only [Option.bind_eq_bind, Option.bind_some, List.take_succ_cons, List.take_zero, crlf,
      List.cons.injEq, and_true]
    split_ifs with hcr
    · simp [hcr]
    · simp [hcr]
  · have hnil : data.drop (p + 1) = [] := List.drop_eq_nil_of_le (by omega)
    rw [if_neg hlast, hdrop, hnil]
    simp [crlf]

/-- The loop reads inside, ends in time, and gets as far as `headerLoop` does. -/
theorem headerLoopPtr_spec (settings : SettingsData) (turns : ℕ) {st : PtrScan}
    (hp : p ≤ data.length) (hturns : data.length - p < turns) (hst : st.Fits settings p) :
    ∃ stop st', headerLoopPtr settings data turns p st = some (stop, st') ∧
      (∀ req, headerLoop settings turns (data.drop p) (st.shown data req) =
        (stop.map fun q => data.drop q, st'.shown data req)) ∧
      ∀ q ∈ stop, p ≤ q ∧ q ≤ data.length ∧ st'.Fits settings q := by
  induction turns generalizing p st with
  | zero => omega
  | succ turns ih =>
    unfold headerLoopPtr headerLoop
    by_cases hlast : p < data.length
    · have hne : data.drop p ≠ [] := by
        intro hnil
        have hlen := congrArg List.length hnil
        rw [List.length_drop, List.length_nil] at hlen
        omega
      rw [if_pos hlast, blankPtr_eq hlast]
      simp only [if_neg hne, Option.bind_eq_bind, Option.bind_some, decide_eq_true_eq]
      by_cases hblank : (data.drop p).take 2 = crlf
      · have htwo : 2 ≤ data.length - p := by
          have hlen := congrArg List.length hblank
          rw [List.length_take, List.length_drop] at hlen
          have hcrlf : crlf.length = 2 := rfl
          omega
        refine ⟨some (p + 2), st, if_pos hblank, fun req => ?_, fun q hq => ?_⟩
        · rw [if_pos hblank, List.drop_drop]
          rfl
        · obtain rfl := Option.some.inj hq
          exact ⟨by omega, by omega, hst.mono (by omega)⟩
      · obtain ⟨line, hline, hfirst, hbounds⟩ := lineEndPtr_spec data hp
        rw [if_neg hblank, hline]
        simp only [Option.bind_some, if_neg hblank, hfirst]
        cases line with
        | none => exact ⟨none, st, rfl, fun req => rfl, by simp⟩
        | some lineEnd =>
          obtain ⟨hple, hle⟩ := hbounds lineEnd rfl
          obtain ⟨r, hr, hshown, hfits⟩ := headerLinePtr_spec settings data hple
            (by omega) (hst.mono hple)
          simp only [hr, Option.bind_some, Option.map_some, hshown]
          cases r with
          | none => exact ⟨none, st, rfl, fun req => rfl, by simp⟩
          | some st₁ =>
            obtain ⟨stop, st', hloop, hagree, hstop⟩ := ih hle (by omega)
              ((hfits st₁ rfl).mono (by omega))
            refine ⟨stop, st', hloop, hagree, fun q hq => ?_⟩
            obtain ⟨hpq, hqle, hq⟩ := hstop q hq
            exact ⟨by omega, hqle, hq⟩
    · have hnil : data.drop p = [] := List.drop_eq_nil_of_le (by omega)
      refine ⟨some p, st, if_neg hlast, fun req => ?_, fun q hq => ?_⟩
      · rw [if_pos hnil, Option.map_some, hnil]
      · obtain rfl := Option.some.inj hq
        exact ⟨Nat.le_refl _, hp, hst⟩

namespace PtrOutcome

def views (out : PtrOutcome) : List StringView :=
  (match out.line with
    | none => []
    | some line => line.2.all) ++ out.scan.headers.map Prod.snd ++ out.body.toList

def shown (data : Bytes) (req : HttpRequest) (keepAlive : Bool) (out : PtrOutcome) :
    ParseResult :=
  match out.line with
  | none => ⟨req, keepAlive, none⟩
  | some (method, views) =>
    let st := out.scan.shown data (((req.setMethod method).setPath
      (views.path.bytes data) (views.query.bytes data)).setVersion (views.version.bytes data))
    match out.body with
    | none => ⟨st.req, st.keepAlive, out.consumed⟩
    | some body =>
      ⟨st.req.setBodyView (body.bytes data) body.length.toNat, st.keepAlive, out.consumed⟩

theorem consumed_of_shown {data : Bytes} {req : HttpRequest} {keepAlive : Bool} {n : ℕ}
    (out : PtrOutcome) (h : (out.shown data req keepAlive).consumed = some n) :
    n ∈ out.consumed := by
  unfold shown at h
  split at h
  · simp at h
  · dsimp only at h
    split at h <;> exact h

/-- Something is taken, not more than there is, and the views lie in what is taken. -/
def Progress (data : Bytes) (out : PtrOutcome) : Prop :=
  ∀ n ∈ out.consumed, 0 < n ∧ n ≤ data.length ∧ ∀ v ∈ out.views, v.Inside n

end PtrOutcome

theorem takeBodyPtr_spec {method : Method} {views : LineViews} {st : PtrScan}
    (hp : p ≤ data.length) (req : HttpRequest) (keepAlive : Bool) :
    takeBody data (data.drop p) (st.shown data (((req.setMethod method).setPath
        (views.path.bytes data) (views.query.bytes data)).setVersion (views.version.bytes data))) =
      (takeBodyPtr data (method, views) p st).shown data req keepAlive := by
  have hsize : data.length - (data.drop p).length = p := by
    rw [List.length_drop]
    omega
  unfold takeBody takeBodyPtr
  dsimp only
  rw [hsize]
  by_cases hbody : st.hasContentLen = true ∧ st.contentLength > 0
  · rw [if_pos hbody]
    refine (if_pos hbody).trans ?_
    by_cases hshort : data.length < (UInt64.ofNat p + st.contentLength).toNat
    · rw [if_pos hshort]
      exact if_pos hshort
    · rw [if_neg hshort]
      exact if_neg hshort
  · rw [if_neg hbody]
    exact if_neg hbody

/-- The body lies behind the headers unless the sum of both sizes wraps around. -/
theorem takeBodyPtr_progress {settings : SettingsData} {method : Method} {views : LineViews}
    {st : PtrScan} (hroom : settings.maxBodySize.toNat + data.length < 2 ^ 64) (hpos : 0 < p)
    (hp : p ≤ data.length) (hviews : ∀ v ∈ views.all, v.Inside p) (hst : st.Fits settings p) :
    (takeBodyPtr data (method, views) p st).Progress data := by
  have hmax := UInt64.le_iff_toNat_le.mp hst.contentLength
  have htotal : (UInt64.ofNat p + st.contentLength).toNat = p + st.contentLength.toNat := by
    rw [UInt64.toNat_add, UInt64.toNat_ofNat', Nat.mod_eq_of_lt (show p < 2 ^ 64 by omega)]
    omega
  have hheaders : ∀ v ∈ st.headers.map Prod.snd, v.Inside p := by
    intro v hv
    obtain ⟨h, hmem, rfl⟩ := List.mem_map.mp hv
    exact hst.headers h hmem
  have hlines : ∀ n, p ≤ n → ∀ v ∈ views.all ++ st.headers.map Prod.snd, v.Inside n := by
    intro n hn v hv
    rcases List.mem_append.mp hv with hv | hv
    · exact (hviews v hv).mono hn
    · exact (hheaders v hv).mono hn
  unfold takeBodyPtr
  dsimp only
  rw [htotal]
  split_ifs with hbody hshort
  · exact fun n hn => by simp at hn
  · intro n hn
    obtain rfl := Option.some.inj hn
    refine ⟨by omega, by omega, fun v hv => ?_⟩
    rcases List.mem_append.mp hv with hv | hv
    · exact hlines _ (by omega) v hv
    · rw [List.mem_singleton.mp hv]
      unfold StringView.Inside
      dsimp only
      omega
  · intro n hn
    obtain rfl := Option.some.inj hn
    refine ⟨hpos, hp, fun v hv => ?_⟩
    rcases List.mem_append.mp hv with hv | hv
    · exact hlines _ (Nat.le_refl _) v hv
    · simp at hv

def loopResult (data : Bytes) : Option Bytes × HeaderScan → ParseResult
  | (none, st) => ⟨st.req, st.keepAlive, none⟩
  | (some rest, st) => takeBody data rest st

theorem parseBytes_of_line {settings : SettingsData} {line rest : Bytes}
    {requestLine : RequestLine} (req : HttpRequest) (keepAlive : Bool)
    (hmin : ¬ data.length < minRequestSize) (hfirst : firstLine data = some (line, rest))
    (hsplit : splitRequestLine line = some requestLine) :
    parseBytes settings data req keepAlive = loopResult data
      (headerLoop settings (rest.length + 1) rest (startScan req requestLine)) := by
  rw [parseBytes, if_neg hmin, hfirst]
  dsimp only
  rw [hsplit]
  rfl

/-- What the attempt ends with, given where the header loop has stopped. -/
def loopOutcome (data : Bytes) (line : Method × LineViews) : Option ℕ × PtrScan → PtrOutcome
  | (none, st) => ⟨some line, st, none, none⟩
  | (some p, st) => takeBodyPtr data line p st

theorem loopOutcome_spec (settings : SettingsData) {data : Bytes} {lineEnd : ℕ}
    {views : LineViews} (hle : lineEnd + 2 ≤ data.length)
    (hviews : ∀ v ∈ views.all, v.Inside lineEnd) :
    ∃ stopped, headerLoopPtr settings data (data.length - (lineEnd + 2) + 1) (lineEnd + 2)
        startPtrScan = some stopped ∧
      let out := loopOutcome data (HttpRequest.parseMethod (views.method.bytes data), views) stopped
      (∀ req keepAlive, loopResult data (headerLoop settings
        ((data.drop (lineEnd + 2)).length + 1) (data.drop (lineEnd + 2))
        (startScan req (views.requestLine data))) = out.shown data req keepAlive) ∧
      (settings.maxBodySize.toNat + data.length < 2 ^ 64 → out.Progress data) := by
  have hstart : startPtrScan.Fits settings (lineEnd + 2) :=
    ⟨by simp [startPtrScan], UInt64.zero_le⟩
  obtain ⟨stop, st, hloop, hagree, hstop⟩ := headerLoopPtr_spec settings
    (data.length - (lineEnd + 2) + 1) hle (by omega) hstart
  have hshown : ∀ req, startScan req (views.requestLine data) =
      startPtrScan.shown data (((req.setMethod (HttpRequest.parseMethod
        (views.method.bytes data))).setPath (views.path.bytes data)
        (views.query.bytes data)).setVersion (views.version.bytes data)) := fun req => rfl
  refine ⟨(stop, st), hloop, ?_⟩
  cases stop with
  | none =>
    refine ⟨fun req keepAlive => ?_, fun _ n hn => by simp [loopOutcome] at hn⟩
    rw [List.length_drop, hshown, hagree]
    rfl
  | some q =>
    obtain ⟨hpq, hqle, hfits⟩ := hstop q rfl
    refine ⟨fun req keepAlive => ?_, fun hroom => ?_⟩
    · rw [List.length_drop, hshown, hagree]
      exact takeBodyPtr_spec hqle req keepAlive
    · exact takeBodyPtr_progress hroom (by omega) hqle
        (fun v hv => (hviews v hv).mono (by omega)) hfits

/-- No read leaves the received bytes, no loop fails to end, and the attempt stores what
`parseBytes` says. -/
theorem parsePtr_spec (settings : SettingsData) (data : Bytes) :
    ∃ out, parsePtr settings data = some out ∧
      (∀ req keepAlive, parseBytes settings data req keepAlive = out.shown data req keepAlive) ∧
      (settings.maxBodySize.toNat + data.length < 2 ^ 64 → out.Progress data) := by
  unfold parsePtr
  by_cases hmin : data.length < minRequestSize
  · refine ⟨_, if_pos hmin, fun req keepAlive => ?_, fun _ n hn => by simp at hn⟩
    rw [parseBytes, if_pos hmin]
    rfl
  obtain ⟨line, hline, hfirst, hbounds⟩ := lineEndPtr_spec data (Nat.zero_le _)
  rw [List.drop_zero] at hfirst
  rw [if_neg hmin, hline]
  simp only [Option.bind_eq_bind, Option.bind_some]
  cases line with
  | none =>
    refine ⟨_, rfl, fun req keepAlive => ?_, fun _ n hn => by simp at hn⟩
    rw [parseBytes, if_neg hmin, hfirst]
    rfl
  | some lineEnd =>
    obtain ⟨-, hle⟩ := hbounds lineEnd rfl
    obtain ⟨r, hr, hsplit, hviews⟩ := requestLinePtr_spec data lineEnd (by omega)
    simp only [hr, Option.bind_some]
    cases r with
    | none =>
      refine ⟨_, rfl, fun req keepAlive => ?_, fun _ n hn => by simp at hn⟩
      rw [parseBytes, if_neg hmin, hfirst]
      simp only [Option.map_some, hsplit, Option.map_none]
      rfl
    | some views =>
      have hinside := hviews views rfl
      have hmethod := parseMethodPtr_eq ((hinside views.method (by simp [LineViews.all])).mono
        (show lineEnd ≤ data.length by omega))
      obtain ⟨⟨stop, st⟩, hloop, hagree, hprogress⟩ := loopOutcome_spec settings hle hinside
      simp only [hmethod, Option.bind_some, hloop]
      refine ⟨loopOutcome data (_, views) (stop, st), ?_, fun req keepAlive => ?_, hprogress⟩
      · cases stop with
        | none => rfl
        | some q => rfl
      · exact (parseBytes_of_line req keepAlive hmin hfirst hsplit).trans (hagree req keepAlive)

end WarpApi

import WarpApi.ContentLength
import WarpApi.Library.CheckedScan
import WarpApi.Library.HttpMessage

/-!
`parseRequest` once more, with its pointers. A pointer is an offset into the received
bytes, every read through one is checked, and a string view is an offset with the
difference of two pointers as its length. The search for the end of a line and the request
line read inside the received bytes, and find what `parseBytes` finds.
-/
namespace WarpApi

open CheckedScan

/-- A string view into the read buffer. -/
structure StringView where
  start : ℕ
  length : ℤ
  deriving DecidableEq

namespace StringView

/-- `string_view(p, q - p)` -/
def between (p q : ℕ) : StringView := ⟨p, (q : ℤ) - p⟩

def bytes (data : Bytes) (v : StringView) : Bytes := (data.drop v.start).take v.length.toNat

/-- Of no negative length, and within the first n bytes. -/
def Inside (n : ℕ) (v : StringView) : Prop := 0 ≤ v.length ∧ v.start + v.length ≤ n

end StringView

/-- `_mm_loadu_si128` -/
def loadBlock (data : Bytes) (p : ℕ) : Option Bytes :=
  if p + 16 ≤ data.length then some ((data.drop p).take 16) else none

def scalarTailPtr (data : Bytes) (p : ℕ) : Option (Option ℕ) := do
  let q ← scan data (· != cr) data.length p
  some (if q < data.length then some q else none)

def vectorLoopPtr (data : Bytes) : ℕ → ℕ → Option (Option ℕ)
  | 0, p => scalarTailPtr data p
  | turns + 1, p =>
    if 16 ≤ data.length - p then do
      let chunk ← loadBlock data p
      let mask := movemask (chunk.map fun c => c == cr)
      if mask ≠ 0 then some (some (p + ctz 16 mask))
      else vectorLoopPtr data turns (p + 16)
    else scalarTailPtr data p

def findCrlfPtr (data : Bytes) (p : ℕ) : Option (Option ℕ) :=
  vectorLoopPtr data (data.length - p) p

/-- `find_crlf` and the test for the LF behind it. -/
def lineEndPtr (data : Bytes) (p : ℕ) : Option (Option ℕ) := do
  match ← findCrlfPtr data p with
  | none => some none
  | some lineEnd =>
    if data.length ≤ lineEnd + 1 then some none
    else do
      let c ← data[lineEnd + 1]?
      some (if c = lf then some lineEnd else none)

structure LineViews where
  method : StringView
  path : StringView
  query : StringView
  version : StringView

/-- Method, path, optional query and version. -/
def requestLinePtr (data : Bytes) (lineEnd : ℕ) : Option (Option LineViews) := do
  let methodEnd ← scan data (· != space) lineEnd 0
  if methodEnd = lineEnd then some none
  else do
    let pathStart := methodEnd + 1
    let pathEnd ← scan data (fun c => c != questionMark && c != space) lineEnd pathStart
    if pathEnd = lineEnd then some none
    else do
      let c ← data[pathEnd]?
      if c = questionMark then do
        let queryStart := pathEnd + 1
        let queryEnd ← scan data (· != space) lineEnd queryStart
        if queryEnd = lineEnd then some none
        else some (some ⟨.between 0 methodEnd, .between pathStart pathEnd,
          .between queryStart queryEnd, .between (queryEnd + 1) lineEnd⟩)
      else some (some ⟨.between 0 methodEnd, .between pathStart pathEnd,
        .between pathEnd pathEnd, .between (pathEnd + 1) lineEnd⟩)

/-- The `switch` of `parseMethod` on the first letter and the size. -/
def methodOf (c : UInt8) (size : ℕ) : Method :=
  if c = 71 then .get
  else if c = 80 then
    match size with
    | 3 => .put
    | 4 => .post
    | 5 => .patch
    | _ => .unknown
  else if c = 72 then .head
  else if c = 68 then .delete
  else if c = 79 then .options
  else .unknown

def parseMethodPtr (data : Bytes) (m : StringView) : Option Method :=
  if m.length = 0 then some .unknown
  else do
    let c ← data[m.start]?
    some (methodOf c m.length.toNat)

def iequalsLoopPtr (data : Bytes) : ℕ → Bytes → Option Bool
  | _, [] => some true
  | p, b :: bs => do
    let a ← data[p]?
    if a ||| 32 ≠ b ||| 32 then some false else iequalsLoopPtr data (p + 1) bs

def iequalsSmallPtr (data : Bytes) (v vlen : ℕ) (b : Bytes) : Option Bool :=
  if vlen ≠ b.length then some false else iequalsLoopPtr data v b

def atoiPtr (data : Bytes) : ℕ → ℕ → UInt64 → Option UInt64
  | 0, _, result => some result
  | len + 1, p, result => do
    let c ← data[p]?
    if c < 48 || c > 57 then some result
    else atoiPtr data len (p + 1) (result * 10 + (c - 48).toUInt64)

def connectionPtr (data : Bytes) (v vlen : ℕ) (keepAlive : Bool) : Option Bool := do
  let closes ← iequalsSmallPtr data v vlen closeConnHeader
  if closes then some false
  else do
    let keeps ← iequalsSmallPtr data v vlen keepAliveHeader
    some (if keeps then true else keepAlive)

/-- `HeaderScan` with the headers as views, in the order of the calls of `addHeader`. -/
structure PtrScan where
  headers : List (HeaderType × StringView)
  keepAlive : Bool
  contentLength : UInt64
  hasContentLen : Bool

/-- `v = colon + 1; if (v < hEnd && *v == ' ') ++v;` -/
def valueStartPtr (data : Bytes) (colonEnd hEnd : ℕ) : Option ℕ :=
  if colonEnd + 1 < hEnd then do
    let c ← data[colonEnd + 1]?
    some (if c = space then colonEnd + 2 else colonEnd + 1)
  else some (colonEnd + 1)

/-- The `case` of Connection. -/
def keepAlivePtr (data : Bytes) (key : HeaderType) (v vlen : ℕ) (keepAlive : Bool) :
    Option Bool :=
  if key = .connection then connectionPtr data v vlen keepAlive else some keepAlive

def contentLengthPtr (data : Bytes) (key : HeaderType) (v vlen : ℕ) (contentLength : UInt64) :
    Option UInt64 :=
  if key = .contentLength then atoiPtr data vlen v 0 else some contentLength

/-- One header line from p to `hEnd`; the inner `none` is the return over the limit. -/
def headerLinePtr (settings : SettingsData) (data : Bytes) (p hEnd : ℕ) (st : PtrScan) :
    Option (Option PtrScan) := do
  let colonEnd ← scan data (· != colon) hEnd p
  if colonEnd = hEnd then some (some st)
  else do
    let key := headerKey (colonEnd - p)
    let v ← valueStartPtr data colonEnd hEnd
    let keepAlive ← keepAlivePtr data key v (hEnd - v) st.keepAlive
    let contentLength ← contentLengthPtr data key v (hEnd - v) st.contentLength
    if key = .contentLength ∧ contentLength > settings.maxBodySize then some none
    else some (some
      { headers := st.headers ++ [(key, .between v hEnd)]
        keepAlive := keepAlive
        contentLength := contentLength
        hasContentLen := st.hasContentLen || key = .contentLength })

/-- `p + 1 < end && p[0] == '\\r' && p[1] == '\\n'` -/
def blankPtr (data : Bytes) (p : ℕ) : Option Bool :=
  if p + 1 < data.length then do
    let c ← data[p]?
    if c = cr then do
      let d ← data[p + 1]?
      some (d = lf)
    else some false
  else some false

/-- The header loop. Both a bad read and a loop that is not done after so many turns have
no result; the inner `none` is a return with `false`. -/
def headerLoopPtr (settings : SettingsData) (data : Bytes) :
    ℕ → ℕ → PtrScan → Option (Option ℕ × PtrScan)
  | 0, _, _ => none
  | turns + 1, p, st =>
    if p < data.length then do
      let blank ← blankPtr data p
      if blank then some (some (p + 2), st)
      else do
        match ← lineEndPtr data p with
        | none => some (none, st)
        | some hEnd =>
          match ← headerLinePtr settings data p hEnd st with
          | none => some (none, st)
          | some st => headerLoopPtr settings data turns (hEnd + 2) st
    else some (some p, st)

/-- What one attempt stores, and how far it reads. -/
structure PtrOutcome where
  line : Option (Method × LineViews)
  scan : PtrScan
  body : Option StringView
  consumed : Option ℕ

def startPtrScan : PtrScan := ⟨[], true, 0, false⟩

/-- The body, whose end is computed in wrapping 64-bit arithmetic. -/
def takeBodyPtr (data : Bytes) (line : Method × LineViews) (p : ℕ) (st : PtrScan) : PtrOutcome :=
  if st.hasContentLen ∧ st.contentLength > 0 then
    let total := (UInt64.ofNat p + st.contentLength).toNat
    if data.length < total then ⟨some line, st, none, none⟩
    else ⟨some line, st, some ⟨p, st.contentLength.toNat⟩, some total⟩
  else ⟨some line, st, none, some p⟩

def parsePtr (settings : SettingsData) (data : Bytes) : Option PtrOutcome :=
  if data.length < minRequestSize then some ⟨none, startPtrScan, none, none⟩
  else do
    match ← lineEndPtr data 0 with
    | none => some ⟨none, startPtrScan, none, none⟩
    | some lineEnd =>
      match ← requestLinePtr data lineEnd with
      | none => some ⟨none, startPtrScan, none, none⟩
      | some views => do
        let method ← parseMethodPtr data views.method
        let (stop, st) ← headerLoopPtr settings data
          (data.length - (lineEnd + 2) + 1) (lineEnd + 2) startPtrScan
        match stop with
        | none => some ⟨some (method, views), st, none, none⟩
        | some p => some (takeBodyPtr data (method, views) p st)

namespace StringView

theorem bytes_between {p q : ℕ} (data : Bytes) (h : p ≤ q) :
    (between p q).bytes data = slice data p q := by
  have hlength : ((q : ℤ) - p).toNat = q - p := by omega
  unfold between bytes slice
  rw [hlength]

theorem inside_between {p q n : ℕ} (h : p ≤ q) (hn : q ≤ n) : (between p q).Inside n := by
  unfold Inside between
  dsimp only
  omega

theorem Inside.mono {v : StringView} {m n : ℕ} (h : v.Inside m) (hn : m ≤ n) : v.Inside n := by
  unfold Inside at *
  omega

end StringView

variable {data : Bytes} {p hEnd lineEnd : ℕ}

theorem scalarTailPtr_eq (hp : p ≤ data.length) :
    scalarTailPtr data p = some (scalarTail (data.drop p) p) := by
  have hscan := scan_eq data (· != cr) hp (Nat.le_refl _)
  unfold scalarTailPtr
  rw [hscan, slice_length]
  simp only [Option.bind_eq_bind, Option.bind_some, Option.some.injEq]
  rcases exists_first_cr (data.drop p) with hnone | ⟨pre, post, heq, hpre⟩
  · have hall : (data.drop p).takeWhile (· != cr) = data.drop p := by
      rw [List.takeWhile_eq_self_iff]
      intro c hc
      exact bne_iff_ne.mpr fun heq => hnone (heq ▸ hc)
    rw [scalarTail_of_notMem _ _ hnone, hall, List.length_drop, if_neg (by omega)]
  · have hlen := congrArg List.length heq
    rw [List.length_drop, List.length_append, List.length_cons] at hlen
    have hbefore : (data.drop p).takeWhile (· != cr) = pre := by
      rw [heq]
      exact HttpMessage.takeWhile_append_stop pre post hpre
    rw [hbefore, heq, scalarTail_append _ _ _ hpre, if_pos (by omega)]

/-- The blocks of sixteen bytes are loaded inside the received bytes. -/
theorem vectorLoopPtr_eq (turns : ℕ) (hp : p ≤ data.length) :
    vectorLoopPtr data turns p = some (vectorLoop turns (data.drop p) p) := by
  induction turns generalizing p with
  | zero => exact scalarTailPtr_eq hp
  | succ turns ih =>
    rw [vectorLoopPtr, vectorLoop, List.length_drop]
    by_cases hblock : 16 ≤ data.length - p
    · have hload : loadBlock data p = some ((data.drop p).take 16) := if_pos (by omega)
      rw [if_pos hblock, if_pos hblock, hload]
      simp only [Option.bind_eq_bind, Option.bind_some]
      split_ifs
      · rfl
      · rw [ih (by omega), List.drop_drop]
    · rw [if_neg hblock, if_neg hblock]
      exact scalarTailPtr_eq hp

theorem findCrlfPtr_eq (hp : p ≤ data.length) :
    findCrlfPtr data p = some ((findCrlf (data.drop p)).map (p + ·)) := by
  rw [findCrlfPtr, vectorLoopPtr_eq _ hp]
  rcases exists_first_cr (data.drop p) with hnone | ⟨pre, post, heq, hpre⟩
  · rw [vectorLoop_of_notMem _ _ _ hnone, findCrlf_of_notMem _ hnone]
    rfl
  · rw [heq, vectorLoop_append _ _ _ _ hpre, findCrlf_append _ _ hpre]
    rfl

theorem findCrlf_lt {n : ℕ} (h : findCrlf data = some n) : n < data.length := by
  rcases exists_first_cr data with hnone | ⟨pre, post, rfl, hpre⟩
  · rw [findCrlf_of_notMem _ hnone] at h
    simp at h
  · rw [findCrlf_append _ _ hpre] at h
    rw [← Option.some.inj h, List.length_append, List.length_cons]
    omega

/-- The look-ahead behind the CR stays inside, and a line ends where `firstLine` ends it. -/
theorem lineEndPtr_spec (data : Bytes) {p : ℕ} (hp : p ≤ data.length) :
    ∃ r, lineEndPtr data p = some r ∧
      firstLine (data.drop p) = r.map (fun e => (slice data p e, data.drop (e + 2))) ∧
      ∀ e ∈ r, p ≤ e ∧ e + 2 ≤ data.length := by
  unfold lineEndPtr firstLine
  rw [findCrlfPtr_eq hp]
  simp only [Option.bind_eq_bind, Option.bind_some]
  cases hfind : findCrlf (data.drop p) with
  | none => exact ⟨none, rfl, rfl, by simp⟩
  | some n =>
    have hn := findCrlf_lt hfind
    rw [List.length_drop] at hn
    simp only [Option.map_some, List.length_drop]
    by_cases hlast : data.length ≤ p + n + 1
    · refine ⟨none, if_pos hlast, ?_, by simp⟩
      rw [if_pos (Or.inl (by omega))]
      rfl
    · have hlt : p + n + 1 < data.length := by omega
      have hread : data[p + n + 1]? = some data[p + n + 1] := List.getElem?_eq_getElem hlt
      have hgetD : (data.drop p).getD (n + 1) 0 = data[p + n + 1] := by
        rw [List.getD_eq_getElem?_getD, List.getElem?_drop, show p + (n + 1) = p + n + 1 by omega,
          hread]
        rfl
      rw [if_neg hlast, hread, hgetD]
      simp only [Option.bind_some]
      by_cases hlf : data[p + n + 1] = lf
      · refine ⟨some (p + n), by rw [if_pos hlf], ?_, ?_⟩
        · rw [if_neg (by rw [not_or, not_not]; exact ⟨by omega, hlf⟩), List.drop_drop]
          simp only [Option.map_some, Option.some.injEq, Prod.mk.injEq, slice,
            Nat.add_sub_cancel_left, true_and]
          congr 1
        · intro e he
          obtain rfl := Option.some.inj he
          omega
      · refine ⟨none, by rw [if_neg hlf], ?_, by simp⟩
        rw [if_pos (Or.inr hlf)]
        rfl

def LineViews.requestLine (data : Bytes) (views : LineViews) : RequestLine :=
  ⟨views.method.bytes data, views.path.bytes data, views.query.bytes data,
    views.version.bytes data⟩

def LineViews.all (views : LineViews) : List StringView :=
  [views.method, views.path, views.query, views.version]

/-- One token: where the scan stops, what it passes and what is left behind its delimiter. -/
theorem scan_token (go : UInt8 → Bool) (hp : p ≤ lineEnd) (hend : lineEnd ≤ data.length) :
    ∃ q, scan data go lineEnd p = some q ∧ p ≤ q ∧ q ≤ lineEnd ∧
      (slice data p lineEnd).takeWhile go = slice data p q ∧
      (slice data p q).length = q - p ∧ (slice data p lineEnd).length = lineEnd - p ∧
      (slice data p lineEnd).drop (q - p + 1) = slice data (q + 1) lineEnd := by
  refine ⟨_, scan_eq data go hp hend, Nat.le_add_right _ _, scan_le go hp hend,
    takeWhile_slice go hp hend, length_slice ((scan_le go hp hend).trans hend),
    length_slice hend, ?_⟩
  rw [drop_slice]
  congr 1
  omega

theorem read_delimiter {q : ℕ} (hp : p ≤ q) (hq : q < lineEnd) (hend : lineEnd ≤ data.length) :
    ∃ c, data[q]? = some c ∧ (slice data p lineEnd).getD (q - p) 0 = c := by
  obtain ⟨c, hc, hslice⟩ := slice_eq_cons data hq hend
  have hdrop := drop_slice data p lineEnd (q - p)
  rw [Nat.add_sub_of_le hp, hslice] at hdrop
  refine ⟨c, hc, ?_⟩
  rw [List.getD_eq_getElem?_getD, ← List.head?_drop, hdrop]
  rfl

theorem requestLinePtr_spec (data : Bytes) (lineEnd : ℕ) (hend : lineEnd ≤ data.length) :
    ∃ r, requestLinePtr data lineEnd = some r ∧
      splitRequestLine (slice data 0 lineEnd) = r.map (LineViews.requestLine data) ∧
      ∀ views ∈ r, ∀ v ∈ views.all, v.Inside lineEnd := by
  unfold requestLinePtr splitRequestLine
  obtain ⟨m, hm, -, hmle, hmethod, hmlen, hlen, hbehind⟩ :=
    scan_token (· != space) (Nat.zero_le lineEnd) hend
  rw [Nat.sub_zero] at hmlen hlen hbehind
  simp only [hm, Option.bind_eq_bind, Option.bind_some, hmethod, hmlen, hlen, hbehind]
  by_cases hmend : m = lineEnd
  · exact ⟨none, if_pos hmend, if_pos hmend, by simp⟩
  rw [if_neg hmend, if_neg hmend]
  obtain ⟨q, hq, hmq, hqle, hpath, hqlen, htlen, hqbehind⟩ :=
    scan_token (fun c => c != questionMark && c != space) (show m + 1 ≤ lineEnd by omega) hend
  simp only [hq, Option.bind_some, hpath, hqlen, htlen, hqbehind]
  by_cases hqend : q = lineEnd
  · exact ⟨none, if_pos hqend, if_pos (by rw [hqend]), by simp⟩
  rw [if_neg hqend, if_neg (by omega)]
  obtain ⟨c, hc, hget⟩ := read_delimiter hmq (show q < lineEnd by omega) hend
  simp only [hc, Option.bind_some, hget]
  have hmbytes := StringView.bytes_between data (Nat.zero_le m)
  have hpbytes := StringView.bytes_between data (show m + 1 ≤ q from hmq)
  have hminside := StringView.inside_between (Nat.zero_le m) hmle
  have hpinside := StringView.inside_between hmq hqle
  by_cases hmark : c = questionMark
  · obtain ⟨u, hu, hqu, hule, hquery, hulen, hvlen, hubehind⟩ :=
      scan_token (· != space) (show q + 1 ≤ lineEnd by omega) hend
    rw [if_pos hmark, if_pos hmark]
    simp only [hu, Option.bind_some, hquery, hulen, hvlen, hubehind]
    by_cases huend : u = lineEnd
    · exact ⟨none, if_pos huend, if_pos (by rw [huend]), by simp⟩
    rw [if_neg huend, if_neg (by omega)]
    refine ⟨_, rfl, ?_, fun views hviews => ?_⟩
    · simp only [Option.map_some, LineViews.requestLine, hmbytes, hpbytes,
        StringView.bytes_between data hqu,
        StringView.bytes_between data (show u + 1 ≤ lineEnd by omega)]
    · obtain rfl := Option.some.inj hviews
      simp only [LineViews.all, List.forall_mem_cons]
      exact ⟨hminside, hpinside, StringView.inside_between hqu hule,
        StringView.inside_between (by omega) (Nat.le_refl _), by simp⟩
  · rw [if_neg hmark, if_neg hmark]
    refine ⟨_, rfl, ?_, fun views hviews => ?_⟩
    · simp only [Option.map_some, LineViews.requestLine, hmbytes, hpbytes,
        StringView.bytes_between data (Nat.le_refl q), slice_of_le (Nat.le_refl q),
        StringView.bytes_between data (show q + 1 ≤ lineEnd by omega)]
    · obtain rfl := Option.some.inj hviews
      simp only [LineViews.all, List.forall_mem_cons]
      exact ⟨hminside, hpinside, StringView.inside_between (Nat.le_refl q) hqle,
        StringView.inside_between (by omega) (Nat.le_refl _), by simp⟩

theorem parseMethod_cons (c : UInt8) (cs : Bytes) :
    HttpRequest.parseMethod (c :: cs) = methodOf c (cs.length + 1) := rfl

theorem parseMethodPtr_eq {v : StringView} (hv : v.Inside data.length) :
    parseMethodPtr data v = some (HttpRequest.parseMethod (v.bytes data)) := by
  obtain ⟨hpos, hle⟩ := hv
  unfold parseMethodPtr
  by_cases hzero : v.length = 0
  · have hempty : v.bytes data = [] := by
      rw [StringView.bytes, hzero]
      exact List.take_zero
    rw [if_pos hzero, hempty]
    rfl
  · have hlt : v.start < data.length := by omega
    obtain ⟨n, hn⟩ : ∃ n, v.length.toNat = n + 1 := ⟨v.length.toNat - 1, by omega⟩
    have hlen : ((data.drop (v.start + 1)).take n).length = n := by
      rw [List.length_take, List.length_drop]
      omega
    have hbytes : v.bytes data = data[v.start] :: (data.drop (v.start + 1)).take n := by
      rw [StringView.bytes, List.drop_eq_getElem_cons hlt, hn, List.take_succ_cons]
    rw [if_neg hzero, List.getElem?_eq_getElem hlt, hbytes, hn, parseMethod_cons, hlen]
    simp only [Option.bind_eq_bind, Option.bind_some]

end WarpApi

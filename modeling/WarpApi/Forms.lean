import WarpApi.QueryParams
import WarpApi.RequestRoundTrip

/-!
Forms on their way from a client to the parameters of its request. The client writes the
pairs of a form into the query with `Conversions::urlEncode`, the parser cuts the query out
of the request line, and `extractQueryParams`, where it is called, takes the pairs out of
it. They stay apart and in order, but of a byte that is escaped on the way nothing is left.
-/
namespace WarpApi

open LastWrite

/-- A pair of a form as it stands in a query. -/
def pairBytes (p : Bytes × Bytes) : Bytes := urlEncode p.1 ++ equalsSign :: urlEncode p.2

def formBytes (form : List (Bytes × Bytes)) : Bytes :=
  [ampersand].intercalate (form.map pairBytes)

/-- What the server sees of a pair: every byte that is escaped is a NUL. -/
def arrivedPair (p : Bytes × Bytes) : Bytes × Bytes :=
  (p.1.map throughCoding, p.2.map throughCoding)

theorem mem_urlEncode {c : UInt8} {s : Bytes} (h : c ∈ urlEncode s) :
    isUnreserved c = true ∨ c = percent := by
  have hdigit : ∀ n, isUnreserved (hexDigits.getD n 0) = true ∨ 16 ≤ n := by
    intro n
    by_cases hn : n < 16
    · have hall : ∀ i : Fin 16, isUnreserved (hexDigits.getD i.val 0) = true := by decide
      exact Or.inl (hall ⟨n, hn⟩)
    · exact Or.inr (Nat.le_of_not_lt hn)
  obtain ⟨b, -, hc⟩ := List.mem_flatMap.mp h
  have hhigh : (b >>> 4).toNat < 16 := by
    have hlt := b.toNat_lt
    rw [UInt8.toNat_shiftRight, show (4 : UInt8).toNat % 8 = 4 from rfl, Nat.shiftRight_eq_div_pow]
    omega
  have hlow : (b &&& 0xF).toNat < 16 := by
    have hle : b.toNat &&& 15 ≤ 15 := Nat.and_le_right
    rw [UInt8.toNat_and, show (0xF : UInt8).toNat = 15 from rfl]
    omega
  unfold urlEncodeByte at hc
  split_ifs at hc with hb
  · exact Or.inl (List.mem_singleton.mp hc ▸ hb)
  · simp only [List.mem_cons, List.not_mem_nil, or_false] at hc
    rcases hc with rfl | rfl | rfl
    · exact Or.inr rfl
    · exact Or.inl ((hdigit _).resolve_right (Nat.not_le_of_lt hhigh))
    · exact Or.inl ((hdigit _).resolve_right (Nat.not_le_of_lt hlow))

theorem notMem_urlEncode {c : UInt8} (s : Bytes) (hc : isUnreserved c = false)
    (hpercent : c ≠ percent) : c ∉ urlEncode s := by
  intro hmem
  rcases mem_urlEncode hmem with hun | heq
  · exact absurd (hc.symm.trans hun) Bool.false_ne_true
  · exact hpercent heq

theorem notMem_pairBytes {c : UInt8} (p : Bytes × Bytes) (hc : isUnreserved c = false)
    (hpercent : c ≠ percent) (hequals : c ≠ equalsSign) : c ∉ pairBytes p := by
  intro hmem
  rcases List.mem_append.mp hmem with hmem | hmem
  · exact notMem_urlEncode _ hc hpercent hmem
  · rcases List.mem_cons.mp hmem with heq | hmem
    · exact hequals heq
    · exact notMem_urlEncode _ hc hpercent hmem

theorem notMem_formBytes {c : UInt8} (form : List (Bytes × Bytes)) (hc : isUnreserved c = false)
    (hpercent : c ≠ percent) (hequals : c ≠ equalsSign) (hand : c ≠ ampersand) :
    c ∉ formBytes form := by
  have hpair : ∀ p, c ∉ pairBytes p := fun p => notMem_pairBytes p hc hpercent hequals
  unfold formBytes
  induction form with
  | nil => exact List.not_mem_nil
  | cons p form ih =>
    by_cases hform : form = []
    · rw [hform, List.map_singleton, List.intercalate_singleton]
      exact hpair p
    · rw [List.map_cons, List.intercalate_cons_of_ne_nil (by simpa using hform)]
      intro hmem
      rcases List.mem_append.mp hmem with hmem | hmem
      · rcases List.mem_append.mp hmem with hmem | hmem
        · exact hpair p hmem
        · exact hand (List.mem_singleton.mp hmem)
      · exact ih hmem

theorem pairBytes_ne_nil (p : Bytes × Bytes) : pairBytes p ≠ [] :=
  List.append_ne_nil_of_right_ne_nil _ (List.cons_ne_nil _ _)

theorem pairOf_pairBytes (p : Bytes × Bytes) : pairOf (pairBytes p) = arrivedPair p := by
  have hkey : (pairBytes p).takeWhile (· != equalsSign) = urlEncode p.1 :=
    HttpMessage.takeWhile_append_stop _ _ (notMem_urlEncode p.1 (by decide) (by decide))
  have hvalue : (pairBytes p).drop ((urlEncode p.1).length + 1) = urlEncode p.2 :=
    drop_length_append_cons _ _ _
  rw [pairOf, hkey, hvalue, urlDecode_urlEncode, urlDecode_urlEncode]
  rfl

/-- The loop reaches every pair of the form. -/
theorem reached_formBytes (form : List (Bytes × Bytes)) :
    (reached ((formBytes form).splitOn ampersand)).map pairOf = form.map arrivedPair := by
  by_cases hform : form = []
  · subst hform
    rfl
  · have hsplit : (formBytes form).splitOn ampersand = form.map pairBytes := by
      refine List.splitOn_intercalate ampersand (fun part hpart => ?_) (by simpa using hform)
      obtain ⟨p, -, rfl⟩ := List.mem_map.mp hpart
      exact notMem_pairBytes p (by decide) (by decide) (by decide)
    have hlast : (form.map pairBytes).getLast? ≠ some [] := by
      intro hnil
      obtain ⟨p, -, hp⟩ := List.mem_map.mp (List.mem_of_getLast? hnil)
      exact pairBytes_ne_nil p hp
    rw [hsplit, reached, if_neg hlast, List.map_map]
    exact List.map_congr_left fun p _ => pairOf_pairBytes p

/-- A request with a form in its query, and the bytes that have arrived behind it. -/
structure FormRequest (settings : SettingsData) where
  request : PlainRequest settings
  form : List (Bytes × Bytes)
  behind : Bytes
  query_eq : request.query = some (formBytes form)
  size_lt : request.bytes.length < 2 ^ 64

namespace FormRequest

variable {settings : SettingsData} (r : FormRequest settings)

/-- The request object that a connection uses again for every request is reset, filled
from the bytes and asked for the parameters. -/
def arrive (req : HttpRequest) : HttpRequest :=
  (parseBytes settings (r.request.bytes ++ r.behind) req.reset true).req.extractQueryParams

theorem parsed (req : HttpRequest) (keepAlive : Bool) :
    let parsed := (parseBytes settings (r.request.bytes ++ r.behind) req keepAlive).req
    parsed.data.query = formBytes r.form ∧ parsed.data.queryParams = req.data.queryParams := by
  refine ⟨?_, queryParams_parseBytes ..⟩
  have hparse := (r.request.complete r.size_lt).parseBytes_bytes r.behind req keepAlive
    (r.request.minRequestSize_le r.behind)
  have hbytes : (r.request.complete r.size_lt).bytes = r.request.bytes := rfl
  rw [hbytes] at hparse
  have hview := r.request.head.view_result req (UInt64.ofNat r.request.body.length) r.request.body
  have hquery : r.request.query.getD [] = formBytes r.form := by
    rw [r.query_eq]
    rfl
  rw [hparse]
  exact (congrArg RequestView.query hview).trans hquery

theorem queryParams_arrive (req : HttpRequest) :
    (r.arrive req).data.queryParams =
      assignAll req.data.queryParams (r.form.map arrivedPair) := by
  obtain ⟨hquery, hparams⟩ := r.parsed req.reset true
  rw [arrive, HttpRequest.queryParams_extract, hquery, hparams, reached_formBytes]
  rfl

end FormRequest

/-- Any form can be sent: no byte of its encoding would end the query. -/
def formRequest (settings : SettingsData) (form : List (Bytes × Bytes)) :
    PlainRequest settings where
  method := ascii "GET"
  path := ascii "/form"
  query := some (formBytes form)
  linesBefore := []
  sized := false
  linesAfter := []
  body := []
  method_ne := by decide
  method_ok := by decide
  path_ne := by decide
  path_ok := by decide
  query_ok := by
    intro q hq
    obtain rfl := Option.some.inj hq
    exact ⟨notMem_formBytes form (by decide) (by decide) (by decide) (by decide),
      notMem_formBytes form (by decide) (by decide) (by decide) (by decide)⟩
  lines_ok := fun _ hline => absurd hline List.not_mem_nil
  body_ok := rfl

/-- The forms of a connection, one request after the other: behind the last one the map
holds under every key the last value that any of them gave to it, as far as it arrived. -/
theorem forms_arrive (settings : SettingsData) (rs : List (FormRequest settings)) :
    let params := (rs.foldl (fun req r => r.arrive req) HttpRequest.init).data.queryParams
    (params.map Prod.fst).Nodup ∧
      ∀ k v, (k, v) ∈ params ↔
        lastValue k (rs.flatMap fun r => r.form.map arrivedPair) = some v := by
  have hparams : ∀ req : HttpRequest,
      (rs.foldl (fun req r => r.arrive req) req).data.queryParams =
        assignAll req.data.queryParams (rs.flatMap fun r => r.form.map arrivedPair) := by
    induction rs with
    | nil => exact fun req => rfl
    | cons r rs ih =>
      intro req
      rw [List.foldl_cons, ih, r.queryParams_arrive, List.flatMap_cons, assignAll, assignAll,
        assignAll, List.foldl_append]
  dsimp only
  rw [hparams]
  refine ⟨nodup_assignAll _ _ List.nodup_nil, fun k v => ?_⟩
  rw [mem_assignAll_iff]
  exact or_iff_left fun h => absurd h.2 List.not_mem_nil

/-- The space of the value has become a NUL. -/
example :
    (FormRequest.arrive ⟨formRequest configJson [(ascii "a", ascii "b c"), (ascii "d", [])], _, [],
      rfl, by decide +kernel⟩ HttpRequest.init).data.queryParams =
        [(ascii "a", [98, 0, 99]), (ascii "d", [])] := by
  decide +kernel

end WarpApi

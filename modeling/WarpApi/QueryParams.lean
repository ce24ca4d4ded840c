import WarpApi.Conversions
import WarpApi.Request
import WarpApi.Library.LastWrite
import WarpApi.Library.HttpMessage

/-!
`HttpRequest::extractQueryParams`. The map of parameters belongs to the request object,
and neither `RequestData::clear` nor the extraction empties it, so what earlier queries
put there stays. The loop ends where nothing is left of the query: it does not see an
empty piece at the end, but every other empty piece sets the empty key.
-/
namespace WarpApi

open LastWrite

def ampersand : UInt8 := 38
def equalsSign : UInt8 := 61

/-- A piece of the query, cut at its first '=' and decoded. -/
def pairOf (part : Bytes) : Bytes × Bytes :=
  let k := part.takeWhile (· != equalsSign)
  (urlDecode k, urlDecode (part.drop (k.length + 1)))

/-- The loop over what is left of the query. Each turn takes at least one byte, so the
number of bytes bounds the number of turns. -/
def extractLoop : ℕ → Bytes → List (Bytes × Bytes) → List (Bytes × Bytes)
  | 0, _, params => params
  | turns + 1, target, params =>
    if target.isEmpty then params
    else
      let part := target.takeWhile (· != ampersand)
      extractLoop turns (target.drop (part.length + 1))
        (assign params (pairOf part).1 (pairOf part).2)

def HttpRequest.extractQueryParams (r : HttpRequest) : HttpRequest :=
  { r with data := { r.data with
    queryParams := extractLoop r.data.query.length r.data.query r.data.queryParams } }

/-- A call on a request object. -/
inductive RequestCall
  | setMethod (method : Method)
  | setPath (path query : Bytes)
  | setVersion (version : Bytes)
  | setBody (body : Bytes)
  | addHeader (key : HeaderType) (value : Bytes)
  | addPresent (key : HeaderType)
  | extractQueryParams
  | reset

def HttpRequest.call (r : HttpRequest) : RequestCall → HttpRequest
  | .setMethod method => r.setMethod method
  | .setPath path query => r.setPath path query
  | .setVersion version => r.setVersion version
  | .setBody body => r.setBody body
  | .addHeader key value => r.addHeader key value
  | .addPresent key => r.addPresent key
  | .extractQueryParams => r.extractQueryParams
  | .reset => r.reset

/-- A request object behind these calls. -/
def HttpRequest.used (calls : List RequestCall) : HttpRequest :=
  calls.foldl HttpRequest.call HttpRequest.init

def pairsOf (pieces : List Bytes) : List (Bytes × Bytes) :=
  (pieces.filter (· ≠ [])).map pairOf

/-- The parameters of a query, cut at the '&'s. -/
def parameters (query : Bytes) : List (Bytes × Bytes) := pairsOf (query.splitOn ampersand)

/-- The map holds exactly the parameters of the query, each with its last value. -/
structure HoldsParameters (query : Bytes) (params : List (Bytes × Bytes)) : Prop where
  keys : (params.map Prod.fst).Nodup
  entries : ∀ k v, (k, v) ∈ params ↔ lastValue k (parameters query) = some v

/-- The pieces that the loop reaches. -/
def reached (pieces : List Bytes) : List Bytes :=
  if pieces.getLast? = some [] then pieces.dropLast else pieces

/-- Every empty piece is made up for by the others: a later piece gives the empty key its
value, or that value is empty anyway. -/
def MadeUpFor (pieces : List Bytes) : Prop :=
  ∀ before after, pieces = before ++ [] :: after →
    (∃ p ∈ after, p ≠ [] ∧ (pairOf p).1 = []) ∨ lastValue [] (pairsOf pieces) = some []

def extractedBy (r : HttpRequest) : RequestCall → List Bytes
  | .extractQueryParams => (reached (r.data.query.splitOn ampersand)).map fun p => (pairOf p).1
  | _ => []

def extractedKeys : HttpRequest → List RequestCall → List Bytes
  | _, [] => []
  | r, c :: calls => extractedBy r c ++ extractedKeys (r.call c) calls

theorem splitOn_of_notMem {target : Bytes} (h : ampersand ∉ target) :
    target.splitOn ampersand = [target] := List.splitOn_eq_singleton h

theorem reached_singleton {part : Bytes} (h : part ≠ []) : reached [part] = [part] := by
  rw [reached, if_neg (by simpa using h)]

theorem reached_cons (part : Bytes) {pieces : List Bytes} (h : pieces ≠ []) :
    reached (part :: pieces) = part :: reached pieces := by
  unfold reached
  rw [List.getLast?_cons_of_ne_nil h, List.dropLast_cons_of_ne_nil h]
  split <;> rfl

/-- The loop assigns the pairs of the pieces that it reaches, one after the other. -/
theorem extractLoop_eq (turns : ℕ) (target : Bytes) (params : List (Bytes × Bytes))
    (hturns : target.length ≤ turns) :
    extractLoop turns target params =
      assignAll params ((reached (target.splitOn ampersand)).map pairOf) := by
  induction turns generalizing target params with
  | zero =>
    obtain rfl := List.length_eq_zero_iff.mp (Nat.le_zero.mp hturns)
    rfl
  | succ turns ih =>
    rw [extractLoop]
    by_cases hempty : target = []
    · subst hempty
      rfl
    · rw [if_neg (by simpa using hempty)]
      by_cases hmem : ampersand ∈ target
      · obtain ⟨part, rest, rfl, hpart⟩ := List.eq_append_cons_of_mem hmem
        have htake : (part ++ ampersand :: rest).takeWhile (· != ampersand) = part :=
          HttpMessage.takeWhile_append_stop part rest hpart
        have hdrop : (part ++ ampersand :: rest).drop (part.length + 1) = rest := by
          simp [List.drop_append]
        rw [List.splitOn_append_cons_self_of_not_mem hpart,
          reached_cons part (List.splitOn_ne_nil _ _)]
        dsimp only
        rw [htake, hdrop, ih rest _ (by simp at hturns; omega)]
        rfl
      · have htake : target.takeWhile (· != ampersand) = target := by
          rw [List.takeWhile_eq_self_iff]
          intro c hc
          have hne : c ≠ ampersand := fun heq => hmem (heq ▸ hc)
          simpa using hne
        have hrest : target.drop (target.length + 1) = [] := List.drop_eq_nil_of_le (by omega)
        dsimp only
        rw [htake, hrest, ih [] _ (Nat.zero_le _), splitOn_of_notMem hmem,
          reached_singleton hempty]
        rfl

theorem filter_reached (pieces : List Bytes) :
    (reached pieces).filter (· ≠ []) = pieces.filter (· ≠ []) := by
  unfold reached
  split
  · rename_i hlast
    have hsplit : pieces = pieces.dropLast ++ [[]] := by
      obtain ⟨front, hfront⟩ := List.getLast?_eq_some_iff.mp hlast
      rw [hfront, List.dropLast_concat]
    conv_rhs => rw [hsplit, List.filter_append]
    simp
  · rfl

theorem pairsOf_reached (query : Bytes) :
    pairsOf (reached (query.splitOn ampersand)) = parameters query := by
  rw [pairsOf, filter_reached]
  rfl

theorem pairsOf_concat (pieces : List Bytes) (p : Bytes) :
    pairsOf (pieces ++ [p]) = pairsOf pieces ++ if p = [] then [] else [pairOf p] := by
  unfold pairsOf
  rw [List.filter_append, List.map_append]
  by_cases hp : p = [] <;> simp [hp]

theorem lastValue_of_ne_nil (pieces : List Bytes) {k : Bytes} (hk : k ≠ []) :
    lastValue k (pieces.map pairOf) = lastValue k (pairsOf pieces) := by
  induction pieces using List.reverseRecOn with
  | nil => rfl
  | append_singleton pieces p ih =>
    rw [List.map_append, List.map_singleton, pairsOf_concat, lastValue_append, lastValue_append, ih]
    by_cases hp : p = []
    · subst hp
      have hnone : lastValue k [pairOf []] = none := lastValue_singleton_of_ne hk.symm
      rw [hnone, if_pos rfl, lastValue_nil]
    · rw [if_neg hp]

theorem madeUpFor_concat_iff (pieces : List Bytes) {p : Bytes} (hp : p ≠ [])
    (hkey : (pairOf p).1 ≠ []) : MadeUpFor (pieces ++ [p]) ↔ MadeUpFor pieces := by
  have hvalue : lastValue [] (pairsOf (pieces ++ [p])) = lastValue [] (pairsOf pieces) := by
    have hnone : lastValue [] [pairOf p] = none := lastValue_singleton_of_ne hkey
    rw [pairsOf_concat, if_neg hp, lastValue_append, hnone, Option.none_or]
  unfold MadeUpFor
  rw [hvalue]
  constructor
  · rintro h before after rfl
    refine (h before (after ++ [p]) (by simp)).imp_left ?_
    rintro ⟨q, hq, hne, hnil⟩
    rcases List.mem_append.mp hq with hq | hq
    · exact ⟨q, hq, hne, hnil⟩
    · exact absurd (List.mem_singleton.mp hq ▸ hnil) hkey
  · intro h before after heq
    rcases List.eq_nil_or_concat after with rfl | ⟨front, q, rfl⟩
    · obtain ⟨-, hlast⟩ := List.append_inj' heq rfl
      exact absurd (List.cons.inj hlast).1 hp
    · have hfront : pieces = before ++ [] :: front := by
        rw [List.concat_eq_append, ← List.cons_append, ← List.append_assoc] at heq
        exact (List.append_inj' heq rfl).1
      refine (h before front hfront).imp_left ?_
      rintro ⟨r, hr, hboth⟩
      exact ⟨r, by rw [List.concat_eq_append]; exact List.mem_append_left _ hr, hboth⟩

/-- The empty key has the value that the query gives it exactly when no empty piece does
harm. -/
theorem lastValue_nil_iff (pieces : List Bytes) :
    lastValue [] (pieces.map pairOf) = lastValue [] (pairsOf pieces) ↔ MadeUpFor pieces := by
  induction pieces using List.reverseRecOn with
  | nil => exact ⟨fun _ before after heq => by simp at heq, fun _ => rfl⟩
  | append_singleton pieces p ih =>
    by_cases hp : p = []
    · subst hp
      have hset : lastValue [] ((pieces ++ [[]]).map pairOf) = some [] := by
        rw [List.map_append, List.map_singleton]
        exact lastValue_concat_self [] _ []
      rw [hset]
      constructor
      · exact fun heq before after _ => Or.inr heq.symm
      · intro h
        rcases h pieces [] rfl with ⟨q, hq, -⟩ | hvalue
        · exact absurd hq List.not_mem_nil
        · exact hvalue.symm
    · by_cases hkey : (pairOf p).1 = []
      · have hsame : lastValue [] ((pieces ++ [p]).map pairOf) =
            lastValue [] (pairsOf (pieces ++ [p])) := by
          have hpair : pairOf p = ([], (pairOf p).2) := Prod.ext hkey rfl
          rw [pairsOf_concat, if_neg hp, List.map_append, List.map_singleton, hpair,
            lastValue_concat_self, lastValue_concat_self]
        refine ⟨fun _ before after heq => Or.inl ⟨p, ?_, hp, hkey⟩, fun _ => hsame⟩
        rcases List.eq_nil_or_concat after with rfl | ⟨front, q, rfl⟩
        · obtain ⟨-, hlast⟩ := List.append_inj' heq rfl
          exact absurd (List.cons.inj hlast).1 hp
        · rw [List.concat_eq_append, ← List.cons_append, ← List.append_assoc] at heq
          obtain ⟨-, hlast⟩ := List.append_inj' heq rfl
          rw [(List.cons.inj hlast).1, List.concat_eq_append]
          exact List.mem_append_right _ (List.mem_singleton_self q)
      · rw [madeUpFor_concat_iff pieces hp hkey, ← ih, pairsOf_concat, if_neg hp, List.map_append,
          List.map_singleton, lastValue_append, lastValue_append]
        have hnone : lastValue [] [pairOf p] = none := lastValue_singleton_of_ne hkey
        rw [hnone, Option.none_or, Option.none_or]

namespace HttpRequest

theorem queryParams_extract (r : HttpRequest) :
    r.extractQueryParams.data.queryParams = assignAll r.data.queryParams
      ((reached (r.data.query.splitOn ampersand)).map pairOf) :=
  extractLoop_eq _ _ _ (Nat.le_refl _)

example : (init.setPath (ascii "/") (ascii "a=1&&b=2")).extractQueryParams.data.queryParams =
    [(ascii "a", ascii "1"), ([], []), (ascii "b", ascii "2")] := by decide +kernel

theorem queryParams_addHeader (r : HttpRequest) (key : HeaderType) (value : Bytes) :
    (r.addHeader key value).data.queryParams = r.data.queryParams := by
  unfold addHeader
  split_ifs <;> rfl

theorem keys_call (r : HttpRequest) (c : RequestCall)
    (hkeys : (r.data.queryParams.map Prod.fst).Nodup) :
    (((r.call c).data.queryParams).map Prod.fst).Nodup ∧
      ∀ k, k ∈ (r.call c).data.queryParams.map Prod.fst ↔
        k ∈ r.data.queryParams.map Prod.fst ∨ k ∈ extractedBy r c := by
  have hkeep : ∀ params, params = r.data.queryParams →
      (params.map Prod.fst).Nodup ∧ ∀ k, k ∈ params.map Prod.fst ↔
        k ∈ r.data.queryParams.map Prod.fst ∨ k ∈ ([] : List Bytes) := by
    rintro params rfl
    exact ⟨hkeys, fun k => by simp⟩
  cases c with
  | extractQueryParams =>
    change ((r.extractQueryParams.data.queryParams).map Prod.fst).Nodup ∧
      ∀ k, k ∈ r.extractQueryParams.data.queryParams.map Prod.fst ↔ _
    rw [queryParams_extract]
    refine ⟨nodup_assignAll _ _ hkeys, fun k => ?_⟩
    have hset : k ∈ extractedBy r .extractQueryParams ↔
        lastValue k ((reached (r.data.query.splitOn ampersand)).map pairOf) ≠ none := by
      rw [Ne, lastValue_eq_none_iff]
      simp [extractedBy]
    rw [hset]
    constructor
    · intro hk
      obtain ⟨⟨_, v⟩, hv, rfl⟩ := List.mem_map.mp hk
      rcases (mem_assignAll_iff _ _ _ v).mp hv with hlast | ⟨-, hold⟩
      · exact Or.inr (by rw [hlast]; simp)
      · exact Or.inl (List.mem_map_of_mem hold)
    · rintro (hold | hnew)
      · obtain ⟨⟨_, v⟩, hv, rfl⟩ := List.mem_map.mp hold
        cases hlast : lastValue _ ((reached (r.data.query.splitOn ampersand)).map pairOf) with
        | none =>
          exact List.mem_map.mpr ⟨_, (mem_assignAll_iff _ _ _ v).mpr (Or.inr ⟨hlast, hv⟩), rfl⟩
        | some w => exact List.mem_map.mpr ⟨_, (mem_assignAll_iff _ _ _ w).mpr (Or.inl hlast), rfl⟩
      · obtain ⟨v, hlast⟩ := Option.ne_none_iff_exists'.mp hnew
        exact List.mem_map.mpr ⟨_, (mem_assignAll_iff _ _ _ v).mpr (Or.inl hlast), rfl⟩
  | addHeader key value => exact hkeep _ (queryParams_addHeader r key value)
  | _ => exact hkeep _ rfl

/-- Nothing but extraction changes the map, and nothing empties it. -/
theorem keys_calls (calls : List RequestCall) (r : HttpRequest)
    (hkeys : (r.data.queryParams.map Prod.fst).Nodup) :
    (((calls.foldl call r).data.queryParams).map Prod.fst).Nodup ∧
      ∀ k, k ∈ (calls.foldl call r).data.queryParams.map Prod.fst ↔
        k ∈ r.data.queryParams.map Prod.fst ∨ k ∈ extractedKeys r calls := by
  induction calls generalizing r with
  | nil => exact ⟨hkeys, fun k => by simp [extractedKeys]⟩
  | cons c calls ih =>
    obtain ⟨hnodup, hcall⟩ := r.keys_call c hkeys
    obtain ⟨hnodup', hrest⟩ := ih (r.call c) hnodup
    refine ⟨hnodup', fun k => ?_⟩
    rw [List.foldl_cons, hrest, hcall, extractedKeys, List.mem_append, or_assoc]

end HttpRequest

theorem holdsParameters_assignAll_iff (query : Bytes) (params : List (Bytes × Bytes))
    (hkeys : (params.map Prod.fst).Nodup) :
    HoldsParameters query
        (assignAll params ((reached (query.splitOn ampersand)).map pairOf)) ↔
      (∀ k ∈ params.map Prod.fst, k ∈ (parameters query).map Prod.fst) ∧
        MadeUpFor (reached (query.splitOn ampersand)) := by
  have hsaid : ∀ k, k ∈ (parameters query).map Prod.fst ↔
      lastValue k (parameters query) ≠ none := by
    intro k
    rw [Ne, lastValue_eq_none_iff]
    simp
  have hset := lastValue_nil_iff (reached (query.splitOn ampersand))
  have hother := fun k => lastValue_of_ne_nil (reached (query.splitOn ampersand)) (k := k)
  rw [pairsOf_reached] at hset hother
  constructor
  · rintro ⟨-, hentries⟩
    have hgiven : ∀ k v,
        lastValue k ((reached (query.splitOn ampersand)).map pairOf) = some v →
          lastValue k (parameters query) = some v := fun k v hv =>
      (hentries k v).mp ((mem_assignAll_iff _ _ k v).mpr (Or.inl hv))
    refine ⟨fun k hk => (hsaid k).mpr ?_, hset.mp ?_⟩
    · obtain ⟨⟨_, v⟩, hv, rfl⟩ := List.mem_map.mp hk
      cases hlast : lastValue _ ((reached (query.splitOn ampersand)).map pairOf) with
      | none =>
        have hheld := (hentries _ v).mp ((mem_assignAll_iff _ _ _ v).mpr (Or.inr ⟨hlast, hv⟩))
        rw [hheld]
        simp
      | some w =>
        rw [hgiven _ w hlast]
        simp
    · cases hlast : lastValue [] ((reached (query.splitOn ampersand)).map pairOf) with
      | some v => rw [hgiven [] v hlast]
      | none =>
        -- A pair of the query is among those that the loop assigns.
        rw [lastValue_eq_none_iff] at hlast
        refine ((lastValue_eq_none_iff _ _).mpr fun w hw => hlast w ?_).symm
        rw [← pairsOf_reached] at hw
        obtain ⟨p, hp, rfl⟩ := List.mem_map.mp hw
        exact List.mem_map_of_mem (List.mem_filter.mp hp).1
  · rintro ⟨hold, hharmless⟩
    have hall : ∀ k, lastValue k ((reached (query.splitOn ampersand)).map pairOf) =
        lastValue k (parameters query) := by
      intro k
      by_cases hk : k = []
      · exact hk ▸ hset.mpr hharmless
      · exact hother k hk
    refine ⟨nodup_assignAll _ _ hkeys, fun k v => ?_⟩
    rw [mem_assignAll_iff, hall, or_iff_left]
    rintro ⟨hnone, hv⟩
    exact (hsaid k).mp (hold k (List.mem_map_of_mem hv)) hnone

/-- A request object that was used and then reset, and a query. -/
theorem holdsParameters_iff (calls : List RequestCall) (path query : Bytes) :
    HoldsParameters query
        (((HttpRequest.used calls).reset.setPath path query).extractQueryParams).data.queryParams ↔
      (∀ k ∈ extractedKeys HttpRequest.init calls, k ∈ (parameters query).map Prod.fst) ∧
        MadeUpFor (reached (query.splitOn ampersand)) := by
  obtain ⟨hnodup, hkeys⟩ := HttpRequest.keys_calls calls HttpRequest.init List.nodup_nil
  rw [HttpRequest.queryParams_extract]
  refine (holdsParameters_assignAll_iff query _ hnodup).trans (and_congr_left fun _ => ?_)
  constructor
  · exact fun h k hk => h k ((hkeys k).mpr (Or.inr hk))
  · intro h k hk
    rcases (hkeys k).mp hk with hold | hnew
    · exact absurd hold List.not_mem_nil
    · exact h k hnew

/-- A query of one request shows up in the next one on the same connection. -/
theorem earlier_query_kept : ¬ HoldsParameters (ascii "b=2")
    (((HttpRequest.used [.setPath (ascii "/") (ascii "a=1"),
      .extractQueryParams]).reset.setPath (ascii "/") (ascii "b=2")).extractQueryParams
        ).data.queryParams := by
  intro h
  have hheld := (h.entries [97] [49]).mp (by decide +kernel)
  exact absurd hheld (by decide +kernel)

end WarpApi

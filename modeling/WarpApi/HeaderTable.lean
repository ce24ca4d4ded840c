import WarpApi.OneResponse
import WarpApi.Library.LastWrite

/-!
The header table of a response over any series of `addHeader` calls. The code
takes an empty slot for an unused key and uses the enumerator as the slot's
number, so the table stays consistent for four of the keys, and for those as
long as nothing is added behind an empty value.
-/
namespace WarpApi

open LastWrite

namespace HttpResponse

def addHeaders (calls : List (HeaderType × Bytes)) : HttpResponse :=
  calls.foldl (fun r c => r.addHeader c.1 c.2) init

/-- `header_count`: an increment beyond the array shows as an access at its end. -/
def headerCount (r : HttpResponse) : ℕ :=
  r.activeHeaders.length + r.strayAccesses.count maxHeadersSize

/-- No index left the two arrays, the counter neither, every active key is listed
once, and it shows the value of its last call. -/
structure TableConsistent (calls : List (HeaderType × Bytes)) (r : HttpResponse) : Prop where
  inBounds : r.strayAccesses = []
  active_lt : ∀ key ∈ r.activeHeaders, key.val < maxHeadersSize
  count_le : r.headerCount ≤ maxHeadersSize
  nodup : r.activeHeaders.Nodup
  stored : ∀ key ∈ r.activeHeaders, lastValue key calls = some (r.header key)

end HttpResponse

/-- Behind a call with an empty value its key is not used again. -/
def EmptyLast (calls : List (HeaderType × Bytes)) : Prop :=
  ∀ before key after, calls = before ++ (key, []) :: after → ∀ c ∈ after, c.1 ≠ key

theorem HeaderType.hasSlot_iff (key : HeaderType) (hne : key ≠ .none) :
    key.hasSlot = true ↔ key ∈ [.server, .contentType, .contentLength, .connection] := by
  cases key with
  | none => exact absurd rfl hne
  | _ => decide

theorem EmptyLast.of_prefix {calls : List (HeaderType × Bytes)} {c : HeaderType × Bytes}
    (h : EmptyLast (calls ++ [c])) : EmptyLast calls := by
  intro before key after heq d hd
  refine h before key (after ++ [c]) ?_ d (List.mem_append_left _ hd)
  rw [heq, List.append_assoc]
  rfl

theorem EmptyLast.lastValue_ne {calls : List (HeaderType × Bytes)} {key : HeaderType}
    {value : Bytes} (h : EmptyLast (calls ++ [(key, value)])) : lastValue key calls ≠ some [] := by
  intro hlast
  obtain ⟨before, after, rfl, -⟩ := exists_of_lastValue hlast
  exact h before key (after ++ [(key, value)]) (by simp) (key, value) (by simp) rfl

theorem EmptyLast.concat {calls : List (HeaderType × Bytes)} {key : HeaderType} {value : Bytes}
    (h : EmptyLast calls) (hlast : lastValue key calls ≠ some []) :
    EmptyLast (calls ++ [(key, value)]) := by
  intro before other after heq c hc
  -- the last call of the series is either the empty one itself or lies behind it
  cases after using List.reverseRecOn with
  | nil => exact absurd hc List.not_mem_nil
  | append_singleton after d =>
    rw [← List.cons_append, ← List.append_assoc] at heq
    obtain ⟨hcalls, hd⟩ := List.append_inj' heq rfl
    obtain rfl : (key, value) = d := by simpa using hd
    have hafter := h before other after hcalls
    rcases List.mem_append.mp hc with hc | hc
    · exact hafter c hc
    · rw [List.mem_singleton.mp hc]
      rintro rfl
      exact hlast (hcalls ▸ lastValue_of_split before hafter)

namespace HttpResponse

theorem header_addHeader_self (r : HttpResponse) (key : HeaderType) (value : Bytes)
    (hslot : key.hasSlot = true) : (r.addHeader key value).header key = value := by
  have hlt : key.val < maxHeadersSize := by simpa [HeaderType.hasSlot] using hslot
  unfold addHeader header
  rw [dif_pos hlt, dif_pos hlt]
  exact Function.update_self ..

theorem header_addHeader_of_ne (r : HttpResponse) {key other : HeaderType} (value : Bytes)
    (hne : key ≠ other) : (r.addHeader key value).header other = r.header other := by
  have hval : key.val ≠ other.val := fun h => hne (HeaderType.val_inj h)
  unfold addHeader header
  dsimp only
  split_ifs
  all_goals first
    | rfl
    | exact Function.update_of_ne (fun h => hval (Fin.mk.inj h).symm) ..

theorem activeHeaders_addHeader (r : HttpResponse) (key : HeaderType) (value : Bytes)
    (hstray : (r.addHeader key value).strayAccesses = []) :
    (r.addHeader key value).activeHeaders =
      if r.header key = [] then r.activeHeaders ++ [key] else r.activeHeaders := by
  unfold addHeader header at *
  dsimp only at *
  split_ifs at hstray ⊢ with hlt hempty hroom hnil
  all_goals first
    | rfl
    | simp_all

theorem strayAccesses_addHeader_of_room (r : HttpResponse) (key : HeaderType) (value : Bytes)
    (hslot : key.hasSlot = true) (hroom : r.activeHeaders.length < maxHeadersSize) :
    (r.addHeader key value).strayAccesses = r.strayAccesses := by
  have hlt : key.val < maxHeadersSize := by simpa [HeaderType.hasSlot] using hslot
  unfold addHeader
  rw [dif_pos hlt]
  dsimp only
  split_ifs <;> rfl

theorem hasSlot_of_strayAccesses (r : HttpResponse) (key : HeaderType) (value : Bytes)
    (hstray : (r.addHeader key value).strayAccesses = []) : key.hasSlot = true := by
  unfold addHeader at hstray
  unfold HeaderType.hasSlot
  split at hstray
  · rename_i hlt
    simpa using hlt
  · simp at hstray

/-- What the table holds while no key has been used behind an empty value. -/
structure TableTracks (calls : List (HeaderType × Bytes)) (r : HttpResponse) : Prop where
  inBounds : r.strayAccesses = []
  slots : ∀ key ∈ r.activeHeaders, key.hasSlot = true
  nodup : r.activeHeaders.Nodup
  active_iff : ∀ key, key ∈ r.activeHeaders ↔ lastValue key calls ≠ none
  header_eq : ∀ key, r.header key = (lastValue key calls).getD []

namespace TableTracks

variable {calls : List (HeaderType × Bytes)} {r : HttpResponse}

theorem init : TableTracks [] init where
  inBounds := rfl
  slots := fun _ h => absurd h List.not_mem_nil
  nodup := List.nodup_nil
  active_iff := fun key => by simp [HttpResponse.init, lastValue]
  header_eq := fun key => by simp [HttpResponse.init, header, lastValue]

/-- Only five enumerators are small enough to be listed. -/
theorem length_le (h : TableTracks calls r) : r.activeHeaders.length ≤ 5 := by
  have hsub : r.activeHeaders ⊆
      [.none, .server, .contentType, .contentLength, .connection] := by
    intro key hkey
    have hslot := h.slots key hkey
    by_cases hnone : key = .none
    · exact hnone ▸ List.mem_cons_self ..
    · exact List.mem_cons_of_mem _ ((key.hasSlot_iff hnone).mp hslot)
  exact (h.nodup.subperm hsub).length_le

theorem addHeader (h : TableTracks calls r) {key : HeaderType} (value : Bytes)
    (hslot : key.hasSlot = true) (hlast : lastValue key calls ≠ some []) :
    TableTracks (calls ++ [(key, value)]) (r.addHeader key value) := by
  have hroom : r.activeHeaders.length < maxHeadersSize := Nat.lt_of_le_of_lt h.length_le (by decide)
  have hstray : (r.addHeader key value).strayAccesses = [] :=
    (strayAccesses_addHeader_of_room r key value hslot hroom).trans h.inBounds
  have hactive := activeHeaders_addHeader r key value hstray
  -- the slot is empty exactly when the key has not been used yet
  have hfresh : r.header key = [] ↔ key ∉ r.activeHeaders := by
    rw [h.header_eq, h.active_iff]
    cases hv : lastValue key calls with
    | none => simp
    | some v =>
      rw [hv] at hlast
      simpa using hlast
  have hmem : ∀ other, other ∈ (r.addHeader key value).activeHeaders ↔
      other ∈ r.activeHeaders ∨ other = key := by
    intro other
    rw [hactive]
    split
    · simp
    · rename_i hfull
      rw [hfresh, not_not] at hfull
      exact ⟨Or.inl, fun hor => hor.elim id fun heq => heq ▸ hfull⟩
  refine ⟨hstray, ?_, ?_, ?_, ?_⟩
  · intro other hother
    rcases (hmem other).mp hother with hold | rfl
    · exact h.slots other hold
    · exact hslot
  · rw [hactive]
    split
    · rename_i hempty
      have hnew := hfresh.mp hempty
      exact List.Nodup.append h.nodup (List.nodup_singleton key)
        (List.disjoint_singleton.mpr hnew)
    · exact h.nodup
  · intro other
    rw [hmem, h.active_iff]
    by_cases hkey : key = other
    · subst hkey
      simp [lastValue_concat_self]
    · rw [lastValue_concat_of_ne _ _ hkey]
      exact ⟨fun hor => hor.elim id fun heq => absurd heq.symm hkey, Or.inl⟩
  · intro other
    by_cases hkey : key = other
    · subst hkey
      rw [lastValue_concat_self, header_addHeader_self r key value hslot]
      rfl
    · rw [lastValue_concat_of_ne _ _ hkey, header_addHeader_of_ne r value hkey, h.header_eq]

theorem consistent (h : TableTracks calls r) : r.TableConsistent calls where
  inBounds := h.inBounds
  active_lt := fun key hkey => by simpa [HeaderType.hasSlot] using h.slots key hkey
  count_le := by
    have hlen := h.length_le
    rw [headerCount, h.inBounds, List.count_nil]
    exact Nat.le_trans hlen (by decide)
  nodup := h.nodup
  stored := by
    intro key hkey
    have hsome := (h.active_iff key).mp hkey
    rw [h.header_eq]
    cases hv : lastValue key calls with
    | none => exact absurd hv hsome
    | some v => rfl

end TableTracks

theorem addHeaders_concat (calls : List (HeaderType × Bytes)) (key : HeaderType) (value : Bytes) :
    addHeaders (calls ++ [(key, value)]) = (addHeaders calls).addHeader key value := by
  rw [addHeaders, addHeaders, List.foldl_concat]

theorem addHeaders_tracks (calls : List (HeaderType × Bytes))
    (hslots : ∀ c ∈ calls, c.1.hasSlot = true) (hempty : EmptyLast calls) :
    TableTracks calls (addHeaders calls) := by
  induction calls using List.reverseRecOn with
  | nil => exact TableTracks.init
  | append_singleton calls c ih =>
    obtain ⟨key, value⟩ := c
    rw [addHeaders_concat]
    have htracks := ih (fun c hc => hslots c (List.mem_append_left _ hc)) hempty.of_prefix
    exact htracks.addHeader value (hslots (key, value) (by simp)) hempty.lastValue_ne

/-- A call that left the arrays or listed a key again is never made good. -/
theorem of_inBounds_of_nodup (calls : List (HeaderType × Bytes))
    (hstray : (addHeaders calls).strayAccesses = [])
    (hnodup : (addHeaders calls).activeHeaders.Nodup) :
    (∀ c ∈ calls, c.1.hasSlot = true) ∧ EmptyLast calls := by
  induction calls using List.reverseRecOn with
  | nil => exact ⟨by simp, fun before key after h => by simp at h⟩
  | append_singleton calls c ih =>
    obtain ⟨key, value⟩ := c
    rw [addHeaders_concat] at hstray hnodup
    have hactive := activeHeaders_addHeader (addHeaders calls) key value hstray
    have hslot := hasSlot_of_strayAccesses (addHeaders calls) key value hstray
    have hstray' : (addHeaders calls).strayAccesses = [] :=
      List.suffix_nil.mp (hstray ▸ strayAccesses_addHeader (addHeaders calls) key value)
    have hnodup' : (addHeaders calls).activeHeaders.Nodup := by
      rw [hactive] at hnodup
      split at hnodup
      · exact hnodup.of_append_left
      · exact hnodup
    obtain ⟨hslots, hempty⟩ := ih hstray' hnodup'
    have htracks := addHeaders_tracks calls hslots hempty
    refine ⟨?_, hempty.concat ?_⟩
    · intro c hc
      rcases List.mem_append.mp hc with hc | hc
      · exact hslots c hc
      · exact List.mem_singleton.mp hc ▸ hslot
    · intro hlast
      have hnil : (addHeaders calls).header key = [] := by
        rw [htracks.header_eq, hlast]
        rfl
      have hmem : key ∈ (addHeaders calls).activeHeaders := by
        rw [htracks.active_iff, hlast]
        simp
      rw [hactive, if_pos hnil] at hnodup
      exact (List.disjoint_of_nodup_append hnodup) hmem (List.mem_singleton_self key)

/-- The table is consistent after exactly the series that keep to the four keys
with a slot and use no key again behind an empty value. -/
theorem tableConsistent_iff (calls : List (HeaderType × Bytes)) (hkeys : ∀ c ∈ calls, c.1 ≠ .none) :
    (addHeaders calls).TableConsistent calls ↔
      (∀ c ∈ calls, c.1 ∈ [.server, .contentType, .contentLength, .connection]) ∧
        EmptyLast calls := by
  constructor
  · intro h
    obtain ⟨hslots, hempty⟩ := of_inBounds_of_nodup calls h.inBounds h.nodup
    exact ⟨fun c hc => (c.1.hasSlot_iff (hkeys c hc)).mp (hslots c hc), hempty⟩
  · rintro ⟨hmem, hempty⟩
    have hslots : ∀ c ∈ calls, c.1.hasSlot = true :=
      fun c hc => (c.1.hasSlot_iff (hkeys c hc)).mpr (hmem c hc)
    exact (addHeaders_tracks calls hslots hempty).consistent

theorem tableConsistent_server :
    (addHeaders [(.server, ascii "a"), (.server, ascii "b")]).TableConsistent
      [(.server, ascii "a"), (.server, ascii "b")] := by
  refine (tableConsistent_iff _ (by decide)).mpr ⟨by decide, ?_⟩
  intro before key after heq
  have hmem : (key, ([] : Bytes)) ∈ [(HeaderType.server, ascii "a"), (.server, ascii "b")] :=
    heq ▸ List.mem_append_right _ (List.mem_cons_self ..)
  simp [ascii] at hmem

/-- A User-Agent leaves the array, and an empty value is listed twice. -/
theorem not_tableConsistent :
    ¬ (addHeaders [(.userAgent, ascii "a")]).TableConsistent [(.userAgent, ascii "a")] ∧
      ¬ (addHeaders [(.server, []), (.server, ascii "a")]).TableConsistent
        [(.server, []), (.server, ascii "a")] := by
  constructor
  · intro h
    exact absurd h.inBounds (by decide)
  · intro h
    exact absurd h.nodup (by decide)

end HttpResponse

end WarpApi

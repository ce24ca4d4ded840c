import Mathlib.Data.List.Induction
import Mathlib.Logic.Function.Basic

/-!
Series of writes under keys, and the last value written under each key. A memory that
takes the writes one after the other shows exactly these values; keys that are written
nowhere keep what they had.
-/
namespace WarpApi.LastWrite

variable {κ β : Type*} [DecidableEq κ]

/-- The value of the last write under this key. -/
def lastValue (key : κ) (writes : List (κ × β)) : Option β :=
  ((writes.filter fun w => w.1 = key).map Prod.snd).getLast?

variable {key other : κ} {writes : List (κ × β)} {value : β}

@[simp] theorem lastValue_nil (key : κ) : lastValue key ([] : List (κ × β)) = none := rfl

theorem lastValue_append (key : κ) (writes later : List (κ × β)) :
    lastValue key (writes ++ later) = (lastValue key later).or (lastValue key writes) := by
  simp only [lastValue, List.filter_append, List.map_append, List.getLast?_append]

theorem lastValue_concat_self (key : κ) (writes : List (κ × β)) (value : β) :
    lastValue key (writes ++ [(key, value)]) = some value := by
  simp [lastValue]

theorem lastValue_concat_of_ne (writes : List (κ × β)) (value : β) (hne : other ≠ key) :
    lastValue key (writes ++ [(other, value)]) = lastValue key writes := by
  simp [lastValue, hne]

theorem lastValue_eq_none_iff (key : κ) (writes : List (κ × β)) :
    lastValue key writes = none ↔ ∀ w ∈ writes, w.1 ≠ key := by
  simp [lastValue]

theorem lastValue_singleton_of_ne {w : κ × β} (hne : w.1 ≠ key) : lastValue key [w] = none := by
  simp [lastValue, hne]

/-- The last write under a key splits the series. -/
theorem exists_of_lastValue (h : lastValue key writes = some value) :
    ∃ before after, writes = before ++ (key, value) :: after ∧ ∀ w ∈ after, w.1 ≠ key := by
  induction writes using List.reverseRecOn with
  | nil => simp at h
  | append_singleton writes w ih =>
    obtain ⟨other, v⟩ := w
    by_cases hkey : other = key
    · subst hkey
      rw [lastValue_concat_self, Option.some.injEq] at h
      subst h
      exact ⟨writes, [], rfl, by simp⟩
    · rw [lastValue_concat_of_ne _ _ hkey] at h
      obtain ⟨before, after, rfl, hafter⟩ := ih h
      refine ⟨before, after ++ [(other, v)], by simp, ?_⟩
      intro w hw
      rcases List.mem_append.mp hw with hw | hw
      · exact hafter w hw
      · exact List.mem_singleton.mp hw ▸ hkey

theorem lastValue_of_split (before : List (κ × β)) {after : List (κ × β)}
    (hafter : ∀ w ∈ after, w.1 ≠ key) :
    lastValue key (before ++ (key, value) :: after) = some value := by
  have hnone := (lastValue_eq_none_iff key after).mpr hafter
  rw [← List.singleton_append, ← List.append_assoc, lastValue_append, hnone, Option.none_or,
    lastValue_concat_self]

/-- A memory shows the last value written, or what it held before. -/
theorem foldl_update (memory : κ → β) (writes : List (κ × β)) (key : κ) :
    writes.foldl (fun m w => Function.update m w.1 w.2) memory key =
      (lastValue key writes).getD (memory key) := by
  induction writes using List.reverseRecOn with
  | nil => rfl
  | append_singleton writes w ih =>
    obtain ⟨other, v⟩ := w
    rw [List.foldl_append, List.foldl_cons, List.foldl_nil]
    by_cases hkey : other = key
    · subst hkey
      rw [Function.update_self, lastValue_concat_self, Option.getD_some]
    · rw [Function.update_of_ne (Ne.symm hkey), ih, lastValue_concat_of_ne _ _ hkey]

/-- A register that some of the inputs set shows what the last of these set. -/
theorem foldl_choice {ι : Type*} (choice : ι → Option β) (xs : List ι) (b : β) :
    xs.foldl (fun b x => (choice x).getD b) b = ((xs.filterMap choice).getLast?).getD b := by
  induction xs using List.reverseRecOn with
  | nil => rfl
  | append_singleton xs x ih =>
    rw [List.foldl_append, List.foldl_cons, List.foldl_nil, ih, List.filterMap_append,
      List.getLast?_append, Option.getD_or]
    cases hx : choice x with
    | none => simp [hx]
    | some c => simp [hx]

/-- `m[key] = value`: what was there under the key is replaced. -/
def assign (m : List (κ × β)) (key : κ) (value : β) : List (κ × β) :=
  (m.filter fun entry => entry.1 ≠ key) ++ [(key, value)]

def assignAll (m writes : List (κ × β)) : List (κ × β) :=
  writes.foldl (fun m w => assign m w.1 w.2) m

theorem mem_assign_iff (m : List (κ × β)) (key other : κ) (value v : β) :
    (other, v) ∈ assign m key value ↔
      other = key ∧ v = value ∨ other ≠ key ∧ (other, v) ∈ m := by
  simp only [assign, List.mem_append, List.mem_filter, List.mem_singleton, Prod.mk.injEq,
    decide_not, Bool.not_eq_true', decide_eq_false_iff_not]
  tauto

theorem nodup_assign (m : List (κ × β)) (key : κ) (value : β) (hm : (m.map Prod.fst).Nodup) :
    ((assign m key value).map Prod.fst).Nodup := by
  have hkept : ((m.filter fun entry => entry.1 ≠ key).map Prod.fst).Nodup :=
    hm.sublist (List.filter_sublist.map _)
  rw [assign, List.map_append, List.nodup_append]
  refine ⟨hkept, by simp, ?_⟩
  intro a ha b hb
  obtain ⟨entry, hentry, rfl⟩ := List.mem_map.mp ha
  rw [List.map_singleton, List.mem_singleton] at hb
  rw [hb]
  simpa using (List.mem_filter.mp hentry).2

/-- A map shows the last value assigned, or what it held before. -/
theorem mem_assignAll_iff (m writes : List (κ × β)) (key : κ) (v : β) :
    (key, v) ∈ assignAll m writes ↔
      lastValue key writes = some v ∨ lastValue key writes = none ∧ (key, v) ∈ m := by
  induction writes using List.reverseRecOn with
  | nil => simp [assignAll]
  | append_singleton writes w ih =>
    obtain ⟨other, value⟩ := w
    rw [assignAll, List.foldl_append, List.foldl_cons, List.foldl_nil, mem_assign_iff]
    by_cases hkey : other = key
    · subst hkey
      rw [lastValue_concat_self]
      simp [eq_comm]
    · rw [lastValue_concat_of_ne _ _ hkey]
      simp only [Ne.symm hkey, false_and, false_or, ne_eq, not_false_eq_true, true_and]
      exact ih

theorem nodup_assignAll (m writes : List (κ × β)) (hm : (m.map Prod.fst).Nodup) :
    ((assignAll m writes).map Prod.fst).Nodup := by
  induction writes generalizing m with
  | nil => exact hm
  | cons w writes ih => exact ih (assign m w.1 w.2) (nodup_assign m w.1 w.2 hm)

end WarpApi.LastWrite

import Mathlib.Data.List.Nodup
import Mathlib.Logic.Function.Basic

/-!
A table from keys to places where both are used again. Every acquisition gets a
number of its own. An object may give its key back and keep its place, and the entry
of that key then stays behind until the key is acquired again. What an open key leads
to is always the object of its latest acquisition, and no object is released twice.
-/
namespace WarpApi

/-- `holder` is the object at a place, by its number, with the key that it has open. -/
structure HandleTable (K P : Type*) where
  entry : K → Option P
  holder : P → Option (ℕ × Option K)
  isOpen : K → Bool
  next : ℕ
  latest : K → Option ℕ
  released : List ℕ

namespace HandleTable

variable {K P : Type*}

def empty : HandleTable K P := ⟨fun _ => none, fun _ => none, fun _ => false, 0, fun _ => none, []⟩

structure Sound (h : HandleTable K P) : Prop where
  found : ∀ k, h.isOpen k = true → ∃ p id, h.entry k = some p ∧ h.holder p = some (id, some k) ∧
    h.latest k = some id
  reached : ∀ p id k, h.holder p = some (id, some k) → h.isOpen k = true ∧ h.entry k = some p
  fresh : ∀ p id key, h.holder p = some (id, key) → id < h.next ∧ id ∉ h.released
  distinct : ∀ p q id key key', h.holder p = some (id, key) → h.holder q = some (id, key') → p = q
  releasedOnce : h.released.Nodup
  old : ∀ id ∈ h.released, id < h.next

theorem sound_empty : (empty : HandleTable K P).Sound where
  found _ h := absurd h Bool.false_ne_true
  reached _ _ _ h := by simp [empty] at h
  fresh _ _ _ h := by simp [empty] at h
  distinct _ _ _ _ _ h := by simp [empty] at h
  releasedOnce := List.nodup_nil
  old _ h := absurd h List.not_mem_nil

theorem Sound.key_ne {h : HandleTable K P} (hs : Sound h) {p q : P} {id id' : ℕ}
    {key : Option K} {k : K}
    (hp : h.holder p = some (id, key)) (hq : h.holder q = some (id', some k)) (hne : q ≠ p) :
    key ≠ some k := by
  rintro rfl
  have hentry := (hs.reached p id k hp).2
  rw [(hs.reached q id' k hq).2] at hentry
  exact hne (Option.some.inj hentry)

variable [DecidableEq K] [DecidableEq P]

def closeKey (isOpen : K → Bool) (key : Option K) : K → Bool :=
  fun k => if key = some k then false else isOpen k

/-- A new object at a free place, under a key that is not open. -/
def acquire (h : HandleTable K P) (k : K) (p : P) : HandleTable K P where
  entry := Function.update h.entry k (some p)
  holder := Function.update h.holder p (some (h.next, some k))
  isOpen := Function.update h.isOpen k true
  next := h.next + 1
  latest := Function.update h.latest k (some h.next)
  released := h.released

def shut (h : HandleTable K P) (p : P) (id : ℕ) (key : Option K) : HandleTable K P :=
  { h with
    holder := Function.update h.holder p (some (id, none))
    isOpen := closeKey h.isOpen key }

/-- The object gives its place back, and its key with the entry if it still has it. -/
def release (h : HandleTable K P) (p : P) (id : ℕ) (key : Option K) : HandleTable K P :=
  { h with
    entry := fun k => if key = some k then none else h.entry k
    holder := Function.update h.holder p none
    isOpen := closeKey h.isOpen key
    released := id :: h.released }

omit [DecidableEq P] in
theorem closeKey_eq_true_iff (isOpen : K → Bool) (key : Option K) (k : K) :
    closeKey isOpen key k = true ↔ key ≠ some k ∧ isOpen k = true := by
  unfold closeKey
  split_ifs with h
  · simp [h]
  · simp [h]

omit [DecidableEq K] in
theorem update_eq_some {α : Type*} {f : P → Option α} {p q : P} {o : Option α} {x : α}
    (h : Function.update f p o q = some x) : q = p ∧ o = some x ∨ q ≠ p ∧ f q = some x := by
  by_cases hqp : q = p
  · rw [hqp, Function.update_self] at h
    exact Or.inl ⟨hqp, h⟩
  · rw [Function.update_of_ne hqp] at h
    exact Or.inr ⟨hqp, h⟩

namespace Sound

variable {h : HandleTable K P}

theorem acquire (hs : Sound h) {k : K} {p : P} (hk : h.isOpen k = false)
    (hp : h.holder p = none) : Sound (h.acquire k p) := by
  -- an object that is there already is at another place and has another key
  have hkept : ∀ q id key, (h.acquire k p).holder q = some (id, key) →
      q = p ∧ id = h.next ∧ key = some k ∨ q ≠ p ∧ h.holder q = some (id, key) := by
    intro q id key hq
    rcases update_eq_some hq with ⟨hqp, heq⟩ | hother
    · simp only [Option.some.injEq, Prod.mk.injEq] at heq
      exact Or.inl ⟨hqp, heq.1.symm, heq.2.symm⟩
    · exact Or.inr hother
  constructor
  · intro l hl
    by_cases hlk : l = k
    · subst hlk
      exact ⟨p, h.next, Function.update_self .., Function.update_self .., Function.update_self ..⟩
    · obtain ⟨q, id, hentry, hholder, hlatest⟩ :=
        hs.found l ((Function.update_of_ne hlk ..).symm.trans hl)
      have hqp : q ≠ p := by
        rintro rfl
        rw [hp] at hholder
        simp at hholder
      exact ⟨q, id, (Function.update_of_ne hlk ..).trans hentry,
        (Function.update_of_ne hqp ..).trans hholder, (Function.update_of_ne hlk ..).trans hlatest⟩
  · intro q id l hq
    rcases hkept q id (some l) hq with ⟨rfl, -, hl⟩ | ⟨-, hholder⟩
    · obtain rfl := Option.some.inj hl
      exact ⟨Function.update_self .., Function.update_self ..⟩
    · obtain ⟨hopen, hentry⟩ := hs.reached q id l hholder
      have hlk : l ≠ k := by
        rintro rfl
        exact absurd (hk.symm.trans hopen) Bool.false_ne_true
      exact ⟨(Function.update_of_ne hlk ..).trans hopen,
        (Function.update_of_ne hlk ..).trans hentry⟩
  · intro q id key hq
    rcases hkept q id key hq with ⟨-, rfl, -⟩ | ⟨-, hholder⟩
    · exact ⟨Nat.lt_succ_self _, fun hmem => absurd (hs.old _ hmem) (Nat.lt_irrefl _)⟩
    · obtain ⟨hlt, hreleased⟩ := hs.fresh q id key hholder
      exact ⟨Nat.lt_succ_of_lt hlt, hreleased⟩
  · intro q r id key key' hq hr
    rcases hkept q id key hq with ⟨hqp, hid, -⟩ | ⟨-, hholder⟩ <;>
      rcases hkept r id key' hr with ⟨hrp, hid', -⟩ | ⟨-, hholder'⟩
    · exact hqp.trans hrp.symm
    · exact absurd (hs.fresh r id key' hholder').1 (hid ▸ Nat.lt_irrefl _)
    · exact absurd (hs.fresh q id key hholder).1 (hid' ▸ Nat.lt_irrefl _)
    · exact hs.distinct q r id key key' hholder hholder'
  · exact hs.releasedOnce
  · exact fun id hid => Nat.lt_succ_of_lt (hs.old id hid)

omit [DecidableEq P] in
theorem found_elsewhere (hs : Sound h) {p : P} {id : ℕ} {key : Option K} {k : K}
    (hp : h.holder p = some (id, key)) (hk : closeKey h.isOpen key k = true) :
    key ≠ some k ∧ ∃ q id', q ≠ p ∧ h.entry k = some q ∧ h.holder q = some (id', some k) ∧
      h.latest k = some id' := by
  obtain ⟨hne, hopen⟩ := (closeKey_eq_true_iff _ _ _).mp hk
  obtain ⟨q, id', hentry, hholder, hlatest⟩ := hs.found k hopen
  refine ⟨hne, q, id', ?_, hentry, hholder, hlatest⟩
  rintro rfl
  rw [hp] at hholder
  exact hne (Prod.mk.inj (Option.some.inj hholder)).2

theorem shut (hs : Sound h) {p : P} {id : ℕ} {key : Option K}
    (hp : h.holder p = some (id, key)) : Sound (h.shut p id key) := by
  have hkept : ∀ q id' key', (h.shut p id key).holder q = some (id', key') →
      q = p ∧ id' = id ∧ key' = none ∨ q ≠ p ∧ h.holder q = some (id', key') := by
    intro q id' key' hq
    rcases update_eq_some hq with ⟨hqp, heq⟩ | hother
    · simp only [Option.some.injEq, Prod.mk.injEq] at heq
      exact Or.inl ⟨hqp, heq.1.symm, heq.2.symm⟩
    · exact Or.inr hother
  constructor
  · intro k hk
    obtain ⟨-, q, id', hqp, hentry, hholder, hlatest⟩ := hs.found_elsewhere hp hk
    exact ⟨q, id', hentry, (Function.update_of_ne hqp ..).trans hholder, hlatest⟩
  · intro q id' k hq
    rcases hkept q id' (some k) hq with ⟨-, -, hnone⟩ | ⟨hqp, hholder⟩
    · simp at hnone
    · obtain ⟨hopen, hentry⟩ := hs.reached q id' k hholder
      exact ⟨(closeKey_eq_true_iff _ _ _).mpr ⟨hs.key_ne hp hholder hqp, hopen⟩, hentry⟩
  · intro q id' key' hq
    rcases hkept q id' key' hq with ⟨-, rfl, -⟩ | ⟨-, hholder⟩
    · exact hs.fresh p _ key hp
    · exact hs.fresh q id' key' hholder
  · intro q r id' key₁ key₂ hq hr
    rcases hkept q id' key₁ hq with ⟨hqp, hid, -⟩ | ⟨-, hholder⟩ <;>
      rcases hkept r id' key₂ hr with ⟨hrp, hid', -⟩ | ⟨-, hholder'⟩
    · exact hqp.trans hrp.symm
    · exact hqp.trans (hs.distinct p r id key key₂ hp (hid ▸ hholder'))
    · exact (hs.distinct q p id key₁ key (hid' ▸ hholder) hp).trans hrp.symm
    · exact hs.distinct q r id' key₁ key₂ hholder hholder'
  · exact hs.releasedOnce
  · exact hs.old

theorem release (hs : Sound h) {p : P} {id : ℕ} {key : Option K}
    (hp : h.holder p = some (id, key)) : Sound (h.release p id key) := by
  have hkept : ∀ q id' key', (h.release p id key).holder q = some (id', key') →
      q ≠ p ∧ h.holder q = some (id', key') := by
    intro q id' key' hq
    rcases update_eq_some hq with ⟨-, heq⟩ | hother
    · simp at heq
    · exact hother
  constructor
  · intro k hk
    obtain ⟨hne, q, id', hqp, hentry, hholder, hlatest⟩ := hs.found_elsewhere hp hk
    exact ⟨q, id', (if_neg hne).trans hentry, (Function.update_of_ne hqp ..).trans hholder,
      hlatest⟩
  · intro q id' k hq
    obtain ⟨hqp, hholder⟩ := hkept q id' (some k) hq
    obtain ⟨hopen, hentry⟩ := hs.reached q id' k hholder
    have hne := hs.key_ne hp hholder hqp
    exact ⟨(closeKey_eq_true_iff _ _ _).mpr ⟨hne, hopen⟩, (if_neg hne).trans hentry⟩
  · intro q id' key' hq
    obtain ⟨hqp, hholder⟩ := hkept q id' key' hq
    obtain ⟨hlt, hreleased⟩ := hs.fresh q id' key' hholder
    refine ⟨hlt, fun hmem => ?_⟩
    rcases List.mem_cons.mp hmem with rfl | hmem
    · exact hqp (hs.distinct q p _ key' key hholder hp)
    · exact hreleased hmem
  · intro q r id' key₁ key₂ hq hr
    exact hs.distinct q r id' key₁ key₂ (hkept q id' key₁ hq).2 (hkept r id' key₂ hr).2
  · exact List.nodup_cons.mpr ⟨(hs.fresh p id key hp).2, hs.releasedOnce⟩
  · intro id' hmem
    rcases List.mem_cons.mp hmem with rfl | hmem
    · exact (hs.fresh p _ key hp).1
    · exact hs.old id' hmem

end Sound

end HandleTable

end WarpApi

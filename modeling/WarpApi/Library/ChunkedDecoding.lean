import Mathlib.Data.List.Basic
import Mathlib.Data.List.Infix

/-!
Decoders that are fed a stream in chunks. A decoder looks at a state and at the
bytes not yet consumed; it either produces one item and says how many bytes the
item took, or it waits for more. `Emits` collects everything that can be
observed of a run: the items produced so far and, once the run has ended, the
bytes left over. A decoder whose decisions on the bytes received so far survive
every extension emits the same whichever way the stream is cut.
-/
namespace WarpApi

structure Decoder (τ α β : Type*) where
  next : τ → List α → Option (τ × β × ℕ)

namespace Decoder

variable {τ α β : Type*} (d : Decoder τ α β)

/-- Observations of a run over the pending bytes and the chunks still to come.
A run that never stops has only the observations with `none`. -/
inductive Emits : τ → List α → List (List α) → List β → Option (List α) → Prop
  | now (t : τ) (pending : List α) (chunks : List (List α)) : Emits t pending chunks [] none
  | done {t : τ} {pending : List α} (h : d.next t pending = none) :
      Emits t pending [] [] (some pending)
  | item {t t' : τ} {pending : List α} {chunks : List (List α)} {b : β} {n : ℕ} {bs : List β}
      {rest : Option (List α)} (h : d.next t pending = some (t', b, n))
      (htail : Emits t' (pending.drop n) chunks bs rest) : Emits t pending chunks (b :: bs) rest
  | more {t : τ} {pending chunk : List α} {chunks : List (List α)} {bs : List β}
      {rest : Option (List α)} (h : d.next t pending = none)
      (htail : Emits t (pending ++ chunk) chunks bs rest) :
      Emits t pending (chunk :: chunks) bs rest

/-- The items taken from the pending bytes alone, without waiting. -/
inductive Takes : τ → List α → List β → τ → List α → Prop
  | refl (t : τ) (pending : List α) : Takes t pending [] t pending
  | item {t t' t'' : τ} {pending rest : List α} {b : β} {n : ℕ} {bs : List β}
      (h : d.next t pending = some (t', b, n)) (htail : Takes t' (pending.drop n) bs t'' rest) :
      Takes t pending (b :: bs) t'' rest

/-- An item found here is found unchanged behind every extension. -/
def StableAt (t : τ) (pending : List α) : Prop :=
  ∀ t' b n, d.next t pending = some (t', b, n) →
    n ≤ pending.length ∧ ∀ extra, d.next t (pending ++ extra) = some (t', b, n)

/-- Every item the pending bytes give is stable. -/
def Settled (t : τ) (pending : List α) : Prop :=
  ∀ bs t' rest, d.Takes t pending bs t' rest → d.StableAt t' rest

variable {d}

theorem Settled.stableAt {t : τ} {pending : List α} (h : d.Settled t pending) :
    d.StableAt t pending := h [] t pending (Takes.refl t pending)

theorem Settled.drop {t t' : τ} {pending : List α} {b : β} {n : ℕ} (h : d.Settled t pending)
    (hnext : d.next t pending = some (t', b, n)) : d.Settled t' (pending.drop n) := by
  intro bs t'' rest htakes
  exact h (b :: bs) t'' rest (Takes.item hnext htakes)

/-- Decoding is deterministic: items taken at once are what every run emits first. -/
theorem Takes.emits_append_iff {t t' : τ} {pending rest : List α} {bs : List β}
    (h : d.Takes t pending bs t' rest) (chunks : List (List α)) (os : List β)
    (fin : Option (List α)) :
    d.Emits t pending chunks (bs ++ os) fin ↔ d.Emits t' rest chunks os fin := by
  induction h with
  | refl t pending => rfl
  | @item t t' t'' pending rest b n bs hnext htail ih =>
    constructor
    · intro hemits
      cases hemits with
      | item hnext' htail' =>
        have heq := Option.some.inj (hnext.symm.trans hnext')
        simp only [Prod.mk.injEq] at heq
        obtain ⟨rfl, -, rfl⟩ := heq
        exact ih.mp htail'
      | more hnone _ => exact absurd (hnext.symm.trans hnone) (by simp)
    · intro hemits
      exact Emits.item hnext (ih.mpr hemits)

theorem emits_one_of_next {t t' : τ} {pending : List α} {b c : β} {n : ℕ}
    {chunks : List (List α)} {os : List β} {fin : Option (List α)}
    (hnext : d.next t pending = some (t', b, n)) (h : d.Emits t pending chunks (c :: os) fin) :
    c = b ∧ d.Emits t' (pending.drop n) chunks os fin := by
  cases h with
  | item hnext' htail =>
    have heq := Option.some.inj (hnext.symm.trans hnext')
    simp only [Prod.mk.injEq] at heq
    obtain ⟨rfl, rfl, rfl⟩ := heq
    exact ⟨rfl, htail⟩
  | more hnone _ => exact absurd (hnext.symm.trans hnone) (by simp)

/-- Behind settled bytes it makes no difference whether a chunk has arrived yet. -/
theorem Settled.emits_cons_iff {t : τ} {pending chunk : List α} {chunks : List (List α)}
    {bs : List β} {fin : Option (List α)} (hs : d.Settled t pending) :
    d.Emits t pending (chunk :: chunks) bs fin ↔
      d.Emits t (pending ++ chunk) chunks bs fin := by
  constructor
  · intro h
    generalize hcs : chunk :: chunks = cs at h
    induction h with
    | now t pending cs => exact Emits.now t _ chunks
    | done h => exact absurd hcs (by simp)
    | item hnext htail ih =>
      obtain ⟨hle, hext⟩ := hs.stableAt _ _ _ hnext
      refine Emits.item (hext chunk) ?_
      rw [List.drop_append_of_le_length hle]
      exact ih (hs.drop hnext) hcs
    | more hnone htail ih =>
      obtain ⟨rfl, rfl⟩ := List.cons.inj hcs
      exact htail
  · intro h
    generalize hp : pending ++ chunk = whole at h
    induction h generalizing pending with
    | now t whole cs => exact Emits.now t pending (chunk :: cs)
    | @done t whole hnone =>
      subst hp
      cases hnext : d.next t pending with
      | none => exact Emits.more hnext (Emits.done hnone)
      | some r =>
        obtain ⟨t', b, n⟩ := r
        have hext := (hs.stableAt t' b n hnext).2 chunk
        exact absurd (hext.symm.trans hnone) (by simp)
    | @item t t' whole cs b n bs rest hnext' htail ih =>
      subst hp
      cases hnext : d.next t pending with
      | none => exact Emits.more hnext (Emits.item hnext' htail)
      | some r =>
        obtain ⟨t₁, b₁, n₁⟩ := r
        obtain ⟨hle, hext⟩ := hs.stableAt t₁ b₁ n₁ hnext
        have heq := Option.some.inj ((hext chunk).symm.trans hnext')
        simp only [Prod.mk.injEq] at heq
        obtain ⟨rfl, rfl, rfl⟩ := heq
        refine Emits.item hnext (ih (hs.drop hnext) ?_)
        rw [List.drop_append_of_le_length hle]
    | @more t whole c cs bs rest hnone htail ih =>
      subst hp
      cases hnext : d.next t pending with
      | none => exact Emits.more hnext (Emits.more hnone htail)
      | some r =>
        obtain ⟨t', b, n⟩ := r
        have hext := (hs.stableAt t' b n hnext).2 chunk
        exact absurd (hext.symm.trans hnone) (by simp)

/-- Chunks whose cuts are all settled may be joined, whatever follows them. -/
theorem emits_append_iff {t : τ} {pending : List α} {pre post : List (List α)} {bs : List β}
    {fin : Option (List α)}
    (hs : ∀ ps qs, pre = ps ++ qs → qs ≠ [] → d.Settled t (pending ++ ps.flatten)) :
    d.Emits t pending (pre ++ post) bs fin ↔ d.Emits t (pending ++ pre.flatten) post bs fin := by
  induction pre generalizing pending with
  | nil => simp
  | cons c cs ih =>
    have hfirst : d.Settled t pending := by simpa using hs [] (c :: cs) rfl (by simp)
    rw [List.cons_append, hfirst.emits_cons_iff, ih, List.flatten_cons, List.append_assoc]
    intro ps qs heq hqs
    have h := hs (c :: ps) qs (by simp [heq]) hqs
    simpa only [List.flatten_cons, List.append_assoc] using h

end Decoder

end WarpApi

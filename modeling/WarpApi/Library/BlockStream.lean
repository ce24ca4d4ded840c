import Mathlib.Data.List.Basic
import Mathlib.Data.List.Infix

/-!
A stream of blocks that is received up to some place. In front of the cut are whole blocks
and a part of the next one; what is received then completes more of them.
-/
namespace WarpApi

/-- The blocks `done` have been received, and of the next block only `rest`. -/
structure Cut {α β : Type*} (f : α → List β) (xs : List α) (received : List β)
    (done left : List α) (rest : List β) : Prop where
  items_eq : xs = done ++ left
  received_eq : received = done.flatMap f ++ rest
  part : ∀ x ∈ left.head?, rest <+: f x ∧ rest ≠ f x
  last : left = [] → rest = []

namespace Cut

variable {α β : Type*} {f : α → List β} {xs done left more later : List α}
  {received rest chunk rest' : List β}

/-- Every beginning of a stream of blocks ends somewhere in it. -/
theorem exists_of_prefix (h : received <+: xs.flatMap f) :
    ∃ done left rest, Cut f xs received done left rest := by
  induction xs generalizing received with
  | nil =>
    obtain rfl := List.prefix_nil.mp h
    exact ⟨[], [], [], rfl, rfl, fun x hx => by simp at hx, fun _ => rfl⟩
  | cons x xs ih =>
    rw [List.flatMap_cons] at h
    by_cases hwhole : f x <+: received
    · obtain ⟨tail, rfl⟩ := hwhole
      obtain ⟨done, left, rest, hcut⟩ := ih ((List.prefix_append_right_inj _).mp h)
      refine ⟨x :: done, left, rest, ?_, ?_, hcut.part, hcut.last⟩
      · rw [hcut.items_eq, List.cons_append]
      · rw [hcut.received_eq, List.flatMap_cons, List.append_assoc]
    · have hpart : received <+: f x :=
        (List.prefix_or_prefix_of_prefix h (List.prefix_append _ _)).resolve_right hwhole
      refine ⟨[], x :: xs, received, rfl, rfl, ?_, fun hnil => by simp at hnil⟩
      intro y hy
      obtain rfl : x = y := by simpa using hy
      refine ⟨hpart, ?_⟩
      rintro rfl
      exact hwhole (List.prefix_refl _)

theorem isPrefix (h : Cut f xs received done left rest) : received <+: xs.flatMap f := by
  rw [h.items_eq, h.received_eq, List.flatMap_append, List.prefix_append_right_inj]
  cases left with
  | nil =>
    rw [h.last rfl]
    exact List.nil_prefix
  | cons x left =>
    rw [List.flatMap_cons]
    exact (h.part x rfl).1.trans (List.prefix_append _ _)

/-- A later cut of the stream, from the earlier one on. -/
theorem append (h : Cut f xs received done left rest)
    (h' : Cut f left (rest ++ chunk) more later rest') :
    Cut f xs (received ++ chunk) (done ++ more) later rest' where
  items_eq := by rw [h.items_eq, h'.items_eq, List.append_assoc]
  received_eq := by
    rw [h.received_eq, List.append_assoc, h'.received_eq, List.flatMap_append, List.append_assoc]
  part := h'.part
  last := h'.last

/-- What has been received after a further chunk, as a cut of the blocks that were left. -/
theorem exists_append (h : Cut f xs received done left rest)
    (hmore : received ++ chunk <+: xs.flatMap f) :
    ∃ more later rest', Cut f left (rest ++ chunk) more later rest' := by
  apply exists_of_prefix
  rw [h.items_eq, h.received_eq, List.flatMap_append, List.append_assoc] at hmore
  exact (List.prefix_append_right_inj _).mp hmore

/-- Behind the last byte of the stream nothing is left. -/
theorem done_eq_of_whole (h : Cut f xs received done left rest) (hall : received = xs.flatMap f) :
    done = xs := by
  cases left with
  | nil => rw [h.items_eq, List.append_nil]
  | cons x left =>
    obtain ⟨hpart, hne⟩ := h.part x rfl
    rw [h.items_eq, h.received_eq, List.flatMap_append, List.append_cancel_left_eq,
      List.flatMap_cons] at hall
    exfalso
    apply hne
    apply hpart.eq_of_length_le
    rw [hall, List.length_append]
    exact Nat.le_add_right _ _

theorem of_map {γ : Type*} {g : γ → α} {ys : List γ}
    (h : Cut f (ys.map g) received done left rest) :
    ∃ done' left', done = done'.map g ∧ Cut (fun y => f (g y)) ys received done' left' rest := by
  obtain ⟨done', left', rfl, rfl, rfl⟩ := List.map_eq_append_iff.mp h.items_eq
  refine ⟨done', left', rfl, rfl, ?_, ?_, ?_⟩
  · rw [h.received_eq, List.flatMap_map]
  · intro y hy
    apply h.part
    rw [List.head?_map, Option.mem_def.mp hy]
    rfl
  · intro hnil
    apply h.last
    rw [hnil, List.map_nil]

end Cut

end WarpApi

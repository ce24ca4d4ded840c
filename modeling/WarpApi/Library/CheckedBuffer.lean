import Mathlib.Data.List.Basic

/-!
Copies into a buffer of fixed size. A copy that would write behind the end has no result,
and neither has a view that reaches behind it. What the elements are before they are
written is left open. A cursor writes one element after the other and keeps the list of
the positions that it wrote.
-/
namespace WarpApi.CheckedBuffer

variable {α : Type*} {n : ℕ}

/-- `memcpy(buf + pos, xs.data(), xs.size())`. -/
def copyTo (buf : Vector α n) (pos : ℕ) (xs : List α) : Option (Vector α n) :=
  if h : pos + xs.length ≤ n then
    some ⟨(buf.toList.take pos ++ xs ++ buf.toList.drop (pos + xs.length)).toArray, by
      simp only [List.size_toArray, List.length_append, List.length_take, List.length_drop,
        Vector.length_toList]
      omega⟩
  else none

def view (buf : Vector α n) (len : ℕ) : Option (List α) :=
  if len ≤ n then some (buf.toList.take len) else none

variable {buf : Vector α n} {pos : ℕ} {xs ys : List α}

theorem copyTo_eq_none_iff : copyTo buf pos xs = none ↔ n < pos + xs.length := by
  unfold copyTo
  split_ifs with h
  · simp only [false_iff, Nat.not_lt]
    exact h
  · simp only [true_iff]
    omega

theorem copyTo_nil (buf : Vector α n) (h : pos ≤ n) : copyTo buf pos [] = some buf := by
  have hfits : pos + ([] : List α).length ≤ n := h
  rw [copyTo, dif_pos hfits, Option.some.injEq]
  apply Vector.toList_inj.mp
  simp only [Vector.toList_mk, List.append_nil, List.length_nil, Nat.add_zero,
    List.take_append_drop]

/-- A copy that fits keeps what stands in front of it. -/
theorem exists_copyTo (buf : Vector α n) (h : pos + xs.length ≤ n) :
    ∃ buf', copyTo buf pos xs = some buf' ∧
      buf'.toList.take (pos + xs.length) = buf.toList.take pos ++ xs := by
  refine ⟨_, dif_pos h, ?_⟩
  have hlength : (buf.toList.take pos ++ xs).length = pos + xs.length := by
    simp only [List.length_append, List.length_take, Vector.length_toList]
    omega
  simp only [Vector.toList_mk]
  exact List.take_left' hlength

theorem copy_copy_view (buf : Vector α n) (xs ys : List α) :
    ((copyTo buf 0 xs).bind fun buf => (copyTo buf xs.length ys).bind fun buf =>
        view buf (xs.length + ys.length)) =
      if xs.length + ys.length ≤ n then some (xs ++ ys) else none := by
  by_cases hxs : 0 + xs.length ≤ n
  · obtain ⟨buf', hcopy, htake⟩ := exists_copyTo buf hxs
    rw [hcopy, Option.bind_some]
    rw [List.take_zero, List.nil_append, Nat.zero_add] at htake
    by_cases hys : xs.length + ys.length ≤ n
    · obtain ⟨buf'', hcopy', htake'⟩ := exists_copyTo buf' hys
      rw [hcopy', Option.bind_some, view, if_pos hys, htake', htake, if_pos hys]
    · rw [copyTo_eq_none_iff.mpr (Nat.not_le.mp hys), Option.bind_none, if_neg hys]
  · rw [copyTo_eq_none_iff.mpr (Nat.not_le.mp hxs), Option.bind_none, if_neg (by omega)]

structure Cursor (α : Type*) (n : ℕ) where
  buf : Vector α n
  pos : ℕ
  written : List ℕ

namespace Cursor

def start (buf : Vector α n) : Cursor α n := ⟨buf, 0, []⟩

/-- `*ptr++ = x`. -/
def put (out : Cursor α n) (x : α) : Option (Cursor α n) :=
  (copyTo out.buf out.pos [x]).map fun buf => ⟨buf, out.pos + 1, out.written ++ [out.pos]⟩

def putAll (out : Cursor α n) : List α → Option (Cursor α n)
  | [] => some out
  | x :: xs => (out.put x).bind fun out => out.putAll xs

/-- The elements `xs` stand in front of the cursor, each position was written once, and
nothing else was written. -/
structure Filled (out : Cursor α n) (xs : List α) : Prop where
  pos_eq : out.pos = xs.length
  written_eq : out.written = List.range xs.length
  take_eq : out.buf.toList.take xs.length = xs

variable {out : Cursor α n} {x : α}

theorem filled_start (buf : Vector α n) : (start buf).Filled [] where
  pos_eq := rfl
  written_eq := rfl
  take_eq := rfl

theorem Filled.put (h : out.Filled xs) (x : α) (hroom : xs.length < n) :
    ∃ out', out.put x = some out' ∧ out'.Filled (xs ++ [x]) := by
  have hfits : out.pos + [x].length ≤ n := by
    rw [h.pos_eq]
    exact hroom
  obtain ⟨buf, hcopy, htake⟩ := exists_copyTo out.buf hfits
  refine ⟨⟨buf, out.pos + 1, out.written ++ [out.pos]⟩, ?_, ?_, ?_, ?_⟩
  · rw [Cursor.put, hcopy, Option.map_some]
  · rw [List.length_append, h.pos_eq, List.length_singleton]
  · rw [List.length_append, List.length_singleton, List.range_succ, h.written_eq, h.pos_eq]
  · rw [h.pos_eq, h.take_eq] at htake
    rw [List.length_append]
    exact htake

theorem Filled.putAll (h : out.Filled xs) (ys : List α) (hroom : xs.length + ys.length ≤ n) :
    ∃ out', out.putAll ys = some out' ∧ out'.Filled (xs ++ ys) := by
  induction ys generalizing out xs with
  | nil => exact ⟨out, rfl, by rwa [List.append_nil]⟩
  | cons y ys ih =>
    rw [List.length_cons] at hroom
    obtain ⟨out', hput, hfilled⟩ := h.put y (by omega)
    have hrest : (xs ++ [y]).length + ys.length ≤ n := by
      rw [List.length_append, List.length_singleton]
      omega
    obtain ⟨out'', hputAll, hfilled'⟩ := ih hfilled hrest
    refine ⟨out'', ?_, ?_⟩
    · rw [Cursor.putAll, hput, Option.bind_some, hputAll]
    · rwa [List.append_assoc, List.singleton_append] at hfilled'

theorem Filled.toList_eq (h : out.Filled xs) (hfull : xs.length = n) : out.buf.toList = xs := by
  have hlength : out.buf.toList.length ≤ xs.length :=
    Nat.le_of_eq (Vector.length_toList.trans hfull.symm)
  exact (List.take_of_length_le hlength).symm.trans h.take_eq

theorem Filled.count_written (h : out.Filled xs) (pos : ℕ) :
    out.written.count pos = if pos < xs.length then 1 else 0 := by
  rw [h.written_eq, List.count_range]

end Cursor

end WarpApi.CheckedBuffer

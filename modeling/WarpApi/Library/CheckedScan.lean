import Mathlib.Data.List.Basic
import Mathlib.Data.List.TakeWhile

/-!
Reading a list through positions. A read behind the end has no result, so a scan that has
one has read nothing but elements of the list. A scan ends where it would on the part of
the list between its two positions.
-/
namespace WarpApi.CheckedScan

variable {α : Type*}

/-- The elements from position p up to position q. -/
def slice (xs : List α) (p q : ℕ) : List α := (xs.drop p).take (q - p)

/-- `while (p < stop && go(*p)) ++p;` in at most `turns` turns. -/
def scanLoop (xs : List α) (go : α → Bool) (stop : ℕ) : ℕ → ℕ → Option ℕ
  | 0, p => some p
  | turns + 1, p =>
    if p < stop then xs[p]?.bind fun x => if go x then scanLoop xs go stop turns (p + 1) else some p
    else some p

def scan (xs : List α) (go : α → Bool) (stop p : ℕ) : Option ℕ :=
  scanLoop xs go stop (stop - p) p

variable {xs : List α} {p q : ℕ}

theorem slice_of_le (h : q ≤ p) : slice xs p q = [] := by
  rw [slice, Nat.sub_eq_zero_of_le h, List.take_zero]

theorem slice_length (xs : List α) (p : ℕ) : slice xs p xs.length = xs.drop p := by
  rw [slice, List.take_of_length_le (by rw [List.length_drop])]

theorem length_slice (hq : q ≤ xs.length) : (slice xs p q).length = q - p := by
  rw [slice, List.length_take, List.length_drop]
  omega

theorem drop_slice (xs : List α) (p q n : ℕ) : (slice xs p q).drop n = slice xs (p + n) q := by
  rw [slice, slice, List.drop_take, List.drop_drop]
  congr 1
  omega

theorem take_slice {n : ℕ} (h : p + n ≤ q) : (slice xs p q).take n = slice xs p (p + n) := by
  rw [slice, slice, List.take_take]
  congr 1
  omega

theorem slice_eq_cons (xs : List α) (hp : p < q) (hq : q ≤ xs.length) :
    ∃ x, xs[p]? = some x ∧ slice xs p q = x :: slice xs (p + 1) q := by
  have hlt : p < xs.length := by omega
  refine ⟨xs[p], List.getElem?_eq_getElem hlt, ?_⟩
  rw [slice, slice, List.drop_eq_getElem_cons hlt, show q - p = (q - (p + 1)) + 1 by omega,
    List.take_succ_cons]

/-- A scan inside the list reads only inside, and stops behind the elements it passes. -/
theorem scan_eq (xs : List α) (go : α → Bool) (hp : p ≤ q) (hq : q ≤ xs.length) :
    scan xs go q p = some (p + ((slice xs p q).takeWhile go).length) := by
  unfold scan
  induction hn : q - p generalizing p with
  | zero =>
    rw [scanLoop, slice_of_le (by omega)]
    rfl
  | succ n ih =>
    obtain ⟨x, hx, hslice⟩ := slice_eq_cons xs (p := p) (q := q) (by omega) hq
    rw [scanLoop, if_pos (by omega), hx, hslice, Option.bind_some, List.takeWhile_cons]
    cases go x with
    | true =>
      rw [if_pos rfl, if_pos rfl, ih (by omega) (by omega), List.length_cons]
      congr 1
      omega
    | false => rfl

theorem scan_le (go : α → Bool) (hp : p ≤ q) (hq : q ≤ xs.length) :
    p + ((slice xs p q).takeWhile go).length ≤ q := by
  have hle := (List.takeWhile_prefix (l := slice xs p q) go).length_le
  rw [length_slice hq] at hle
  omega

theorem takeWhile_slice (go : α → Bool) (hp : p ≤ q) (hq : q ≤ xs.length) :
    (slice xs p q).takeWhile go =
      slice xs p (p + ((slice xs p q).takeWhile go).length) := by
  rw [← take_slice (scan_le go hp hq)]
  exact List.prefix_iff_eq_take.mp (List.takeWhile_prefix go)

end WarpApi.CheckedScan

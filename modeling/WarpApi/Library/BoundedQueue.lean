import Mathlib.Data.List.Basic
import Mathlib.Data.List.Infix

/-!
A bounded first-in first-out queue that remembers everything ever written to
it. The unread part is what lies behind the read position, so a statement about
the order of all bytes that went through the queue is one about `written`.
-/
namespace WarpApi

/-- `written` is the whole history; the queue holds its part from `readPos` on. -/
structure BoundedQueue (α : Type*) where
  capacity : ℕ
  written : List α
  readPos : ℕ
  readPos_le : readPos ≤ written.length
  size_le : written.length - readPos ≤ capacity

namespace BoundedQueue

variable {α : Type*}

def empty (capacity : ℕ) : BoundedQueue α :=
  ⟨capacity, [], 0, Nat.le_refl _, Nat.zero_le _⟩

def unread (q : BoundedQueue α) : List α := q.written.drop q.readPos

def size (q : BoundedQueue α) : ℕ := q.written.length - q.readPos

def free (q : BoundedQueue α) : ℕ := q.capacity - q.size

/-- Append as many elements as fit. -/
def push (q : BoundedQueue α) (xs : List α) : BoundedQueue α where
  capacity := q.capacity
  written := q.written ++ xs.take q.free
  readPos := q.readPos
  readPos_le := by
    have h := q.readPos_le
    simp only [List.length_append]
    omega
  size_le := by
    have h := q.size_le
    have h' := q.readPos_le
    simp only [List.length_append, List.length_take, free, size]
    omega

/-- Release the oldest n elements, or all of them when there are fewer. -/
def advance (q : BoundedQueue α) (n : ℕ) : BoundedQueue α where
  capacity := q.capacity
  written := q.written
  readPos := min (q.readPos + n) q.written.length
  readPos_le := Nat.min_le_right _ _
  size_le := by
    have h := q.size_le
    have h' := q.readPos_le
    omega

variable (q : BoundedQueue α)

@[ext] theorem ext {p q : BoundedQueue α} (hc : p.capacity = q.capacity)
    (hw : p.written = q.written) (hr : p.readPos = q.readPos) : p = q := by
  cases p
  cases q
  simp only at hc hw hr
  subst hc hw hr
  rfl

@[simp] theorem length_unread : q.unread.length = q.size := by
  simp only [unread, size, List.length_drop]

theorem size_le_capacity : q.size ≤ q.capacity := q.size_le

theorem size_add_free : q.size + q.free = q.capacity := by
  have h := q.size_le_capacity
  unfold free
  omega

theorem size_eq_zero_iff : q.size = 0 ↔ q.unread = [] := by
  rw [← length_unread, List.length_eq_zero_iff]

@[simp] theorem capacity_empty (capacity : ℕ) :
    (empty capacity : BoundedQueue α).capacity = capacity := rfl

@[simp] theorem capacity_push (xs : List α) : (q.push xs).capacity = q.capacity := rfl

@[simp] theorem capacity_advance (n : ℕ) : (q.advance n).capacity = q.capacity := rfl

theorem unread_push (xs : List α) : (q.push xs).unread = q.unread ++ xs.take q.free := by
  simp only [unread, push]
  rw [List.drop_append_of_le_length q.readPos_le]

theorem written_push_of_le (xs : List α) (h : xs.length ≤ q.free) :
    (q.push xs).written = q.written ++ xs := by
  simp only [push, List.take_of_length_le h]

theorem unread_push_of_le (xs : List α) (h : xs.length ≤ q.free) :
    (q.push xs).unread = q.unread ++ xs := by
  rw [unread_push, List.take_of_length_le h]

theorem written_prefix_push (xs : List α) : q.written <+: (q.push xs).written :=
  List.prefix_append _ _

theorem size_push_of_le (xs : List α) (h : xs.length ≤ q.free) :
    (q.push xs).size = q.size + xs.length := by
  rw [← length_unread, unread_push_of_le q xs h, List.length_append, length_unread]

theorem free_push_of_le (xs : List α) (h : xs.length ≤ q.free) :
    (q.push xs).free = q.free - xs.length := by
  unfold free at *
  rw [size_push_of_le q xs h, capacity_push]
  omega

@[simp] theorem push_nil : q.push [] = q := by
  apply ext
  · rfl
  · simp only [push, List.take_nil, List.append_nil]
  · rfl

theorem push_of_free_eq_zero (xs : List α) (h : q.free = 0) : q.push xs = q := by
  apply ext
  · rfl
  · simp only [push, h, List.take_zero, List.append_nil]
  · rfl

theorem size_push (xs : List α) : (q.push xs).size = q.size + min xs.length q.free := by
  rw [← length_unread, unread_push, List.length_append, List.length_take, length_unread,
    Nat.min_comm]

/-- A push appends all or nothing exactly when all of it fits or there is no room at all. -/
theorem push_whole_iff (xs : List α) (hne : xs ≠ []) :
    ((q.push xs).unread = q.unread ++ xs ∨ q.push xs = q) ↔ xs.length ≤ q.free ∨ q.free = 0 := by
  have hpos : 0 < xs.length := List.length_pos_iff.mpr hne
  constructor
  · rintro (hall | hnone)
    · have hlen := congrArg List.length hall
      rw [length_unread, size_push, List.length_append, length_unread] at hlen
      omega
    · have hsize := q.size_push xs
      rw [hnone] at hsize
      omega
  · rintro (hfits | hfull)
    · exact Or.inl (q.unread_push_of_le xs hfits)
    · exact Or.inr (q.push_of_free_eq_zero xs hfull)

/-- Writing again what did not fit appends nothing more. -/
theorem push_push_drop (xs : List α) :
    (q.push xs).push (xs.drop (min xs.length q.free)) = q.push xs := by
  by_cases h : xs.length ≤ q.free
  · rw [Nat.min_eq_left h, List.drop_length, push_nil]
  · apply push_of_free_eq_zero
    have h1 := q.size_add_free
    have h2 := size_push q xs
    unfold free at *
    rw [capacity_push]
    omega

/-- Two writes are one write of both, also where not all of it fits. -/
theorem push_push (xs ys : List α) : (q.push xs).push ys = q.push (xs ++ ys) := by
  have hfree : (q.push xs).free = q.free - xs.length := by
    have h := q.size_add_free
    have h' := (q.push xs).size_add_free
    rw [size_push, capacity_push] at h'
    omega
  apply ext
  · rfl
  · show q.written ++ xs.take q.free ++ ys.take (q.push xs).free =
      q.written ++ (xs ++ ys).take q.free
    rw [hfree, List.take_append, List.append_assoc]
  · rfl

theorem unread_advance (n : ℕ) : (q.advance n).unread = q.unread.drop n := by
  simp only [unread, advance, List.drop_drop]
  by_cases h : q.readPos + n ≤ q.written.length
  · rw [Nat.min_eq_left h]
  · rw [Nat.min_eq_right (by omega), List.drop_length, List.drop_eq_nil_of_le (by omega)]

theorem size_advance (n : ℕ) : (q.advance n).size = q.size - n := by
  rw [← length_unread, unread_advance, List.length_drop, length_unread]

/-- What fits may be appended before or after old elements are released. -/
theorem push_advance (xs : List α) (n : ℕ) (hxs : xs.length ≤ q.free) (hn : n ≤ q.size) :
    (q.push xs).advance n = (q.advance n).push xs := by
  have hread := q.readPos_le
  have hfree : xs.length ≤ (q.advance n).free := by
    unfold free at hxs ⊢
    rw [size_advance, capacity_advance]
    omega
  apply ext
  · rfl
  · rw [written_push_of_le _ _ hfree]
    exact written_push_of_le q xs hxs
  · simp only [advance, push, List.length_append]
    unfold size at hn
    omega

theorem free_le_free_advance (n : ℕ) : q.free ≤ (q.advance n).free := by
  unfold free
  rw [size_advance, capacity_advance]
  omega

end BoundedQueue

end WarpApi

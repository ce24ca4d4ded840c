import Mathlib.Data.List.Basic

/-!
Codes whose encodings tell where they end. The decoder takes one item from the front of
the data and leaves the rest; a series of items that were written one behind the other is
then read back, and by no other series.
-/
namespace WarpApi

/-- A decoder that accepts exactly the encodings of valid items, with anything behind. -/
structure SelfDelimiting (α β : Type*) where
  valid : α → Prop
  encode : α → List β
  decode : List β → Option (α × List β)
  encode_ne_nil : ∀ a, encode a ≠ []
  decode_encode : ∀ a rest, valid a → decode (encode a ++ rest) = some (a, rest)
  valid_of_decode : ∀ data a rest, decode data = some (a, rest) →
    valid a ∧ data = encode a ++ rest

namespace SelfDelimiting

variable {α β : Type*} (c : SelfDelimiting α β)

/-- Items until nothing is left; every item takes something, so the length of the data
bounds their number. -/
def decodeUpTo : ℕ → List β → Option (List α)
  | _, [] => some []
  | 0, _ :: _ => none
  | turns + 1, b :: bs =>
    (c.decode (b :: bs)).bind fun item => (decodeUpTo turns item.2).map (item.1 :: ·)

def decodeAll (data : List β) : Option (List α) := c.decodeUpTo data.length data

theorem flatMap_encode_eq_nil_iff (items : List α) :
    items.flatMap c.encode = [] ↔ items = [] := by
  cases items with
  | nil => simp
  | cons a items => simp [c.encode_ne_nil a]

theorem decodeUpTo_nil_iff (turns : ℕ) (items : List α) :
    c.decodeUpTo turns [] = some items ↔
      (∀ a ∈ items, c.valid a) ∧ [] = items.flatMap c.encode := by
  have hnil : c.decodeUpTo turns [] = some [] := by
    cases turns <;> rfl
  rw [hnil, Option.some.injEq, eq_comm (b := items.flatMap c.encode), flatMap_encode_eq_nil_iff]
  constructor
  · rintro rfl
    exact ⟨fun a ha => absurd ha List.not_mem_nil, rfl⟩
  · exact fun h => h.2.symm

theorem length_rest_lt {data rest : List β} {a : α} (h : c.decode data = some (a, rest)) :
    rest.length < data.length := by
  obtain ⟨-, rfl⟩ := c.valid_of_decode data a rest h
  have hpos : 0 < (c.encode a).length := List.length_pos_iff.mpr (c.encode_ne_nil a)
  rw [List.length_append]
  omega

theorem decodeUpTo_eq_some_iff (turns : ℕ) (data : List β) (items : List α)
    (hturns : data.length ≤ turns) :
    c.decodeUpTo turns data = some items ↔
      (∀ a ∈ items, c.valid a) ∧ data = items.flatMap c.encode := by
  induction turns generalizing data items with
  | zero =>
    obtain rfl := List.length_eq_zero_iff.mp (Nat.le_zero.mp hturns)
    exact c.decodeUpTo_nil_iff 0 items
  | succ turns ih =>
    cases data with
    | nil => exact c.decodeUpTo_nil_iff (turns + 1) items
    | cons b bs =>
      simp only [decodeUpTo, Option.bind_eq_some_iff, Option.map_eq_some_iff, Prod.exists]
      constructor
      · rintro ⟨a, rest, hdecode, later, hlater, rfl⟩
        have hlt := c.length_rest_lt hdecode
        obtain ⟨hvalid, hdata⟩ := c.valid_of_decode _ a rest hdecode
        obtain ⟨hrest, rfl⟩ := (ih rest later (by omega)).mp hlater
        exact ⟨List.forall_mem_cons.mpr ⟨hvalid, hrest⟩, hdata⟩
      · rintro ⟨hvalid, hdata⟩
        cases items with
        | nil => simp at hdata
        | cons a later =>
          obtain ⟨ha, hlater⟩ := List.forall_mem_cons.mp hvalid
          have hdecode : c.decode (b :: bs) = some (a, later.flatMap c.encode) := by
            rw [hdata, List.flatMap_cons]
            exact c.decode_encode a _ ha
          have hlt := c.length_rest_lt hdecode
          exact ⟨a, _, hdecode, later, (ih _ later (by omega)).mpr ⟨hlater, rfl⟩, rfl⟩

/-- Exactly the series of valid items that makes up the data is read back. -/
theorem decodeAll_eq_some_iff (data : List β) (items : List α) :
    c.decodeAll data = some items ↔
      (∀ a ∈ items, c.valid a) ∧ data = items.flatMap c.encode :=
  c.decodeUpTo_eq_some_iff _ data items (Nat.le_refl _)

end SelfDelimiting

end WarpApi

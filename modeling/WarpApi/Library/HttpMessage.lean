import Mathlib.Data.List.Basic
import Mathlib.Data.List.TakeWhile

/-!
A reader for HTTP/1.1 responses. It takes one message from the front of a byte
string: the status line, the header fields up to the blank line, and the body,
whose length is that of the Content-Length field. Without such a field the body
goes on to the end of the bytes. The fields that `head` writes are read back.
-/
namespace WarpApi.HttpMessage

abbrev Octets := List UInt8

def crlf : Octets := [13, 10]

structure Message where
  version : Octets
  status : Octets
  fields : List (Octets × Octets)
  body : Octets
  deriving DecidableEq

/-- The bytes up to the first CR, which has to be followed by LF. -/
def readLine (data : Octets) : Option (Octets × Octets) :=
  let line := data.takeWhile (· != 13)
  match data.drop line.length with
  | 13 :: 10 :: rest => some (line, rest)
  | _ => none

/-- Two parts around the first occurrence of the separator. -/
def splitAtByte (sep : UInt8) (line : Octets) : Option (Octets × Octets) :=
  let left := line.takeWhile (· != sep)
  match line.drop left.length with
  | _ :: right => some (left, right)
  | [] => none

/-- Field name and value; one space may stand behind the colon. -/
def readField (line : Octets) : Option (Octets × Octets) :=
  (splitAtByte 58 line).map fun (name, value) =>
    (name, if value.head? = some 32 then value.tail else value)

/-- Field lines up to the blank line. Each takes at least two bytes. -/
def readFields : ℕ → Octets → Option (List (Octets × Octets) × Octets)
  | 0, _ => none
  | turns + 1, data =>
    match readLine data with
    | none => none
    | some ([], rest) => some ([], rest)
    | some (line, rest) =>
      match readField line, readFields turns rest with
      | some field, some (fields, rest) => some (field :: fields, rest)
      | _, _ => none

def lower (c : UInt8) : UInt8 := if 65 ≤ c ∧ c ≤ 90 then c + 32 else c

/-- Field names are compared without regard to case. -/
def sameName (a b : Octets) : Bool := a.map lower == b.map lower

def contentLengthName : Octets := "Content-Length".toList.map fun c => UInt8.ofNat c.toNat

def isContentLength (field : Octets × Octets) : Bool := sameName field.1 contentLengthName

def readDigit (c : UInt8) : Option ℕ := if 48 ≤ c ∧ c ≤ 57 then some (c.toNat - 48) else none

def readNumber (text : Octets) : Option ℕ :=
  if text = [] then none
  else (text.mapM readDigit).map fun ds => ds.foldl (fun n d => 10 * n + d) 0

/-- The body at the front of the remaining bytes. -/
def readBody (fields : List (Octets × Octets)) (rest : Octets) : Option Octets :=
  match fields.filter isContentLength with
  | [] => some rest
  | [field] => (readNumber field.2).bind fun n =>
    if n ≤ rest.length then some (rest.take n) else none
  | _ => none

def read (data : Octets) : Option Message :=
  (readLine data).bind fun (line, rest) =>
    (splitAtByte 32 line).bind fun (version, status) =>
      (readFields (rest.length + 1) rest).bind fun (fields, rest) =>
        (readBody fields rest).map fun body => ⟨version, status, fields, body⟩

def fieldLine (field : Octets × Octets) : Octets := field.1 ++ [58, 32] ++ field.2 ++ crlf

def head (version status : Octets) (fields : List (Octets × Octets)) : Octets :=
  version ++ [32] ++ status ++ crlf ++ fields.flatMap fieldLine ++ crlf

/-- A field that keeps its line and its name apart from the rest. -/
structure WellFormedField (field : Octets × Octets) : Prop where
  name_cr : 13 ∉ field.1
  name_colon : 58 ∉ field.1
  value_cr : 13 ∉ field.2

theorem takeWhile_append_cons {α : Type*} {p : α → Bool} {left : List α} {stop : α}
    (right : List α) (hleft : ∀ d ∈ left, p d = true) (hstop : p stop = false) :
    (left ++ stop :: right).takeWhile p = left := by
  rw [List.takeWhile_append_of_pos hleft, List.takeWhile_cons, hstop]
  simp

theorem takeWhile_append_stop {sep : UInt8} (left right : Octets) (h : sep ∉ left) :
    (left ++ sep :: right).takeWhile (· != sep) = left :=
  takeWhile_append_cons right (fun _ hd => bne_iff_ne.mpr fun heq => h (heq ▸ hd)) (by simp)

theorem readLine_append (line rest : Octets) (h : 13 ∉ line) :
    readLine (line ++ crlf ++ rest) = some (line, rest) := by
  have hdata : line ++ crlf ++ rest = line ++ 13 :: (10 :: rest) := by simp [crlf]
  rw [hdata, readLine, takeWhile_append_stop line _ h]
  simp only [List.drop_left]

theorem splitAtByte_append (sep : UInt8) (left right : Octets) (h : sep ∉ left) :
    splitAtByte sep (left ++ sep :: right) = some (left, right) := by
  rw [splitAtByte, takeWhile_append_stop left right h]
  simp only [List.drop_left]

theorem notMem_takeWhile (sep : UInt8) (data : Octets) : sep ∉ data.takeWhile (· != sep) := by
  intro hmem
  have hne := List.mem_takeWhile_imp hmem
  simp at hne

theorem notMem_of_splitAtByte {sep : UInt8} {line left right : Octets}
    (h : splitAtByte sep line = some (left, right)) : sep ∉ left := by
  unfold splitAtByte at h
  dsimp only at h
  split at h
  · simp only [Option.some.injEq, Prod.mk.injEq] at h
    rw [← h.1]
    exact notMem_takeWhile _ _
  · simp at h

theorem notMem_of_readLine {data line rest : Octets} (h : readLine data = some (line, rest)) :
    13 ∉ line := by
  unfold readLine at h
  dsimp only at h
  split at h
  · simp only [Option.some.injEq, Prod.mk.injEq] at h
    rw [← h.1]
    exact notMem_takeWhile _ _
  · simp at h

theorem left_subset_of_splitAtByte {sep : UInt8} {line left right : Octets}
    (h : splitAtByte sep line = some (left, right)) : left ⊆ line := by
  unfold splitAtByte at h
  dsimp only at h
  split at h
  · simp only [Option.some.injEq, Prod.mk.injEq] at h
    exact h.1 ▸ (List.takeWhile_prefix _).subset
  · simp at h

theorem readFields_render (fields : List (Octets × Octets)) (rest : Octets) (turns : ℕ)
    (hfields : ∀ f ∈ fields, WellFormedField f) (hturns : fields.length < turns) :
    readFields turns (fields.flatMap fieldLine ++ crlf ++ rest) = some (fields, rest) := by
  induction fields generalizing turns with
  | nil =>
    obtain ⟨turns, rfl⟩ : ∃ k, turns = k + 1 := ⟨turns - 1, by simp at hturns; omega⟩
    have hblank := readLine_append [] rest (by simp)
    rw [List.flatMap_nil, readFields, hblank]
  | cons field fields ih =>
    obtain ⟨turns, rfl⟩ : ∃ k, turns = k + 1 := ⟨turns - 1, by simp at hturns; omega⟩
    have hfield := hfields field (List.mem_cons_self ..)
    have hline : 13 ∉ field.1 ++ [58, 32] ++ field.2 := by
      simp only [List.mem_append, not_or]
      exact ⟨⟨hfield.name_cr, by decide⟩, hfield.value_cr⟩
    have hsplit : readField (field.1 ++ [58, 32] ++ field.2) = some field := by
      have heq : field.1 ++ [58, 32] ++ field.2 = field.1 ++ 58 :: (32 :: field.2) := by simp
      rw [heq, readField, splitAtByte_append 58 _ _ hfield.name_colon]
      rfl
    have hdata : (field :: fields).flatMap fieldLine ++ crlf ++ rest =
        field.1 ++ [58, 32] ++ field.2 ++ crlf ++ (fields.flatMap fieldLine ++ crlf ++ rest) := by
      simp only [List.flatMap_cons, fieldLine, List.append_assoc]
    have hrest := ih turns (fun f hf => hfields f (List.mem_cons_of_mem _ hf))
      (by simpa using hturns)
    rw [hdata, readFields, readLine_append _ _ hline]
    have hne : field.1 ++ [58, 32] ++ field.2 ≠ [] := by simp
    split
    · rename_i heq
      simp at heq
    · rename_i heq
      simp only [Option.some.injEq, Prod.mk.injEq] at heq
      exact absurd heq.1 hne
    · rename_i line rest' _ heq
      simp only [Option.some.injEq, Prod.mk.injEq] at heq
      obtain ⟨rfl, rfl⟩ := heq
      rw [hsplit, hrest]

theorem read_head_append (version status : Octets) (fields : List (Octets × Octets))
    (rest : Octets) (hversion : 13 ∉ version ∧ 32 ∉ version) (hstatus : 13 ∉ status)
    (hfields : ∀ f ∈ fields, WellFormedField f) :
    read (head version status fields ++ rest) =
      (readBody fields rest).map fun body => ⟨version, status, fields, body⟩ := by
  have hline : 13 ∉ version ++ [32] ++ status := by
    simp only [List.mem_append, not_or]
    exact ⟨⟨hversion.1, by decide⟩, hstatus⟩
  have hdata : head version status fields ++ rest =
      version ++ [32] ++ status ++ crlf ++ (fields.flatMap fieldLine ++ crlf ++ rest) := by
    simp only [head, List.append_assoc]
  have hsplit : splitAtByte 32 (version ++ [32] ++ status) = some (version, status) := by
    have heq : version ++ [32] ++ status = version ++ 32 :: status := by simp
    rw [heq, splitAtByte_append 32 _ _ hversion.2]
  have hlength : fields.length ≤ (fields.flatMap fieldLine).length := by
    clear hfields hdata
    induction fields with
    | nil => simp
    | cons f fields ih =>
      simp only [List.flatMap_cons, List.length_append, fieldLine, List.length_cons] at ih ⊢
      omega
  have hread := readFields_render fields rest
    ((fields.flatMap fieldLine ++ crlf ++ rest).length + 1) hfields (by
      simp only [List.length_append]
      omega)
  rw [read, hdata, readLine_append _ _ hline]
  simp only [Option.bind_some, hsplit, hread]

/-- Whatever is read, the version stands in front of a space on one line. -/
theorem version_of_read {data : Octets} {m : Message} (h : read data = some m) :
    13 ∉ m.version ∧ 32 ∉ m.version := by
  unfold read at h
  simp only [Option.bind_eq_some_iff, Option.map_eq_some_iff] at h
  obtain ⟨⟨line, rest⟩, hline, ⟨version, status⟩, hsplit, ⟨fields, rest'⟩, -, body, -, rfl⟩ := h
  exact ⟨fun hmem => notMem_of_readLine hline (left_subset_of_splitAtByte hsplit hmem),
    notMem_of_splitAtByte hsplit⟩

end WarpApi.HttpMessage

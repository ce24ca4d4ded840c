import WarpApi.Defs

/-!
The percent coding and the comparison of Conversions.cpp. The decoder's table gives the
digits the indices that they have in the source, where '0' to '9' stand 32 places behind
their codes and the letters stand wrong as well, so nearly every escape is decoded to NUL.
-/
namespace WarpApi

def percent : UInt8 := 37
def plus : UInt8 := 43

/-- `std::isalnum` in the C locale. -/
def isAlnum (c : UInt8) : Bool :=
  (48 ≤ c && c ≤ 57) || (65 ≤ c && c ≤ 90) || (97 ≤ c && c ≤ 122)

/-- The bytes that `urlEncode` lets through: letters, digits, and '-', '_', '.', '~'. -/
def isUnreserved (c : UInt8) : Bool :=
  isAlnum c || c == 45 || c == 95 || c == 46 || c == 126

def hexDigits : Bytes := ascii "0123456789ABCDEF"

def urlEncodeByte (c : UInt8) : Bytes :=
  if isUnreserved c then [c]
  else [percent, hexDigits.getD (c >>> 4).toNat 0, hexDigits.getD (c &&& 0xF).toNat 0]

def urlEncode (input : Bytes) : Bytes := input.flatMap urlEncodeByte

/-- The initialiser of `hexval`, row by row; the rest of its 256 entries is zero. -/
def hexvalTable : Bytes :=
  [0, 0, 0, 0, 0, 0, 0, 0, 0, 0, 0, 0, 0, 0, 0, 0,
   0, 0, 0, 0, 0, 0, 0, 0, 0, 0, 0, 0, 0, 0, 0, 0,
   0, 0, 0, 0, 0, 0, 0, 0, 0, 0, 0, 0, 0, 0, 0, 0,
   0, 0, 0, 0, 0, 0, 0, 0, 0, 0, 0, 0, 0, 0, 0, 0,
   0, 0, 0, 0, 0, 0, 0, 0, 0, 0, 0, 0, 0, 0, 0, 0,
   0, 1, 2, 3, 4, 5, 6, 7, 8, 9, 0, 0, 0, 0, 0, 0,
   10, 11, 12, 13, 14, 15, 0, 0, 0, 0, 0, 0, 0, 0, 0, 0,
   0, 0, 0, 0, 0, 0, 0, 0, 0, 0, 0, 0, 0, 0, 0, 0,
   0, 10, 11, 12, 13, 14, 15]

def hexval (c : UInt8) : UInt8 := hexvalTable.getD c.toNat 0

/-- An escape needs two bytes behind the percent sign; without them the sign is dropped,
and an escape with a value above 15 would be dropped as a whole. -/
def urlDecode : Bytes → Bytes
  | [] => []
  | c :: rest =>
    if c = percent then
      match rest with
      | a :: b :: rest =>
        if hexval a < 16 && hexval b < 16 then (hexval a <<< 4 ||| hexval b) :: urlDecode rest
        else urlDecode rest
      | rest => urlDecode rest
    else if c = plus then space :: urlDecode rest
    else c :: urlDecode rest

/-- `std::tolower` in the C locale. -/
def tolower (c : UInt8) : UInt8 := if 65 ≤ c && c ≤ 90 then c + 32 else c

def iequals (a b : Bytes) : Bool :=
  a.length == b.length && (a.zip b).all fun p => tolower p.1 == tolower p.2

theorem urlDecode_cons_of_ne {c : UInt8} (hpercent : c ≠ percent) (rest : Bytes) :
    urlDecode (c :: rest) = (if c = plus then space else c) :: urlDecode rest := by
  have hsplit : urlDecode (c :: rest) =
      if c = plus then space :: urlDecode rest else c :: urlDecode rest := by
    rcases rest with _ | ⟨a, _ | ⟨b, rest⟩⟩ <;> simp [urlDecode, hpercent]
  rw [hsplit]
  split <;> rfl

theorem urlDecode_cons_of_unreserved {c : UInt8} (h : isUnreserved c = true) (rest : Bytes) :
    urlDecode (c :: rest) = c :: urlDecode rest := by
  have hpercent : c ≠ percent := by
    rintro rfl
    exact absurd h (by decide)
  have hplus : c ≠ plus := by
    rintro rfl
    exact absurd h (by decide)
  rw [urlDecode_cons_of_ne hpercent, if_neg hplus]

/-- The table has a zero at each of the encoder's digits. -/
theorem hexval_hexDigits (n : ℕ) : hexval (hexDigits.getD n 0) = 0 := by
  by_cases hn : n < 16
  · have hall : ∀ i : Fin 16, hexval (hexDigits.getD i.val 0) = 0 := by decide
    exact hall ⟨n, hn⟩
  · have hlen : hexDigits.length = 16 := by decide
    rw [List.getD_eq_default _ _ (by omega)]
    rfl

theorem urlDecode_escape (m n : ℕ) (rest : Bytes) :
    urlDecode (percent :: hexDigits.getD m 0 :: hexDigits.getD n 0 :: rest) =
      0 :: urlDecode rest := by
  rw [urlDecode, if_pos rfl, hexval_hexDigits, hexval_hexDigits]
  rfl

/-- What the two functions make of a byte together. -/
def throughCoding (c : UInt8) : UInt8 := if isUnreserved c then c else 0

theorem urlDecode_urlEncode (s : Bytes) : urlDecode (urlEncode s) = s.map throughCoding := by
  induction s with
  | nil => rfl
  | cons c s ih =>
    have hcons : urlEncode (c :: s) = urlEncodeByte c ++ urlEncode s := List.flatMap_cons
    rw [hcons, urlEncodeByte, List.map_cons, throughCoding]
    cases hc : isUnreserved c with
    | true =>
      simp only [if_true, List.cons_append, List.nil_append]
      rw [urlDecode_cons_of_unreserved hc, ih]
    | false =>
      simp only [Bool.false_eq_true, if_false, List.cons_append, List.nil_append]
      rw [urlDecode_escape, ih]

/-- Exactly the strings of unreserved bytes and NULs come back from the coding. -/
theorem urlDecode_urlEncode_iff (s : Bytes) :
    urlDecode (urlEncode s) = s ↔ ∀ c ∈ s, isUnreserved c = true ∨ c = 0 := by
  have hbyte : ∀ c, throughCoding c = c ↔ isUnreserved c = true ∨ c = 0 := by
    intro c
    unfold throughCoding
    cases isUnreserved c with
    | true => simp
    | false => simp [eq_comm]
  have hid : s.map throughCoding = s ↔ s.map throughCoding = s.map id := by rw [List.map_id]
  rw [urlDecode_urlEncode, hid, List.map_inj_left]
  exact forall₂_congr fun c _ => hbyte c

/-- A space is encoded as "%20" and decoded as NUL. -/
theorem space_not_decoded : ¬ ∀ s : Bytes, urlDecode (urlEncode s) = s := by
  intro hall
  exact absurd (hall [space]) (by decide)

end WarpApi

import WarpApi.Defs
import WarpApi.Library.DecimalNumeral
import Mathlib.Data.Nat.Digits.Lemmas

/-!
The byte scanners and converters of StringUtils.cpp. The CR search keeps its
two parts, the loop over blocks of 16 bytes and the scalar tail; positions are
offsets from the pointer that was passed in.
-/
namespace WarpApi

/-- `_mm_movemask_epi8`: bit i is set when byte i compared equal. -/
def movemask : List Bool → ℕ
  | [] => 0
  | b :: bs => b.toNat + 2 * movemask bs

/-- `__builtin_ctz` on a mask of at most `width` bits. -/
def ctz : ℕ → ℕ → ℕ
  | 0, _ => 0
  | width + 1, mask => if mask % 2 = 1 then 0 else ctz width (mask / 2) + 1

def scalarTail : Bytes → ℕ → Option ℕ
  | [], _ => none
  | c :: cs, p => if c = cr then some p else scalarTail cs (p + 1)

/-- The loop `while (end - p >= 16)`, then the scalar tail. Each turn takes 16
bytes, so the number of bytes bounds the number of turns. -/
def vectorLoop : ℕ → Bytes → ℕ → Option ℕ
  | 0, rest, p => scalarTail rest p
  | turns + 1, rest, p =>
    if 16 ≤ rest.length then
      let mask := movemask ((rest.take 16).map fun c => c == cr)
      if mask ≠ 0 then some (p + ctz 16 mask)
      else vectorLoop turns (rest.drop 16) (p + 16)
    else scalarTail rest p

def findCrlf (data : Bytes) : Option ℕ := vectorLoop data.length data 0

def iequalsSmall (a b : Bytes) : Bool :=
  if a.length ≠ b.length then false
  else (a.zip b).all fun p => p.1 ||| 32 == p.2 ||| 32

/-- The accumulation of `fast_atoi` in wrapping 64-bit arithmetic. -/
def atoiLoop : UInt64 → Bytes → UInt64
  | result, [] => result
  | result, c :: cs =>
    if c < 48 || c > 57 then result
    else atoiLoop (result * 10 + (c - 48).toUInt64) cs

def fastAtoi (str : Bytes) : UInt64 := atoiLoop 0 str

def decimal (value : ℕ) : Bytes := (Nat.toDigits 10 value).map fun c => UInt8.ofNat c.toNat

/-- `std::to_chars` into a buffer of `len` bytes; empty when the digits do not fit. -/
def fastItoa (len value : ℕ) : Bytes :=
  if (decimal value).length ≤ len then decimal value else []

def base64Table : Bytes :=
  ascii "ABCDEFGHIJKLMNOPQRSTUVWXYZabcdefghijklmnopqrstuvwxyz0123456789+/"

def base64Char (chunk : UInt32) (shift : UInt32) : UInt8 :=
  base64Table.getD ((chunk >>> shift) &&& 0x3F).toNat 0

/-- Groups of three bytes, then the padded group for what is left. -/
def base64Encode : Bytes → Bytes
  | a :: b :: c :: rest =>
    let chunk := a.toUInt32 <<< 16 ||| b.toUInt32 <<< 8 ||| c.toUInt32
    base64Char chunk 18 :: base64Char chunk 12 :: base64Char chunk 6 :: base64Char chunk 0 ::
      base64Encode rest
  | [a, b] =>
    let chunk := a.toUInt32 <<< 16 ||| b.toUInt32 <<< 8
    [base64Char chunk 18, base64Char chunk 12, base64Char chunk 6, 61]
  | [a] =>
    let chunk := a.toUInt32 <<< 16
    [base64Char chunk 18, base64Char chunk 12, 61, 61]
  | [] => []

theorem movemask_eq_zero_iff (bs : List Bool) : movemask bs = 0 ↔ ∀ b ∈ bs, b = false := by
  induction bs with
  | nil => simp [movemask]
  | cons b bs ih =>
    cases b
    · simpa [movemask] using ih
    · simp [movemask]

/-- The lowest set bit of the mask is the first byte that compared equal. -/
theorem ctz_movemask (pre post : List Bool) (hpre : ∀ b ∈ pre, b = false) (width : ℕ)
    (hwidth : pre.length < width) : ctz width (movemask (pre ++ true :: post)) = pre.length := by
  induction pre generalizing width with
  | nil =>
    cases width with
    | zero => simp at hwidth
    | succ width => simp [ctz, movemask]
  | cons b pre ih =>
    cases width with
    | zero => simp at hwidth
    | succ width =>
      have hb : b = false := hpre b (List.mem_cons_self ..)
      subst hb
      have hrec := ih (fun b hb => hpre b (List.mem_cons_of_mem _ hb)) width
        (by simpa using hwidth)
      simp only [List.cons_append, movemask, Bool.toNat_false, Nat.zero_add, ctz,
        Nat.mul_mod_right, Nat.zero_ne_one, if_false, List.length_cons]
      rw [Nat.mul_div_cancel_left _ (by omega), hrec]

theorem scalarTail_of_notMem (data : Bytes) (p : ℕ) (h : cr ∉ data) :
    scalarTail data p = none := by
  induction data generalizing p with
  | nil => rfl
  | cons c cs ih =>
    simp only [List.mem_cons, not_or] at h
    rw [scalarTail, if_neg (Ne.symm h.1), ih _ h.2]

theorem scalarTail_append (pre post : Bytes) (p : ℕ) (h : cr ∉ pre) :
    scalarTail (pre ++ cr :: post) p = some (p + pre.length) := by
  induction pre generalizing p with
  | nil => simp [scalarTail]
  | cons c cs ih =>
    simp only [List.mem_cons, not_or] at h
    rw [List.cons_append, scalarTail, if_neg (Ne.symm h.1), ih _ h.2, List.length_cons]
    congr 1
    omega

theorem vectorLoop_of_notMem (turns : ℕ) (data : Bytes) (p : ℕ) (h : cr ∉ data) :
    vectorLoop turns data p = none := by
  induction turns generalizing data p with
  | zero => exact scalarTail_of_notMem data p h
  | succ turns ih =>
    have hmask : movemask ((data.take 16).map fun c => c == cr) = 0 := by
      rw [movemask_eq_zero_iff]
      intro b hb
      obtain ⟨c, hc, rfl⟩ := List.mem_map.mp hb
      have hne : c ≠ cr := fun heq => h (heq ▸ List.mem_of_mem_take hc)
      simpa using hne
    rw [vectorLoop]
    split
    · simp only [hmask, ne_eq, not_true_eq_false, if_false]
      exact ih _ _ fun hmem => h (List.mem_of_mem_drop hmem)
    · exact scalarTail_of_notMem data p h

theorem vectorLoop_append (turns : ℕ) (pre post : Bytes) (p : ℕ) (h : cr ∉ pre) :
    vectorLoop turns (pre ++ cr :: post) p = some (p + pre.length) := by
  induction turns generalizing pre p with
  | zero => exact scalarTail_append pre post p h
  | succ turns ih =>
    rw [vectorLoop]
    split
    · by_cases hpre : pre.length < 16
      · have htake : ((pre ++ cr :: post).take 16).map (fun c => c == cr) =
            pre.map (fun c => c == cr) ++
              true :: ((post.take (15 - pre.length)).map fun c => c == cr) := by
          rw [List.take_append, List.take_of_length_le (by omega),
            show 16 - pre.length = (15 - pre.length) + 1 by omega]
          simp
        have hfalse : ∀ b ∈ pre.map (fun c => c == cr), b = false := by
          intro b hb
          obtain ⟨c, hc, rfl⟩ := List.mem_map.mp hb
          have hne : c ≠ cr := fun heq => h (heq ▸ hc)
          simpa using hne
        have hctz := ctz_movemask _ ((post.take (15 - pre.length)).map fun c => c == cr) hfalse
          16 (by simpa using hpre)
        have hmask : movemask (((pre ++ cr :: post).take 16).map fun c => c == cr) ≠ 0 := by
          rw [htake, Ne, movemask_eq_zero_iff]
          intro hall
          exact absurd (hall true (by simp)) (by decide)
        simp only [ne_eq, hmask, not_false_eq_true, if_true]
        rw [htake, hctz, List.length_map]
      · have hle : 16 ≤ pre.length := by omega
        have hmask : movemask (((pre ++ cr :: post).take 16).map fun c => c == cr) = 0 := by
          rw [List.take_append_of_le_length hle, movemask_eq_zero_iff]
          intro b hb
          obtain ⟨c, hc, rfl⟩ := List.mem_map.mp hb
          have hne : c ≠ cr := fun heq => h (heq ▸ List.mem_of_mem_take hc)
          simpa using hne
        simp only [hmask, ne_eq, not_true_eq_false, if_false]
        rw [List.drop_append_of_le_length hle,
          ih _ _ fun hmem => h (List.mem_of_mem_drop hmem), List.length_drop]
        congr 1
        omega
    · exact scalarTail_append pre post p h

/-- Without a CR nothing is found. -/
theorem findCrlf_of_notMem (data : Bytes) (h : cr ∉ data) : findCrlf data = none :=
  vectorLoop_of_notMem _ data 0 h

/-- The first CR is found, in whichever block it lies. -/
theorem findCrlf_append (pre post : Bytes) (h : cr ∉ pre) :
    findCrlf (pre ++ cr :: post) = some pre.length := by
  rw [findCrlf, vectorLoop_append _ _ _ _ h, Nat.zero_add]

/-- Every buffer either has no CR or splits at its first one. -/
theorem exists_first_cr (data : Bytes) :
    cr ∉ data ∨ ∃ pre post, data = pre ++ cr :: post ∧ cr ∉ pre := by
  by_cases h : cr ∈ data
  · obtain ⟨pre, post, heq, hpre⟩ := List.eq_append_cons_of_mem h
    exact Or.inr ⟨pre, post, heq, hpre⟩
  · exact Or.inl h

theorem findIdx?_of_notMem (data : Bytes) (h : cr ∉ data) :
    data.findIdx? (· == cr) = none := by
  rw [List.findIdx?_eq_none_iff]
  intro c hc
  have hne : c ≠ cr := fun heq => h (heq ▸ hc)
  simpa using hne

/-- The blocks of 16 bytes make no difference: the search finds what its scalar loop alone
would find, the first CR of the buffer. -/
theorem findCrlf_eq_scalarTail (data : Bytes) :
    findCrlf data = scalarTail data 0 ∧ scalarTail data 0 = data.findIdx? (· == cr) := by
  rcases exists_first_cr data with hnone | ⟨pre, post, rfl, hpre⟩
  · rw [findCrlf_of_notMem data hnone, scalarTail_of_notMem data 0 hnone,
      findIdx?_of_notMem data hnone]
    exact ⟨rfl, rfl⟩
  · constructor
    · rw [findCrlf_append pre post hpre, scalarTail_append pre post 0 hpre, Nat.zero_add]
    · rw [scalarTail_append pre post 0 hpre, List.findIdx?_append, findIdx?_of_notMem pre hpre]
      simp [List.findIdx?_cons]

theorem atoiLoop_toNat (result : UInt64) (str : Bytes) :
    (atoiLoop result str).toNat =
      (str.takeWhile DecimalNumeral.isDigit).foldl DecimalNumeral.pushDigit result.toNat %
        2 ^ 64 := by
  induction str generalizing result with
  | nil => exact (Nat.mod_eq_of_lt result.toNat_lt).symm
  | cons c cs ih =>
    have hstop : (c < 48 || c > 57) = !DecimalNumeral.isDigit c := by
      rw [Bool.eq_iff_iff, Bool.not_eq_true', ← Bool.not_eq_true, DecimalNumeral.isDigit_iff]
      simp only [Bool.or_eq_true, decide_eq_true_eq, UInt8.lt_iff_toNat_lt, gt_iff_lt]
      simp only [UInt8.reduceToNat]
      omega
    rw [atoiLoop, hstop, List.takeWhile_cons]
    cases hdigit : DecimalNumeral.isDigit c with
    | false => exact (Nat.mod_eq_of_lt result.toNat_lt).symm
    | true =>
      simp only [Bool.not_true, Bool.false_eq_true, if_false, if_true, List.foldl_cons]
      rw [ih, DecimalNumeral.pushDigit_wrap result hdigit, DecimalNumeral.foldl_pushDigit_mod]

/-- `fast_atoi` reads the leading digits, modulo 2^64. -/
theorem fastAtoi_toNat (str : Bytes) :
    (fastAtoi str).toNat =
      DecimalNumeral.value (str.takeWhile DecimalNumeral.isDigit) % 2 ^ 64 :=
  atoiLoop_toNat 0 str

theorem lt_length_of_fastAtoi {str : Bytes} {k : ℕ} (h : 10 ^ k ≤ (fastAtoi str).toNat) :
    k < str.length := by
  have hdigits : ∀ c ∈ str.takeWhile DecimalNumeral.isDigit, DecimalNumeral.isDigit c = true :=
    List.all_eq_true.mp List.all_takeWhile
  have hvalue := DecimalNumeral.value_lt_pow _ hdigits
  have hprefix : (str.takeWhile DecimalNumeral.isDigit).length ≤ str.length :=
    List.IsPrefix.length_le (List.takeWhile_prefix _)
  rw [fastAtoi_toNat] at h
  have hpow : 10 ^ k < 10 ^ (str.takeWhile DecimalNumeral.isDigit).length :=
    lt_of_le_of_lt (h.trans (Nat.mod_le _ _)) hvalue
  exact lt_of_lt_of_le ((Nat.pow_lt_pow_iff_right (by decide)).mp hpow) hprefix

theorem decimal_eq_numeral (value : ℕ) : decimal value = DecimalNumeral.numeral value := rfl

end WarpApi

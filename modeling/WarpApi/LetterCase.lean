import WarpApi.Conversions
import WarpApi.HeaderNames
import WarpApi.Library.Byte

/-!
The two comparisons without letter case. `iequals_small` sets one bit in each byte where
`iequals` lowers letters, so it also takes '@' for a backquote, '[' for a brace, or CR for
'-'. No value of a header line has a CR, and the server compares such values with nothing
but letters and '-'.
-/
namespace WarpApi

def isLetter (c : UInt8) : Bool := (65 ≤ c && c ≤ 90) || (97 ≤ c && c ≤ 122)

/-- The same byte, or an upper case letter and its lower case in either order. -/
def SameLetter (c d : UInt8) : Prop :=
  c = d ∨ (65 ≤ c ∧ c ≤ 90 ∧ d = c + 32) ∨ (65 ≤ d ∧ d ≤ 90 ∧ c = d + 32)

instance (c d : UInt8) : Decidable (SameLetter c d) := by
  unfold SameLetter
  infer_instance

def SameUpToCase (a b : Bytes) : Prop :=
  a.length = b.length ∧ ∀ p ∈ a.zip b, SameLetter p.1 p.2

variable {c d : UInt8}

/-- What the functions make of a byte and of its partner, which differs in bit 32. -/
theorem partner_facts (c : UInt8) :
    (c ||| 32 = c ∨ c ||| 32 = c ^^^ 32) ∧ (c ^^^ 32) ||| 32 = c ||| 32 ∧
      (tolower c = c ∨ tolower c = c ^^^ 32) ∧
      (tolower c = tolower (c ^^^ 32) ↔ isLetter c = true) ∧
      isLetter (c ^^^ 32) = isLetter c ∧
      (65 ≤ c → c ≤ 90 → c + 32 = c ^^^ 32 ∧ isLetter c = true) ∧
      (isLetter c = true → SameLetter c (c ^^^ 32)) := by
  apply Byte.forall_of_fin _ c
  decide +kernel

theorem xor_eq_iff : c ^^^ d = 32 ↔ d = c ^^^ 32 := by
  constructor
  · intro h
    rw [← h, ← UInt8.xor_assoc, UInt8.xor_self, UInt8.zero_xor]
  · intro h
    rw [h, ← UInt8.xor_assoc, UInt8.xor_self, UInt8.zero_xor]

/-- A function that changes bit 32 at most maps two bytes to the same one when they are
equal, or when they are partners and it does so for these. -/
theorem eq_iff_of_changes_bit {f : UInt8 → UInt8} (hf : ∀ c, f c = c ∨ f c = c ^^^ 32) :
    f c = f d ↔ c = d ∨ c ^^^ d = 32 ∧ f c = f (c ^^^ 32) := by
  constructor
  · intro h
    have hcases : c = d ∨ d = c ^^^ 32 := by
      rcases hf c with hc | hc <;> rcases hf d with hd | hd <;> rw [hc, hd] at h
      · exact Or.inl h
      · apply Or.inr
        rw [h, UInt8.xor_assoc, UInt8.xor_self, UInt8.xor_zero]
      · exact Or.inr h.symm
      · exact Or.inl ((UInt8.xor_left_inj 32).mp h)
    rcases hcases with heq | heq
    · exact Or.inl heq
    · exact Or.inr ⟨xor_eq_iff.mpr heq, heq ▸ h⟩
  · rintro (heq | ⟨hxor, heq⟩)
    · rw [heq]
    · rw [xor_eq_iff.mp hxor]
      exact heq

theorem or_eq_or_iff : c ||| 32 = d ||| 32 ↔ c = d ∨ c ^^^ d = 32 := by
  have hchanges : ∀ c : UInt8, c ||| 32 = c ∨ c ||| 32 = c ^^^ 32 :=
    fun c => (partner_facts c).1
  have hpartner : c ||| 32 = (c ^^^ 32) ||| 32 := (partner_facts c).2.1.symm
  rw [eq_iff_of_changes_bit (f := fun c => c ||| 32) hchanges]
  simp only [← hpartner, and_true]

theorem tolower_eq_tolower_iff :
    tolower c = tolower d ↔ c = d ∨ c ^^^ d = 32 ∧ isLetter c = true := by
  have hchanges : ∀ c : UInt8, tolower c = c ∨ tolower c = c ^^^ 32 :=
    fun c => (partner_facts c).2.2.1
  obtain ⟨-, -, -, hpartner, -⟩ := partner_facts c
  rw [eq_iff_of_changes_bit hchanges, hpartner]

theorem sameLetter_iff : SameLetter c d ↔ c = d ∨ c ^^^ d = 32 ∧ isLetter c = true := by
  constructor
  · rintro (heq | ⟨hlow, hhigh, heq⟩ | ⟨hlow, hhigh, heq⟩)
    · exact Or.inl heq
    · obtain ⟨-, -, -, -, -, hupper, -⟩ := partner_facts c
      obtain ⟨hadd, hletter⟩ := hupper hlow hhigh
      exact Or.inr ⟨xor_eq_iff.mpr (heq.trans hadd), hletter⟩
    · obtain ⟨-, -, -, -, hsame, hupper, -⟩ := partner_facts d
      obtain ⟨hadd, hletter⟩ := hupper hlow hhigh
      have hc : c = d ^^^ 32 := heq.trans hadd
      refine Or.inr ⟨?_, ?_⟩
      · rw [UInt8.xor_comm]
        exact xor_eq_iff.mpr hc
      · rw [hc, hsame]
        exact hletter
  · rintro (heq | ⟨hxor, hletter⟩)
    · exact Or.inl heq
    · obtain ⟨-, -, -, -, -, -, hpartner⟩ := partner_facts c
      rw [xor_eq_iff.mp hxor]
      exact hpartner hletter

variable {a b : Bytes}

theorem iequals_iff :
    iequals a b = true ↔
      a.length = b.length ∧ ∀ p ∈ a.zip b, tolower p.1 = tolower p.2 := by
  simp only [iequals, Bool.and_eq_true, beq_iff_eq, List.all_eq_true]

theorem iequalsSmall_iff :
    iequalsSmall a b = true ↔
      a.length = b.length ∧ ∀ p ∈ a.zip b, p.1 ||| 32 = p.2 ||| 32 := by
  unfold iequalsSmall
  by_cases hlength : a.length = b.length
  · rw [if_neg (not_not_intro hlength)]
    simp only [List.all_eq_true, beq_iff_eq, hlength, true_and]
  · rw [if_pos hlength]
    simp only [hlength, false_and, Bool.false_eq_true]

/-- `iequals` accepts the strings that differ in letter case only. -/
theorem iequals_iff_sameUpToCase (a b : Bytes) : iequals a b = true ↔ SameUpToCase a b := by
  rw [iequals_iff, SameUpToCase]
  simp only [tolower_eq_tolower_iff, sameLetter_iff]

theorem map_eq_map_iff (f : UInt8 → UInt8) (a b : Bytes) :
    a.map f = b.map f ↔ a.length = b.length ∧ ∀ p ∈ a.zip b, f p.1 = f p.2 := by
  induction a generalizing b with
  | nil => cases b <;> simp
  | cons c a ih =>
    cases b with
    | nil => simp
    | cons d b =>
      simp only [List.map_cons, List.cons.injEq, ih, List.length_cons, Nat.add_right_cancel_iff,
        List.zip_cons_cons, List.forall_mem_cons]
      exact and_left_comm

/-- The comparison that header names should go by is `iequals`. -/
theorem equalsIgnoringCase_eq_iequals (a b : Bytes) : equalsIgnoringCase a b = iequals a b := by
  have hlower : asciiLower = tolower := by
    funext c
    simp only [asciiLower, tolower, Bool.and_eq_true, decide_eq_true_eq]
  rw [Bool.eq_iff_iff, iequals_iff, equalsIgnoringCase, beq_iff_eq, hlower, map_eq_map_iff]

theorem iequalsSmall_of_iequals (h : iequals a b = true) : iequalsSmall a b = true := by
  obtain ⟨hlength, hall⟩ := iequals_iff.mp h
  refine iequalsSmall_iff.mpr ⟨hlength, ?_⟩
  intro p hp
  apply or_eq_or_iff.mpr
  rcases tolower_eq_tolower_iff.mp (hall p hp) with heq | ⟨hxor, -⟩
  · exact Or.inl heq
  · exact Or.inr hxor

theorem iequalsSmall_eq_false_iff :
    iequalsSmall a b = false ↔
      a.length ≠ b.length ∨ ∃ p ∈ a.zip b, p.1 ≠ p.2 ∧ p.1 ^^^ p.2 ≠ 32 := by
  rw [← Bool.not_eq_true, iequalsSmall_iff, not_and_or, not_forall]
  simp only [or_eq_or_iff, Classical.not_imp, not_or]

theorem iequals_iff_of_iequalsSmall (h : iequalsSmall a b = true) :
    iequals a b = true ↔ ∀ p ∈ a.zip b, p.1 ^^^ p.2 = 32 → isLetter p.1 = true := by
  obtain ⟨hlength, hall⟩ := iequalsSmall_iff.mp h
  rw [iequals_iff]
  constructor
  · rintro ⟨-, hlower⟩ p hp hxor
    rcases tolower_eq_tolower_iff.mp (hlower p hp) with heq | hletter
    · rw [heq, UInt8.xor_self] at hxor
      exact absurd hxor (by decide)
    · exact hletter.2
  · intro hletters
    refine ⟨hlength, ?_⟩
    intro p hp
    apply tolower_eq_tolower_iff.mpr
    rcases or_eq_or_iff.mp (hall p hp) with heq | hxor
    · exact Or.inl heq
    · exact Or.inr ⟨hxor, hletters p hp hxor⟩

theorem iequals_of_iequalsSmall_eq_false (h : iequalsSmall a b = false) : iequals a b = false := by
  rw [Bool.eq_false_iff]
  intro hequals
  exact absurd (h.symm.trans (iequalsSmall_of_iequals hequals)) Bool.false_ne_true

theorem iequalsSmall_eq_of_pairs (h : ∀ p ∈ a.zip b, p.1 ^^^ p.2 = 32 → isLetter p.1 = true) :
    iequalsSmall a b = iequals a b := by
  cases hsmall : iequalsSmall a b with
  | true => exact ((iequals_iff_of_iequalsSmall hsmall).mpr h).symm
  | false => exact (iequals_of_iequalsSmall_eq_false hsmall).symm

/-- The two comparisons agree, and `iequals_small` ignores letter case and nothing else,
exactly when the lengths or a bit other than bit 32 tell the strings apart, or when all
bytes that differ in this bit alone are letters. -/
theorem iequalsSmall_eq_iequals_iff (a b : Bytes) :
    (iequalsSmall a b = iequals a b ∧ (iequalsSmall a b = true ↔ SameUpToCase a b)) ↔
      a.length ≠ b.length ∨ (∃ p ∈ a.zip b, p.1 ≠ p.2 ∧ p.1 ^^^ p.2 ≠ 32) ∨
        ∀ p ∈ a.zip b, p.1 ^^^ p.2 = 32 → isLetter p.1 = true := by
  rw [← iequals_iff_sameUpToCase, ← Bool.eq_iff_iff, and_self_iff, ← or_assoc,
    ← iequalsSmall_eq_false_iff]
  constructor
  · intro hagree
    cases hsmall : iequalsSmall a b with
    | true =>
      apply Or.inr
      exact (iequals_iff_of_iequalsSmall hsmall).mp (hagree.symm.trans hsmall)
    | false => exact Or.inl rfl
  · rintro (hsmall | hletters)
    · rw [hsmall, iequals_of_iequalsSmall_eq_false hsmall]
    · exact iequalsSmall_eq_of_pairs hletters

/-- '@' and the backquote are taken for equal. -/
theorem iequalsSmall_at_backquote : ¬ ∀ a b : Bytes, iequalsSmall a b = iequals a b := by
  intro hall
  exact absurd (hall (ascii "@") [96]) (by decide)

/-- The comparison is right when a has no partner of a byte of b that is not a letter. -/
theorem iequalsSmall_eq_of_partners (h : ∀ c ∈ b, isLetter c = true ∨ c ^^^ 32 ∉ a) :
    iequalsSmall a b = iequals a b := by
  apply iequalsSmall_eq_of_pairs
  rintro ⟨c, d⟩ hp hxor
  obtain ⟨hc, hd⟩ := List.of_mem_zip hp
  have hswap : c = d ^^^ 32 := xor_eq_iff.mp (by rwa [UInt8.xor_comm])
  rcases h d hd with hletter | hnone
  · obtain ⟨-, -, -, -, hsame, -⟩ := partner_facts d
    rw [hswap, hsame]
    exact hletter
  · rw [hswap] at hc
    exact absurd hc hnone

theorem iequalsSmall_upgrade (value : Bytes) :
    iequalsSmall value websocketUpgradeHeader = iequals value websocketUpgradeHeader ∧
      iequalsSmall value upgradeHeader = iequals value upgradeHeader := by
  have hwebsocket : ∀ c ∈ websocketUpgradeHeader, isLetter c = true := List.all_eq_true.mp rfl
  have hupgrade : ∀ c ∈ upgradeHeader, isLetter c = true := List.all_eq_true.mp rfl
  exact ⟨iequalsSmall_eq_of_partners fun c hc => Or.inl (hwebsocket c hc),
    iequalsSmall_eq_of_partners fun c hc => Or.inl (hupgrade c hc)⟩

/-- The partner of '-' is CR, which ends a header line. -/
theorem iequalsSmall_connection {value : Bytes} (hvalue : cr ∉ value) :
    iequalsSmall value closeConnHeader = iequals value closeConnHeader ∧
      iequalsSmall value keepAliveHeader = iequals value keepAliveHeader := by
  have hclose : ∀ c ∈ closeConnHeader, isLetter c = true := List.all_eq_true.mp rfl
  have hkeep : ∀ c ∈ keepAliveHeader, (isLetter c || c ^^^ 32 == cr) = true :=
    List.all_eq_true.mp rfl
  refine ⟨iequalsSmall_eq_of_partners fun c hc => Or.inl (hclose c hc), ?_⟩
  apply iequalsSmall_eq_of_partners
  intro c hc
  rcases Bool.or_eq_true_iff.mp (hkeep c hc) with hletter | hcr
  · exact Or.inl hletter
  · exact Or.inr (beq_iff_eq.mp hcr ▸ hvalue)

theorem mem_of_splitHeader {line name value : Bytes}
    (hsplit : splitHeader line = some (name, value)) {c : UInt8} (hc : c ∈ value) : c ∈ line := by
  unfold splitHeader at hsplit
  dsimp only at hsplit
  split_ifs at hsplit with hcolon hspace
  · cases hsplit
    exact List.mem_of_mem_drop (List.mem_of_mem_tail hc)
  · cases hsplit
    exact List.mem_of_mem_drop hc

/-- In the lines that the parser reads, the flag is the one that `iequals` would set. -/
theorem connectionKeepAlive_eq {data line rest name value : Bytes} (keepAlive : Bool)
    (hline : firstLine data = some (line, rest)) (hsplit : splitHeader line = some (name, value)) :
    connectionKeepAlive keepAlive value =
      if iequals value closeConnHeader then false
      else if iequals value keepAliveHeader then true
      else keepAlive := by
  have hcr : cr ∉ line := ((firstLine_eq_some_iff data line rest).mp hline).2
  have hvalue : cr ∉ value := fun hmem => hcr (mem_of_splitHeader hsplit hmem)
  obtain ⟨hclose, hkeep⟩ := iequalsSmall_connection hvalue
  rw [connectionKeepAlive, hclose, hkeep]

end WarpApi

import WarpApi.HeaderLines

/-!
Headers by name. The parser goes by the length of a name alone and `getHeader` returns
nothing, so a header is found by its name only in requests where every name of one of
the five lengths is settled by a line that really bears it, with an empty value.
-/
namespace WarpApi

open LastWrite

def asciiLower (c : UInt8) : UInt8 := if 65 ≤ c ∧ c ≤ 90 then c + 32 else c

/-- Equal but for the case of ASCII letters. -/
def equalsIgnoringCase (a b : Bytes) : Bool := a.map asciiLower == b.map asciiLower

/-- The headers that `parseRequest` looks for. -/
def scannedKeys : List HeaderType :=
  [.connection, .contentLength, .upgrade, .secWebSocketKey, .secWebSocketVersion]

/-- The line's name is the key's name in HTTP. -/
def named (key : HeaderType) (line : Bytes) : Bool :=
  match splitHeader line with
  | some (name, _) => equalsIgnoringCase name key.httpName
  | none => false

def sameLength (key : HeaderType) (line : Bytes) : Bool :=
  match splitHeader line with
  | some (name, _) => name.length == key.httpName.length
  | none => false

def valueOf (line : Bytes) : Bytes := (headerOf line).2

/-- The flag that these lines decide; a connection is kept by default. -/
def flagFrom (lines : List Bytes) : Bool :=
  ((lines.filterMap fun line =>
    if iequalsSmall (valueOf line) closeConnHeader then some false
    else if iequalsSmall (valueOf line) keepAliveHeader then some true
    else none).getLast?).getD true

/-- The length that the last of these lines declares. -/
def lengthFrom (lines : List Bytes) : UInt64 :=
  ((lines.map fun line => fastAtoi (valueOf line)).getLast?).getD 0

/-- `contentLength` at the end of the header loop. -/
def lengthRead (settings : SettingsData) (s : Session) : UInt64 :=
  match startLine s.readBuffer.unread, firstLine s.readBuffer.unread with
  | some line, some (_, rest) =>
    (headerLoop settings (rest.length + 1) rest (startScan s.req line)).2.contentLength
  | _, _ => 0

/-- Headers are recognised by their names and read back, and the body length and the flag
come from lines with the right name. -/
structure HeadersRecognised (settings : SettingsData) (lines : List Bytes) (s t : Session) :
    Prop where
  present : ∀ key ∈ scannedKeys, hasHeader t.req.presentHeaders key.val = true ↔
    ∃ line ∈ lines, named key line = true
  value : ∀ key ∈ scannedKeys, t.req.getHeader key =
    (((lines.filter (named key)).map valueOf).getLast?).getD []
  length : lengthRead settings s = lengthFrom (lines.filter (named .contentLength))
  flag : t.keepAlive = flagFrom (lines.filter (named .connection))

/-- Every name of a scanned length is settled by a line that bears the name: there is one,
the last one has no value, and the lines that only share the length decide nothing else. -/
structure NamesSettled (lines : List Bytes) : Prop where
  borne : ∀ key ∈ scannedKeys, ∀ line ∈ lines, sameLength key line = true →
    ∃ other ∈ lines, named key other = true
  empty : ∀ key ∈ scannedKeys, ∀ value,
    ((lines.filter (named key)).map valueOf).getLast? = some value → value = []
  length : lengthFrom (lines.filter (sameLength .contentLength)) =
    lengthFrom (lines.filter (named .contentLength))
  flag : flagFrom (lines.filter (sameLength .connection)) =
    flagFrom (lines.filter (named .connection))

theorem equalsIgnoringCase_length {a b : Bytes} (h : equalsIgnoringCase a b = true) :
    a.length = b.length := by
  have hlen := congrArg List.length (beq_iff_eq.mp h)
  simpa only [List.length_map] using hlen

theorem sameLength_of_named {key : HeaderType} {line : Bytes} (h : named key line = true) :
    sameLength key line = true := by
  unfold named at h
  unfold sameLength
  cases hsplit : splitHeader line with
  | none => simp [hsplit] at h
  | some p =>
    simp only [hsplit] at h
    simpa using equalsIgnoringCase_length h

/-- The parser's keys are told by the lengths of their names. -/
theorem headerKey_eq_iff {key : HeaderType} (hkey : key ∈ scannedKeys) (n : ℕ) :
    headerKey n = key ↔ n = key.httpName.length := by
  simp only [scannedKeys, List.mem_cons, List.not_mem_nil, or_false] at hkey
  rcases hkey with rfl | rfl | rfl | rfl | rfl
  all_goals
    constructor
    · intro h
      unfold headerKey at h
      split at h <;> first | decide | exact absurd h (by decide)
    · rintro rfl
      decide

theorem sameLength_iff {key : HeaderType} (hkey : key ∈ scannedKeys) (line : Bytes) :
    sameLength key line = true ↔ (headerOf line).1 = key := by
  have hne : HeaderType.none ≠ key := by
    rintro rfl
    exact absurd hkey (by decide)
  unfold sameLength headerOf
  cases splitHeader line with
  | none => simpa using hne
  | some p =>
    dsimp only
    rw [headerKey_eq_iff hkey, beq_iff_eq]

theorem sameLength_filter {key : HeaderType} (hkey : key ∈ scannedKeys) (lines : List Bytes) :
    lines.filter (sameLength key) = lines.filter fun line => (headerOf line).1 = key := by
  apply List.filter_congr
  intro line _
  rw [Bool.eq_iff_iff, sameLength_iff hkey, decide_eq_true_eq]

theorem filterMap_sameLength {β : Type} {key : HeaderType} (hkey : key ∈ scannedKeys)
    (lines : List Bytes) (choice : Bytes → Option β) :
    (lines.filter (sameLength key)).filterMap choice =
      lines.filterMap fun line => if (headerOf line).1 = key then choice line else none := by
  rw [sameLength_filter hkey, List.filterMap_filter]
  simp only [decide_eq_true_eq]

theorem flagFrom_sameLength (lines : List Bytes) :
    flagFrom (lines.filter (sameLength .connection)) =
      ((lines.filterMap connectionChoice).getLast?).getD true := by
  rw [flagFrom, filterMap_sameLength (by decide)]
  rfl

theorem lengthFrom_sameLength (lines : List Bytes) :
    lengthFrom (lines.filter (sameLength .contentLength)) =
      ((lines.filterMap lengthChoice).getLast?).getD 0 := by
  rw [lengthFrom, ← List.filterMap_eq_map', filterMap_sameLength (by decide)]
  rfl

/-- The loop reads the length from the last line with a name of fourteen letters. -/
theorem lengthRead_eq {settings : SettingsData} {s : Session} {line : RequestLine}
    (hstart : startLine s.readBuffer.unread = some line) :
    lengthRead settings s = lengthFrom
      ((takenLines settings s.readBuffer.unread).filter (sameLength .contentLength)) := by
  have hline : ∃ p, firstLine s.readBuffer.unread = some p := by
    unfold startLine requestLineOf at hstart
    split_ifs at hstart
    obtain ⟨p, hp, -⟩ := Option.bind_eq_some_iff.mp hstart
    exact ⟨p, hp⟩
  obtain ⟨⟨first, rest⟩, hline⟩ := hline
  have hloop := (headerLoop_lines settings (rest.length + 1) rest (startScan s.req line)).2.2
  rw [lengthRead, takenLines, hstart, hline, lengthFrom_sameLength]
  dsimp only
  rw [hloop, foldl_choice]
  rfl

theorem hasHeader_foldl {key : HeaderType} (hne : key ≠ .none) (lines : List Bytes)
    (req : HttpRequest) (hreset : req.presentHeaders = 0) :
    hasHeader (lines.foldl storeField req).presentHeaders key.val = true ↔
      ∃ line ∈ lines, (headerOf line).1 = key := by
  obtain ⟨b, hb⟩ := HeaderType.exists_bit hne
  have hbit : ∀ other : HeaderType, other.val.testBit b = true ↔ other = key := by
    intro other
    by_cases hother : other = .none
    · subst hother
      rw [show HeaderType.none.val = 0 by decide, Nat.zero_testBit]
      simpa using Ne.symm hne
    · obtain ⟨c, hc⟩ := HeaderType.exists_bit hother
      rw [hc, Nat.testBit_two_pow, decide_eq_true_eq]
      constructor
      · rintro rfl
        exact HeaderType.val_inj (hc.trans hb.symm)
      · rintro rfl
        exact Nat.pow_right_injective (Nat.le_refl 2) (hc.symm.trans hb)
  have hone : ∀ flags, hasHeader flags key.val = true ↔ flags.testBit b = true := by
    intro flags
    rw [hasHeader_iff, hb]
    constructor
    · intro h
      exact h b (by rw [Nat.testBit_two_pow_self])
    · intro h i hi
      rw [Nat.testBit_two_pow, decide_eq_true_eq] at hi
      exact hi ▸ h
  rw [hone, testBit_presentHeaders_foldl, hreset, Nat.zero_testBit, Bool.false_or,
    List.any_eq_true]
  exact exists_congr fun line => and_congr_right fun _ => hbit _

/-- The mask, the length and the flag are told by the lengths of the names. -/
theorem accepted_shows {settings : SettingsData} {s t : Session} {before : HttpRequest}
    (hreset : s.req = before.reset) (h : s.parseRequest settings = (true, t)) :
    (∀ key ∈ scannedKeys, hasHeader t.req.presentHeaders key.val = true ↔
        ∃ line ∈ takenLines settings s.readBuffer.unread, sameLength key line = true) ∧
      lengthRead settings s =
        lengthFrom ((takenLines settings s.readBuffer.unread).filter
          (sameLength .contentLength)) ∧
      t.keepAlive =
        flagFrom ((takenLines settings s.readBuffer.unread).filter (sameLength .connection)) := by
  obtain ⟨n, hconsumed, rfl⟩ := Session.parseRequest_eq_true h
  cases hstart : startLine s.readBuffer.unread with
  | none =>
    rw [parseBytes_of_startLine_none hstart] at hconsumed
    simp at hconsumed
  | some line =>
    obtain ⟨hkeep, hreq⟩ := parseBytes_of_startLine settings hstart s.req s.keepAlive
    have hmask : (parseBytes settings s.readBuffer.unread s.req s.keepAlive).req.presentHeaders =
        (linesRequest settings s.readBuffer.unread line s.req).presentHeaders := by
      rcases hreq with hreq | ⟨-, body, size, hreq⟩
      · rw [hreq]
      · rw [hreq]
        rfl
    refine ⟨fun key hkey => ?_, lengthRead_eq hstart, ?_⟩
    · have hne : key ≠ .none := by
        rintro rfl
        exact absurd hkey (by decide)
      have hzero : (startScan s.req line).req.presentHeaders = 0 := by
        rw [hreset]
        show HeaderType.none.val = 0
        decide
      dsimp only
      rw [hmask, linesRequest, hasHeader_foldl hne _ _ hzero]
      exact exists_congr fun l => and_congr_right fun _ => (sameLength_iff hkey l).symm
    · dsimp only
      rw [hkeep, keepAlive_foldl, flagFrom_sameLength]

/-- The headers of an accepted request are recognised by their names exactly when the
names of the five lengths are settled by lines that bear them, without values. -/
theorem headersRecognised_iff (settings : SettingsData) (s t : Session) (before : HttpRequest)
    (hreset : s.req = before.reset) (h : s.parseRequest settings = (true, t)) :
    HeadersRecognised settings (takenLines settings s.readBuffer.unread) s t ↔
      NamesSettled (takenLines settings s.readBuffer.unread) := by
  obtain ⟨hpresent, hlength, hflag⟩ := accepted_shows hreset h
  generalize takenLines settings s.readBuffer.unread = lines at *
  constructor
  · intro hrec
    refine ⟨?_, ?_, hlength.symm.trans hrec.length, hflag.symm.trans hrec.flag⟩
    · intro key hkey line hline hsame
      exact (hrec.present key hkey).mp ((hpresent key hkey).mpr ⟨line, hline, hsame⟩)
    · intro key hkey value hvalue
      have hget := hrec.value key hkey
      rw [HttpRequest.getHeader_eq_nil, hvalue, Option.getD_some] at hget
      exact hget.symm
  · intro hset
    refine ⟨?_, ?_, hlength.trans hset.length, hflag.trans hset.flag⟩
    · intro key hkey
      rw [hpresent key hkey]
      constructor
      · rintro ⟨line, hline, hsame⟩
        exact hset.borne key hkey line hline hsame
      · rintro ⟨line, hline, hnamed⟩
        exact ⟨line, hline, sameLength_of_named hnamed⟩
    · intro key hkey
      rw [HttpRequest.getHeader_eq_nil]
      cases hvalue : ((lines.filter (named key)).map valueOf).getLast? with
      | none => rfl
      | some value => exact (hset.empty key hkey value hvalue).symm

def hostRequest : Bytes := ascii "GET / HTTP/1.1\r\nHost: a\r\nConnection:\r\n\r\n"

theorem headersRecognised_hostRequest :
    HeadersRecognised configJson
      (takenLines configJson (receivingReset configJson hostRequest).readBuffer.unread)
      (receivingReset configJson hostRequest)
      ((receivingReset configJson hostRequest).parseRequest configJson).2 := by
  have hlines : takenLines configJson (receivingReset configJson hostRequest).readBuffer.unread =
      [ascii "Host: a", ascii "Connection:"] := by decide +kernel
  refine (headersRecognised_iff configJson _ _ HttpRequest.init rfl
    (Prod.ext (by decide +kernel) rfl)).mpr ?_
  rw [hlines]
  refine ⟨by decide +kernel, ?_, by decide +kernel, by decide +kernel⟩
  have hlast : ∀ key ∈ scannedKeys,
      (([ascii "Host: a", ascii "Connection:"].filter (named key)).map valueOf).getLast? = none ∨
      (([ascii "Host: a", ascii "Connection:"].filter (named key)).map valueOf).getLast? =
        some [] := by decide +kernel
  intro key hkey value hvalue
  rcases hlast key hkey with h | h
  · simp [h] at hvalue
  · exact (Option.some.inj (h.symm.trans hvalue)).symm

/-- A User-Agent is taken for a Connection header. -/
def agentRequest : Bytes := ascii "GET / HTTP/1.1\r\nUser-Agent: close\r\n\r\n"

theorem agentRequest_not_recognised :
    ((receivingReset configJson agentRequest).parseRequest configJson).1 = true ∧
      ¬ HeadersRecognised configJson
        (takenLines configJson (receivingReset configJson agentRequest).readBuffer.unread)
        (receivingReset configJson agentRequest)
        ((receivingReset configJson agentRequest).parseRequest configJson).2 := by
  refine ⟨by decide +kernel, fun h => ?_⟩
  have hnamed := (h.present .connection (by decide)).mp (by decide +kernel)
  exact absurd hnamed (by decide +kernel)

end WarpApi

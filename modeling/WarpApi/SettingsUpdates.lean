import WarpApi.Settings
import WarpApi.Library.Runs

/-!
`Settings::updateSettings`. The new settings start as a copy of the current ones, but
`loadSettings` assigns every field: a key that the configuration does not have gives its
field the value that stands in the loader, not the current one.
-/
namespace WarpApi

/-- `get<T>(key, fallback)` of the JSON object for one type T, as far as it is relied on:
an absent key gives the fallback, and an entry that is there gives its value or throws
(none), whatever the fallback. -/
structure Getter (contains : Bytes → Bool) (T : Type) where
  get : Bytes → T → Option T
  get_absent : ∀ key fallback, contains key = false → get key fallback = some fallback
  get_present : ∀ key fallback other, contains key = true → get key fallback = get key other

/-- The JSON library is not part of the repository. -/
structure EnhancedJson where
  contains : Bytes → Bool
  string : Getter contains Bytes
  uint16 : Getter contains UInt16
  uint : Getter contains UInt32
  size : Getter contains UInt64

/-- The platform's constants that the loader uses. -/
structure Platform where
  hardwareConcurrency : UInt32
  somaxconn : UInt64
  somaxconn_ne_zero : somaxconn ≠ 0

variable (host : Platform) (configs : EnhancedJson) (data : SettingsData)

/-- The assignments of `loadSettings`, none where `get` throws. -/
def assignments : List (SettingsData → Option SettingsData) :=
  [fun data => (configs.string.get (ascii "ip") (ascii "0.0.0.0")).map fun v =>
      { data with ip := v },
    fun data => (configs.uint16.get (ascii "port") 8080).map fun v => { data with port := v },
    fun data => (configs.uint.get (ascii "max_threads") 2).map fun v =>
      { data with maxThreads := min v host.hardwareConcurrency },
    fun data => (configs.size.get (ascii "backlog_size") host.somaxconn).map fun v =>
      { data with backlogSize := v },
    fun data => (configs.size.get (ascii "connection_timeout_ms") 60000).map fun v =>
      { data with connectionTimeoutMs := v },
    fun data => (configs.size.get (ascii "max_body_size") (64 * 1024)).map fun v =>
      { data with maxBodySize := v },
    fun data => (configs.size.get (ascii "max_request_size") (64 * 1024)).map fun v =>
      { data with maxRequestSize := v },
    fun data => (configs.size.get (ascii "max_response_size") (64 * 1024)).map fun v =>
      { data with maxResponseSize := v }]

/-- The body of a try block: what was assigned before a throw stays. -/
def runAssignments : List (SettingsData → Option SettingsData) → SettingsData →
    Bool × SettingsData
  | [], data => (true, data)
  | assignment :: rest, data =>
    match assignment data with
    | none => (false, data)
    | some next => runAssignments rest next

def loadSettings : Bool × SettingsData := runAssignments (assignments host configs) data

def updateSettings : Bool × SettingsData :=
  let (loaded, newData) := loadSettings host configs data
  if loaded && newData.isValid then (true, newData) else (false, data)

namespace Getter

variable {contains : Bytes → Bool} {T : Type}

/-- The entry is there and has this value. -/
def Sets (g : Getter contains T) (key : Bytes) (v : T) : Prop :=
  contains key = true ∧ ∀ fallback, g.get key fallback = some v

/-- The entry is there and has no value of this type. -/
def IllTyped (g : Getter contains T) (key : Bytes) : Prop :=
  contains key = true ∧ ∀ fallback, g.get key fallback = none

/-- The field takes the configured value, capped, or keeps its own. -/
structure Updates (g : Getter contains T) (key : Bytes) (cap : T → T) (old new : T) : Prop where
  present : contains key = true → ∃ v, g.Sets key v ∧ new = cap v
  absent : contains key = false → new = old

end Getter

/-- Every field is updated from its own key. -/
structure FieldsUpdated (old new : SettingsData) : Prop where
  ip : configs.string.Updates (ascii "ip") id old.ip new.ip
  port : configs.uint16.Updates (ascii "port") id old.port new.port
  maxThreads : configs.uint.Updates (ascii "max_threads") (min · host.hardwareConcurrency)
    old.maxThreads new.maxThreads
  backlogSize : configs.size.Updates (ascii "backlog_size") id old.backlogSize new.backlogSize
  connectionTimeoutMs : configs.size.Updates (ascii "connection_timeout_ms") id
    old.connectionTimeoutMs new.connectionTimeoutMs
  maxBodySize : configs.size.Updates (ascii "max_body_size") id old.maxBodySize new.maxBodySize
  maxRequestSize : configs.size.Updates (ascii "max_request_size") id
    old.maxRequestSize new.maxRequestSize
  maxResponseSize : configs.size.Updates (ascii "max_response_size") id
    old.maxResponseSize new.maxResponseSize

/-- An atomic partial update. -/
structure PartialUpdate (result : Bool × SettingsData) : Prop where
  refused : result.1 = false → result.2 = data
  valid : result.1 = true → result.2.isValid = true
  fields : result.1 = true → FieldsUpdated host configs data result.2

/-- What makes `updateSettings` return false. -/
def UpdateRefused : Prop :=
  (configs.string.IllTyped (ascii "ip") ∨ configs.uint16.IllTyped (ascii "port") ∨
    configs.uint.IllTyped (ascii "max_threads") ∨ configs.size.IllTyped (ascii "backlog_size") ∨
    configs.size.IllTyped (ascii "connection_timeout_ms") ∨
    configs.size.IllTyped (ascii "max_body_size") ∨
    configs.size.IllTyped (ascii "max_request_size") ∨
    configs.size.IllTyped (ascii "max_response_size")) ∨
  configs.string.Sets (ascii "ip") [] ∨ configs.uint16.Sets (ascii "port") 0 ∨
    configs.uint.Sets (ascii "max_threads") 0 ∨ host.hardwareConcurrency = 0 ∨
    configs.size.Sets (ascii "backlog_size") 0

/-- Where a key is absent, the current value is the one that stands in the loader. -/
structure AbsentAtDefaults : Prop where
  ip : configs.contains (ascii "ip") = false → data.ip = ascii "0.0.0.0"
  port : configs.contains (ascii "port") = false → data.port = 8080
  maxThreads : configs.contains (ascii "max_threads") = false →
    data.maxThreads = min 2 host.hardwareConcurrency
  backlogSize : configs.contains (ascii "backlog_size") = false →
    data.backlogSize = host.somaxconn
  connectionTimeoutMs : configs.contains (ascii "connection_timeout_ms") = false →
    data.connectionTimeoutMs = 60000
  maxBodySize : configs.contains (ascii "max_body_size") = false → data.maxBodySize = 64 * 1024
  maxRequestSize : configs.contains (ascii "max_request_size") = false →
    data.maxRequestSize = 64 * 1024
  maxResponseSize : configs.contains (ascii "max_response_size") = false →
    data.maxResponseSize = 64 * 1024

namespace Getter

variable {contains : Bytes → Bool} {T : Type} (g : Getter contains T) (key : Bytes)

theorem get_eq_some_iff (fallback v : T) :
    g.get key fallback = some v ↔ g.Sets key v ∨ contains key = false ∧ fallback = v := by
  cases hkey : contains key with
  | false => simp [Sets, hkey, g.get_absent key fallback hkey]
  | true =>
    have hsame : ∀ other, g.get key other = g.get key fallback := fun other =>
      g.get_present key other fallback hkey
    simp only [Sets, hkey, hsame, true_and, Bool.true_eq_false, false_and, or_false]
    exact ⟨fun h _ => h, fun h => h fallback⟩

theorem get_eq_none_iff (fallback : T) : g.get key fallback = none ↔ g.IllTyped key := by
  cases hkey : contains key with
  | false => simp [IllTyped, hkey, g.get_absent key fallback hkey]
  | true =>
    have hsame : ∀ other, g.get key other = g.get key fallback := fun other =>
      g.get_present key other fallback hkey
    simp only [IllTyped, hkey, hsame, true_and]
    exact ⟨fun h _ => h, fun h => h fallback⟩

/-- A field that was loaded is updated unless a missing key gave it another value. -/
theorem updates_iff {fallback v : T} (hget : g.get key fallback = some v) (cap : T → T) (old : T) :
    g.Updates key cap old (cap v) ↔ (contains key = false → old = cap fallback) := by
  rcases (g.get_eq_some_iff key fallback v).mp hget with hsets | ⟨hkey, rfl⟩
  · have hthere : contains key ≠ false := by
      rw [hsets.1]
      decide
    exact ⟨fun _ hkey => absurd hkey hthere,
      fun _ => ⟨fun _ => ⟨v, hsets, rfl⟩, fun hkey => absurd hkey hthere⟩⟩
  · have hnot : contains key ≠ true := by
      rw [hkey]
      decide
    exact ⟨fun h _ => (h.absent hkey).symm,
      fun h => ⟨fun htrue => absurd htrue hnot, fun _ => (h hkey).symm⟩⟩

end Getter

theorem runAssignments_cons_eq_true (assignment : SettingsData → Option SettingsData)
    (rest : List (SettingsData → Option SettingsData)) (data new : SettingsData) :
    runAssignments (assignment :: rest) data = (true, new) ↔
      ∃ next, assignment data = some next ∧ runAssignments rest next = (true, new) := by
  rw [runAssignments]
  cases assignment data <;> simp

structure Loaded (new : SettingsData) : Prop where
  ip : configs.string.get (ascii "ip") (ascii "0.0.0.0") = some new.ip
  port : configs.uint16.get (ascii "port") 8080 = some new.port
  maxThreads : ∃ v, configs.uint.get (ascii "max_threads") 2 = some v ∧
    new.maxThreads = min v host.hardwareConcurrency
  backlogSize : configs.size.get (ascii "backlog_size") host.somaxconn = some new.backlogSize
  connectionTimeoutMs : configs.size.get (ascii "connection_timeout_ms") 60000 =
    some new.connectionTimeoutMs
  maxBodySize : configs.size.get (ascii "max_body_size") (64 * 1024) = some new.maxBodySize
  maxRequestSize : configs.size.get (ascii "max_request_size") (64 * 1024) =
    some new.maxRequestSize
  maxResponseSize : configs.size.get (ascii "max_response_size") (64 * 1024) =
    some new.maxResponseSize

/-- What is loaded does not depend on the data that the assignments start from. -/
theorem loadSettings_eq_true_iff (new : SettingsData) :
    loadSettings host configs data = (true, new) ↔ Loaded host configs new := by
  simp only [loadSettings, assignments, runAssignments_cons_eq_true, Option.map_eq_some_iff]
  constructor
  · rintro ⟨_, ⟨ip, hip, rfl⟩, _, ⟨port, hport, rfl⟩, _, ⟨threads, hthreads, rfl⟩,
      _, ⟨backlog, hbacklog, rfl⟩, _, ⟨timeout, htimeout, rfl⟩, _, ⟨body, hbody, rfl⟩,
      _, ⟨request, hrequest, rfl⟩, _, ⟨response, hresponse, rfl⟩, hnew⟩
    obtain rfl := (Prod.mk.inj hnew).2
    exact ⟨hip, hport, ⟨threads, hthreads, rfl⟩, hbacklog, htimeout, hbody, hrequest, hresponse⟩
  · intro h
    obtain ⟨threads, hthreads, hmin⟩ := h.maxThreads
    refine ⟨_, ⟨_, h.ip, rfl⟩, _, ⟨_, h.port, rfl⟩, _, ⟨threads, hthreads, rfl⟩,
      _, ⟨_, h.backlogSize, rfl⟩, _, ⟨_, h.connectionTimeoutMs, rfl⟩, _, ⟨_, h.maxBodySize, rfl⟩,
      _, ⟨_, h.maxRequestSize, rfl⟩, _, ⟨_, h.maxResponseSize, rfl⟩, ?_⟩
    rw [runAssignments, ← hmin]

theorem updateSettings_of_loaded {new : SettingsData} (hload : Loaded host configs new)
    (hvalid : new.isValid = true) : updateSettings host configs data = (true, new) := by
  rw [updateSettings, (loadSettings_eq_true_iff host configs data new).mpr hload]
  simp [hvalid]

theorem updateSettings_of_not_loaded
    (h : ∀ new, Loaded host configs new → new.isValid ≠ true) :
    updateSettings host configs data = (false, data) := by
  rw [updateSettings]
  cases hload : loadSettings host configs data with
  | mk loaded new =>
    cases loaded with
    | false => rfl
    | true =>
      have hvalid := h new ((loadSettings_eq_true_iff host configs data new).mp hload)
      simp [hvalid]

theorem isValid_iff : data.isValid = true ↔
    data.port ≠ 0 ∧ data.ip ≠ [] ∧ data.maxThreads ≠ 0 ∧ data.backlogSize ≠ 0 := by
  have hport : data.port < 1 ↔ data.port = 0 := by
    rw [UInt16.lt_iff_toNat_lt, ← UInt16.toNat_inj]
    exact Nat.lt_one_iff
  have hmax : ¬ 65535 < data.port.toNat := Nat.not_lt.mpr (Nat.le_of_lt_succ data.port.toNat_lt)
  unfold SettingsData.isValid
  simp only [hport, hmax, List.isEmpty_iff]
  split_ifs <;> simp_all

theorem min_ne_zero_iff (v w : UInt32) : min v w ≠ 0 ↔ v ≠ 0 ∧ w ≠ 0 := by
  have hdef : min v w = if v ≤ w then v else w := rfl
  rw [hdef]
  split_ifs with h
  · refine ⟨fun hv => ⟨hv, ?_⟩, fun hvw => hvw.1⟩
    rintro rfl
    exact hv (UInt32.le_zero_iff.mp h)
  · refine ⟨fun hw => ⟨?_, hw⟩, fun hvw => hvw.2⟩
    rintro rfl
    exact h (UInt32.zero_le)

theorem not_sets_iff {contains : Bytes → Bool} {T : Type} (g : Getter contains T) (key : Bytes)
    {fallback v bad : T} (hget : g.get key fallback = some v) (hfallback : fallback ≠ bad) :
    ¬ g.Sets key bad ↔ v ≠ bad := by
  refine not_congr ⟨fun hsets => ?_, ?_⟩
  · exact Option.some.inj (hget.symm.trans (hsets.2 fallback))
  · rintro rfl
    rcases (g.get_eq_some_iff key fallback v).mp hget with hsets | ⟨-, rfl⟩
    · exact hsets
    · exact absurd rfl hfallback

theorem not_updateRefused_iff :
    ¬ UpdateRefused host configs ↔ ∃ new, Loaded host configs new ∧ new.isValid = true := by
  have hsome : ∀ {contains : Bytes → Bool} {T : Type} (g : Getter contains T) (key : Bytes)
      (fallback : T), ¬ g.IllTyped key ↔ ∃ v, g.get key fallback = some v := by
    intro contains T g key fallback
    rw [← g.get_eq_none_iff key fallback]
    exact Option.ne_none_iff_exists'
  constructor
  · intro h
    simp only [UpdateRefused, not_or] at h
    obtain ⟨⟨hip, hport, hthreads, hbacklog, htimeout, hbody, hrequest, hresponse⟩,
      hnoIp, hnoPort, hnoThreads, hhost, hnoBacklog⟩ := h
    obtain ⟨ip, hip⟩ := (hsome _ _ (ascii "0.0.0.0")).mp hip
    obtain ⟨port, hport⟩ := (hsome _ _ 8080).mp hport
    obtain ⟨threads, hthreads⟩ := (hsome _ _ 2).mp hthreads
    obtain ⟨backlog, hbacklog⟩ := (hsome _ _ host.somaxconn).mp hbacklog
    obtain ⟨timeout, htimeout⟩ := (hsome _ _ 60000).mp htimeout
    obtain ⟨body, hbody⟩ := (hsome _ _ (64 * 1024)).mp hbody
    obtain ⟨request, hrequest⟩ := (hsome _ _ (64 * 1024)).mp hrequest
    obtain ⟨response, hresponse⟩ := (hsome _ _ (64 * 1024)).mp hresponse
    refine ⟨⟨port, ip, min threads host.hardwareConcurrency, backlog, timeout, body, request,
      response⟩, ⟨hip, hport, ⟨threads, hthreads, rfl⟩, hbacklog, htimeout, hbody, hrequest,
      hresponse⟩, (isValid_iff _).mpr ⟨?_, ?_, ?_, ?_⟩⟩
    · exact (not_sets_iff _ _ hport (by decide)).mp hnoPort
    · exact (not_sets_iff _ _ hip (by decide)).mp hnoIp
    · exact (min_ne_zero_iff _ _).mpr ⟨(not_sets_iff _ _ hthreads (by decide)).mp hnoThreads, hhost⟩
    · exact (not_sets_iff _ _ hbacklog host.somaxconn_ne_zero).mp hnoBacklog
  · rintro ⟨new, hload, hvalid⟩
    obtain ⟨hport, hip, hthreads, hbacklog⟩ := (isValid_iff new).mp hvalid
    obtain ⟨threads, hget, hmin⟩ := hload.maxThreads
    rw [hmin, min_ne_zero_iff] at hthreads
    simp only [UpdateRefused, not_or]
    refine ⟨⟨(hsome _ _ _).mpr ⟨_, hload.ip⟩, (hsome _ _ _).mpr ⟨_, hload.port⟩,
      (hsome _ _ _).mpr ⟨_, hget⟩, (hsome _ _ _).mpr ⟨_, hload.backlogSize⟩,
      (hsome _ _ _).mpr ⟨_, hload.connectionTimeoutMs⟩, (hsome _ _ _).mpr ⟨_, hload.maxBodySize⟩,
      (hsome _ _ _).mpr ⟨_, hload.maxRequestSize⟩, (hsome _ _ _).mpr ⟨_, hload.maxResponseSize⟩⟩,
      ?_, ?_, ?_, hthreads.2, ?_⟩
    · exact (not_sets_iff _ _ hload.ip (by decide)).mpr hip
    · exact (not_sets_iff _ _ hload.port (by decide)).mpr hport
    · exact (not_sets_iff _ _ hget (by decide)).mpr hthreads.1
    · exact (not_sets_iff _ _ hload.backlogSize host.somaxconn_ne_zero).mpr hbacklog

theorem fieldsUpdated_iff {new : SettingsData} (h : Loaded host configs new) :
    FieldsUpdated host configs data new ↔ AbsentAtDefaults host configs data := by
  obtain ⟨threads, hthreads, hmin⟩ := h.maxThreads
  have ip := configs.string.updates_iff _ h.ip id data.ip
  have port := configs.uint16.updates_iff _ h.port id data.port
  have maxThreads := configs.uint.updates_iff _ hthreads (min · host.hardwareConcurrency)
    data.maxThreads
  have backlogSize := configs.size.updates_iff _ h.backlogSize id data.backlogSize
  have timeout := configs.size.updates_iff _ h.connectionTimeoutMs id data.connectionTimeoutMs
  have maxBodySize := configs.size.updates_iff _ h.maxBodySize id data.maxBodySize
  have maxRequestSize := configs.size.updates_iff _ h.maxRequestSize id data.maxRequestSize
  have maxResponseSize := configs.size.updates_iff _ h.maxResponseSize id data.maxResponseSize
  rw [← hmin] at maxThreads
  constructor
  · exact fun u => ⟨ip.mp u.ip, port.mp u.port, maxThreads.mp u.maxThreads,
      backlogSize.mp u.backlogSize, timeout.mp u.connectionTimeoutMs, maxBodySize.mp u.maxBodySize,
      maxRequestSize.mp u.maxRequestSize, maxResponseSize.mp u.maxResponseSize⟩
  · exact fun d => ⟨ip.mpr d.ip, port.mpr d.port, maxThreads.mpr d.maxThreads,
      backlogSize.mpr d.backlogSize, timeout.mpr d.connectionTimeoutMs,
      maxBodySize.mpr d.maxBodySize, maxRequestSize.mpr d.maxRequestSize,
      maxResponseSize.mpr d.maxResponseSize⟩

theorem partialUpdate_call_iff :
    PartialUpdate host configs data (updateSettings host configs data) ↔
      UpdateRefused host configs ∨ AbsentAtDefaults host configs data := by
  by_cases hrefused : UpdateRefused host configs
  · have hnone : ∀ new, Loaded host configs new → new.isValid ≠ true := fun new hload hvalid =>
      (not_updateRefused_iff host configs).mpr ⟨new, hload, hvalid⟩ hrefused
    rw [updateSettings_of_not_loaded host configs data hnone]
    exact ⟨fun _ => Or.inl hrefused, fun _ => ⟨fun _ => rfl, by simp, by simp⟩⟩
  · obtain ⟨new, hload, hvalid⟩ := (not_updateRefused_iff host configs).mp hrefused
    rw [updateSettings_of_loaded host configs data hload hvalid, or_iff_right hrefused,
      ← fieldsUpdated_iff host configs data hload]
    exact ⟨fun h => h.fields rfl, fun h => ⟨by simp, fun _ => hvalid, fun _ => h⟩⟩

/-- The settings after each call of a series. -/
def updateStep (data : SettingsData) (configs : EnhancedJson) : Option SettingsData :=
  some (updateSettings host configs data).2

theorem partialUpdate_iff (calls : List EnhancedJson) :
    Runs.Guarded (updateStep host) (fun data configs =>
        PartialUpdate host configs data (updateSettings host configs data)) data calls ↔
      Runs.Guarded (updateStep host) (fun data configs =>
        UpdateRefused host configs ∨ AbsentAtDefaults host configs data) data calls :=
  Runs.guarded_congr (fun data configs => partialUpdate_call_iff host configs data) data calls

def Getter.ofNumbers {T : Type} (entries : List (Bytes × ℕ)) (read : ℕ → Option T) :
    Getter (fun key => (entries.lookup key).isSome) T where
  get key fallback := ((entries.lookup key).map read).getD (some fallback)
  get_absent key fallback habsent := by
    rw [Option.isSome_eq_false_iff, Option.isNone_iff_eq_none] at habsent
    rw [habsent]
    rfl
  get_present key fallback other hpresent := by
    obtain ⟨n, hn⟩ := Option.isSome_iff_exists.mp hpresent
    rw [hn]
    rfl

/-- A number is no string, and it is converted to the integer types without a check. -/
def EnhancedJson.ofNumbers (entries : List (Bytes × ℕ)) : EnhancedJson where
  contains key := (entries.lookup key).isSome
  string := .ofNumbers entries fun _ => none
  uint16 := .ofNumbers entries fun n => some (UInt16.ofNat n)
  uint := .ofNumbers entries fun n => some (UInt32.ofNat n)
  size := .ofNumbers entries fun n => some (UInt64.ofNat n)

/-- A configuration with a port alone also changes the number of threads. -/
theorem absent_keys_not_kept : ¬ PartialUpdate ⟨16, 4096, by decide⟩
    (.ofNumbers [(ascii "port", 9090)]) configJson
    (updateSettings ⟨16, 4096, by decide⟩ (.ofNumbers [(ascii "port", 9090)]) configJson) := by
  intro h
  have hkept := (h.fields (by decide +kernel)).maxThreads.absent (by decide +kernel)
  exact absurd hkept (by decide +kernel)

end WarpApi

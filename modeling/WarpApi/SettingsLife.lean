import WarpApi.SettingsUpdates
import WarpApi.Library.LastWrite

/-!
The static settings through the calls of a program: the constructor of `Settings`, as long
as none has succeeded, and `updateSettings`. The constructor drops the result of
`loadSettings` and only asks whether what was assigned is valid, so a configuration that
throws behind the fields that `isValid` looks at counts as loaded.
-/
namespace WarpApi

open LastWrite

/-- `Settings::_data` and `Settings::_initialized`. -/
structure StaticSettings where
  data : SettingsData
  initialized : Bool
  deriving DecidableEq

inductive SettingsCall
  | construct (configs : EnhancedJson)
  | update (configs : EnhancedJson)

/-- The fields before any code runs. -/
def zeroSettings : SettingsData := ⟨0, [], 0, 0, 0, 0, 0, 0⟩

namespace StaticSettings

def init : StaticSettings := ⟨zeroSettings, false⟩

def construct (host : Platform) (configs : EnhancedJson) (st : StaticSettings) : StaticSettings :=
  if st.initialized then st
  else
    let data := (loadSettings host configs st.data).2
    ⟨data, data.isValid⟩

def call (host : Platform) (st : StaticSettings) : SettingsCall → StaticSettings
  | .construct configs => st.construct host configs
  | .update configs => { st with data := (updateSettings host configs st.data).2 }

/-- What a call puts into force once the settings are initialised: nothing but an update
that is accepted does, and its settings are those of its configuration alone. -/
def accepted (host : Platform) : SettingsCall → Option SettingsData
  | .construct _ => none
  | .update configs =>
    let (taken, data) := updateSettings host configs zeroSettings
    if taken then some data else none

variable (host : Platform)

/-- An update is accepted or not, and means the same, whatever is in force before it. -/
theorem updateSettings_eq_accepted (configs : EnhancedJson) (data : SettingsData) :
    updateSettings host configs data =
      ((accepted host (.update configs)).isSome,
        (accepted host (.update configs)).getD data) := by
  by_cases hload : ∃ new, Loaded host configs new ∧ new.isValid = true
  · obtain ⟨new, hloaded, hvalid⟩ := hload
    rw [accepted, updateSettings_of_loaded host configs data hloaded hvalid,
      updateSettings_of_loaded host configs zeroSettings hloaded hvalid]
    rfl
  · have hnone : ∀ new, Loaded host configs new → new.isValid ≠ true :=
      fun new hloaded hvalid => hload ⟨new, hloaded, hvalid⟩
    rw [accepted, updateSettings_of_not_loaded host configs data hnone,
      updateSettings_of_not_loaded host configs zeroSettings hnone]
    rfl

theorem isValid_of_accepted {c : SettingsCall} {data : SettingsData}
    (h : accepted host c = some data) : data.isValid = true := by
  cases c with
  | construct configs => simp [accepted] at h
  | update configs =>
    have hupdate := updateSettings_eq_accepted host configs zeroSettings
    rw [h] at hupdate
    unfold updateSettings at hupdate
    dsimp only at hupdate
    split_ifs at hupdate with hvalid
    · obtain rfl := (Prod.mk.inj hupdate).2
      exact (Bool.and_eq_true_iff.mp hvalid).2
    · simp at hupdate

/-- What holds behind every series of calls. -/
def Sound (st : StaticSettings) : Prop := st.initialized = true → st.data.isValid = true

theorem Sound.call {st : StaticSettings} (h : Sound st) (c : SettingsCall) :
    Sound (st.call host c) := by
  cases c with
  | construct configs =>
    unfold StaticSettings.call construct
    split_ifs
    · exact h
    · exact fun hvalid => hvalid
  | update configs =>
    intro hinit
    unfold StaticSettings.call
    dsimp only
    rw [updateSettings_eq_accepted]
    cases haccepted : accepted host (.update configs) with
    | none => exact h hinit
    | some data => exact isValid_of_accepted host haccepted

theorem sound_calls (calls : List SettingsCall) : Sound (calls.foldl (call host) init) := by
  have hrun : ∀ st, Sound st → Sound (calls.foldl (call host) st) := by
    induction calls with
    | nil => exact fun st hst => hst
    | cons c calls ih => exact fun st hst => ih _ (hst.call host c)
  exact hrun init fun h => absurd h Bool.false_ne_true

theorem call_of_initialized (data : SettingsData) (c : SettingsCall) :
    (⟨data, true⟩ : StaticSettings).call host c = ⟨(accepted host c).getD data, true⟩ := by
  cases c with
  | construct configs => rfl
  | update configs =>
    unfold StaticSettings.call
    dsimp only
    rw [updateSettings_eq_accepted]

end StaticSettings

/-- Settings that count as initialised are valid, and from then on they are a register: the
settings in force are those of the last accepted update, which its configuration alone
decides, and no later constructor changes them. -/
theorem settings_life (host : Platform) (calls more : List SettingsCall) (data : SettingsData)
    (hinit : calls.foldl (StaticSettings.call host) StaticSettings.init = ⟨data, true⟩) :
    data.isValid = true ∧
      more.foldl (StaticSettings.call host) ⟨data, true⟩ =
        ⟨((more.filterMap (StaticSettings.accepted host)).getLast?).getD data, true⟩ := by
  have hsound := StaticSettings.sound_calls host calls
  rw [hinit] at hsound
  refine ⟨hsound rfl, ?_⟩
  rw [← foldl_choice]
  clear hinit hsound
  induction more generalizing data with
  | nil => rfl
  | cons c more ih =>
    rw [List.foldl_cons, List.foldl_cons, StaticSettings.call_of_initialized, ih]

def smallHost : Platform := ⟨16, 4096, by decide⟩

def portAlone (port : ℕ) : EnhancedJson := .ofNumbers [(ascii "port", port)]

def onPort (port : UInt16) : SettingsData :=
  ⟨port, ascii "0.0.0.0", 2, 4096, 60000, 64 * 1024, 64 * 1024, 64 * 1024⟩

/-- The first constructor does not succeed, and behind the second one only an update counts. -/
theorem settings_life_onPort :
    (onPort 9090).isValid = true ∧
      [.update (portAlone 80), .update (portAlone 0), .construct (portAlone 1)].foldl
        (StaticSettings.call smallHost) ⟨onPort 9090, true⟩ = ⟨onPort 80, true⟩ := by
  have hlast : ([.update (portAlone 80), .update (portAlone 0), .construct (portAlone 1)].filterMap
      (StaticSettings.accepted smallHost)).getLast? = some (onPort 80) := by decide +kernel
  obtain ⟨hvalid, hmore⟩ := settings_life smallHost
    [.construct (portAlone 0), .construct (portAlone 9090)]
    [.update (portAlone 80), .update (portAlone 0), .construct (portAlone 1)] (onPort 9090)
    (by decide +kernel)
  rw [hlast] at hmore
  exact ⟨hvalid, hmore⟩

/-- The entries that `isValid` depends on, as far as `loadSettings` makes of them. -/
@[mk_iff]
structure EssentialsLoaded (host : Platform) (configs : EnhancedJson) : Prop where
  ip : ∃ v, configs.string.get (ascii "ip") (ascii "0.0.0.0") = some v ∧ v ≠ []
  port : ∃ v, configs.uint16.get (ascii "port") 8080 = some v ∧ v ≠ 0
  maxThreads : ∃ v, configs.uint.get (ascii "max_threads") 2 = some v ∧
    min v host.hardwareConcurrency ≠ 0
  backlogSize : ∃ v, configs.size.get (ascii "backlog_size") host.somaxconn = some v ∧ v ≠ 0

variable (host : Platform) (configs : EnhancedJson)

/-- One field: behind a throw nothing more is assigned. -/
theorem runAssignments_map {T : Type} (o : Option T) (set : SettingsData → T → SettingsData)
    (rest : List (SettingsData → Option SettingsData)) (data : SettingsData) :
    runAssignments ((fun data => o.map (set data)) :: rest) data =
      o.elim (false, data) fun v => runAssignments rest (set data v) := by
  cases o <;> rfl

/-- Assignments that leave these four fields leave the data as valid as they are. -/
theorem isValid_runAssignments {rest : List (SettingsData → Option SettingsData)}
    (hrest : ∀ assignment ∈ rest, ∀ data next, assignment data = some next →
      next.port = data.port ∧ next.ip = data.ip ∧ next.maxThreads = data.maxThreads ∧
        next.backlogSize = data.backlogSize) (data : SettingsData) :
    (runAssignments rest data).2.isValid = data.isValid := by
  induction rest generalizing data with
  | nil => rfl
  | cons assignment rest ih =>
    rw [runAssignments]
    cases hassign : assignment data with
    | none => rfl
    | some next =>
      obtain ⟨hport, hip, hthreads, hbacklog⟩ :=
        hrest assignment (List.mem_cons_self ..) data next hassign
      dsimp only
      rw [ih fun a ha => hrest a (List.mem_cons_of_mem _ ha)]
      unfold SettingsData.isValid
      rw [hport, hip, hthreads, hbacklog]

theorem sizes_kept : ∀ assignment ∈ (assignments host configs).drop 4, ∀ data next,
    assignment data = some next →
      next.port = data.port ∧ next.ip = data.ip ∧ next.maxThreads = data.maxThreads ∧
        next.backlogSize = data.backlogSize := by
  intro assignment hmem data next hassign
  simp only [assignments, List.drop_succ_cons, List.drop_zero, List.mem_cons, List.not_mem_nil,
    or_false] at hmem
  rcases hmem with rfl | rfl | rfl | rfl
  all_goals
    obtain ⟨v, -, rfl⟩ := Option.map_eq_some_iff.mp hassign
    exact ⟨rfl, rfl, rfl, rfl⟩

/-- Exactly the configurations whose first four entries are usable initialise the settings,
whatever becomes of the timeout and of the three sizes behind them. -/
theorem construct_initialized_iff :
    (StaticSettings.init.construct host configs).initialized = true ↔
      EssentialsLoaded host configs := by
  have hstart : (StaticSettings.init.construct host configs).initialized =
      (loadSettings host configs zeroSettings).2.isValid := rfl
  have hsizes := isValid_runAssignments (sizes_kept host configs)
  simp only [assignments, List.drop_succ_cons, List.drop_zero] at hsizes
  rw [hstart, loadSettings, essentialsLoaded_iff, assignments, runAssignments_map]
  cases hip : configs.string.get (ascii "ip") (ascii "0.0.0.0") with
  | none => simp [isValid_iff, zeroSettings]
  | some ip =>
    rw [Option.elim_some, runAssignments_map]
    cases hport : configs.uint16.get (ascii "port") 8080 with
    | none => simp [isValid_iff, zeroSettings]
    | some port =>
      rw [Option.elim_some, runAssignments_map]
      cases hthreads : configs.uint.get (ascii "max_threads") 2 with
      | none => simp [isValid_iff, zeroSettings]
      | some threads =>
        rw [Option.elim_some, runAssignments_map]
        cases hbacklog : configs.size.get (ascii "backlog_size") host.somaxconn with
        | none => simp [isValid_iff, zeroSettings]
        | some backlog =>
          rw [Option.elim_some, hsizes, isValid_iff]
          simp only [Option.some.injEq, exists_eq_left']
          tauto

end WarpApi

import WarpApi.ViewMoves

/-!
The views along the runs of the worker. Every step leaves a view alone or makes one of the
local steps, so an invariant of all views is proved one local step at a time.
-/
namespace WarpApi

namespace Worker

/-- What the worker does in a step: it hands a completion to its session, deals with the
listener, lets the kernel or a timer act, or submits. -/
inductive StepCase (server : Server) (w w' : Worker) : Event → Prop
  | completes {e : Event} {sid : SessionId} {op : Op} {next : List Op} {now : ℕ}
      {process : Session → Ring → Option (Bool × Session × Ring)}
      (hcompletes : Completes e sid op next)
      (hprocess : ∀ s alive t ring', process s w.ring = some (alive, t, ring') →
        ∃ added, ring' = w.ring.extend added ∧
          Handled server w.ring e s (if alive then t else t.setStatus .closing) added)
      (htake : w.take op next sid now process = some w') : StepCase server w w' e
  | accepts {fd : ℤ} {more : Bool} (hlistens : .accept ∈ w.inFlight)
      (hdone : (w.connect server fd).listenerDone more = some w') :
      StepCase server w w' (.accept fd more)
  | acceptFails {more : Bool} (hlistens : .accept ∈ w.inFlight)
      (hdone : w.listenerDone more = some w') : StepCase server w w' (.acceptFailed more)
  | performs {sid : SessionId} {region : Bytes} {n : ℕ} (hnext : w.nextSend sid = some region)
      (hn : n ≤ region.length)
      (hafter : w' = { w.proceed (.send sid region) [.sent sid n] with
        wire := Function.update w.wire sid (w.wire sid ++ region.take n) }) :
      StepCase server w w' (.kernelSend sid n)
  | refuses {sid : SessionId} {region : Bytes} {more : Bool}
      (hnext : w.nextSend sid = some region)
      (hafter : w' = w.proceed (.send sid region) [.failed sid more]) :
      StepCase server w w' (.kernelFail sid more)
  | expires {sid : SessionId} {s : Session} (hpool : w.pool sid = some s)
      (hlinked : w.wheel sid = true) (hafter : w' = w.expire sid s) :
      StepCase server w w' (.expire sid)
  | submits (hafter : w' = w.submit) : StepCase server w w' .submit
  | consumes {k : ℕ} (hafter : w' = { w with ring := { w.ring with lag := w.ring.lag - k } }) :
      StepCase server w w' (.consume k)

theorem step_cases {server : Server} {w w' : Worker} {e : Event}
    (h : w.step server e = some w') : StepCase server w w' e := by
  cases e with
  | accept fd more =>
    obtain ⟨hlistens, hdone⟩ := Option.ite_none_right_eq_some.mp h
    exact .accepts hlistens hdone
  | acceptFailed more =>
    obtain ⟨hlistens, hdone⟩ := Option.ite_none_right_eq_some.mp h
    exact .acceptFails hlistens hdone
  | recv sid room res now =>
    obtain ⟨-, htake⟩ := Option.ite_none_right_eq_some.mp h
    exact .completes (.recv sid room res now)
      (fun s alive t ring' hres => handled_processRead hres) htake
  | sent sid n now =>
    exact .completes (.sent sid n now) (fun s alive t ring' hres => handled_sent hres) h
  | failed sid more now =>
    exact .completes (.failed sid more now) (fun s alive t ring' hres => handled_failed hres) h
  | notif sid now =>
    exact .completes (.notif sid now) (fun s alive t ring' hres => handled_notif hres) h
  | kernelSend sid n =>
    simp only [step] at h
    split at h
    · simp at h
    · rename_i region hnext
      obtain ⟨hn, hafter⟩ := Option.ite_none_right_eq_some.mp h
      exact .performs hnext hn (Option.some.inj hafter).symm
  | kernelFail sid more =>
    simp only [step] at h
    split at h
    · simp at h
    · rename_i region hnext
      exact .refuses hnext (Option.some.inj h).symm
  | expire sid =>
    simp only [step] at h
    split at h
    · simp at h
    · rename_i s hpool
      obtain ⟨hlinked, hafter⟩ := Option.ite_none_right_eq_some.mp h
      exact .expires hpool hlinked (Option.some.inj hafter).symm
  | submit => exact .submits (Option.some.inj h).symm
  | consume k =>
    obtain ⟨-, hafter⟩ := Option.ite_none_right_eq_some.mp h
    exact .consumes (Option.some.inj hafter).symm

/-- Every step of the worker is a local step of one session or changes no view. -/
theorem moves_step {server : Server} {w w' : Worker} {e : Event} (hw : w.Sound)
    (h : w.step server e = some w') :
    w.acquired ≤ w'.acquired ∧
      (Rests e w w' ∨ ∃ sid, Moves server e w w' sid) := by
  cases step_cases h with
  | completes hcompletes hprocess htake =>
    obtain ⟨hacq, hm⟩ := moves_take hw hcompletes hprocess htake
    exact ⟨Nat.le_of_eq hacq.symm, Or.inr ⟨_, hm⟩⟩
  | @accepts fd more hlistens hdone =>
    obtain ⟨hacq, hviews⟩ := view_listenerDone hdone
    obtain ⟨hnext, hmoves⟩ := moves_connect server fd more hw
    refine ⟨by rw [hacq, hnext]; exact Nat.le_succ _, hmoves.imp ?_ ?_⟩
    · exact fun hrests => { hrests with views := fun sid => (hviews sid).trans (hrests.views sid) }
    · intro hm
      refine ⟨w.acquired, hacq.symm ▸ hm.known, ?_, ?_⟩
      · exact fun sid' hne => (hviews sid').trans (hm.others sid' hne)
      · rw [hviews]
        exact hm.moved
  | acceptFails hlistens hdone =>
    obtain ⟨hacq, hviews⟩ := view_listenerDone hdone
    exact ⟨Nat.le_of_eq hacq.symm, Or.inl ⟨hviews, rfl, by simp⟩⟩
  | performs hnext hn hafter =>
    rw [hafter]
    exact ⟨Nat.le_refl _, Or.inr ⟨_, (moves_kernel hw hnext).1 _ hn⟩⟩
  | refuses hnext hafter =>
    rw [hafter]
    exact ⟨Nat.le_refl _, Or.inr ⟨_, (moves_kernel hw hnext).2 _⟩⟩
  | expires hpool hlinked hafter =>
    obtain ⟨hacq, hm⟩ := moves_expire server hw hpool hlinked
    rw [hafter]
    exact ⟨Nat.le_of_eq hacq.symm, Or.inr ⟨_, hm⟩⟩
  | submits hafter =>
    rw [hafter]
    exact ⟨Nat.le_refl _, Or.inl ⟨view_submit w, rfl, by simp⟩⟩
  | consumes hafter =>
    rw [hafter]
    exact ⟨Nat.le_refl _, Or.inl ⟨fun sid => rfl, rfl, by simp⟩⟩

theorem keyed_of_localStep {server : Server} {sid : SessionId} {ring : Ring} {e : Event}
    {v v' : View} (h : LocalStep server sid ring e v v')
    (hv : ∀ s, v.session = some s → s.self = sid) :
    ∀ s, v'.session = some s → s.self = sid := by
  intro t ht
  cases h with
  | born fd more =>
    rw [← Option.some.inj ht]
    unfold Session.onReadReadySqe
    split <;> rfl
  | released => simp at ht
  | ignored => exact hv t ht
  | handled _ _ hhandled htouched =>
    have hs := hv _ rfl
    have hself := hhandled.frame.1
    obtain rfl := Option.some.inj ht
    rcases htouched with ⟨rfl, -⟩ | ⟨⟨now, rfl⟩, -⟩
    · exact hself.trans hs
    · exact hself.trans hs
  | performed => exact hv t ht
  | refused => exact hv t ht
  | expiredFreed => simp at ht
  | @expiredKept s ops wire hio =>
    rw [← Option.some.inj ht]
    exact hv s rfl

theorem sound_step {server : Server} {w w' : Worker} {e : Event} (hw : w.Sound)
    (h : w.step server e = some w') : w'.Sound := by
  obtain ⟨hle, ⟨hsame, -, -⟩ | ⟨sid, hm⟩⟩ := moves_step hw h
  · refine ⟨fun sid s hs => ?_, fun sid hsid => (hsame sid).trans (hw.unused sid (hle.trans hsid))⟩
    exact hw.keyed sid s ((congrArg View.session (hsame sid)).symm.trans hs)
  · constructor
    · intro sid' s hs
      by_cases hne : sid' = sid
      · subst hne
        exact keyed_of_localStep hm.moved (fun s hs => hw.keyed _ s hs) s hs
      · exact hw.keyed sid' s ((congrArg View.session (hm.others sid' hne)).symm.trans hs)
    · intro sid' hsid'
      have hne : sid' ≠ sid := fun heq => absurd hm.known (heq ▸ Nat.not_lt.mpr hsid')
      exact (hm.others sid' hne).trans (hw.unused sid' (hle.trans hsid'))

def target (w : Worker) (e : Event) : View :=
  match e.session? with
  | some sid => w.view sid
  | none => View.unused

def Meets (guard : ViewGuard) (w : Worker) (e : Event) : Prop := guard w.ring e (w.target e)

instance {guard : ViewGuard} [∀ ring e v, Decidable (guard ring e v)] (w : Worker) (e : Event) :
    Decidable (Meets guard w e) :=
  inferInstanceAs (Decidable (guard w.ring e (w.target e)))

theorem target_of_localStep {server : Server} {w : Worker} {sid : SessionId} {e : Event} {v' : View}
    (h : LocalStep server sid w.ring e (w.view sid) v') : w.target e = w.view sid := by
  unfold target
  rcases h.session with hsid | ⟨hnone, hunused⟩
  · rw [hsid]
  · rw [hnone, hunused]

/-- What the local step of an event preserves is preserved by the event. -/
theorem views_of_step {server : Server} (guard : ViewGuard) {I : SessionId → View → Prop}
    (hstep : ∀ sid ring e v v', I sid v → guard ring e v →
      (∀ s, v.session = some s → s.self = sid) → LocalStep server sid ring e v v' → I sid v')
    {w w' : Worker} {e : Event} (hw : w.Sound) (hI : ∀ sid, I sid (w.view sid))
    (hguard : Meets guard w e) (h : w.step server e = some w') : ∀ sid, I sid (w'.view sid) := by
  intro sid
  obtain ⟨-, ⟨hsame, -, -⟩ | ⟨sid', hm⟩⟩ := moves_step hw h
  · rw [hsame]
    exact hI sid
  · by_cases hne : sid = sid'
    · subst hne
      unfold Meets at hguard
      rw [target_of_localStep hm.moved] at hguard
      exact hstep sid w.ring e _ _ (hI sid) hguard (fun s hs => hw.keyed sid s hs) hm.moved
    · rw [hm.others sid hne]
      exact hI sid

/-- What every guarded local step preserves holds for every session at the end of
every guarded run. -/
theorem views_of_run {server : Server} {guard : ViewGuard} {I : SessionId → View → Prop}
    (hunused : ∀ sid, I sid View.unused)
    (hstep : ∀ sid ring e v v', I sid v → guard ring e v →
      (∀ s, v.session = some s → s.self = sid) → LocalStep server sid ring e v v' → I sid v')
    {entries : ℕ} {es : List Event} {w : Worker}
    (hg : Runs.Guarded (step server) (Meets guard) (init entries) es)
    (hrun : Runs.run (step server) (init entries) es = some w) : ∀ sid, I sid (w.view sid) := by
  have hinv : w.Sound ∧ ∀ sid, I sid (w.view sid) := by
    refine Runs.invariant_of_guarded (I := fun w : Worker => w.Sound ∧ ∀ sid, I sid (w.view sid))
      ?_ ?_ hg hrun
    · exact fun w e w' ⟨hw, hI⟩ hguard hw' =>
        ⟨sound_step hw hw', views_of_step guard hstep hw hI hguard hw'⟩
    · exact ⟨sound_init entries, fun sid => (view_init entries sid).symm ▸ hunused sid⟩
  exact hinv.2

/-- What every local step preserves holds for every session in every reachable state. -/
theorem views_of_reachable {server : Server} {I : SessionId → View → Prop}
    (hunused : ∀ sid, I sid View.unused)
    (hstep : ∀ sid ring e v v', I sid v → (∀ s, v.session = some s → s.self = sid) →
      LocalStep server sid ring e v v' → I sid v')
    {entries : ℕ} {w : Worker} (h : Runs.Reachable (step server) (init entries) w) :
    ∀ sid, I sid (w.view sid) := by
  have hinv : w.Sound ∧ ∀ sid, I sid (w.view sid) := by
    refine Runs.invariant_of_reachable (I := fun w : Worker => w.Sound ∧ ∀ sid, I sid (w.view sid))
      ?_ ⟨sound_init entries, fun sid => (view_init entries sid).symm ▸ hunused sid⟩ h
    exact fun w e w' ⟨hw, hI⟩ hw' => ⟨sound_step hw hw', views_of_step (fun _ _ _ => True)
      (fun sid ring e v v' hv _ hkeyed hlocal => hstep sid ring e v v' hv hkeyed hlocal) hw hI
      trivial hw'⟩
  exact hinv.2

end Worker

end WarpApi

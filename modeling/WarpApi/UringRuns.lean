import WarpApi.UringViews

/-!
One session of the io_uring worker over a whole run. A number is given out once,
so the session stored under it now and the one stored under it later are the same
session, and what every step of a session respects relates the two.
-/
namespace WarpApi

/-- The parts that the handling of a completion, the timer and the expiry are made of:
a relation that each of these respects relates the states around every step. -/
structure UringRelation (server : Server) (R : Session → Session → Prop) : Prop where
  refl : ∀ s, R s s
  trans : ∀ s t u, R s t → R t u → R s u
  input : ∀ (s : Session) bytes t, s.status = .active →
    (s.setReading false).takeInput server bytes = some t → R s t
  flags : ∀ (s : Session) f, R s { s with ioFlags := f }
  locked : ∀ (s : Session) n, R s { s with lockedZcBytes := n }
  tick : ∀ (s : Session) now, R s { s with lastActivityTick := now }
  release : ∀ s : Session, R s s.releaseZc
  keepAliveOff : ∀ s : Session, R s { s with keepAlive := false }
  closing : ∀ s : Session, R s (s.setStatus .closing)
  close : ∀ s : Session, R s s.close

namespace UringRelation

variable {server : Server} {R : Session → Session → Prop}

theorem armed (h : UringRelation server R) {ring ring' : Ring} {s t u : Session}
    {wOps rOps : List Op} (hwrite : WriteArmed s ring t wOps) (hread : ReadArmed t ring' u rOps) :
    R s u := by
  have hst : R s t := by
    cases hwrite with
    | sends => exact h.flags s _
    | noEntry => exact h.refl _
    | idle => exact h.refl _
  refine h.trans _ _ _ hst ?_
  cases hread with
  | receives => exact h.flags t _
  | gaveUp => exact h.close t
  | noEntry => exact h.refl _
  | idle => exact h.refl _

theorem handled (h : UringRelation server R) {ring : Ring} {e : Event} {s t : Session}
    {added : List Op} (hactive : s.status = .active) (hh : Handled server ring e s t added) :
    R s t := by
  cases hh with
  | @data _ room now bytes _ s₁ s₂ _ wOps rOps hin hwrite hread =>
    exact h.trans _ _ _ (h.input s bytes s₁ hactive hin) (h.armed hwrite hread)
  | endClosed => exact h.trans _ _ _ (h.trans _ _ _ (h.flags s _) (h.close _)) (h.closing _)
  | endWaiting =>
    exact h.trans _ _ _ (h.trans _ _ _ (h.flags s _) (h.keepAliveOff _)) (h.closing _)
  | @sent _ n now _ => exact h.trans _ _ _ (h.flags s _) (h.locked _ n)
  | @failed _ more now _ =>
    have hflags : R s ((if more then s.setWaitingZc true else s).setWriting false) := by
      cases more with
      | true => exact h.flags s _
      | false => exact h.flags s _
    exact h.trans _ _ _ (h.trans _ _ _ hflags (h.close _)) (h.closing _)
  | notifSend => exact h.trans _ _ _ (h.release s) (h.flags _ _)
  | notifNoEntry => exact h.release s
  | notifKept => exact h.release s
  | notifClosed => exact h.trans _ _ _ (h.trans _ _ _ (h.release s) (h.close _)) (h.closing _)

theorem localStep (h : UringRelation server R) {sid : SessionId} {ring : Ring} {e : Event}
    {v v' : View} (hstep : LocalStep server sid ring e v v') (hold : e.session? = some sid)
    {t : Session} (ht : v'.session = some t) : ∃ s, v.session = some s ∧ R s t := by
  cases hstep with
  | born fd more => simp [Event.session?] at hold
  | released => simp at ht
  | ignored => exact ⟨_, rfl, Option.some.inj ht ▸ h.refl _⟩
  | @handled _ _ _ _ s u _ _ _ _ _ _ hactive hh htouched =>
    obtain rfl := Option.some.inj ht
    have hsu := h.handled hactive hh
    rcases htouched with ⟨rfl, -⟩ | ⟨⟨now, rfl⟩, -⟩
    · exact ⟨_, rfl, hsu⟩
    · exact ⟨_, rfl, h.trans _ _ _ hsu (h.tick _ now)⟩
  | performed => exact ⟨t, ht, h.refl t⟩
  | refused => exact ⟨t, ht, h.refl t⟩
  | expiredFreed => simp at ht
  | @expiredKept s ops wire hio =>
    exact ⟨s, rfl, Option.some.inj ht ▸ h.trans _ _ _ (h.closing s) (h.close _)⟩

end UringRelation

namespace Worker

variable {server : Server} {w w' : Worker} {sid : SessionId}

theorem known_of_pool (hw : w.Sound) {s : Session} (hs : w.pool sid = some s) :
    sid < w.acquired := by
  by_contra hle
  have hunused := congrArg View.session (hw.unused sid (Nat.not_lt.mp hle))
  simp [view, hs, View.unused] at hunused

/-- A connection is given the next number, so no known session is touched. -/
theorem view_accept {fd : ℤ} {more : Bool} (hw : w.Sound) (hsid : sid < w.acquired)
    (h : w.step server (.accept fd more) = some w') : w'.view sid = w.view sid := by
  cases step_cases h with
  | completes hcompletes => cases hcompletes
  | accepts hlistens hdone =>
    obtain ⟨-, hviews⟩ := view_listenerDone hdone
    obtain ⟨-, hrests | hmoves⟩ := moves_connect server fd more hw
    · exact (hviews sid).trans (hrests.views sid)
    · exact (hviews sid).trans (hmoves.others sid (Nat.ne_of_lt hsid))

/-- A known session keeps its view or makes a local step of its own. -/
theorem known_step {e : Event} (hw : w.Sound) (hsid : sid < w.acquired)
    (h : w.step server e = some w') :
    w'.view sid = w.view sid ∨
      e.session? = some sid ∧ LocalStep server sid w.ring e (w.view sid) (w'.view sid) := by
  obtain ⟨-, hrests | ⟨sid', hmoves⟩⟩ := moves_step hw h
  · exact Or.inl (hrests.views sid)
  · by_cases hne : sid = sid'
    · subst hne
      rcases hmoves.moved.session with hown | ⟨hnone, -⟩
      · exact Or.inr ⟨hown, hmoves.moved⟩
      · -- only a new connection has no session yet
        have hlocal := hmoves.moved
        generalize hv : w.view sid = v at hlocal
        generalize hv' : w'.view sid = v' at hlocal
        cases hlocal with
        | born fd more => exact Or.inl (hv'.symm.trans ((view_accept hw hsid h).trans hv))
        | released hc => cases hc <;> simp [Event.session?] at hnone
        | ignored hc => cases hc <;> simp [Event.session?] at hnone
        | handled hc => cases hc <;> simp [Event.session?] at hnone
        | _ => simp [Event.session?] at hnone
    · exact Or.inl (hmoves.others sid hne)

/-- An event about a session makes that session step. -/
theorem localStep_of_session {e : Event} (hw : w.Sound) (hown : e.session? = some sid)
    (h : w.step server e = some w') :
    LocalStep server sid w.ring e (w.view sid) (w'.view sid) := by
  obtain ⟨-, hrests | ⟨sid', hmoves⟩⟩ := moves_step hw h
  · exact absurd (hown.symm.trans hrests.sessionless) (by simp)
  · rcases hmoves.moved.session with hother | ⟨hnone, -⟩
    · obtain rfl := Option.some.inj (hown.symm.trans hother)
      exact hmoves.moved
    · exact absurd (hown.symm.trans hnone) (by simp)

theorem relates_step {R : Session → Session → Prop} (hR : UringRelation server R) {e : Event}
    (hw : w.Sound) (hsid : sid < w.acquired) (h : w.step server e = some w') {t : Session}
    (ht : w'.pool sid = some t) : ∃ s, w.pool sid = some s ∧ R s t := by
  have htv : (w'.view sid).session = some t := ht
  rcases known_step hw hsid h with hsame | ⟨hown, hlocal⟩
  · rw [hsame] at htv
    exact ⟨t, htv, hR.refl t⟩
  · exact hR.localStep hlocal hown htv

/-- A session stored under a known number was there before, and the two are related. -/
theorem relates_run {R : Session → Session → Prop} (hR : UringRelation server R) {t : Session}
    {es : List Event} (hw : w.Sound) (hsid : sid < w.acquired)
    (hrun : Runs.run (step server) w es = some w') (ht : w'.pool sid = some t) :
    ∃ s, w.pool sid = some s ∧ R s t := by
  have hinv : w'.Sound ∧ sid < w'.acquired ∧
      ∀ u, w'.pool sid = some u → ∃ s, w.pool sid = some s ∧ R s u := by
    refine Runs.invariant_of_reachable
      (I := fun w' : Worker => w'.Sound ∧ sid < w'.acquired ∧
        ∀ u, w'.pool sid = some u → ∃ s, w.pool sid = some s ∧ R s u)
      ?_ ⟨hw, hsid, fun u hu => ⟨u, hu, hR.refl u⟩⟩ ⟨es, hrun⟩
    rintro w₁ e w₂ ⟨hw₁, hsid₁, hrel⟩ hstep
    refine ⟨sound_step hw₁ hstep, Nat.lt_of_lt_of_le hsid₁ (moves_step hw₁ hstep).1, ?_⟩
    intro u hu
    obtain ⟨v, hv, hvu⟩ := relates_step hR hw₁ hsid₁ hstep hu
    obtain ⟨s, hs, hsv⟩ := hrel v hv
    exact ⟨s, hs, hR.trans _ _ _ hsv hvu⟩
  exact hinv.2.2 t ht

end Worker

end WarpApi

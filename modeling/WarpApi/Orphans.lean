import WarpApi.UringViews

/-!
Orphaned sessions. Only the completions of an active session clear I/O flags, so a
session that stops being active with a flag set is never released. As long as every
session stops with clear flags, the timer wheel or a last completion frees it.
-/
namespace WarpApi

/-- An event that ends the active time of its session finds and leaves no other I/O:
a timer finds none, the end of the input no send or F_NOTIF, a failed send no recv, and
input that makes the session close none of these and no response that would be sent. -/
def Session.StopsIdle (server : Server) (ring : Ring) (s : Session) : Event → Prop
  | .expire _ => s.hasPendingIo = false
  | .recv _ _ (.data bytes) _ => s.status = .active →
    ∀ t ∈ (s.setReading false).takeInput server bytes, t.status = .closing →
      s.ioFlags.writing = false ∧ s.ioFlags.waitingZc = false ∧
        (t.writeBuffer.size = 0 ∨ ring.full = true)
  | .recv _ _ _ _ => s.status = .active →
    s.ioFlags.writing = false ∧ s.ioFlags.waitingZc = false
  | .failed _ more _ => s.status = .active →
    more = false ∧ s.ioFlags.reading = false ∧ s.ioFlags.waitingZc = false
  | .notif _ _ => s.status = .active → s.releaseZc.writeBuffer.size = 0 → s.keepAlive = false →
    s.ioFlags.reading = false ∧ s.ioFlags.writing = false
  | _ => True

instance (server : Server) (ring : Ring) (s : Session) (e : Event) :
    Decidable (s.StopsIdle server ring e) := by
  unfold Session.StopsIdle
  split <;> infer_instance

def ClosesIdle (server : Server) : ViewGuard := fun ring e v =>
  ∀ s ∈ v.session, s.StopsIdle server ring e

instance (server : Server) (ring : Ring) (e : Event) (v : View) :
    Decidable (ClosesIdle server ring e v) :=
  inferInstanceAs (Decidable (∀ s ∈ v.session, s.StopsIdle server ring e))

/-- A completion is still to come that frees the session or clears its last flag. -/
def ComingRelease (server : Server) (sid : SessionId) (v : View) : Prop :=
  ∃ op ∈ v.ops, ∃ ring e next v', Completes e sid op next ∧ LocalStep server sid ring e v v' ∧
    ∀ s, v'.session = some s → s.hasPendingIo = false

/-- The session is active, or something will still release it, and it is not waiting
for an operation that is not there. -/
structure Tended (server : Server) (sid : SessionId) (v : View) (s : Session) : Prop where
  releasable : s.status = .active ∨ v.linked = true ∨ ComingRelease server sid v
  notStuck : ¬ (s.status = .closing ∧ s.hasPendingIo = true ∧ v.ops = 0)

def NoOrphans (server : Server) (w : Worker) : Prop :=
  ∀ sid s, w.pool sid = some s → Tended server sid (w.view sid) s

/-- The session is active, or it has no flag set; in any case a timer watches it. -/
def Watched (v : View) : Prop :=
  ∀ s, v.session = some s →
    v.linked = true ∧ (s.status = .active ∨ s.status = .closing ∧ s.hasPendingIo = false)

theorem hasPendingIo_eq_false {s : Session} (hreading : s.ioFlags.reading = false)
    (hwriting : s.ioFlags.writing = false) (hzc : s.ioFlags.waitingZc = false) :
    s.hasPendingIo = false := by
  unfold Session.hasPendingIo IoState.any
  rw [hreading, hwriting, hzc]
  rfl

/-- A recv that brings nothing finds no send and no notification. -/
theorem stopsIdle_recv_end {server : Server} {ring : Ring} {sid : SessionId} {room now : ℕ}
    {res : RecvResult} {s : Session}
    (hguard : s.StopsIdle server ring (.recv sid room res now)) (hactive : s.status = .active)
    (hres : ∀ bytes, res ≠ .data bytes) :
    s.ioFlags.writing = false ∧ s.ioFlags.waitingZc = false := by
  cases res with
  | data bytes => exact absurd rfl (hres bytes)
  | _ => exact hguard hactive

/-- An active session stays active, or it stops with clear flags. -/
theorem Handled.stopsIdle {server : Server} {ring : Ring} {e : Event} {s t : Session}
    {added : List Op} (h : Handled server ring e s t added) (hactive : s.status = .active)
    (hguard : s.StopsIdle server ring e) :
    t.status = .active ∨ t.status = .closing ∧ t.hasPendingIo = false := by
  cases h with
  | @data _ room now bytes _ s₁ s₂ _ wOps rOps hin hwrite hread =>
    have hframe := Session.handles_takeInput hin
    rcases hframe.status_eq with heq | hclosing
    · have hact : s₂.status = .active := (hwrite.status_eq.trans heq).trans hactive
      exact Or.inl (hread.status_eq.trans hact)
    · -- nothing may be sent any more, so neither part of the handling prepares an entry
      obtain ⟨hwriting, hzc, hunsent⟩ := hguard hactive s₁ hin hclosing
      have hsame : s₂ = s₁ := by
        cases hwrite with
        | sends hsize _ hroom =>
          rcases hunsent with hempty | hfull
          · exact absurd hempty (Nat.ne_of_gt hsize)
          · exact absurd (hroom.symm.trans hfull) Bool.false_ne_true
        | noEntry => rfl
        | idle => rfl
      have hinactive : s₂.status ≠ .active := by
        rw [hsame, hclosing]
        decide
      have hlast : t = s₂ := by
        cases hread with
        | idle => rfl
        | receives hact => exact absurd hact hinactive
        | gaveUp hact => exact absurd hact hinactive
        | noEntry hact => exact absurd hact hinactive
      rw [hlast, hsame]
      refine Or.inr ⟨hclosing, hasPendingIo_eq_false ?_ ?_ ?_⟩
      · rw [hframe.flags_eq]
        rfl
      · rw [hframe.flags_eq]
        exact hwriting
      · rw [hframe.flags_eq]
        exact hzc
  | endClosed hres =>
    obtain ⟨hwriting, hzc⟩ := stopsIdle_recv_end hguard hactive hres
    exact Or.inr ⟨rfl, hasPendingIo_eq_false rfl hwriting hzc⟩
  | endWaiting hres =>
    obtain ⟨hwriting, hzc⟩ := stopsIdle_recv_end hguard hactive hres
    exact Or.inr ⟨rfl, hasPendingIo_eq_false rfl hwriting hzc⟩
  | sent => exact Or.inl hactive
  | failed =>
    obtain ⟨rfl, hreading, hzc⟩ := hguard hactive
    exact Or.inr ⟨rfl, hasPendingIo_eq_false hreading rfl hzc⟩
  | notifSend => exact Or.inl hactive
  | notifNoEntry => exact Or.inl hactive
  | notifKept => exact Or.inl hactive
  | notifClosed hsize hkeep =>
    obtain ⟨hreading, hwriting⟩ := hguard hactive hsize hkeep
    exact Or.inr ⟨rfl, hasPendingIo_eq_false hreading hwriting rfl⟩

theorem Watched.step {server : Server} {sid : SessionId} {ring : Ring} {e : Event} {v v' : View}
    (h : Watched v) (hguard : ClosesIdle server ring e v)
    (hstep : LocalStep server sid ring e v v') : Watched v' := by
  intro t ht
  cases hstep with
  | born fd more =>
    obtain rfl := Option.some.inj ht
    refine ⟨rfl, Or.inl ?_⟩
    unfold Session.onReadReadySqe
    split <;> rfl
  | released => simp at ht
  | ignored => exact h t ht
  | handled hcompletes hactive hhandled htouched =>
    obtain rfl := Option.some.inj ht
    obtain ⟨hlinked, -⟩ := h _ rfl
    have hstops := hhandled.stopsIdle hactive (hguard _ rfl)
    rcases htouched with ⟨rfl, hlink⟩ | ⟨⟨now, rfl⟩, hlink⟩
    · exact ⟨hlink.trans hlinked, hstops⟩
    · exact ⟨hlink, hstops⟩
  | performed => exact h t ht
  | refused => exact h t ht
  | expiredFreed => simp at ht
  | expiredKept hio => exact absurd ((hguard _ rfl).symm.trans hio) Bool.false_ne_true

theorem Watched.tended {server : Server} {sid : SessionId} {v : View} {s : Session} (h : Watched v)
    (hs : v.session = some s) : Tended server sid v s := by
  obtain ⟨hlinked, hidle⟩ := h s hs
  refine ⟨Or.inr (Or.inl hlinked), ?_⟩
  rintro ⟨hclosing, hpending, -⟩
  rcases hidle with hactive | ⟨-, hclear⟩
  · exact absurd (hactive.symm.trans hclosing) (by decide)
  · exact absurd (hclear.symm.trans hpending) Bool.false_ne_true

/-- No session is orphaned while every session stops with clear flags. -/
theorem noOrphans_of_closesIdle (server : Server) (entries : ℕ) (es : List Event) (w : Worker)
    (hg : Runs.Guarded (Worker.step server) (Worker.Meets (ClosesIdle server)) (Worker.init entries)
      es)
    (hrun : Runs.run (Worker.step server) (Worker.init entries) es = some w) :
    NoOrphans server w := by
  intro sid s hs
  have hwatched : Watched (w.view sid) :=
    Worker.views_of_run (I := fun _ v => Watched v) (fun _ _ h => absurd h (by simp [View.unused]))
      (fun _ _ _ _ _ h hguard _ hstep => h.step hguard hstep) hg hrun sid
  exact hwatched.tended hs

theorem answered_session_noOrphans :
    ∃ w, Runs.run (Worker.step (bareServer .ioUring)) (Worker.init 8)
        (acceptAndAnswer ++ [.notif 0 0, .recv 0 16384 .eof 0]) = some w ∧
      NoOrphans (bareServer .ioUring) w := by
  have hg : Runs.Guarded (Worker.step (bareServer .ioUring))
      (Worker.Meets (ClosesIdle (bareServer .ioUring))) (Worker.init 8)
      (acceptAndAnswer ++ [.notif 0 0, .recv 0 16384 .eof 0]) := by decide +kernel
  have hsome : (Runs.run (Worker.step (bareServer .ioUring)) (Worker.init 8)
      (acceptAndAnswer ++ [.notif 0 0, .recv 0 16384 .eof 0])).isSome = true := by decide +kernel
  obtain ⟨w, hw⟩ := Option.isSome_iff_exists.mp hsome
  exact ⟨w, hw, noOrphans_of_closesIdle (bareServer .ioUring) 8 _ w hg hw⟩

/-- An idle connection times out while its recv is outstanding, and the completion of
the recv is ignored: the flag stays, no timer is left and nothing is outstanding. -/
theorem expired_connection_orphaned :
    ∃ w s, Runs.run (Worker.step (bareServer .ioUring)) (Worker.init 8)
        [.accept 5 true, .submit, .expire 0, .submit, .recv 0 16384 .eof 0, .submit] = some w ∧
      w.pool 0 = some s ∧ s.status = .closing ∧ s.hasPendingIo = true ∧ w.wheel 0 = false ∧
      w.ops 0 = 0 ∧ ¬ NoOrphans (bareServer .ioUring) w := by
  have hchecks : ((Runs.run (Worker.step (bareServer .ioUring)) (Worker.init 8)
      [.accept 5 true, .submit, .expire 0, .submit, .recv 0 16384 .eof 0, .submit]).map fun w =>
        (((w.pool 0).map fun s => (s.status, s.hasPendingIo)), w.wheel 0, decide (w.ops 0 = 0))) =
      some (some (.closing, true), false, true) := by decide +kernel
  obtain ⟨w, hw, hrest⟩ := Option.map_eq_some_iff.mp hchecks
  obtain ⟨hpool, hwheel, hops⟩ : _ ∧ w.wheel 0 = false ∧ decide (w.ops 0 = 0) = true := by
    simpa only [Prod.mk.injEq] using hrest
  obtain ⟨s, hs, hsession⟩ := Option.map_eq_some_iff.mp hpool
  obtain ⟨hclosing, hpending⟩ := Prod.mk.inj hsession
  have hnone : w.ops 0 = 0 := of_decide_eq_true hops
  exact ⟨w, s, hw, hs, hclosing, hpending, hwheel, hnone,
    fun htended => (htended 0 s hs).notStuck ⟨hclosing, hpending, hnone⟩⟩

end WarpApi

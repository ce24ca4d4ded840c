import WarpApi.SendLedger
import WarpApi.SendOrder
import WarpApi.UringRuns

/-!
Pinned regions. From the moment the kernel accepts bytes of a send_zc until its F_NOTIF
they must stay in the write buffer, wherever the send has started. The session keeps one
count, that of the last first completion, and every F_NOTIF applies it.
-/
namespace WarpApi

/-- No read position is behind a byte that is still pinned, and no F_NOTIF to come releases
more than the write buffer holds. -/
structure PinsKept (w : Worker) (pins : List Pin) : Prop where
  pinned : ∀ p ∈ pins, ∀ sid s, p.op.session? = some sid → w.pool sid = some s →
    ∀ pos, p.Holds pos → s.writeBuffer.readPos ≤ pos
  advances : ∀ sid s, .notif sid ∈ w.inFlight → w.pool sid = some s → s.status = .active →
    s.lockedZcBytes ≤ s.writeBuffer.size

section readPos

variable {server : Server} {w w' : Worker} {e : Event} {sid : SessionId} {u : Session}
  {pins moved : List Pin} {i : ℕ}

/-- Only an F_NOTIF moves the read position. -/
theorem Handled.readPos_eq {ring : Ring} {s t : Session} {added : List Op}
    (h : Handled server ring e s t added) (hnotif : ∀ sid now, e ≠ .notif sid now) :
    t.writeBuffer.readPos = s.writeBuffer.readPos := by
  cases h with
  | @data _ room now bytes _ s₁ s₂ _ wOps rOps hin hwrite hread =>
    rw [hread.writeBuffer_eq, hwrite.buffers_eq.2]
    exact (Session.handles_takeInput hin).readPos_eq
  | @failed _ more now _ => cases more <;> rfl
  | @notifSend sid now => exact absurd rfl (hnotif sid now)
  | @notifNoEntry sid now => exact absurd rfl (hnotif sid now)
  | @notifKept sid now => exact absurd rfl (hnotif sid now)
  | @notifClosed sid now => exact absurd rfl (hnotif sid now)
  | _ => rfl

theorem LocalStep.readPos_eq {ring : Ring} {v v' : View} (h : LocalStep server sid ring e v v')
    (hold : e.session? = some sid) (hnotif : ∀ now, e ≠ .notif sid now)
    (hu : v'.session = some u) :
    ∃ s, v.session = some s ∧ u.writeBuffer.readPos = s.writeBuffer.readPos := by
  cases h with
  | born fd more => simp [Event.session?] at hold
  | released => simp at hu
  | ignored => exact ⟨_, rfl, by rw [← Option.some.inj hu]⟩
  | handled hcompletes hactive hhandled htouched =>
    have hother : ∀ sid' now, e ≠ .notif sid' now := by
      rintro sid' now rfl
      obtain rfl : sid' = sid := Option.some.inj hold
      exact hnotif now rfl
    have hpos := hhandled.readPos_eq hother
    obtain rfl := Option.some.inj hu
    rcases htouched with ⟨rfl, -⟩ | ⟨⟨now, rfl⟩, -⟩
    · exact ⟨_, rfl, hpos⟩
    · exact ⟨_, rfl, hpos⟩
  | performed => exact ⟨u, hu, rfl⟩
  | refused => exact ⟨u, hu, rfl⟩
  | expiredFreed => simp at hu
  | expiredKept => exact ⟨_, rfl, by rw [← Option.some.inj hu]; rfl⟩

theorem readPos_step (hw : w.Sound) (hsid : sid < w.acquired) (hstep : w.step server e = some w')
    (hnotif : ∀ now, e ≠ .notif sid now) (hu : w'.pool sid = some u) :
    ∃ s, w.pool sid = some s ∧ u.writeBuffer.readPos = s.writeBuffer.readPos := by
  have huv : (w'.view sid).session = some u := hu
  rcases Worker.known_step hw hsid hstep with hsame | ⟨hown, hlocal⟩
  · rw [hsame] at huv
    exact ⟨u, huv, rfl⟩
  · exact hlocal.readPos_eq hown hnotif huv

/-- Every send started where its session still reads. -/
def Started (w : Worker) (pins : List Pin) : Prop :=
  ∀ p ∈ pins, ∀ sid s, p.op.session? = some sid → w.pool sid = some s →
    p.start = s.writeBuffer.readPos

theorem Ledger.countP_le_one {s : Session} (h : Ledger w pins) (hcovers : Covers s (w.ops sid)) :
    pins.countP (fun p => p.op.session? = some sid) ≤ 1 := by
  have hle := le_trans hcovers.writing (Bool.toNat_le _)
  have hops : zcOps (w.ops sid) =
      (zcOps w.outstanding).filter fun op => op.session? = some sid := by
    rw [Worker.ops_eq_filter]
    exact Multiset.filter_comm ..
  rw [← card_zcOps, hops, ← h, ← Multiset.countP_eq_card_filter, Multiset.coe_countP,
    List.countP_map] at hle
  exact hle

theorem Ledger.mem_ops {p : Pin} (h : Ledger w pins) (hp : p ∈ pins)
    (hsid : p.op.session? = some sid) : p.op ∈ w.ops sid := by
  have hmem : p.op ∈ zcOps w.outstanding := h ▸ Multiset.mem_coe.mpr (List.mem_map_of_mem hp)
  rw [Worker.ops_eq_filter]
  exact Multiset.mem_filter.mpr ⟨(Multiset.mem_filter.mp hmem).1, hsid⟩

theorem Ledger.known {p : Pin} (h : Ledger w pins) (hw : w.Sound) (hp : p ∈ pins)
    (hsid : p.op.session? = some sid) : sid < w.acquired := by
  by_contra hle
  have hunused : w.ops sid = 0 := congrArg View.ops (hw.unused sid (Nat.not_lt.mp hle))
  exact absurd (hunused ▸ h.mem_ops hp hsid) (Multiset.notMem_zero _)

theorem Ledger.alone {p q : Pin} {kept : List Pin} (h : Ledger w pins)
    (hcovered : Covered sid (w.view sid)) (hperm : pins.Perm (q :: kept))
    (hq : q.op.session? = some sid) (hp : p ∈ kept) : p.op.session? ≠ some sid := by
  intro hsid
  cases hpool : w.pool sid with
  | none =>
    have hnone : w.ops sid = 0 := hcovered.freed hpool
    have hmem := h.mem_ops (hperm.mem_iff.mpr List.mem_cons_self) hq
    exact absurd (hnone ▸ hmem) (Multiset.notMem_zero _)
  | some s =>
    have hle := h.countP_le_one (hcovered.covers s hpool)
    have hpos : 0 < kept.countP fun p => p.op.session? = some sid :=
      List.countP_pos_iff.mpr ⟨p, hp, decide_eq_true hsid⟩
    rw [hperm.countP_eq, List.countP_cons, if_pos (decide_eq_true hq)] at hle
    omega

/-- What is left of the ledger after an event has started as before, and when the event is
the F_NOTIF of a session, nothing of that session is left. -/
theorem Ledger.origin {p : Pin} (h : Ledger w pins) (hcovered : Covered sid (w.view sid))
    (hmove : movePins w pins e i = some moved) (hp : p ∈ moved) (hsid : p.op.session? = some sid) :
    (∀ now, e ≠ .notif sid now) ∧
      ∃ q ∈ pins, q.op.session? = some sid ∧ q.start = p.start := by
  cases hstage : w.stage? e with
  | none =>
    rw [movePins_of_none i hstage] at hmove
    obtain rfl := Option.some.inj hmove
    refine ⟨?_, p, hp, hsid, rfl⟩
    rintro now rfl
    simp [Worker.stage?] at hstage
  | some stage =>
    obtain ⟨op, next⟩ := stage
    obtain ⟨q, kept, hperm, hq, rfl⟩ := movePins_eq_some hstage hmove
    rcases List.mem_append.mp hp with hp | hp
    · refine ⟨?_, p, hperm.mem_iff.mpr (List.mem_cons_of_mem q hp), hsid, rfl⟩
      rintro now rfl
      obtain ⟨rfl, -⟩ := Prod.mk.inj (Option.some.inj hstage)
      exact absurd hsid (h.alone hcovered hperm (hq ▸ rfl) hp)
    · obtain ⟨op', hop', rfl⟩ := List.mem_map.mp hp
      rw [q.op_move] at hsid
      refine ⟨?_, q, hperm.mem_iff.mpr List.mem_cons_self, ?_, (q.start_move op').symm⟩
      · rintro now rfl
        obtain ⟨-, rfl⟩ := Prod.mk.inj (Option.some.inj hstage)
        exact absurd hop' List.not_mem_nil
      · rw [hq, ← session_stage hstage hop']
        exact hsid

/-- New sends start where their session reads, and the others' sessions have not moved. -/
theorem Started.step (h : Started w pins) (hledger : Ledger w pins) (hw : w.Sound)
    (hcovered : ∀ sid, Covered sid (w.view sid)) (hstep : w.step server e = some w')
    (hmove : movePins w pins e i = some moved) :
    Started w' (moved ++ if e.isCompletion then newPins w w' else []) := by
  intro p hp sid u hsid hu
  rcases List.mem_append.mp hp with hp | hp
  · obtain ⟨hnotif, q, hq, hqsid, hstart⟩ := hledger.origin (hcovered sid) hmove hp hsid
    obtain ⟨s, hs, hpos⟩ := readPos_step hw (hledger.known hw hq hqsid) hstep hnotif hu
    rw [← hstart, hpos]
    exact h q hq sid s hqsid hs
  · split at hp
    · exact start_newPins hp hsid hu
    · exact absurd hp List.not_mem_nil

end readPos

/-- The invariant of guarded runs. -/
structure Accounted (x : Worker × List Pin) : Prop where
  sound : x.1.Sound
  ordered : ∀ sid, Ordered sid (x.1.view sid)
  ledger : Ledger x.1 x.2
  started : Started x.1 x.2

theorem accounted_init (entries : ℕ) : Accounted (Worker.init entries, []) where
  sound := Worker.sound_init entries
  ordered sid := (Worker.view_init entries sid).symm ▸ ordered_unused sid
  ledger := ledger_init entries
  started _ hp := absurd hp List.not_mem_nil

theorem Accounted.step {server : Server} {x y : Worker × List Pin} {l : Event × ℕ}
    (h : Accounted x) (hguard : Worker.Meets NoOverlap x.1 l.1)
    (hstep : pinnedStep server x l = some y) : Accounted y := by
  obtain ⟨w', hw', hmoved⟩ := Option.bind_eq_some_iff.mp hstep
  obtain ⟨moved, hmove, rfl⟩ := Option.map_eq_some_iff.mp hmoved
  exact
    { sound := Worker.sound_step h.sound hw'
      ordered := Worker.views_of_step NoOverlap
        (fun _ _ _ _ _ h hguard hkeyed hlocal => h.step hguard hkeyed hlocal)
        h.sound h.ordered hguard hw'
      ledger := h.ledger.step h.sound hw' hmove
      started := h.started.step h.ledger h.sound (fun sid => (h.ordered sid).1) hw' hmove }

/-- What is locked when an F_NOTIF is to come has been written. -/
theorem Ordered.locked_le {sid : SessionId} {v : View} {s : Session} (h : Ordered sid v)
    (hs : v.session = some s) (hactive : s.status = .active) (hnotif : .notif sid ∈ v.ops) :
    s.lockedZcBytes ≤ s.writeBuffer.size := by
  obtain ⟨rest, hops⟩ := Multiset.exists_cons_of_mem hnotif
  have hcovers := h.1.covers s hs
  have hinStep := h.2 s hs
  rw [hops] at hcovers hinStep
  have hlength := hinStep.acknowledged hactive fun n =>
    hcovers.absent (Or.inr rfl) rfl (by simp)
  have hle := hinStep.inOrder.length_le
  unfold BoundedQueue.size
  omega

theorem Accounted.pinsKept {w : Worker} {pins : List Pin} (h : Accounted (w, pins)) :
    PinsKept w pins where
  pinned p hp sid s hsid hs pos hholds := (h.started p hp sid s hsid hs) ▸ hholds.1
  advances sid s hop hs hactive := by
    have hops : .notif sid ∈ w.ops sid :=
      Multiset.mem_add.mpr (Or.inr (mem_opsOf.mpr ⟨hop, rfl⟩))
    exact (h.ordered sid).locked_le hs hactive hops

/-- Without an overlap no byte is released before the F_NOTIF of the send that pins it. -/
theorem pinsKept_of_noOverlap (server : Server) (entries : ℕ) (ls : List (Event × ℕ)) (w : Worker)
    (pins : List Pin)
    (hg : Runs.Guarded (pinnedStep server) (fun x l => Worker.Meets NoOverlap x.1 l.1)
      (Worker.init entries, []) ls)
    (hrun : Runs.run (pinnedStep server) (Worker.init entries, []) ls = some (w, pins)) :
    PinsKept w pins := by
  have haccounted : Accounted (w, pins) :=
    Runs.invariant_of_guarded (fun _ _ _ h hguard hstep => h.step hguard hstep)
      (accounted_init entries) hg hrun
  exact haccounted.pinsKept

def secondAnswer : List (Event × ℕ) :=
  acceptAndAnswer.map (·, 0) ++ [(.notif 0 0, 0), (.recv 0 16384 (.data plainRequest) 0, 0),
    (.submit, 0), (.kernelSend 0 60, 0)]

/-- Of the second answer 60 bytes are pinned, behind the first answer. -/
theorem consecutive_sends_pinsKept :
    ∃ w, Runs.run (pinnedStep (bareServer .ioUring)) (Worker.init 8, []) secondAnswer =
        some (w, [⟨.sent 0 60, 115, 60⟩]) ∧ PinsKept w [⟨.sent 0 60, 115, 60⟩] := by
  have hg : Runs.Guarded (pinnedStep (bareServer .ioUring))
      (fun x l => Worker.Meets NoOverlap x.1 l.1) (Worker.init 8, []) secondAnswer := by
    decide +kernel
  have hpins : (Runs.run (pinnedStep (bareServer .ioUring)) (Worker.init 8, [])
      secondAnswer).map Prod.snd = some [⟨.sent 0 60, 115, 60⟩] := by decide +kernel
  obtain ⟨⟨w, pins⟩, hw, rfl⟩ := Option.map_eq_some_iff.mp hpins
  exact ⟨w, hw, pinsKept_of_noOverlap (bareServer .ioUring) 8 secondAnswer w _ hg hw⟩

def earlyRelease : List (Event × ℕ) :=
  acceptAndAnswer.map (·, 0) ++ [(.recv 0 16384 (.data plainRequest) 0, 0), (.submit, 0),
    (.kernelSend 0 230, 1), (.sent 0 230 0, 1), (.notif 0 0, 0)]

/-- The F_NOTIF of the first send starts a third one while the second is not done. -/
def largeRelease : List (Event × ℕ) :=
  acceptAndAnswer.map (·, 0) ++ [(.recv 0 16384 (.data plainRequest) 0, 0), (.notif 0 0, 0),
    (.submit, 0), (.kernelSend 0 230, 0), (.sent 0 230 0, 1)]

/-- The F_NOTIF of a send releases all 230 bytes of another one that is still pinned; in
the other order the next F_NOTIF is going to release 230 bytes of 115. -/
theorem overlapping_sends_unpinned :
    (∃ w s, Runs.run (pinnedStep (bareServer .ioUring)) (Worker.init 8, []) earlyRelease =
        some (w, [⟨.notif 0, 0, 230⟩]) ∧ w.pool 0 = some s ∧ s.writeBuffer.readPos = 230 ∧
      ¬ PinsKept w [⟨.notif 0, 0, 230⟩]) ∧
    ∃ w pins s, Runs.run (pinnedStep (bareServer .ioUring)) (Worker.init 8, []) largeRelease =
        some (w, pins) ∧ w.pool 0 = some s ∧ s.lockedZcBytes = 230 ∧ s.writeBuffer.size = 115 ∧
      ¬ PinsKept w pins := by
  constructor
  · have hchecks : (Runs.run (pinnedStep (bareServer .ioUring)) (Worker.init 8, [])
        earlyRelease).map (fun x => (x.2, (x.1.pool 0).map fun s => s.writeBuffer.readPos)) =
        some ([⟨.notif 0, 0, 230⟩], some 230) := by decide +kernel
    obtain ⟨⟨w, pins⟩, hw, hx⟩ := Option.map_eq_some_iff.mp hchecks
    obtain ⟨rfl, hpool⟩ := Prod.mk.inj hx
    obtain ⟨s, hs, hpos⟩ := Option.map_eq_some_iff.mp hpool
    refine ⟨w, s, hw, hs, hpos, fun hkept => ?_⟩
    have hle := hkept.pinned _ (List.mem_singleton_self _) 0 s rfl hs 0 ⟨Nat.le_refl 0, by decide⟩
    omega
  · have hchecks : (Runs.run (pinnedStep (bareServer .ioUring)) (Worker.init 8, [])
        largeRelease).map (fun x => (decide (Op.notif 0 ∈ x.1.inFlight), (x.1.pool 0).map fun s =>
          (s.status, s.lockedZcBytes, s.writeBuffer.size))) =
        some (true, some (.active, 230, 115)) := by decide +kernel
    obtain ⟨⟨w, pins⟩, hw, hx⟩ := Option.map_eq_some_iff.mp hchecks
    obtain ⟨hop, hpool⟩ := Prod.mk.inj hx
    obtain ⟨s, hs, hsession⟩ := Option.map_eq_some_iff.mp hpool
    obtain ⟨hactive, hrest⟩ := Prod.mk.inj hsession
    obtain ⟨hlocked, hsize⟩ := Prod.mk.inj hrest
    refine ⟨w, pins, s, hw, hs, hlocked, hsize, fun hkept => ?_⟩
    have hle := hkept.advances 0 s (of_decide_eq_true hop) hs hactive
    omega

end WarpApi

import WarpApi.FreedSessions

/-!
The bytes on the wire. A send starts at the read position of the write buffer, and
the read position moves behind the sent bytes only with the F_NOTIF. As long as no
send is started in between, the wire is what was written, byte for byte in order.
-/
namespace WarpApi

/-- The wire ends at the read position, behind what a performed send has accepted or
what is locked; an outstanding send goes on from there. -/
structure InStep (sid : SessionId) (s : Session) (ops : Multiset Op) (wire : Bytes) : Prop where
  inOrder : wire <+: s.writeBuffer.written
  pinned : ∀ region, .send sid region ∈ ops → region <+: s.writeBuffer.written.drop wire.length
  accepted : s.status = .active → ∀ n, .sent sid n ∈ ops →
    wire.length = s.writeBuffer.readPos + n
  acknowledged : s.status = .active → (∀ n, .sent sid n ∉ ops) →
    wire.length = s.writeBuffer.readPos + s.lockedZcBytes
  unlocked : s.status = .active → s.ioFlags.waitingZc = false → s.lockedZcBytes = 0

theorem Covers.alone {s : Session} {op : Op} {rest : Multiset Op} (h : Covers s (op ::ₘ rest))
    (hop : op.isSend = true ∨ op.isNotif = true) : ∀ op' ∈ rest, op'.isSend = false := by
  have hw := h.writing
  have hle := Bool.toNat_le (s.ioFlags.writing || s.ioFlags.waitingZc)
  rw [sends_cons, notifs_cons] at hw
  have hone : 1 ≤ op.isSend.toNat + op.isNotif.toNat := by
    rcases hop with hop | hop <;> rw [hop, Bool.toNat_true] <;> omega
  have hzero : sends rest = 0 := by omega
  intro op' hop'
  exact Bool.eq_false_iff.mpr ((Multiset.countP_eq_zero.mp hzero) op' hop')

theorem Covers.absent {s : Session} {op op' other : Op} {rest : Multiset Op}
    (h : Covers s (op ::ₘ rest)) (hop : op.isSend = true ∨ op.isNotif = true)
    (hsend : op'.isSend = true) (hne : op' ≠ other) : op' ∉ other ::ₘ rest := by
  intro hmem
  have hrest := (Multiset.mem_cons.mp hmem).resolve_left hne
  exact absurd ((h.alone hop op' hrest).symm.trans hsend) Bool.false_ne_true

theorem Covers.quiet {s : Session} {ops : Multiset Op} (h : Covers s ops)
    (hwriting : s.ioFlags.writing = false) (hzc : s.ioFlags.waitingZc = false) :
    ∀ op ∈ ops, op.isSend = false := by
  have hw := h.writing
  rw [hwriting, hzc] at hw
  simp only [Bool.or_self, Bool.toNat_false, Nat.le_zero, Nat.add_eq_zero_iff] at hw
  intro op hop
  exact Bool.eq_false_iff.mpr ((Multiset.countP_eq_zero.mp hw.1) op hop)

theorem Completes.sends_before {e : Event} {sid : SessionId} {op op' : Op} {next : List Op}
    {rest : Multiset Op} (h : Completes e sid op next) (hop : op' ∈ opsOf sid next + rest)
    (hsend : op'.isSend = true) : op' ∈ op ::ₘ rest := by
  rcases Multiset.mem_add.mp hop with hop | hop
  · have hmem := (mem_opsOf.mp hop).1
    have hnotif : op' ≠ .notif sid := by
      rintro rfl
      simp [Op.isSend] at hsend
    cases h with
    | recv => simp at hmem
    | sent => exact absurd (List.mem_singleton.mp hmem) hnotif
    | failed _ more =>
      cases more with
      | true => exact absurd (List.mem_singleton.mp hmem) hnotif
      | false => simp at hmem
    | notif => simp at hmem
  · exact Multiset.mem_cons_of_mem hop

namespace InStep

variable {sid : SessionId} {s t : Session} {ops ops' : Multiset Op} {wire : Bytes}

theorem same (h : InStep sid s ops wire) (hbuffer : t.writeBuffer = s.writeBuffer)
    (hlocked : t.lockedZcBytes = s.lockedZcBytes) (hstatus : t.status = s.status)
    (hzc : t.ioFlags.waitingZc = s.ioFlags.waitingZc)
    (hsends : ∀ op : Op, op.isSend = true → (op ∈ ops' ↔ op ∈ ops)) : InStep sid t ops' wire where
  inOrder := hbuffer ▸ h.inOrder
  pinned region hop := by
    rw [hbuffer]
    exact h.pinned region ((hsends _ rfl).mp hop)
  accepted hactive n hop := by
    rw [hbuffer]
    exact h.accepted (hstatus ▸ hactive) n ((hsends _ rfl).mp hop)
  acknowledged hactive hnone := by
    rw [hbuffer, hlocked]
    exact h.acknowledged (hstatus ▸ hactive) fun n hop => hnone n ((hsends _ rfl).mpr hop)
  unlocked hactive hwaiting := by
    rw [hlocked]
    exact h.unlocked (hstatus ▸ hactive) (hzc ▸ hwaiting)

theorem inactive (h : InStep sid s ops wire) (hbuffer : t.writeBuffer = s.writeBuffer)
    (hstatus : t.status ≠ .active) (hsends : ∀ op ∈ ops', op.isSend = true → op ∈ ops) :
    InStep sid t ops' wire where
  inOrder := hbuffer ▸ h.inOrder
  pinned region hop := by
    rw [hbuffer]
    exact h.pinned region (hsends _ hop rfl)
  accepted hactive := absurd hactive hstatus
  acknowledged hactive := absurd hactive hstatus
  unlocked hactive := absurd hactive hstatus

/-- Handlers only append behind what is pinned. -/
theorem appended (h : InStep sid s ops wire) (hhandles : Handles s t) : InStep sid t ops wire := by
  have hactive : t.status = .active → s.status = .active := by
    intro hact
    rcases hhandles.status_eq with heq | heq
    · exact heq ▸ hact
    · exact absurd (heq.symm.trans hact) (by decide)
  refine ⟨h.inOrder.trans hhandles.written, fun region hop => ?_, ?_, ?_, ?_⟩
  · exact (h.pinned region hop).trans (hhandles.written.drop _)
  · rw [hhandles.readPos_eq]
    exact fun hact => h.accepted (hactive hact)
  · rw [hhandles.readPos_eq, hhandles.locked_eq]
    exact fun hact => h.acknowledged (hactive hact)
  · rw [hhandles.flags_eq, hhandles.locked_eq]
    exact fun hact => h.unlocked (hactive hact)

theorem startSend (h : InStep sid s ops wire) (hend : wire.length = s.writeBuffer.readPos) :
    InStep sid (s.setWriting true) (.send s.self s.writeBuffer.unread ::ₘ ops) wire where
  inOrder := h.inOrder
  pinned region hop := by
    rcases Multiset.mem_cons.mp hop with heq | hop
    · rw [hend, (Op.send.inj heq).2]
      exact List.prefix_refl _
    · exact h.pinned region hop
  accepted hactive n hop := by
    rcases Multiset.mem_cons.mp hop with heq | hop
    · simp at heq
    · exact h.accepted hactive n hop
  acknowledged hactive hnone :=
    h.acknowledged hactive fun n hop => hnone n (Multiset.mem_cons_of_mem hop)
  unlocked := h.unlocked

theorem writeArmed {ring : Ring} {added : List Op} (h : InStep sid s ops wire)
    (hself : s.self = sid) (hend : ring.full = false → s.ioFlags.writing = false →
      wire.length = s.writeBuffer.readPos) (hw : WriteArmed s ring t added) :
    InStep sid t (opsOf sid added + ops) wire := by
  cases hw with
  | sends hsize hidle hroom =>
    rw [opsOf_singleton (by simp [Op.session?, hself]), Multiset.singleton_add]
    exact h.startSend (hend hroom hidle)
  | noEntry => simpa only [opsOf_nil, zero_add] using h
  | idle => simpa only [opsOf_nil, zero_add] using h

theorem readArmed {ring : Ring} {added : List Op} (h : InStep sid s ops wire)
    (hself : s.self = sid) (hr : ReadArmed s ring t added) :
    InStep sid t (opsOf sid added + ops) wire := by
  cases hr with
  | receives =>
    rw [opsOf_singleton (by simp [Op.session?, hself]), Multiset.singleton_add]
    refine h.same rfl rfl rfl rfl fun op hsend => ?_
    rw [Multiset.mem_cons, or_iff_right]
    rintro rfl
    simp [Op.isSend] at hsend
  | gaveUp =>
    rw [opsOf_of_forall_ne (by simp [Op.session?]), zero_add]
    exact h.same rfl rfl rfl rfl fun _ _ => Iff.rfl
  | noEntry => simpa only [opsOf_nil, zero_add] using h
  | idle => simpa only [opsOf_nil, zero_add] using h

/-- The F_NOTIF moves the read position to the end of the wire. -/
theorem release {rest : Multiset Op} (h : InStep sid s (.notif sid ::ₘ rest) wire)
    (hcovers : Covers s (.notif sid ::ₘ rest)) (hactive : s.status = .active) :
    InStep sid s.releaseZc rest wire ∧ wire.length = s.releaseZc.writeBuffer.readPos := by
  have hlength : wire.length = s.writeBuffer.readPos + s.lockedZcBytes :=
    h.acknowledged hactive fun n => hcovers.absent (Or.inr rfl) rfl (by simp)
  have hend : wire.length = s.releaseZc.writeBuffer.readPos := by
    have hle := h.inOrder.length_le
    change wire.length =
      min (s.writeBuffer.readPos + s.lockedZcBytes) s.writeBuffer.written.length
    omega
  refine ⟨⟨h.inOrder, ?_, ?_, ?_, fun _ _ => rfl⟩, hend⟩
  · exact fun region hop => h.pinned region (Multiset.mem_cons_of_mem hop)
  · exact fun _ n hop => absurd (hcovers.alone (Or.inr rfl) _ hop) (by simp [Op.isSend])
  · exact fun _ _ => hend

theorem received {server : Server} {ring ring' : Ring} {room : ℕ} {bytes : Bytes}
    {s₁ s₂ t : Session} {rest : Multiset Op} {wOps rOps : List Op}
    (h : InStep sid s (.recv sid room ::ₘ rest) wire)
    (hcovers : Covers s (.recv sid room ::ₘ rest)) (hactive : s.status = .active)
    (hself : s.self = sid) (hguard : s.ioFlags.waitingZc = true → ring.full = true)
    (hin : (s.setReading false).takeInput server bytes = some s₁)
    (hwrite : WriteArmed s₁ ring s₂ wOps) (hread : ReadArmed s₂ ring' t rOps) :
    InStep sid t (opsOf sid (wOps ++ rOps) + (opsOf sid [] + rest)) wire := by
  have hframe := Session.handles_takeInput hin
  have hself₁ : s₁.self = sid := hframe.self_eq.trans hself
  have hself₂ : s₂.self = sid := hwrite.self_eq.trans hself₁
  have hbase : InStep sid (s.setReading false |>.receive bytes) rest wire := by
    refine h.same rfl rfl rfl rfl fun op hsend => ?_
    rw [Multiset.mem_cons, or_iff_right]
    rintro rfl
    simp [Op.isSend] at hsend
  -- a free entry and a clear IO_WRITING mean that nothing is outstanding or locked
  have hend : ring.full = false → s₁.ioFlags.writing = false →
      wire.length = s₁.writeBuffer.readPos := by
    intro hroom hwriting
    rw [hframe.flags_eq] at hwriting
    rw [hframe.readPos_eq]
    have hzc : s.ioFlags.waitingZc = false := by
      refine Bool.eq_false_iff.mpr fun hzc => ?_
      rw [hguard hzc] at hroom
      exact absurd hroom (by decide)
    have hquiet := hcovers.quiet hwriting hzc
    have hlength := h.acknowledged hactive fun n hop =>
      absurd (hquiet _ hop) (by simp [Op.isSend])
    rw [h.unlocked hactive hzc] at hlength
    exact hlength
  rw [opsOf_append_add]
  exact ((hbase.appended hframe).writeArmed hself₁ hend hwrite).readArmed hself₂ hread

theorem ended {t : Session} {room : ℕ} {rest : Multiset Op}
    (h : InStep sid s (.recv sid room ::ₘ rest) wire) (hbuffer : t.writeBuffer = s.writeBuffer)
    (hinactive : t.status ≠ .active) :
    InStep sid t (opsOf sid [] + (opsOf sid [] + rest)) wire := by
  simp only [opsOf_nil, zero_add]
  exact h.inactive hbuffer hinactive fun _ hop _ => Multiset.mem_cons_of_mem hop

theorem sendTaken {n : ℕ} {rest : Multiset Op} (h : InStep sid s (.sent sid n ::ₘ rest) wire)
    (hcovers : Covers s (.sent sid n ::ₘ rest)) (hactive : s.status = .active) :
    InStep sid { (s.setWaitingZc true).setWriting false with lockedZcBytes := n }
      (opsOf sid [] + (opsOf sid [.notif sid] + rest)) wire := by
  rw [opsOf_nil, zero_add, opsOf_singleton rfl, Multiset.singleton_add]
  refine ⟨h.inOrder, fun region hop => ?_, fun _ m hop => ?_, fun _ _ => ?_, fun _ hzc => ?_⟩
  · exact absurd hop (hcovers.absent (Or.inl rfl) rfl (by simp))
  · exact absurd hop (hcovers.absent (Or.inl rfl) rfl (by simp))
  · exact h.accepted hactive n (Multiset.mem_cons_self _ _)
  · simp [Session.setWaitingZc, Session.setWriting] at hzc

theorem handled {server : Server} {ring : Ring} {e : Event} {op : Op} {next added : List Op}
    {rest : Multiset Op} (h : InStep sid s (op ::ₘ rest) wire) (hcovers : Covers s (op ::ₘ rest))
    (hactive : s.status = .active) (hself : s.self = sid) (hcompletes : Completes e sid op next)
    (hguard : ∀ room bytes now, e = .recv sid room (.data bytes) now →
      s.ioFlags.waitingZc = true → ring.full = true)
    (hhandled : Handled server ring e s t added) :
    InStep sid t (opsOf sid added + (opsOf sid next + rest)) wire := by
  cases hhandled with
  | data hin hwrite hread =>
    cases hcompletes
    exact h.received hcovers hactive hself (hguard _ _ _ rfl) hin hwrite hread
  | endClosed =>
    cases hcompletes
    exact h.ended rfl (by simp [Session.setStatus])
  | endWaiting =>
    cases hcompletes
    exact h.ended rfl (by simp [Session.setStatus])
  | sent =>
    cases hcompletes
    exact h.sendTaken hcovers hactive
  | @failed _ more now =>
    cases hcompletes
    rw [opsOf_nil, zero_add]
    refine h.inactive ?_ (by simp [Session.setStatus]) fun op hop hsend => ?_
    · cases more <;> rfl
    · exact (Completes.failed sid more now).sends_before hop hsend
  | notifSend hsize hroom =>
    cases hcompletes
    obtain ⟨hreleased, hend⟩ := h.release hcovers hactive
    have hwriting := (hcovers.notified hactive).1
    rw [opsOf_nil, zero_add]
    exact hreleased.writeArmed hself (fun _ _ => hend) (.sends hsize hwriting hroom)
  | notifNoEntry =>
    cases hcompletes
    simpa only [opsOf_nil, zero_add] using (h.release hcovers hactive).1
  | notifKept =>
    cases hcompletes
    simpa only [opsOf_nil, zero_add] using (h.release hcovers hactive).1
  | notifClosed =>
    cases hcompletes
    simp only [opsOf_nil, zero_add]
    exact (h.release hcovers hactive).1.inactive rfl (by simp [Session.setStatus])
      fun _ hop _ => hop

theorem performed {region : Bytes} {n : ℕ} {rest : Multiset Op}
    (h : InStep sid s (.send sid region ::ₘ rest) wire)
    (hcovers : Covers s (.send sid region ::ₘ rest)) (hn : n ≤ region.length) :
    InStep sid s (.sent sid n ::ₘ rest) (wire ++ region.take n) := by
  have hregion := h.pinned region (Multiset.mem_cons_self _ _)
  have hordered : wire ++ region.take n <+: s.writeBuffer.written := by
    obtain ⟨tail, htail⟩ := h.inOrder
    rw [← htail, List.drop_left] at hregion
    rw [← htail, List.prefix_append_right_inj]
    exact (List.take_prefix n region).trans hregion
  have hlength : s.status = .active → wire.length = s.writeBuffer.readPos := by
    intro hactive
    obtain ⟨-, hzc, -, -⟩ := hcovers.sending hactive rfl
    have hacknowledged := h.acknowledged hactive fun m =>
      hcovers.absent (Or.inl rfl) rfl (by simp)
    rwa [h.unlocked hactive hzc] at hacknowledged
  refine ⟨hordered, fun region' hop => ?_, fun hactive m hop => ?_, fun _ hnone => ?_, h.unlocked⟩
  · exact absurd hop (hcovers.absent (Or.inl rfl) rfl (by simp))
  · rcases Multiset.mem_cons.mp hop with heq | hop
    · rw [(Op.sent.inj heq).2, List.length_append, List.length_take, hlength hactive,
        Nat.min_eq_left hn]
    · exact absurd (hcovers.alone (Or.inl rfl) _ hop) (by simp [Op.isSend])
  · exact absurd (Multiset.mem_cons_self _ _) (hnone n)

end InStep

/-- A covered session whose wire is in step. -/
def Ordered (sid : SessionId) (v : View) : Prop :=
  Covered sid v ∧ ∀ s, v.session = some s → InStep sid s v.ops v.wire

theorem ordered_unused (sid : SessionId) : Ordered sid View.unused :=
  ⟨covered_unused sid, fun _ hs => absurd hs (by simp [View.unused])⟩

theorem Ordered.step {server : Server} {sid : SessionId} {ring : Ring} {e : Event} {v v' : View}
    (h : Ordered sid v) (hguard : NoOverlap ring e v)
    (hkeyed : ∀ s, v.session = some s → s.self = sid) (hstep : LocalStep server sid ring e v v') :
    Ordered sid v' := by
  refine ⟨h.1.step hguard hkeyed hstep, fun t ht => ?_⟩
  cases hstep with
  | born fd more =>
    obtain rfl := Option.some.inj ht
    unfold Session.onReadReadySqe
    split
    · rw [opsOf_of_forall_ne (by simp [Op.session?])]
      exact ⟨List.prefix_refl _, by simp, by simp, fun _ _ => rfl, fun _ _ => rfl⟩
    · rw [opsOf_singleton rfl]
      exact ⟨List.prefix_refl _, by simp, by simp, fun _ _ => rfl, fun _ _ => rfl⟩
  | released => simp at ht
  | ignored hcompletes hinactive hkept =>
    obtain rfl := Option.some.inj ht
    exact (h.2 _ rfl).inactive rfl hinactive fun _ hop hsend => hcompletes.sends_before hop hsend
  | handled hcompletes hactive hhandled htouched =>
    obtain rfl := Option.some.inj ht
    have hnext := (h.2 _ rfl).handled (h.1.covers _ rfl) hactive (hkeyed _ rfl) hcompletes (by
      intro room bytes now he hzc
      subst he
      exact hguard hactive hzc) hhandled
    rcases htouched with ⟨rfl, -⟩ | ⟨⟨now, rfl⟩, -⟩
    · exact hnext
    · exact hnext.same rfl rfl rfl rfl fun _ _ => Iff.rfl
  | performed hn => exact (h.2 t ht).performed (h.1.covers t ht) hn
  | @refused _ region _ more rest _ =>
    have hs := h.2 t ht
    have hcovers := h.1.covers t ht
    refine ⟨hs.inOrder, fun region' hop => ?_, fun _ n hop => ?_, fun hactive _ => ?_, hs.unlocked⟩
    · exact absurd hop (hcovers.absent (Or.inl rfl) rfl (by simp))
    · exact absurd hop (hcovers.absent (Or.inl rfl) rfl (by simp))
    · exact hs.acknowledged hactive fun n => hcovers.absent (Or.inl rfl) rfl (by simp)
  | expiredFreed => simp at ht
  | expiredKept =>
    obtain rfl := Option.some.inj ht
    exact (h.2 _ rfl).inactive rfl (by simp [Session.setStatus, Session.close]) fun _ hop _ => hop

/-- Every session's wire carries a prefix of all that was appended to its write buffer. -/
def SentInOrder (w : Worker) : Prop :=
  ∀ sid s, w.pool sid = some s → w.wire sid <+: s.writeBuffer.written

/-- Without an overlap no byte is skipped, repeated or sent out of order. -/
theorem sentInOrder_of_noOverlap (server : Server) (entries : ℕ) (es : List Event) (w : Worker)
    (hg : Runs.Guarded (Worker.step server) (Worker.Meets NoOverlap) (Worker.init entries) es)
    (hrun : Runs.run (Worker.step server) (Worker.init entries) es = some w) : SentInOrder w := by
  intro sid s hs
  have hordered : Ordered sid (w.view sid) :=
    Worker.views_of_run ordered_unused
      (fun _ _ _ _ _ h hguard hkeyed hstep => h.step hguard hkeyed hstep) hg hrun sid
  exact (hordered.2 s hs).inOrder

theorem consecutive_sends_sentInOrder :
    ∃ w, Runs.run (Worker.step (bareServer .ioUring)) (Worker.init 8)
        (acceptAndAnswer ++ [.notif 0 0, .recv 0 16384 (.data plainRequest) 0, .submit,
          .kernelSend 0 60]) = some w ∧
      (w.wire 0).length = 175 ∧ SentInOrder w := by
  have hg : Runs.Guarded (Worker.step (bareServer .ioUring)) (Worker.Meets NoOverlap)
      (Worker.init 8)
      (acceptAndAnswer ++ [.notif 0 0, .recv 0 16384 (.data plainRequest) 0, .submit,
        .kernelSend 0 60]) := by decide +kernel
  have hsent : ((Runs.run (Worker.step (bareServer .ioUring)) (Worker.init 8)
      (acceptAndAnswer ++ [.notif 0 0, .recv 0 16384 (.data plainRequest) 0, .submit,
        .kernelSend 0 60])).map fun w => (w.wire 0).length) = some 175 := by decide +kernel
  obtain ⟨w, hw, hlength⟩ := Option.map_eq_some_iff.mp hsent
  exact ⟨w, hw, hlength, sentInOrder_of_noOverlap (bareServer .ioUring) 8 _ w hg hw⟩

/-- The second send starts at the read position again, which the first has not moved
yet: 345 bytes are sent when 230 were written. -/
theorem overlapping_sends_resend :
    ∃ w s, Runs.run (Worker.step (bareServer .ioUring)) (Worker.init 8) overlappingSends = some w ∧
      w.pool 0 = some s ∧ s.status = .active ∧ (w.wire 0).length = 345 ∧
      s.writeBuffer.written.length = 230 ∧ ¬ SentInOrder w := by
  have hsent : ((Runs.run (Worker.step (bareServer .ioUring)) (Worker.init 8)
      overlappingSends).map fun w => ((w.wire 0).length,
        (w.pool 0).map fun s => (s.status, s.writeBuffer.written.length))) =
      some (345, some (.active, 230)) := by decide +kernel
  obtain ⟨w, hw, hchecks⟩ := Option.map_eq_some_iff.mp hsent
  obtain ⟨hwire, hpool⟩ := Prod.mk.inj hchecks
  obtain ⟨s, hs, hsession⟩ := Option.map_eq_some_iff.mp hpool
  obtain ⟨hactive, hwritten⟩ := Prod.mk.inj hsession
  refine ⟨w, s, hw, hs, hactive, hwire, hwritten, fun hordered => ?_⟩
  have hle := (hordered 0 s hs).length_le
  omega

end WarpApi

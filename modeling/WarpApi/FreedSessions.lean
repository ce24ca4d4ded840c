import WarpApi.OutstandingOps

/-!
Freed sessions. A session is freed when its I/O flags are clear, so the flags have
to cover its outstanding operations. They do as long as no second send is started
before the F_NOTIF of the first: one IO_WAITING_ZC bit stands for one notification.
-/
namespace WarpApi

/-- A data completion of an active session is not handled while an F_NOTIF is expected,
unless there is no entry for another send anyway. -/
def NoOverlap : ViewGuard := fun ring e v =>
  match e, v.session with
  | .recv _ _ (.data _) _, some s =>
    s.status = .active → s.ioFlags.waitingZc = true → ring.full = true
  | _, _ => True

instance (ring : Ring) : ∀ e v, Decidable (NoOverlap ring e v)
  | .recv _ _ (.data _) _, ⟨some s, _, _, _⟩ =>
    inferInstanceAs (Decidable (s.status = .active → s.ioFlags.waitingZc = true →
      ring.full = true))
  | .recv _ _ (.data _) _, ⟨none, _, _, _⟩
  | .recv _ _ .eof _, _ | .recv _ _ .wouldBlock _, _ | .recv _ _ .error _, _
  | .accept _ _, _ | .acceptFailed _, _
  | .sent _ _ _, _ | .failed _ _ _, _ | .notif _ _, _ | .kernelSend _ _, _
  | .kernelFail _ _, _ | .expire _, _ | .submit, _ | .consume _, _ => .isTrue trivial

/-- The flags of a session cover its sends and notifications; those of an active
session tell the two apart, and at most one of the two is there. -/
structure Covers (s : Session) (ops : Multiset Op) : Prop where
  writing : sends ops + notifs ops ≤ (s.ioFlags.writing || s.ioFlags.waitingZc).toNat
  active : s.status = .active →
    sends ops ≤ s.ioFlags.writing.toNat ∧ notifs ops ≤ s.ioFlags.waitingZc.toNat ∧
      ¬ (s.ioFlags.writing = true ∧ s.ioFlags.waitingZc = true)

/-- A freed session has no operation outstanding. -/
structure Covered (sid : SessionId) (v : View) : Prop where
  counted : Counted sid v
  freed : v.session = none → v.ops = 0
  covers : ∀ s, v.session = some s → Covers s v.ops

theorem Covered.ops_eq_zero {sid : SessionId} {v : View} {s : Session} (h : Covered sid v)
    (hs : v.session = some s) (hio : s.hasPendingIo = false) : v.ops = 0 := by
  have hnone : s.ioFlags = IoState.none := (IoState.any_eq_false_iff _).mp hio
  have hr := (h.counted.counts s hs).reading
  have hw := (h.covers s hs).writing
  rw [hnone] at hr hw
  simp only [IoState.none, Bool.or_self, Bool.toNat_false, Nat.le_zero, Nat.add_eq_zero_iff]
    at hr hw
  exact WarpApi.ops_eq_zero h.counted.tagged hr hw.1 hw.2

/-- The write part may start a send when no notification is expected. -/
theorem Covers.writeArmed {sid : SessionId} {ring : Ring} {s t : Session} {ops : Multiset Op}
    {added : List Op} (h : Covers s ops) (hself : s.self = sid)
    (hquiet : ring.full = false → s.ioFlags.waitingZc = false) (hw : WriteArmed s ring t added) :
    Covers t (opsOf sid added + ops) := by
  cases hw with
  | sends hsize hidle hroom =>
    have hzc := hquiet hroom
    have hwriting := h.writing
    rw [hidle, hzc] at hwriting
    simp only [Bool.or_self, Bool.toNat_false, Nat.le_zero, Nat.add_eq_zero_iff] at hwriting
    rw [opsOf_singleton (by simp [Op.session?, hself]), Multiset.singleton_add]
    refine ⟨?_, fun _ => ⟨?_, ?_, ?_⟩⟩
    · rw [sends_cons, notifs_cons, hwriting.1, hwriting.2]
      exact Nat.le_refl _
    · rw [sends_cons, hwriting.1]
      exact Nat.le_refl _
    · rw [notifs_cons, hwriting.2]
      exact Nat.zero_le _
    · exact fun hboth => absurd (hzc.symm.trans hboth.2) Bool.false_ne_true
  | noEntry => simpa only [opsOf_nil, zero_add] using h
  | idle => simpa only [opsOf_nil, zero_add] using h

theorem Covers.readArmed {sid : SessionId} {ring : Ring} {s t : Session} {ops : Multiset Op}
    {added : List Op} (h : Covers s ops) (hself : s.self = sid) (hr : ReadArmed s ring t added) :
    Covers t (opsOf sid added + ops) := by
  cases hr with
  | receives =>
    rw [opsOf_singleton (by simp [Op.session?, hself]), Multiset.singleton_add]
    refine ⟨?_, fun hactive => ?_⟩
    · rw [sends_cons, notifs_cons]
      exact h.writing
    · rw [sends_cons, notifs_cons]
      exact h.active hactive
  | gaveUp =>
    rw [opsOf_of_forall_ne (by simp [Op.session?]), zero_add]
    exact ⟨h.writing, h.active⟩
  | noEntry => simpa only [opsOf_nil, zero_add] using h
  | idle => simpa only [opsOf_nil, zero_add] using h

/-- The send of an active session is the only one, and no notification is expected. -/
theorem Covers.sending {s : Session} {op : Op} {rest : Multiset Op} (h : Covers s (op ::ₘ rest))
    (hactive : s.status = .active) (hop : op.isSend = true) :
    s.ioFlags.writing = true ∧ s.ioFlags.waitingZc = false ∧ sends rest = 0 ∧ notifs rest = 0 := by
  have hw := h.writing
  obtain ⟨hs, -, hapart⟩ := h.active hactive
  rw [sends_cons, hop, Bool.toNat_true] at hs
  rw [sends_cons, hop, Bool.toNat_true, notifs_cons] at hw
  have hwriting : s.ioFlags.writing = true := by
    cases hflag : s.ioFlags.writing with
    | true => rfl
    | false => simp [hflag] at hs
  have hle := Bool.toNat_le (s.ioFlags.writing || s.ioFlags.waitingZc)
  refine ⟨hwriting, Bool.eq_false_iff.mpr fun hzc => hapart ⟨hwriting, hzc⟩, ?_, ?_⟩
  · omega
  · omega

/-- The notification of an active session is the only one, and no send is outstanding. -/
theorem Covers.notified {s : Session} {sid : SessionId} {rest : Multiset Op}
    (h : Covers s (.notif sid ::ₘ rest)) (hactive : s.status = .active) :
    s.ioFlags.writing = false ∧ sends rest = 0 ∧ notifs rest = 0 := by
  have hw := h.writing
  obtain ⟨-, hn, hapart⟩ := h.active hactive
  rw [notifs_cons] at hn
  rw [sends_cons, notifs_cons] at hw
  simp only [Op.isSend, Op.isNotif, Bool.toNat_true, Bool.toNat_false] at hn hw
  have hzc : s.ioFlags.waitingZc = true := by
    cases hflag : s.ioFlags.waitingZc with
    | true => rfl
    | false => simp [hflag] at hn
  have hle := Bool.toNat_le (s.ioFlags.writing || s.ioFlags.waitingZc)
  refine ⟨Bool.eq_false_iff.mpr fun hwriting => hapart ⟨hwriting, hzc⟩, ?_, ?_⟩
  · omega
  · omega

theorem Covers.of_none {s : Session} {ops : Multiset Op} (hsends : sends ops = 0)
    (hnotifs : notifs ops = 0)
    (hapart : ¬ (s.ioFlags.writing = true ∧ s.ioFlags.waitingZc = true)) : Covers s ops := by
  refine ⟨?_, fun _ => ⟨?_, ?_, hapart⟩⟩
  · rw [hsends, hnotifs]
    exact Nat.zero_le _
  · rw [hsends]
    exact Nat.zero_le _
  · rw [hnotifs]
    exact Nat.zero_le _

theorem Covers.release {s : Session} {sid : SessionId} {rest : Multiset Op}
    (h : Covers s (.notif sid ::ₘ rest)) (hactive : s.status = .active) :
    Covers s.releaseZc rest := by
  obtain ⟨-, hsends, hnotifs⟩ := h.notified hactive
  exact .of_none hsends hnotifs fun hboth => absurd hboth.2 Bool.false_ne_true

/-- A session that stops being active only has to cover sends and notifications together. -/
theorem Covers.stopped {s t : Session} {ops ops' : Multiset Op} (h : Covers s ops)
    (hflags : (t.ioFlags.writing || t.ioFlags.waitingZc) =
      (s.ioFlags.writing || s.ioFlags.waitingZc))
    (hinactive : t.status ≠ .active) (hle : sends ops' + notifs ops' ≤ sends ops + notifs ops) :
    Covers t ops' := by
  refine ⟨?_, fun hactive => absurd hactive hinactive⟩
  rw [hflags]
  exact le_trans hle h.writing

/-- Received bytes: behind them a send may start, if no notification is expected. -/
theorem Covers.received {server : Server} {ring ring' : Ring} {sid : SessionId} {room : ℕ}
    {bytes : Bytes} {s s₁ s₂ t : Session} {rest : Multiset Op} {wOps rOps : List Op}
    (h : Covers s (.recv sid room ::ₘ rest)) (hactive : s.status = .active)
    (hself : s.self = sid) (hguard : s.ioFlags.waitingZc = true → ring.full = true)
    (hin : (s.setReading false).takeInput server bytes = some s₁)
    (hwrite : WriteArmed s₁ ring s₂ wOps) (hread : ReadArmed s₂ ring' t rOps) :
    Covers t (opsOf sid (wOps ++ rOps) + (opsOf sid [] + rest)) := by
  have hframe := Session.handles_takeInput hin
  have hflags : s₁.ioFlags = { s.ioFlags with reading := false } := hframe.flags_eq
  have hbase : Covers s₁ rest := by
    have hw := h.writing
    have ha := h.active hactive
    rw [sends_cons, notifs_cons] at hw ha
    refine ⟨?_, fun _ => ?_⟩
    · rw [hflags]
      exact hw
    · rw [hflags]
      exact ha
  have hquiet : ring.full = false → s₁.ioFlags.waitingZc = false := by
    intro hroom
    rw [hflags]
    refine Bool.eq_false_iff.mpr fun hzc => ?_
    rw [hguard hzc] at hroom
    exact absurd hroom (by decide)
  have hself₁ : s₁.self = sid := hframe.self_eq.trans hself
  have hself₂ : s₂.self = sid := hwrite.self_eq.trans hself₁
  rw [opsOf_append_add]
  exact (hbase.writeArmed hself₁ hquiet hwrite).readArmed hself₂ hread

theorem Covers.ended {s t : Session} {sid : SessionId} {room : ℕ} {rest : Multiset Op}
    (h : Covers s (.recv sid room ::ₘ rest))
    (hflags : (t.ioFlags.writing || t.ioFlags.waitingZc) =
      (s.ioFlags.writing || s.ioFlags.waitingZc)) (hinactive : t.status ≠ .active) :
    Covers t (opsOf sid [] + (opsOf sid [] + rest)) := by
  simp only [opsOf_nil, zero_add]
  refine h.stopped hflags hinactive ?_
  rw [sends_cons, notifs_cons]
  exact le_rfl

theorem Covers.sendTaken {s : Session} {sid : SessionId} {n : ℕ} {rest : Multiset Op}
    (h : Covers s (.sent sid n ::ₘ rest)) (hactive : s.status = .active) :
    Covers { (s.setWaitingZc true).setWriting false with lockedZcBytes := n }
      (opsOf sid [] + (opsOf sid [.notif sid] + rest)) := by
  obtain ⟨-, -, hnosends, hnonotifs⟩ := h.sending hactive rfl
  rw [opsOf_nil, zero_add, opsOf_singleton rfl, Multiset.singleton_add]
  refine ⟨?_, fun _ => ⟨?_, ?_, fun hboth => absurd hboth.1 Bool.false_ne_true⟩⟩
  · rw [sends_cons, notifs_cons, hnosends, hnonotifs]
    exact Nat.le_refl _
  · rw [sends_cons, hnosends]
    exact Nat.le_refl _
  · rw [notifs_cons, hnonotifs]
    exact Nat.le_refl _

theorem Covers.sendFailed {s : Session} {sid : SessionId} {more : Bool} {rest : Multiset Op}
    (h : Covers s (.failed sid more ::ₘ rest)) (hactive : s.status = .active) :
    Covers ((((if more then s.setWaitingZc true else s).setWriting false).close).setStatus .closing)
      (opsOf sid [] + (opsOf sid (if more then [.notif sid] else []) + rest)) := by
  obtain ⟨-, -, hnosends, hnonotifs⟩ := h.sending hactive rfl
  cases more with
  | true =>
    change Covers _ (opsOf sid [] + (opsOf sid [.notif sid] + rest))
    rw [opsOf_nil, zero_add, opsOf_singleton rfl, Multiset.singleton_add]
    refine ⟨?_, fun hact => absurd hact (by simp [Session.setStatus])⟩
    rw [sends_cons, notifs_cons, hnosends, hnonotifs]
    exact Nat.le_refl _
  | false =>
    change Covers _ (opsOf sid [] + (opsOf sid [] + rest))
    rw [opsOf_nil, zero_add, zero_add]
    exact .of_none hnosends hnonotifs fun hboth => absurd hboth.1 Bool.false_ne_true

theorem Covers.handled {server : Server} {ring : Ring} {e : Event} {sid : SessionId} {op : Op}
    {next added : List Op} {s t : Session} {rest : Multiset Op} (h : Covers s (op ::ₘ rest))
    (hactive : s.status = .active) (hself : s.self = sid) (hcompletes : Completes e sid op next)
    (hguard : ∀ room bytes now, e = .recv sid room (.data bytes) now →
      s.ioFlags.waitingZc = true → ring.full = true)
    (hhandled : Handled server ring e s t added) :
    Covers t (opsOf sid added + (opsOf sid next + rest)) := by
  cases hhandled with
  | data hin hwrite hread =>
    cases hcompletes
    exact h.received hactive hself (hguard _ _ _ rfl) hin hwrite hread
  | endClosed =>
    cases hcompletes
    exact h.ended rfl (by simp [Session.setStatus])
  | endWaiting =>
    cases hcompletes
    exact h.ended rfl (by simp [Session.setStatus])
  | sent =>
    cases hcompletes
    exact h.sendTaken hactive
  | failed =>
    cases hcompletes
    exact h.sendFailed hactive
  | notifSend hsize hroom =>
    cases hcompletes
    rw [opsOf_nil, zero_add]
    exact (h.release hactive).writeArmed hself (fun _ => rfl)
      (.sends hsize (h.notified hactive).1 hroom)
  | notifNoEntry =>
    cases hcompletes
    simpa only [opsOf_nil, zero_add] using h.release hactive
  | notifKept =>
    cases hcompletes
    simpa only [opsOf_nil, zero_add] using h.release hactive
  | notifClosed =>
    cases hcompletes
    simp only [opsOf_nil, zero_add]
    exact (h.release hactive).stopped rfl (by simp [Session.setStatus]) le_rfl

theorem Covers.touched {s t : Session} {linked linked' : Bool} {ops : Multiset Op}
    (h : Covers s ops) (ht : Touched s linked t linked') : Covers t ops := by
  rcases ht with ⟨rfl, -⟩ | ⟨⟨now, rfl⟩, -⟩
  · exact h
  · exact ⟨h.writing, h.active⟩

/-- A completion never leaves more sends and notifications to come than before. -/
theorem Completes.outstanding_le {e : Event} {sid : SessionId} {op : Op} {next : List Op}
    {rest : Multiset Op} (h : Completes e sid op next) :
    sends (opsOf sid next + rest) + notifs (opsOf sid next + rest) ≤
      sends (op ::ₘ rest) + notifs (op ::ₘ rest) := by
  have hnotif : opsOf sid [.notif sid] = {.notif sid} := opsOf_singleton rfl
  rw [sends_cons, notifs_cons]
  cases h with
  | recv =>
    rw [opsOf_nil, zero_add]
    omega
  | sent =>
    rw [hnotif, Multiset.singleton_add, sends_cons, notifs_cons]
    simp only [Op.isSend, Op.isNotif, Bool.toNat_true, Bool.toNat_false]
    omega
  | failed _ more =>
    cases more with
    | true =>
      rw [if_pos rfl, hnotif, Multiset.singleton_add, sends_cons, notifs_cons]
      simp only [Op.isSend, Op.isNotif, Bool.toNat_true, Bool.toNat_false]
      omega
    | false =>
      rw [if_neg Bool.false_ne_true, opsOf_nil, zero_add]
      omega
  | notif =>
    rw [opsOf_nil, zero_add]
    omega

theorem Covers.performed {s : Session} {op op' : Op} {rest : Multiset Op}
    (h : Covers s (op ::ₘ rest)) (hsend : op'.isSend = op.isSend)
    (hnotif : op'.isNotif = op.isNotif) : Covers s (op' ::ₘ rest) := by
  have hw := h.writing
  have ha := h.active
  rw [sends_cons, notifs_cons, ← hsend, ← hnotif, ← sends_cons, ← notifs_cons] at hw
  rw [sends_cons, notifs_cons, ← hsend, ← hnotif, ← sends_cons, ← notifs_cons] at ha
  exact ⟨hw, ha⟩

/-- Covered views stay covered along every step without an overlap. -/
theorem Covered.step {server : Server} {sid : SessionId} {ring : Ring} {e : Event} {v v' : View}
    (h : Covered sid v) (hguard : NoOverlap ring e v)
    (hkeyed : ∀ s, v.session = some s → s.self = sid) (hstep : LocalStep server sid ring e v v') :
    Covered sid v' := by
  have hcounted := h.counted.step hkeyed hstep
  cases hstep with
  | born fd more =>
    refine ⟨hcounted, fun hnone => absurd hnone (by simp), fun s hs => ?_⟩
    obtain rfl := Option.some.inj hs
    unfold Session.onReadReadySqe
    split
    · rw [opsOf_of_forall_ne (by simp [Op.session?])]
      exact .of_none rfl rfl fun hboth => absurd hboth.1 Bool.false_ne_true
    · rw [opsOf_singleton rfl]
      exact .of_none rfl rfl fun hboth => absurd hboth.1 Bool.false_ne_true
  | released hcompletes hclosing hio =>
    have hzero := h.ops_eq_zero rfl hio
    simp at hzero
  | ignored hcompletes hinactive hkept =>
    refine ⟨hcounted, fun hnone => absurd hnone (by simp), fun s hs => ?_⟩
    obtain rfl := Option.some.inj hs
    exact (h.covers _ rfl).stopped rfl hinactive hcompletes.outstanding_le
  | handled hcompletes hactive hhandled htouched =>
    refine ⟨hcounted, fun hnone => absurd hnone (by simp), fun s hs => ?_⟩
    obtain rfl := Option.some.inj hs
    refine ((h.covers _ rfl).handled hactive (hkeyed _ rfl) hcompletes ?_ hhandled).touched htouched
    intro room bytes now he hzc
    subst he
    exact hguard hactive hzc
  | performed =>
    refine ⟨hcounted, fun hnone => ?_, fun s hs => (h.covers s hs).performed rfl rfl⟩
    exact absurd (h.freed hnone) (by simp)
  | refused =>
    refine ⟨hcounted, fun hnone => ?_, fun s hs => (h.covers s hs).performed rfl rfl⟩
    exact absurd (h.freed hnone) (by simp)
  | expiredFreed hio =>
    exact ⟨hcounted, fun _ => h.ops_eq_zero rfl hio, fun s hs => absurd hs (by simp)⟩
  | expiredKept hio =>
    refine ⟨hcounted, fun hnone => absurd hnone (by simp), fun s hs => ?_⟩
    obtain rfl := Option.some.inj hs
    exact (h.covers _ rfl).stopped rfl (by simp [Session.setStatus, Session.close]) le_rfl

theorem covered_unused (sid : SessionId) : Covered sid View.unused :=
  ⟨counted_unused sid, fun _ => rfl, fun _ hs => absurd hs (by simp [View.unused])⟩

theorem covered_of_run {server : Server} {entries : ℕ} {es : List Event} {w : Worker}
    (hg : Runs.Guarded (Worker.step server) (Worker.Meets NoOverlap) (Worker.init entries) es)
    (hrun : Runs.run (Worker.step server) (Worker.init entries) es = some w) (sid : SessionId) :
    Covered sid (w.view sid) :=
  Worker.views_of_run covered_unused
    (fun _ _ _ _ _ h hguard hkeyed hstep => h.step hguard hkeyed hstep) hg hrun sid

/-- Every operation that still has a completion to come refers to a session that has
been acquired and not been freed. -/
def NoDangling (w : Worker) : Prop :=
  ∀ op ∈ w.ring.prepared ++ w.inFlight, ∀ sid ∈ op.session?, (w.pool sid).isSome = true

instance (w : Worker) : Decidable (NoDangling w) :=
  inferInstanceAs (Decidable (∀ op ∈ w.ring.prepared ++ w.inFlight, ∀ sid ∈ op.session?,
    (w.pool sid).isSome = true))

/-- Without an overlap no session is freed while an operation of it is outstanding. -/
theorem noDangling_of_noOverlap (server : Server) (entries : ℕ) (es : List Event) (w : Worker)
    (hg : Runs.Guarded (Worker.step server) (Worker.Meets NoOverlap) (Worker.init entries) es)
    (hrun : Runs.run (Worker.step server) (Worker.init entries) es = some w) : NoDangling w := by
  intro op hop sid hsid
  have hcovered := covered_of_run hg hrun sid
  cases hpool : w.pool sid with
  | some s => rfl
  | none =>
    have hzero : w.ops sid = 0 := hcovered.freed hpool
    have hmem : op ∈ opsOf sid (w.ring.prepared ++ w.inFlight) := mem_opsOf.mpr ⟨hop, hsid⟩
    rw [opsOf_append] at hmem
    unfold Worker.ops at hzero
    rw [hzero] at hmem
    exact absurd hmem (Multiset.notMem_zero _)

theorem answered_session_noDangling :
    ∃ w, Runs.run (Worker.step (bareServer .ioUring)) (Worker.init 8)
        (acceptAndAnswer ++ [.notif 0 0, .recv 0 16384 .eof 0, .expire 0]) = some w ∧
      w.pool 0 = none ∧ NoDangling w := by
  have hg : Runs.Guarded (Worker.step (bareServer .ioUring)) (Worker.Meets NoOverlap)
      (Worker.init 8) (acceptAndAnswer ++ [.notif 0 0, .recv 0 16384 .eof 0, .expire 0]) := by
    decide +kernel
  have hfreed : ((Runs.run (Worker.step (bareServer .ioUring)) (Worker.init 8)
      (acceptAndAnswer ++ [.notif 0 0, .recv 0 16384 .eof 0, .expire 0])).map
        fun w => (w.pool 0).isNone) = some true := by decide +kernel
  obtain ⟨w, hw, hnone⟩ := Option.map_eq_some_iff.mp hfreed
  exact ⟨w, hw, Option.isNone_iff_eq_none.mp hnone,
    noDangling_of_noOverlap (bareServer .ioUring) 8 _ w hg hw⟩

/-- A second request arrives while the F_NOTIF of the first response is expected; both
responses are performed before the first F_NOTIF is handled. -/
def overlappingSends : List Event :=
  acceptAndAnswer ++
    [.recv 0 16384 (.data plainRequest) 0, .submit, .kernelSend 0 230, .sent 0 230 0]

/-- The first F_NOTIF clears the flag of both, and the session is freed before the second. -/
theorem overlapping_sends_dangling :
    ∃ w, Runs.run (Worker.step (bareServer .ioUring)) (Worker.init 8)
        (overlappingSends ++ [.notif 0 0, .recv 0 16384 .eof 0, .expire 0]) = some w ∧
      w.pool 0 = none ∧ .notif 0 ∈ w.inFlight ∧ ¬ NoDangling w := by
  have hfreed : ((Runs.run (Worker.step (bareServer .ioUring)) (Worker.init 8)
      (overlappingSends ++ [.notif 0 0, .recv 0 16384 .eof 0, .expire 0])).map fun w =>
        ((w.pool 0).isNone, decide (Op.notif 0 ∈ w.inFlight), decide (NoDangling w))) =
      some (true, true, false) := by decide +kernel
  obtain ⟨w, hw, hchecks⟩ := Option.map_eq_some_iff.mp hfreed
  simp only [Prod.mk.injEq, decide_eq_true_eq, decide_eq_false_iff_not] at hchecks
  exact ⟨w, hw, Option.isNone_iff_eq_none.mp hchecks.1, hchecks.2⟩

end WarpApi

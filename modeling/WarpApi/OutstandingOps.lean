import WarpApi.UringViews

/-!
The outstanding operations of a session, by kind. Whatever happens, a session has a
recv outstanding only while IO_READING is set, and an active session with IO_WRITING
has a send outstanding.
-/
namespace WarpApi

namespace Op

def isRecv : Op → Bool
  | .recv _ _ => true
  | _ => false

def isSend : Op → Bool
  | .send _ _ => true
  | .sent _ _ => true
  | .failed _ _ => true
  | _ => false

def isNotif : Op → Bool
  | .notif _ => true
  | _ => false

end Op

def recvs (ops : Multiset Op) : ℕ := ops.countP fun op => op.isRecv = true
def sends (ops : Multiset Op) : ℕ := ops.countP fun op => op.isSend = true
def notifs (ops : Multiset Op) : ℕ := ops.countP fun op => op.isNotif = true

section counts

variable (op : Op) (ops ops' : Multiset Op)

theorem countP_cons_toNat (p : Op → Bool) :
    (op ::ₘ ops).countP (fun op => p op = true) =
      ops.countP (fun op => p op = true) + (p op).toNat := by
  rw [Multiset.countP_cons]
  cases p op <;> rfl

theorem recvs_cons : recvs (op ::ₘ ops) = recvs ops + op.isRecv.toNat :=
  countP_cons_toNat op ops Op.isRecv

theorem sends_cons : sends (op ::ₘ ops) = sends ops + op.isSend.toNat :=
  countP_cons_toNat op ops Op.isSend

theorem notifs_cons : notifs (op ::ₘ ops) = notifs ops + op.isNotif.toNat :=
  countP_cons_toNat op ops Op.isNotif

@[simp] theorem recvs_zero : recvs 0 = 0 := rfl

theorem recvs_add : recvs (ops + ops') = recvs ops + recvs ops' := Multiset.countP_add ..
theorem sends_add : sends (ops + ops') = sends ops + sends ops' := Multiset.countP_add ..

end counts

theorem ops_eq_zero {sid : SessionId} {ops : Multiset Op}
    (htagged : ∀ op ∈ ops, op.session? = some sid) (hrecvs : recvs ops = 0)
    (hsends : sends ops = 0) (hnotifs : notifs ops = 0) : ops = 0 := by
  rw [Multiset.eq_zero_iff_forall_notMem]
  intro op hop
  have hr := (Multiset.countP_eq_zero.mp hrecvs) op hop
  have hs := (Multiset.countP_eq_zero.mp hsends) op hop
  have hn := (Multiset.countP_eq_zero.mp hnotifs) op hop
  have ht := htagged op hop
  cases op <;> simp [Op.isRecv, Op.isSend, Op.isNotif, Op.session?] at hr hs hn ht

theorem Completes.recvs_next {e : Event} {sid : SessionId} {op : Op} {next : List Op}
    (h : Completes e sid op next) : recvs (opsOf sid next) = 0 := by
  cases h with
  | recv => rfl
  | sent =>
    rw [opsOf_singleton rfl]
    rfl
  | failed _ more =>
    cases more with
    | true =>
      rw [if_pos rfl, opsOf_singleton rfl]
      rfl
    | false => rfl
  | notif => rfl

/-- IO_READING covers the recv, and the IO_WRITING of an active session is not stale. -/
structure Counts (s : Session) (ops : Multiset Op) : Prop where
  reading : recvs ops ≤ s.ioFlags.reading.toNat
  writing : s.status = .active → s.ioFlags.writing = true → 0 < sends ops

structure Counted (sid : SessionId) (v : View) : Prop where
  tagged : ∀ op ∈ v.ops, op.session? = some sid
  counts : ∀ s, v.session = some s → Counts s v.ops

namespace Counts

variable {sid : SessionId} {s t : Session} {ring : Ring} {ops rest : Multiset Op}
  {added next : List Op} {op op' : Op} {e : Event}

theorem recvs_rest (h : Counts s (op ::ₘ rest)) (hop : op.isRecv = true) : recvs rest = 0 := by
  have hr := h.reading
  have hle := Bool.toNat_le s.ioFlags.reading
  rw [recvs_cons, hop, Bool.toNat_true] at hr
  omega

theorem writeArmed (h : Counts s ops) (hself : s.self = sid) (hw : WriteArmed s ring t added) :
    Counts t (opsOf sid added + ops) := by
  cases hw with
  | sends =>
    rw [opsOf_singleton (by simp [Op.session?, hself]), Multiset.singleton_add]
    refine ⟨?_, fun _ _ => ?_⟩
    · rw [recvs_cons]
      exact h.reading
    · rw [sends_cons]
      exact Nat.succ_pos _
  | noEntry => simpa only [opsOf_nil, zero_add] using h
  | idle => simpa only [opsOf_nil, zero_add] using h

theorem readArmed (h : Counts s ops) (hself : s.self = sid) (hreading : s.ioFlags.reading = false)
    (hr : ReadArmed s ring t added) : Counts t (opsOf sid added + ops) := by
  cases hr with
  | receives =>
    have hrecvs := h.reading
    rw [hreading] at hrecvs
    rw [opsOf_singleton (by simp [Op.session?, hself]), Multiset.singleton_add]
    refine ⟨?_, fun hactive hwriting => ?_⟩
    · rw [recvs_cons, Nat.le_zero.mp hrecvs]
      exact Nat.le_refl _
    · rw [sends_cons]
      exact h.writing hactive hwriting
  | gaveUp =>
    rw [opsOf_of_forall_ne (by simp [Op.session?]), zero_add]
    exact ⟨h.reading, h.writing⟩
  | noEntry => simpa only [opsOf_nil, zero_add] using h
  | idle => simpa only [opsOf_nil, zero_add] using h

theorem takeInput {server : Server} {bytes : Bytes} (h : Counts s (op ::ₘ rest))
    (hop : op.isRecv = true) (hsend : op.isSend = false) (hactive : s.status = .active)
    (hin : (s.setReading false).takeInput server bytes = some t) : Counts t rest := by
  have hframe := Session.handles_takeInput hin
  refine ⟨by rw [h.recvs_rest hop]; exact Nat.zero_le _, fun _ hwriting => ?_⟩
  rw [hframe.flags_eq] at hwriting
  have hsends := h.writing hactive hwriting
  rwa [sends_cons, hsend] at hsends

theorem completed (h : Counts s (op ::ₘ rest)) (hcompletes : Completes e sid op next)
    (hreading : t.ioFlags.reading = (if op.isRecv then false else s.ioFlags.reading))
    (hwriting : t.status = .active → t.ioFlags.writing = true → 0 < sends (opsOf sid next + rest)) :
    Counts t (opsOf sid next + rest) := by
  refine ⟨?_, hwriting⟩
  have hr := h.reading
  have hrest := h.recvs_rest
  rw [recvs_cons] at hr
  rw [recvs_add, hcompletes.recvs_next, zero_add, hreading]
  cases hop : op.isRecv with
  | true =>
    rw [hrest hop]
    exact Nat.zero_le _
  | false =>
    rw [hop] at hr
    exact hr

theorem release (h : Counts s (.notif sid ::ₘ rest)) : Counts s.releaseZc rest := by
  refine ⟨?_, fun hactive hwriting => ?_⟩
  · have hrecvs := h.reading
    rw [recvs_cons] at hrecvs
    exact hrecvs
  · have hsends := h.writing hactive hwriting
    rw [sends_cons] at hsends
    exact hsends

theorem handled {server : Server} (h : Counts s (op ::ₘ rest)) (hactive : s.status = .active)
    (hself : s.self = sid) (hcompletes : Completes e sid op next)
    (hhandled : Handled server ring e s t added) :
    Counts t (opsOf sid added + (opsOf sid next + rest)) := by
  cases hhandled with
  | @data _ room now bytes _ s₁ s₂ _ wOps rOps hin hwrite hread =>
    cases hcompletes
    have hself₁ : s₁.self = sid := (Session.handles_takeInput hin).self_eq.trans hself
    have hself₂ : s₂.self = sid := hwrite.self_eq.trans hself₁
    have hreading := hwrite.reading_eq.trans (Session.reading_takeInput hin)
    have harmed := (h.takeInput rfl rfl hactive hin).writeArmed hself₁ hwrite
    rw [opsOf_append_add]
    exact harmed.readArmed hself₂ hreading hread
  | endClosed =>
    rw [opsOf_nil, zero_add]
    refine h.completed hcompletes ?_ fun hact => absurd hact (by simp [Session.setStatus])
    cases hcompletes
    rfl
  | endWaiting =>
    rw [opsOf_nil, zero_add]
    refine h.completed hcompletes ?_ fun hact => absurd hact (by simp [Session.setStatus])
    cases hcompletes
    rfl
  | sent =>
    rw [opsOf_nil, zero_add]
    refine h.completed hcompletes ?_ fun _ hwriting => absurd hwriting Bool.false_ne_true
    cases hcompletes
    rfl
  | @failed _ more now =>
    rw [opsOf_nil, zero_add]
    refine h.completed hcompletes ?_ fun hact => absurd hact (by simp [Session.setStatus])
    cases hcompletes
    cases more <;> rfl
  | notifSend hsize hroom =>
    cases hcompletes
    rw [opsOf_nil, zero_add, opsOf_singleton (by simp [Op.session?, hself]), Multiset.singleton_add]
    refine ⟨?_, fun _ _ => ?_⟩
    · rw [recvs_cons]
      exact h.release.reading
    · rw [sends_cons]
      exact Nat.succ_pos _
  | notifNoEntry =>
    cases hcompletes
    simpa only [opsOf_nil, zero_add] using h.release
  | notifKept =>
    cases hcompletes
    simpa only [opsOf_nil, zero_add] using h.release
  | notifClosed =>
    cases hcompletes
    rw [opsOf_nil, zero_add, zero_add]
    exact ⟨h.release.reading, fun hact => absurd hact (by simp [Session.setStatus])⟩

theorem performed (h : Counts s (op ::ₘ rest)) (hrecv : op'.isRecv = op.isRecv)
    (hsend : op'.isSend = op.isSend) : Counts s (op' ::ₘ rest) := by
  refine ⟨?_, fun hactive hwriting => ?_⟩
  · rw [recvs_cons, hrecv, ← recvs_cons]
    exact h.reading
  · rw [sends_cons, hsend, ← sends_cons]
    exact h.writing hactive hwriting

theorem ignored (h : Counts s (op ::ₘ rest)) (hinactive : s.status ≠ .active)
    (hcompletes : Completes e sid op next) : Counts s (opsOf sid next + rest) := by
  refine ⟨?_, fun hactive => absurd hactive hinactive⟩
  have hr := h.reading
  rw [recvs_cons] at hr
  rw [recvs_add, hcompletes.recvs_next, zero_add]
  exact le_trans (Nat.le_add_right _ _) hr

end Counts

/-- A new session waits for its peer only, or for nothing when it cannot read. -/
theorem counts_born (server : Server) (sid : SessionId) (fd : ℤ) :
    Counts (Session.init server.settings sid fd).onReadReadySqe.1
      (opsOf sid [(Session.init server.settings sid fd).onReadReadySqe.2]) := by
  unfold Session.onReadReadySqe
  split
  · rw [opsOf_of_forall_ne (by simp [Op.session?])]
    exact ⟨Nat.zero_le _, fun _ hwriting => absurd hwriting Bool.false_ne_true⟩
  · rw [opsOf_singleton rfl]
    exact ⟨Nat.le_refl _, fun _ hwriting => absurd hwriting Bool.false_ne_true⟩

/-- The operations of a view are those of its session. -/
def OwnOps (sid : SessionId) (ops : Multiset Op) : Prop := ∀ op ∈ ops, op.session? = some sid

namespace OwnOps

variable {sid : SessionId} {ops rest : Multiset Op} {op op' : Op}

theorem prepared (h : OwnOps sid ops) (added : List Op) : OwnOps sid (opsOf sid added + ops) :=
  fun op hop => (Multiset.mem_add.mp hop).elim (fun hop => (mem_opsOf.mp hop).2) (h op)

theorem completed (h : OwnOps sid (op ::ₘ rest)) (next : List Op) :
    OwnOps sid (opsOf sid next + rest) :=
  prepared (fun op hop => h op (Multiset.mem_cons_of_mem hop)) next

theorem moved (h : OwnOps sid (op ::ₘ rest)) (hop' : op'.session? = some sid) :
    OwnOps sid (op' ::ₘ rest) := by
  intro op hop
  rcases Multiset.mem_cons.mp hop with rfl | hop
  · exact hop'
  · exact h op (Multiset.mem_cons_of_mem hop)

end OwnOps

theorem counted_unused (sid : SessionId) : Counted sid View.unused :=
  ⟨fun _ hop => absurd hop (Multiset.notMem_zero _), fun _ hs => absurd hs (by simp [View.unused])⟩

theorem Counted.step {server : Server} {sid : SessionId} {ring : Ring} {e : Event} {v v' : View}
    (h : Counted sid v) (hkeyed : ∀ s, v.session = some s → s.self = sid)
    (hstep : LocalStep server sid ring e v v') : Counted sid v' := by
  have htagged : OwnOps sid v.ops := h.tagged
  cases hstep with
  | born fd more =>
    refine ⟨fun op hop => (mem_opsOf.mp hop).2, fun s hs => ?_⟩
    obtain rfl := Option.some.inj hs
    exact counts_born server sid fd
  | released => exact ⟨htagged.completed _, fun s hs => absurd hs (by simp)⟩
  | ignored hcompletes hinactive hkept =>
    refine ⟨htagged.completed _, fun s hs => ?_⟩
    obtain rfl := Option.some.inj hs
    exact (h.counts _ rfl).ignored hinactive hcompletes
  | handled hcompletes hactive hhandled htouched =>
    refine ⟨(htagged.completed _).prepared _, fun s hs => ?_⟩
    obtain rfl := Option.some.inj hs
    have hnext := (h.counts _ rfl).handled hactive (hkeyed _ rfl) hcompletes hhandled
    rcases htouched with ⟨rfl, -⟩ | ⟨⟨now, rfl⟩, -⟩
    · exact hnext
    · exact ⟨hnext.reading, hnext.writing⟩
  | performed => exact ⟨htagged.moved rfl, fun s hs => (h.counts s hs).performed rfl rfl⟩
  | refused => exact ⟨htagged.moved rfl, fun s hs => (h.counts s hs).performed rfl rfl⟩
  | expiredFreed => exact ⟨htagged, fun s hs => absurd hs (by simp)⟩
  | expiredKept =>
    refine ⟨htagged, fun s hs => ?_⟩
    obtain rfl := Option.some.inj hs
    exact ⟨(h.counts _ rfl).reading,
      fun hact => absurd hact (by simp [Session.setStatus, Session.close])⟩

end WarpApi

import WarpApi.OutstandingSteps
import WarpApi.WakeUps

/-!
The tags of completions. The dispatcher takes a tag that is not the listener's for the
address of a request object and follows it. The entry of a session without room to read
is turned into a nop whose tag is null, and its completion is dispatched like any other.
-/
namespace WarpApi

/-- User data that the dispatcher can use: LISTENER_TAG, or the address of the `_readReq`
or the `_writeReq` of a session. -/
inductive Tag
  | listener
  | readReq (session : SessionId)
  | writeReq (session : SessionId)
  deriving DecidableEq

/-- The user data of an operation's completions, `none` for null. -/
def Op.tag? : Op → Option Tag
  | .accept => some .listener
  | .nop => none
  | .recv sid _ => some (.readReq sid)
  | .send sid _ => some (.writeReq sid)
  | .sent sid _ => some (.writeReq sid)
  | .failed sid _ => some (.writeReq sid)
  | .notif sid => some (.writeReq sid)

def Tagged (ops : Multiset Op) : Prop := ∀ op ∈ ops, op.tag?.isSome = true

/-- Whatever has a completion to come carries a usable tag. -/
def UsableTags (w : Worker) : Prop := Tagged w.outstanding

instance (ops : Multiset Op) : Decidable (Tagged ops) :=
  inferInstanceAs (Decidable (∀ op ∈ ops, op.tag?.isSome = true))

instance (w : Worker) : Decidable (UsableTags w) :=
  inferInstanceAs (Decidable (Tagged w.outstanding))

/-- A new session has room to read; a data completion leaves room in the read buffer, or
no entry for the next recv. -/
def KeepsTags (server : Server) : ViewGuard := fun ring e v =>
  match e, v.session with
  | .accept _ _, _ => ring.full = true ∨ 0 < server.settings.maxRequestSize.toNat
  | .recv _ _ (.data bytes) _, some s => s.status = .active →
    ∀ t ∈ (s.setReading false).takeInput server bytes, t.status = .active →
      t.readBuffer.free ≠ 0 ∨ ring.room < t.entriesNeeded
  | _, _ => True

instance (server : Server) (ring : Ring) : ∀ e v, Decidable (KeepsTags server ring e v)
  | .accept _ _, _ =>
    inferInstanceAs (Decidable (ring.full = true ∨ 0 < server.settings.maxRequestSize.toNat))
  | .recv _ _ (.data bytes) _, ⟨some s, _, _, _⟩ =>
    inferInstanceAs (Decidable (s.status = .active →
      ∀ t ∈ (s.setReading false).takeInput server bytes, t.status = .active →
        t.readBuffer.free ≠ 0 ∨ ring.room < t.entriesNeeded))
  | .recv _ _ (.data _) _, ⟨none, _, _, _⟩
  | .recv _ _ .eof _, _ | .recv _ _ .wouldBlock _, _ | .recv _ _ .error _, _
  | .acceptFailed _, _ | .sent _ _ _, _ | .notif _ _, _
  | .failed _ _ _, _ | .kernelSend _ _, _ | .kernelFail _ _, _ | .expire _, _
  | .submit, _ | .consume _, _ => .isTrue trivial

section tagged

variable {ops ops' : Multiset Op} {op : Op}

theorem tagged_zero : Tagged 0 := fun _ hop => absurd hop (Multiset.notMem_zero _)

theorem tagged_add : Tagged (ops + ops') ↔ Tagged ops ∧ Tagged ops' := by
  unfold Tagged
  simp only [Multiset.mem_add, or_imp, forall_and]

theorem tagged_cons : Tagged (op ::ₘ ops) ↔ op.tag?.isSome = true ∧ Tagged ops :=
  Multiset.forall_mem_cons

theorem tagged_singleton : Tagged ([op] : List Op) ↔ op.tag?.isSome = true :=
  List.forall_mem_singleton

theorem Completes.tagged {e : Event} {sid : SessionId} {next : List Op}
    (h : Completes e sid op next) : Tagged next := by
  cases h with
  | recv => exact tagged_zero
  | sent => exact tagged_singleton.mpr rfl
  | failed _ more =>
    cases more with
    | true => exact tagged_singleton.mpr rfl
    | false => exact tagged_zero
  | notif => exact tagged_zero

end tagged

section handled

variable {server : Server} {ring : Ring} {e : Event} {s t : Session} {added : List Op}

/-- A write is started only with something to send, so it never ends in a nop. -/
theorem WriteArmed.tagged (h : WriteArmed s ring t added) : Tagged added := by
  cases h with
  | sends => exact tagged_singleton.mpr rfl
  | noEntry => exact tagged_zero
  | idle => exact tagged_zero

/-- A read is armed with a tag exactly when there is room to read, or no entry at all. -/
theorem tagged_readArmed_iff (hactive : s.status = .active) (h : ReadArmed s ring t added) :
    Tagged added ↔ s.readBuffer.free ≠ 0 ∨ ring.full = true := by
  cases h with
  | receives _ _ hfree => exact ⟨fun _ => Or.inl hfree, fun _ => tagged_singleton.mpr rfl⟩
  | gaveUp _ hroom hfree =>
    rw [tagged_singleton, hroom]
    refine ⟨fun htag => absurd htag (by decide), fun h => ?_⟩
    exact h.elim (absurd hfree) (absurd · (by decide))
  | noEntry _ hfull => exact ⟨fun _ => Or.inr hfull, fun _ => tagged_zero⟩
  | idle hinactive => exact absurd hactive hinactive

/-- Behind the input only a read that is armed without room to read goes wrong. -/
theorem tagged_armed_iff {u : Session} {wOps rOps : List Op} (hwrite : WriteArmed s ring t wOps)
    (hread : ReadArmed t (ring.extend wOps) u rOps) :
    Tagged (wOps ++ rOps : List Op) ↔
      (s.status = .active → s.readBuffer.free ≠ 0 ∨ ring.room < s.entriesNeeded) := by
  rw [← Multiset.coe_add, tagged_add, and_iff_right hwrite.tagged]
  by_cases hactive : s.status = .active
  · have hfull : (ring.extend wOps).full = true ↔ ring.room < s.entriesNeeded := by
      rw [← Bool.not_eq_false, full_extend_eq_false_iff hwrite, Nat.not_le]
    rw [tagged_readArmed_iff (hwrite.status_eq.trans hactive) hread, hwrite.buffers_eq.1, hfull]
    exact ⟨fun h _ => h, fun h => h hactive⟩
  · have hidle : rOps = [] := by
      have hinactive : t.status ≠ .active := hwrite.status_eq ▸ hactive
      cases hread with
      | receives hact => exact absurd hact hinactive
      | gaveUp hact => exact absurd hact hinactive
      | noEntry => rfl
      | idle => rfl
    rw [hidle]
    exact ⟨fun _ hact => absurd hact hactive, fun _ => tagged_zero⟩

theorem keepsTags_recv_end {sid : SessionId} {room now : ℕ} {res : RecvResult} {v : View}
    (hres : ∀ bytes, res ≠ .data bytes) : KeepsTags server ring (.recv sid room res now) v := by
  cases res with
  | data bytes => exact absurd rfl (hres bytes)
  | _ => trivial

/-- The entries of a handled completion have tags exactly when the guard is met. -/
theorem tagged_handled_iff {v : View} (hs : v.session = some s) (hactive : s.status = .active)
    (h : Handled server ring e s t added) : Tagged added ↔ KeepsTags server ring e v := by
  obtain ⟨session, ops, linked, wire⟩ := v
  obtain rfl : session = some s := hs
  cases h with
  | @data sid room now bytes _ s₁ s₂ _ wOps rOps hin hwrite hread =>
    rw [tagged_armed_iff hwrite hread]
    refine ⟨fun h _ u hu => ?_, fun h => h hactive s₁ hin⟩
    obtain rfl := Option.some.inj (hin.symm.trans hu)
    exact h
  | endClosed hres => exact ⟨fun _ => keepsTags_recv_end hres, fun _ => tagged_zero⟩
  | endWaiting hres => exact ⟨fun _ => keepsTags_recv_end hres, fun _ => tagged_zero⟩
  | notifSend => exact ⟨fun _ => trivial, fun _ => tagged_singleton.mpr rfl⟩
  | _ => exact ⟨fun _ => trivial, fun _ => tagged_zero⟩

theorem keepsTags_of_inactive {sid : SessionId} {op : Op} {next : List Op} {v : View}
    (hcompletes : Completes e sid op next) (hs : v.session = some s)
    (hinactive : s.status ≠ .active) : KeepsTags server ring e v := by
  obtain ⟨session, ops, linked, wire⟩ := v
  obtain rfl : session = some s := hs
  cases hcompletes with
  | recv _ room res now =>
    cases res with
    | data bytes => exact fun hactive => absurd hactive hinactive
    | _ => trivial
  | _ => trivial

end handled

theorem tagged_firstEntry_iff (s : Session) :
    s.onReadReadySqe.2.tag?.isSome = true ↔ 0 < s.readBuffer.free := by
  rw [Nat.pos_iff_ne_zero]
  unfold Session.onReadReadySqe
  by_cases hzero : s.readBuffer.free = 0
  · rw [if_pos hzero]
    exact ⟨fun htag => absurd htag Bool.false_ne_true, fun hne => absurd hzero hne⟩
  · rw [if_neg hzero]
    exact ⟨fun _ => hzero, fun _ => rfl⟩

/-- A step keeps the tags usable exactly when the guard is met. -/
theorem usableTags_step_iff (server : Server) (w : Worker) (e : Event) (w' : Worker)
    (husable : UsableTags w) (hstep : w.step server e = some w') :
    UsableTags w' ↔ Worker.Meets (KeepsTags server) w e := by
  have hsame : w'.outstanding = w.outstanding → UsableTags w' := by
    intro hkept
    unfold UsableTags
    rw [hkept]
    exact husable
  have hnext : ∀ op op' rest, w.outstanding = op ::ₘ rest → w'.outstanding = op' ::ₘ rest →
      op'.tag?.isSome = true → UsableTags w' := by
    intro op op' rest hbefore hafter hop'
    unfold UsableTags at husable ⊢
    rw [hbefore, tagged_cons] at husable
    rw [hafter, tagged_cons]
    exact ⟨hop', husable.2⟩
  unfold Worker.Meets
  cases Worker.opsStep hstep with
  | @completed _ sid op next added s rest hcompletes hpool hadded hring hbefore hafter =>
    have hview : (w.target e).session = some s := by
      rw [hcompletes.target]
      exact hpool
    unfold UsableTags at husable ⊢
    rw [hbefore, tagged_cons] at husable
    rw [hafter, tagged_add, tagged_add, and_iff_left ⟨hcompletes.tagged, husable.2⟩]
    rcases hadded with ⟨hinactive, rfl⟩ | ⟨hactive, t, u, -, hhandled⟩
    · exact ⟨fun _ => keepsTags_of_inactive hcompletes hview hinactive, fun _ => tagged_zero⟩
    · exact tagged_handled_iff hview hactive hhandled
  | performed _ hbefore hafter => exact ⟨fun _ => trivial, fun _ => hnext _ _ _ hbefore hafter rfl⟩
  | refused _ hbefore hafter => exact ⟨fun _ => trivial, fun _ => hnext _ _ _ hbefore hafter rfl⟩
  | connected fd more hroom hafter =>
    have hguard : KeepsTags server w.ring (.accept fd more) (w.target (.accept fd more)) ↔
        0 < server.settings.maxRequestSize.toNat := by
      change w.ring.full = true ∨ _ ↔ _
      rw [hroom, or_iff_right Bool.false_ne_true]
    rw [hguard, UsableTags, hafter, tagged_cons, tagged_firstEntry_iff]
    exact ⟨fun htags => htags.1, fun hpos => ⟨hpos, husable⟩⟩
  | dropped fd more hfull hkept => exact ⟨fun _ => Or.inl hfull, fun _ => hsame hkept⟩
  | relisted more hkept => exact ⟨fun _ => trivial, fun _ => hsame hkept⟩
  | expired sid hkept => exact ⟨fun _ => trivial, fun _ => hsame hkept⟩
  | submitted hkept => exact ⟨fun _ => trivial, fun _ => hsame hkept⟩
  | consumed k hkept => exact ⟨fun _ => trivial, fun _ => hsame hkept⟩

/-- In a run that can be taken, every tag is usable in every state exactly when no step of
it arms a read without room to read. -/
theorem usableTags_iff_keepsTags (server : Server) (entries : ℕ) (es : List Event) (w : Worker)
    (hrun : Runs.run (Worker.step server) (Worker.init entries) es = some w) :
    (∀ pre u, pre <+: es → Runs.run (Worker.step server) (Worker.init entries) pre = some u →
      UsableTags u) ↔
      Runs.Guarded (Worker.step server) (Worker.Meets (KeepsTags server)) (Worker.init entries)
        es :=
  Runs.always_iff_guarded (I := fun _ => True) (fun _ _ _ _ _ => trivial)
    (fun w e w' _ husable hstep => usableTags_step_iff server w e w' husable hstep) trivial
    (tagged_singleton.mpr rfl) hrun

theorem answered_session_usableTags :
    ∃ w, Runs.run (Worker.step (bareServer .ioUring)) (Worker.init 8)
        (acceptAndAnswer ++ [.notif 0 0]) = some w ∧
      ∀ pre u, pre <+: acceptAndAnswer ++ [.notif 0 0] →
        Runs.run (Worker.step (bareServer .ioUring)) (Worker.init 8) pre = some u →
          UsableTags u := by
  have hsome : (Runs.run (Worker.step (bareServer .ioUring)) (Worker.init 8)
      (acceptAndAnswer ++ [.notif 0 0])).isSome = true := by decide +kernel
  obtain ⟨w, hw⟩ := Option.isSome_iff_exists.mp hsome
  refine ⟨w, hw, (usableTags_iff_keepsTags (bareServer .ioUring) 8 _ w hw).mpr ?_⟩
  decide +kernel

/-- The unfinished request fills the read buffer: the nop is submitted with a null tag. -/
theorem full_buffer_null_tag :
    ∃ w, Runs.run (Worker.step narrowServer) (Worker.init 4096)
        [.accept 5 true, .submit, .recv 0 32 (.data halfRequest) 0, .submit] = some w ∧
      .nop ∈ w.inFlight ∧ Op.nop.tag? = none ∧ ¬ UsableTags w := by
  have hchecks : ((Runs.run (Worker.step narrowServer) (Worker.init 4096)
      [.accept 5 true, .submit, .recv 0 32 (.data halfRequest) 0, .submit]).map fun w =>
        decide (Op.nop ∈ w.inFlight)) = some true := by decide +kernel
  obtain ⟨w, hw, hnop⟩ := Option.map_eq_some_iff.mp hchecks
  have hmem : Op.nop ∈ w.inFlight := of_decide_eq_true hnop
  refine ⟨w, hw, hmem, rfl, fun husable => ?_⟩
  exact absurd (husable .nop (List.mem_append_right w.ring.prepared hmem)) (by decide)

end WarpApi

import WarpApi.OutstandingOps

/-!
Lost wake-ups. A completion arms the next recv, and the next send if there is
something to send, but only if there is an entry in the queue, and a recv only if
the read buffer has room. Nothing tries again later: the session sleeps.
-/
namespace WarpApi

/-- The entries that a data completion takes: one for the recv, one for a new send. -/
def Session.entriesNeeded (s : Session) : ℕ :=
  if 0 < s.writeBuffer.size ∧ s.ioFlags.writing = false then 2 else 1

/-- A new session has room to read; a data completion leaves room in the read buffer
and finds its entries; an F_NOTIF behind which bytes are left finds an entry, unless
another send or F_NOTIF is outstanding. -/
def Rearms (server : Server) : ViewGuard := fun ring e v =>
  match e, v.session with
  | .accept _ _, _ => ring.full = true ∨ 0 < server.settings.maxRequestSize.toNat
  | .recv _ _ (.data bytes) _, some s => s.status = .active →
    ∀ t ∈ (s.setReading false).takeInput server bytes, t.status = .active →
      t.readBuffer.free ≠ 0 ∧ t.entriesNeeded ≤ ring.room
  | .notif _ _, some s => s.status = .active → 0 < s.releaseZc.writeBuffer.size →
    ring.full = false ∨ 1 < sends v.ops + notifs v.ops
  | _, _ => True

instance (server : Server) (ring : Ring) : ∀ e v, Decidable (Rearms server ring e v)
  | .accept _ _, _ =>
    inferInstanceAs (Decidable (ring.full = true ∨ 0 < server.settings.maxRequestSize.toNat))
  | .recv _ _ (.data bytes) _, ⟨some s, _, _, _⟩ =>
    inferInstanceAs (Decidable (s.status = .active →
      ∀ t ∈ (s.setReading false).takeInput server bytes, t.status = .active →
        t.readBuffer.free ≠ 0 ∧ t.entriesNeeded ≤ ring.room))
  | .notif _ _, ⟨some s, ops, _, _⟩ =>
    inferInstanceAs (Decidable (s.status = .active → 0 < s.releaseZc.writeBuffer.size →
      ring.full = false ∨ 1 < sends ops + notifs ops))
  | .recv _ _ (.data _) _, ⟨none, _, _, _⟩ | .notif _ _, ⟨none, _, _, _⟩
  | .recv _ _ .eof _, _ | .recv _ _ .wouldBlock _, _ | .recv _ _ .error _, _
  | .acceptFailed _, _ | .sent _ _ _, _
  | .failed _ _ _, _ | .kernelSend _ _, _ | .kernelFail _ _, _ | .expire _, _
  | .submit, _ | .consume _, _ => .isTrue trivial

/-- A recv is outstanding, and with bytes to send also a send or an F_NOTIF. -/
structure Awake (s : Session) (ops : Multiset Op) : Prop where
  receiving : 0 < recvs ops
  flushing : 0 < s.writeBuffer.size → 0 < sends ops + notifs ops

def AwakeView (v : View) : Prop := ∀ s, v.session = some s → s.status = .active → Awake s v.ops

/-- Every active session will hear of its peer and get rid of what it has to send. -/
def NoLostWakeUp (w : Worker) : Prop :=
  ∀ sid s, w.pool sid = some s → s.status = .active → Awake s (w.ops sid)

section handled

variable {server : Server} {sid : SessionId} {ring : Ring} {e : Event} {op : Op}
  {next added : List Op} {s t : Session} {rest : Multiset Op}

theorem rearms_of_inactive {v : View} (hcompletes : Completes e sid op next)
    (hinactive : ∀ s, v.session = some s → s.status ≠ .active) : Rearms server ring e v := by
  unfold Rearms
  cases hsession : v.session with
  | none =>
    cases hcompletes with
    | recv _ room res now => cases res <;> trivial
    | _ => trivial
  | some s =>
    have hs := hinactive s hsession
    cases hcompletes with
    | recv _ room res now =>
      cases res with
      | data bytes => exact fun hactive => absurd hactive hs
      | _ => trivial
    | notif => exact fun hactive => absurd hactive hs
    | _ => trivial

theorem rearms_recv_end {room now : ℕ} {res : RecvResult} {v : View}
    (hres : ∀ bytes, res ≠ .data bytes) : Rearms server ring (.recv sid room res now) v := by
  cases res with
  | data bytes => exact absurd rfl (hres bytes)
  | _ => trivial

/-- A data completion that is handled asks for what the session behind the input needs. -/
theorem rearms_data_iff {room now : ℕ} {bytes : Bytes} {ops : Multiset Op} {linked : Bool}
    {wire : Bytes} {u : Session} (hactive : s.status = .active)
    (hin : (s.setReading false).takeInput server bytes = some u) :
    Rearms server ring (.recv sid room (.data bytes) now) ⟨some s, ops, linked, wire⟩ ↔
      (u.status = .active → u.readBuffer.free ≠ 0 ∧ u.entriesNeeded ≤ ring.room) := by
  refine ⟨fun h => h hactive u hin, fun h _ v hv => ?_⟩
  obtain rfl := Option.some.inj (hin.symm.trans hv)
  exact h

/-- Behind the write part there is an entry left exactly when there were enough. -/
theorem full_extend_eq_false_iff (hwrite : WriteArmed s ring t added) :
    (ring.extend added).full = false ↔ s.entriesNeeded ≤ ring.room := by
  have hfull : ∀ r : Ring, r.full = false ↔ 0 < r.room := fun r => by
    rw [← Bool.not_eq_true, r.full_iff, Nat.pos_iff_ne_zero]
  unfold Session.entriesNeeded
  cases hwrite with
  | sends hsize hidle hroom =>
    have hpush : ring.extend [.send s.self s.writeBuffer.unread] =
        ring.push (.send s.self s.writeBuffer.unread) := rfl
    rw [if_pos ⟨hsize, hidle⟩, hfull, hpush, Ring.room_push]
    omega
  | noEntry hsize hidle hroom =>
    have hzero := ring.full_iff.mp hroom
    rw [if_pos ⟨hsize, hidle⟩, Ring.extend_nil, hfull]
    omega
  | idle hidle =>
    rw [if_neg, Ring.extend_nil, hfull]
    · exact Iff.rfl
    · rintro ⟨hsize, hwriting⟩
      rcases hidle with hzero | hbusy
      · omega
      · exact absurd (hwriting.symm.trans hbusy) Bool.false_ne_true

/-- A recv is armed exactly when there is an entry and room in the read buffer. -/
theorem recvs_armed_pos_iff (hself : s.self = sid) (hactive : s.status = .active)
    (hread : ReadArmed s ring t added) :
    0 < recvs (opsOf sid added) ↔ ring.full = false ∧ s.readBuffer.free ≠ 0 := by
  cases hread with
  | receives _ hroom hfree =>
    rw [opsOf_singleton (by simp [Op.session?, hself])]
    exact ⟨fun _ => ⟨hroom, hfree⟩, fun _ => Nat.succ_pos _⟩
  | gaveUp _ _ hfree =>
    rw [opsOf_of_forall_ne (by simp [Op.session?]), recvs_zero]
    exact ⟨fun h => absurd h (Nat.lt_irrefl 0), fun h => absurd hfree h.2⟩
  | noEntry _ hfull =>
    rw [opsOf_nil, recvs_zero]
    exact ⟨fun h => absurd h (Nat.lt_irrefl 0), fun h => absurd (hfull.symm.trans h.1) (by decide)⟩
  | idle hinactive => exact absurd hactive hinactive

/-- Processed input leaves the session awake exactly when both entries are to be had. -/
theorem awake_armed_iff {wOps rOps : List Op} {u : Session} (hcounts : Counts s rest)
    (hnone : recvs rest = 0) (hself : s.self = sid) (hactive : s.status = .active)
    (hwrite : WriteArmed s ring t wOps) (hread : ReadArmed t (ring.extend wOps) u rOps) :
    Awake u (opsOf sid (wOps ++ rOps) + rest) ↔
      s.readBuffer.free ≠ 0 ∧ s.entriesNeeded ≤ ring.room := by
  have hwOps : recvs (opsOf sid wOps) = 0 := by
    cases hwrite with
    | sends =>
      rw [opsOf_singleton (by simp [Op.session?, hself])]
      rfl
    | noEntry => rfl
    | idle => rfl
  have hself' : t.self = sid := hwrite.self_eq.trans hself
  have hactive' : t.status = .active := hwrite.status_eq.trans hactive
  obtain ⟨hreadBuffer, hwriteBuffer⟩ := hwrite.buffers_eq
  have hwritten : u.writeBuffer = s.writeBuffer := hread.writeBuffer_eq.trans hwriteBuffer
  have hrecvs : recvs (opsOf sid (wOps ++ rOps) + rest) = recvs (opsOf sid rOps) := by
    rw [opsOf_append, recvs_add, recvs_add, hwOps, hnone, zero_add, add_zero]
  have harmed := recvs_armed_pos_iff hself' hactive' hread
  rw [full_extend_eq_false_iff hwrite, hreadBuffer, and_comm] at harmed
  rw [← harmed, ← hrecvs]
  refine ⟨Awake.receiving, fun hpos => ⟨hpos, fun hsize => ?_⟩⟩
  rw [hrecvs, harmed] at hpos
  rw [hwritten] at hsize
  rw [opsOf_append, sends_add, sends_add]
  cases hwrite with
  | sends =>
    have hone : sends (opsOf sid [.send s.self s.writeBuffer.unread]) = 1 := by
      rw [opsOf_singleton (by simp [Op.session?, hself])]
      rfl
    omega
  | noEntry _ hidle hfull =>
    have hneeded := hpos.2
    rw [ring.full_iff.mp hfull, Session.entriesNeeded, if_pos ⟨hsize, hidle⟩] at hneeded
    omega
  | idle hidle =>
    have hsends := hcounts.writing hactive (hidle.resolve_left (Nat.ne_of_gt hsize))
    omega

/-- A send or an F_NOTIF beside the recv keeps the session awake. -/
theorem awake_cons (hrecv : 0 < recvs rest) (hflushes : (op.isSend || op.isNotif) = true) :
    Awake t (op ::ₘ rest) := by
  refine ⟨?_, fun _ => ?_⟩
  · rw [recvs_cons]
    exact Nat.add_pos_left hrecv _
  · rw [sends_cons, notifs_cons]
    rcases (Bool.or_eq_true ..).mp hflushes with hsend | hnotif
    · rw [hsend]
      exact Nat.add_pos_left (Nat.succ_pos _) _
    · rw [hnotif]
      exact Nat.add_pos_right _ (Nat.succ_pos _)

/-- Where the send behind an F_NOTIF finds no entry, another one must be outstanding. -/
theorem awake_unsent_iff {now : ℕ} {linked : Bool} {wire : Bytes} (hrecv : 0 < recvs rest)
    (hactive : s.status = .active) (hsize : 0 < s.releaseZc.writeBuffer.size)
    (hfull : ring.full = true) :
    Awake s.releaseZc rest ↔
      Rearms server ring (.notif sid now) ⟨some s, .notif sid ::ₘ rest, linked, wire⟩ := by
  have hothers : sends (.notif sid ::ₘ rest) + notifs (.notif sid ::ₘ rest) =
      sends rest + notifs rest + 1 := by
    rw [sends_cons, notifs_cons]
    rfl
  have hmany : Rearms server ring (.notif sid now) ⟨some s, .notif sid ::ₘ rest, linked, wire⟩ ↔
      1 < sends (.notif sid ::ₘ rest) + notifs (.notif sid ::ₘ rest) := by
    refine ⟨fun h => (h hactive hsize).resolve_left ?_, fun h _ _ => Or.inr h⟩
    rw [hfull]
    decide
  rw [hmany, hothers]
  constructor
  · intro hawake
    have hflush := hawake.flushing hsize
    omega
  · exact fun h => ⟨hrecv, fun _ => by omega⟩

/-- A session that is handled stays awake, or stops, exactly when it is armed again. -/
theorem awake_handled_iff {linked : Bool} {wire : Bytes} (hcounts : Counts s (op ::ₘ rest))
    (hawake : Awake s (op ::ₘ rest)) (hactive : s.status = .active) (hself : s.self = sid)
    (hcompletes : Completes e sid op next) (hhandled : Handled server ring e s t added) :
    (t.status = .active → Awake t (opsOf sid added + (opsOf sid next + rest))) ↔
      Rearms server ring e ⟨some s, op ::ₘ rest, linked, wire⟩ := by
  have hstopped : t.status ≠ .active → Rearms server ring e ⟨some s, op ::ₘ rest, linked, wire⟩ →
      ((t.status = .active → Awake t (opsOf sid added + (opsOf sid next + rest))) ↔
        Rearms server ring e ⟨some s, op ::ₘ rest, linked, wire⟩) :=
    fun hinactive hrearms => ⟨fun _ => hrearms, fun _ hact => absurd hact hinactive⟩
  have hr := hawake.receiving
  rw [recvs_cons] at hr
  cases hhandled with
  | @data _ room now bytes _ s₁ s₂ _ wOps rOps hin hwrite hread =>
    cases hcompletes
    have hframe := Session.handles_takeInput hin
    have hkept : t.status = s₁.status := hread.status_eq.trans hwrite.status_eq
    rw [rearms_data_iff hactive hin, hkept, opsOf_nil, zero_add]
    refine forall_congr' fun hact => ?_
    exact awake_armed_iff (hcounts.takeInput rfl rfl hactive hin) (hcounts.recvs_rest rfl)
      (hframe.self_eq.trans hself) hact hwrite hread
  | endClosed hres => exact hstopped (by simp [Session.setStatus]) (rearms_recv_end hres)
  | endWaiting hres => exact hstopped (by simp [Session.setStatus]) (rearms_recv_end hres)
  | sent =>
    cases hcompletes
    rw [opsOf_nil, zero_add, opsOf_singleton rfl, Multiset.singleton_add]
    exact ⟨fun _ => trivial, fun _ _ => awake_cons hr rfl⟩
  | failed => exact hstopped (by simp [Session.setStatus]) trivial
  | notifSend hsize hroom =>
    cases hcompletes
    rw [opsOf_singleton (by simp [Op.session?, hself]), Multiset.singleton_add, opsOf_nil, zero_add]
    exact ⟨fun _ _ _ => Or.inl hroom, fun _ _ => awake_cons hr rfl⟩
  | notifNoEntry hsize hfull =>
    cases hcompletes
    have hstays : s.releaseZc.status = .active := hactive
    rw [opsOf_nil, zero_add, zero_add, ← awake_unsent_iff hr hactive hsize hfull]
    exact ⟨fun h => h hstays, fun h _ => h⟩
  | notifKept hsize =>
    cases hcompletes
    rw [opsOf_nil, zero_add, zero_add]
    refine ⟨fun _ _ hpos => absurd hsize (Nat.ne_of_gt hpos), fun _ _ => ⟨hr, fun hpos => ?_⟩⟩
    exact absurd hsize (Nat.ne_of_gt hpos)
  | notifClosed hsize =>
    cases hcompletes
    exact hstopped (by simp [Session.setStatus])
      fun _ hpos => absurd hsize (Nat.ne_of_gt hpos)

end handled

theorem AwakeView.performed {session : Option Session} {op op' : Op} {rest : Multiset Op}
    {linked : Bool} {wire wire' : Bytes} (h : AwakeView ⟨session, op ::ₘ rest, linked, wire⟩)
    (hrecv : op'.isRecv = op.isRecv) (hsend : op'.isSend = op.isSend)
    (hnotif : op'.isNotif = op.isNotif) : AwakeView ⟨session, op' ::ₘ rest, linked, wire'⟩ := by
  intro s hs hactive
  have hawake := h s hs hactive
  refine ⟨?_, fun hsize => ?_⟩
  · rw [recvs_cons, hrecv, ← recvs_cons]
    exact hawake.receiving
  · rw [sends_cons, notifs_cons, hsend, hnotif, ← sends_cons, ← notifs_cons]
    exact hawake.flushing hsize

/-- A step keeps its session awake exactly when it arms it again. -/
theorem awake_step_iff {server : Server} {sid : SessionId} {ring : Ring} {e : Event} {v v' : View}
    (hcounted : Counted sid v) (hawake : AwakeView v)
    (hkeyed : ∀ s, v.session = some s → s.self = sid) (hstep : LocalStep server sid ring e v v') :
    AwakeView v' ↔ Rearms server ring e v := by
  cases hstep with
  | born fd more hroom =>
    have hfree : (Session.init server.settings sid fd).readBuffer.free =
        server.settings.maxRequestSize.toNat := rfl
    have hrearms : Rearms server ring (.accept fd more) View.unused ↔
        0 < server.settings.maxRequestSize.toNat := by
      change ring.full = true ∨ _ ↔ _
      rw [hroom, or_iff_right (by decide)]
    rw [hrearms, ← hfree, Nat.pos_iff_ne_zero]
    unfold Session.onReadReadySqe
    constructor
    · intro hnew hzero
      have hnone := (hnew _ rfl (by rw [if_pos hzero]; rfl)).receiving
      rw [if_pos hzero, opsOf_of_forall_ne (by simp [Op.session?]), recvs_zero] at hnone
      exact absurd hnone (Nat.lt_irrefl 0)
    · intro hpos s hs hactive
      rw [if_neg hpos] at hs ⊢
      obtain rfl := Option.some.inj hs
      rw [opsOf_singleton rfl]
      exact ⟨Nat.succ_pos _, fun hsize => absurd hsize (Nat.lt_irrefl 0)⟩
  | released hcompletes hclosing =>
    refine ⟨fun _ => rearms_of_inactive hcompletes fun s hs => ?_,
      fun _ s hs => absurd hs (by simp)⟩
    rw [← Option.some.inj hs, hclosing]
    decide
  | ignored hcompletes hinactive =>
    refine ⟨fun _ => rearms_of_inactive hcompletes fun s hs => ?_, fun _ s hs hactive => ?_⟩
    · exact Option.some.inj hs ▸ hinactive
    · exact absurd hactive (Option.some.inj hs ▸ hinactive)
  | @handled _ op next added s t u rest _ _ _ hcompletes hactive hhandled htouched =>
    rw [← awake_handled_iff (hcounted.counts s rfl) (hawake s rfl hactive) hactive (hkeyed s rfl)
      hcompletes hhandled]
    rcases htouched with ⟨rfl, -⟩ | ⟨⟨now, rfl⟩, -⟩
    · exact ⟨fun h => h u rfl, fun h s hs => Option.some.inj hs ▸ h⟩
    · refine ⟨fun h hact => ?_, fun h s hs hact => ?_⟩
      · exact ⟨(h _ rfl hact).receiving, (h _ rfl hact).flushing⟩
      · obtain rfl := Option.some.inj hs
        exact ⟨(h hact).receiving, (h hact).flushing⟩
  | performed => exact ⟨fun _ => trivial, fun _ => hawake.performed rfl rfl rfl⟩
  | refused => exact ⟨fun _ => trivial, fun _ => hawake.performed rfl rfl rfl⟩
  | expiredFreed => exact ⟨fun _ => trivial, fun _ s hs => absurd hs (by simp)⟩
  | expiredKept =>
    refine ⟨fun _ => trivial, fun _ s hs hactive => ?_⟩
    rw [← Option.some.inj hs] at hactive
    exact absurd hactive (by simp [Session.setStatus, Session.close])

def AllCounted (w : Worker) : Prop := w.Sound ∧ ∀ sid, Counted sid (w.view sid)

theorem allCounted_step (server : Server) (w : Worker) (e : Event) (w' : Worker)
    (h : AllCounted w) (hstep : w.step server e = some w') : AllCounted w' :=
  ⟨Worker.sound_step h.1 hstep, Worker.views_of_step (fun _ _ _ => True)
    (fun _ _ _ _ _ hI _ hkeyed hlocal => hI.step hkeyed hlocal) h.1 h.2 trivial hstep⟩

theorem noLostWakeUp_step_iff (server : Server) (w : Worker) (e : Event) (w' : Worker)
    (h : AllCounted w) (hawake : NoLostWakeUp w) (hstep : w.step server e = some w') :
    NoLostWakeUp w' ↔ Worker.Meets (Rearms server) w e := by
  unfold Worker.Meets
  obtain ⟨-, hrests | ⟨sid, hm⟩⟩ := Worker.moves_step h.1 hstep
  · have hsame : NoLostWakeUp w' := by
      intro sid s hs hactive
      have hview := hrests.views sid
      have hops : w'.ops sid = w.ops sid := congrArg View.ops hview
      rw [hops]
      exact hawake sid s ((congrArg View.session hview).symm.trans hs) hactive
    refine ⟨fun _ => ?_, fun _ => hsame⟩
    unfold Rearms
    cases e with
    | accept fd more => exact Or.inl (hrests.dropped fd more rfl)
    | acceptFailed => trivial
    | submit => trivial
    | consume => trivial
    | _ => exact absurd hrests.sessionless (by simp [Event.session?])
  · rw [Worker.target_of_localStep hm.moved,
      ← awake_step_iff (h.2 sid) (hawake sid) (h.1.keyed sid) hm.moved]
    refine ⟨fun hall => hall sid, fun hview sid' s hs hactive => ?_⟩
    by_cases hne : sid' = sid
    · subst hne
      exact hview s hs hactive
    · have hother := hm.others sid' hne
      have hops : w'.ops sid' = w.ops sid' := congrArg View.ops hother
      rw [hops]
      exact hawake sid' s ((congrArg View.session hother).symm.trans hs) hactive

/-- In a run that can be taken, no wake-up is ever lost exactly when every step of it
arms again. -/
theorem noLostWakeUp_iff_rearms (server : Server) (entries : ℕ) (es : List Event) (w : Worker)
    (hrun : Runs.run (Worker.step server) (Worker.init entries) es = some w) :
    (∀ pre u, pre <+: es → Runs.run (Worker.step server) (Worker.init entries) pre = some u →
      NoLostWakeUp u) ↔
      Runs.Guarded (Worker.step server) (Worker.Meets (Rearms server)) (Worker.init entries)
        es := by
  refine Runs.always_iff_guarded (allCounted_step server) (noLostWakeUp_step_iff server)
    ⟨Worker.sound_init entries, fun sid => ?_⟩ (fun sid s hs => ?_) hrun
  · rw [Worker.view_init]
    exact counted_unused sid
  · exact absurd hs (by simp [Worker.init])

theorem answered_session_noLostWakeUp :
    ∃ w, Runs.run (Worker.step (bareServer .ioUring)) (Worker.init 8)
        (acceptAndAnswer ++ [.notif 0 0]) = some w ∧
      ∀ pre u, pre <+: acceptAndAnswer ++ [.notif 0 0] →
        Runs.run (Worker.step (bareServer .ioUring)) (Worker.init 8) pre = some u →
          NoLostWakeUp u := by
  have hsome : (Runs.run (Worker.step (bareServer .ioUring)) (Worker.init 8)
      (acceptAndAnswer ++ [.notif 0 0])).isSome = true := by decide +kernel
  obtain ⟨w, hw⟩ := Option.isSome_iff_exists.mp hsome
  refine ⟨w, hw, (noLostWakeUp_iff_rearms (bareServer .ioUring) 8 _ w hw).mpr ?_⟩
  decide +kernel

def narrowServer : Server :=
  { bareServer .ioUring with settings := { configJson with maxRequestSize := 32 } }

def halfRequest : Bytes := ascii "GET /a-path-that-is-not-complete"

/-- The read buffer is full: no recv is armed, and the session stays active for ever. -/
theorem full_buffer_sleeps :
    ∃ w s, Runs.run (Worker.step narrowServer) (Worker.init 4096)
        [.accept 5 true, .submit, .recv 0 32 (.data halfRequest) 0] = some w ∧
      w.pool 0 = some s ∧ s.status = .active ∧ w.ops 0 = 0 ∧ ¬ NoLostWakeUp w := by
  have hchecks : ((Runs.run (Worker.step narrowServer) (Worker.init 4096)
      [.accept 5 true, .submit, .recv 0 32 (.data halfRequest) 0]).map fun w =>
        ((w.pool 0).map fun s => s.status, decide (w.ops 0 = 0))) =
      some (some .active, true) := by decide +kernel
  obtain ⟨w, hw, hrest⟩ := Option.map_eq_some_iff.mp hchecks
  obtain ⟨hpool, hops⟩ := Prod.mk.inj hrest
  obtain ⟨s, hs, hactive⟩ := Option.map_eq_some_iff.mp hpool
  have hnone : w.ops 0 = 0 := of_decide_eq_true hops
  refine ⟨w, s, hw, hs, hactive, hnone, fun hawake => ?_⟩
  have hreceiving := (hawake 0 s hs hactive).receiving
  rw [hnone] at hreceiving
  exact absurd hreceiving (Nat.lt_irrefl 0)

end WarpApi

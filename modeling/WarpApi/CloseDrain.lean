import WarpApi.EpollDrain
import WarpApi.UringViews

/-!
Closing and what is still queued, in both backends. In the io_uring backend the
decision turns the session to closing, and from then on its completions are ignored:
one send of the whole queue is still to come if it could be submitted with the
decision, and what the kernel does not take of it is never submitted again.
-/
namespace WarpApi

/-- No send of the session is cut short or refused, and its timer does not run out. -/
def Unhindered (sid : SessionId) (w : Worker) : Event → Prop
  | .kernelSend sid' n => sid' = sid → ∀ region, w.nextSend sid = some region → n = region.length
  | .kernelFail sid' _ => sid' ≠ sid
  | .expire sid' => sid' ≠ sid
  | _ => True

instance (sid : SessionId) (w : Worker) : ∀ e, Decidable (Unhindered sid w e)
  | .kernelSend sid' n => inferInstanceAs
      (Decidable (sid' = sid → ∀ region, region ∈ w.nextSend sid → n = region.length))
  | .kernelFail sid' _ => inferInstanceAs (Decidable (sid' ≠ sid))
  | .expire sid' => inferInstanceAs (Decidable (sid' ≠ sid))
  | .accept _ _ => .isTrue trivial
  | .acceptFailed _ => .isTrue trivial
  | .recv _ _ _ _ => .isTrue trivial
  | .sent _ _ _ => .isTrue trivial
  | .failed _ _ _ => .isTrue trivial
  | .notif _ _ => .isTrue trivial
  | .submit => .isTrue trivial
  | .consume _ => .isTrue trivial

/-- The socket is open and a send of all these bytes is to come, or they have been
accepted behind those that were on the wire before. -/
def QueueServed (sid : SessionId) (queued before : Bytes) (w : Worker) : Prop :=
  (∃ s, w.pool sid = some s ∧ s.isOpen = true ∧ Op.send sid queued ∈ w.ops sid) ∨
    ∃ x y, w.wire sid = before ++ x ++ queued ++ y

/-- The session is closing and a send of these bytes is to come. -/
def Owing (sid : SessionId) (queued before : Bytes) (v : View) : Prop :=
  ∃ s, v.session = some s ∧ s.isOpen = true ∧ s.status = .closing ∧ s.ioFlags.writing = true ∧
    Op.send sid queued ∈ v.ops ∧ before <+: v.wire

theorem wire_of_localStep {server : Server} {sid : SessionId} {ring : Ring} {e : Event}
    {v v' : View} (h : LocalStep server sid ring e v v') : v.wire <+: v'.wire := by
  cases h with
  | born => exact List.prefix_refl _
  | released => exact List.prefix_refl _
  | ignored => exact List.prefix_refl _
  | handled => exact List.prefix_refl _
  | performed => exact List.prefix_append _ _
  | refused => exact List.prefix_refl _
  | expiredFreed => exact List.prefix_refl _
  | expiredKept => exact List.prefix_refl _

/-- A closing session ignores its completions, and they are not the send. -/
theorem Owing.localStep {server : Server} {sid : SessionId} {ring : Ring} {e : Event}
    {v v' : View} {queued before : Bytes} (h : Owing sid queued before v)
    (hsend : ∀ n, e ≠ .kernelSend sid n) (hfail : ∀ more, e ≠ .kernelFail sid more)
    (htimer : e ≠ .expire sid) (hstep : LocalStep server sid ring e v v') :
    Owing sid queued before v' := by
  obtain ⟨s, hs, hopen, hclosing, hwriting, hop, hwire⟩ := h
  cases hstep with
  | born => simp [View.unused] at hs
  | released hcompletes hstatus hio =>
    obtain rfl := Option.some.inj hs
    simp [Session.hasPendingIo, IoState.any, hwriting] at hio
  | @ignored _ op next _ rest _ _ hcompletes hinactive hkept =>
    refine ⟨s, hs, hopen, hclosing, hwriting, ?_, hwire⟩
    rcases Multiset.mem_cons.mp hop with rfl | hmem
    · cases hcompletes
    · exact Multiset.mem_add.mpr (Or.inr hmem)
  | handled hcompletes hactive =>
    obtain rfl := Option.some.inj hs
    exact absurd (hclosing.symm.trans hactive) (by decide)
  | performed hn => exact absurd rfl (hsend _)
  | refused => exact absurd rfl (hfail _)
  | expiredFreed hio => exact absurd rfl htimer
  | expiredKept hio => exact absurd rfl htimer

theorem Worker.sound_of_reachable {server : Server} {entries : ℕ} {w : Worker}
    (h : Runs.Reachable (Worker.step server) (Worker.init entries) w) : w.Sound :=
  Runs.invariant_of_reachable (I := Worker.Sound) (fun _ _ _ hw => Worker.sound_step hw)
    (Worker.sound_init entries) h

/-- Along an unhindered run the send stays to come until it has put all its bytes on
the wire. -/
theorem Owing.step {server : Server} {w w' : Worker} {e : Event} {sid : SessionId}
    {queued before : Bytes} (hw : w.Sound) (h : Owing sid queued before (w.view sid))
    (hguard : Unhindered sid w e) (hstep : w.step server e = some w') :
    Owing sid queued before (w'.view sid) ∨ ∃ x y, w'.wire sid = before ++ x ++ queued ++ y := by
  by_cases hsend : ∃ n, e = .kernelSend sid n
  · obtain ⟨n, rfl⟩ := hsend
    cases Worker.step_cases hstep with
    | completes hcompletes => cases hcompletes
    | @performs _ region _ hnext hle hafter =>
      have hn : n = region.length := hguard rfl region hnext
      rw [hn, List.take_length] at hafter
      obtain ⟨s, hs, hopen, hclosing, hwriting, hop, x, hx⟩ := h
      rw [hafter]
      by_cases hregion : region = queued
      · refine Or.inr ⟨x, [], ?_⟩
        have hwire : w.wire sid = before ++ x := hx.symm
        show Function.update w.wire sid (w.wire sid ++ region) sid = before ++ x ++ queued ++ []
        rw [Function.update_self, hwire, hregion, List.append_nil]
      · obtain ⟨rest, hrest, hproceed⟩ := Worker.ops_proceed_self [.sent sid region.length]
          (Worker.mem_of_nextSend hnext) rfl
        have hmem : Op.send sid queued ∈ rest := by
          have hops : Op.send sid queued ∈ w.ops sid := hop
          rw [hrest] at hops
          refine (Multiset.mem_cons.mp hops).resolve_left fun heq => ?_
          exact hregion (Op.send.inj heq).2.symm
        refine Or.inl ⟨s, hs, hopen, hclosing, hwriting, ?_, ?_⟩
        · show Op.send sid queued ∈ (w.proceed (.send sid region) [.sent sid region.length]).ops sid
          rw [hproceed]
          exact Multiset.mem_add.mpr (Or.inr hmem)
        · show before <+: Function.update w.wire sid (w.wire sid ++ region) sid
          rw [Function.update_self]
          exact List.IsPrefix.trans ⟨x, hx⟩ (List.prefix_append _ _)
  · left
    obtain ⟨-, hrests | ⟨sid', hmoves⟩⟩ := Worker.moves_step hw hstep
    · rw [hrests.views]
      exact h
    · by_cases hne : sid = sid'
      · subst hne
        refine h.localStep (fun n heq => hsend ⟨n, heq⟩) (fun more heq => ?_) (fun heq => ?_)
          hmoves.moved
        · rw [heq] at hguard
          exact hguard rfl
        · rw [heq] at hguard
          exact hguard rfl
      · rw [hmoves.others sid hne]
        exact h

theorem Worker.wire_of_step {server : Server} {w w' : Worker} {e : Event} (hw : w.Sound)
    (hstep : w.step server e = some w') (sid : SessionId) : w.wire sid <+: w'.wire sid := by
  obtain ⟨-, hrests | ⟨sid', hmoves⟩⟩ := Worker.moves_step hw hstep
  · have hwire : w'.wire sid = w.wire sid := congrArg View.wire (hrests.views sid)
    exact hwire ▸ List.prefix_refl _
  · by_cases hne : sid = sid'
    · subst hne
      exact wire_of_localStep hmoves.moved
    · have hwire : w'.wire sid = w.wire sid := congrArg View.wire (hmoves.others sid hne)
      exact hwire ▸ List.prefix_refl _

theorem Owing.run {server : Server} {w w' : Worker} {es : List Event} {sid : SessionId}
    {queued before : Bytes} (hw : w.Sound) (h : Owing sid queued before (w.view sid))
    (hg : Runs.Guarded (Worker.step server) (Unhindered sid) w es)
    (hrun : Runs.run (Worker.step server) w es = some w') : QueueServed sid queued before w' := by
  have hinv : w'.Sound ∧ (Owing sid queued before (w'.view sid) ∨
      ∃ x y, w'.wire sid = before ++ x ++ queued ++ y) := by
    refine Runs.invariant_of_guarded (I := fun w : Worker => w.Sound ∧
      (Owing sid queued before (w.view sid) ∨ ∃ x y, w.wire sid = before ++ x ++ queued ++ y))
      ?_ ⟨hw, Or.inl h⟩ hg hrun
    rintro w e w' ⟨hw, howing | ⟨x, y, hwire⟩⟩ hguard hstep
    · exact ⟨Worker.sound_step hw hstep, howing.step hw hguard hstep⟩
    · obtain ⟨tail, htail⟩ := Worker.wire_of_step hw hstep sid
      refine ⟨Worker.sound_step hw hstep, Or.inr ⟨x, y ++ tail, ?_⟩⟩
      rw [← htail, hwire, List.append_assoc]
  obtain ⟨-, ⟨s, hs, hopen, -, -, hop, -⟩ | hwire⟩ := hinv
  · exact Or.inl ⟨s, hs, hopen, hop⟩
  · exact Or.inr hwire

theorem Handled.submits {server : Server} {ring : Ring} {sid : SessionId} {room now : ℕ}
    {bytes : Bytes} {s t : Session} {added : List Op} (hopen : s.isOpen = true)
    (hwriting : s.ioFlags.writing = false) (hroom : ring.full = false)
    (h : Handled server ring (.recv sid room (.data bytes) now) s t added)
    (hclosing : t.status = .closing) :
    t.writeBuffer.unread = [] ∨
      t.isOpen = true ∧ t.ioFlags.writing = true ∧ .send s.self t.writeBuffer.unread ∈ added := by
  cases h with
  | @data _ _ _ _ _ s₁ s₂ _ wOps rOps hin hwrite hread =>
    have hframe := Session.handles_takeInput hin
    have hflags : s₁.ioFlags.writing = false := by
      rw [hframe.flags_eq]
      exact hwriting
    have hsocket : s₁.isOpen = true := by
      unfold Session.isOpen
      rw [hframe.socket_eq]
      exact hopen
    have hinactive : s₂.status ≠ .active := by
      rw [← hread.status_eq, hclosing]
      decide
    cases hread with
    | receives hactive => exact absurd hactive hinactive
    | gaveUp hactive => exact absurd hactive hinactive
    | noEntry hactive => exact absurd hactive hinactive
    | idle =>
      cases hwrite with
      | sends hsize hidle =>
        have hself : s₁.self = s.self := hframe.self_eq
        refine Or.inr ⟨hsocket, rfl, ?_⟩
        rw [← hself]
        exact List.mem_append_left _ (List.mem_singleton_self _)
      | noEntry _ _ hfull => exact absurd (hroom.symm.trans hfull) Bool.false_ne_true
      | idle hquiet =>
        left
        rw [← BoundedQueue.size_eq_zero_iff]
        exact hquiet.resolve_right (by simp [hflags])
  | endClosed hres => exact absurd rfl (hres _)
  | endWaiting hres => exact absurd rfl (hres _)

/-- With IO_WRITING clear and an entry to be had, the decision submits the whole queue. -/
theorem owing_of_decision {server : Server} {w w' : Worker} {sid : SessionId} {room now : ℕ}
    {bytes : Bytes} {s t : Session} (hw : w.Sound) (hs : w.pool sid = some s)
    (hactive : s.status = .active) (hopen : s.isOpen = true) (hwriting : s.ioFlags.writing = false)
    (hroom : w.ring.full = false)
    (hstep : w.step server (.recv sid room (.data bytes) now) = some w')
    (ht : w'.pool sid = some t) (hclosing : t.status = .closing) :
    t.writeBuffer.unread = [] ∨ Owing sid t.writeBuffer.unread (w.wire sid) (w'.view sid) := by
  have hself := hw.keyed sid s hs
  obtain ⟨-, hrests | ⟨sid', hmoves⟩⟩ := Worker.moves_step hw hstep
  · exact absurd hrests.sessionless (by simp [Event.session?])
  obtain rfl : sid = sid' := by
    rcases hmoves.moved.session with hsid | ⟨hnone, -⟩
    · exact Option.some.inj hsid
    · simp [Event.session?] at hnone
  have hmoved := hmoves.moved
  have hview : (w.view sid).session = some s := hs
  have hview' : (w'.view sid).session = some t := ht
  generalize hv : w.view sid = v at hmoved hview
  generalize hv' : w'.view sid = v' at hmoved hview'
  cases hmoved with
  | released _ hstatus =>
    obtain rfl := Option.some.inj hview
    exact absurd (hactive.symm.trans hstatus) (by decide)
  | ignored _ hinactive =>
    obtain rfl := Option.some.inj hview
    exact absurd hactive hinactive
  | @handled _ op next added _ u t' rest linked linked' wire hcompletes _ hhandled htouched =>
    obtain rfl := Option.some.inj hview
    have hafter : t' = t := Option.some.inj hview'
    subst hafter
    have hwire : w.wire sid = wire := congrArg View.wire hv
    obtain ⟨hbuffer, hsocket, hstatus, hflags⟩ : t'.writeBuffer = u.writeBuffer ∧
        t'.socket = u.socket ∧ t'.status = u.status ∧ t'.ioFlags = u.ioFlags := by
      rcases htouched with ⟨rfl, -⟩ | ⟨⟨now, rfl⟩, -⟩ <;> exact ⟨rfl, rfl, rfl, rfl⟩
    rw [hbuffer]
    rcases hhandled.submits hopen hwriting hroom (hstatus ▸ hclosing) with hnil | ⟨ho, hf, hop⟩
    · exact Or.inl hnil
    · refine Or.inr ⟨t', rfl, ?_, hclosing, hflags ▸ hf, ?_, hwire ▸ List.prefix_refl _⟩
      · unfold Session.isOpen at ho ⊢
        rwa [hsocket]
      · rw [hself] at hop
        exact Multiset.mem_add.mpr (Or.inl (mem_opsOf.mpr ⟨hop, rfl⟩))

theorem Worker.wire_of_run {server : Server} {w w' : Worker} {es : List Event} (hw : w.Sound)
    (hrun : Runs.run (Worker.step server) w es = some w') (sid : SessionId) :
    w.wire sid <+: w'.wire sid := by
  have hinv : w'.Sound ∧ w.wire sid <+: w'.wire sid :=
    Runs.invariant_of_reachable (I := fun w' : Worker => w'.Sound ∧ w.wire sid <+: w'.wire sid)
      (fun _ _ _ ⟨hs, hwire⟩ hstep =>
        ⟨Worker.sound_step hs hstep, hwire.trans (Worker.wire_of_step hs hstep sid)⟩)
      ⟨hw, List.prefix_refl _⟩ ⟨es, hrun⟩
  exact hinv.2

/-- From w to w₁ an open session receives bytes and decides to close; IO_WRITING is clear
and the submission queue has an entry. -/
structure Decision (server : Server) (w w₁ : Worker) (sid : SessionId) (t : Session) : Prop where
  session : ∃ s, w.pool sid = some s ∧ s.status = .active ∧ s.isOpen = true ∧
    s.ioFlags.writing = false
  room : w.ring.full = false
  received : ∃ room bytes now, w.step server (.recv sid room (.data bytes) now) = some w₁
  decided : w₁.pool sid = some t ∧ t.status = .closing

/-- Both backends. On epoll, from any state between two events and over every run of
calls, what was queued goes first exactly when nothing comes between. On io_uring, from
any reachable decision, all that was queued is to be sent or has been sent. -/
theorem close_waits_for_queue (server : Server) :
    (∀ (c : Conversation) (calls : List SysCall) (p : Parting), AtRest c →
      Runs.run (Parting.step server) ⟨c, false⟩ calls = some p →
      ((∀ pre q, pre <+: calls → Runs.run (Parting.step server) ⟨c, false⟩ pre = some q →
          Drains q) ↔
        Runs.Guarded (Parting.step server) (Spares server.settings) ⟨c, false⟩ calls)) ∧
    ∀ (entries : ℕ) (w w₁ w₂ : Worker) (sid : SessionId) (t : Session) (es : List Event),
      Runs.Reachable (Worker.step server) (Worker.init entries) w → Decision server w w₁ sid t →
      Runs.Guarded (Worker.step server) (Unhindered sid) w₁ es →
      Runs.run (Worker.step server) w₁ es = some w₂ →
      QueueServed sid t.writeBuffer.unread (w.wire sid) w₂ := by
  refine ⟨fun c calls p hrest hrun => drains_iff_spares server c hrest calls p hrun, ?_⟩
  intro entries w w₁ w₂ sid t es hreach hdecision hg hrun
  have hw := Worker.sound_of_reachable hreach
  obtain ⟨s, hs, hactive, hopen, hwriting⟩ := hdecision.session
  obtain ⟨room, bytes, now, hstep⟩ := hdecision.received
  obtain ⟨ht, hclosing⟩ := hdecision.decided
  have hw₁ := Worker.sound_step hw hstep
  rcases owing_of_decision hw hs hactive hopen hwriting hdecision.room hstep ht hclosing with
    hnil | howing
  · obtain ⟨tail, htail⟩ := (Worker.wire_of_step hw hstep sid).trans
      (Worker.wire_of_run hw₁ hrun sid)
    refine Or.inr ⟨[], tail, ?_⟩
    rw [hnil, ← htail, List.append_nil, List.append_nil]
  · exact howing.run hw₁ hg hrun

def closedInTwo : List SysCall :=
  [.readable, .recv (.data closingRequest), .send (.sent 60), .send .wouldBlock, .writable,
    .send (.sent 50)]

def closingAccepted : List Event := [.accept 5 true, .submit]

def runClosing (es : List Event) : Option (Worker × Worker × Session × Worker) :=
  (Runs.run (Worker.step (bareServer .ioUring)) (Worker.init 8) closingAccepted).bind fun w =>
    (w.step (bareServer .ioUring) (.recv 0 16384 (.data closingRequest) 0)).bind fun w₁ =>
      (w₁.pool 0).bind fun t =>
        (Runs.run (Worker.step (bareServer .ioUring)) w₁ es).map fun w₂ => (w, w₁, t, w₂)

theorem decision_of_runClosing {es : List Event} {w w₁ w₂ : Worker} {t : Session}
    (h : runClosing es = some (w, w₁, t, w₂)) (hclosing : t.status = .closing) :
    Runs.run (Worker.step (bareServer .ioUring)) (Worker.init 8) closingAccepted = some w ∧
      Decision (bareServer .ioUring) w w₁ 0 t ∧
      Runs.run (Worker.step (bareServer .ioUring)) w₁ es = some w₂ := by
  unfold runClosing at h
  simp only [Option.bind_eq_some_iff, Option.map_eq_some_iff, Prod.mk.injEq] at h
  obtain ⟨v, hv, v₁, hv₁, s, hs, v₂, hv₂, rfl, rfl, rfl, rfl⟩ := h
  have hbefore : (Runs.run (Worker.step (bareServer .ioUring)) (Worker.init 8)
      closingAccepted).map (fun w => ((w.pool 0).map fun s =>
        (s.status, s.isOpen, s.ioFlags.writing), w.ring.full)) =
          some (some (.active, true, false), false) := by decide +kernel
  rw [hv] at hbefore
  simp only [Option.map_some, Option.some.injEq, Prod.mk.injEq, Option.map_eq_some_iff] at hbefore
  obtain ⟨⟨s₀, hs₀, hactive, hopen, hwriting⟩, hroom⟩ := hbefore
  exact ⟨hv, ⟨⟨s₀, hs₀, hactive, hopen, hwriting⟩, hroom, ⟨_, _, _, hv₁⟩, hs, hclosing⟩, hv₂⟩

theorem close_waits_for_queue_closingRequest :
    (∃ p : Parting,
      Runs.run (Parting.step (bareServer .epoll)) ⟨Conversation.start freshSession, false⟩
        closedInTwo = some p ∧ p.decided = true ∧ p.conversation.session.isOpen = false ∧
      ∀ (pre : List SysCall) (q : Parting), pre <+: closedInTwo →
        Runs.run (Parting.step (bareServer .epoll)) ⟨Conversation.start freshSession, false⟩ pre =
          some q → Drains q) ∧
    ∃ (w w₁ w₂ : Worker) (t : Session),
      Runs.run (Worker.step (bareServer .ioUring)) (Worker.init 8) closingAccepted = some w ∧
      Decision (bareServer .ioUring) w w₁ 0 t ∧
      Runs.run (Worker.step (bareServer .ioUring)) w₁ [.submit, .kernelSend 0 110] = some w₂ ∧
      QueueServed 0 t.writeBuffer.unread (w.wire 0) w₂ := by
  constructor
  · have hchecks : ((Runs.run (Parting.step (bareServer .epoll))
        ⟨Conversation.start freshSession, false⟩ closedInTwo).map fun p =>
          (p.decided, p.conversation.session.isOpen)) = some (true, false) := by decide +kernel
    obtain ⟨p, hrun, hp⟩ := Option.map_eq_some_iff.mp hchecks
    rw [Prod.mk.injEq] at hp
    have hg : Runs.Guarded (Parting.step (bareServer .epoll)) (Spares configJson)
        ⟨Conversation.start freshSession, false⟩ closedInTwo := by decide +kernel
    refine ⟨p, hrun, hp.1, hp.2, ?_⟩
    exact ((close_waits_for_queue (bareServer .epoll)).1 (Conversation.start freshSession)
      closedInTwo p ⟨rfl, rfl, rfl, EdgeKept.start _ rfl, by simp [Conversation.start]⟩ hrun).mpr hg
  · have hchecks : ((runClosing [.submit, .kernelSend 0 110]).map fun run =>
        (run.2.2.1.status, decide (Runs.Guarded (Worker.step (bareServer .ioUring)) (Unhindered 0)
          run.2.1 [.submit, .kernelSend 0 110]))) = some (.closing, true) := by decide +kernel
    obtain ⟨⟨w, w₁, t, w₂⟩, hrun, hc⟩ := Option.map_eq_some_iff.mp hchecks
    dsimp only at hc
    rw [Prod.mk.injEq, decide_eq_true_eq] at hc
    obtain ⟨hw, hdecision, hrun₂⟩ := decision_of_runClosing hrun hc.1
    exact ⟨w, w₁, w₂, t, hw, hdecision, hrun₂,
      (close_waits_for_queue (bareServer .ioUring)).2 8 w w₁ w₂ 0 t [.submit, .kernelSend 0 110]
        ⟨closingAccepted, hw⟩ hdecision hc.2 hrun₂⟩

/-- On epoll the echo of a CLOSE frame is queued and the socket closed without a send. On
io_uring the kernel takes 60 of the 110 bytes of a closing response, and when both
completions have been handled nothing is to come for the rest. -/
theorem queued_bytes_lost :
    (∃ p : Parting,
      Runs.run (Parting.step (bareServer .epoll))
        ⟨Conversation.start (upgradedSession ⟨none, none, none⟩), false⟩
        [.readable, .recv (.data [0x88, 0x80, 0, 0, 0, 0])] = some p ∧
      p.decided = true ∧ p.conversation.session.isOpen = false ∧
      p.conversation.session.writeBuffer.unread = [0x88, 0] ∧ p.conversation.lastSend = none ∧
      ¬ Drains p) ∧
    ∃ (w w₁ w₂ : Worker) (t : Session),
      Runs.run (Worker.step (bareServer .ioUring)) (Worker.init 8) closingAccepted = some w ∧
      Decision (bareServer .ioUring) w w₁ 0 t ∧
      Runs.run (Worker.step (bareServer .ioUring)) w₁
        [.submit, .kernelSend 0 60, .sent 0 60 0, .notif 0 0] = some w₂ ∧
      (w₂.wire 0).length = 60 ∧ t.writeBuffer.size = 110 ∧ w₂.ops 0 = 0 ∧
      ¬ QueueServed 0 t.writeBuffer.unread (w.wire 0) w₂ := by
  constructor
  · have hchecks : ((Runs.run (Parting.step (bareServer .epoll))
        ⟨Conversation.start (upgradedSession ⟨none, none, none⟩), false⟩
        [.readable, .recv (.data [0x88, 0x80, 0, 0, 0, 0])]).map fun p =>
          (p.decided, p.conversation.session.isOpen, p.conversation.session.writeBuffer.unread,
            p.conversation.lastSend)) = some (true, false, [0x88, 0], none) := by decide +kernel
    obtain ⟨p, hrun, hp⟩ := Option.map_eq_some_iff.mp hchecks
    simp only [Prod.mk.injEq] at hp
    obtain ⟨hdecided, hclosed, hqueue, hsend⟩ := hp
    refine ⟨p, hrun, hdecided, hclosed, hqueue, hsend, fun hdrains => ?_⟩
    refine hdrains.sentFirst hdecided ⟨hclosed, ?_, by simp [hsend]⟩
    rw [← BoundedQueue.length_unread, hqueue]
    exact Nat.zero_lt_succ 1
  · have hchecks : ((runClosing [.submit, .kernelSend 0 60, .sent 0 60 0, .notif 0 0]).map
        fun (_, _, t, w₂) => (t.status, (w₂.wire 0).length, t.writeBuffer.size, w₂.ops 0)) =
          some (.closing, 60, 110, 0) := by decide +kernel
    obtain ⟨⟨w, w₁, t, w₂⟩, hrun, hc⟩ := Option.map_eq_some_iff.mp hchecks
    simp only [Prod.mk.injEq] at hc
    obtain ⟨hclosing, hwire, hsize, hops⟩ := hc
    obtain ⟨hw, hdecision, hrun₂⟩ := decision_of_runClosing hrun hclosing
    refine ⟨w, w₁, w₂, t, hw, hdecision, hrun₂, hwire, hsize, hops, ?_⟩
    rintro (⟨s, -, -, hop⟩ | ⟨x, y, heq⟩)
    · rw [hops] at hop
      exact Multiset.notMem_zero _ hop
    · rw [heq] at hwire
      simp only [List.length_append, BoundedQueue.length_unread, hsize] at hwire
      omega

end WarpApi

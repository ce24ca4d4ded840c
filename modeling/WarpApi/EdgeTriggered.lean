import WarpApi.EpollCalls

/-!
What the edge-triggered sockets rely on. Between two events an open session has
either nothing queued or a send that found the socket full, and it has either read
until the socket was empty or stopped behind such a send. What the socket has taken
is always the front of what was written, whatever is appended meanwhile.
-/
namespace WarpApi

namespace Conversation

theorem writeBuffer_readNext (c : Conversation) (s : Session) :
    (c.readNext s).wire = c.wire ∧ (c.readNext s).session.writeBuffer = s.writeBuffer := by
  unfold readNext
  split_ifs <;> exact ⟨rfl, rfl⟩

theorem writeBuffer_returnWrite (c : Conversation) (s : Session) :
    (c.returnWrite s).wire = c.wire ∧ (c.returnWrite s).session.writeBuffer = s.writeBuffer := by
  unfold returnWrite
  split_ifs
  · exact c.writeBuffer_readNext s
  · exact ⟨rfl, rfl⟩
  · exact ⟨rfl, rfl⟩

theorem writeBuffer_flushNext (c : Conversation) (s : Session) :
    (c.flushNext s).wire = c.wire ∧ (c.flushNext s).session.writeBuffer = s.writeBuffer := by
  unfold flushNext
  split
  · exact c.writeBuffer_readNext s
  · exact ⟨rfl, rfl⟩

end Conversation

theorem writeBuffer_onWriteComplete (s : Session) :
    s.onWriteComplete.writeBuffer = s.writeBuffer := by
  unfold Session.onWriteComplete Session.note Session.close
  dsimp only
  split_ifs <;> rfl

/-- The socket has accepted exactly what lies in front of the read position. -/
def WireExact (c : Conversation) : Prop :=
  c.wire = c.session.writeBuffer.written.take c.session.writeBuffer.readPos

theorem WireExact.of_eq {c c' : Conversation} (h : WireExact c) (hwire : c'.wire = c.wire)
    (hbuffer : c'.session.writeBuffer = c.session.writeBuffer) : WireExact c' := by
  unfold WireExact
  rw [hwire, hbuffer]
  exact h

/-- What is appended lies behind the read position. -/
theorem WireExact.of_written {c c' : Conversation} (h : WireExact c) (hwire : c'.wire = c.wire)
    (hwritten : c.session.writeBuffer.written <+: c'.session.writeBuffer.written)
    (hpos : c'.session.writeBuffer.readPos = c.session.writeBuffer.readPos) : WireExact c' := by
  obtain ⟨tail, htail⟩ := hwritten
  unfold WireExact at h ⊢
  rw [hwire, hpos, ← htail, List.take_append_of_le_length c.session.writeBuffer.readPos_le, h]

theorem WireExact.accept {c : Conversation} (h : WireExact c) (n : ℕ)
    (hn : n ≤ c.session.writeBuffer.size) : WireExact (c.accept n) := by
  have hpos : c.session.writeBuffer.readPos + n ≤ c.session.writeBuffer.written.length := by
    have hread := c.session.writeBuffer.readPos_le
    unfold BoundedQueue.size at hn
    omega
  unfold WireExact at h ⊢
  show c.wire ++ c.session.writeBuffer.unread.take n = c.session.writeBuffer.written.take
    (min (c.session.writeBuffer.readPos + n) c.session.writeBuffer.written.length)
  rw [Nat.min_eq_left hpos, List.take_add, h]
  rfl

theorem WireExact.recv {server : Server} {c c' : Conversation} {r : RecvResult}
    (h : WireExact c) (hstep : c.recv server r = some c') : WireExact c' := by
  cases r with
  | data bytes =>
    obtain ⟨alive, s, hinput, rfl⟩ := Conversation.recv_data_eq_some hstep
    have hhandles := Handles.processInput server _ s alive hinput
    have hwritten : c.session.writeBuffer.written <+: s.writeBuffer.written := hhandles.written
    have hpos : s.writeBuffer.readPos = c.session.writeBuffer.readPos := hhandles.readPos_eq
    cases alive with
    | true =>
      obtain ⟨hwire, hbuffer⟩ := c.writeBuffer_flushNext s
      rw [← hbuffer] at hwritten hpos
      exact h.of_written hwire hwritten hpos
    | false => exact h.of_written rfl hwritten hpos
  | eof => exact Option.some.inj hstep ▸ h.of_eq rfl rfl
  | wouldBlock => exact Option.some.inj hstep ▸ h.of_eq rfl rfl
  | error => exact Option.some.inj hstep ▸ h.of_eq rfl rfl

theorem WireExact.send {c c' : Conversation} {r : SendResult} (h : WireExact c)
    (hstep : c.send r = some c') : WireExact c' := by
  cases r with
  | sent n =>
    obtain ⟨-, hn, ⟨-, rfl⟩ | ⟨-, rfl⟩⟩ := Conversation.send_sent_eq_some hstep
    · obtain ⟨hwire, hbuffer⟩ := (c.accept n).writeBuffer_returnWrite
        (c.accept n).session.onWriteComplete
      exact (h.accept n hn).of_eq hwire (hbuffer.trans (writeBuffer_onWriteComplete _))
    · exact h.accept n hn
  | wouldBlock =>
    rw [← Option.some.inj hstep]
    obtain ⟨hwire, hbuffer⟩ :=
      { c with lastSend := some .wouldBlock }.writeBuffer_returnWrite c.session
    exact h.of_eq hwire hbuffer
  | error =>
    rw [← Option.some.inj hstep]
    obtain ⟨hwire, hbuffer⟩ :=
      { c with lastSend := some .error }.writeBuffer_returnWrite c.session.close
    exact h.of_eq hwire hbuffer

theorem WireExact.step {server : Server} {c c' : Conversation} {call : SysCall}
    (h : WireExact c) (hstep : Conversation.step server c call = some c') : WireExact c' := by
  cases call with
  | readable =>
    dsimp only [Conversation.step] at hstep
    split_ifs at hstep
    obtain ⟨hwire, hbuffer⟩ := c.writeBuffer_readNext c.session
    exact Option.some.inj hstep ▸ h.of_eq hwire hbuffer
  | writable =>
    dsimp only [Conversation.step] at hstep
    split_ifs at hstep <;> exact Option.some.inj hstep ▸ h.of_eq rfl rfl
  | recv r =>
    dsimp only [Conversation.step] at hstep
    split_ifs at hstep
    exact h.recv hstep
  | send r =>
    dsimp only [Conversation.step] at hstep
    split_ifs at hstep
    exact h.send hstep

/-- A call, or something else that appends to the write buffer in between. -/
def Conversation.stepOrAppend (server : Server) (c : Conversation) :
    SysCall ⊕ Bytes → Option Conversation
  | .inl call => c.step server call
  | .inr bytes =>
    some { c with
      session := { c.session with writeBuffer := c.session.writeBuffer.push bytes } }

def answeredInPart : List SysCall :=
  [.readable, .recv (.data (ascii "GET /a HTTP/1.1\r\n\r\n")), .send (.sent 10),
    .send .wouldBlock]

theorem exists_answeredInPart :
    ∃ c : Conversation, Runs.run (Conversation.step (bareServer .epoll))
        (Conversation.start (Session.init configJson 0 5)) answeredInPart = some c ∧
      c.phase = .idle ∧ c.session.isOpen = true ∧ 0 < c.session.writeBuffer.size := by
  have hchecks : ((Runs.run (Conversation.step (bareServer .epoll))
      (Conversation.start (Session.init configJson 0 5)) answeredInPart).map fun c =>
        (c.phase, c.session.isOpen, decide (0 < c.session.writeBuffer.size))) =
      some (.idle, true, true) := by decide +kernel
  rw [Option.map_eq_some_iff] at hchecks
  obtain ⟨c, hrun, hc⟩ := hchecks
  simp only [Prod.mk.injEq, decide_eq_true_eq] at hc
  exact ⟨c, hrun, hc⟩

/-- However reads, partial sends, failures, closes and appends alternate, the bytes that
the socket has accepted and the unread ones are together all that was ever written. -/
theorem wire_append_unread (server : Server) (s : Session) (moves : List (SysCall ⊕ Bytes))
    (c : Conversation)
    (hrun : Runs.run (Conversation.stepOrAppend server) (Conversation.start s) moves = some c) :
    c.wire ++ c.session.writeBuffer.unread = c.session.writeBuffer.written := by
  have hexact : WireExact c := by
    refine Runs.invariant_of_reachable (I := WireExact) ?_ ?_ ⟨moves, hrun⟩
    · intro c move c' h hstep
      cases move with
      | inl call => exact h.step hstep
      | inr bytes =>
        rw [← Option.some.inj hstep]
        exact h.of_written rfl (BoundedQueue.written_prefix_push _ _) rfl
    · rfl
  unfold WireExact at hexact
  rw [hexact, BoundedQueue.unread, List.take_append_drop]

/-- A second answer is appended while the first one waits, and the socket takes some of
both before it fails. -/
theorem wire_append_unread_twice :
    ∃ c : Conversation, Runs.run (Conversation.stepOrAppend (bareServer .epoll))
        (Conversation.start (Session.init configJson 0 5))
        (answeredInPart.map .inl ++ [.inr (ascii "more"), .inl .writable, .inl (.send (.sent 106)),
          .inl (.send .error)]) = some c ∧
      (c.session.isOpen = false ∧ c.session.writeBuffer.size = 3) ∧
      c.wire ++ c.session.writeBuffer.unread = c.session.writeBuffer.written := by
  have hchecks : ((Runs.run (Conversation.stepOrAppend (bareServer .epoll))
      (Conversation.start (Session.init configJson 0 5))
      (answeredInPart.map .inl ++ [.inr (ascii "more"), .inl .writable, .inl (.send (.sent 106)),
        .inl (.send .error)])).map fun c => (c.session.isOpen, c.session.writeBuffer.size)) =
      some (false, 3) := by decide +kernel
  rw [Option.map_eq_some_iff] at hchecks
  obtain ⟨c, hrun, hc⟩ := hchecks
  rw [Prod.mk.injEq] at hc
  exact ⟨c, hrun, hc, wire_append_unread (bareServer .epoll) _ _ c hrun⟩

/-- What holds of a session whenever it may have to wait for an edge. -/
structure EdgeKept (c : Conversation) : Prop where
  busy : c.phase ≠ .idle → c.session.isOpen = true
  blocked : c.phase = .idle ∨ c.phase = .reading → c.session.isOpen = true →
    0 < c.session.writeBuffer.size → c.lastSend = some .wouldBlock
  stopped : c.session.isOpen = true → ∀ r, c.lastRead = some r → r.drained = false →
    0 < r.queued ∧ r.lastSend = some .wouldBlock

theorem isOpen_close (s : Session) : s.close.isOpen = false := by
  simp [Session.close, Session.isOpen]

namespace EdgeKept

variable {server : Server} {c c' : Conversation}

theorem start (s : Session) (hempty : s.writeBuffer.size = 0) :
    EdgeKept (Conversation.start s) where
  busy hidle := absurd rfl hidle
  blocked _ _ hpos := absurd hempty hpos.ne'
  stopped _ r hr := by simp [Conversation.start] at hr

theorem of_closed (hidle : c.phase = .idle) (hclosed : c.session.isOpen = false) : EdgeKept c where
  busy hphase := absurd hidle hphase
  blocked _ hopen := absurd (hclosed.symm.trans hopen) Bool.false_ne_true
  stopped hopen := absurd (hclosed.symm.trans hopen) Bool.false_ne_true

theorem readNext (s : Session)
    (hblocked : s.isOpen = true → 0 < s.writeBuffer.size → c.lastSend = some .wouldBlock)
    (hstopped : s.isOpen = true → ∀ r, c.lastRead = some r → r.drained = false →
      0 < r.queued ∧ r.lastSend = some .wouldBlock) : EdgeKept (c.readNext s) := by
  unfold Conversation.readNext
  split_ifs with hfree hclosed
  · exact of_closed rfl (isOpen_close s)
  · exact of_closed rfl (isOpen_close s)
  · exact ⟨fun _ => by simpa using hclosed, fun _ => hblocked, hstopped⟩

theorem recv {r : RecvResult} (h : EdgeKept c) (hphase : c.phase = .reading)
    (hstep : c.recv server r = some c') : EdgeKept c' := by
  have hopen : c.session.isOpen = true := h.busy (by simp [hphase])
  cases r with
  | data bytes =>
    obtain ⟨alive, s, hinput, rfl⟩ := Conversation.recv_data_eq_some hstep
    cases alive with
    | true =>
      have hsocket : s.isOpen = true := by
        have heq := (Handles.processInput server _ s true hinput).socket_eq
        unfold Session.isOpen
        rw [heq]
        exact hopen
      have hstopped := h.stopped hopen
      simp only [if_true]
      unfold Conversation.flushNext
      split_ifs with hsize
      · exact readNext s (fun _ hpos => absurd hsize hpos.ne') fun _ => hstopped
      · exact ⟨fun _ => hsocket, fun hphase => by simp at hphase, fun _ => hstopped⟩
    | false => exact of_closed rfl (isOpen_close _)
  | eof => exact Option.some.inj hstep ▸ of_closed rfl (isOpen_close _)
  | wouldBlock =>
    rw [← Option.some.inj hstep]
    refine ⟨fun hidle => absurd rfl hidle, fun _ => h.blocked (Or.inr hphase), ?_⟩
    intro _ r hr hdrained
    rw [← Option.some.inj hr] at hdrained
    simp at hdrained
  | error => exact Option.some.inj hstep ▸ of_closed rfl (isOpen_close _)

theorem returnWrite (s : Session)
    (hblocked : s.isOpen = true → 0 < s.writeBuffer.size → c.lastSend = some .wouldBlock)
    (hstopped : s.isOpen = true → ∀ r, c.lastRead = some r → r.drained = false →
      0 < r.queued ∧ r.lastSend = some .wouldBlock) : EdgeKept (c.returnWrite s) := by
  unfold Conversation.returnWrite
  split_ifs with hphase hsize
  · exact readNext s hblocked hstopped
  · refine ⟨fun hidle => absurd rfl hidle, fun _ => hblocked, fun hopen r hr _ => ?_⟩
    have hpos : 0 < s.writeBuffer.size := Nat.pos_of_ne_zero hsize
    rw [← Option.some.inj hr]
    exact ⟨hpos, hblocked hopen hpos⟩
  · exact ⟨fun hidle => absurd rfl hidle, fun _ => hblocked, hstopped⟩

theorem send {r : SendResult} (h : EdgeKept c)
    (hphase : c.phase = .flushing ∨ c.phase = .writing) (hstep : c.send r = some c') :
    EdgeKept c' := by
  have hopen : c.session.isOpen = true :=
    h.busy (by rcases hphase with hphase | hphase <;> simp [hphase])
  have hstopped := h.stopped hopen
  cases r with
  | sent n =>
    obtain ⟨-, -, ⟨hdone, rfl⟩ | ⟨-, rfl⟩⟩ := Conversation.send_sent_eq_some hstep
    · refine returnWrite _ (fun _ hpos => ?_) fun _ => hstopped
      rw [writeBuffer_onWriteComplete, hdone] at hpos
      exact absurd hpos (Nat.lt_irrefl 0)
    · refine ⟨fun _ => hopen, fun hquiet => ?_, fun _ => hstopped⟩
      have hkept : (c.accept n).phase = c.phase := rfl
      rw [hkept] at hquiet
      rcases hphase with hphase | hphase <;> simp [hphase] at hquiet
  | wouldBlock =>
    rw [← Option.some.inj hstep]
    exact returnWrite _ (fun _ _ => rfl) fun _ => hstopped
  | error =>
    rw [← Option.some.inj hstep]
    refine returnWrite _ (fun hclosed => ?_) fun hclosed => ?_
    · exact absurd ((isOpen_close _).symm.trans hclosed) (by simp)
    · exact absurd ((isOpen_close _).symm.trans hclosed) (by simp)

theorem step {call : SysCall} (h : EdgeKept c)
    (hstep : Conversation.step server c call = some c') : EdgeKept c' := by
  cases call with
  | readable =>
    dsimp only [Conversation.step] at hstep
    split_ifs at hstep with hidle
    exact Option.some.inj hstep ▸ readNext _ (h.blocked (Or.inl hidle)) h.stopped
  | writable =>
    dsimp only [Conversation.step] at hstep
    split_ifs at hstep with hidle hsize hclosed
    · exact Option.some.inj hstep ▸ h
    · exact Option.some.inj hstep ▸ of_closed hidle (isOpen_close _)
    · rw [← Option.some.inj hstep]
      exact ⟨fun _ => by simpa using hclosed, fun hquiet => by simp at hquiet, h.stopped⟩
  | recv r =>
    dsimp only [Conversation.step] at hstep
    split_ifs at hstep with hphase
    exact h.recv hphase hstep
  | send r =>
    dsimp only [Conversation.step] at hstep
    split_ifs at hstep with hphase
    exact h.send hphase hstep

end EdgeKept

/-- Between two events an open session is not left with unsent or unread bytes that no
edge will announce. -/
theorem no_edge_lost (server : Server) (s : Session) (hempty : s.writeBuffer.size = 0)
    (calls : List SysCall) (c : Conversation)
    (hrun : Runs.run (Conversation.step server) (Conversation.start s) calls = some c)
    (hidle : c.phase = .idle) (hopen : c.session.isOpen = true) :
    (0 < c.session.writeBuffer.size → c.lastSend = some .wouldBlock) ∧
      ∀ r, c.lastRead = some r → r.drained = false →
        0 < r.queued ∧ r.lastSend = some .wouldBlock := by
  have hkept : EdgeKept c :=
    Runs.invariant_of_reachable (I := EdgeKept) (fun c call c' h => h.step)
      (EdgeKept.start s hempty) ⟨calls, hrun⟩
  exact ⟨hkept.blocked (Or.inl hidle) hopen, hkept.stopped hopen⟩

theorem no_edge_lost_answeredInPart :
    ∃ c : Conversation, Runs.run (Conversation.step (bareServer .epoll))
        (Conversation.start (Session.init configJson 0 5)) answeredInPart = some c ∧
      0 < c.session.writeBuffer.size ∧
      ((0 < c.session.writeBuffer.size → c.lastSend = some .wouldBlock) ∧
        ∀ r, c.lastRead = some r → r.drained = false →
          0 < r.queued ∧ r.lastSend = some .wouldBlock) := by
  obtain ⟨c, hrun, hphase, hopen, hsize⟩ := exists_answeredInPart
  exact ⟨c, hrun, hsize, no_edge_lost (bareServer .epoll) (Session.init configJson 0 5) rfl
    answeredInPart c hrun hphase hopen⟩

end WarpApi

import WarpApi.CloseFrames
import WarpApi.CloseHonoured
import WarpApi.EdgeTriggered
import WarpApi.Handshake

/-!
What is still queued when the epoll backend closes a socket. The server decides to
close by a response that says so or by a frame that it answers with a CLOSE; the
queue is meant to be sent first. Behind a response it is, unless the read side
closes the socket before; behind a frame the socket is closed at once.
-/
namespace WarpApi

/-- A message, a ping or a pong, in one piece. -/
def Frame.goesOn (f : Frame) : Bool :=
  f.fin && (f.opcode = wsOpText || f.opcode = wsOpBinary || f.opcode = wsOpPing ||
    f.opcode = wsOpPong)

def framesIn (settings : SettingsData) : ℕ → Bytes → List Frame
  | 0, _ => []
  | turns + 1, data =>
    match nextFrame settings data with
    | .frame opcode fin payload consumed =>
      ⟨opcode, fin, payload⟩ :: framesIn settings turns (data.drop consumed)
    | _ => []

/-- There is a CLOSE among the frames, or one that is answered with a CLOSE. -/
def asksToClose (settings : SettingsData) (data : Bytes) : Bool :=
  (framesIn settings (data.length + 1) data).any fun f => !f.goesOn

theorem goesOn_iff (turn : Turn) : turn.goesOn ↔ turn.frame.goesOn = true := by
  unfold Turn.goesOn Turn.isMessage Turn.isPong Frame.goesOn
  simp only [Bool.and_eq_true, Bool.or_eq_true, decide_eq_true_eq]
  tauto

theorem dispatchFrame_fst (s : Session) (f : Frame) :
    (s.dispatchFrame f.opcode f.fin f.payload).1 = f.goesOn := by
  unfold Session.dispatchFrame Frame.goesOn
  cases f.fin with
  | false => rfl
  | true =>
    rw [if_neg (by simp), Bool.true_and]
    split_ifs with hdata hping hpong hclose
    · rcases hdata with hop | hop <;> simp [hop]
    · simp [hping]
    · simp [hpong]
    · rw [hclose]
      rfl
    · simp_all [Session.sendProtocolClose]

namespace FrameRun

variable {settings : SettingsData} {s t : Session} {turns : List Turn} {alive : Bool}

theorem framesIn_eq (h : FrameRun settings s turns alive t) (fuel : ℕ)
    (hfuel : s.readBuffer.unread.length < fuel) :
    ((framesIn settings fuel s.readBuffer.unread).any fun f => !f.goesOn) =
      turns.any fun turn => !turn.frame.goesOn := by
  induction h generalizing fuel with
  | wait hnext =>
    obtain ⟨fuel, rfl⟩ : ∃ k, fuel = k + 1 := ⟨fuel - 1, by omega⟩
    rw [framesIn, hnext]
    rfl
  | reject hnext =>
    obtain ⟨fuel, rfl⟩ : ∃ k, fuel = k + 1 := ⟨fuel - 1, by omega⟩
    rw [framesIn, hnext]
    rfl
  | @next s s' t u f n turns alive hnext hs hd htail ih =>
    obtain ⟨fuel, rfl⟩ : ∃ k, fuel = k + 1 := ⟨fuel - 1, by omega⟩
    have hconsumed := nextFrame_consumed hnext
    have hread : t.readBuffer.unread = s.readBuffer.unread.drop n := by
      rw [turn_readBuffer hs hd, BoundedQueue.unread_advance]
    rw [hread] at ih
    rw [framesIn, hnext]
    simp only [List.any_cons]
    rw [ih fuel (by rw [List.length_drop]; omega)]
  | @last s s' t f n hnext hs hd =>
    obtain ⟨fuel, rfl⟩ : ∃ k, fuel = k + 1 := ⟨fuel - 1, by omega⟩
    have hstops : f.goesOn = false := by
      rw [← dispatchFrame_fst s' f, hd]
    rw [framesIn, hnext]
    simp [hstops]

theorem asksToClose_iff (h : FrameRun settings s turns alive t) :
    asksToClose settings s.readBuffer.unread = true ↔ ∃ turn ∈ turns, ¬ turn.goesOn := by
  unfold asksToClose
  rw [h.framesIn_eq _ (Nat.lt_succ_self _), List.any_eq_true]
  simp only [goesOn_iff, Bool.not_eq_true, Bool.not_eq_eq_eq_not, Bool.not_true]

/-- A run that goes on has dispatched no such frame. -/
theorem asksToClose_of_alive (h : FrameRun settings s turns true t) :
    asksToClose settings s.readBuffer.unread = false := by
  rw [Bool.eq_false_iff]
  intro hasks
  obtain ⟨turn, hmem, hstops⟩ := h.asksToClose_iff.mp hasks
  exact hstops (h.goesOn turn hmem)

/-- The dispatch that ends a run puts a CLOSE into the queue. -/
theorem size_of_asksToClose (h : FrameRun settings s turns alive t)
    (hsent : s.wsState.closeSent = false)
    (hasks : asksToClose settings s.readBuffer.unread = true) :
    t.writeBuffer.size = 0 ↔ s.writeBuffer.capacity = 0 := by
  obtain ⟨turn, hmem, hstops⟩ := h.asksToClose_iff.mp hasks
  have hsends := h.sends fun _ _ _ => hsent
  have hnotSilent : ¬ turn.isSilent := by
    rintro (hpong | ⟨hmessage, -⟩)
    · exact hstops (Or.inr (Or.inl hpong))
    · exact hstops (Or.inl hmessage)
  have hturns : sentFrames (turns.flatMap (Turn.entries s.handlesMessages s.handlesClose)) =
      turns.flatMap (Turn.sent s.handlesMessages s.handlesClose) := List.filterMap_flatMap ..
  obtain ⟨f, fs, hframes⟩ : ∃ f fs,
      turns.flatMap (Turn.sent s.handlesMessages s.handlesClose) = f :: fs := by
    apply List.exists_cons_of_ne_nil
    rw [Ne, flatMap_sent_eq_nil_iff turns h.fits]
    exact fun hall => hnotSilent (hall turn hmem)
  have hpos : 0 < (((f :: fs).flatMap Frame.bytes).length) := by
    rw [List.flatMap_cons, List.length_append, Frame.bytes, frameHeader]
    simp only [List.length_append, List.length_cons]
    omega
  have hout := hsends.out
  rw [hturns, hframes] at hout
  have hspace := s.writeBuffer.size_add_free
  rw [hout, BoundedQueue.size_push]
  omega

end FrameRun

/-- A conversation, and whether the server has decided to close the connection. -/
structure Parting where
  conversation : Conversation
  decided : Bool

/-- A recv behind which the server wants to close: a response says so, or a frame does. -/
def decides (settings : SettingsData) (c c' : Conversation) : SysCall → Bool
  | .recv (.data bytes) =>
    match c.session.mode with
    | .http => c'.session.log.any Obs.closes
    | .webSocket => asksToClose settings (c.session.receive bytes).readBuffer.unread
  | _ => false

theorem decides_of_silent {settings : SettingsData} {c c' : Conversation} {call : SysCall}
    (hsilent : ∀ bytes, call ≠ .recv (.data bytes)) : decides settings c c' call = false := by
  unfold decides
  split
  · exact absurd rfl (hsilent _)
  · rfl

def Parting.step (server : Server) (p : Parting) (call : SysCall) : Option Parting :=
  (p.conversation.step server call).map fun c =>
    ⟨c, p.decided || decides server.settings p.conversation c call⟩

/-- Only a recv that brings bytes can decide on a close. -/
theorem Parting.step_cases {server : Server} {p p' : Parting} {call : SysCall}
    (hstep : p.step server call = some p') :
    (∃ bytes c', p.conversation.phase = .reading ∧
        p.conversation.recv server (.data bytes) = some c' ∧ call = .recv (.data bytes) ∧
        p' = ⟨c', p.decided ||
          decides server.settings p.conversation c' (.recv (.data bytes))⟩) ∨
      (∀ bytes, call ≠ .recv (.data bytes)) ∧
        ∃ c', p.conversation.step server call = some c' ∧ p' = ⟨c', p.decided⟩ := by
  unfold Parting.step at hstep
  rw [Option.map_eq_some_iff] at hstep
  obtain ⟨c', hcall, rfl⟩ := hstep
  by_cases hdata : ∃ bytes, call = .recv (.data bytes)
  · obtain ⟨bytes, rfl⟩ := hdata
    dsimp only [Conversation.step] at hcall
    split_ifs at hcall with hphase
    exact Or.inl ⟨bytes, c', hphase, hcall, rfl, rfl⟩
  · have hsilent : ∀ bytes, call ≠ .recv (.data bytes) := fun bytes heq => hdata ⟨bytes, heq⟩
    rw [decides_of_silent hsilent, Bool.or_false]
    exact Or.inr ⟨hsilent, c', hcall, rfl⟩

/-- The socket was closed on bytes that no send has failed to take. -/
def Lost (c : Conversation) : Prop :=
  c.session.isOpen = false ∧ 0 < c.session.writeBuffer.size ∧ c.lastSend ≠ some .error

/-- A close that was decided on waits for the queue, and what a partial send leaves is
sent again: at once, or at the edge behind a send that found the socket full. -/
structure Drains (p : Parting) : Prop where
  sentFirst : p.decided = true → ¬ Lost p.conversation
  sentAgain : p.conversation.phase = .idle → p.conversation.session.isOpen = true →
    0 < p.conversation.session.writeBuffer.size → p.conversation.lastSend = some .wouldBlock

/-- Nothing comes between the decision and the last send: the read side finds no end of
the stream, no error and no full buffer, and a frame does not decide. -/
def Spares (settings : SettingsData) (p : Parting) : SysCall → Prop
  | .readable => p.decided = true → p.conversation.session.isOpen = true →
      p.conversation.session.readBuffer.free = 0 → p.conversation.session.writeBuffer.size = 0
  | .recv (.data bytes) => p.conversation.session.mode = .webSocket →
      asksToClose settings (p.conversation.session.receive bytes).readBuffer.unread = true →
      p.conversation.session.writeBuffer.capacity = 0
  | .recv .wouldBlock => True
  | .recv _ => p.decided = true → p.conversation.session.writeBuffer.size = 0
  | _ => True

instance (settings : SettingsData) (p : Parting) : ∀ call, Decidable (Spares settings p call)
  | .readable => inferInstanceAs (Decidable (_ = true → _ = true → _ = 0 → _ = 0))
  | .writable => .isTrue trivial
  | .recv (.data _) => inferInstanceAs (Decidable (_ = ProtocolMode.webSocket → _ = true → _ = 0))
  | .recv .wouldBlock => .isTrue trivial
  | .recv .eof => inferInstanceAs (Decidable (_ = true → _ = 0))
  | .recv .error => inferInstanceAs (Decidable (_ = true → _ = 0))
  | .send _ => .isTrue trivial

/-- A step that processes no bytes keeps the protocol state and opens no socket. -/
structure SameProtocol (s t : Session) : Prop where
  mode_eq : t.mode = s.mode
  wsState_eq : t.wsState = s.wsState
  isOpen : t.isOpen = true → s.isOpen = true

namespace SameProtocol

theorem refl (s : Session) : SameProtocol s s := ⟨rfl, rfl, id⟩

theorem trans {s t u : Session} (h : SameProtocol s t) (h' : SameProtocol t u) :
    SameProtocol s u :=
  ⟨h'.mode_eq.trans h.mode_eq, h'.wsState_eq.trans h.wsState_eq, fun hu => h.isOpen (h'.isOpen hu)⟩

theorem close (s : Session) : SameProtocol s s.close :=
  ⟨rfl, rfl, fun h => absurd ((isOpen_close s).symm.trans h) (by simp)⟩

theorem onWriteComplete (s : Session) : SameProtocol s s.onWriteComplete := by
  unfold Session.onWriteComplete
  dsimp only
  split_ifs
  · exact ⟨rfl, rfl, id⟩
  · exact ⟨rfl, rfl, id⟩
  · exact ⟨rfl, rfl, (close s).isOpen⟩

theorem readNext (c : Conversation) (s : Session) : SameProtocol s (c.readNext s).session := by
  unfold Conversation.readNext
  split_ifs
  · exact close s
  · exact close s
  · exact refl s

theorem flushNext (c : Conversation) (s : Session) : SameProtocol s (c.flushNext s).session := by
  unfold Conversation.flushNext
  split
  · exact readNext c s
  · exact refl s

theorem returnWrite (c : Conversation) (s : Session) :
    SameProtocol s (c.returnWrite s).session := by
  unfold Conversation.returnWrite
  split_ifs
  · exact readNext c s
  · exact refl s
  · exact refl s

theorem send {c c' : Conversation} {r : SendResult} (h : c.send r = some c') :
    SameProtocol c.session c'.session := by
  cases r with
  | sent n =>
    have haccept : SameProtocol c.session (c.accept n).session := ⟨rfl, rfl, id⟩
    obtain ⟨-, -, ⟨-, rfl⟩ | ⟨-, rfl⟩⟩ := Conversation.send_sent_eq_some h
    · exact (haccept.trans (onWriteComplete _)).trans (returnWrite _ _)
    · exact haccept
  | wouldBlock => exact Option.some.inj h ▸ returnWrite _ _
  | error => exact Option.some.inj h ▸ (close c.session).trans (returnWrite _ _)

end SameProtocol

theorem lastSend_readNext (c : Conversation) (s : Session) :
    (c.readNext s).lastSend = c.lastSend := by
  unfold Conversation.readNext
  split_ifs <;> rfl

theorem lastSend_flushNext (c : Conversation) (s : Session) :
    (c.flushNext s).lastSend = c.lastSend := by
  unfold Conversation.flushNext
  split
  · exact lastSend_readNext c s
  · rfl

theorem lastSend_returnWrite (c : Conversation) (s : Session) :
    (c.returnWrite s).lastSend = c.lastSend := by
  unfold Conversation.returnWrite
  split_ifs
  · exact lastSend_readNext c s
  · rfl
  · rfl

theorem processInput_webSocket {server : Server} {s t : Session} {alive : Bool}
    (hmode : s.mode = .webSocket) (h : s.processInput server = some (alive, t)) :
    ∃ turns, FrameRun server.settings s turns alive t := by
  unfold Session.processInput at h
  rw [hmode] at h
  simp only [Session.processFrames_eq, Option.map_eq_some_iff] at h
  obtain ⟨⟨turns, out⟩, hturns, rfl⟩ := h
  exact ⟨turns, FrameRun.of_processTurns hturns⟩

theorem lost_readNext_iff (c : Conversation) (s : Session) :
    Lost (c.readNext s) ↔ (s.readBuffer.free = 0 ∨ s.isOpen = false) ∧
      0 < s.writeBuffer.size ∧ c.lastSend ≠ some .error := by
  unfold Lost
  rw [lastSend_readNext, (c.writeBuffer_readNext s).2]
  refine and_congr_left fun _ => ?_
  unfold Conversation.readNext
  split_ifs with hfree hclosed
  · exact ⟨fun _ => Or.inl hfree, fun _ => isOpen_close s⟩
  · exact ⟨fun _ => Or.inr (by simpa using hclosed), fun _ => isOpen_close s⟩
  · exact ⟨Or.inr, fun h => h.resolve_left hfree⟩

theorem not_lost_flushNext {c : Conversation} {s : Session} (hopen : s.isOpen = true) :
    ¬ Lost (c.flushNext s) := by
  unfold Conversation.flushNext
  split_ifs with hsize
  · rw [lost_readNext_iff]
    rintro ⟨-, hpos, -⟩
    exact absurd hsize hpos.ne'
  · rintro ⟨hclosed, -⟩
    exact absurd (hclosed.symm.trans hopen) Bool.false_ne_true

theorem not_lost_returnWrite {c : Conversation} {s : Session}
    (h : s.isOpen = true ∨ s.writeBuffer.size = 0 ∨ c.lastSend = some .error) :
    ¬ Lost (c.returnWrite s) := by
  rintro ⟨hclosed, hpos, hsend⟩
  rw [lastSend_returnWrite] at hsend
  rw [(c.writeBuffer_returnWrite s).2] at hpos
  have hopen : s.isOpen = true :=
    h.resolve_right fun hdone => hdone.elim (fun hzero => hpos.ne' hzero) hsend
  unfold Conversation.returnWrite at hclosed
  split_ifs at hclosed with hphase hsize
  · exact hpos.ne' hsize
  · exact absurd (hclosed.symm.trans hopen) Bool.false_ne_true
  · exact absurd (hclosed.symm.trans hopen) Bool.false_ne_true

structure DecisionKept (p : Parting) : Prop where
  edge : EdgeKept p.conversation
  failed : p.conversation.lastSend = some .error → p.conversation.session.isOpen = false
  mode : p.decided = true → p.conversation.session.isOpen = true →
    p.conversation.session.mode = .http
  unsent : p.conversation.session.mode = .webSocket → p.conversation.session.isOpen = true →
    p.conversation.session.wsState.closeSent = false

namespace DecisionKept

variable {server : Server} {p p' : Parting} {call : SysCall}

theorem of_sameProtocol {c : Conversation} (h : DecisionKept p) (hedge : EdgeKept c)
    (hsame : SameProtocol p.conversation.session c.session)
    (hfailed : c.lastSend = some .error → c.session.isOpen = false) :
    DecisionKept ⟨c, p.decided⟩ where
  edge := hedge
  failed := hfailed
  mode hdecided hopen := hsame.mode_eq.trans (h.mode hdecided (hsame.isOpen hopen))
  unsent hmode hopen := by
    rw [hsame.wsState_eq]
    exact h.unsent (hsame.mode_eq.symm.trans hmode) (hsame.isOpen hopen)

theorem of_lastSend_eq {c : Conversation} (h : DecisionKept p) (hedge : EdgeKept c)
    (hsame : SameProtocol p.conversation.session c.session)
    (hsend : c.lastSend = p.conversation.lastSend) : DecisionKept ⟨c, p.decided⟩ := by
  refine h.of_sameProtocol hedge hsame fun herror => ?_
  rw [Bool.eq_false_iff]
  intro hopen
  exact absurd ((h.failed (hsend.symm.trans herror)).symm.trans (hsame.isOpen hopen)) (by simp)

theorem failed_send {c c' : Conversation} {r : SendResult} (h : c.send r = some c')
    (herror : c'.lastSend = some .error) : c'.session.isOpen = false := by
  cases r with
  | sent n =>
    obtain ⟨-, -, ⟨-, rfl⟩ | ⟨-, rfl⟩⟩ := Conversation.send_sent_eq_some h
    · rw [lastSend_returnWrite] at herror
      simp [Conversation.accept] at herror
    · simp [Conversation.accept] at herror
  | wouldBlock =>
    rw [← Option.some.inj h, lastSend_returnWrite] at herror
    simp at herror
  | error =>
    rw [← Option.some.inj h, Bool.eq_false_iff]
    intro hopen
    have hclosed := (SameProtocol.returnWrite _ _).isOpen hopen
    exact absurd ((isOpen_close _).symm.trans hclosed) (by simp)

theorem data_http (h : DecisionKept p) (decided : Bool) {c' : Conversation} {bytes : Bytes}
    (hphase : p.conversation.phase = .reading) (hmode : p.conversation.session.mode = .http)
    (hrecv : p.conversation.recv server (.data bytes) = some c') :
    DecisionKept ⟨c', decided⟩ ∧ ¬ Lost c' := by
  have hopen : p.conversation.session.isOpen = true := h.edge.busy (by simp [hphase])
  have hedge := h.edge.recv hphase hrecv
  obtain ⟨alive, s, hinput, rfl⟩ := Conversation.recv_data_eq_some hrecv
  obtain ⟨rfl, hkept⟩ := processInput_http (s := p.conversation.session.receive bytes) hmode hinput
  have hsocket : s.isOpen = true := by
    unfold Session.isOpen
    rw [(Handles.processInput server _ s true hinput).socket_eq]
    exact hopen
  simp only [if_true] at hedge ⊢
  have hmode' := (SameProtocol.flushNext p.conversation s).mode_eq.trans hkept
  refine ⟨⟨hedge, fun herror => ?_, fun _ _ => hmode', fun hws => ?_⟩, not_lost_flushNext hsocket⟩
  · rw [lastSend_flushNext] at herror
    exact absurd ((h.failed herror).symm.trans hopen) (by simp)
  · exact absurd (hmode'.symm.trans hws) (by decide)

/-- In WebSocket mode the frames decide, and then the socket is closed at once. -/
theorem data_webSocket (h : DecisionKept p) {c' : Conversation} {bytes : Bytes}
    (hphase : p.conversation.phase = .reading) (hmode : p.conversation.session.mode = .webSocket)
    (hrecv : p.conversation.recv server (.data bytes) = some c') :
    p.decided = false ∧ DecisionKept
        ⟨c', asksToClose server.settings (p.conversation.session.receive bytes).readBuffer.unread⟩ ∧
      (asksToClose server.settings (p.conversation.session.receive bytes).readBuffer.unread = true →
        (¬ Lost c' ↔ p.conversation.session.writeBuffer.capacity = 0)) := by
  have hopen : p.conversation.session.isOpen = true := h.edge.busy (by simp [hphase])
  have hsend : p.conversation.lastSend ≠ some .error := fun herror =>
    absurd ((h.failed herror).symm.trans hopen) (by simp)
  have hundecided : p.decided = false := by
    rw [Bool.eq_false_iff]
    intro hdecided
    exact absurd ((h.mode hdecided hopen).symm.trans hmode) (by decide)
  have hunsent := h.unsent hmode hopen
  have hedge := h.edge.recv hphase hrecv
  obtain ⟨alive, s, hinput, rfl⟩ := Conversation.recv_data_eq_some hrecv
  obtain ⟨turns, hrun⟩ :=
    processInput_webSocket (s := p.conversation.session.receive bytes) hmode hinput
  refine ⟨hundecided, ?_⟩
  cases alive with
  | true =>
    have hasks := hrun.asksToClose_of_alive
    simp only [if_true] at hedge ⊢
    refine ⟨⟨hedge, fun herror => ?_, fun hdecided => ?_, fun _ _ => ?_⟩, fun hasks' => ?_⟩
    · rw [lastSend_flushNext] at herror
      exact absurd herror hsend
    · exact absurd (hasks.symm.trans hdecided) Bool.false_ne_true
    · rw [(SameProtocol.flushNext p.conversation s).wsState_eq, hrun.wsState_eq]
      exact hunsent
    · exact absurd (hasks.symm.trans hasks') Bool.false_ne_true
  | false =>
    have hclosed : { s with keepAlive := false }.close.isOpen = false := isOpen_close _
    refine ⟨⟨hedge, fun _ => hclosed, fun _ hopen' => ?_, fun _ hopen' => ?_⟩, fun hasks => ?_⟩
    · exact absurd (hclosed.symm.trans hopen') Bool.false_ne_true
    · exact absurd (hclosed.symm.trans hopen') Bool.false_ne_true
    · have hsize := hrun.size_of_asksToClose hunsent hasks
      show ¬ Lost (p.conversation.returnRead false { s with keepAlive := false }.close) ↔
        (p.conversation.session.receive bytes).writeBuffer.capacity = 0
      rw [← hsize]
      constructor
      · intro hkept
        by_contra hne
        exact hkept ⟨hclosed, Nat.pos_of_ne_zero hne, hsend⟩
      · rintro hzero ⟨-, hpos, -⟩
        exact absurd hzero hpos.ne'

theorem silent (h : DecisionKept p) {c' : Conversation}
    (hdata : ∀ bytes, call ≠ .recv (.data bytes))
    (hcall : p.conversation.step server call = some c') : DecisionKept ⟨c', p.decided⟩ := by
  have hedge := h.edge.step hcall
  cases call with
  | readable =>
    dsimp only [Conversation.step] at hcall
    split_ifs at hcall
    obtain rfl := Option.some.inj hcall
    exact h.of_lastSend_eq hedge (SameProtocol.readNext _ _) (lastSend_readNext _ _)
  | writable =>
    dsimp only [Conversation.step] at hcall
    split_ifs at hcall <;> obtain rfl := Option.some.inj hcall
    · exact h
    · exact h.of_lastSend_eq hedge (SameProtocol.close _) rfl
    · exact h.of_lastSend_eq hedge (SameProtocol.refl _) rfl
  | recv r =>
    dsimp only [Conversation.step] at hcall
    split_ifs at hcall
    cases r with
    | data bytes => exact absurd rfl (hdata bytes)
    | wouldBlock =>
      obtain rfl := Option.some.inj hcall
      exact h.of_lastSend_eq hedge (SameProtocol.refl _) rfl
    | eof =>
      obtain rfl := Option.some.inj hcall
      exact h.of_lastSend_eq hedge (SameProtocol.close _) rfl
    | error =>
      obtain rfl := Option.some.inj hcall
      exact h.of_lastSend_eq hedge (SameProtocol.close _) rfl
  | send r =>
    dsimp only [Conversation.step] at hcall
    split_ifs at hcall
    exact h.of_sameProtocol hedge (SameProtocol.send hcall) (failed_send hcall)

theorem step (h : DecisionKept p) (hstep : p.step server call = some p') : DecisionKept p' := by
  rcases Parting.step_cases hstep with ⟨bytes, c', hphase, hcall, rfl, rfl⟩ |
    ⟨hsilent, c', hcall, rfl⟩
  · cases hmode : p.conversation.session.mode with
    | http => exact (h.data_http _ hphase hmode hcall).1
    | webSocket =>
      obtain ⟨hundecided, hkept, -⟩ := h.data_webSocket hphase hmode hcall
      simpa only [decides, hmode, hundecided, Bool.false_or] using hkept
  · exact h.silent hsilent hcall

theorem drains_iff (h : DecisionKept p) : Drains p ↔ (p.decided = true → ¬ Lost p.conversation) :=
  ⟨Drains.sentFirst, fun hfirst => ⟨hfirst, fun hidle => h.edge.blocked (Or.inl hidle)⟩⟩

theorem not_lost_send {c' : Conversation} {r : SendResult} (h : DecisionKept p)
    (hphase : p.conversation.phase = .flushing ∨ p.conversation.phase = .writing)
    (hsend : p.conversation.send r = some c') : ¬ Lost c' := by
  have hopen : p.conversation.session.isOpen = true :=
    h.edge.busy (by rcases hphase with hphase | hphase <;> simp [hphase])
  cases r with
  | sent n =>
    obtain ⟨-, -, ⟨hdone, rfl⟩ | ⟨-, rfl⟩⟩ := Conversation.send_sent_eq_some hsend
    · refine not_lost_returnWrite (Or.inr (Or.inl ?_))
      rw [writeBuffer_onWriteComplete]
      exact hdone
    · rintro ⟨hclosed, -⟩
      exact absurd (hclosed.symm.trans hopen) Bool.false_ne_true
  | wouldBlock => exact Option.some.inj hsend ▸ not_lost_returnWrite (Or.inl hopen)
  | error => exact Option.some.inj hsend ▸ not_lost_returnWrite (Or.inr (Or.inr rfl))

/-- The end of the stream closes the socket whatever is queued. -/
theorem lost_returnRead_iff (h : DecisionKept p) (hphase : p.conversation.phase = .reading) :
    (p.decided = true → ¬ Lost (p.conversation.returnRead false p.conversation.session.close)) ↔
      (p.decided = true → p.conversation.session.writeBuffer.size = 0) := by
  have hopen : p.conversation.session.isOpen = true := h.edge.busy (by simp [hphase])
  have hsend : p.conversation.lastSend ≠ some .error := fun herror =>
    absurd ((h.failed herror).symm.trans hopen) (by simp)
  refine forall_congr' fun _ => ⟨fun hkept => ?_, ?_⟩
  · by_contra hne
    exact hkept ⟨isOpen_close _, Nat.pos_of_ne_zero hne, hsend⟩
  · rintro hzero ⟨-, hpos, -⟩
    exact hpos.ne' hzero

theorem silent_lost_iff (h : DecisionKept p) {c' : Conversation}
    (hlost : p.decided = true → ¬ Lost p.conversation)
    (hdata : ∀ bytes, call ≠ .recv (.data bytes))
    (hcall : p.conversation.step server call = some c') :
    (p.decided = true → ¬ Lost c') ↔ Spares server.settings p call := by
  cases call with
  | readable =>
    dsimp only [Conversation.step] at hcall
    split_ifs at hcall
    rw [← Option.some.inj hcall, lost_readNext_iff]
    refine forall_congr' fun hdecided => ?_
    by_cases hopen : p.conversation.session.isOpen = true
    · have hsend : p.conversation.lastSend ≠ some .error := fun herror =>
        absurd ((h.failed herror).symm.trans hopen) (by simp)
      simp [hopen, hsend]
    · have hclosed : p.conversation.session.isOpen = false := by simpa using hopen
      exact ⟨fun _ hopen' => absurd hopen' hopen, fun _ hall => hlost hdecided ⟨hclosed, hall.2⟩⟩
  | writable =>
    refine ⟨fun _ => trivial, fun _ hdecided => ?_⟩
    dsimp only [Conversation.step] at hcall
    split_ifs at hcall with hidle hsize hclosed <;> rw [← Option.some.inj hcall]
    · exact hlost hdecided
    · rintro ⟨-, hpos, hsend⟩
      exact hlost hdecided ⟨by simpa using hclosed, hpos, hsend⟩
    · rintro ⟨hclosed', -⟩
      exact hclosed (by simpa using hclosed')
  | recv r =>
    dsimp only [Conversation.step] at hcall
    split_ifs at hcall with hphase
    cases r with
    | data bytes => exact absurd rfl (hdata bytes)
    | wouldBlock =>
      refine ⟨fun _ => trivial, fun _ _ => ?_⟩
      have hopen : p.conversation.session.isOpen = true := h.edge.busy (by simp [hphase])
      rw [← Option.some.inj hcall]
      rintro ⟨hclosed, -⟩
      exact absurd (hclosed.symm.trans hopen) Bool.false_ne_true
    | eof => exact Option.some.inj hcall ▸ h.lost_returnRead_iff hphase
    | error => exact Option.some.inj hcall ▸ h.lost_returnRead_iff hphase
  | send r =>
    dsimp only [Conversation.step] at hcall
    split_ifs at hcall with hphase
    exact ⟨fun _ => trivial, fun _ _ => h.not_lost_send hphase hcall⟩

/-- A call keeps the order of sending and closing exactly when the guard says so. -/
theorem drains_step (h : DecisionKept p) (hdrains : Drains p)
    (hstep : p.step server call = some p') : Drains p' ↔ Spares server.settings p call := by
  rw [(h.step hstep).drains_iff]
  rcases Parting.step_cases hstep with ⟨bytes, c', hphase, hcall, rfl, rfl⟩ |
    ⟨hsilent, c', hcall, rfl⟩
  · cases hmode : p.conversation.session.mode with
    | http =>
      have hkept := (h.data_http p.decided hphase hmode hcall).2
      exact ⟨fun _ hws => absurd (hmode.symm.trans hws) (by decide), fun _ _ => hkept⟩
    | webSocket =>
      obtain ⟨hundecided, -, hlost⟩ := h.data_webSocket hphase hmode hcall
      simp only [decides, hmode, hundecided, Bool.false_or]
      exact ⟨fun hkept _ hasks => (hlost hasks).mp (hkept hasks),
        fun hspares hasks => (hlost hasks).mpr (hspares hmode hasks)⟩
  · exact h.silent_lost_iff hdrains.sentFirst hsilent hcall

end DecisionKept

/-- A session between two events, as the worker loop finds it. -/
structure AtRest (c : Conversation) : Prop where
  idle : c.phase = .idle
  isOpen : c.session.isOpen = true
  unsent : c.session.wsState.closeSent = false
  edge : EdgeKept c
  failed : c.lastSend ≠ some .error

/-- From any such state and over every run of calls: every close that is decided on
waits for the queue exactly when nothing comes between. -/
theorem drains_iff_spares (server : Server) (c : Conversation) (hrest : AtRest c)
    (calls : List SysCall) (p : Parting)
    (hrun : Runs.run (Parting.step server) ⟨c, false⟩ calls = some p) :
    (∀ pre q, pre <+: calls → Runs.run (Parting.step server) ⟨c, false⟩ pre = some q → Drains q) ↔
      Runs.Guarded (Parting.step server) (Spares server.settings) ⟨c, false⟩ calls := by
  have hkept : DecisionKept ⟨c, false⟩ :=
    ⟨hrest.edge, fun herror => absurd herror hrest.failed,
      fun hdecided => absurd hdecided Bool.false_ne_true, fun _ _ => hrest.unsent⟩
  refine Runs.always_iff_guarded (I := DecisionKept) (P := Drains)
    (fun p call p' h hstep => h.step hstep) (fun p call p' h hd hstep => h.drains_step hd hstep)
    hkept ?_ hrun
  exact hkept.drains_iff.mpr fun hdecided => absurd hdecided Bool.false_ne_true

end WarpApi

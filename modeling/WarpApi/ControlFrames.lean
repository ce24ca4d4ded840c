import WarpApi.EpollSession
import WarpApi.FrameRuns
import WarpApi.UringRuns
import WarpApi.Library.CheckedBuffer
import Mathlib.Logic.Relation

/-!
The control frames that the server sends. Their payloads come from a PING of the client,
from its CLOSE, from user code and from the server itself; each of them is bounded at
another place. The bound on a PONG is the decoder's check of the PING that it answers.
-/
namespace WarpApi

open CheckedBuffer

/-- A frame whose opcode has the control bit is final and short. -/
def Obs.LegalControl : Obs → Prop
  | .frame opcode fin payload =>
    opcode &&& 0x08 ≠ 0 → fin = true ∧ payload.length ≤ wsControlMaxPayload
  | _ => True

/-- What a session in WebSocket mode does from one frame to the next. A turn of the loop
is a move of its own, so what was sent before a payload overruns the received bytes is
seen as well. -/
inductive FrameMove (settings : SettingsData) : Session → Session → Prop
  | receive (s : Session) (chunk : Bytes) : FrameMove settings s (s.receive chunk)
  | turn {s : Session} {opcode : UInt8} {fin : Bool} {payload : Bytes} {consumed : ℕ}
      (h : nextFrame settings s.readBuffer.unread = .frame opcode fin payload consumed) :
      FrameMove settings s ({ s with
        readBuffer := s.readBuffer.advance consumed }.dispatchFrame opcode fin payload).2
  | opened (s : Session) (route : WebSocketRoute) : FrameMove settings s (s.runOnOpen route)

/-- `WebSocketContext::close` up to the frame: the local buffer and the view of it. -/
def closeBuffer (buf : Vector UInt8 (125 + 2)) (code : UInt16) (reason : Bytes) : Option Bytes :=
  (copyTo buf 0 [(code >>> 8).toUInt8, code.toUInt8]).bind fun buf =>
    let reasonLen := if reason.length > 123 then 123 else reason.length
    (if reasonLen > 0 then copyTo buf 2 (reason.take reasonLen) else some buf).bind fun buf =>
      view buf (2 + reasonLen)

theorem length_closePayload_le (code : UInt16) (reason : Bytes) :
    (Session.closePayload code reason).length ≤ wsControlMaxPayload := by
  have hmax : wsControlMaxPayload = 125 := rfl
  rw [Session.closePayload, List.length_append, List.length_take, List.length_cons,
    List.length_singleton, hmax]
  omega

/-- The buffer is never overrun, and the view of it is the payload. -/
theorem closeBuffer_eq (buf : Vector UInt8 (125 + 2)) (code : UInt16) (reason : Bytes) :
    closeBuffer buf code reason = some (Session.closePayload code reason) := by
  have hlength : (if reason.length > 123 then 123 else reason.length) =
      (reason.take 123).length := by
    rw [List.length_take]
    split_ifs <;> omega
  have hcopy : ∀ buf : Vector UInt8 (125 + 2), (if (reason.take 123).length > 0 then
      copyTo buf 2 (reason.take (reason.take 123).length) else some buf) =
        copyTo buf 2 (reason.take 123) := by
    intro buf
    split_ifs with hpos
    · rw [List.length_take, ← List.take_take, List.take_length]
    · rw [List.length_eq_zero_iff.mp (Nat.eq_zero_of_not_pos hpos), copyTo_nil buf (by decide)]
  have hfits : [(code >>> 8).toUInt8, code.toUInt8].length + (reason.take 123).length ≤
      125 + 2 := by
    rw [List.length_take, List.length_cons, List.length_singleton]
    omega
  unfold closeBuffer
  simp only [hlength, hcopy]
  exact (copy_copy_view buf [(code >>> 8).toUInt8, code.toUInt8] (reason.take 123)).trans
    (if_pos hfits)

/-- The decoder's check is about the payload that it hands on. -/
theorem length_payload_le {settings : SettingsData} {data : Bytes} {opcode : UInt8} {fin : Bool}
    {payload : Bytes} {consumed : ℕ}
    (h : nextFrame settings data = .frame opcode fin payload consumed)
    (hcontrol : opcode &&& 0x08 ≠ 0) : payload.length ≤ wsControlMaxPayload := by
  obtain ⟨len, offset, -, -, hbound, -, rfl, -⟩ := nextFrame_eq_frame h
  rw [unmask, List.length_mapIdx, List.length_take]
  exact (Nat.min_le_left _ _).trans (hbound hcontrol)

namespace Session

variable (s : Session)

abbrev SendsLegal (s t : Session) : Prop := NewEntries Obs.LegalControl s t

theorem sendsLegal_wsFrameSend {opcode : UInt8} {payload : Bytes} {fin : Bool}
    (h : opcode &&& 0x08 ≠ 0 → fin = true ∧ payload.length ≤ wsControlMaxPayload) :
    SendsLegal s (s.wsFrameSend opcode payload fin) := .of_cons rfl h

theorem sendsLegal_contextCall (c : ContextCall) : SendsLegal s (s.contextCall c) := by
  cases c with
  | sendText payload => exact s.sendsLegal_wsFrameSend fun hcontrol => absurd rfl hcontrol
  | sendBinary payload => exact s.sendsLegal_wsFrameSend fun hcontrol => absurd rfl hcontrol
  | close code reason =>
    exact s.sendsLegal_wsFrameSend fun _ => ⟨rfl, length_closePayload_le code reason⟩

theorem sendsLegal_contextCalls (calls : List ContextCall) :
    SendsLegal s (s.contextCalls calls) := by
  induction calls generalizing s with
  | nil => exact .of_log_eq rfl
  | cons c calls ih => exact (s.sendsLegal_contextCall c).trans (ih (s.contextCall c))

theorem sendsLegal_runOnOpen (route : WebSocketRoute) : SendsLegal s (s.runOnOpen route) := by
  unfold runOnOpen
  split
  · have hnote : SendsLegal s (s.note .wsOpen) := .of_cons rfl trivial
    exact hnote.trans (sendsLegal_contextCalls _ _)
  · exact .of_log_eq rfl

theorem sendsLegal_runOnMessage (payload : Bytes) : SendsLegal s (s.runOnMessage payload) := by
  unfold runOnMessage
  split
  · have hnote : SendsLegal s (s.note (.wsMessage payload)) := .of_cons rfl trivial
    exact hnote.trans (sendsLegal_contextCalls _ _)
  · exact .of_log_eq rfl

theorem sendsLegal_runOnClose : SendsLegal s s.runOnClose := by
  unfold runOnClose
  split
  · have hnote : SendsLegal s (s.note .wsClose) := .of_cons rfl trivial
    exact hnote.trans (sendsLegal_contextCalls _ _)
  · exact .of_log_eq rfl

theorem sendsLegal_sendProtocolClose : SendsLegal s s.sendProtocolClose.2 :=
  .of_cons rfl fun _ => ⟨rfl, by decide⟩

theorem sendsLegal_echoClose (payload : Bytes) : SendsLegal s (s.echoClose payload) := by
  unfold echoClose
  split
  · exact .of_log_eq rfl
  · exact .of_cons rfl fun _ => ⟨rfl, List.length_take_le _ _⟩

/-- The PONG repeats the payload of the PING. -/
theorem sendsLegal_dispatchFrame {opcode : UInt8} (fin : Bool) {payload : Bytes}
    (h : opcode &&& 0x08 ≠ 0 → payload.length ≤ wsControlMaxPayload) :
    SendsLegal s (s.dispatchFrame opcode fin payload).2 := by
  unfold dispatchFrame
  split_ifs with hfin hdata hping hpong hclose
  · exact s.sendsLegal_sendProtocolClose
  · exact s.sendsLegal_runOnMessage payload
  · have hbit : opcode &&& 0x08 ≠ 0 := by
      rw [hping]
      decide
    exact s.sendsLegal_wsFrameSend fun _ => ⟨rfl, h hbit⟩
  · exact .of_log_eq rfl
  · exact (s.sendsLegal_echoClose payload).trans (sendsLegal_runOnClose _)
  · exact s.sendsLegal_sendProtocolClose

end Session

open Session

theorem FrameMove.sendsLegal {settings : SettingsData} {s t : Session}
    (h : FrameMove settings s t) : SendsLegal s t := by
  cases h with
  | receive => exact .of_log_eq rfl
  | @turn opcode fin payload consumed hframe =>
    have hadvance : SendsLegal s { s with readBuffer := s.readBuffer.advance consumed } :=
      .of_log_eq rfl
    exact hadvance.trans (sendsLegal_dispatchFrame _ fin (length_payload_le hframe))
  | opened route => exact s.sendsLegal_runOnOpen route

theorem sendsLegal_of_moves {settings : SettingsData} {s t : Session}
    (h : Relation.ReflTransGen (FrameMove settings) s t) : SendsLegal s t := by
  induction h with
  | refl => exact .of_log_eq rfl
  | tail _ hmove ih => exact ih.trans hmove.sendsLegal

theorem moves_of_processFramesLoop (settings : SettingsData) (turns : ℕ) (s t : Session)
    (alive : Bool) (h : s.processFramesLoop settings turns = some (alive, t)) :
    Relation.ReflTransGen (FrameMove settings) s t := by
  induction turns generalizing s with
  | zero => simp [Session.processFramesLoop] at h
  | succ turns ih =>
    rw [Session.processFramesLoop] at h
    split at h
    · exact (Prod.mk.inj (Option.some.inj h)).2 ▸ .refl
    · exact (Prod.mk.inj (Option.some.inj h)).2 ▸ .refl
    · simp at h
    · rename_i opcode fin payload consumed hframe
      have hmove := FrameMove.turn hframe
      split at h <;> rename_i s' heq <;> rw [heq] at hmove
      · exact .head hmove (ih s' h)
      · exact (Prod.mk.inj (Option.some.inj h)).2 ▸ .single hmove

theorem sendsLegal_processInput {server : Server} {s t : Session} {alive : Bool}
    (h : s.processInput server = some (alive, t)) : SendsLegal s t := by
  unfold Session.processInput at h
  split at h
  · rw [Option.map_eq_some_iff] at h
    obtain ⟨t', hdrain, heq⟩ := h
    obtain rfl := (Prod.mk.inj heq).2
    refine parseLoop_relates SendsLegal (fun _ _ _ => .trans) (fun s => ?_) (fun s => ?_) _ s t'
      hdrain
    · cases hconsumed : (parseBytes server.settings s.readBuffer.unread s.req
          s.keepAlive).consumed with
      | none =>
        rw [attemptRequest_of_none hconsumed]
        exact .of_cons rfl trivial
      | some n =>
        rw [attemptRequest_of_some hconsumed]
        exact ⟨[_, _], rfl, by simp [Obs.LegalControl]⟩
    · obtain ⟨new, hlog, hnew⟩ := (Answers.handleRequest server s).entries
      refine ⟨new, hlog, fun o ho => ?_⟩
      have hanswer := hnew o ho
      cases o <;> trivial
  · exact sendsLegal_of_moves (moves_of_processFramesLoop _ _ s t alive h)

theorem sendsLegal_epoll (server : Server) : EpollRelation server SendsLegal where
  refl := fun _ => .of_log_eq rfl
  trans := fun _ _ _ => .trans
  close := fun _ => .of_log_eq rfl
  giveUp := fun _ => .of_log_eq rfl
  receive := fun _ _ => .of_log_eq rfl
  input := fun _ _ _ => sendsLegal_processInput
  sent := fun _ _ => .of_log_eq rfl
  complete := by
    intro s
    unfold Session.onWriteComplete
    dsimp only
    split_ifs <;> exact .of_cons rfl trivial

theorem sendsLegal_uring (server : Server) : UringRelation server SendsLegal where
  refl := fun _ => .of_log_eq rfl
  trans := fun _ _ _ => .trans
  input := by
    intro s bytes t _ h
    unfold Session.takeInput at h
    rw [Option.map_eq_some_iff] at h
    obtain ⟨⟨alive, u⟩, hinput, rfl⟩ := h
    have hreceived : SendsLegal s ((s.setReading false).receive bytes) := .of_log_eq rfl
    have hu := hreceived.trans (sendsLegal_processInput hinput)
    cases alive with
    | true => exact hu
    | false => exact hu.trans (.of_log_eq rfl)
  flags := fun _ _ => .of_log_eq rfl
  locked := fun _ _ => .of_log_eq rfl
  tick := fun _ _ => .of_log_eq rfl
  release := fun _ => .of_log_eq rfl
  keepAliveOff := fun _ => .of_log_eq rfl
  closing := fun _ => .of_log_eq rfl
  close := fun _ => .of_log_eq rfl

/-- Whatever the client sends and user code asks for: in WebSocket mode, move by move, and
over whole runs of the two backends. -/
theorem controlFrames_legal (server : Server) :
    (∀ s t, Relation.ReflTransGen (FrameMove server.settings) s t → SendsLegal s t) ∧
    (∀ s es t, Runs.run (epollStep server) s es = some t → SendsLegal s t) ∧
    (∀ (w : Worker) sid s es w' t, w.Sound → w.pool sid = some s →
      Runs.run (Worker.step server) w es = some w' → w'.pool sid = some t → SendsLegal s t) ∧
    ∀ buf code reason, closeBuffer buf code reason = some (Session.closePayload code reason) := by
  refine ⟨fun s t => sendsLegal_of_moves, fun s es t hrun => ?_, ?_, closeBuffer_eq⟩
  · exact (sendsLegal_epoll server).run es s t hrun
  · intro w sid s es w' t hw hs hrun ht
    obtain ⟨s', hs', hrel⟩ := Worker.relates_run (sendsLegal_uring server) hw
      (Worker.known_of_pool hw hs) hrun ht
    obtain rfl := Option.some.inj (hs'.symm.trans hs)
    exact hrel

def pingHi : Bytes := [0x89, 0x82, 0, 0, 0, 0, 104, 105]

theorem controlFrames_legal_ping :
    SendsLegal ((upgradedSession ⟨none, none, none⟩).receive pingHi)
        ({ (upgradedSession ⟨none, none, none⟩).receive pingHi with
          readBuffer := ((upgradedSession ⟨none, none, none⟩).receive pingHi).readBuffer.advance 8
            }.dispatchFrame wsOpPing true (ascii "hi")).2 ∧
      ∃ t, Runs.run (epollStep (bareServer .epoll)) (upgradedSession ⟨none, none, none⟩)
          [⟨true, false, [.data pingHi, .wouldBlock], [.sent 4]⟩] = some t ∧
        SendsLegal (upgradedSession ⟨none, none, none⟩) t := by
  obtain ⟨hmoves, hepoll, -, -⟩ := controlFrames_legal (bareServer .epoll)
  have hends : (Runs.run (epollStep (bareServer .epoll)) (upgradedSession ⟨none, none, none⟩)
      [⟨true, false, [.data pingHi, .wouldBlock], [.sent 4]⟩]).isSome = true := by
    decide +kernel
  obtain ⟨t, ht⟩ := Option.isSome_iff_exists.mp hends
  exact ⟨hmoves _ _ (.single (.turn (by decide +kernel))), t, ht, hepoll _ _ t ht⟩

end WarpApi

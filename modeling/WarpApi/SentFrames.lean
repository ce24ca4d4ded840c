import WarpApi.FrameRuns

/-!
What frame processing appends. Every frame that is sent has an entry in the
log, and the write buffer takes the encodings of these frames in the order of
the log. As long as no CLOSE of the server's own was sent before, the entries
that a turn makes are determined by its frame and by the calls of user code.
-/
namespace WarpApi

/-- The frame that an entry of the log stands for. -/
def Obs.sentFrame : Obs → Option Frame
  | .frame opcode fin payload => some ⟨opcode, fin, payload⟩
  | _ => none

def sentFrames (os : List Obs) : List Frame := os.filterMap Obs.sentFrame

/-- Exactly these entries were added to the log, oldest first, and the frames among
them were appended to the write buffer. -/
structure Sends (s t : Session) (os : List Obs) : Prop where
  log : t.log = os.reverse ++ s.log
  out : t.writeBuffer = s.writeBuffer.push ((sentFrames os).flatMap Frame.bytes)

namespace Sends

theorem of_eq {s t : Session} (hlog : t.log = s.log) (hout : t.writeBuffer = s.writeBuffer) :
    Sends s t [] :=
  ⟨hlog, hout.trans (BoundedQueue.push_nil _).symm⟩

theorem trans {s t u : Session} {os os' : List Obs} (h : Sends s t os) (h' : Sends t u os') :
    Sends s u (os ++ os') := by
  refine ⟨?_, ?_⟩
  · rw [h'.log, h.log, List.reverse_append, List.append_assoc]
  · rw [h'.out, h.out, BoundedQueue.push_push, sentFrames, sentFrames, sentFrames,
      List.filterMap_append, List.flatMap_append]

theorem note (s : Session) (o : Obs) (ho : o.sentFrame = none) : Sends s (s.note o) [o] := by
  refine ⟨rfl, ?_⟩
  rw [sentFrames, List.filterMap_cons_none ho]
  exact (BoundedQueue.push_nil _).symm

theorem wsFrameSend (s : Session) (opcode : UInt8) (payload : Bytes) (fin : Bool) :
    Sends s (s.wsFrameSend opcode payload fin) [.frame opcode fin payload] := by
  refine ⟨rfl, ?_⟩
  show sendFrame s.writeBuffer opcode payload fin = _
  rw [sendFrame_eq_push]
  simp [sentFrames, Obs.sentFrame, Frame.bytes]

theorem mono {s t u : Session} {os : List Obs} (h : Sends s t os) (hlog : u.log = t.log)
    (hout : u.writeBuffer = t.writeBuffer) : Sends s u os :=
  ⟨hlog.trans h.log, hout.trans h.out⟩

end Sends

/-- The frame that a call of user code sends. -/
def ContextCall.frame : ContextCall → Frame
  | .sendText payload => ⟨wsOpText, true, payload⟩
  | .sendBinary payload => ⟨wsOpBinary, true, payload⟩
  | .close code reason => ⟨wsOpClose, true, Session.closePayload code reason⟩

def ContextCall.entry (c : ContextCall) : Obs :=
  .frame c.frame.opcode c.frame.fin c.frame.payload

def protocolErrorEntry : Obs := .frame wsOpClose true Session.protocolError

/-- The entries that the dispatch of the turn's frame makes; the flags say whether the
route has a callback for messages and one for the close. -/
def Turn.entries (onMessage onClose : Bool) (turn : Turn) : List Obs :=
  let f := turn.frame
  if !f.fin then [protocolErrorEntry]
  else if f.opcode = wsOpText ∨ f.opcode = wsOpBinary then
    if onMessage then .wsMessage f.payload :: turn.calls.map ContextCall.entry else []
  else if f.opcode = wsOpPing then [.frame wsOpPong true f.payload]
  else if f.opcode = wsOpPong then []
  else if f.opcode = wsOpClose then
    .frame wsOpClose true (f.payload.take wsControlMaxPayload) ::
      if onClose then .wsClose :: turn.calls.map ContextCall.entry else []
  else [protocolErrorEntry]

namespace Session

def handlesMessages (s : Session) : Bool :=
  (s.wsState.route.bind WebSocketRoute.onMessage).isSome

def handlesClose (s : Session) : Bool := (s.wsState.route.bind WebSocketRoute.onClose).isSome

theorem sends_contextCalls (s : Session) (calls : List ContextCall) :
    Sends s (s.contextCalls calls) (calls.map ContextCall.entry) := by
  induction calls generalizing s with
  | nil => exact Sends.of_eq rfl rfl
  | cons c calls ih =>
    have hcall : Sends s (s.contextCall c) [c.entry] := by
      cases c <;> exact Sends.wsFrameSend s _ _ _
    exact hcall.trans (ih (s.contextCall c))

theorem wsState_contextCalls (s : Session) (calls : List ContextCall) :
    (s.contextCalls calls).wsState = s.wsState := by
  induction calls generalizing s with
  | nil => rfl
  | cons c calls ih =>
    have hcall : (s.contextCall c).wsState = s.wsState := by
      cases c <;> rfl
    exact (ih (s.contextCall c)).trans hcall

theorem sends_sendProtocolClose (s : Session) :
    Sends s s.sendProtocolClose.2 [protocolErrorEntry] :=
  (Sends.wsFrameSend s wsOpClose protocolError true).mono rfl rfl

theorem sends_runOnMessage (s : Session) (payload : Bytes) :
    Sends s (s.runOnMessage payload)
      (if s.handlesMessages then
        .wsMessage payload :: (s.messageCalls payload).map ContextCall.entry else []) := by
  unfold runOnMessage handlesMessages messageCalls
  cases s.wsState.route.bind WebSocketRoute.onMessage with
  | none => exact Sends.of_eq rfl rfl
  | some f => exact (Sends.note s _ rfl).trans (sends_contextCalls _ _)

theorem sends_runOnClose (s : Session) :
    Sends s s.runOnClose
      (if s.handlesClose then .wsClose :: s.closeCalls.map ContextCall.entry else []) := by
  unfold runOnClose handlesClose closeCalls
  cases s.wsState.route.bind WebSocketRoute.onClose with
  | none => exact Sends.of_eq rfl rfl
  | some f => exact (Sends.note s _ rfl).trans (sends_contextCalls _ _)

theorem sends_echoClose (s : Session) (payload : Bytes) (hsent : s.wsState.closeSent = false) :
    Sends s (s.echoClose payload)
      [.frame wsOpClose true (payload.take wsControlMaxPayload)] := by
  unfold echoClose
  rw [if_neg (by simp [hsent])]
  exact (Sends.wsFrameSend s wsOpClose _ true).mono rfl rfl

theorem route_echoClose (s : Session) (payload : Bytes) :
    (s.echoClose payload).wsState.route = s.wsState.route := by
  unfold echoClose
  split <;> rfl

/-- What a dispatch appends, unless it is that of a CLOSE behind one of the server. -/
theorem sends_dispatchFrame (s : Session) (f : Frame)
    (hsent : f.opcode = wsOpClose → s.wsState.closeSent = false) :
    Sends s (s.dispatchFrame f.opcode f.fin f.payload).2
      (Turn.entries s.handlesMessages s.handlesClose ⟨f, s.callbackCalls f⟩) := by
  unfold dispatchFrame Turn.entries callbackCalls
  dsimp only
  by_cases hfin : (!f.fin) = true
  · rw [if_pos hfin, if_pos hfin]
    exact sends_sendProtocolClose s
  · simp only [if_neg hfin]
    by_cases hdata : f.opcode = wsOpText ∨ f.opcode = wsOpBinary
    · simp only [if_pos hdata]
      exact sends_runOnMessage s f.payload
    · simp only [if_neg hdata]
      by_cases hping : f.opcode = wsOpPing
      · simp only [if_pos hping]
        exact Sends.wsFrameSend s _ _ _
      · simp only [if_neg hping]
        by_cases hpong : f.opcode = wsOpPong
        · simp only [if_pos hpong]
          exact Sends.of_eq rfl rfl
        · simp only [if_neg hpong]
          by_cases hclose : f.opcode = wsOpClose
          · simp only [if_pos hclose]
            have hhandles : (s.echoClose f.payload).handlesClose = s.handlesClose := by
              unfold handlesClose
              rw [route_echoClose]
            have hafter := sends_runOnClose (s.echoClose f.payload)
            rw [hhandles] at hafter
            exact (sends_echoClose s f.payload (hsent hclose)).trans hafter
          · simp only [if_neg hclose]
            exact sends_sendProtocolClose s

/-- A dispatch that goes on leaves the protocol state alone. -/
theorem wsState_dispatchFrame (s t : Session) (opcode : UInt8) (fin : Bool) (payload : Bytes)
    (h : s.dispatchFrame opcode fin payload = (true, t)) : t.wsState = s.wsState := by
  unfold dispatchFrame at h
  split_ifs at h
  · simp [sendProtocolClose] at h
  · rw [← (Prod.mk.inj h).2]
    unfold runOnMessage
    cases s.wsState.route.bind WebSocketRoute.onMessage with
    | none => rfl
    | some f => exact wsState_contextCalls _ _
  · rw [← (Prod.mk.inj h).2]
    rfl
  · rw [← (Prod.mk.inj h).2]
  · simp at h
  · simp [sendProtocolClose] at h

end Session

theorem FrameRun.wsState_eq {settings : SettingsData} {s t : Session} {turns : List Turn}
    (h : FrameRun settings s turns true t) : t.wsState = s.wsState := by
  generalize halive : true = alive at h
  induction h with
  | wait _ => rfl
  | reject _ => rfl
  | next hnext hs hd htail ih =>
    rw [ih halive, Session.wsState_dispatchFrame _ _ _ _ _ hd, hs]
  | last hnext hs hd => simp at halive

theorem FrameRun.sends {settings : SettingsData} {s t : Session} {turns : List Turn}
    {alive : Bool} (h : FrameRun settings s turns alive t)
    (hsent : ∀ turn ∈ turns, turn.frame.opcode = wsOpClose → s.wsState.closeSent = false) :
    Sends s t (turns.flatMap (Turn.entries s.handlesMessages s.handlesClose)) := by
  induction h with
  | wait _ => exact Sends.of_eq rfl rfl
  | reject _ => exact Sends.of_eq rfl rfl
  | @next s s' t u f n turns alive hnext hs hd htail ih =>
    have hstate : s'.wsState = s.wsState := by rw [hs]
    have hkept := (Session.wsState_dispatchFrame _ _ _ _ _ hd).trans hstate
    have hturn := Session.sends_dispatchFrame s' f (by
      rw [hstate]
      exact hsent _ List.mem_cons_self)
    have hrest := ih (by
      rw [hkept]
      exact fun turn hmem => hsent turn (List.mem_cons_of_mem _ hmem))
    unfold Session.handlesMessages Session.handlesClose at hturn hrest ⊢
    rw [hd, hstate] at hturn
    rw [hkept] at hrest
    have hall := hturn.trans hrest
    rw [List.flatMap_cons]
    exact ⟨by rw [hall.log, hs], by rw [hall.out, hs]⟩
  | @last s s' t f n hnext hs hd =>
    have hstate : s'.wsState = s.wsState := by rw [hs]
    have hturn := Session.sends_dispatchFrame s' f (by
      rw [hstate]
      exact hsent _ List.mem_cons_self)
    unfold Session.handlesMessages Session.handlesClose at hturn ⊢
    rw [hd, hstate] at hturn
    rw [List.flatMap_cons, List.flatMap_nil, List.append_nil]
    exact ⟨by rw [hturn.log, hs], by rw [hturn.out, hs]⟩

/-- What a whole stream of chunks makes the session append. -/
theorem sends_feed (settings : SettingsData) (chunks : List Bytes) (s t : Session)
    (turns : List Turn) (alive : Bool) (hsent : s.wsState.closeSent = false)
    (h : Session.feed settings chunks s = some (turns, alive, t)) :
    Sends s t (turns.flatMap (Turn.entries s.handlesMessages s.handlesClose)) := by
  induction chunks generalizing s turns with
  | nil =>
    simp only [Session.feed, Option.some.injEq, Prod.mk.injEq] at h
    obtain ⟨rfl, -, rfl⟩ := h
    exact Sends.of_eq rfl rfl
  | cons chunk chunks ih =>
    obtain ⟨first, go, u, hprocess, hcases⟩ := Session.feed_cons_eq_some h
    have hrun := FrameRun.of_processTurns hprocess
    have hfirst : Sends s u (first.flatMap (Turn.entries s.handlesMessages s.handlesClose)) :=
      ⟨(hrun.sends fun _ _ _ => hsent).log, (hrun.sends fun _ _ _ => hsent).out⟩
    rcases hcases with ⟨rfl, rfl, rfl⟩ | ⟨rfl, rest, hrest, rfl⟩
    · exact hfirst
    · have hkept : u.wsState = s.wsState := hrun.wsState_eq
      have htail := ih u rest (by rw [hkept, hsent]) hrest
      unfold Session.handlesMessages Session.handlesClose at hfirst htail ⊢
      rw [hkept] at htail
      rw [List.flatMap_append]
      exact hfirst.trans htail

end WarpApi

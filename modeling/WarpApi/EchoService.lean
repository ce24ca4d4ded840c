import WarpApi.FrameMachine
import WarpApi.FrameStream
import WarpApi.Services

/-!
The WebSocket route of GeneralServices, from the stream that a client sends to the
frames that it reads back: its messages as TEXT, a PONG for each PING, and at the end of
the connection the CLOSE that its last frame asks for.
-/
namespace WarpApi

def protocolErrorFrame : Frame := ⟨wsOpClose, true, Session.protocolError⟩

/-- The frames that the service sends for one frame of the client. -/
def echoReply (settings : SettingsData) (f : Frame) : List Frame :=
  if f.tooLong settings then []
  else if !f.fin then [protocolErrorFrame]
  else if f.opcode = wsOpText ∨ f.opcode = wsOpBinary then [⟨wsOpText, true, f.payload⟩]
  else if f.opcode = wsOpPing then [⟨wsOpPong, true, f.payload⟩]
  else if f.opcode = wsOpPong then []
  else if f.opcode = wsOpClose then [⟨wsOpClose, true, f.payload⟩]
  else [protocolErrorFrame]

/-- The replies as far as the first frame that ends the connection. -/
def echoReplies (settings : SettingsData) : List Frame → List Frame
  | [] => []
  | f :: frames =>
    echoReply settings f ++ if f.carriesOn settings then echoReplies settings frames else []

def Session.Echoes (s : Session) : Prop := s.wsState = ⟨some echoRoute, false⟩

namespace Session

variable {s : Session}

theorem sends_frameTurn_echo (settings : SettingsData) (f : Frame) (h : s.Echoes) :
    ∃ os, Sends s (s.frameTurn settings f).2 os ∧ sentFrames os = echoReply settings f := by
  unfold frameTurn echoReply
  by_cases hlong : f.tooLong settings = true
  · rw [if_pos hlong, if_pos hlong]
    exact ⟨[], Sends.of_eq rfl rfl, rfl⟩
  · rw [if_neg hlong, if_neg hlong]
    have hstate : s.wsState = ⟨some echoRoute, false⟩ := h
    have hsends := sends_dispatchFrame s f fun _ => by rw [hstate]
    have hmessages : s.handlesMessages = true := by
      unfold handlesMessages
      rw [hstate]
      rfl
    have hclose : s.handlesClose = true := by
      unfold handlesClose
      rw [hstate]
      rfl
    rw [hmessages, hclose] at hsends
    refine ⟨_, hsends, ?_⟩
    have hshort : f.opcode = wsOpClose → f.payload.take wsControlMaxPayload = f.payload := by
      intro hop
      apply List.take_of_length_le
      by_contra hmore
      refine hlong ?_
      unfold Frame.tooLong
      rw [hop, Bool.or_eq_true, Bool.and_eq_true]
      exact Or.inl ⟨by decide, decide_eq_true (Nat.lt_of_not_le hmore)⟩
    have hmessageCalls : s.messageCalls f.payload = [.sendText f.payload] := by
      unfold messageCalls
      rw [hstate]
      rfl
    have hcloseCalls : (s.echoClose f.payload).closeCalls = [] := by
      unfold closeCalls
      rw [route_echoClose, hstate]
      rfl
    unfold Turn.entries callbackCalls
    simp only [↓reduceIte]
    split_ifs with hfin hdata hping hpong hop
    · rfl
    · rw [hmessageCalls]
      rfl
    · rfl
    · rfl
    · rw [hcloseCalls, hshort hop]
      rfl
    · rfl

theorem echoes_frameTurn {settings : SettingsData} {f : Frame}
    (hgoes : f.carriesOn settings = true) (h : s.Echoes) :
    (s.frameTurn settings f).2.Echoes := by
  have hfst := s.frameTurn_fst settings f
  rw [hgoes] at hfst
  have hshort : ¬ f.tooLong settings = true := by
    intro hlong
    unfold Frame.carriesOn at hgoes
    simp [hlong] at hgoes
  unfold Echoes frameTurn at *
  rw [if_neg hshort] at hfst ⊢
  exact (wsState_dispatchFrame s _ _ _ _ (Prod.ext hfst rfl)).trans h

theorem sends_frameTurns_echo (settings : SettingsData) (frames : List Frame) (h : s.Echoes) :
    ∃ os, Sends s (s.frameTurns settings frames).2 os ∧
      sentFrames os = echoReplies settings frames := by
  induction frames generalizing s with
  | nil => exact ⟨[], Sends.of_eq rfl rfl, rfl⟩
  | cons f frames ih =>
    obtain ⟨os, hsends, hreply⟩ := sends_frameTurn_echo settings f h
    rw [frameTurns, echoReplies]
    split
    · rename_i hgoes
      obtain ⟨os', hsends', hreplies⟩ := ih (echoes_frameTurn hgoes h)
      refine ⟨os ++ os', hsends.trans hsends', ?_⟩
      rw [sentFrames, List.filterMap_append, ← sentFrames, ← sentFrames, hreply, hreplies]
    · exact ⟨os, hsends, by rw [hreply, List.append_nil]⟩

end Session

theorem valid_echoReply (settings : SettingsData) {f g : Frame} (hf : f.payload.length < 2 ^ 64)
    (hg : g ∈ echoReply settings f) : g.unmasked.valid := by
  have hsame : ∀ opcode : UInt8, opcode.toNat < 16 →
      (⟨opcode, true, f.payload⟩ : Frame).unmasked.valid := fun _ hopcode => ⟨hopcode, hf⟩
  unfold echoReply at hg
  split_ifs at hg
  · exact absurd hg List.not_mem_nil
  · exact List.mem_singleton.mp hg ▸ ⟨by decide, by decide⟩
  · exact List.mem_singleton.mp hg ▸ hsame _ (by decide)
  · exact List.mem_singleton.mp hg ▸ hsame _ (by decide)
  · exact absurd hg List.not_mem_nil
  · exact List.mem_singleton.mp hg ▸ hsame _ (by decide)
  · exact List.mem_singleton.mp hg ▸ ⟨by decide, by decide⟩

theorem valid_echoReplies (settings : SettingsData) {frames : List Frame}
    (hframes : ∀ f ∈ frames, f.payload.length < 2 ^ 64) :
    ∀ g ∈ echoReplies settings frames, g.unmasked.valid := by
  induction frames with
  | nil => exact fun g hg => absurd hg List.not_mem_nil
  | cons f frames ih =>
    intro g hg
    rw [echoReplies, List.mem_append] at hg
    rcases hg with hg | hg
    · exact valid_echoReply settings (hframes f List.mem_cons_self) hg
    · split_ifs at hg
      · exact ih (fun f' hf' => hframes f' (List.mem_cons_of_mem _ hf')) g hg
      · exact absurd hg List.not_mem_nil

/-- A client of the echo service reads back what it has sent: for every stream of masked
frames, in every cut, the bytes behind those that were queued before are decoded to the
replies to its frames, in their order and as far as the first frame that ends the
connection, and the connection is still open when there is none. -/
theorem echo_conversation (settings : SettingsData)
    (hbody : settings.maxBodySize.toNat + 14 < 2 ^ 64) (frames : List MaskedFrame)
    (chunk : Bytes) (chunks : List Bytes) (s : Session) (hroute : s.Echoes)
    (hcut : chunk ++ chunks.flatten = frames.flatMap MaskedFrame.encode)
    (hempty : s.readBuffer.unread = [])
    (hfit : (chunk ++ chunks.flatten).length ≤ s.readBuffer.free)
    (hroom : ((echoReplies settings (frames.map MaskedFrame.frame)).flatMap Frame.bytes).length ≤
      s.writeBuffer.free) :
    ∃ turns t replies, Session.feed settings (chunk :: chunks) s =
        some (turns, frames.all fun f => f.frame.carriesOn settings, t) ∧
      t.writeBuffer.unread = s.writeBuffer.unread ++ replies ∧
      UnmaskedFrames.code.decodeAll replies =
        some ((echoReplies settings (frames.map MaskedFrame.frame)).map Frame.unmasked) := by
  obtain ⟨turns, t, hfeed, ht⟩ := feed_frames settings hbody frames [] chunk chunks s
    (by rw [hcut, List.append_nil]) hempty hfit fun _ => rfl
  obtain ⟨os, hsends, hreplies⟩ := Session.sends_frameTurns_echo settings
    (frames.map MaskedFrame.frame) hroute
  have hvalid : ∀ f ∈ frames.map MaskedFrame.frame, f.payload.length < 2 ^ 64 := by
    intro f hf
    obtain ⟨g, -, rfl⟩ := List.mem_map.mp hf
    exact g.length_le.trans_lt g.form.max_lt
  refine ⟨turns, t, (echoReplies settings (frames.map MaskedFrame.frame)).flatMap Frame.bytes, ?_,
    ?_, decodeAll_bytes (valid_echoReplies settings hvalid)⟩
  · rw [hfeed, Session.frameTurns_fst, List.all_map]
    rfl
  · rw [ht]
    show (s.frameTurns settings (frames.map MaskedFrame.frame)).2.writeBuffer.unread = _
    rw [hsends.out, hreplies, BoundedQueue.unread_push_of_le _ _ hroom]

def close1000 : MaskedFrame := ⟨0x88, #v[7, 6, 7, 8], .seven, [3, 232], by decide⟩

theorem echo_conversation_hi :
    ∃ turns t replies, Session.feed configJson
        [[0x81, 0x82, 9, 2], [3, 4, 97, 107, 0x88, 0x82, 7, 6, 7, 8, 4, 238]]
        (upgradedSession echoRoute) = some (turns, false, t) ∧
      t.writeBuffer.unread = replies ∧
      UnmaskedFrames.code.decodeAll replies =
        some [⟨true, 1, ascii "hi"⟩, ⟨true, 8, [3, 232]⟩] := by
  have hreplies : (echoReplies configJson ([hiText, close1000].map MaskedFrame.frame)).map
      Frame.unmasked = [⟨true, 1, ascii "hi"⟩, ⟨true, 8, [3, 232]⟩] := by decide
  have hends : ([hiText, close1000].all fun f => f.frame.carriesOn configJson) = false := by decide
  obtain ⟨turns, t, replies, hfeed, hout, hdecoded⟩ :=
    echo_conversation configJson (by decide) [hiText, close1000] [0x81, 0x82, 9, 2]
      [[3, 4, 97, 107, 0x88, 0x82, 7, 6, 7, 8, 4, 238]] (upgradedSession echoRoute) rfl
      (by decide) rfl (by decide) (by decide)
  rw [hends] at hfeed
  rw [hreplies] at hdecoded
  exact ⟨turns, t, replies, hfeed, hout, hdecoded⟩

end WarpApi

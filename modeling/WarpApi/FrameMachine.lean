import WarpApi.ClientFrames
import WarpApi.EpollDrain

/-!
Frame processing above the level of bytes. The machine below takes whole frames, one
at a time, and stops at the first one that ends the connection. A stream of masked
frames, whatever is in them, makes the byte loop do what the machine does; how the
stream was cut into chunks, and what follows a frame that ends it, cannot be seen.
-/
namespace WarpApi

/-- The connection is still open behind the frame. -/
def Frame.carriesOn (settings : SettingsData) (f : Frame) : Bool :=
  !f.tooLong settings && f.goesOn

namespace Session

/-- One frame, with no look at the read buffer. -/
def frameTurn (settings : SettingsData) (s : Session) (f : Frame) : Bool × Session :=
  if f.tooLong settings then (false, s) else s.dispatchFrame f.opcode f.fin f.payload

/-- The frames in their order, as far as the first that ends the connection. -/
def frameTurns (settings : SettingsData) : List Frame → Session → Bool × Session
  | [], s => (true, s)
  | f :: frames, s =>
    if f.carriesOn settings then frameTurns settings frames (s.frameTurn settings f).2
    else s.frameTurn settings f

/-- What a frame that ends the connection makes of it: one that is too long is not
answered, a CLOSE is echoed and reported, and any other one is a protocol error. -/
def ended (settings : SettingsData) (s : Session) (f : Frame) : Session :=
  if f.tooLong settings then s
  else if f.fin ∧ f.opcode = wsOpClose then (s.echoClose f.payload).runOnClose
  else s.sendProtocolClose.2

theorem frameTurn_fst (settings : SettingsData) (s : Session) (f : Frame) :
    (s.frameTurn settings f).1 = f.carriesOn settings := by
  unfold frameTurn Frame.carriesOn
  split
  · rename_i hlong
    rw [hlong]
    rfl
  · rename_i hshort
    rw [Bool.eq_false_iff.mpr hshort]
    exact dispatchFrame_fst s f

theorem frameTurns_fst (settings : SettingsData) (frames : List Frame) (s : Session) :
    (s.frameTurns settings frames).1 = frames.all (Frame.carriesOn settings) := by
  induction frames generalizing s with
  | nil => rfl
  | cons f frames ih =>
    rw [frameTurns, List.all_cons]
    split
    · rename_i hgoes
      rw [ih, hgoes, Bool.true_and]
    · rename_i hends
      rw [frameTurn_fst, Bool.eq_false_iff.mpr hends, Bool.false_and]

/-- The frames in front of the first that ends the connection, then that one. -/
theorem frameTurns_append_cons {settings : SettingsData} {frames : List Frame} {last : Frame}
    (behind : List Frame) (s : Session) (hgoes : ∀ f ∈ frames, f.carriesOn settings = true)
    (hends : last.carriesOn settings = false) :
    s.frameTurns settings (frames ++ last :: behind) =
      (s.frameTurns settings frames).2.frameTurn settings last := by
  induction frames generalizing s with
  | nil =>
    have hstop : ¬ last.carriesOn settings = true := by simp [hends]
    rw [List.nil_append]
    exact if_neg hstop
  | cons f frames ih =>
    have hf := hgoes f List.mem_cons_self
    rw [List.cons_append, frameTurns, if_pos hf, frameTurns, if_pos hf]
    exact ih _ fun g hg => hgoes g (List.mem_cons_of_mem _ hg)

theorem frameTurn_of_ends {settings : SettingsData} {f : Frame} (s : Session)
    (hends : f.carriesOn settings = false) :
    s.frameTurn settings f = (false, s.ended settings f) := by
  have hfst := s.frameTurn_fst settings f
  rw [hends] at hfst
  refine Prod.ext hfst ?_
  unfold frameTurn ended
  by_cases hlong : f.tooLong settings = true
  · rw [if_pos hlong, if_pos hlong]
  · have hstops : f.goesOn = false := by
      rwa [Frame.carriesOn, Bool.eq_false_iff.mpr hlong, Bool.not_false, Bool.true_and] at hends
    rw [if_neg hlong, if_neg hlong]
    unfold Frame.goesOn at hstops
    unfold dispatchFrame
    cases hfin : f.fin with
    | false =>
      rw [if_pos (by simp), if_neg (by simp)]
    | true =>
      rw [hfin, Bool.true_and] at hstops
      simp only [Bool.or_eq_false_iff, decide_eq_false_iff_not] at hstops
      obtain ⟨⟨⟨htext, hbinary⟩, hping⟩, hpong⟩ := hstops
      rw [if_neg (by simp), if_neg (not_or.mpr ⟨htext, hbinary⟩), if_neg hping, if_neg hpong]
      by_cases hclose : f.opcode = wsOpClose
      · rw [if_pos hclose, if_pos ⟨rfl, hclose⟩]
      · rw [if_neg hclose, if_neg fun h => hclose h.2]

end Session

namespace MaskedFrame

/-- A stream of frames in the read buffer, and behind them, unless one of them ends the
connection, at most the start of another frame. -/
theorem run_frameTurns (settings : SettingsData)
    (hbody : settings.maxBodySize.toNat + 14 < 2 ^ 64) (frames : List MaskedFrame) (rest : Bytes)
    (s : Session) (rb : RingBuffer) (hread : rb.unread = frames.flatMap encode ++ rest)
    (hrest : (s.frameTurns settings (frames.map frame)).1 = true →
      nextFrame settings rest = .needMore) :
    ∃ turns rb', FrameRun settings { s with readBuffer := rb } turns
        (s.frameTurns settings (frames.map frame)).1
        { (s.frameTurns settings (frames.map frame)).2 with readBuffer := rb' } ∧
      ((s.frameTurns settings (frames.map frame)).1 = true → rb'.unread = rest) := by
  induction frames generalizing s rb with
  | nil =>
    refine ⟨[], rb, FrameRun.wait ?_, fun _ => hread⟩
    rw [hread]
    exact hrest rfl
  | cons f frames ih =>
    rw [List.flatMap_cons, List.append_assoc] at hread
    rw [List.map_cons] at hrest ⊢
    have hnext : nextFrame settings rb.unread =
        if f.frame.tooLong settings then .reject
        else .frame f.frame.opcode f.frame.fin f.frame.payload f.encode.length := by
      rw [hread]
      exact f.nextFrame_encode settings hbody _
    have hfst := s.frameTurn_fst settings f.frame
    rw [Session.frameTurns] at hrest ⊢
    cases hlong : f.frame.tooLong settings with
    | true =>
      have hturn : s.frameTurn settings f.frame = (false, s) := by
        rw [Session.frameTurn, if_pos hlong]
      rw [hlong, if_pos rfl] at hnext
      rw [hturn] at hfst
      rw [if_neg (by simp [← hfst]), hturn]
      exact ⟨[], rb, FrameRun.reject hnext, fun h => absurd h (by simp)⟩
    | false =>
      rw [hlong, if_neg (by simp)] at hnext
      have hturn : s.frameTurn settings f.frame =
          s.dispatchFrame f.frame.opcode f.frame.fin f.frame.payload := by
        rw [Session.frameTurn, if_neg (by simp [hlong])]
      -- the dispatch behind the advance of the read buffer
      have hdispatch := s.dispatchFrame_setReadBuffer (rb.advance f.encode.length)
        f.frame.opcode f.frame.fin f.frame.payload
      rw [← hturn, hfst] at hdispatch
      cases hgoes : f.frame.carriesOn settings with
      | false =>
        rw [hgoes] at hdispatch hfst
        rw [if_neg (by simp), hfst]
        exact ⟨_, rb.advance f.encode.length, FrameRun.last hnext rfl hdispatch,
          fun h => absurd h (by simp)⟩
      | true =>
        rw [hgoes] at hdispatch hrest
        rw [if_pos rfl] at hrest ⊢
        have hbehind : (rb.advance f.encode.length).unread = frames.flatMap encode ++ rest := by
          rw [BoundedQueue.unread_advance, hread, List.drop_left]
        obtain ⟨turns, rb', hrun, hused⟩ :=
          ih (s.frameTurn settings f.frame).2 (rb.advance f.encode.length) hbehind hrest
        exact ⟨_, rb', FrameRun.next hnext rfl hdispatch hrun, hused⟩

end MaskedFrame

/-- The frames in any cut against the machine: the connection goes on or ends as the
machine does, with the same session but for its read buffer. -/
theorem feed_frames (settings : SettingsData)
    (hbody : settings.maxBodySize.toNat + 14 < 2 ^ 64) (frames : List MaskedFrame)
    (rest chunk : Bytes) (chunks : List Bytes) (s : Session)
    (hcut : chunk ++ chunks.flatten = frames.flatMap MaskedFrame.encode ++ rest)
    (hempty : s.readBuffer.unread = [])
    (hfit : (chunk ++ chunks.flatten).length ≤ s.readBuffer.free)
    (hrest : (s.frameTurns settings (frames.map MaskedFrame.frame)).1 = true →
      nextFrame settings rest = .needMore) :
    ∃ turns t, Session.feed settings (chunk :: chunks) s =
        some (turns, (s.frameTurns settings (frames.map MaskedFrame.frame)).1, t) ∧
      t = { (s.frameTurns settings (frames.map MaskedFrame.frame)).2 with
        readBuffer := t.readBuffer } := by
  obtain ⟨turns, alive, t, u, hfeed, hrun, hstate, -⟩ :=
    feed_run settings hbody chunks chunk s hfit
  have hread : (s.receive (chunk ++ chunks.flatten)).readBuffer.unread =
      frames.flatMap MaskedFrame.encode ++ rest := by
    show (s.readBuffer.push (chunk ++ chunks.flatten)).unread = _
    rw [BoundedQueue.unread_push_of_le _ _ hfit, hempty, List.nil_append, hcut]
  obtain ⟨turns', rb, hrun', -⟩ := MaskedFrame.run_frameTurns settings hbody frames rest s
    (s.receive (chunk ++ chunks.flatten)).readBuffer hread hrest
  have hboth := hrun.processTurns_eq.symm.trans hrun'.processTurns_eq
  rw [Option.some.injEq, Prod.mk.injEq, Prod.mk.injEq] at hboth
  obtain ⟨-, rfl, hu⟩ := hboth
  refine ⟨turns, t, hfeed, ?_⟩
  calc t = { u with readBuffer := t.readBuffer } := by rw [hstate]
    _ = _ := by rw [hu]

/-- A stream up to the first frame that ends the connection: the frames in front of it
have their effect, then the connection ends in the way that this frame asks for, and of
the bytes behind it none has an effect. -/
theorem stream_ends (settings : SettingsData)
    (hbody : settings.maxBodySize.toNat + 14 < 2 ^ 64) (frames : List MaskedFrame)
    (last : MaskedFrame) (rest chunk : Bytes) (chunks : List Bytes) (s : Session)
    (hgoes : ∀ f ∈ frames, f.frame.carriesOn settings = true)
    (hends : last.frame.carriesOn settings = false)
    (hcut : chunk ++ chunks.flatten =
      frames.flatMap MaskedFrame.encode ++ (last.encode ++ rest))
    (hempty : s.readBuffer.unread = [])
    (hfit : (chunk ++ chunks.flatten).length ≤ s.readBuffer.free) :
    ∃ turns t, Session.feed settings (chunk :: chunks) s = some (turns, false, t) ∧
      t = { (s.frameTurns settings (frames.map MaskedFrame.frame)).2.ended settings last.frame with
        readBuffer := t.readBuffer } := by
  have hall : frames.flatMap MaskedFrame.encode ++ (last.encode ++ rest) =
      (frames ++ [last]).flatMap MaskedFrame.encode ++ rest := by
    rw [List.flatMap_append, List.flatMap_singleton, List.append_assoc]
  have hmachine : s.frameTurns settings ((frames ++ [last]).map MaskedFrame.frame) =
      (false, (s.frameTurns settings (frames.map MaskedFrame.frame)).2.ended settings
        last.frame) := by
    rw [List.map_append, List.map_singleton, Session.frameTurns_append_cons [] s _ hends,
      Session.frameTurn_of_ends _ hends]
    intro f hf
    obtain ⟨g, hg, rfl⟩ := List.mem_map.mp hf
    exact hgoes g hg
  have hfeed := feed_frames settings hbody (frames ++ [last]) rest chunk chunks s
    (hcut.trans hall) hempty hfit (fun h => by
    rw [hmachine] at h
    simp at h)
  rwa [hmachine] at hfeed

def hiText : MaskedFrame := ⟨0x81, #v[9, 2, 3, 4], .seven, ascii "hi", by decide⟩
def heFragment : MaskedFrame := ⟨0x01, #v[5, 6, 7, 8], .seven, ascii "he", by decide⟩

theorem stream_ends_at_fragment :
    ∃ turns t, Session.feed configJson
        [[0x81, 0x82, 9, 2, 3, 4, 97, 107, 0x01], [0x82, 5, 6, 7, 8, 109, 99, 0x55]]
        (upgradedSession ⟨none, none, none⟩) = some (turns, false, t) ∧
      t = { ((upgradedSession ⟨none, none, none⟩).frameTurns configJson
          [hiText.frame]).2.ended configJson heFragment.frame with
        readBuffer := t.readBuffer } :=
  stream_ends configJson (by decide) [hiText] heFragment [0x55]
    [0x81, 0x82, 9, 2, 3, 4, 97, 107, 0x01] [[0x82, 5, 6, 7, 8, 109, 99, 0x55]]
    (upgradedSession ⟨none, none, none⟩) (by decide) (by decide) (by decide) rfl (by decide)

end WarpApi

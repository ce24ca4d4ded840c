import WarpApi.FrameRuns
import WarpApi.EpollSession
import WarpApi.UringRuns

/-!
What the write buffer holds. A response and a frame are appended whole or not at all
exactly when they fit or the buffer is full. Sessions change the buffer only by
appending messages and by releasing sent bytes, so as long as that condition is met
the content is what is left of complete messages, one behind the other.
-/
namespace WarpApi

/-- What `HttpResponse::setBody` or `ws::sendFrame` is asked to append. -/
inductive Message
  | response (r : HttpResponse) (body : Bytes)
  | frame (f : Frame)

namespace Message

/-- The complete serialisation. -/
def bytes : Message → Bytes
  | .response r body => r.serialise body
  | .frame f => f.bytes

def queue (out : RingBuffer) : Message → RingBuffer
  | .response r body => r.setBody body out
  | .frame f => sendFrame out f.opcode f.payload f.fin

/-- The complete serialisation was appended, or the buffer is unchanged. -/
def QueuedWhole (m : Message) (out out' : RingBuffer) : Prop :=
  out'.unread = out.unread ++ m.bytes ∨ out' = out

/-- The message fits, or not even its first byte does. -/
def FitsOrFull (m : Message) (out : RingBuffer) : Prop :=
  m.bytes.length ≤ out.free ∨ out.free = 0

instance (m : Message) (out : RingBuffer) : Decidable (m.FitsOrFull out) :=
  inferInstanceAs (Decidable (_ ∨ _))

theorem queue_eq_push (m : Message) (out : RingBuffer) : m.queue out = out.push m.bytes := by
  cases m with
  | response r body => exact r.setBody_eq_push body out
  | frame f => exact sendFrame_eq_push out f.opcode f.payload f.fin

theorem bytes_ne_nil (m : Message) : m.bytes ≠ [] := by
  cases m with
  | response r body => simp [bytes, HttpResponse.serialise, HttpResponse.pieces, ascii]
  | frame f =>
    unfold bytes Frame.bytes frameHeader
    simp

theorem queuedWhole_iff (m : Message) (out : RingBuffer) :
    m.QueuedWhole out (m.queue out) ↔ m.FitsOrFull out := by
  rw [queue_eq_push]
  exact out.push_whole_iff m.bytes m.bytes_ne_nil

end Message

/-- A change of the write buffer: a message is queued, or sent bytes leave it. -/
inductive BufferMove
  | queue (m : Message)
  | release (n : ℕ)

namespace BufferMove

def step (out : RingBuffer) : BufferMove → Option RingBuffer
  | .queue m => some (m.queue out)
  | .release n => some (out.advance n)

def message? : BufferMove → Option Message
  | .queue m => some m
  | .release _ => none

def messages (moves : List BufferMove) : List Message := moves.filterMap message?

/-- Every message finds room, or no room at all. -/
def Guard (out : RingBuffer) (move : BufferMove) : Prop :=
  ∀ m, move.message? = some m → m.FitsOrFull out

/-- Some of the messages were appended whole and the others left no byte. -/
theorem written_of_guarded (moves : List BufferMove) (out out' : RingBuffer)
    (hguard : Runs.Guarded step Guard out moves) (hrun : Runs.run step out moves = some out') :
    ∃ kept : List Message, kept.Sublist (messages moves) ∧
      out'.written = out.written ++ (kept.map Message.bytes).flatten ∧
      out.readPos ≤ out'.readPos := by
  induction moves generalizing out with
  | nil =>
    obtain rfl := Option.some.inj hrun
    exact ⟨[], List.nil_sublist _, by simp, Nat.le_refl _⟩
  | cons move moves ih =>
    obtain ⟨out₁, hstep, hrest⟩ := (Runs.run_cons_eq_some _ _ _ _).mp hrun
    obtain ⟨kept, hsub, hwritten, hread⟩ := ih out₁ (hguard.2 out₁ hstep) hrest
    cases move with
    | release n =>
      have hadvance : out.advance n = out₁ := Option.some.inj hstep
      subst hadvance
      refine ⟨kept, hsub, hwritten, ?_⟩
      have hle := out.readPos_le
      simp only [BoundedQueue.advance] at hread
      omega
    | queue m =>
      have hpush : out₁ = out.push m.bytes :=
        (Option.some.inj hstep).symm.trans (m.queue_eq_push out)
      subst hpush
      have hmessages : messages (.queue m :: moves) = m :: messages moves := rfl
      rw [hmessages]
      rcases hguard.1 m rfl with hfits | hfull
      · refine ⟨m :: kept, hsub.cons_cons m, ?_, hread⟩
        rw [hwritten, out.written_push_of_le m.bytes hfits]
        simp
      · rw [out.push_of_free_eq_zero m.bytes hfull] at hwritten
        exact ⟨kept, hsub.cons m, hwritten, hread⟩

/-- What is unread then is a suffix of what was unread before and complete messages. -/
theorem unread_of_guarded (moves : List BufferMove) (out out' : RingBuffer)
    (hguard : Runs.Guarded step Guard out moves) (hrun : Runs.run step out moves = some out') :
    ∃ kept : List Message, kept.Sublist (messages moves) ∧
      out'.unread <:+ out.unread ++ (kept.map Message.bytes).flatten := by
  obtain ⟨kept, hsub, hwritten, hread⟩ := written_of_guarded moves out out' hguard hrun
  refine ⟨kept, hsub, ?_⟩
  have hsplit : out.unread ++ (kept.map Message.bytes).flatten =
      out'.written.drop out.readPos := by
    rw [hwritten, List.drop_append_of_le_length out.readPos_le]
    rfl
  have hdrop : out'.unread =
      (out'.written.drop out.readPos).drop (out'.readPos - out.readPos) := by
    rw [List.drop_drop, Nat.add_sub_cancel' hread]
    rfl
  rw [hsplit, hdrop]
  exact List.drop_suffix _ _

end BufferMove

/-- The message that an entry of the log stands for. -/
def Obs.message? : Obs → Option Message
  | .response r body => some (.response r body)
  | .frame opcode fin payload => some (.frame ⟨opcode, fin, payload⟩)
  | _ => none

def queuedMessages (log : List Obs) : List Message := log.reverse.filterMap Obs.message?

/-- Between s and t the write buffer made these moves, and the messages among them are
those of the new entries of the log. -/
def Queues (s t : Session) : Prop :=
  ∃ moves new, Runs.run BufferMove.step s.writeBuffer moves = some t.writeBuffer ∧
    t.log = new ++ s.log ∧ queuedMessages new = BufferMove.messages moves

namespace Queues

theorem of_eq {s t : Session} (hlog : t.log = s.log) (hout : t.writeBuffer = s.writeBuffer) :
    Queues s t :=
  ⟨[], [], congrArg some hout.symm, hlog, rfl⟩

theorem trans (s t u : Session) (h : Queues s t) (h' : Queues t u) : Queues s u := by
  obtain ⟨moves, new, hrun, hlog, hmessages⟩ := h
  obtain ⟨moves', new', hrun', hlog', hmessages'⟩ := h'
  refine ⟨moves ++ moves', new' ++ new, ?_, ?_, ?_⟩
  · rw [Runs.run_append, hrun, Option.bind_some, hrun']
  · rw [hlog', hlog, List.append_assoc]
  · rw [queuedMessages, List.reverse_append, List.filterMap_append, BufferMove.messages,
      List.filterMap_append]
    exact congrArg₂ (· ++ ·) hmessages hmessages'

theorem note (s : Session) (o : Obs) (ho : o.message? = none) : Queues s (s.note o) :=
  ⟨[], [o], rfl, rfl, by simp [queuedMessages, ho, BufferMove.messages]⟩

theorem queue (s : Session) (m : Message) (o : Obs) (ho : o.message? = some m) :
    Queues s ({ s with writeBuffer := m.queue s.writeBuffer }.note o) :=
  ⟨[.queue m], [o], rfl, rfl,
    by simp [queuedMessages, ho, BufferMove.messages, BufferMove.message?]⟩

theorem release (s : Session) (n : ℕ) :
    Queues s { s with writeBuffer := s.writeBuffer.advance n } :=
  ⟨[.release n], [], rfl, rfl, rfl⟩

theorem answerRelation (server : Server) : AnswerRelation server Queues where
  refl := fun _ => of_eq rfl rfl
  trans := trans
  respond := fun s r body => queue s (.response r body) _ rfl
  ran := fun s _ => note s _ rfl
  done := fun s _ => note s _ rfl
  keepAliveOff := fun _ => of_eq rfl rfl
  closing := by
    intro s
    unfold Session.setClosingIfIoUring
    cases server.backend <;> exact of_eq rfl rfl

theorem frameRelation : FrameRelation Queues where
  refl := fun _ => of_eq rfl rfl
  trans := trans
  send := fun s opcode payload fin => queue s (.frame ⟨opcode, fin, payload⟩) _ rfl
  opened := fun s => note s _ rfl
  message := fun s _ => note s _ rfl
  closed := fun s => note s _ rfl
  state := fun _ _ => of_eq rfl rfl
  advance := fun _ _ => of_eq rfl rfl

theorem attemptRequest (settings : SettingsData) (s : Session) :
    Queues s (s.attemptRequest settings).2 := by
  cases hparse : (parseBytes settings s.readBuffer.unread s.req s.keepAlive).consumed with
  | none =>
    rw [Session.attemptRequest_of_none hparse]
    exact ⟨[], [_], rfl, rfl, rfl⟩
  | some n =>
    rw [Session.attemptRequest_of_some hparse]
    exact ⟨[], [_, _], rfl, rfl, rfl⟩

theorem processInput {server : Server} {s t : Session} {alive : Bool}
    (h : s.processInput server = some (alive, t)) : Queues s t :=
  processInput_relates (answerRelation server) frameRelation (attemptRequest server.settings) h

theorem epollRelation (server : Server) : EpollRelation server Queues where
  refl := fun _ => of_eq rfl rfl
  trans := trans
  close := fun _ => of_eq rfl rfl
  giveUp := fun _ => of_eq rfl rfl
  receive := fun _ _ => of_eq rfl rfl
  input := fun _ _ _ => processInput
  sent := release
  complete := by
    intro s
    unfold Session.onWriteComplete
    dsimp only
    split_ifs <;> exact ⟨[], [_], rfl, rfl, rfl⟩

theorem uringRelation (server : Server) : UringRelation server Queues where
  refl := fun _ => of_eq rfl rfl
  trans := trans
  input := by
    intro s bytes t _ hin
    unfold Session.takeInput at hin
    rw [Option.map_eq_some_iff] at hin
    obtain ⟨⟨alive, u⟩, hinput, rfl⟩ := hin
    have hreceive : Queues s ((s.setReading false).receive bytes) := of_eq rfl rfl
    have hu := trans _ _ _ hreceive (processInput hinput)
    cases alive with
    | true => exact hu
    | false => exact trans _ _ _ hu (of_eq rfl rfl)
  flags := fun _ _ => of_eq rfl rfl
  locked := fun _ _ => of_eq rfl rfl
  tick := fun _ _ => of_eq rfl rfl
  release := fun s => trans _ _ _ (release s s.lockedZcBytes) (of_eq rfl rfl)
  keepAliveOff := fun _ => of_eq rfl rfl
  closing := fun _ => of_eq rfl rfl
  close := fun _ => of_eq rfl rfl

end Queues

/-- A session and what later has become of it, in either build. -/
inductive Later (server : Server) (s t : Session) : Prop
  | epoll (es : List EpollEvent) (h : Runs.run (epollStep server) s es = some t)
  | ioUring (w w' : Worker) (sid : SessionId) (es : List Event) (hw : w.Sound)
      (hs : w.pool sid = some s) (h : Runs.run (Worker.step server) w es = some w')
      (ht : w'.pool sid = some t)

theorem Later.queues {server : Server} {s t : Session} (h : Later server s t) : Queues s t := by
  cases h with
  | epoll es hrun => exact (Queues.epollRelation server).run es s t hrun
  | ioUring w w' sid es hw hs hrun ht =>
    obtain ⟨s', hs', hqueues⟩ := Worker.relates_run (Queues.uringRelation server) hw
      (Worker.known_of_pool hw hs) hrun ht
    exact Option.some.inj (hs'.symm.trans hs) ▸ hqueues

/-- A message is appended whole or not at all exactly when it fits or there is no room
at all. In runs where every message does, the unread bytes are what is left of complete
messages; and all that sessions do to their write buffer is such a run. -/
theorem messages_queued_whole (server : Server) :
    (∀ (m : Message) out, m.QueuedWhole out (m.queue out) ↔ m.FitsOrFull out) ∧
      (∀ moves out out', Runs.Guarded BufferMove.step BufferMove.Guard out moves →
        Runs.run BufferMove.step out moves = some out' →
        ∃ kept : List Message, kept.Sublist (BufferMove.messages moves) ∧
          out'.unread <:+ out.unread ++ (kept.map Message.bytes).flatten) ∧
      (∀ s t, Later server s t →
        ∃ moves new, Runs.run BufferMove.step s.writeBuffer moves = some t.writeBuffer ∧
          t.log = new ++ s.log ∧ queuedMessages new = BufferMove.messages moves) :=
  ⟨Message.queuedWhole_iff, BufferMove.unread_of_guarded, fun _ _ h => h.queues⟩

/-- A 404 and a frame that a buffer of 64 bytes cuts off. -/
theorem not_queuedWhole :
    ¬ (Message.response ((Session.openResponse true).setStatus 404) notFoundBody).QueuedWhole
        (BoundedQueue.empty 64) (Message.queue (BoundedQueue.empty 64)
          (.response ((Session.openResponse true).setStatus 404) notFoundBody)) ∧
      ¬ (Message.frame ⟨wsOpText, true, List.replicate 100 97⟩).QueuedWhole
        (BoundedQueue.empty 64) (Message.queue (BoundedQueue.empty 64)
          (.frame ⟨wsOpText, true, List.replicate 100 97⟩)) := by
  rw [Message.queuedWhole_iff, Message.queuedWhole_iff]
  decide +kernel

end WarpApi

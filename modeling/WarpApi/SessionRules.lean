import WarpApi.Connections
import WarpApi.EpollCalls
import WarpApi.OutstandingOps

/-!
A rule for what holds of every session, in both event loops. Around the processing of
received bytes a loop flushes, closes, arms operations and sets timers, which leaves alone
what has been received and what has been answered. A property of the session that survives
this and the processing of the bytes holds all along every run.
-/
namespace WarpApi

/-- No byte has been read or answered in between. The request object is reset when the
write buffer runs empty, which is also logged. -/
structure Untouched (s t : Session) : Prop where
  mode_eq : t.mode = s.mode
  wsState_eq : t.wsState = s.wsState
  req_eq : t.req = s.req ∨ t.req = s.req.reset
  readBuffer_eq : t.readBuffer = s.readBuffer
  written_eq : t.writeBuffer.written = s.writeBuffer.written
  entries : NewEntries (fun o => ∃ socketOpen, o = .emptied socketOpen) s t

namespace Untouched

theorem of_eq {s t : Session}
    (h : (t.mode, t.wsState, t.req, t.readBuffer, t.writeBuffer.written, t.log) =
      (s.mode, s.wsState, s.req, s.readBuffer, s.writeBuffer.written, s.log)) :
    Untouched s t := by
  simp only [Prod.mk.injEq] at h
  obtain ⟨hmode, hws, hreq, hread, hwritten, hlog⟩ := h
  exact ⟨hmode, hws, Or.inl hreq, hread, hwritten, .of_log_eq hlog⟩

theorem refl (s : Session) : Untouched s s := .of_eq rfl

theorem trans {s t u : Session} (h : Untouched s t) (h' : Untouched t u) : Untouched s u where
  mode_eq := h'.mode_eq.trans h.mode_eq
  wsState_eq := h'.wsState_eq.trans h.wsState_eq
  req_eq := by
    rcases h.req_eq with hreq | hreq
    · rw [← hreq]
      exact h'.req_eq
    · right
      rcases h'.req_eq with hreq' | hreq'
      · exact hreq'.trans hreq
      · rw [hreq', hreq]
        rfl
  readBuffer_eq := h'.readBuffer_eq.trans h.readBuffer_eq
  written_eq := h'.written_eq.trans h.written_eq
  entries := h.entries.trans h'.entries

theorem close (s : Session) : Untouched s s.close := .of_eq rfl

theorem giveUp (s : Session) : Untouched s { s with keepAlive := false }.close :=
  .of_eq rfl

theorem sent (s : Session) (n : ℕ) :
    Untouched s { s with writeBuffer := s.writeBuffer.advance n } := .of_eq rfl

theorem onWriteComplete (s : Session) : Untouched s s.onWriteComplete := by
  unfold Session.onWriteComplete
  dsimp only
  split_ifs
  · exact ⟨rfl, rfl, Or.inr rfl, rfl, rfl, .of_cons rfl ⟨_, rfl⟩⟩
  · exact ⟨rfl, rfl, Or.inl rfl, rfl, rfl, .of_cons rfl ⟨_, rfl⟩⟩
  · exact ⟨rfl, rfl, Or.inl rfl, rfl, rfl, .of_cons rfl ⟨_, rfl⟩⟩

theorem tick (s : Session) (now : ℕ) : Untouched s { s with lastActivityTick := now } :=
  .of_eq rfl

theorem sendLoop (sends : List SendResult) (wrote : Bool) (s : Session)
    (out : (Bool × Session) × List SendResult) (h : s.sendLoop sends wrote = some out) :
    Untouched s out.1.2 := by
  induction sends generalizing s wrote with
  | nil =>
    unfold Session.sendLoop at h
    split_ifs at h
    · exact Option.some.inj h ▸ onWriteComplete s
    · exact Option.some.inj h ▸ close s
  | cons r sends ih =>
    unfold Session.sendLoop at h
    split_ifs at h
    · exact Option.some.inj h ▸ onWriteComplete s
    · exact Option.some.inj h ▸ close s
    · cases r with
      | sent n =>
        dsimp only at h
        split_ifs at h
        exact (sent s n).trans (ih true _ h)
      | wouldBlock => exact Option.some.inj h ▸ refl s
      | error => exact Option.some.inj h ▸ close s

theorem onWriteReady (sends : List SendResult) (s : Session)
    (out : (Bool × Session) × List SendResult) (h : s.onWriteReady sends = some out) :
    Untouched s out.1.2 := by
  unfold Session.onWriteReady at h
  split at h
  · exact Option.some.inj h ▸ refl s
  · exact sendLoop sends false s out h

theorem flush (sends : List SendResult) (s : Session)
    (out : (Bool × Session) × List SendResult) (h : s.flush sends = some out) :
    Untouched s out.1.2 := by
  unfold Session.flush at h
  split at h
  · exact Option.some.inj h ▸ refl s
  · obtain ⟨q, hready, rfl⟩ := Option.map_eq_some_iff.mp h
    exact onWriteReady sends s q hready

end Untouched

/-- What a session keeps, as long as it receives nothing else than it may be fed. -/
structure SessionRule (server : Server) (feeds : Session → Bytes → Prop) (P : Session → Prop) :
    Prop where
  start : ∀ self socket, P (Session.init server.settings self socket)
  untouched : ∀ s t, Untouched s t → P s → P t
  feeds_setReading : ∀ s chunk, feeds s chunk → feeds (s.setReading false) chunk
  input : ∀ s chunk alive t, P s → feeds s chunk → chunk.length ≤ s.readBuffer.free →
    (s.receive chunk).processInput server = some (alive, t) → P t

/-- What the first property is fed suits the second one too. -/
theorem SessionRule.and {server : Server} {feeds feeds' : Session → Bytes → Prop}
    {P Q : Session → Prop} (h : SessionRule server feeds P) (h' : SessionRule server feeds' Q)
    (hfeeds : ∀ s chunk, P s → feeds s chunk → feeds' s chunk) :
    SessionRule server feeds fun s => P s ∧ Q s where
  start self socket := ⟨h.start self socket, h'.start self socket⟩
  untouched s t ht hs := ⟨h.untouched s t ht hs.1, h'.untouched s t ht hs.2⟩
  feeds_setReading := h.feeds_setReading
  input s chunk alive t hs hfed hfits hinput :=
    ⟨h.input s chunk alive t hs.1 hfed hfits hinput,
      h'.input s chunk alive t hs.2 (hfeeds s chunk hs.1 hfed) hfits hinput⟩

namespace Conversation

variable (c : Conversation) (s : Session)

theorem untouched_readNext : Untouched s (c.readNext s).session := by
  unfold readNext
  split_ifs
  · exact .close s
  · exact .close s
  · exact .refl s

theorem untouched_flushNext : Untouched s (c.flushNext s).session := by
  unfold flushNext
  split
  · exact c.untouched_readNext s
  · exact .refl s

theorem untouched_returnWrite : Untouched s (c.returnWrite s).session := by
  unfold returnWrite
  split_ifs
  · exact c.untouched_readNext s
  · exact .refl s
  · exact .refl s

theorem untouched_send {c c' : Conversation} {r : SendResult} (h : c.send r = some c') :
    Untouched c.session c'.session := by
  cases r with
  | sent n =>
    have haccept : Untouched c.session (c.accept n).session := .sent c.session n
    obtain ⟨-, -, ⟨-, rfl⟩ | ⟨-, rfl⟩⟩ := send_sent_eq_some h
    · exact haccept.trans ((Untouched.onWriteComplete _).trans (untouched_returnWrite _ _))
    · exact haccept
  | wouldBlock => exact Option.some.inj h ▸ untouched_returnWrite _ _
  | error => exact Option.some.inj h ▸ (Untouched.close _).trans (untouched_returnWrite _ _)

end Conversation

namespace SessionRule

variable {server : Server} {feeds : Session → Bytes → Prop} {P : Session → Prop}

theorem recv (h : SessionRule server feeds P) {c c' : Conversation} {r : RecvResult}
    (hs : P c.session) (hfed : ∀ chunk, r = .data chunk → feeds c.session chunk)
    (hstep : c.recv server r = some c') : P c'.session := by
  cases r with
  | data chunk =>
    have hfits : chunk.length ≤ c.session.readBuffer.free := by
      dsimp only [Conversation.recv] at hstep
      split_ifs at hstep with hbad
      omega
    obtain ⟨alive, t, hinput, rfl⟩ := Conversation.recv_data_eq_some hstep
    have ht := h.input _ chunk alive t hs (hfed chunk rfl) hfits hinput
    cases alive with
    | true => exact h.untouched _ _ (c.untouched_flushNext t) ht
    | false => exact h.untouched t _ (.giveUp t) ht
  | eof => exact Option.some.inj hstep ▸ h.untouched _ _ (.close _) hs
  | wouldBlock => exact Option.some.inj hstep ▸ hs
  | error => exact Option.some.inj hstep ▸ h.untouched _ _ (.close _) hs

theorem call (h : SessionRule server feeds P) {c c' : Conversation} {call : SysCall}
    (hs : P c.session) (hfed : ∀ chunk, call = .recv (.data chunk) → feeds c.session chunk)
    (hstep : c.step server call = some c') : P c'.session := by
  cases call with
  | readable =>
    dsimp only [Conversation.step] at hstep
    split_ifs at hstep
    exact Option.some.inj hstep ▸ h.untouched _ _ (c.untouched_readNext _) hs
  | writable =>
    dsimp only [Conversation.step] at hstep
    split_ifs at hstep
    · exact Option.some.inj hstep ▸ hs
    · exact Option.some.inj hstep ▸ h.untouched _ _ (.close _) hs
    · exact Option.some.inj hstep ▸ hs
  | recv r =>
    dsimp only [Conversation.step] at hstep
    split_ifs at hstep
    exact h.recv hs (fun chunk hr => hfed chunk (congrArg SysCall.recv hr)) hstep
  | send r =>
    dsimp only [Conversation.step] at hstep
    split_ifs at hstep
    exact h.untouched _ _ (Conversation.untouched_send hstep) hs

theorem conversation (h : SessionRule server feeds P) {self : SessionId} {socket : ℤ}
    {calls : List SysCall} {c : Conversation}
    (hfed : Runs.Guarded (Conversation.step server)
      (fun c call => ∀ chunk, call = .recv (.data chunk) → feeds c.session chunk)
      (Conversation.start (Session.init server.settings self socket)) calls)
    (hrun : Runs.run (Conversation.step server)
      (Conversation.start (Session.init server.settings self socket)) calls = some c) :
    P c.session :=
  Runs.invariant_of_guarded (I := fun c : Conversation => P c.session)
    (fun _ _ _ hs hfed hstep => h.call hs hfed hstep) (h.start self socket) hfed hrun

end SessionRule

/-- The chunks that the loop of `onReadReady` takes, each with the session that it comes to. -/
def Session.deliveries (server : Server) :
    List RecvResult → List SendResult → Session → List (Session × Bytes)
  | .data chunk :: recvs, sends, s =>
    if s.readBuffer.free = 0 ∨ s.isOpen = false then []
    else (s, chunk) ::
      match (s.receive chunk).processInput server with
      | some (true, t) =>
        match t.flush sends with
        | some ((true, u), sends) => deliveries server recvs sends u
        | _ => []
      | _ => []
  | _, _, _ => []

namespace SessionRule

variable {server : Server} {feeds : Session → Bytes → Prop} {P : Session → Prop}

theorem readLoop (h : SessionRule server feeds P) (recvs : List RecvResult)
    (sends : List SendResult) (read : Bool) (s : Session)
    (out : (Bool × Session) × List SendResult)
    (hfed : ∀ d ∈ s.deliveries server recvs sends, feeds d.1 d.2) (hs : P s)
    (hout : s.readLoop server recvs sends read = some out) : P out.1.2 := by
  have hrun := readRun_of_readLoop hout
  clear hout
  induction hrun with
  | ended => exact h.untouched _ _ (.close _) hs
  | failed => exact h.untouched _ _ (.close _) hs
  | drained => exact hs
  | gaveUp hgoes hbytes hinput =>
    rw [Session.deliveries, if_neg hgoes] at hfed
    have hfits := Nat.not_lt.mp (not_or.mp hbytes).2
    have ht := h.input _ _ _ _ hs (hfed _ List.mem_cons_self) hfits hinput
    exact h.untouched _ _ (.giveUp _) ht
  | blocked hgoes hbytes hinput hflush =>
    rw [Session.deliveries, if_neg hgoes] at hfed
    have hfits := Nat.not_lt.mp (not_or.mp hbytes).2
    have ht := h.input _ _ _ _ hs (hfed _ List.mem_cons_self) hfits hinput
    have hkept := Untouched.flush _ _ _ hflush
    exact h.untouched _ _ hkept ht
  | again hgoes hbytes hinput hflush _ ih =>
    rw [Session.deliveries, if_neg hgoes] at hfed
    have hfits := Nat.not_lt.mp (not_or.mp hbytes).2
    have ht := h.input _ _ _ _ hs (hfed _ List.mem_cons_self) hfits hinput
    have hkept := Untouched.flush _ _ _ hflush
    simp only [hinput, hflush] at hfed
    exact ih (fun d hd => hfed d (List.mem_cons_of_mem _ hd)) (h.untouched _ _ hkept ht)

end SessionRule

def EpollEvent.deliveries (server : Server) (s : Session) (e : EpollEvent) :
    List (Session × Bytes) :=
  if e.readable then s.deliveries server e.recvs e.sends else []

def ClientAct.deliveries (server : Server) (s : Session) : ClientAct → List (Session × Bytes)
  | .turn e _ => e.deliveries server s
  | .hangUp e => e.deliveries server s
  | _ => []

/-- What a connection receives is what it may be fed. -/
def ConnectionFed (server : Server) (feeds : Session → Bytes → Prop) (client : Option Session)
    (act : ClientAct) : Prop :=
  ∀ s, client = some s → ∀ d ∈ act.deliveries server s, feeds d.1 d.2

namespace SessionRule

variable {server : Server} {feeds : Session → Bytes → Prop} {P : Session → Prop}

theorem serveSession (h : SessionRule server feeds P) {s t : Session} {e : EpollEvent}
    {activity : Bool} (hfed : ∀ d ∈ e.deliveries server s, feeds d.1 d.2) (hs : P s)
    (hserve : serveSession server s e = some (activity, t)) : P t := by
  unfold WarpApi.serveSession at hserve
  obtain ⟨⟨⟨read, u⟩, sends⟩, hread, hwrite⟩ := Option.bind_eq_some_iff.mp hserve
  have hu : P u := by
    unfold readPart at hread
    unfold EpollEvent.deliveries at hfed
    split_ifs at hread with hreadable
    · rw [if_pos hreadable] at hfed
      exact h.readLoop e.recvs e.sends false s _ hfed hs hread
    · obtain ⟨⟨-, rfl⟩, -⟩ := Prod.mk.inj (Option.some.inj hread) |>.imp_left Prod.mk.inj
      exact hs
  dsimp only at hwrite
  split_ifs at hwrite
  · obtain ⟨⟨⟨wrote, v⟩, rest⟩, hready, heq⟩ := Option.map_eq_some_iff.mp hwrite
    obtain ⟨-, rfl⟩ := Prod.mk.inj heq
    exact h.untouched _ _ (.onWriteReady sends u _ hready) hu
  · obtain ⟨-, rfl⟩ := Prod.mk.inj (Option.some.inj hwrite)
    exact hu

theorem connection (h : SessionRule server feeds P) {id : SessionId} {acts : List ClientAct}
    {s : Session}
    (hfed : Runs.Guarded (connectionStep server id) (ConnectionFed server feeds) none acts)
    (hrun : Runs.run (connectionStep server id) none acts = some (some s)) : P s := by
  refine Runs.invariant_of_guarded (I := fun client : Option Session => ∀ s, client = some s → P s)
    (fun client act client' hclient hguard hstep => ?_) (fun s hs => absurd hs (by simp)) hfed
    hrun s rfl
  cases client with
  | none =>
    cases act with
    | accept fd =>
      rintro t rfl
      exact Option.some.inj (Option.some.inj hstep) ▸ h.start id fd
    | _ => simp [connectionStep] at hstep
  | some u =>
    have hu := hclient u rfl
    have hdeliveries := hguard u rfl
    cases act with
    | accept fd => simp [connectionStep] at hstep
    | turn e now =>
      obtain ⟨⟨activity, t⟩, hserve, rfl⟩ := Option.map_eq_some_iff.mp hstep
      have ht := h.serveSession hdeliveries hu hserve
      rintro v hv
      obtain rfl := Option.some.inj hv
      unfold Session.touched
      split_ifs
      · exact h.untouched t _ (.tick t now) ht
      · exact ht
    | hangUp e =>
      obtain ⟨-, -, rfl⟩ := Option.map_eq_some_iff.mp hstep
      exact fun v hv => absurd hv (by simp)
    | timeout =>
      obtain rfl := Option.some.inj hstep
      exact fun v hv => absurd hv (by simp)

end SessionRule

/-- All connections of a worker. -/
theorem EpollWorker.rule {server : Server} {feeds : SessionId → Session → Bytes → Prop}
    {P : SessionId → Session → Prop} (h : ∀ id, SessionRule server (feeds id) (P id))
    {es : List LoopEvent} {w : EpollWorker}
    (hfed : ∀ id, Runs.Guarded (connectionStep server id) (ConnectionFed server (feeds id)) none
      (SideBySide.labelsOf id (actsOf server es)))
    (hrun : Runs.run (step server) init es = some w) {a : Slot} {s : Session}
    (huse : w.inUse a = true) (hmemory : w.memory a = some s) : P s.self s := by
  obtain ⟨clients, hclients, hrepresents⟩ := exists_represented hrun
  have hown := (SideBySide.run_iff _ _ _).mp hclients s.self
  rw [(hrepresents s.self s).mpr ⟨a, huse, hmemory, rfl⟩] at hown
  exact (h s.self).connection (hfed s.self) hown

/-- An outstanding recv brings no more than the read buffer has room for. -/
def RoomKept (sid : SessionId) (s : Session) (ops : Multiset Op) : Prop :=
  ∀ room, .recv sid room ∈ ops → room ≤ s.readBuffer.free

section handled

variable {server : Server} {sid : SessionId} {ring : Ring} {e : Event} {s t : Session}
  {added next : List Op} {op : Op} {rest : Multiset Op}

theorem not_mem_of_recvs_eq_zero {ops : Multiset Op} (h : recvs ops = 0) (room : ℕ) :
    .recv sid room ∉ ops := by
  intro hop
  exact Multiset.countP_eq_zero.mp h _ hop rfl

/-- No recv is added, and the read buffer is as before. -/
theorem RoomKept.of_rest (h : RoomKept sid s (op ::ₘ rest)) (hread : t.readBuffer = s.readBuffer)
    (hadded : recvs (opsOf sid added) = 0) (hnext : recvs (opsOf sid next) = 0) :
    RoomKept sid t (opsOf sid added + (opsOf sid next + rest)) := by
  intro room hop
  rw [hread]
  rcases Multiset.mem_add.mp hop with hop | hop
  · exact absurd hop (not_mem_of_recvs_eq_zero hadded room)
  · rcases Multiset.mem_add.mp hop with hop | hop
    · exact absurd hop (not_mem_of_recvs_eq_zero hnext room)
    · exact h room (Multiset.mem_cons_of_mem hop)

/-- A send that moves on is no recv. -/
theorem RoomKept.moved {op' : Op} (h : RoomKept sid s (op ::ₘ rest)) (hop' : op'.isRecv = false) :
    RoomKept sid s (op' ::ₘ rest) := by
  intro room hop
  rcases Multiset.mem_cons.mp hop with rfl | hop
  · exact absurd hop' (Bool.false_ne_true ∘ Eq.symm)
  · exact h room (Multiset.mem_cons_of_mem hop)

/-- The recv of a new session asks for all of its read buffer. -/
theorem RoomKept.born (s : Session) :
    RoomKept sid s.onReadReadySqe.1 (opsOf sid [s.onReadReadySqe.2]) := by
  intro room hop
  have hmem := List.mem_singleton.mp (mem_opsOf.mp hop).1
  unfold Session.onReadReadySqe at hmem ⊢
  split at hmem
  · exact absurd hmem (by simp)
  · rename_i hfree
    rw [if_neg hfree]
    exact le_of_eq (Op.recv.inj hmem).2

theorem Untouched.onReadReadySqe (s : Session) : Untouched s s.onReadReadySqe.1 := by
  unfold Session.onReadReadySqe
  split
  · exact .close _
  · exact .of_eq rfl

theorem Untouched.touched {linked linked' : Bool} (h : Touched s linked t linked') :
    Untouched s t := by
  rcases h with ⟨rfl, -⟩ | ⟨⟨now, rfl⟩, -⟩
  · exact .refl _
  · exact .tick _ now

/-- Only received bytes are read and answered, and no other completion makes for a recv. -/
theorem Handled.untouched (h : Handled server ring e s t added)
    (hdata : ∀ sid room bytes now, e ≠ .recv sid room (.data bytes) now) :
    Untouched s t ∧ ∀ op ∈ added, op.isRecv = false := by
  cases h with
  | @data sid room now bytes => exact absurd rfl (hdata sid room bytes now)
  | @failed sid more now =>
    refine ⟨?_, fun op hop => absurd hop List.not_mem_nil⟩
    cases more with
    | true => exact .of_eq rfl
    | false => exact .of_eq rfl
  | notifSend =>
    refine ⟨.of_eq rfl, fun op hop => ?_⟩
    rw [List.mem_singleton.mp hop]
    rfl
  | _ => exact ⟨.of_eq rfl, fun op hop => absurd hop List.not_mem_nil⟩

/-- The recv that follows received bytes asks for what is free behind them. -/
theorem RoomKept.of_armed {ring' : Ring} {s₂ : Session} {wOps rOps : List Op}
    (hwrite : WriteArmed s ring s₂ wOps) (hread : ReadArmed s₂ ring' t rOps)
    (hrest : recvs rest = 0) :
    RoomKept sid t (opsOf sid (wOps ++ rOps) + (opsOf sid [] + rest)) := by
  intro room hop
  rcases Multiset.mem_add.mp hop with hop | hop
  · rcases List.mem_append.mp (mem_opsOf.mp hop).1 with hop | hop
    · cases hwrite with
      | sends => simp at hop
      | noEntry => exact absurd hop List.not_mem_nil
      | idle => exact absurd hop List.not_mem_nil
    · cases hread with
      | receives =>
        obtain ⟨-, rfl⟩ := Op.recv.inj (List.mem_singleton.mp hop)
        exact Nat.le_refl _
      | gaveUp => simp at hop
      | noEntry => exact absurd hop List.not_mem_nil
      | idle => exact absurd hop List.not_mem_nil
  · rw [opsOf_nil, zero_add] at hop
    exact absurd hop (not_mem_of_recvs_eq_zero hrest room)

theorem Untouched.armed {ring' : Ring} {s₂ : Session} {wOps rOps : List Op}
    (hwrite : WriteArmed s ring s₂ wOps) (hread : ReadArmed s₂ ring' t rOps) :
    Untouched s t := by
  have hs₂ : Untouched s s₂ := by
    cases hwrite with
    | sends => exact .of_eq rfl
    | noEntry => exact .refl s
    | idle => exact .refl s
  refine hs₂.trans ?_
  cases hread with
  | receives => exact .of_eq rfl
  | gaveUp => exact .close _
  | noEntry => exact .refl _
  | idle => exact .refl _

end handled

/-- What the active sessions receive is what they may be fed. -/
def View.Feeds (feeds : SessionId → Session → Bytes → Prop) : ViewGuard := fun _ e v =>
  ∀ sid room chunk now s, e = .recv sid room (.data chunk) now → v.session = some s →
    s.status = .active → feeds sid s chunk

/-- A completion that brings bytes keeps to the room that its recv asked for. -/
def Event.Deliverable (e : Event) : Prop :=
  ∀ sid room res now, e = .recv sid room res now → Worker.deliverable room res = true

theorem deliverable_of_step {server : Server} (w : Worker) (e : Event) (w' : Worker)
    (h : w.step server e = some w') : e.Deliverable := by
  rintro sid room res now rfl
  dsimp only [Worker.step] at h
  split_ifs at h with hdeliverable
  exact hdeliverable

/-- A session with the property, which finds room for what its recv brings. -/
structure Ruled (P : Session → Prop) (sid : SessionId) (v : View) : Prop where
  counted : Counted sid v
  holds : ∀ s, v.session = some s → P s
  roomKept : ∀ s, v.session = some s → RoomKept sid s v.ops

section ruled

variable {server : Server} {feeds : SessionId → Session → Bytes → Prop} {P : Session → Prop}
  {sid : SessionId} {ring : Ring} {e : Event} {v v' : View}

theorem ruled_unused : Ruled P sid View.unused where
  counted := counted_unused sid
  holds _ hs := absurd hs (by simp [View.unused])
  roomKept _ hs := absurd hs (by simp [View.unused])

theorem SessionRule.handled (h : SessionRule server (feeds sid) P) {op : Op}
    {next added : List Op} {s t : Session} {rest : Multiset Op} {linked : Bool} {wire : Bytes}
    (hv : Ruled P sid ⟨some s, op ::ₘ rest, linked, wire⟩)
    (hfed : View.Feeds feeds ring e ⟨some s, op ::ₘ rest, linked, wire⟩)
    (hdeliverable : e.Deliverable) (hcompletes : Completes e sid op next)
    (hactive : s.status = .active) (hhandled : Handled server ring e s t added) :
    P t ∧ RoomKept sid t (opsOf sid added + (opsOf sid next + rest)) := by
  have hs := hv.holds s rfl
  have hroom := hv.roomKept s rfl
  by_cases hdata : ∀ sid room bytes now, e ≠ .recv sid room (.data bytes) now
  · obtain ⟨huntouched, hadded⟩ := hhandled.untouched hdata
    refine ⟨h.untouched s t huntouched hs,
      hroom.of_rest huntouched.readBuffer_eq ?_ hcompletes.recvs_next⟩
    apply Multiset.countP_eq_zero.mpr
    intro op' hop'
    rw [hadded op' (mem_opsOf.mp hop').1]
    exact Bool.false_ne_true
  · push Not at hdata
    obtain ⟨sid', room, bytes, now, rfl⟩ := hdata
    cases hcompletes
    cases hhandled with
    | @data _ _ _ _ _ s₁ s₂ _ wOps rOps hin hwrite hread =>
      have hfits : bytes.length ≤ (s.setReading false).readBuffer.free := by
        have hle := hdeliverable sid room _ now rfl
        simp only [Worker.deliverable, Bool.and_eq_true, decide_eq_true_eq] at hle
        exact hle.2.trans (hroom room (Multiset.mem_cons_self _ _))
      have hbefore : P (s.setReading false) :=
        h.untouched s _ (.of_eq rfl) hs
      obtain ⟨⟨alive, u⟩, hinput, hu⟩ := Option.map_eq_some_iff.mp hin
      have hafter : P u := h.input _ bytes alive u hbefore
        (h.feeds_setReading s bytes (hfed sid room bytes now s rfl rfl hactive)) hfits hinput
      have hs₁ : P s₁ := by
        rw [← hu]
        dsimp only
        split_ifs
        · exact hafter
        · exact h.untouched u _ (.of_eq rfl) hafter
      exact ⟨h.untouched s₁ t (.armed hwrite hread) hs₁,
        RoomKept.of_armed hwrite hread ((hv.counted.counts s rfl).recvs_rest rfl)⟩
    | endClosed hres => exact absurd rfl (hres bytes)
    | endWaiting hres => exact absurd rfl (hres bytes)

theorem SessionRule.localStep (h : SessionRule server (feeds sid) P) (hv : Ruled P sid v)
    (hfed : View.Feeds feeds ring e v) (hdeliverable : e.Deliverable)
    (hkeyed : ∀ s, v.session = some s → s.self = sid)
    (hstep : LocalStep server sid ring e v v') : Ruled P sid v' := by
  have hcounted := hv.counted.step hkeyed hstep
  cases hstep with
  | born fd more hfull =>
    refine ⟨hcounted, fun s hs => ?_, fun s hs => ?_⟩
    · rw [← Option.some.inj hs]
      exact h.untouched _ _ (.onReadReadySqe _) (h.start sid fd)
    · rw [← Option.some.inj hs]
      exact .born _
  | released =>
    exact ⟨hcounted, fun s hs => absurd hs (by simp), fun s hs => absurd hs (by simp)⟩
  | @ignored _ op next s rest linked wire hcompletes =>
    refine ⟨hcounted, hv.holds, fun t ht => ?_⟩
    have hrest : RoomKept sid s (opsOf sid [] + (opsOf sid next + rest)) :=
      (hv.roomKept s rfl).of_rest rfl rfl hcompletes.recvs_next
    rw [opsOf_nil, zero_add] at hrest
    exact Option.some.inj ht ▸ hrest
  | handled hcompletes hactive hhandled htouched =>
    obtain ⟨hholds, hroom⟩ := h.handled hv hfed hdeliverable hcompletes hactive hhandled
    refine ⟨hcounted, fun s hs => ?_, fun s hs => ?_⟩
    · rw [← Option.some.inj hs]
      exact h.untouched _ _ (.touched htouched) hholds
    · rw [← Option.some.inj hs]
      unfold RoomKept
      rw [(Untouched.touched htouched).readBuffer_eq]
      exact hroom
  | performed => exact ⟨hcounted, hv.holds, fun s hs => (hv.roomKept s hs).moved rfl⟩
  | refused => exact ⟨hcounted, hv.holds, fun s hs => (hv.roomKept s hs).moved rfl⟩
  | expiredFreed =>
    exact ⟨hcounted, fun s hs => absurd hs (by simp), fun s hs => absurd hs (by simp)⟩
  | @expiredKept s =>
    refine ⟨hcounted, fun t ht => ?_, fun t ht => ?_⟩
    · rw [← Option.some.inj ht]
      exact h.untouched s _ (.of_eq rfl) (hv.holds s rfl)
    · rw [← Option.some.inj ht]
      exact fun room hop => hv.roomKept s rfl room hop

end ruled

theorem Worker.rule {server : Server} {feeds : SessionId → Session → Bytes → Prop}
    {P : SessionId → Session → Prop} (h : ∀ sid, SessionRule server (feeds sid) (P sid))
    {entries : ℕ} {es : List Event} {w : Worker}
    (hfed : Runs.Guarded (step server) (Meets (View.Feeds feeds)) (init entries) es)
    (hrun : Runs.run (step server) (init entries) es = some w) (sid : SessionId) :
    Ruled (P sid) sid (w.view sid) := by
  have hboth : Runs.Guarded (step server)
      (Meets fun ring e v => View.Feeds feeds ring e v ∧ e.Deliverable) (init entries) es :=
    hfed.and_of_run deliverable_of_step hrun
  exact views_of_run (fun _ => ruled_unused)
    (fun sid _ _ _ _ hv hguard hkeyed hstep =>
      (h sid).localStep hv hguard.1 hguard.2 hkeyed hstep) hboth hrun sid

end WarpApi

import WarpApi.HandleRequest
import WarpApi.Library.Runs

/-!
The epoll backend: `Session::onReadReady`, `onWriteReady` and `onWriteComplete`,
and the part of `EventLoop::runWorker` that calls them for one session. The
results of the system calls are given as scripts, one list for recv and one for
send; a call on a descriptor that was given back fails.
-/
namespace WarpApi

inductive SendResult
  | sent (n : ℕ)
  | wouldBlock
  | error
  deriving DecidableEq

namespace Session

def onWriteComplete (s : Session) : Session :=
  let s :=
    if s.keepAlive then
      if s.mode = .http then { s with req := s.req.reset } else s
    else s.close
  s.note (.emptied s.isOpen)

/-- The loop of `onWriteReady`: its return value, and the results not used yet. -/
def sendLoop (sends : List SendResult) (wrote : Bool) (s : Session) :
    Option ((Bool × Session) × List SendResult) :=
  if s.writeBuffer.size = 0 then some ((wrote, s.onWriteComplete), sends)
  else if !s.isOpen then some ((true, s.close), sends)
  else match sends with
    | [] => none
    | .sent n :: sends =>
      if 0 < n ∧ n ≤ s.writeBuffer.size then
        sendLoop sends true { s with writeBuffer := s.writeBuffer.advance n }
      else none
    | .wouldBlock :: sends => some ((wrote, s), sends)
    | .error :: sends => some ((true, s.close), sends)

def onWriteReady (sends : List SendResult) (s : Session) :
    Option ((Bool × Session) × List SendResult) :=
  if s.writeBuffer.size = 0 then some ((false, s), sends) else s.sendLoop sends false

/-- The flush in the read loop; `true`: the socket took everything. -/
def flush (sends : List SendResult) (s : Session) : Option ((Bool × Session) × List SendResult) :=
  if s.writeBuffer.size = 0 then some ((true, s), sends)
  else (s.onWriteReady sends).map fun ((_, s), sends) => ((s.writeBuffer.size = 0, s), sends)

/-- The loop of `onReadReady`. -/
def readLoop (server : Server) (recvs : List RecvResult) (sends : List SendResult) (read : Bool)
    (s : Session) : Option ((Bool × Session) × List SendResult) :=
  if s.readBuffer.free = 0 then some ((true, s.close), sends)
  else if !s.isOpen then some ((true, s.close), sends)
  else match recvs with
    | [] => none
    | .data bytes :: recvs =>
      if bytes = [] ∨ s.readBuffer.free < bytes.length then none
      else match (s.receive bytes).processInput server with
        | none => none
        | some (false, s) => some ((true, { s with keepAlive := false }.close), sends)
        | some (true, s) =>
          match s.flush sends with
          | none => none
          | some ((false, s), sends) => some ((true, s), sends)
          | some ((true, s), sends) => readLoop server recvs sends true s
    | .eof :: _ => some ((true, s.close), sends)
    | .wouldBlock :: _ => some ((read, s), sends)
    | .error :: _ => some ((true, s.close), sends)

def onReadReady (server : Server) (recvs : List RecvResult) (sends : List SendResult)
    (s : Session) : Option ((Bool × Session) × List SendResult) :=
  s.readLoop server recvs sends false

end Session

/-- One event that epoll reports for the session's descriptor, with the results of
the system calls that its handling makes. -/
structure EpollEvent where
  readable : Bool
  writable : Bool
  recvs : List RecvResult
  sends : List SendResult
  deriving DecidableEq

/-- `if (evs & EPOLLIN) session->onReadReady()`. -/
def readPart (server : Server) (s : Session) (e : EpollEvent) :
    Option ((Bool × Session) × List SendResult) :=
  if e.readable then s.onReadReady server e.recvs e.sends else some ((false, s), e.sends)

def epollStep (server : Server) (s : Session) (e : EpollEvent) : Option Session :=
  if !s.isOpen then none
  else (readPart server s e).bind fun ((_, s), sends) =>
    if s.isOpen && e.writable then (s.onWriteReady sends).map fun ((_, s), _) => s
    else some s

/-- The loop of `onReadReady`, turn by turn. -/
inductive ReadRun (server : Server) : Session → List RecvResult → List SendResult → Bool →
    (Bool × Session) × List SendResult → Prop
  | ended {s : Session} {recvs : List RecvResult} {sends : List SendResult} {read : Bool}
      (hend : s.readBuffer.free = 0 ∨ s.isOpen = false) :
      ReadRun server s recvs sends read ((true, s.close), sends)
  | failed {s : Session} {r : RecvResult} {recvs : List RecvResult} {sends : List SendResult}
      {read : Bool} (hgoes : ¬ (s.readBuffer.free = 0 ∨ s.isOpen = false))
      (hr : r = .eof ∨ r = .error) :
      ReadRun server s (r :: recvs) sends read ((true, s.close), sends)
  | drained {s : Session} {recvs : List RecvResult} {sends : List SendResult} {read : Bool}
      (hgoes : ¬ (s.readBuffer.free = 0 ∨ s.isOpen = false)) :
      ReadRun server s (.wouldBlock :: recvs) sends read ((read, s), sends)
  | gaveUp {s t : Session} {bytes : Bytes} {recvs : List RecvResult} {sends : List SendResult}
      {read : Bool} (hgoes : ¬ (s.readBuffer.free = 0 ∨ s.isOpen = false))
      (hbytes : ¬ (bytes = [] ∨ s.readBuffer.free < bytes.length))
      (hinput : (s.receive bytes).processInput server = some (false, t)) :
      ReadRun server s (.data bytes :: recvs) sends read
        ((true, { t with keepAlive := false }.close), sends)
  | blocked {s t u : Session} {bytes : Bytes} {recvs : List RecvResult}
      {sends rest : List SendResult} {read : Bool}
      (hgoes : ¬ (s.readBuffer.free = 0 ∨ s.isOpen = false))
      (hbytes : ¬ (bytes = [] ∨ s.readBuffer.free < bytes.length))
      (hinput : (s.receive bytes).processInput server = some (true, t))
      (hflush : t.flush sends = some ((false, u), rest)) :
      ReadRun server s (.data bytes :: recvs) sends read ((true, u), rest)
  | again {s t u : Session} {bytes : Bytes} {recvs : List RecvResult}
      {sends rest : List SendResult} {read : Bool} {out : (Bool × Session) × List SendResult}
      (hgoes : ¬ (s.readBuffer.free = 0 ∨ s.isOpen = false))
      (hbytes : ¬ (bytes = [] ∨ s.readBuffer.free < bytes.length))
      (hinput : (s.receive bytes).processInput server = some (true, t))
      (hflush : t.flush sends = some ((true, u), rest))
      (hrest : ReadRun server u recvs rest true out) :
      ReadRun server s (.data bytes :: recvs) sends read out

theorem readRun_of_readLoop {server : Server} {recvs : List RecvResult} {sends : List SendResult}
    {read : Bool} {s : Session} {out : (Bool × Session) × List SendResult}
    (h : s.readLoop server recvs sends read = some out) :
    ReadRun server s recvs sends read out := by
  induction recvs generalizing s read sends with
  | nil =>
    unfold Session.readLoop at h
    split_ifs at h with hfree hclosed
    · exact Option.some.inj h ▸ .ended (Or.inl hfree)
    · exact Option.some.inj h ▸ .ended (Or.inr (by simpa using hclosed))
  | cons r recvs ih =>
    unfold Session.readLoop at h
    split_ifs at h with hfree hclosed
    · exact Option.some.inj h ▸ .ended (Or.inl hfree)
    · exact Option.some.inj h ▸ .ended (Or.inr (by simpa using hclosed))
    · have hgoes : ¬ (s.readBuffer.free = 0 ∨ s.isOpen = false) := by simpa [hfree] using hclosed
      cases r with
      | data bytes =>
        dsimp only at h
        split_ifs at h with hbytes
        cases hinput : (s.receive bytes).processInput server with
        | none => simp [hinput] at h
        | some p =>
          obtain ⟨alive, t⟩ := p
          simp only [hinput] at h
          cases alive with
          | false => exact Option.some.inj h ▸ .gaveUp hgoes hbytes hinput
          | true =>
            dsimp only at h
            cases hflush : t.flush sends with
            | none => simp [hflush] at h
            | some q =>
              obtain ⟨⟨emptied, u⟩, rest⟩ := q
              simp only [hflush] at h
              cases emptied with
              | false => exact Option.some.inj h ▸ .blocked hgoes hbytes hinput hflush
              | true => exact .again hgoes hbytes hinput hflush (ih h)
      | eof => exact Option.some.inj h ▸ .failed hgoes (Or.inl rfl)
      | wouldBlock => exact Option.some.inj h ▸ .drained hgoes
      | error => exact Option.some.inj h ▸ .failed hgoes (Or.inr rfl)

/-- What one event does is done by parsing and answering, by flushing and by closing:
a relation that each of these respects relates the states around the event. -/
structure EpollRelation (server : Server) (R : Session → Session → Prop) : Prop where
  refl : ∀ s, R s s
  trans : ∀ s t u, R s t → R t u → R s u
  close : ∀ s, R s s.close
  giveUp : ∀ s : Session, R s { s with keepAlive := false }.close
  receive : ∀ s bytes, R s (s.receive bytes)
  input : ∀ s alive t, s.processInput server = some (alive, t) → R s t
  sent : ∀ (s : Session) n, R s { s with writeBuffer := s.writeBuffer.advance n }
  complete : ∀ s : Session, R s s.onWriteComplete

namespace EpollRelation

variable {server : Server} {R : Session → Session → Prop}

theorem sendLoop (h : EpollRelation server R) (sends : List SendResult) (wrote : Bool)
    (s : Session) (out : (Bool × Session) × List SendResult)
    (hout : s.sendLoop sends wrote = some out) : R s out.1.2 := by
  induction sends generalizing s wrote with
  | nil =>
    unfold Session.sendLoop at hout
    split_ifs at hout
    · exact Option.some.inj hout ▸ h.complete s
    · exact Option.some.inj hout ▸ h.close s
  | cons r sends ih =>
    unfold Session.sendLoop at hout
    split_ifs at hout
    · exact Option.some.inj hout ▸ h.complete s
    · exact Option.some.inj hout ▸ h.close s
    · cases r with
      | sent n =>
        dsimp only at hout
        split_ifs at hout
        exact h.trans _ _ _ (h.sent s n) (ih true _ hout)
      | wouldBlock => exact Option.some.inj hout ▸ h.refl s
      | error => exact Option.some.inj hout ▸ h.close s

theorem onWriteReady (h : EpollRelation server R) (sends : List SendResult) (s : Session)
    (out : (Bool × Session) × List SendResult) (hout : s.onWriteReady sends = some out) :
    R s out.1.2 := by
  unfold Session.onWriteReady at hout
  split at hout
  · exact Option.some.inj hout ▸ h.refl s
  · exact h.sendLoop sends false s out hout

theorem flush (h : EpollRelation server R) (sends : List SendResult) (s : Session)
    (out : (Bool × Session) × List SendResult) (hout : s.flush sends = some out) :
    R s out.1.2 := by
  unfold Session.flush at hout
  split at hout
  · exact Option.some.inj hout ▸ h.refl s
  · rw [Option.map_eq_some_iff] at hout
    obtain ⟨q, hready, rfl⟩ := hout
    exact h.onWriteReady sends s q hready

theorem readLoop (h : EpollRelation server R) (recvs : List RecvResult) (sends : List SendResult)
    (read : Bool) (s : Session) (out : (Bool × Session) × List SendResult)
    (hout : s.readLoop server recvs sends read = some out) : R s out.1.2 := by
  have hrun := readRun_of_readLoop hout
  clear hout
  induction hrun with
  | ended => exact h.close _
  | failed => exact h.close _
  | drained => exact h.refl _
  | gaveUp _ _ hinput =>
    have ht := h.trans _ _ _ (h.receive _ _) (h.input _ _ _ hinput)
    exact h.trans _ _ _ ht (h.giveUp _)
  | blocked _ _ hinput hflush =>
    have ht := h.trans _ _ _ (h.receive _ _) (h.input _ _ _ hinput)
    have hu := h.flush _ _ _ hflush
    exact h.trans _ _ _ ht hu
  | again _ _ hinput hflush _ ih =>
    have ht := h.trans _ _ _ (h.receive _ _) (h.input _ _ _ hinput)
    have hu := h.flush _ _ _ hflush
    exact h.trans _ _ _ (h.trans _ _ _ ht hu) ih

theorem step (h : EpollRelation server R) (s t : Session) (e : EpollEvent)
    (hstep : epollStep server s e = some t) : R s t := by
  unfold epollStep at hstep
  split at hstep
  · simp at hstep
  · rw [Option.bind_eq_some_iff] at hstep
    obtain ⟨⟨⟨activity, u⟩, sends⟩, hread, hwrite⟩ := hstep
    have hsu : R s u := by
      unfold readPart at hread
      split at hread
      · exact h.readLoop e.recvs e.sends false s _ hread
      · simp only [Option.some.injEq, Prod.mk.injEq] at hread
        exact hread.1.2 ▸ h.refl s
    dsimp only at hwrite
    split at hwrite
    · rw [Option.map_eq_some_iff] at hwrite
      obtain ⟨q, hready, rfl⟩ := hwrite
      exact h.trans _ _ _ hsu (h.onWriteReady sends u q hready)
    · exact Option.some.inj hwrite ▸ hsu

/-- What respects the parts of an event relates the two ends of every run. -/
theorem run (h : EpollRelation server R) (es : List EpollEvent) (s t : Session)
    (hrun : Runs.run (epollStep server) s es = some t) : R s t := by
  induction es generalizing s with
  | nil => exact Option.some.inj hrun ▸ h.refl s
  | cons e es ih =>
    obtain ⟨u, hu, hrest⟩ := (Runs.run_cons_eq_some s t e es).mp hrun
    exact h.trans _ _ _ (h.step s u e hu) (ih u hrest)

end EpollRelation

end WarpApi

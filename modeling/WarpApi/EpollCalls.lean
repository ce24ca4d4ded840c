import WarpApi.EpollSession

/-!
The epoll handlers cut at their system calls. A conversation is a session and the
place in `onReadReady` or `onWriteReady` where it stands; every step is the result
of one recv or one send, or the entry into one of the two functions. Histories that
the program does not keep are recorded beside the session: no step depends on them.
-/
namespace WarpApi

/-- Between two events, or in front of a system call: the recv of the read loop, the
send of the flush inside the read loop, the send of an EPOLLOUT event. -/
inductive Phase
  | idle | reading | flushing | writing
  deriving DecidableEq

inductive SysCall
  | readable
  | writable
  | recv (r : RecvResult)
  | send (r : SendResult)
  deriving DecidableEq

/-- How `onReadReady` returned: whether its last recv had found the socket empty, how
many bytes were queued, and how the last send had ended. -/
structure ReadReturn where
  drained : Bool
  queued : ℕ
  lastSend : Option SendResult
  deriving DecidableEq

structure Conversation where
  phase : Phase
  session : Session
  lastSend : Option SendResult
  lastRead : Option ReadReturn
  /-- The bytes that the socket has accepted. -/
  wire : Bytes

namespace Conversation

/-- A session between two events that has not called send or recv yet. -/
def start (s : Session) : Conversation :=
  ⟨.idle, s, none, none, s.writeBuffer.written.take s.writeBuffer.readPos⟩

def returnRead (c : Conversation) (drained : Bool) (s : Session) : Conversation :=
  { c with
    phase := .idle
    session := s
    lastRead := some ⟨drained, s.writeBuffer.size, c.lastSend⟩ }

def readNext (c : Conversation) (s : Session) : Conversation :=
  if s.readBuffer.free = 0 then c.returnRead false s.close
  else if !s.isOpen then c.returnRead false s.close
  else { c with phase := .reading, session := s }

/-- `if (_writeBuffer.size() > 0)` behind the processing of the bytes. -/
def flushNext (c : Conversation) (s : Session) : Conversation :=
  if s.writeBuffer.size = 0 then c.readNext s else { c with phase := .flushing, session := s }

/-- `onWriteReady` returns, to the read loop or to the worker loop. -/
def returnWrite (c : Conversation) (s : Session) : Conversation :=
  if c.phase = .flushing then
    if s.writeBuffer.size = 0 then c.readNext s else c.returnRead false s
  else { c with phase := .idle, session := s }

def recv (server : Server) (c : Conversation) : RecvResult → Option Conversation
  | .data bytes =>
    if bytes = [] ∨ c.session.readBuffer.free < bytes.length then none
    else (c.session.receive bytes).processInput server |>.map fun (alive, s) =>
      if alive then c.flushNext s
      else c.returnRead false { s with keepAlive := false }.close
  | .wouldBlock => some (c.returnRead true c.session)
  | _ => some (c.returnRead false c.session.close)

def accept (c : Conversation) (n : ℕ) : Conversation :=
  { c with
    lastSend := some (.sent n)
    wire := c.wire ++ c.session.writeBuffer.unread.take n
    session := { c.session with writeBuffer := c.session.writeBuffer.advance n } }

def send (c : Conversation) : SendResult → Option Conversation
  | .sent n =>
    if 0 < n ∧ n ≤ c.session.writeBuffer.size then
      let c := c.accept n
      if c.session.writeBuffer.size = 0 then some (c.returnWrite c.session.onWriteComplete)
      else some c
    else none
  | .wouldBlock => some ({ c with lastSend := some .wouldBlock }.returnWrite c.session)
  | .error => some ({ c with lastSend := some .error }.returnWrite c.session.close)

/-- `none`: the call is not made here, or what it brings is not processed to an end. -/
def step (server : Server) (c : Conversation) : SysCall → Option Conversation
  | .readable => if c.phase = .idle then some (c.readNext c.session) else none
  | .writable =>
    if c.phase = .idle then
      if c.session.writeBuffer.size = 0 then some c
      else if !c.session.isOpen then some { c with session := c.session.close }
      else some { c with phase := .writing }
    else none
  | .recv r => if c.phase = .reading then c.recv server r else none
  | .send r => if c.phase = .flushing ∨ c.phase = .writing then c.send r else none

/-- Behind the bytes of a recv the loop goes on or ends. -/
theorem recv_data_eq_some {server : Server} {c c' : Conversation} {bytes : Bytes}
    (h : c.recv server (.data bytes) = some c') :
    ∃ alive s, (c.session.receive bytes).processInput server = some (alive, s) ∧
      c' = if alive then c.flushNext s
        else c.returnRead false { s with keepAlive := false }.close := by
  dsimp only [recv] at h
  split_ifs at h
  rw [Option.map_eq_some_iff] at h
  obtain ⟨⟨alive, s⟩, hinput, heq⟩ := h
  exact ⟨alive, s, hinput, heq.symm⟩

/-- A send takes queued bytes, and `onWriteReady` returns when none is left. -/
theorem send_sent_eq_some {c c' : Conversation} {n : ℕ} (h : c.send (.sent n) = some c') :
    0 < n ∧ n ≤ c.session.writeBuffer.size ∧
      ((c.accept n).session.writeBuffer.size = 0 ∧
          c' = (c.accept n).returnWrite (c.accept n).session.onWriteComplete ∨
        (c.accept n).session.writeBuffer.size ≠ 0 ∧ c' = c.accept n) := by
  dsimp only [send] at h
  split_ifs at h with hn hdone
  · exact ⟨hn.1, hn.2, Or.inl ⟨hdone, (Option.some.inj h).symm⟩⟩
  · exact ⟨hn.1, hn.2, Or.inr ⟨hdone, (Option.some.inj h).symm⟩⟩

end Conversation

namespace Conversation

variable {server : Server}

theorem sendLoop_calls (sends : List SendResult) (wrote : Bool) (c : Conversation)
    (out : (Bool × Session) × List SendResult) (hphase : c.phase = .flushing ∨ c.phase = .writing)
    (hopen : c.session.isOpen = true) (hsize : c.session.writeBuffer.size ≠ 0)
    (h : c.session.sendLoop sends wrote = some out) :
    ∃ (calls : List SysCall) (c' : Conversation), c'.phase = c.phase ∧
      Runs.run (step server) c calls = some (c'.returnWrite out.1.2) := by
  induction sends generalizing c wrote with
  | nil =>
    unfold Session.sendLoop at h
    rw [if_neg hsize, if_neg (by simp [hopen])] at h
    simp at h
  | cons r sends ih =>
    have hstep : step server c (.send r) = c.send r := if_pos hphase
    unfold Session.sendLoop at h
    rw [if_neg hsize, if_neg (by simp [hopen])] at h
    cases r with
    | sent n =>
      dsimp only at h
      split_ifs at h with hn
      have hsend : c.send (.sent n) = if (c.accept n).session.writeBuffer.size = 0 then
          some ((c.accept n).returnWrite (c.accept n).session.onWriteComplete)
          else some (c.accept n) := if_pos hn
      by_cases hrest : (c.accept n).session.writeBuffer.size = 0
      · have hdone : (c.accept n).session.sendLoop sends true = some out := h
        unfold Session.sendLoop at hdone
        rw [if_pos hrest] at hdone
        refine ⟨[.send (.sent n)], c.accept n, rfl, ?_⟩
        rw [Runs.run, hstep, hsend, if_pos hrest, ← Option.some.inj hdone]
        rfl
      · obtain ⟨calls, c', hphase', hrun⟩ := ih true (c.accept n) hphase hopen hrest h
        refine ⟨.send (.sent n) :: calls, c', hphase', ?_⟩
        rw [Runs.run, hstep, hsend, if_neg hrest]
        exact hrun
    | wouldBlock =>
      refine ⟨[.send .wouldBlock], { c with lastSend := some .wouldBlock }, rfl, ?_⟩
      rw [← Option.some.inj h, Runs.run, hstep]
      rfl
    | error =>
      refine ⟨[.send .error], { c with lastSend := some .error }, rfl, ?_⟩
      rw [← Option.some.inj h, Runs.run, hstep]
      rfl

theorem flush_calls (sends : List SendResult) (c : Conversation) (t : Session)
    {drained : Bool} {u : Session} {rest : List SendResult} (hopen : t.isOpen = true)
    (h : t.flush sends = some ((drained, u), rest)) :
    ∃ (calls : List SysCall) (c' : Conversation), Runs.run (step server) (c.flushNext t) calls =
      some (if drained then c'.readNext u else c'.returnRead false u) := by
  unfold Session.flush at h
  by_cases hsize : t.writeBuffer.size = 0
  · rw [if_pos hsize] at h
    simp only [Option.some.injEq, Prod.mk.injEq] at h
    obtain ⟨⟨rfl, rfl⟩, -⟩ := h
    refine ⟨[], c, ?_⟩
    rw [flushNext, if_pos hsize]
    rfl
  · rw [if_neg hsize, Session.onWriteReady, if_neg hsize] at h
    obtain ⟨⟨⟨wrote, v⟩, rest'⟩, hsend, heq⟩ := Option.map_eq_some_iff.mp h
    simp only [Prod.mk.injEq] at heq
    obtain ⟨⟨rfl, rfl⟩, -⟩ := heq
    obtain ⟨calls, c', hphase, hrun⟩ := sendLoop_calls sends false
      { c with phase := .flushing, session := t } _ (Or.inl rfl) hopen hsize hsend
    refine ⟨calls, c', ?_⟩
    rw [flushNext, if_neg hsize, hrun, returnWrite, if_pos hphase]
    simp only [decide_eq_true_eq]

theorem run_recv_data (c : Conversation) {bytes : Bytes} {alive : Bool} {t : Session}
    (hphase : c.phase = .reading)
    (hbytes : ¬ (bytes = [] ∨ c.session.readBuffer.free < bytes.length))
    (hinput : (c.session.receive bytes).processInput server = some (alive, t))
    (calls : List SysCall) :
    Runs.run (step server) c (.recv (.data bytes) :: calls) =
      Runs.run (step server) (if alive then c.flushNext t
        else c.returnRead false { t with keepAlive := false }.close) calls := by
  have hstep : step server c (.recv (.data bytes)) = some (if alive then c.flushNext t
      else c.returnRead false { t with keepAlive := false }.close) := by
    rw [step, if_pos hphase, recv, if_neg hbytes, hinput]
    rfl
  rw [Runs.run, hstep]
  rfl

theorem readNext_of_ended (c : Conversation) {s : Session}
    (h : s.readBuffer.free = 0 ∨ s.isOpen = false) : c.readNext s = c.returnRead false s.close := by
  unfold readNext
  rcases h with hfree | hclosed
  · rw [if_pos hfree]
  · rw [hclosed, Bool.not_false, if_pos rfl, ite_self]

theorem readNext_of_goes (c : Conversation) {s : Session}
    (h : ¬ (s.readBuffer.free = 0 ∨ s.isOpen = false)) :
    c.readNext s = { c with phase := .reading, session := s } := by
  rw [not_or, Bool.not_eq_false] at h
  rw [readNext, if_neg h.1, h.2, Bool.not_true, if_neg Bool.false_ne_true]

theorem recv_data_calls {c : Conversation} {bytes : Bytes} {sends rest : List SendResult}
    {t u : Session} {drained : Bool} (hphase : c.phase = .reading)
    (hopen : c.session.isOpen = true)
    (hbytes : ¬ (bytes = [] ∨ c.session.readBuffer.free < bytes.length))
    (hinput : (c.session.receive bytes).processInput server = some (true, t))
    (hflush : t.flush sends = some ((drained, u), rest)) :
    ∃ (calls : List SysCall) (c' : Conversation), Runs.run (step server) c calls =
      some (if drained then c'.readNext u else c'.returnRead false u) := by
  have hsocket : t.isOpen = true := by
    have heq := (Handles.processInput server _ t true hinput).socket_eq
    unfold Session.isOpen
    rw [heq]
    exact hopen
  obtain ⟨calls, c', hrun⟩ := flush_calls sends c t hsocket hflush
  refine ⟨.recv (.data bytes) :: calls, c', ?_⟩
  rw [run_recv_data c hphase hbytes hinput]
  exact hrun

theorem readLoop_calls (recvs : List RecvResult) (sends : List SendResult) (read : Bool)
    (c : Conversation) (s : Session) (out : (Bool × Session) × List SendResult)
    (h : s.readLoop server recvs sends read = some out) :
    ∃ (calls : List SysCall) (c' : Conversation), c'.phase = .idle ∧ c'.session = out.1.2 ∧
      Runs.run (step server) (c.readNext s) calls = some c' := by
  have hrun := readRun_of_readLoop h
  clear h
  induction hrun generalizing c with
  | ended hend => exact ⟨[], _, rfl, rfl, by rw [readNext_of_ended c hend]; rfl⟩
  | @failed s r _ _ _ hgoes hr =>
    rw [readNext_of_goes c hgoes]
    rcases hr with rfl | rfl
    · exact ⟨[.recv .eof], _, rfl, rfl, rfl⟩
    · exact ⟨[.recv .error], _, rfl, rfl, rfl⟩
  | drained hgoes =>
    rw [readNext_of_goes c hgoes]
    exact ⟨[.recv .wouldBlock], _, rfl, rfl, rfl⟩
  | @gaveUp s t bytes _ _ _ hgoes hbytes hinput =>
    rw [readNext_of_goes c hgoes]
    exact ⟨[.recv (.data bytes)], _, rfl, rfl,
      run_recv_data { c with phase := .reading, session := s } rfl hbytes hinput []⟩
  | @blocked s t u bytes _ _ _ _ hgoes hbytes hinput hflush =>
    rw [readNext_of_goes c hgoes]
    have hopen : s.isOpen = true := by simpa using (not_or.mp hgoes).2
    obtain ⟨calls, c₁, hrun⟩ := recv_data_calls (c := { c with phase := .reading, session := s })
      rfl hopen hbytes hinput hflush
    exact ⟨calls, c₁.returnRead false u, rfl, rfl, hrun⟩
  | @again s t u bytes _ _ _ _ _ hgoes hbytes hinput hflush _ ih =>
    rw [readNext_of_goes c hgoes]
    have hopen : s.isOpen = true := by simpa using (not_or.mp hgoes).2
    obtain ⟨calls, c₁, hrun⟩ := recv_data_calls (c := { c with phase := .reading, session := s })
      rfl hopen hbytes hinput hflush
    obtain ⟨calls', c₂, hphase, hsession, hrun'⟩ := ih c₁
    refine ⟨calls ++ calls', c₂, hphase, hsession, ?_⟩
    rw [Runs.run_append, hrun]
    exact hrun'

/-- One event of the worker loop is a run of calls from idle to idle. -/
theorem epollStep_calls (c : Conversation) (e : EpollEvent) (t : Session)
    (hidle : c.phase = .idle) (h : epollStep server c.session e = some t) :
    ∃ (calls : List SysCall) (c' : Conversation), c'.phase = .idle ∧ c'.session = t ∧
      Runs.run (step server) c calls = some c' := by
  unfold epollStep at h
  split at h
  · simp at h
  rw [Option.bind_eq_some_iff] at h
  obtain ⟨⟨⟨activity, u⟩, sends⟩, hread, hwrite⟩ := h
  obtain ⟨calls, c₁, hphase, hsession, hrun⟩ : ∃ (calls : List SysCall) (c₁ : Conversation),
      c₁.phase = .idle ∧ c₁.session = u ∧ Runs.run (step server) c calls = some c₁ := by
    unfold readPart at hread
    split at hread
    · obtain ⟨calls, c₁, hphase, hsession, hrun⟩ := readLoop_calls e.recvs e.sends false c
        c.session _ hread
      refine ⟨.readable :: calls, c₁, hphase, hsession, ?_⟩
      rw [Runs.run, step, if_pos hidle]
      exact hrun
    · simp only [Option.some.injEq, Prod.mk.injEq] at hread
      exact ⟨[], c, hidle, hread.1.2, rfl⟩
  dsimp only at hwrite
  split at hwrite
  · rename_i hready
    rw [Option.map_eq_some_iff] at hwrite
    obtain ⟨⟨⟨wrote, v⟩, rest⟩, hready', rfl⟩ := hwrite
    unfold Session.onWriteReady at hready'
    split at hready'
    · rename_i hempty
      simp only [Option.some.injEq, Prod.mk.injEq] at hready'
      exact ⟨calls, c₁, hphase, hsession.trans hready'.1.2, hrun⟩
    · rename_i hsize
      have hopen : u.isOpen = true := by
        rw [Bool.and_eq_true] at hready
        exact hready.1
      rw [← hsession] at hsize hopen hready'
      obtain ⟨calls', c₂, hphase', hrun'⟩ := sendLoop_calls sends false
        { c₁ with phase := .writing } _ (Or.inr rfl) hopen hsize hready'
      have hnot : c₂.phase ≠ .flushing := by
        rw [hphase']
        exact Phase.noConfusion
      refine ⟨calls ++ .writable :: calls', { c₂ with phase := .idle, session := v }, rfl, rfl, ?_⟩
      rw [Runs.run_append, hrun, Option.bind_some, Runs.run, step, if_pos hphase, if_neg hsize,
        if_neg (by simp [hopen]), Option.bind_some, hrun', returnWrite, if_neg hnot]
  · exact ⟨calls, c₁, hphase, hsession.trans (Option.some.inj hwrite), hrun⟩

theorem epollRun_calls (es : List EpollEvent) (c : Conversation) (t : Session)
    (hidle : c.phase = .idle) (h : Runs.run (epollStep server) c.session es = some t) :
    ∃ (calls : List SysCall) (c' : Conversation), c'.phase = .idle ∧ c'.session = t ∧
      Runs.run (step server) c calls = some c' := by
  induction es generalizing c with
  | nil => exact ⟨[], c, hidle, Option.some.inj h, rfl⟩
  | cons e es ih =>
    obtain ⟨u, hu, hrest⟩ := (Runs.run_cons_eq_some c.session t e es).mp h
    obtain ⟨calls, c₁, hphase, rfl, hrun⟩ := epollStep_calls c e u hidle hu
    obtain ⟨calls', c₂, hphase', hsession, hrun'⟩ := ih c₁ hphase hrest
    refine ⟨calls ++ calls', c₂, hphase', hsession, ?_⟩
    rw [Runs.run_append, hrun]
    exact hrun'

end Conversation

end WarpApi

import WarpApi.EpollSession
import WarpApi.UringLoop

/-!
The epoll part of `EventLoop::runWorker` as a state machine. The session table maps
descriptors to places in the pool, whose memory keeps what was constructed there
last; both are used again. A batch of events is worked off one event after the other,
and timers expire only between two batches. A step that the sources leave undefined
(a null pointer, an index out of range, an overflow of int) is none.
-/
namespace WarpApi

def maxEvents : ℕ := 8192

/-- A place in the session pool. -/
abbrev Slot := ℕ

/-- An event of a batch: of the listener, or of the descriptor of a client. -/
inductive Ready
  | listener
  | client (fd : ℕ)
  deriving DecidableEq

/-- `latest` and `released` are no data of the sources: the session that the last
accept of a descriptor has created, and the sessions given back to the pool. -/
structure EpollWorker where
  table : List (Option Slot)
  memory : Slot → Option Session
  inUse : Slot → Bool
  /-- The sessions linked in the timer wheel. -/
  wheel : Slot → Bool
  /-- The client descriptors that are open, all of them registered with epoll. -/
  registered : ℕ → Bool
  pending : List Ready
  accepted : SessionId
  latest : ℕ → Option SessionId
  released : List SessionId

inductive LoopEvent
  /-- `epoll_wait` reports these events. -/
  | wait (batch : List Ready)
  /-- The listener is ready and accept returns these descriptors, each of which gets a
  place in the pool, until there are no more. -/
  | listen (accepts : List (ℕ × Slot))
  /-- The same, but accept then fails otherwise, and is called again. -/
  | retry (accepts : List (ℕ × Slot))
  /-- A client is ready, perhaps with EPOLLERR or EPOLLHUP. -/
  | serve (e : EpollEvent) (hangUp : Bool) (now : ℕ)
  | expire (a : Slot)
  deriving DecidableEq

def LoopEvent.clients : LoopEvent → List (ℕ × Slot)
  | .listen accepts => accepts
  | .retry accepts => accepts
  | _ => []

/-- The read part and the write part of an event: whether there was activity. -/
def serveSession (server : Server) (s : Session) (e : EpollEvent) : Option (Bool × Session) :=
  (readPart server s e).bind fun ((activity, s), sends) =>
    if s.isOpen && e.writable then
      (s.onWriteReady sends).map fun ((wrote, s), _) => (activity || wrote, s)
    else some (activity, s)

/-- A descriptor as a `size_t`. -/
def fdIndex (fd : ℤ) : ℕ := (fd % 2 ^ 64).toNat

/-- The descriptors that are left when this one is closed. -/
def closeFd (registered : ℕ → Bool) (fd : ℤ) : ℕ → Bool :=
  fun n => if (n : ℤ) = fd then false else registered n

namespace EpollWorker

def init : EpollWorker where
  table := List.replicate maxEvents none
  memory := fun _ => none
  inUse := fun _ => false
  wheel := fun _ => false
  registered := fun _ => false
  pending := []
  accepted := 0
  latest := fun _ => none
  released := []

/-- epoll reports open descriptors only. -/
def canReport (w : EpollWorker) : Ready → Bool
  | .listener => true
  | .client fd => w.registered fd

/-- `releaseSession` on the session at this place. -/
def release (w : EpollWorker) (a : Slot) (s : Session) : EpollWorker :=
  { w with
    wheel := Function.update w.wheel a false
    memory := Function.update w.memory a (some s.close)
    registered := closeFd w.registered s.socket
    inUse := Function.update w.inUse a false
    table := if fdIndex s.socket < w.table.length then w.table.set (fdIndex s.socket) none
      else w.table
    released := s.self :: w.released }

/-- `sessionTable.resize(clientSock * 2)` where it is called. -/
def grow (table : List (Option Slot)) (fd : ℕ) : List (Option Slot) :=
  if table.length ≤ fd then table ++ List.replicate (fd * 2 - table.length) none else table

def acceptOne (server : Server) (w : EpollWorker) (client : ℕ × Slot) : Option EpollWorker :=
  let (fd, a) := client
  if w.registered fd = true ∨ w.inUse a = true ∨ w.table.length ≤ fd ∧ 2 ^ 31 ≤ fd * 2 then none
  else some
    { w with
      memory := Function.update w.memory a (some (Session.init server.settings w.accepted fd))
      inUse := Function.update w.inUse a true
      table := (grow w.table fd).set fd (some a)
      registered := Function.update w.registered fd true
      accepted := w.accepted + 1
      latest := Function.update w.latest fd (some w.accepted) }

def put (w : EpollWorker) (a : Slot) (s t : Session) : EpollWorker :=
  { w with
    memory := Function.update w.memory a (some t)
    registered := if t.isOpen then w.registered else closeFd w.registered s.socket }

/-- `timerWheel.update(session)` when a tick has passed since the last update. -/
def touch (w : EpollWorker) (a : Slot) (t : Session) (now : ℕ) : EpollWorker :=
  if Worker.tickPassed now t.lastActivityTick then
    { w with
      memory := Function.update w.memory a (some { t with lastActivityTick := now })
      wheel := Function.update w.wheel a true }
  else w

/-- The handling of a client's event, behind the look into the table. -/
def handle (server : Server) (w : EpollWorker) (a : Slot) (s : Session) (e : EpollEvent)
    (hangUp : Bool) (now : ℕ) : Option EpollWorker :=
  (serveSession server s e).map fun (activity, t) =>
    let w := w.put a s t
    if hangUp then w.release a t
    else if activity then w.touch a t now
    else w

def step (server : Server) (w : EpollWorker) : LoopEvent → Option EpollWorker
  | .wait batch =>
    if w.pending = [] ∧ batch.Nodup ∧ ∀ r ∈ batch, w.canReport r = true then
      some { w with pending := batch }
    else none
  | .listen accepts =>
    match w.pending with
    | .listener :: rest => accepts.foldlM (acceptOne server) { w with pending := rest }
    | _ => none
  | .retry accepts =>
    match w.pending with
    | .listener :: _ => accepts.foldlM (acceptOne server) w
    | _ => none
  | .serve e hangUp now =>
    match w.pending with
    | .client fd :: rest =>
      -- no event is reported without a bit
      if e.readable || e.writable || hangUp then
        match w.table[fd]? with
        | some (some a) => (w.memory a).bind fun s =>
          { w with pending := rest }.handle server a s e hangUp now
        | _ => none
      else none
    | _ => none
  | .expire a =>
    if w.pending = [] ∧ w.wheel a = true then (w.memory a).map (w.release a) else none

end EpollWorker

/-- For an open session this is the step that the session runs are made of. -/
theorem epollStep_eq (server : Server) (s : Session) (e : EpollEvent) (hopen : s.isOpen = true) :
    epollStep server s e = (serveSession server s e).map Prod.snd := by
  unfold epollStep serveSession
  rw [if_neg (by simp [hopen])]
  cases readPart server s e with
  | none => rfl
  | some p =>
    obtain ⟨⟨activity, t⟩, sends⟩ := p
    simp only [Option.bind_some]
    split
    · rw [Option.map_map]
      rfl
    · rfl

/-- The number stays, and the descriptor is at most given back. -/
structure SameClient (s t : Session) : Prop where
  self_eq : t.self = s.self
  socket_eq : t.socket = s.socket ∨ t.isOpen = false

theorem sameClient_epoll (server : Server) : EpollRelation server SameClient where
  refl := fun _ => ⟨rfl, Or.inl rfl⟩
  trans := fun s t u h h' => ⟨h'.self_eq.trans h.self_eq, by
    rcases h'.socket_eq with heq | hclosed
    · rcases h.socket_eq with heq' | hclosed
      · exact Or.inl (heq.trans heq')
      · right
        unfold Session.isOpen at hclosed ⊢
        rwa [heq]
    · exact Or.inr hclosed⟩
  close := fun s => ⟨rfl, Or.inr (by simp [Session.close, Session.isOpen])⟩
  giveUp := fun s => ⟨rfl, Or.inr (by simp [Session.close, Session.isOpen])⟩
  receive := fun _ _ => ⟨rfl, Or.inl rfl⟩
  input := fun s alive t h =>
    have hhandles := Handles.processInput server s t alive h
    ⟨hhandles.self_eq, Or.inl hhandles.socket_eq⟩
  sent := fun _ _ => ⟨rfl, Or.inl rfl⟩
  complete := fun s => by
    unfold Session.onWriteComplete
    dsimp only
    split_ifs
    · exact ⟨rfl, Or.inl rfl⟩
    · exact ⟨rfl, Or.inl rfl⟩
    · exact ⟨rfl, Or.inr (by simp [Session.close, Session.isOpen, Session.note])⟩

theorem sameClient_serveSession {server : Server} {s t : Session} {e : EpollEvent} {activity : Bool}
    (hopen : s.isOpen = true) (h : serveSession server s e = some (activity, t)) :
    SameClient s t := by
  refine (sameClient_epoll server).step s t e ?_
  rw [epollStep_eq server s e hopen, h]
  rfl

end WarpApi

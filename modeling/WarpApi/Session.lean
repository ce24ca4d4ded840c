import WarpApi.Routing
import WarpApi.Settings

/-!
The state of a connection (Session.h) and its small operations. Both builds
share the record; the epoll build leaves status, I/O flags and locked bytes as
they are. `log` is not a field of the sources: it lists, newest first, what the
session has done, and no function reads more of it than its length, which tells
user code how much happened before.
-/
namespace WarpApi

/-- The build, the settings, the registered routes and OpenSSL's SHA1. -/
structure Server where
  backend : Backend
  settings : SettingsData
  endpoints : EndpointManager
  sha1 : Bytes → Vector UInt8 20

/-- The settings of config.json and no routes; nothing is ever digested. -/
def bareServer (backend : Backend) : Server :=
  ⟨backend, configJson, EndpointManager.init, fun _ => Vector.replicate 20 0⟩

/-- How a recv ends, as a system call or as a completion. -/
inductive RecvResult
  | data (bytes : Bytes)
  | eof
  | wouldBlock
  | error
  deriving DecidableEq

inductive ProtocolMode
  | http | webSocket
  deriving DecidableEq

structure WsState where
  route : Option WebSocketRoute
  closeSent : Bool

def WsState.init : WsState := ⟨none, false⟩

inductive Obs
  /-- `parseRequest` was called on these unread bytes. -/
  | attempt (unread : Bytes)
  /-- `parseRequest` turned `before` into `seen`, which went to `handleRequest`. -/
  | handled (before seen : HttpRequest) (unread : Bytes)
  /-- An endpoint's handler ran, while `_keepAlive` had this value. -/
  | handlerRan (keepAlive : Bool) (handlerRun : HandlerRun)
  /-- The handler is done; the indices behind the header arrays that it used. -/
  | handlerDone (strayAccesses : List ℕ)
  | response (r : HttpResponse) (body : Bytes)
  | handshake (message : Bytes)
  | frame (opcode : UInt8) (fin : Bool) (payload : Bytes)
  | wsOpen
  | wsMessage (payload : Bytes)
  | wsClose
  /-- The write buffer ran empty; is the socket still open? -/
  | emptied (socketOpen : Bool)

/-- Entries that the answering of a request makes. -/
def Obs.isAnswer : Obs → Bool
  | .handlerRan _ _ => true
  | .handlerDone _ => true
  | .response _ _ => true
  | _ => false

structure Session where
  self : SessionId
  socket : ℤ
  lastActivityTick : ℕ
  req : HttpRequest
  keepAlive : Bool
  mode : ProtocolMode
  wsState : WsState
  readBuffer : RingBuffer
  writeBuffer : RingBuffer
  status : SessionStatus
  ioFlags : IoState
  lockedZcBytes : ℕ
  log : List Obs

namespace Session

/-- The constructor, on a descriptor returned by accept. -/
def init (settings : SettingsData) (self : SessionId) (socket : ℤ) : Session where
  self := self
  socket := socket
  lastActivityTick := 0
  req := HttpRequest.init
  keepAlive := false
  mode := .http
  wsState := WsState.init
  readBuffer := BoundedQueue.empty settings.maxRequestSize.toNat
  writeBuffer := BoundedQueue.empty settings.maxResponseSize.toNat
  status := .active
  ioFlags := IoState.none
  lockedZcBytes := 0
  log := []

def close (s : Session) : Session := { s with socket := socketErrorValue }

def isOpen (s : Session) : Bool := s.socket ≠ socketErrorValue

def setStatus (s : Session) (status : SessionStatus) : Session := { s with status := status }

/-- The calls under `#ifdef USE_IOURING` in code that both builds share. -/
def setClosingIfIoUring (server : Server) (s : Session) : Session :=
  match server.backend with
  | .ioUring => s.setStatus .closing
  | .epoll => s

def isReadInFlight (s : Session) : Bool := s.ioFlags.reading
def isWriteInFlight (s : Session) : Bool := s.ioFlags.writing
def isZcNotifInFlight (s : Session) : Bool := s.ioFlags.waitingZc
def hasPendingIo (s : Session) : Bool := s.ioFlags.any

def setReading (s : Session) (on : Bool) : Session :=
  { s with ioFlags := { s.ioFlags with reading := on } }

def setWriting (s : Session) (on : Bool) : Session :=
  { s with ioFlags := { s.ioFlags with writing := on } }

def setWaitingZc (s : Session) (on : Bool) : Session :=
  { s with ioFlags := { s.ioFlags with waitingZc := on } }

/-- `_readBuffer.advanceWritePos` behind a recv that brought these bytes. -/
def receive (s : Session) (chunk : Bytes) : Session :=
  { s with readBuffer := s.readBuffer.push chunk }

def note (s : Session) (o : Obs) : Session := { s with log := o :: s.log }

/-- The call of user code that the session is about to make. -/
def moment (s : Session) : Moment := ⟨s.self, s.log.length⟩

end Session

def receiving (settings : SettingsData) (received : Bytes) : Session :=
  (Session.init settings 0 5).receive received

def receivingReset (settings : SettingsData) (received : Bytes) : Session :=
  { receiving settings received with req := HttpRequest.init.reset }

/-- What request handling and frame processing may do to a session: append to
the write buffer and to the log, read on, change request, flags and protocol
state, and decide to close. Descriptor and I/O state are out of their reach. -/
structure Handles (s t : Session) : Prop where
  self_eq : t.self = s.self
  socket_eq : t.socket = s.socket
  tick_eq : t.lastActivityTick = s.lastActivityTick
  flags_eq : t.ioFlags = s.ioFlags
  locked_eq : t.lockedZcBytes = s.lockedZcBytes
  status_eq : t.status = s.status ∨ t.status = .closing
  written : s.writeBuffer.written <+: t.writeBuffer.written
  readPos_eq : t.writeBuffer.readPos = s.writeBuffer.readPos
  readCapacity_eq : t.readBuffer.capacity = s.readBuffer.capacity
  log_suffix : s.log <:+ t.log

namespace Handles

theorem refl (s : Session) : Handles s s :=
  ⟨rfl, rfl, rfl, rfl, rfl, Or.inl rfl, List.prefix_refl _, rfl, rfl, List.suffix_refl _⟩

theorem trans {s t u : Session} (h : Handles s t) (h' : Handles t u) : Handles s u where
  self_eq := h'.self_eq.trans h.self_eq
  socket_eq := h'.socket_eq.trans h.socket_eq
  tick_eq := h'.tick_eq.trans h.tick_eq
  flags_eq := h'.flags_eq.trans h.flags_eq
  locked_eq := h'.locked_eq.trans h.locked_eq
  status_eq := by
    rcases h'.status_eq with he | he
    · rcases h.status_eq with hs | hs
      · exact Or.inl (he.trans hs)
      · exact Or.inr (he.trans hs)
    · exact Or.inr he
  written := h.written.trans h'.written
  readPos_eq := h'.readPos_eq.trans h.readPos_eq
  readCapacity_eq := h'.readCapacity_eq.trans h.readCapacity_eq
  log_suffix := h.log_suffix.trans h'.log_suffix

theorem note (s : Session) (o : Obs) : Handles s (s.note o) :=
  { refl s with log_suffix := List.suffix_cons _ _ }

theorem setClosingIfIoUring (server : Server) (s : Session) :
    Handles s (s.setClosingIfIoUring server) := by
  unfold Session.setClosingIfIoUring
  cases server.backend with
  | epoll => exact refl s
  | ioUring => exact { refl s with status_eq := Or.inr rfl }

end Handles

/-- The log grows by entries with this property. -/
def NewEntries (P : Obs → Prop) (s t : Session) : Prop :=
  ∃ new, t.log = new ++ s.log ∧ ∀ o ∈ new, P o

namespace NewEntries

variable {P : Obs → Prop}

theorem of_log_eq {s t : Session} (h : t.log = s.log) : NewEntries P s t :=
  ⟨[], h, fun _ ho => absurd ho List.not_mem_nil⟩

theorem of_cons {s t : Session} {o : Obs} (h : t.log = o :: s.log) (ho : P o) :
    NewEntries P s t :=
  ⟨[o], h, fun _ hp => List.mem_singleton.mp hp ▸ ho⟩

theorem trans {s t u : Session} (h : NewEntries P s t) (h' : NewEntries P t u) :
    NewEntries P s u := by
  obtain ⟨new, hlog, hnew⟩ := h
  obtain ⟨new', hlog', hnew'⟩ := h'
  refine ⟨new' ++ new, by rw [hlog', hlog, List.append_assoc], fun o ho => ?_⟩
  exact (List.mem_append.mp ho).elim (hnew' o) (hnew o)

end NewEntries

end WarpApi

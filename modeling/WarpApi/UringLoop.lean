import WarpApi.UringSession
import WarpApi.Library.Runs

/-!
The io_uring part of `EventLoop::runWorker` as a state machine. The kernel may
perform the sends of a socket in submission order and complete operations in any
order; the worker handles completions, expired timers and the submit at the end
of an iteration. A session is named by the number of its acquisition, so a
completion for a freed session leads nowhere. A step that the sources leave
undefined (a freed session, a null tag, a null entry for the listener) is none.
-/
namespace WarpApi

structure Worker where
  pool : SessionId → Option Session
  acquired : SessionId
  /-- The sessions linked in the timer wheel. -/
  wheel : SessionId → Bool
  ring : Ring
  inFlight : List Op
  /-- The bytes that the kernel has accepted for the session's socket. -/
  wire : SessionId → Bytes

inductive Event
  | accept (fd : ℤ) (more : Bool)
  | acceptFailed (more : Bool)
  | recv (session : SessionId) (room : ℕ) (res : RecvResult) (now : ℕ)
  | sent (session : SessionId) (n : ℕ) (now : ℕ)
  | failed (session : SessionId) (more : Bool) (now : ℕ)
  | notif (session : SessionId) (now : ℕ)
  | kernelSend (session : SessionId) (n : ℕ)
  | kernelFail (session : SessionId) (more : Bool)
  | expire (session : SessionId)
  | submit
  | consume (k : ℕ)
  deriving DecidableEq

namespace Worker

/-- A worker whose listener has been submitted. -/
def init (entries : ℕ) : Worker where
  pool := fun _ => none
  acquired := 0
  wheel := fun _ => false
  ring := ⟨entries, [], 0⟩
  inFlight := [.accept]
  wire := fun _ => []

def submit (w : Worker) : Worker :=
  { w with
    ring := { w.ring with prepared := [], lag := w.ring.lag + w.ring.prepared.length }
    inFlight := w.inFlight ++ w.ring.prepared }

/-- `getSqeSafe` up to its result: a full queue is submitted first. -/
def makeRoom (w : Worker) : Worker := if w.ring.full then w.submit else w

/-- `releaseSession`, then `tryFreeSession`. -/
def free (w : Worker) (sid : SessionId) : Worker :=
  { w with pool := Function.update w.pool sid none, wheel := Function.update w.wheel sid false }

def store (w : Worker) (sid : SessionId) (s : Session) (ring : Ring) : Worker :=
  { w with pool := Function.update w.pool sid (some s), ring := ring }

/-- The time since the last activity, in 64-bit arithmetic, has reached one tick. -/
def tickPassed (now last : ℕ) : Bool := timerWheelTickInterval ≤ (now + 2 ^ 64 - last) % 2 ^ 64

/-- `timerWheel.update(s)` when a tick has passed since the last update. -/
def touch (w : Worker) (sid : SessionId) (s : Session) (ring : Ring) (now : ℕ) : Worker :=
  if tickPassed now s.lastActivityTick then
    let w := w.store sid { s with lastActivityTick := now } ring
    { w with wheel := Function.update w.wheel sid true }
  else w.store sid s ring

/-- The dispatch of a completion with an IoRequest tag. -/
def complete (w : Worker) (sid : SessionId) (now : ℕ)
    (process : Session → Ring → Option (Bool × Session × Ring)) : Option Worker :=
  match w.pool sid with
  | none => none
  | some s =>
    if s.status = .closing ∧ s.hasPendingIo = false then some (w.free sid)
    else if s.status = .active then
      (process s w.ring).map fun (alive, s, ring) =>
        w.touch sid (if alive then s else s.setStatus .closing) ring now
    else some w

/-- The kernel replaces an operation by its next stage, at the end of the list. -/
def proceed (w : Worker) (op : Op) (next : List Op) : Worker :=
  { w with inFlight := w.inFlight.erase op ++ next }

/-- A completion of `op` is taken from the queue; `next` is still to come. -/
def take (w : Worker) (op : Op) (next : List Op) (sid : SessionId) (now : ℕ)
    (process : Session → Ring → Option (Bool × Session × Ring)) : Option Worker :=
  if op ∈ w.inFlight then (w.proceed op next).complete sid now process else none

/-- A new connection. Without an entry for its first recv it is dropped. -/
def connect (server : Server) (w : Worker) (fd : ℤ) : Worker :=
  let sid := w.acquired
  let s := Session.init server.settings sid fd
  let w := { w.makeRoom with acquired := sid + 1 }
  if w.ring.full then w
  else
    let (s, op) := s.onReadReadySqe
    let w := w.store sid s (w.ring.push op)
    { w with wheel := Function.update w.wheel sid true }

/-- The multishot accept has ended; the entry for the next one is not checked. -/
def rearmListener (w : Worker) : Option Worker :=
  let w := w.makeRoom
  if w.ring.full then none else some { w with ring := w.ring.push .accept }

def listenerDone (w : Worker) (more : Bool) : Option Worker :=
  if more then some w else (w.proceed .accept []).rearmListener

/-- The first send of the session that has not been performed. -/
def nextSend (w : Worker) (sid : SessionId) : Option Bytes :=
  w.inFlight.findSome? fun
    | .send sid' region => if sid' = sid then some region else none
    | _ => none

/-- The timer of the session has run out. -/
def expire (w : Worker) (sid : SessionId) (s : Session) : Worker :=
  let w := { w with wheel := Function.update w.wheel sid false }
  let s := (s.setStatus .closing).close
  if s.hasPendingIo then w.store sid s w.ring else w.free sid

/-- A data completion brings at least one byte, and no more than there was room for. -/
def deliverable (room : ℕ) : RecvResult → Bool
  | .data bytes => 0 < bytes.length && bytes.length ≤ room
  | .wouldBlock => false
  | _ => true

def step (server : Server) (w : Worker) : Event → Option Worker
  | .accept fd more =>
    if .accept ∈ w.inFlight then (w.connect server fd).listenerDone more else none
  | .acceptFailed more => if .accept ∈ w.inFlight then w.listenerDone more else none
  | .recv sid room res now =>
    if deliverable room res then
      w.take (.recv sid room) [] sid now fun s ring => s.processRead server res ring
    else none
  | .sent sid n now =>
    w.take (.sent sid n) [.notif sid] sid now fun s ring =>
      some ((s.setWaitingZc true).processWrite n false ring)
  | .failed sid more now =>
    w.take (.failed sid more) (if more then [.notif sid] else []) sid now fun s ring =>
      some ((if more then s.setWaitingZc true else s).processWrite (-1) false ring)
  | .notif sid now =>
    w.take (.notif sid) [] sid now fun s ring => some (s.processWrite 0 true ring)
  | .kernelSend sid n =>
    match w.nextSend sid with
    | none => none
    | some region =>
      if n ≤ region.length then
        let w := w.proceed (.send sid region) [.sent sid n]
        some { w with wire := Function.update w.wire sid (w.wire sid ++ region.take n) }
      else none
  | .kernelFail sid more =>
    match w.nextSend sid with
    | none => none
    | some region => some (w.proceed (.send sid region) [.failed sid more])
  | .expire sid =>
    match w.pool sid with
    | none => none
    | some s => if w.wheel sid then some (w.expire sid s) else none
  | .submit => some w.submit
  | .consume k =>
    if k ≤ w.ring.lag then some { w with ring := { w.ring with lag := w.ring.lag - k } } else none

end Worker

def plainRequest : Bytes := ascii "GET /a HTTP/1.1\r\n\r\n"

def acceptAndAnswer : List Event :=
  [.accept 5 true, .submit, .recv 0 16384 (.data plainRequest) 0, .submit, .kernelSend 0 115,
    .sent 0 115 0]

end WarpApi

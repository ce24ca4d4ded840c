import WarpApi.HandleRequest

/-!
The io_uring backend of a session: the submission queue, the two functions that
fill an entry, and `Session::processRead` and `Session::processWrite`. An entry
is obtained only while the queue has room; both callers go on without one when
it has not.
-/
namespace WarpApi

/-- An operation from the entry that asks for it to its last completion. `send` has
not been performed yet, `sent` and `failed` have their first completion to come,
and `notif` stands for an F_NOTIF to come. The tag of `nop` is null. -/
inductive Op
  | accept
  | nop
  | recv (session : SessionId) (room : ℕ)
  | send (session : SessionId) (region : Bytes)
  | sent (session : SessionId) (n : ℕ)
  | failed (session : SessionId) (more : Bool)
  | notif (session : SessionId)
  deriving DecidableEq

/-- The session that the tag of the operation's completions leads to. -/
def Op.session? : Op → Option SessionId
  | .recv sid _ => some sid
  | .send sid _ => some sid
  | .sent sid _ => some sid
  | .failed sid _ => some sid
  | .notif sid => some sid
  | _ => none

/-- The submission queue: its size, the entries prepared since the last submit, and
the number of submitted entries that the kernel thread has not consumed yet. -/
structure Ring where
  entries : ℕ
  prepared : List Op
  lag : ℕ
  deriving DecidableEq

namespace Ring

/-- `io_uring_get_sqe` returns null. -/
def full (r : Ring) : Bool := r.entries ≤ r.prepared.length + r.lag

def room (r : Ring) : ℕ := r.entries - (r.prepared.length + r.lag)

def push (r : Ring) (op : Op) : Ring := { r with prepared := r.prepared ++ [op] }

theorem full_iff (r : Ring) : r.full = true ↔ r.room = 0 := by
  unfold full room
  rw [decide_eq_true_eq]
  omega

theorem room_push (r : Ring) (op : Op) : (r.push op).room = r.room - 1 := by
  unfold room push
  simp only [List.length_append, List.length_cons, List.length_nil]
  omega

end Ring

namespace Session

/-- `onReadReady(sqe)`: the session and what the entry asks for. -/
def onReadReadySqe (s : Session) : Session × Op :=
  if s.readBuffer.free = 0 then (s.close, .nop)
  else (s.setReading true, .recv s.self s.readBuffer.free)

/-- `onWriteReady(sqe)`: all unread bytes of the write buffer are pinned for the send. -/
def onWriteReadySqe (s : Session) : Session × Op :=
  if s.writeBuffer.size = 0 then (s.close, .nop)
  else (s.setWriting true, .send s.self s.writeBuffer.unread)

theorem onWriteReadySqe_of_pos (s : Session) (h : 0 < s.writeBuffer.size) :
    s.onWriteReadySqe = (s.setWriting true, .send s.self s.writeBuffer.unread) := by
  rw [onWriteReadySqe, if_neg (by omega)]

/-- `if (io_uring_sqe* sqe = io_uring_get_sqe(ring)) fill(sqe);` -/
def arm (fill : Session → Session × Op) (s : Session) (ring : Ring) : Session × Ring :=
  if ring.full then (s, ring) else ((fill s).1, ring.push (fill s).2)

def armWrite (s : Session) (ring : Ring) : Session × Ring :=
  if 0 < s.writeBuffer.size ∧ s.isWriteInFlight = false then arm onWriteReadySqe s ring
  else (s, ring)

def armRead (s : Session) (ring : Ring) : Session × Ring :=
  if s.isReadInFlight = false ∧ s.status = .active then arm onReadReadySqe s ring else (s, ring)

/-- The received bytes are processed; a frame error turns to closing. -/
def takeInput (server : Server) (bytes : Bytes) (s : Session) : Option Session :=
  (s.receive bytes).processInput server |>.map fun (alive, s) =>
    if alive then s else { s.setStatus .closing with keepAlive := false }

/-- `none`: the processing of the bytes has no end or no defined result. -/
def processRead (server : Server) (res : RecvResult) (s : Session) (ring : Ring) :
    Option (Bool × Session × Ring) :=
  let s := s.setReading false
  match res with
  | .data bytes =>
    (s.takeInput server bytes).map fun s =>
      let (s, ring) := s.armWrite ring
      let (s, ring) := s.armRead ring
      (true, s, ring)
  | _ =>
    if s.writeBuffer.size = 0 then some (false, s.close, ring)
    else some (true, { s with keepAlive := false }.setStatus .closing, ring)

/-- The pinned bytes leave the write buffer. -/
def releaseZc (s : Session) : Session :=
  { s.setWaitingZc false with
    writeBuffer := s.writeBuffer.advance s.lockedZcBytes, lockedZcBytes := 0 }

/-- The F_NOTIF: what is left behind the pinned bytes is sent. -/
def processNotif (s : Session) (ring : Ring) : Bool × Session × Ring :=
  let s := s.releaseZc
  if 0 < s.writeBuffer.size then (true, arm onWriteReadySqe s ring)
  else if s.keepAlive then (true, s, ring)
  else (false, s.close, ring)

def processWrite (bytesSent : ℤ) (isNotif : Bool) (s : Session) (ring : Ring) :
    Bool × Session × Ring :=
  if isNotif then s.processNotif ring
  else
    let s := s.setWriting false
    if bytesSent < 0 then (false, s.close, ring)
    else (true, { s with lockedZcBytes := bytesSent.toNat }, ring)

end Session

end WarpApi

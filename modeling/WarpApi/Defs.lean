import Mathlib.Data.List.Basic
import Mathlib.Data.Nat.Bitwise

/-!
Shared definitions of WarpDefs.h and HeadersList.h: byte strings, request
methods, session and I/O states, and the header table. A header type is a bit
of the presence mask, and the sources use the same number as an index.
-/
namespace WarpApi

abbrev Bytes := List UInt8

def ascii (s : String) : Bytes := s.toList.map fun c => UInt8.ofNat c.toNat

def cr : UInt8 := 13
def lf : UInt8 := 10
def space : UInt8 := 32
def questionMark : UInt8 := 63
def colon : UInt8 := 58

def crlf : Bytes := [cr, lf]

def minRequestSize : ℕ := 16

def httpVersion : Bytes := ascii "HTTP/1.1"

/-- A descriptor that `Session::close` has given back. -/
def socketErrorValue : ℤ := -1

def timerWheelTickInterval : ℕ := 1000

inductive Method
  | get | post | put | patch | delete | head | options | unknown
  deriving DecidableEq, Repr

/-- The build selects one of the two event loops. -/
inductive Backend
  | epoll | ioUring
  deriving DecidableEq, Repr

inductive SessionStatus
  | active | closing | closed
  deriving DecidableEq, Repr

/-- The three bits of `IoStateFlags`: a recv, a send_zc and an F_NOTIF expected. -/
structure IoState where
  reading : Bool
  writing : Bool
  waitingZc : Bool
  deriving DecidableEq, Repr

namespace IoState

def none : IoState := ⟨false, false, false⟩

def any (f : IoState) : Bool := f.reading || f.writing || f.waitingZc

theorem any_eq_false_iff (f : IoState) : f.any = false ↔ f = none := by
  obtain ⟨r, w, z⟩ := f
  cases r <;> cases w <;> cases z <;> decide

end IoState

def appInfoHeader : Bytes := ascii "WarpApi/1.0"
def keepAliveHeader : Bytes := ascii "keep-alive"
def closeConnHeader : Bytes := ascii "close"
def upgradeHeader : Bytes := ascii "Upgrade"
def websocketUpgradeHeader : Bytes := ascii "websocket"
def wsVersion13Header : Bytes := ascii "13"

inductive HeaderType
  | none | server | contentType | contentLength | connection | userAgent | accept
  | acceptEncoding | host | authorization | cacheControl | upgrade | secWebSocketKey
  | secWebSocketVersion | secWebSocketAccept
  deriving DecidableEq, Repr

/-- `HEADER_LIST`: the key, its name in HTTP and the bit of its mask. -/
def headerList : List (HeaderType × Bytes × ℕ) :=
  [(.server, ascii "Server", 0),
   (.contentType, ascii "Content-Type", 1),
   (.contentLength, ascii "Content-Length", 2),
   (.connection, ascii "Connection", 3),
   (.userAgent, ascii "User-Agent", 4),
   (.accept, ascii "Accept", 5),
   (.acceptEncoding, ascii "Accept-Encoding", 6),
   (.host, ascii "Host", 7),
   (.authorization, ascii "Authorization", 8),
   (.cacheControl, ascii "Cache-Control", 9),
   (.upgrade, ascii "Upgrade", 10),
   (.secWebSocketKey, ascii "Sec-WebSocket-Key", 11),
   (.secWebSocketVersion, ascii "Sec-WebSocket-Version", 12),
   (.secWebSocketAccept, ascii "Sec-WebSocket-Accept", 13)]

def headerStrings : List Bytes := headerList.map fun entry => entry.2.1

def maxHeadersSize : ℕ := 14

namespace HeaderType

/-- The enumerator's number: `1 << bit`, and 0 for `None`. -/
def val (key : HeaderType) : ℕ :=
  match headerList.find? fun entry => entry.1 == key with
  | some (_, _, bit) => 1 <<< bit
  | _ => 0

/-- The name that `HEADER_LIST` gives the key. -/
def httpName (key : HeaderType) : Bytes :=
  match headerList.find? fun entry => entry.1 == key with
  | some (_, name, _) => name
  | _ => []

theorem exists_bit {key : HeaderType} (hne : key ≠ .none) : ∃ b, key.val = 2 ^ b := by
  cases key with
  | none => exact absurd rfl hne
  | server => exact ⟨0, by decide⟩
  | contentType => exact ⟨1, by decide⟩
  | contentLength => exact ⟨2, by decide⟩
  | connection => exact ⟨3, by decide⟩
  | userAgent => exact ⟨4, by decide⟩
  | accept => exact ⟨5, by decide⟩
  | acceptEncoding => exact ⟨6, by decide⟩
  | host => exact ⟨7, by decide⟩
  | authorization => exact ⟨8, by decide⟩
  | cacheControl => exact ⟨9, by decide⟩
  | upgrade => exact ⟨10, by decide⟩
  | secWebSocketKey => exact ⟨11, by decide⟩
  | secWebSocketVersion => exact ⟨12, by decide⟩
  | secWebSocketAccept => exact ⟨13, by decide⟩

theorem val_inj {key other : HeaderType} (h : key.val = other.val) : key = other := by
  revert h
  cases key <;> cases other <;> decide

/-- The key is an index of the arrays of headers. -/
def hasSlot (key : HeaderType) : Bool := key.val < maxHeadersSize

end HeaderType

theorem headerStrings_length : headerStrings.length = maxHeadersSize := rfl

/-- `HeaderStrings[key]`; an index behind the table has no defined content. -/
def headerString (key : HeaderType) : Bytes := headerStrings.getD key.val []

def hasHeader (flags required : ℕ) : Bool := flags &&& required == required

end WarpApi

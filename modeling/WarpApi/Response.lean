import WarpApi.StringUtils
import WarpApi.Library.BoundedQueue
import Mathlib.Logic.Function.Basic

/-!
HttpResponse.h. The response keeps its header values in an array indexed by the
enumerator and a list of the keys in use; `setBody` writes status line, headers
and body into the session's write buffer piece by piece.
-/
namespace WarpApi

abbrev RingBuffer := BoundedQueue UInt8

/-- `HttpResponse::writeAll`: repeat `write` until everything is in or nothing fits. -/
def writeAll : ℕ → RingBuffer → Bytes → Bool × RingBuffer
  | 0, rb, data => (data.isEmpty, rb)
  | turns + 1, rb, data =>
    if data.isEmpty then (true, rb)
    else if min data.length rb.free = 0 then (false, rb)
    else writeAll turns (rb.push data) (data.drop (min data.length rb.free))

def write (rb : RingBuffer) (data : Bytes) : RingBuffer := (writeAll data.length rb data).2

structure HttpResponse where
  status : ℤ
  version : Bytes
  headers : Fin maxHeadersSize → Bytes
  /-- The first `header_count` entries of `active_headers`. -/
  activeHeaders : List HeaderType
  /-- Indices behind one of the two arrays that were used. -/
  strayAccesses : List ℕ

/-- The table of `getStatusString`; other statuses have no entry. -/
def statusStrings : List (ℤ × Bytes) :=
  [(100, ascii "100 Continue"), (101, ascii "101 Switching Protocols"),
   (102, ascii "102 Processing"), (200, ascii "200 OK"), (201, ascii "201 Created"),
   (202, ascii "202 Accepted"), (203, ascii "203 Non-Authoritative Information"),
   (204, ascii "204 No Content"), (205, ascii "205 Reset Content"),
   (206, ascii "206 Partial Content"), (300, ascii "300 Multiple Choices"),
   (301, ascii "301 Moved Permanently"), (302, ascii "302 Found"), (303, ascii "303 See Other"),
   (304, ascii "304 Not Modified"), (305, ascii "305 Use Proxy"),
   (307, ascii "307 Temporary Redirect"), (308, ascii "308 Permanent Redirect"),
   (400, ascii "400 Bad Request"), (401, ascii "401 Unauthorized"),
   (402, ascii "402 Payment Required"), (403, ascii "403 Forbidden"),
   (404, ascii "404 Not Found"), (405, ascii "405 Method Not Allowed"),
   (406, ascii "406 Not Acceptable"), (407, ascii "407 Proxy Authentication Required"),
   (408, ascii "408 Request Timeout"), (409, ascii "409 Conflict"), (410, ascii "410 Gone"),
   (411, ascii "411 Length Required"), (412, ascii "412 Precondition Failed"),
   (413, ascii "413 Payload Too Large"), (414, ascii "414 URI Too Long"),
   (415, ascii "415 Unsupported Media Type"), (416, ascii "416 Range Not Satisfiable"),
   (417, ascii "417 Expectation Failed"), (429, ascii "429 Too Many Requests"),
   (500, ascii "500 Internal Server Error"), (501, ascii "501 Not Implemented"),
   (502, ascii "502 Bad Gateway"), (503, ascii "503 Service Unavailable"),
   (504, ascii "504 Gateway Timeout"), (505, ascii "505 HTTP Version Not Supported")]

def getStatusString (status : ℤ) : Bytes :=
  match statusStrings.find? fun entry => entry.1 == status with
  | some (_, text) => text
  | none => ascii "500 Internal Server Error"

namespace HttpResponse

def init : HttpResponse := ⟨200, [], fun _ => [], [], []⟩

def setStatus (r : HttpResponse) (status : ℤ) : HttpResponse := { r with status := status }

def setVersion (r : HttpResponse) (version : Bytes) : HttpResponse := { r with version := version }

/-- A key counts as new when the stored value is empty. -/
def addHeader (r : HttpResponse) (key : HeaderType) (value : Bytes) : HttpResponse :=
  if h : key.val < maxHeadersSize then
    let r := if (r.headers ⟨key.val, h⟩).isEmpty then
        if r.activeHeaders.length < maxHeadersSize then
          { r with activeHeaders := r.activeHeaders ++ [key] }
        else { r with strayAccesses := r.activeHeaders.length :: r.strayAccesses }
      else r
    { r with headers := Function.update r.headers ⟨key.val, h⟩ value }
  else { r with strayAccesses := key.val :: r.strayAccesses }

def header (r : HttpResponse) (key : HeaderType) : Bytes :=
  if h : key.val < maxHeadersSize then r.headers ⟨key.val, h⟩ else []

/-- The pieces that `setBody` writes, one call of `writeAll` each. -/
def pieces (r : HttpResponse) (body : Bytes) : List Bytes :=
  [r.version, ascii " ", getStatusString r.status, crlf] ++
    (r.activeHeaders.flatMap fun key =>
      if key = .contentLength then []
      else [headerString key, ascii ": ", r.header key, crlf]) ++
    [headerString .contentLength, ascii ": ", fastItoa 24 body.length, crlf ++ crlf, body]

def setBody (r : HttpResponse) (body : Bytes) (out : RingBuffer) : RingBuffer :=
  (r.pieces body).foldl write out

/-- The whole message, as it is appended when everything fits. -/
def serialise (r : HttpResponse) (body : Bytes) : Bytes := (r.pieces body).flatten

/-- The response tells the client that the connection will be closed. -/
def carriesClose (r : HttpResponse) : Bool := r.header .connection == closeConnHeader

end HttpResponse

theorem writeAll_eq (turns : ℕ) (rb : RingBuffer) (data : Bytes) (hturns : data.length ≤ turns) :
    (writeAll turns rb data).2 = rb.push data := by
  induction turns generalizing rb data with
  | zero =>
    have hnil : data = [] := List.length_eq_zero_iff.mp (Nat.le_zero.mp hturns)
    subst hnil
    exact (rb.push_nil).symm
  | succ turns ih =>
    rw [writeAll]
    split
    · rename_i hempty
      rw [List.isEmpty_iff.mp hempty, BoundedQueue.push_nil]
    · rename_i hne
      have hpos : 0 < data.length := List.length_pos_iff.mpr (by simpa using hne)
      split
      · rename_i hn
        exact (rb.push_of_free_eq_zero data (by omega)).symm
      · rename_i hn
        rw [ih _ _ (by rw [List.length_drop]; omega), BoundedQueue.push_push_drop]

theorem write_eq_push (rb : RingBuffer) (data : Bytes) : write rb data = rb.push data :=
  writeAll_eq _ _ _ (Nat.le_refl _)

/-- A series of writes appends its pieces one after the other, as far as they fit. -/
theorem foldl_write (ps : List Bytes) (rb : RingBuffer) :
    ps.foldl write rb = rb.push ps.flatten := by
  induction ps generalizing rb with
  | nil => exact (rb.push_nil).symm
  | cons p ps ih =>
    rw [List.foldl_cons, write_eq_push, ih, BoundedQueue.push_push, List.flatten_cons]

namespace HttpResponse

theorem setBody_eq_push (r : HttpResponse) (body : Bytes) (out : RingBuffer) :
    r.setBody body out = out.push (r.serialise body) := foldl_write _ _

@[simp] theorem capacity_setBody (r : HttpResponse) (body : Bytes) (out : RingBuffer) :
    (r.setBody body out).capacity = out.capacity := by
  rw [setBody_eq_push, BoundedQueue.capacity_push]

/-- Whatever fits, a response only appends. -/
theorem setBody_mono (r : HttpResponse) (body : Bytes) (out : RingBuffer) :
    out.written <+: (r.setBody body out).written ∧ (r.setBody body out).readPos = out.readPos := by
  rw [setBody_eq_push]
  exact ⟨out.written_prefix_push _, rfl⟩

end HttpResponse

end WarpApi

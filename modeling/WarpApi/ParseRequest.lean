import WarpApi.Session

/-!
`Session::parseRequest`. A pointer into the read buffer is modelled by the bytes
from there to the end of the received data. `parseBytes` is the body of the
function on the bytes, the request object and the keep-alive flag; like the
code it may have changed both of them by the time it gives up.
-/
namespace WarpApi

structure RequestLine where
  method : Bytes
  path : Bytes
  query : Bytes
  version : Bytes
  deriving DecidableEq

/-- `find_crlf` and the test for the LF behind it: the line and what follows it. -/
def firstLine (data : Bytes) : Option (Bytes × Bytes) :=
  match findCrlf data with
  | none => none
  | some lineEnd =>
    if data.length ≤ lineEnd + 1 ∨ data.getD (lineEnd + 1) 0 ≠ lf then none
    else some (data.take lineEnd, data.drop (lineEnd + 2))

/-- Method, path, optional query and version; `none` when a separator is missing. -/
def splitRequestLine (line : Bytes) : Option RequestLine :=
  let method := line.takeWhile (· != space)
  if method.length = line.length then none
  else
    let target := line.drop (method.length + 1)
    let path := target.takeWhile fun c => c != questionMark && c != space
    if path.length = target.length then none
    else if target.getD path.length 0 = questionMark then
      let tail := target.drop (path.length + 1)
      let query := tail.takeWhile (· != space)
      if query.length = tail.length then none
      else some ⟨method, path, query, tail.drop (query.length + 1)⟩
    else some ⟨method, path, [], target.drop (path.length + 1)⟩

/-- The name before the colon and the value, less one leading space. -/
def splitHeader (line : Bytes) : Option (Bytes × Bytes) :=
  let name := line.takeWhile (· != colon)
  if name.length = line.length then none
  else
    let v := line.drop (name.length + 1)
    some (name, if v.head? = some space then v.tail else v)

/-- `switch (klen)`: a header is told by the length of its name. -/
def headerKey : ℕ → HeaderType
  | 10 => .connection
  | 14 => .contentLength
  | 7 => .upgrade
  | 17 => .secWebSocketKey
  | 21 => .secWebSocketVersion
  | _ => .none

structure HeaderScan where
  req : HttpRequest
  keepAlive : Bool
  contentLength : UInt64
  hasContentLen : Bool

def storeHeader (req : HttpRequest) (key : HeaderType) (value : Bytes) : HttpRequest :=
  (if key ≠ .none then req.addPresent key else req).addHeader key value

def connectionKeepAlive (keepAlive : Bool) (value : Bytes) : Bool :=
  if iequalsSmall value closeConnHeader then false
  else if iequalsSmall value keepAliveHeader then true
  else keepAlive

/-- One header line; `none` when its length exceeds the body limit. -/
def headerLine (settings : SettingsData) (line : Bytes) (st : HeaderScan) : Option HeaderScan :=
  match splitHeader line with
  | none => some st
  | some (name, value) =>
    let key := headerKey name.length
    let contentLength := if key = .contentLength then fastAtoi value else st.contentLength
    if key = .contentLength ∧ contentLength > settings.maxBodySize then none
    else some
      { req := storeHeader st.req key value
        keepAlive :=
          if key = .connection then connectionKeepAlive st.keepAlive value else st.keepAlive
        contentLength := contentLength
        hasContentLen := st.hasContentLen || key = .contentLength }

/-- The header loop: the bytes behind the headers, or `none` when it gives up.
Running out of bytes ends the loop like a blank line does. Each turn takes at
least two bytes, so the number of bytes bounds the number of turns. -/
def headerLoop (settings : SettingsData) : ℕ → Bytes → HeaderScan → Option Bytes × HeaderScan
  | 0, _, st => (none, st)
  | turns + 1, rest, st =>
    if rest = [] then (some [], st)
    else if rest.take 2 = crlf then (some (rest.drop 2), st)
    else match firstLine rest with
      | none => (none, st)
      | some (line, rest) =>
        match headerLine settings line st with
        | none => (none, st)
        | some st => headerLoop settings turns rest st

structure ParseResult where
  req : HttpRequest
  keepAlive : Bool
  /-- How far the read position advances; `none` when parsing fails. -/
  consumed : Option ℕ

/-- The body, whose end is computed in wrapping 64-bit arithmetic. Where the sum wraps, the
view goes on behind the received bytes. -/
def takeBody (data rest : Bytes) (st : HeaderScan) : ParseResult :=
  let headerSize := data.length - rest.length
  if st.hasContentLen ∧ st.contentLength > 0 then
    let total := (UInt64.ofNat headerSize + st.contentLength).toNat
    if data.length < total then ⟨st.req, st.keepAlive, none⟩
    else ⟨st.req.setBodyView (rest.take st.contentLength.toNat) st.contentLength.toNat,
        st.keepAlive, some total⟩
  else ⟨st.req, st.keepAlive, some headerSize⟩

def startScan (req : HttpRequest) (line : RequestLine) : HeaderScan where
  req := ((req.setMethod (HttpRequest.parseMethod line.method)).setPath
    line.path line.query).setVersion line.version
  keepAlive := true
  contentLength := 0
  hasContentLen := false

def parseBytes (settings : SettingsData) (data : Bytes) (req : HttpRequest) (keepAlive : Bool) :
    ParseResult :=
  if data.length < minRequestSize then ⟨req, keepAlive, none⟩
  else match firstLine data with
    | none => ⟨req, keepAlive, none⟩
    | some (line, rest) =>
      match splitRequestLine line with
      | none => ⟨req, keepAlive, none⟩
      | some requestLine =>
        match headerLoop settings (rest.length + 1) rest (startScan req requestLine) with
        | (none, st) => ⟨st.req, st.keepAlive, none⟩
        | (some rest, st) => takeBody data rest st

namespace Session

def parseRequest (settings : SettingsData) (s : Session) : Bool × Session :=
  let result := parseBytes settings s.readBuffer.unread s.req s.keepAlive
  let s := { s with req := result.req, keepAlive := result.keepAlive }
  match result.consumed with
  | none => (false, s)
  | some n => (true, { s with readBuffer := s.readBuffer.advance n })

/-- Successful or not, the attempt leaves its request object and its flag. -/
theorem parseRequest_fields (settings : SettingsData) (s : Session) :
    (s.parseRequest settings).2.req =
        (parseBytes settings s.readBuffer.unread s.req s.keepAlive).req ∧
      (s.parseRequest settings).2.keepAlive =
        (parseBytes settings s.readBuffer.unread s.req s.keepAlive).keepAlive := by
  unfold parseRequest
  dsimp only
  split <;> exact ⟨rfl, rfl⟩

theorem parseRequest_eq_true {settings : SettingsData} {s t : Session}
    (h : s.parseRequest settings = (true, t)) :
    ∃ n, (parseBytes settings s.readBuffer.unread s.req s.keepAlive).consumed = some n ∧
      t = { s with
        req := (parseBytes settings s.readBuffer.unread s.req s.keepAlive).req
        keepAlive := (parseBytes settings s.readBuffer.unread s.req s.keepAlive).keepAlive
        readBuffer := s.readBuffer.advance n } := by
  unfold parseRequest at h
  dsimp only at h
  split at h
  · simp at h
  · rename_i n hconsumed
    simp only [Prod.mk.injEq, true_and] at h
    exact ⟨n, hconsumed, h.symm⟩

theorem parseRequest_of_consumed {settings : SettingsData} {s : Session} {n : ℕ}
    (h : (parseBytes settings s.readBuffer.unread s.req s.keepAlive).consumed = some n) :
    ∃ t, s.parseRequest settings = (true, t) ∧
      t.readBuffer.readPos = min (s.readBuffer.readPos + n) s.readBuffer.written.length := by
  unfold parseRequest
  dsimp only
  rw [h]
  exact ⟨_, rfl, rfl⟩

theorem parseRequest_eq_false {settings : SettingsData} {s t : Session}
    (h : s.parseRequest settings = (false, t)) :
    (parseBytes settings s.readBuffer.unread s.req s.keepAlive).consumed = none ∧
      t = { s with
        req := (parseBytes settings s.readBuffer.unread s.req s.keepAlive).req
        keepAlive := (parseBytes settings s.readBuffer.unread s.req s.keepAlive).keepAlive } := by
  unfold parseRequest at h
  dsimp only at h
  split at h
  · rename_i hconsumed
    simp only [Prod.mk.injEq, true_and] at h
    exact ⟨hconsumed, h.symm⟩
  · simp at h

end Session

theorem firstLine_append (line rest : Bytes) (h : cr ∉ line) :
    firstLine (line ++ crlf ++ rest) = some (line, rest) := by
  have hdata : line ++ crlf ++ rest = line ++ cr :: (lf :: rest) := by simp [crlf]
  rw [hdata, firstLine, findCrlf_append _ _ h]
  simp [List.drop_append]

theorem firstLine_eq_some_iff (data line rest : Bytes) :
    firstLine data = some (line, rest) ↔ data = line ++ crlf ++ rest ∧ cr ∉ line := by
  constructor
  · intro h
    rcases exists_first_cr data with hnone | ⟨pre, post, heq, hpre⟩
    · rw [firstLine, findCrlf_of_notMem _ hnone] at h
      simp at h
    · subst heq
      rw [firstLine, findCrlf_append _ _ hpre] at h
      cases post with
      | nil => simp at h
      | cons c post =>
        by_cases hc : c = lf
        · subst hc
          simp [List.drop_append] at h
          obtain ⟨rfl, rfl⟩ := h
          exact ⟨by simp [crlf], hpre⟩
        · simp [hc] at h
  · rintro ⟨rfl, h⟩
    exact firstLine_append line rest h

namespace Handles

theorem parseRequest (settings : SettingsData) (s : Session) :
    Handles s (s.parseRequest settings).2 := by
  unfold Session.parseRequest
  dsimp only
  split
  · exact { refl s with }
  · exact { refl s with }

end Handles

end WarpApi

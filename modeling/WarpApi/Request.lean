import WarpApi.Defs
import Mathlib.Logic.Function.Basic

/-!
HttpRequest.h. A string view is modelled by the bytes it showed when it was
set, and the body also by its length, because its view may go on behind the
received bytes. The header array has 14 slots. A write behind it leaves the fields
of the request alone; it lands further on in the pool, in the memory of other
sessions. Here it is only recorded, in `strayWrites`.
-/
namespace WarpApi

structure RequestData where
  method : Method
  path : Bytes
  query : Bytes
  version : Bytes
  body : Bytes
  bodySize : ℕ
  headers : Fin maxHeadersSize → Bytes
  queryParams : List (Bytes × Bytes)

namespace RequestData

def init : RequestData where
  method := .unknown
  path := []
  query := []
  version := ascii "HTTP/2.0"
  body := []
  bodySize := 0
  headers := fun _ => []
  queryParams := []

/-- `clear` leaves the query parameters alone. -/
def clear (d : RequestData) : RequestData :=
  { d with method := .unknown, path := [], query := [], version := [], body := [],
           bodySize := 0, headers := fun _ => [] }

end RequestData

structure HttpRequest where
  data : RequestData
  presentHeaders : ℕ
  strayWrites : List ℕ

namespace HttpRequest

def init : HttpRequest := ⟨RequestData.init, HeaderType.none.val, []⟩

/-- The first letter decides, and for P the length. -/
def parseMethod (m : Bytes) : Method :=
  match m with
  | [] => .unknown
  | c :: _ =>
    if c = 71 then .get
    else if c = 80 then
      match m.length with
      | 3 => .put
      | 4 => .post
      | 5 => .patch
      | _ => .unknown
    else if c = 72 then .head
    else if c = 68 then .delete
    else if c = 79 then .options
    else .unknown

def setMethod (r : HttpRequest) (method : Method) : HttpRequest :=
  { r with data := { r.data with method := method } }

def setPath (r : HttpRequest) (path query : Bytes) : HttpRequest :=
  { r with data := { r.data with path := path, query := query } }

def setVersion (r : HttpRequest) (version : Bytes) : HttpRequest :=
  { r with data := { r.data with version := version } }

/-- A view of this length, of which these bytes have been received. -/
def setBodyView (r : HttpRequest) (shown : Bytes) (size : ℕ) : HttpRequest :=
  { r with data := { r.data with body := shown, bodySize := size } }

def setBody (r : HttpRequest) (body : Bytes) : HttpRequest := r.setBodyView body body.length

/-- The enumerator is used as an index without a bound check. -/
def addHeader (r : HttpRequest) (key : HeaderType) (v : Bytes) : HttpRequest :=
  if key ≠ .none then
    if h : key.val < maxHeadersSize then
      { r with data := { r.data with headers := Function.update r.data.headers ⟨key.val, h⟩ v } }
    else { r with strayWrites := key.val :: r.strayWrites }
  else r

def getHeader (r : HttpRequest) (key : HeaderType) : Bytes :=
  if key.val < HeaderType.none.val then
    if h : key.val < maxHeadersSize then r.data.headers ⟨key.val, h⟩ else []
  else []

def addPresent (r : HttpRequest) (key : HeaderType) : HttpRequest :=
  { r with presentHeaders := r.presentHeaders ||| key.val }

def reset (r : HttpRequest) : HttpRequest :=
  { r with data := r.data.clear, presentHeaders := HeaderType.none.val }

/-- No enumerator is below `None`, so nothing that was stored is ever returned. -/
theorem getHeader_eq_nil (r : HttpRequest) (key : HeaderType) : r.getHeader key = [] := by
  have hnone : HeaderType.none.val = 0 := by decide
  rw [getHeader, hnone, if_neg (Nat.not_lt_zero _)]

end HttpRequest

end WarpApi

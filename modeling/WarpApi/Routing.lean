import WarpApi.Request
import WarpApi.Response

/-!
Endpoint.h, EndpointManager and the callback types of WarpDefs.h. User code is
described by what it does when it is called: a request handler by its calls on
the response and by how it ends, a WebSocket callback by its calls on the
context. A callback may have state of its own, so it is also told which session
calls it and how much that session has done before.
-/
namespace WarpApi

abbrev SessionId := ℕ

/-- Identifies one call of user code. -/
structure Moment where
  session : SessionId
  past : ℕ

inductive ResponseCall
  | setStatus (status : ℤ)
  | setVersion (version : Bytes)
  | addHeader (key : HeaderType) (value : Bytes)
  | setBody (body : Bytes)
  deriving DecidableEq

/-- The calls a handler makes, then a normal return or a `std::exception`. -/
structure HandlerRun where
  calls : List ResponseCall
  thrown : Option Bytes
  deriving DecidableEq

abbrev RequestHandler := Moment → HttpRequest → HandlerRun

inductive ContextCall
  | sendText (payload : Bytes)
  | sendBinary (payload : Bytes)
  | close (code : UInt16) (reason : Bytes)
  deriving DecidableEq

structure WebSocketRoute where
  onOpen : Option (Moment → List ContextCall)
  onMessage : Option (Moment → Bytes → List ContextCall)
  onClose : Option (Moment → List ContextCall)

structure Endpoint where
  route : Bytes
  method : Method
  exec : RequestHandler

/-- `ink::InkixTree` as an exact-match finite map. -/
structure InkixTree (α : Type*) where
  entries : List (Bytes × α)

namespace InkixTree

variable {α : Type*}

def empty : InkixTree α := ⟨[]⟩

def get (t : InkixTree α) (route : Bytes) : Option α := t.entries.lookup route

def insert (t : InkixTree α) (route : Bytes) (a : α) : InkixTree α := ⟨(route, a) :: t.entries⟩

end InkixTree

structure EndpointManager where
  endpointsMap : Method → InkixTree Endpoint
  wsEndpoints : InkixTree WebSocketRoute

namespace EndpointManager

def init : EndpointManager := ⟨fun _ => InkixTree.empty, InkixTree.empty⟩

/-- `none`: the method and route are taken and the call throws. -/
def registerEndpoint (m : EndpointManager) (endpoint : Endpoint) : Option EndpointManager :=
  let tree := m.endpointsMap endpoint.method
  if (tree.get endpoint.route).isSome then none
  else
    let tables := Function.update m.endpointsMap endpoint.method
      (tree.insert endpoint.route endpoint)
    some { m with endpointsMap := tables }

def registerWebSocketEndpoint (m : EndpointManager) (route : Bytes) (wsRoute : WebSocketRoute) :
    Option EndpointManager :=
  if (m.wsEndpoints.get route).isSome then none
  else some { m with wsEndpoints := m.wsEndpoints.insert route wsRoute }

def getEndpoint (m : EndpointManager) (method : Method) (route : Bytes) : Option Endpoint :=
  (m.endpointsMap method).get route

def getWebSocketEndpoint (m : EndpointManager) (route : Bytes) : Option WebSocketRoute :=
  m.wsEndpoints.get route

end EndpointManager

end WarpApi

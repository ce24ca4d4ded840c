import WarpApi.EndpointRouting

/-!
BaseService and GeneralServices. A service registers its routes when it is
constructed, one call after the other, and the first call that throws ends the
construction; what was registered before stays. The texts that `ink::EnhancedJson`
makes for the handlers are given.
-/
namespace WarpApi

/-- One call of `BaseService::registerEndpoint` or `registerWebSocketEndpoint`. -/
inductive Registration
  | endpoint (endpoint : Endpoint)
  | webSocket (route : Bytes) (wsRoute : WebSocketRoute)

/-- A place in the tables: of a method and a route, or of a WebSocket route. -/
inductive RouteKey
  | http (method : Method) (route : Bytes)
  | webSocket (route : Bytes)
  deriving DecidableEq

def Registration.key : Registration → RouteKey
  | .endpoint e => .http e.method e.route
  | .webSocket route _ => .webSocket route

namespace EndpointManager

/-- `none`: the call throws. -/
def register (m : EndpointManager) : Registration → Option EndpointManager
  | .endpoint e => m.registerEndpoint e
  | .webSocket route wsRoute => m.registerWebSocketEndpoint route wsRoute

/-- The calls of `registerAllEndpoints`: did all of them return, and the tables then. -/
def registerAll : List Registration → EndpointManager → Bool × EndpointManager
  | [], m => (true, m)
  | r :: rs, m =>
    match m.register r with
    | some m' => registerAll rs m'
    | none => (false, m)

/-- Both kinds of tables as one. -/
def lookup (m : EndpointManager) : RouteKey → Option Registration
  | .http method route => (m.getEndpoint method route).map .endpoint
  | .webSocket route => (m.getWebSocketEndpoint route).map (.webSocket route)

end EndpointManager

/-- `ink::EnhancedJson` in the handlers: its texts, and for GET /test what becomes of the
query parameters and the body, or the message of the exception. -/
structure JsonTexts where
  meta_obj : Bytes
  test : HttpRequest → Except Bytes Bytes
  health : Bytes
  version : Bytes

/-- The WebSocket route /ws/echo. -/
def echoRoute : WebSocketRoute where
  onOpen := some fun _ => [.sendText (ascii "connected")]
  onMessage := some fun _ payload => [.sendText payload]
  onClose := some fun _ => []

/-- A handler that calls `response.setBody` once, with a text made from the request. -/
def bodyHandler (text : HttpRequest → Bytes) : RequestHandler :=
  fun _ request => ⟨[.setBody (text request)], none⟩

def testHandler (texts : JsonTexts) : RequestHandler := fun _ request =>
  match texts.test request with
  | .ok result => ⟨[.setBody result], none⟩
  | .error what => ⟨[], some what⟩

/-- The calls of `GeneralServices::registerAllEndpoints`. -/
def generalServices (texts : JsonTexts) : List Registration :=
  [.endpoint ⟨ascii "/", .get, bodyHandler fun _ => texts.meta_obj⟩,
   .endpoint ⟨ascii "/test", .get, testHandler texts⟩,
   .endpoint ⟨ascii "/apibenchmark", .post, bodyHandler fun request => request.data.body⟩,
   .endpoint ⟨ascii "/health", .get, bodyHandler fun _ => texts.health⟩,
   .endpoint ⟨ascii "/version", .get, bodyHandler fun _ => texts.version⟩,
   .webSocket (ascii "/ws/echo") echoRoute]

namespace EndpointManager

theorem register_endpoint_eq_some {m m' : EndpointManager} {e : Endpoint}
    (h : m.registerEndpoint e = some m') :
    m.getEndpoint e.method e.route = none ∧ m' = m.tryRegister e ∧
      m'.wsEndpoints = m.wsEndpoints := by
  have htry : m' = m.tryRegister e := by
    rw [tryRegister, h]
    rfl
  unfold registerEndpoint at h
  dsimp only at h
  split at h
  · simp at h
  · rename_i hfree
    refine ⟨?_, htry, ?_⟩
    · rw [Bool.not_eq_true, Option.isSome_eq_false_iff, Option.isNone_iff_eq_none] at hfree
      exact hfree
    · rw [← Option.some.inj h]

/-- A call throws exactly at a place that is taken. -/
theorem register_eq_none_iff (m : EndpointManager) (r : Registration) :
    m.register r = none ↔ (m.lookup r.key).isSome = true := by
  cases r with
  | endpoint e =>
    show m.registerEndpoint e = none ↔
      ((m.getEndpoint e.method e.route).map Registration.endpoint).isSome = true
    rw [Option.isSome_map]
    unfold registerEndpoint getEndpoint
    dsimp only
    split
    · rename_i htaken
      exact ⟨fun _ => htaken, fun _ => rfl⟩
    · rename_i hfree
      exact ⟨fun h => absurd h (by simp), fun h => absurd h hfree⟩
  | webSocket route wsRoute =>
    show m.registerWebSocketEndpoint route wsRoute = none ↔
      ((m.getWebSocketEndpoint route).map (Registration.webSocket route)).isSome = true
    rw [Option.isSome_map]
    unfold registerWebSocketEndpoint getWebSocketEndpoint
    split
    · rename_i htaken
      exact ⟨fun _ => htaken, fun _ => rfl⟩
    · rename_i hfree
      exact ⟨fun h => absurd h (by simp), fun h => absurd h hfree⟩

/-- A call that returns fills its own place and no other. -/
theorem lookup_of_register {m m' : EndpointManager} {r : Registration}
    (h : m.register r = some m') (k : RouteKey) :
    m'.lookup k = if k = r.key then some r else m.lookup k := by
  cases r with
  | endpoint e =>
    obtain ⟨hfree, rfl, hws⟩ := register_endpoint_eq_some h
    cases k with
    | http method route =>
      show ((m.tryRegister e).getEndpoint method route).map Registration.endpoint = _
      rw [getEndpoint_tryRegister]
      by_cases hsame : e.method = method ∧ e.route = route
      · obtain ⟨rfl, rfl⟩ := hsame
        have hkey : RouteKey.http e.method e.route = (Registration.endpoint e).key := rfl
        rw [hfree, if_pos ⟨rfl, rfl⟩, if_pos hkey]
        rfl
      · have hkey : RouteKey.http method route ≠ (Registration.endpoint e).key := by
          intro heq
          obtain ⟨rfl, rfl⟩ := RouteKey.http.inj heq
          exact hsame ⟨rfl, rfl⟩
        rw [if_neg hsame, Option.or_none, if_neg hkey]
        rfl
    | webSocket route =>
      rw [if_neg (by simp [Registration.key])]
      show (InkixTree.get (m.tryRegister e).wsEndpoints route).map _ = _
      rw [hws]
      rfl
  | webSocket route wsRoute =>
    change m.registerWebSocketEndpoint route wsRoute = some m' at h
    unfold registerWebSocketEndpoint at h
    split at h
    · simp at h
    · obtain rfl := Option.some.inj h
      cases k with
      | http method route' =>
        rw [if_neg (by simp [Registration.key])]
        rfl
      | webSocket route' =>
        show ((m.wsEndpoints.insert route wsRoute).get route').map _ = _
        rw [InkixTree.insert, InkixTree.get, List.lookup_cons]
        by_cases hroute : route' = route
        · subst hroute
          have hkey : RouteKey.webSocket route' = (Registration.webSocket route' wsRoute).key := rfl
          rw [if_pos hkey]
          simp
        · have hne : (route' == route) = false := by simpa using hroute
          have hkey : RouteKey.webSocket route' ≠ (Registration.webSocket route wsRoute).key :=
            fun heq => hroute (RouteKey.webSocket.inj heq)
          rw [hne, if_neg hkey]
          rfl

theorem find_key_of_nodup {rs : List Registration} (h : (rs.map Registration.key).Nodup)
    {r : Registration} (hr : r ∈ rs) : (rs.find? fun r' => r'.key = r.key) = some r := by
  induction rs with
  | nil => exact absurd hr List.not_mem_nil
  | cons r' rs ih =>
    rw [List.map_cons, List.nodup_cons] at h
    rw [List.find?_cons]
    rcases List.mem_cons.mp hr with rfl | hrest
    · simp
    · have hne : r'.key ≠ r.key := fun heq => h.1 (heq ▸ List.mem_map_of_mem hrest)
      rw [decide_eq_false hne]
      exact ih h.2 hrest

theorem registerAll_cons_of_some {m m' : EndpointManager} {r : Registration}
    (rs : List Registration) (h : m.register r = some m') :
    registerAll (r :: rs) m = registerAll rs m' := by
  rw [registerAll, h]

theorem registerAll_cons_of_none {m : EndpointManager} {r : Registration}
    (rs : List Registration) (h : m.register r = none) : registerAll (r :: rs) m = (false, m) := by
  rw [registerAll, h]

/-- How far a service gets on these tables: the calls that it has `done` have filled their
places, every other place is as it was, and the place of the first one of the `rest` was
taken before, in the tables or by the service itself. -/
structure Fills (m : EndpointManager) (rs done rest : List Registration) : Prop where
  split : rs = done ++ rest
  all : (registerAll rs m).1 = true ↔ rest = []
  nodup : (done.map Registration.key).Nodup
  free : ∀ r ∈ done, m.lookup r.key = none
  taken : ∀ r ∈ rest.head?,
    (m.lookup r.key).isSome = true ∨ r.key ∈ done.map Registration.key
  tables : ∀ k, (registerAll rs m).2.lookup k = (m.lookup k).or (done.find? fun r => r.key = k)

theorem fills_nil (m : EndpointManager) : Fills m [] [] [] where
  split := rfl
  all := ⟨fun _ => rfl, fun _ => rfl⟩
  nodup := List.nodup_nil
  free := fun _ hr => absurd hr List.not_mem_nil
  taken := fun _ hr => absurd hr (by simp)
  tables := fun _ => Option.or_none.symm

theorem fills_of_none {m : EndpointManager} {r : Registration} (rs : List Registration)
    (hcall : m.register r = none) : Fills m (r :: rs) [] (r :: rs) where
  split := rfl
  all := by simp [registerAll_cons_of_none rs hcall]
  nodup := List.nodup_nil
  free := fun _ hr => absurd hr List.not_mem_nil
  taken := by
    intro r' hr'
    rw [List.head?_cons, Option.mem_some_iff] at hr'
    exact Or.inl (hr' ▸ (register_eq_none_iff m r).mp hcall)
  tables := by
    rw [registerAll_cons_of_none rs hcall]
    exact fun _ => Option.or_none.symm

theorem Fills.cons {m m' : EndpointManager} {r : Registration} {rs done rest : List Registration}
    (hcall : m.register r = some m') (h : Fills m' rs done rest) :
    Fills m (r :: rs) (r :: done) rest := by
  have hfree : m.lookup r.key = none := by
    have hsome : ¬ m.register r = none := by simp [hcall]
    rw [register_eq_none_iff] at hsome
    simpa using hsome
  have hlookup := lookup_of_register hcall
  -- no later call of the service has found the place of r free
  have hother : ∀ r' ∈ done, r'.key ≠ r.key ∧ m.lookup r'.key = none := by
    intro r' hr'
    have hbefore := h.free r' hr'
    rw [hlookup] at hbefore
    split_ifs at hbefore with hsame
    exact ⟨hsame, hbefore⟩
  refine ⟨by rw [h.split]; rfl, ?_, ?_, ?_, ?_, ?_⟩
  · rw [registerAll_cons_of_some rs hcall]
    exact h.all
  · rw [List.map_cons, List.nodup_cons]
    refine ⟨fun hmem => ?_, h.nodup⟩
    obtain ⟨r', hr', hkey⟩ := List.mem_map.mp hmem
    exact (hother r' hr').1 hkey
  · intro r' hr'
    rcases List.mem_cons.mp hr' with rfl | hr'
    · exact hfree
    · exact (hother r' hr').2
  · intro r' hr'
    rw [List.map_cons, List.mem_cons]
    rcases h.taken r' hr' with htaken | hrepeated
    · rw [hlookup] at htaken
      split_ifs at htaken with hsame
      · exact Or.inr (Or.inl hsame)
      · exact Or.inl htaken
    · exact Or.inr (Or.inr hrepeated)
  · intro k
    rw [registerAll_cons_of_some rs hcall, h.tables, hlookup, List.find?_cons]
    by_cases hsame : k = r.key
    · rw [if_pos hsame, hsame, hfree, Option.some_or, Option.none_or]
      simp
    · rw [if_neg hsame]
      have hne : decide (r.key = k) = false := by simpa using Ne.symm hsame
      rw [hne]

theorem exists_fills (m : EndpointManager) (rs : List Registration) :
    ∃ done rest, Fills m rs done rest := by
  induction rs generalizing m with
  | nil => exact ⟨[], [], fills_nil m⟩
  | cons r rs ih =>
    cases hcall : m.register r with
    | none => exact ⟨[], r :: rs, fills_of_none rs hcall⟩
    | some m' =>
      obtain ⟨done, rest, hfills⟩ := ih m'
      exact ⟨r :: done, rest, hfills.cons hcall⟩

theorem lookup_constructed {rs : List Registration} {m : EndpointManager}
    (h : (registerAll rs m).1 = true) :
    ∀ r ∈ rs, (registerAll rs m).2.lookup r.key = some r := by
  obtain ⟨done, rest, hsplit, hall, hnodup, hfree, -, htables⟩ := exists_fills m rs
  have hdone : rs = done := by rw [hsplit, hall.mp h, List.append_nil]
  intro r hr
  rw [htables, hfree r (hdone ▸ hr), Option.none_or]
  exact find_key_of_nodup hnodup (hdone ▸ hr)

theorem getEndpoint_constructed {rs : List Registration} {m m' : EndpointManager}
    (h : registerAll rs m = (true, m')) {e : Endpoint} (he : Registration.endpoint e ∈ rs) :
    m'.getEndpoint e.method e.route = some e := by
  have hlookup := lookup_constructed (congrArg Prod.fst h) _ he
  rw [h] at hlookup
  obtain ⟨e', hget, heq⟩ := Option.map_eq_some_iff.mp hlookup
  rw [hget, Registration.endpoint.inj heq]

/-- A service is constructed exactly when its places are distinct and free. Whether it is
or not, what was in the tables before is found there as before; when it is, each of its
places holds what it registers there, and constructing it once more throws at the first
call and changes nothing. -/
theorem constructed_iff (rs : List Registration) (m : EndpointManager) :
    ((registerAll rs m).1 = true ↔
        (rs.map Registration.key).Nodup ∧ ∀ r ∈ rs, m.lookup r.key = none) ∧
      (∀ k, (m.lookup k).isSome = true → (registerAll rs m).2.lookup k = m.lookup k) ∧
      ((registerAll rs m).1 = true →
        (∀ r ∈ rs, (registerAll rs m).2.lookup r.key = some r) ∧
          (rs ≠ [] → registerAll rs (registerAll rs m).2 = (false, (registerAll rs m).2))) := by
  obtain ⟨done, rest, hsplit, hall, hnodup, hfree, hhead, htables⟩ := exists_fills m rs
  refine ⟨⟨fun h => ?_, fun h => ?_⟩, fun k hk => ?_, fun h => ?_⟩
  · have hdone : rs = done := by rw [hsplit, hall.mp h, List.append_nil]
    exact ⟨hdone ▸ hnodup, hdone ▸ hfree⟩
  · apply hall.mpr
    cases rest with
    | nil => rfl
    | cons r rest =>
      exfalso
      rcases hhead r rfl with htaken | hrepeated
      · have hnone := h.2 r (hsplit ▸ List.mem_append_right _ List.mem_cons_self)
        simp [hnone] at htaken
      · have hapart := h.1
        rw [hsplit, List.map_append, List.nodup_append] at hapart
        exact hapart.2.2 _ hrepeated _ (List.mem_map_of_mem List.mem_cons_self) rfl
  · rw [htables]
    exact Option.or_of_isSome hk
  · have hplaces := lookup_constructed h
    refine ⟨hplaces, fun hne => ?_⟩
    cases rs with
    | nil => exact absurd rfl hne
    | cons r rs =>
      refine registerAll_cons_of_none rs ((register_eq_none_iff _ r).mpr ?_)
      rw [hplaces r List.mem_cons_self]
      rfl

end EndpointManager

end WarpApi

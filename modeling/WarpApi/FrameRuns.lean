import WarpApi.WebSocket

/-!
Runs of `ws::processFrames`. A run is seen as the list of its turns: the frames
that were dispatched, each with the calls that user code made at it. What the
decoder finds on the bytes received so far it also finds when more bytes have
arrived, so the turns do not depend on how the stream was cut.
-/
namespace WarpApi

structure Frame where
  opcode : UInt8
  fin : Bool
  payload : Bytes
  deriving DecidableEq

/-- What `sendFrame` writes for the frame. -/
def Frame.bytes (f : Frame) : Bytes := frameHeader f.opcode f.fin f.payload.length ++ f.payload

/-- A dispatched frame and the calls that the route's callback makes at it. -/
structure Turn where
  frame : Frame
  calls : List ContextCall
  deriving DecidableEq

theorem payloadLength_offset (data : Bytes) (len : UInt64) (offset : ℕ) (hdata : 2 ≤ data.length)
    (h : payloadLength data = some (len, offset)) :
    2 ≤ offset ∧ offset ≤ 10 ∧ offset ≤ data.length := by
  unfold payloadLength at h
  dsimp only at h
  split_ifs at h <;> simp only [Option.some.injEq, Prod.mk.injEq] at h <;> omega

theorem getD_append_of_lt (data extra : Bytes) (i : ℕ) (h : i < data.length) :
    (data ++ extra).getD i 0 = data.getD i 0 := by
  rw [List.getD_eq_getElem?_getD, List.getD_eq_getElem?_getD, List.getElem?_append_left h]

theorem payloadLength_append (data extra : Bytes) (r : UInt64 × ℕ) (hdata : 2 ≤ data.length)
    (h : payloadLength data = some r) : payloadLength (data ++ extra) = some r := by
  unfold payloadLength at h ⊢
  rw [getD_append_of_lt data extra 1 (by omega)]
  dsimp only at h ⊢
  by_cases h126 : data.getD 1 0 &&& 0x7F = 126
  · rw [if_pos h126] at h ⊢
    by_cases h4 : data.length < 4
    · simp [h4] at h
    · rw [if_neg h4] at h
      rw [if_neg (by rw [List.length_append]; omega), ← h,
        getD_append_of_lt data extra 2 (by omega), getD_append_of_lt data extra 3 (by omega)]
  · rw [if_neg h126] at h ⊢
    by_cases h127 : data.getD 1 0 &&& 0x7F = 127
    · rw [if_pos h127] at h ⊢
      by_cases h10 : data.length < 10
      · simp [h10] at h
      · have hdrop : 8 ≤ (data.drop 2).length := by
          rw [List.length_drop]
          omega
        rw [if_neg h10] at h
        rw [if_neg (by rw [List.length_append]; omega), ← h,
          List.drop_append_of_le_length hdata, List.take_append_of_le_length hdrop]
    · rw [if_neg h127] at h ⊢
      exact h

/-- Sums of an offset and an admitted length do not wrap around. -/
theorem frameEnd_toNat (settings : SettingsData) (hbody : settings.maxBodySize.toNat + 14 < 2 ^ 64)
    (len : UInt64) (offset : ℕ) (hoffset : offset ≤ 10) (hlen : ¬ len > settings.maxBodySize) :
    (UInt64.ofNat (offset + 4) + len).toNat = offset + 4 + len.toNat := by
  have hle : len.toNat ≤ settings.maxBodySize.toNat :=
    UInt64.le_iff_toNat_le.mp (UInt64.not_lt.mp hlen)
  rw [UInt64.toNat_add, UInt64.toNat_ofNat', Nat.mod_eq_of_lt (a := offset + 4) (by omega)]
  omega

/-- Under that bound no payload is read past the received bytes. -/
theorem nextFrame_eq (settings : SettingsData) (hbody : settings.maxBodySize.toNat + 14 < 2 ^ 64)
    (data : Bytes) :
    nextFrame settings data =
      if data.length < 2 then .needMore
      else if data.getD 1 0 &&& 0x80 = 0 then .reject
      else match payloadLength data with
        | none => .needMore
        | some (len, offset) =>
          if data.getD 0 0 &&& 0x0F &&& 0x08 ≠ 0 && wsControlMaxPayload < len.toNat then .reject
          else if len > settings.maxBodySize then .reject
          else if data.length < offset + 4 + len.toNat then .needMore
          else .frame (data.getD 0 0 &&& 0x0F) (data.getD 0 0 &&& 0x80 ≠ 0)
            (unmask ((data.drop offset).take 4) ((data.drop (offset + 4)).take len.toNat))
            (offset + 4 + len.toNat) := by
  unfold nextFrame
  by_cases hdata : data.length < 2
  · rw [if_pos hdata, if_pos hdata]
  · rw [if_neg hdata, if_neg hdata]
    dsimp only
    congr 1
    cases hlength : payloadLength data with
    | none => rfl
    | some r =>
      obtain ⟨len, offset⟩ := r
      dsimp only
      congr 1
      by_cases hmax : len > settings.maxBodySize
      · rw [if_pos hmax, if_pos hmax]
      · have hoffset := (payloadLength_offset data len offset (by omega) hlength).2.1
        rw [if_neg hmax, if_neg hmax, frameEnd_toNat settings hbody len offset hoffset hmax]
        split_ifs <;> first | rfl | omega

/-- A decision that does not wait for more bytes stands when more bytes arrive. -/
theorem nextFrame_append (settings : SettingsData)
    (hbody : settings.maxBodySize.toNat + 14 < 2 ^ 64) (data extra : Bytes)
    (h : nextFrame settings data ≠ .needMore) :
    nextFrame settings (data ++ extra) = nextFrame settings data := by
  rw [nextFrame_eq settings hbody] at h
  rw [nextFrame_eq settings hbody, nextFrame_eq settings hbody]
  by_cases hdata : data.length < 2
  · simp [hdata] at h
  · rw [if_neg hdata] at h ⊢
    rw [if_neg (by rw [List.length_append]; omega), getD_append_of_lt data extra 0 (by omega),
      getD_append_of_lt data extra 1 (by omega)]
    by_cases hmask : data.getD 1 0 &&& 0x80 = 0
    · rw [if_pos hmask, if_pos hmask]
    · rw [if_neg hmask] at h ⊢
      rw [if_neg hmask]
      cases hlength : payloadLength data with
      | none => simp [hlength] at h
      | some r =>
        rw [payloadLength_append data extra r (by omega) hlength]
        obtain ⟨len, offset⟩ := r
        simp only [hlength] at h
        dsimp only
        split_ifs at h with hcontrol hmax hend
        · rw [if_pos hcontrol, if_pos hcontrol]
        · rw [if_neg hcontrol, if_pos hmax, if_neg hcontrol, if_pos hmax]
        · simp at h
        · have hdrop : (data ++ extra).drop (offset + 4) = data.drop (offset + 4) ++ extra :=
            List.drop_append_of_le_length (by omega)
          have hpayload : len.toNat ≤ (data.drop (offset + 4)).length := by
            rw [List.length_drop]
            omega
          have hkey : 4 ≤ (data.drop offset).length := by
            rw [List.length_drop]
            omega
          rw [if_neg hcontrol, if_neg hmax, if_neg (by rw [List.length_append]; omega),
            if_neg hcontrol, if_neg hmax, if_neg hend, hdrop,
            List.take_append_of_le_length hpayload, List.drop_append_of_le_length (by omega),
            List.take_append_of_le_length hkey]

theorem nextFrame_ne_overrun (settings : SettingsData)
    (hbody : settings.maxBodySize.toNat + 14 < 2 ^ 64) (data : Bytes) :
    nextFrame settings data ≠ .overrun := by
  rw [nextFrame_eq settings hbody]
  split_ifs <;> try simp
  cases payloadLength data with
  | none => simp
  | some r =>
    dsimp only
    split_ifs <;> simp

theorem nextFrame_eq_frame {settings : SettingsData} {data : Bytes} {opcode : UInt8} {fin : Bool}
    {payload : Bytes} {consumed : ℕ}
    (h : nextFrame settings data = .frame opcode fin payload consumed) :
    ∃ len offset, 2 ≤ data.length ∧ payloadLength data = some (len, offset) ∧
      (opcode &&& 0x08 ≠ 0 → len.toNat ≤ wsControlMaxPayload) ∧
      offset + 4 + len.toNat ≤ data.length ∧
      payload = unmask ((data.drop offset).take 4) ((data.drop (offset + 4)).take len.toNat) ∧
      consumed = offset + 4 + len.toNat := by
  unfold nextFrame at h
  dsimp only at h
  split_ifs at h with hdata hmask
  cases hlength : payloadLength data with
  | none => simp [hlength] at h
  | some r =>
    obtain ⟨len, offset⟩ := r
    simp only [hlength] at h
    split_ifs at h with hbound hmax hkey hwrap hend
    simp only [FrameStep.frame.injEq] at h
    obtain ⟨rfl, -, rfl, rfl⟩ := h
    refine ⟨len, offset, by omega, rfl, fun hcontrol => ?_, by omega, rfl, rfl⟩
    rwa [decide_eq_true hcontrol, Bool.true_and, decide_eq_true_eq, Nat.not_lt] at hbound

/-- A frame takes at least its two bytes and the mask, and never more than there is. -/
theorem nextFrame_consumed {settings : SettingsData} {data : Bytes} {opcode : UInt8} {fin : Bool}
    {payload : Bytes} {consumed : ℕ}
    (h : nextFrame settings data = .frame opcode fin payload consumed) :
    6 ≤ consumed ∧ consumed ≤ data.length := by
  obtain ⟨len, offset, htwo, hlength, -, hend, -, rfl⟩ := nextFrame_eq_frame h
  have hoffset := (payloadLength_offset data len offset htwo hlength).1
  omega

namespace Session

def messageCalls (s : Session) (payload : Bytes) : List ContextCall :=
  match s.wsState.route.bind WebSocketRoute.onMessage with
  | some f => f s.moment payload
  | none => []

def closeCalls (s : Session) : List ContextCall :=
  match s.wsState.route.bind WebSocketRoute.onClose with
  | some f => f s.moment
  | none => []

/-- What user code does when the frame is dispatched. -/
def callbackCalls (s : Session) (f : Frame) : List ContextCall :=
  if !f.fin then []
  else if f.opcode = wsOpText ∨ f.opcode = wsOpBinary then s.messageCalls f.payload
  else if f.opcode = wsOpClose then (s.echoClose f.payload).closeCalls
  else []

/-- `processFramesLoop` with the list of its turns. -/
def turnsLoop (settings : SettingsData) : ℕ → Session → Option (List Turn × Bool × Session)
  | 0, _ => none
  | turns + 1, s =>
    match nextFrame settings s.readBuffer.unread with
    | .needMore => some ([], true, s)
    | .reject => some ([], false, s)
    | .overrun => none
    | .frame opcode fin payload consumed =>
      let s := { s with readBuffer := s.readBuffer.advance consumed }
      let turn : Turn := ⟨⟨opcode, fin, payload⟩, s.callbackCalls ⟨opcode, fin, payload⟩⟩
      match s.dispatchFrame opcode fin payload with
      | (true, s) => (turnsLoop settings turns s).map fun (rest, out) => (turn :: rest, out)
      | (false, s) => some ([turn], false, s)

def processTurns (settings : SettingsData) (s : Session) : Option (List Turn × Bool × Session) :=
  turnsLoop settings (s.readBuffer.size + 1) s

/-- Receive chunk after chunk and process the frames behind each one, until the
verdict is `false`. -/
def feed (settings : SettingsData) : List Bytes → Session → Option (List Turn × Bool × Session)
  | [], s => some ([], true, s)
  | chunk :: chunks, s =>
    match processTurns settings (s.receive chunk) with
    | none => none
    | some (turns, false, t) => some (turns, false, t)
    | some (turns, true, t) =>
      (feed settings chunks t).map fun (rest, out) => (turns ++ rest, out)

/-- A chunk is processed first, and the others are when the verdict is `true`. -/
theorem feed_cons_eq_some {settings : SettingsData} {chunk : Bytes} {chunks : List Bytes}
    {s t : Session} {turns : List Turn} {alive : Bool}
    (h : feed settings (chunk :: chunks) s = some (turns, alive, t)) :
    ∃ first go u, processTurns settings (s.receive chunk) = some (first, go, u) ∧
      (go = false ∧ turns = first ∧ t = u ∨
        go = true ∧ ∃ rest, feed settings chunks u = some (rest, alive, t) ∧
          turns = first ++ rest) := by
  rw [feed] at h
  cases hprocess : processTurns settings (s.receive chunk) with
  | none => simp [hprocess] at h
  | some out =>
    obtain ⟨first, go, u⟩ := out
    refine ⟨first, go, u, rfl, ?_⟩
    simp only [hprocess] at h
    cases go with
    | false =>
      simp only [Option.some.injEq, Prod.mk.injEq] at h
      exact Or.inl ⟨rfl, h.1.symm, h.2.2.symm⟩
    | true =>
      simp only [Option.map_eq_some_iff, Prod.mk.injEq] at h
      obtain ⟨⟨rest, out⟩, hrest, rfl, rfl⟩ := h
      exact Or.inr ⟨rfl, rest, hrest, rfl⟩

theorem processFramesLoop_eq (settings : SettingsData) (turns : ℕ) (s : Session) :
    processFramesLoop settings turns s = (turnsLoop settings turns s).map Prod.snd := by
  induction turns generalizing s with
  | zero => rfl
  | succ turns ih =>
    rw [processFramesLoop, turnsLoop]
    cases nextFrame settings s.readBuffer.unread with
    | needMore => rfl
    | reject => rfl
    | overrun => rfl
    | frame opcode fin payload consumed =>
      dsimp only
      cases hdispatch : { s with
          readBuffer := s.readBuffer.advance consumed }.dispatchFrame opcode fin payload with
      | mk alive t =>
        cases alive with
        | false => simp only [Option.map_some]
        | true =>
          simp only [ih t, Option.map_map]
          rfl

/-- The turns are those of the program's own run. -/
theorem processFrames_eq (settings : SettingsData) (s : Session) :
    processFrames settings s = (processTurns settings s).map Prod.snd :=
  processFramesLoop_eq settings _ s

end Session

namespace Session

theorem contextCalls_setReadBuffer (s : Session) (rb : RingBuffer) (calls : List ContextCall) :
    { s with readBuffer := rb }.contextCalls calls =
      { s.contextCalls calls with readBuffer := rb } := by
  induction calls generalizing s with
  | nil => rfl
  | cons c calls ih =>
    have hcall : { s with readBuffer := rb }.contextCall c =
        { s.contextCall c with readBuffer := rb } := by
      cases c <;> rfl
    show ({ s with readBuffer := rb }.contextCall c).contextCalls calls = _
    rw [hcall]
    exact ih (s.contextCall c)

theorem runOnMessage_setReadBuffer (s : Session) (rb : RingBuffer) (payload : Bytes) :
    { s with readBuffer := rb }.runOnMessage payload =
      { s.runOnMessage payload with readBuffer := rb } := by
  unfold runOnMessage
  cases s.wsState.route.bind WebSocketRoute.onMessage with
  | none => rfl
  | some f => exact contextCalls_setReadBuffer (s.note (.wsMessage payload)) rb _

theorem runOnClose_setReadBuffer (s : Session) (rb : RingBuffer) :
    { s with readBuffer := rb }.runOnClose = { s.runOnClose with readBuffer := rb } := by
  unfold runOnClose
  cases s.wsState.route.bind WebSocketRoute.onClose with
  | none => rfl
  | some f => exact contextCalls_setReadBuffer (s.note .wsClose) rb _

theorem echoClose_setReadBuffer (s : Session) (rb : RingBuffer) (payload : Bytes) :
    { s with readBuffer := rb }.echoClose payload =
      { s.echoClose payload with readBuffer := rb } := by
  unfold echoClose
  split <;> rfl

theorem dispatchFrame_setReadBuffer (s : Session) (rb : RingBuffer) (opcode : UInt8) (fin : Bool)
    (payload : Bytes) :
    { s with readBuffer := rb }.dispatchFrame opcode fin payload =
      ((s.dispatchFrame opcode fin payload).1,
        { (s.dispatchFrame opcode fin payload).2 with readBuffer := rb }) := by
  unfold dispatchFrame
  rw [runOnMessage_setReadBuffer, echoClose_setReadBuffer, runOnClose_setReadBuffer]
  split_ifs <;> rfl

theorem callbackCalls_setReadBuffer (s : Session) (rb : RingBuffer) (f : Frame) :
    { s with readBuffer := rb }.callbackCalls f = s.callbackCalls f := by
  unfold callbackCalls
  rw [echoClose_setReadBuffer]
  rfl

theorem readBuffer_dispatchFrame (s : Session) (opcode : UInt8) (fin : Bool) (payload : Bytes) :
    (s.dispatchFrame opcode fin payload).2.readBuffer = s.readBuffer :=
  congrArg (fun out => out.2.readBuffer)
    (dispatchFrame_setReadBuffer s s.readBuffer opcode fin payload)

/-- Receiving before the dispatch or after it makes no difference. -/
theorem dispatchFrame_receive (s t : Session) (extra : Bytes) (opcode : UInt8) (fin : Bool)
    (payload : Bytes) (alive : Bool) (h : s.dispatchFrame opcode fin payload = (alive, t)) :
    (s.receive extra).dispatchFrame opcode fin payload = (alive, t.receive extra) := by
  have hread : t.readBuffer = s.readBuffer := by
    have hkept := readBuffer_dispatchFrame s opcode fin payload
    rwa [h] at hkept
  unfold receive
  rw [dispatchFrame_setReadBuffer, h, hread]

end Session

/-- A run of the decoding loop: its turns, its verdict and the state it leaves. -/
inductive FrameRun (settings : SettingsData) : Session → List Turn → Bool → Session → Prop
  | wait {s : Session} (h : nextFrame settings s.readBuffer.unread = .needMore) :
      FrameRun settings s [] true s
  | reject {s : Session} (h : nextFrame settings s.readBuffer.unread = .reject) :
      FrameRun settings s [] false s
  | next {s s' t u : Session} {f : Frame} {n : ℕ} {turns : List Turn} {alive : Bool}
      (h : nextFrame settings s.readBuffer.unread = .frame f.opcode f.fin f.payload n)
      (hs : s' = { s with readBuffer := s.readBuffer.advance n })
      (hd : s'.dispatchFrame f.opcode f.fin f.payload = (true, t))
      (htail : FrameRun settings t turns alive u) :
      FrameRun settings s (⟨f, s'.callbackCalls f⟩ :: turns) alive u
  | last {s s' t : Session} {f : Frame} {n : ℕ}
      (h : nextFrame settings s.readBuffer.unread = .frame f.opcode f.fin f.payload n)
      (hs : s' = { s with readBuffer := s.readBuffer.advance n })
      (hd : s'.dispatchFrame f.opcode f.fin f.payload = (false, t)) :
      FrameRun settings s [⟨f, s'.callbackCalls f⟩] false t

namespace FrameRun

open Session

variable {settings : SettingsData}

theorem turn_readBuffer {s s' t : Session} {f : Frame} {n : ℕ} {alive : Bool}
    (hs : s' = { s with readBuffer := s.readBuffer.advance n })
    (hd : s'.dispatchFrame f.opcode f.fin f.payload = (alive, t)) :
    t.readBuffer = s.readBuffer.advance n := by
  have hread := readBuffer_dispatchFrame s' f.opcode f.fin f.payload
  rw [hd, hs] at hread
  exact hread

theorem of_turnsLoop (fuel : ℕ) (s t : Session) (turns : List Turn) (alive : Bool)
    (h : turnsLoop settings fuel s = some (turns, alive, t)) :
    FrameRun settings s turns alive t := by
  induction fuel generalizing s turns with
  | zero => simp [turnsLoop] at h
  | succ fuel ih =>
    rw [turnsLoop] at h
    cases hnext : nextFrame settings s.readBuffer.unread with
    | needMore =>
      simp only [hnext, Option.some.injEq, Prod.mk.injEq] at h
      obtain ⟨rfl, rfl, rfl⟩ := h
      exact wait hnext
    | reject =>
      simp only [hnext, Option.some.injEq, Prod.mk.injEq] at h
      obtain ⟨rfl, rfl, rfl⟩ := h
      exact reject hnext
    | overrun => simp [hnext] at h
    | frame opcode fin payload consumed =>
      simp only [hnext] at h
      cases hdispatch : { s with
          readBuffer := s.readBuffer.advance consumed }.dispatchFrame opcode fin payload with
      | mk go u =>
        simp only [hdispatch] at h
        cases go with
        | false =>
          simp only [Option.some.injEq, Prod.mk.injEq] at h
          obtain ⟨rfl, rfl, rfl⟩ := h
          exact last (f := ⟨opcode, fin, payload⟩) hnext rfl hdispatch
        | true =>
          simp only [Option.map_eq_some_iff, Prod.mk.injEq] at h
          obtain ⟨⟨rest, out⟩, hrest, rfl, rfl⟩ := h
          exact next (f := ⟨opcode, fin, payload⟩) hnext rfl hdispatch (ih u rest hrest)

theorem of_processTurns {s t : Session} {turns : List Turn} {alive : Bool}
    (h : processTurns settings s = some (turns, alive, t)) : FrameRun settings s turns alive t :=
  of_turnsLoop _ s t turns alive h

theorem turnsLoop_eq {s t : Session} {turns : List Turn} {alive : Bool}
    (h : FrameRun settings s turns alive t) (fuel : ℕ) (hfuel : s.readBuffer.size < fuel) :
    turnsLoop settings fuel s = some (turns, alive, t) := by
  induction h generalizing fuel with
  | wait hnext =>
    obtain ⟨fuel, rfl⟩ : ∃ k, fuel = k + 1 := ⟨fuel - 1, by omega⟩
    rw [turnsLoop, hnext]
  | reject hnext =>
    obtain ⟨fuel, rfl⟩ : ∃ k, fuel = k + 1 := ⟨fuel - 1, by omega⟩
    rw [turnsLoop, hnext]
  | @next s s' t u f n turns alive hnext hs hd htail ih =>
    obtain ⟨fuel, rfl⟩ : ∃ k, fuel = k + 1 := ⟨fuel - 1, by omega⟩
    have hsize : t.readBuffer.size < fuel := by
      have hconsumed := nextFrame_consumed hnext
      rw [turn_readBuffer hs hd, BoundedQueue.size_advance]
      rw [BoundedQueue.length_unread] at hconsumed
      omega
    rw [turnsLoop, hnext]
    dsimp only
    rw [← hs, hd]
    simp only [ih fuel hsize, Option.map_some]
  | @last s s' t f n hnext hs hd =>
    obtain ⟨fuel, rfl⟩ : ∃ k, fuel = k + 1 := ⟨fuel - 1, by omega⟩
    rw [turnsLoop, hnext]
    dsimp only
    rw [← hs, hd]

theorem processTurns_eq {s t : Session} {turns : List Turn} {alive : Bool}
    (h : FrameRun settings s turns alive t) :
    processTurns settings s = some (turns, alive, t) :=
  h.turnsLoop_eq _ (Nat.lt_succ_self _)

/-- Each frame takes bytes away, so the loop comes to an end. -/
theorem exists_run (hbody : settings.maxBodySize.toNat + 14 < 2 ^ 64) (s : Session) :
    ∃ turns alive t, FrameRun settings s turns alive t := by
  induction hsize : s.readBuffer.size using Nat.strong_induction_on generalizing s with
  | _ size ih =>
    cases hnext : nextFrame settings s.readBuffer.unread with
    | needMore => exact ⟨[], true, s, wait hnext⟩
    | reject => exact ⟨[], false, s, reject hnext⟩
    | overrun => exact absurd hnext (nextFrame_ne_overrun settings hbody _)
    | frame opcode fin payload consumed =>
      cases hdispatch : { s with
          readBuffer := s.readBuffer.advance consumed }.dispatchFrame opcode fin payload with
      | mk go t =>
        cases go with
        | false =>
          exact ⟨_, _, _, last (f := ⟨opcode, fin, payload⟩) hnext rfl hdispatch⟩
        | true =>
          have hless : t.readBuffer.size < size := by
            have hconsumed := nextFrame_consumed hnext
            have hread := turn_readBuffer (f := ⟨opcode, fin, payload⟩) rfl hdispatch
            rw [hread, BoundedQueue.size_advance]
            rw [BoundedQueue.length_unread] at hconsumed
            omega
          obtain ⟨turns, alive, u, hrest⟩ := ih _ hless t rfl
          exact ⟨_, _, _, next (f := ⟨opcode, fin, payload⟩) hnext rfl hdispatch hrest⟩

theorem free_le {s t : Session} {turns : List Turn} {alive : Bool}
    (h : FrameRun settings s turns alive t) : s.readBuffer.free ≤ t.readBuffer.free := by
  induction h with
  | wait _ => exact Nat.le_refl _
  | reject _ => exact Nat.le_refl _
  | @next s s' t u f n turns alive hnext hs hd htail ih =>
    rw [turn_readBuffer hs hd] at ih
    exact (s.readBuffer.free_le_free_advance n).trans ih
  | @last s s' t f n hnext hs hd =>
    rw [turn_readBuffer hs hd]
    exact s.readBuffer.free_le_free_advance n

/-- One turn is the same turn when more bytes have arrived already. -/
theorem turn_receive (hbody : settings.maxBodySize.toNat + 14 < 2 ^ 64) {s s' t : Session}
    {f : Frame} {n : ℕ} {alive : Bool} {extra : Bytes} (hfit : extra.length ≤ s.readBuffer.free)
    (hnext : nextFrame settings s.readBuffer.unread = .frame f.opcode f.fin f.payload n)
    (hs : s' = { s with readBuffer := s.readBuffer.advance n })
    (hd : s'.dispatchFrame f.opcode f.fin f.payload = (alive, t)) :
    nextFrame settings (s.receive extra).readBuffer.unread = .frame f.opcode f.fin f.payload n ∧
      s'.receive extra =
        { s.receive extra with readBuffer := (s.receive extra).readBuffer.advance n } ∧
      (s'.receive extra).dispatchFrame f.opcode f.fin f.payload = (alive, t.receive extra) ∧
      (s'.receive extra).callbackCalls f = s'.callbackCalls f := by
  have hconsumed := (nextFrame_consumed hnext).2
  rw [BoundedQueue.length_unread] at hconsumed
  refine ⟨?_, ?_, dispatchFrame_receive s' t extra _ _ _ alive hd, ?_⟩
  · show nextFrame settings (s.readBuffer.push extra).unread = _
    rw [s.readBuffer.unread_push_of_le extra hfit, nextFrame_append settings hbody, hnext]
    rw [hnext]
    simp
  · rw [hs]
    unfold receive
    rw [s.readBuffer.push_advance extra n hfit hconsumed]
  · exact callbackCalls_setReadBuffer s' _ f

/-- A run that ended with `false` ends so with more bytes behind it; one that waits
for more is continued by the run on what it left over. -/
theorem receive (hbody : settings.maxBodySize.toNat + 14 < 2 ^ 64) {s t : Session}
    {turns : List Turn} {alive : Bool} (h : FrameRun settings s turns alive t) (extra : Bytes)
    (hfit : extra.length ≤ s.readBuffer.free) :
    (alive = false → FrameRun settings (s.receive extra) turns false (t.receive extra)) ∧
      (alive = true → ∀ more alive' u, FrameRun settings (t.receive extra) more alive' u →
        FrameRun settings (s.receive extra) (turns ++ more) alive' u) := by
  induction h with
  | wait _ => exact ⟨fun h => absurd h (by simp), fun _ more alive' u hmore => hmore⟩
  | @reject s hnext =>
    refine ⟨fun _ => reject ?_, fun h => absurd h (by simp)⟩
    show nextFrame settings (s.readBuffer.push extra).unread = _
    rw [s.readBuffer.unread_push_of_le extra hfit, nextFrame_append settings hbody, hnext]
    rw [hnext]
    simp
  | @next s s' t u f n turns alive hnext hs hd htail ih =>
    obtain ⟨hnext', hs', hd', hcalls⟩ := turn_receive hbody hfit hnext hs hd
    have hfit' : extra.length ≤ t.readBuffer.free := by
      rw [turn_readBuffer hs hd]
      exact hfit.trans (s.readBuffer.free_le_free_advance n)
    obtain ⟨hfalse, htrue⟩ := ih hfit'
    rw [← hcalls]
    exact ⟨fun halive => next hnext' hs' hd' (hfalse halive),
      fun halive more alive' v hmore => next hnext' hs' hd' (htrue halive more alive' v hmore)⟩
  | @last s s' t f n hnext hs hd =>
    obtain ⟨hnext', hs', hd', hcalls⟩ := turn_receive hbody hfit hnext hs hd
    rw [← hcalls]
    exact ⟨fun _ => last hnext' hs' hd', fun h => absurd h (by simp)⟩

end FrameRun

theorem receive_receive (s : Session) (c d : Bytes) :
    (s.receive c).receive d = s.receive (c ++ d) := by
  unfold Session.receive
  rw [BoundedQueue.push_push]

theorem feed_run (settings : SettingsData) (hbody : settings.maxBodySize.toNat + 14 < 2 ^ 64)
    (chunks : List Bytes) (chunk : Bytes) (s : Session)
    (hfit : (chunk ++ chunks.flatten).length ≤ s.readBuffer.free) :
    ∃ turns alive t u, Session.feed settings (chunk :: chunks) s = some (turns, alive, t) ∧
      FrameRun settings (s.receive (chunk ++ chunks.flatten)) turns alive u ∧
      u = { t with readBuffer := u.readBuffer } ∧ (alive = true → u = t) := by
  induction chunks generalizing chunk s with
  | nil =>
    obtain ⟨turns, alive, t, hrun⟩ := FrameRun.exists_run hbody (s.receive chunk)
    refine ⟨turns, alive, t, t, ?_, by simpa using hrun, rfl, fun _ => rfl⟩
    rw [Session.feed, hrun.processTurns_eq]
    cases alive with
    | false => rfl
    | true => simp only [Session.feed, Option.map_some, List.append_nil]
  | cons c chunks ih =>
    obtain ⟨turns, alive, t, hrun⟩ := FrameRun.exists_run hbody (s.receive chunk)
    have hlength : chunk.length + (c ++ chunks.flatten).length ≤ s.readBuffer.free := by
      simpa only [List.flatten_cons, List.length_append] using hfit
    have hrest : (c ++ chunks.flatten).length ≤ (s.receive chunk).readBuffer.free := by
      show _ ≤ (s.readBuffer.push chunk).free
      rw [s.readBuffer.free_push_of_le chunk (by omega)]
      omega
    have hwhole := receive_receive s chunk (c ++ chunks.flatten)
    obtain ⟨hfalse, htrue⟩ := hrun.receive hbody (c ++ chunks.flatten) hrest
    rw [List.flatten_cons, Session.feed, hrun.processTurns_eq, ← hwhole]
    cases alive with
    | false => exact ⟨turns, false, t, _, rfl, hfalse rfl, rfl, fun h => absurd h (by simp)⟩
    | true =>
      obtain ⟨more, alive', t', u, hfeed, hmore, hstate, hsame⟩ :=
        ih c t (hrest.trans hrun.free_le)
      refine ⟨turns ++ more, alive', t', u, ?_, htrue rfl more alive' u hmore, hstate, hsame⟩
      simp only [hfeed, Option.map_some]

/-- However a stream is cut into chunks, the frame loop takes the same turns, comes to
the same verdict and writes the same bytes as on the whole stream. The states differ
only in what a loop that has given up leaves unread. -/
theorem feed_eq_whole (settings : SettingsData) (hbody : settings.maxBodySize.toNat ≤ 2 ^ 63)
    (s : Session) (chunk : Bytes) (chunks : List Bytes)
    (hfit : (chunk ++ chunks.flatten).length ≤ s.readBuffer.free) :
    ∃ turns alive t u, Session.feed settings (chunk :: chunks) s = some (turns, alive, t) ∧
      Session.processTurns settings (s.receive (chunk ++ chunks.flatten)) =
        some (turns, alive, u) ∧
      Session.processFrames settings (s.receive (chunk ++ chunks.flatten)) = some (alive, u) ∧
      t.writeBuffer = u.writeBuffer ∧ u = { t with readBuffer := u.readBuffer } ∧
      (alive = true → u = t) := by
  obtain ⟨turns, alive, t, u, hfeed, hrun, hstate, hsame⟩ :=
    feed_run settings (by omega) chunks chunk s hfit
  have hwhole := hrun.processTurns_eq
  refine ⟨turns, alive, t, u, hfeed, hwhole, ?_, ?_, hstate, hsame⟩
  · rw [Session.processFrames_eq, hwhole, Option.map_some]
  · rw [hstate]

def upgradedSession (route : WebSocketRoute) : Session :=
  { Session.init configJson 0 5 with
    keepAlive := true
    mode := .webSocket
    wsState := ⟨some route, false⟩ }

theorem feed_ping_eq_whole :
    ∃ turns alive t u,
      Session.feed configJson [[0x89, 0x80], [1, 2, 3, 4]] (upgradedSession ⟨none, none, none⟩) =
        some (turns, alive, t) ∧
      Session.processTurns configJson
          ((upgradedSession ⟨none, none, none⟩).receive [0x89, 0x80, 1, 2, 3, 4]) =
        some (turns, alive, u) ∧
      t.writeBuffer = u.writeBuffer := by
  obtain ⟨turns, alive, t, u, hfeed, hwhole, -, hout, -, -⟩ :=
    feed_eq_whole configJson (by decide) (upgradedSession ⟨none, none, none⟩) [0x89, 0x80]
      [[1, 2, 3, 4]] (by decide)
  exact ⟨turns, alive, t, u, hfeed, hwhole, hout⟩

end WarpApi

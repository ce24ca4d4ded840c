import WarpApi.EpollCalls
import WarpApi.FrameRuns
import WarpApi.UringRuns

/-!
The callbacks of a WebSocket connection, in the order in which they are invoked. A
verdict of `processFrames` that keeps the connection comes after messages only; the
other one may come after a close, and then both backends never call it again: one has
closed the socket, the other has left the status in which completions are handled.
-/
namespace WarpApi

def Obs.isCallback : Obs → Bool
  | .wsOpen => true
  | .wsMessage _ => true
  | .wsClose => true
  | _ => false

/-- The callbacks in a piece of the log, oldest first. -/
def callbacks (log : List Obs) : List Obs := log.reverse.filter Obs.isCallback

def OnlyMessages (cs : List Obs) : Prop := ∀ o ∈ cs, ∃ payload, o = .wsMessage payload

/-- The word `onMessage* onClose?`. -/
def LifeWord (cs : List Obs) : Prop :=
  ∃ messages, OnlyMessages messages ∧ (cs = messages ∨ cs = messages ++ [.wsClose])

/-- Between s and t these callbacks were invoked, and protocol and route were kept. -/
structure Calls (s t : Session) (cs : List Obs) : Prop where
  log : ∃ new, t.log = new ++ s.log ∧ callbacks new = cs
  mode_eq : t.mode = s.mode
  route_eq : t.wsState.route = s.wsState.route

theorem OnlyMessages.append {a b : List Obs} (ha : OnlyMessages a) (hb : OnlyMessages b) :
    OnlyMessages (a ++ b) :=
  fun o ho => (List.mem_append.mp ho).elim (ha o) (hb o)

theorem OnlyMessages.lifeWord {cs : List Obs} (h : OnlyMessages cs) : LifeWord cs :=
  ⟨cs, h, Or.inl rfl⟩

theorem LifeWord.append {a b : List Obs} (ha : OnlyMessages a) (hb : LifeWord b) :
    LifeWord (a ++ b) := by
  obtain ⟨messages, hmessages, rfl | rfl⟩ := hb
  · exact (ha.append hmessages).lifeWord
  · exact ⟨a ++ messages, ha.append hmessages, Or.inr (List.append_assoc _ _ _).symm⟩

theorem onlyMessages_nil : OnlyMessages [] := fun _ ho => absurd ho List.not_mem_nil

namespace Calls

theorem of_eq {s t : Session} (hlog : t.log = s.log) (hmode : t.mode = s.mode)
    (hroute : t.wsState.route = s.wsState.route) : Calls s t [] :=
  ⟨⟨[], hlog, rfl⟩, hmode, hroute⟩

theorem trans {s t u : Session} {a b : List Obs} (h : Calls s t a) (h' : Calls t u b) :
    Calls s u (a ++ b) := by
  obtain ⟨new, hlog, ha⟩ := h.log
  obtain ⟨new', hlog', hb⟩ := h'.log
  refine ⟨⟨new' ++ new, ?_, ?_⟩, h'.mode_eq.trans h.mode_eq, h'.route_eq.trans h.route_eq⟩
  · rw [hlog', hlog, List.append_assoc]
  · rw [callbacks, List.reverse_append, List.filter_append]
    exact congrArg₂ (· ++ ·) ha hb

theorem quiet {s t u : Session} {cs : List Obs} (h : Calls s t cs) (h' : Calls t u []) :
    Calls s u cs := by
  have hall := h.trans h'
  rwa [List.append_nil] at hall

theorem contextCalls (s : Session) (calls : List ContextCall) :
    Calls s (s.contextCalls calls) [] := by
  induction calls generalizing s with
  | nil => exact of_eq rfl rfl rfl
  | cons c calls ih =>
    have hcall : Calls s (s.contextCall c) [] := by
      cases c <;> exact ⟨⟨[_], rfl, rfl⟩, rfl, rfl⟩
    exact hcall.quiet (ih (s.contextCall c))

theorem runOnMessage (s : Session) (payload : Bytes) :
    ∃ cs, OnlyMessages cs ∧ Calls s (s.runOnMessage payload) cs := by
  unfold Session.runOnMessage
  split
  · rename_i f _
    have hnote : Calls s (s.note (.wsMessage payload)) [.wsMessage payload] :=
      ⟨⟨[_], rfl, rfl⟩, rfl, rfl⟩
    refine ⟨_, ?_, hnote.quiet (contextCalls _ _)⟩
    intro o ho
    exact ⟨payload, List.mem_singleton.mp ho⟩
  · exact ⟨[], onlyMessages_nil, of_eq rfl rfl rfl⟩

theorem runOnClose (s : Session) :
    ∃ cs, (cs = [] ∨ cs = [.wsClose]) ∧ Calls s s.runOnClose cs := by
  unfold Session.runOnClose
  split
  · have hnote : Calls s (s.note .wsClose) [.wsClose] := ⟨⟨[_], rfl, rfl⟩, rfl, rfl⟩
    exact ⟨_, Or.inr rfl, hnote.quiet (contextCalls _ _)⟩
  · exact ⟨[], Or.inl rfl, of_eq rfl rfl rfl⟩

theorem echoClose (s : Session) (payload : Bytes) : Calls s (s.echoClose payload) [] := by
  unfold Session.echoClose
  split
  · exact of_eq rfl rfl rfl
  · exact ⟨⟨[_], rfl, rfl⟩, rfl, rfl⟩

theorem sendProtocolClose (s : Session) : Calls s s.sendProtocolClose.2 [] :=
  ⟨⟨[_], rfl, rfl⟩, rfl, rfl⟩

/-- A frame that keeps the connection calls `onMessage` at most, one that ends it
`onClose` at most. -/
theorem dispatchFrame (s : Session) (opcode : UInt8) (fin : Bool) (payload : Bytes) :
    ∃ cs, Calls s (s.dispatchFrame opcode fin payload).2 cs ∧ LifeWord cs ∧
      ((s.dispatchFrame opcode fin payload).1 = true → OnlyMessages cs) := by
  unfold Session.dispatchFrame
  split_ifs
  · exact ⟨[], sendProtocolClose s, onlyMessages_nil.lifeWord, fun _ => onlyMessages_nil⟩
  · obtain ⟨cs, honly, hcalls⟩ := runOnMessage s payload
    exact ⟨cs, hcalls, honly.lifeWord, fun _ => honly⟩
  · exact ⟨[], ⟨⟨[_], rfl, rfl⟩, rfl, rfl⟩, onlyMessages_nil.lifeWord, fun _ => onlyMessages_nil⟩
  · exact ⟨[], of_eq rfl rfl rfl, onlyMessages_nil.lifeWord, fun _ => onlyMessages_nil⟩
  · obtain ⟨cs, hword, hcalls⟩ := runOnClose (s.echoClose payload)
    refine ⟨cs, (echoClose s payload).trans hcalls, ⟨[], onlyMessages_nil, hword⟩, ?_⟩
    exact fun halive => absurd halive (by simp)
  · exact ⟨[], sendProtocolClose s, onlyMessages_nil.lifeWord, fun _ => onlyMessages_nil⟩

theorem processFramesLoop (settings : SettingsData) (turns : ℕ) (s t : Session) (alive : Bool)
    (h : Session.processFramesLoop settings turns s = some (alive, t)) :
    ∃ cs, Calls s t cs ∧ LifeWord cs ∧ (alive = true → OnlyMessages cs) := by
  induction turns generalizing s with
  | zero => simp [Session.processFramesLoop] at h
  | succ turns ih =>
    rw [Session.processFramesLoop] at h
    split at h
    · simp only [Option.some.injEq, Prod.mk.injEq] at h
      exact ⟨[], h.2 ▸ of_eq rfl rfl rfl, onlyMessages_nil.lifeWord, fun _ => onlyMessages_nil⟩
    · simp only [Option.some.injEq, Prod.mk.injEq] at h
      exact ⟨[], h.2 ▸ of_eq rfl rfl rfl, onlyMessages_nil.lifeWord, fun _ => onlyMessages_nil⟩
    · simp at h
    · rename_i opcode fin payload consumed _
      obtain ⟨cs, hcalls, hword, honly⟩ := dispatchFrame
        { s with readBuffer := s.readBuffer.advance consumed } opcode fin payload
      have hadvance : Calls s { s with readBuffer := s.readBuffer.advance consumed } [] :=
        of_eq rfl rfl rfl
      have hturn := hadvance.trans hcalls
      rw [List.nil_append] at hturn
      split at h
      · rename_i s' heq
        rw [heq] at hturn honly
        obtain ⟨rest, hrest, hword', honly'⟩ := ih s' h
        exact ⟨cs ++ rest, hturn.trans hrest, LifeWord.append (honly rfl) hword',
          fun halive => (honly rfl).append (honly' halive)⟩
      · rename_i s' heq
        rw [heq] at hturn
        simp only [Option.some.injEq, Prod.mk.injEq] at h
        obtain ⟨rfl, rfl⟩ := h
        exact ⟨cs, hturn, hword, fun halive => absurd halive (by simp)⟩

theorem processInput {server : Server} {s t : Session} {alive : Bool} (hmode : s.mode = .webSocket)
    (h : s.processInput server = some (alive, t)) :
    ∃ cs, Calls s t cs ∧ LifeWord cs ∧ (alive = true → OnlyMessages cs) := by
  unfold Session.processInput at h
  rw [hmode] at h
  exact processFramesLoop server.settings _ s t alive h

end Calls

namespace Conversation

/-- The handlers have returned and the socket is closed: nothing is received any more. -/
def Over (c : Conversation) : Prop := c.phase = .idle ∧ c.session.isOpen = false

theorem calls_readNext (c : Conversation) (s : Session) : Calls s (c.readNext s).session [] := by
  unfold readNext returnRead
  split_ifs <;> exact Calls.of_eq rfl rfl rfl

theorem calls_flushNext (c : Conversation) (s : Session) : Calls s (c.flushNext s).session [] := by
  unfold flushNext
  split
  · exact calls_readNext c s
  · exact Calls.of_eq rfl rfl rfl

theorem calls_returnWrite (c : Conversation) (s : Session) :
    Calls s (c.returnWrite s).session [] := by
  unfold returnWrite returnRead
  split_ifs
  · exact calls_readNext c s
  · exact Calls.of_eq rfl rfl rfl
  · exact Calls.of_eq rfl rfl rfl

theorem calls_onWriteComplete (s : Session) : Calls s s.onWriteComplete [] := by
  unfold Session.onWriteComplete
  dsimp only
  split_ifs <;> exact ⟨⟨[_], rfl, rfl⟩, rfl, rfl⟩

theorem calls_send {c c' : Conversation} {r : SendResult} (h : c.send r = some c') :
    Calls c.session c'.session [] := by
  cases r with
  | sent n =>
    simp only [send] at h
    split_ifs at h with hn hrest
    · have haccept : Calls c.session (c.accept n).session [] := Calls.of_eq rfl rfl rfl
      have hdone := haccept.quiet (calls_onWriteComplete _)
      exact Option.some.inj h ▸ hdone.quiet (calls_returnWrite _ _)
    · exact Option.some.inj h ▸ Calls.of_eq rfl rfl rfl
  | wouldBlock => exact Option.some.inj h ▸ calls_returnWrite _ _
  | error =>
    have hclose : Calls c.session c.session.close [] := Calls.of_eq rfl rfl rfl
    exact Option.some.inj h ▸ hclose.quiet (calls_returnWrite _ _)

theorem calls_of_over {server : Server} {c c' : Conversation} {call : SysCall} (hover : c.Over)
    (h : step server c call = some c') : Calls c.session c'.session [] ∧ c'.Over := by
  obtain ⟨hphase, hclosed⟩ := hover
  cases call with
  | readable =>
    have hnext : c.readNext c.session = c' := by simpa [step, hphase] using h
    subst hnext
    refine ⟨calls_readNext c c.session, ?_⟩
    unfold readNext returnRead
    rw [hclosed]
    split_ifs <;> first | exact ⟨rfl, rfl⟩ | simp_all
  | writable =>
    simp only [step, hphase, if_true, hclosed, Bool.not_false] at h
    split_ifs at h
    · exact Option.some.inj h ▸ ⟨Calls.of_eq rfl rfl rfl, hphase, hclosed⟩
    · exact Option.some.inj h ▸ ⟨Calls.of_eq rfl rfl rfl, rfl, rfl⟩
  | recv r => simp [step, hphase] at h
  | send r => simp [step, hphase] at h

/-- A step from WebSocket mode: messages, or the verdict that ends the connection. -/
theorem calls_of_step {server : Server} {c c' : Conversation} {call : SysCall}
    (hmode : c.session.mode = .webSocket) (h : step server c call = some c') :
    ∃ cs, Calls c.session c'.session cs ∧ LifeWord cs ∧ (OnlyMessages cs ∨ c'.Over) := by
  have hquiet : Calls c.session c'.session [] →
      ∃ cs, Calls c.session c'.session cs ∧ LifeWord cs ∧ (OnlyMessages cs ∨ c'.Over) :=
    fun hcalls => ⟨[], hcalls, onlyMessages_nil.lifeWord, Or.inl onlyMessages_nil⟩
  cases call with
  | readable =>
    simp only [step] at h
    split_ifs at h
    exact hquiet (Option.some.inj h ▸ calls_readNext c c.session)
  | writable =>
    simp only [step] at h
    split_ifs at h
    all_goals exact hquiet (Option.some.inj h ▸ Calls.of_eq rfl rfl rfl)
  | send r =>
    simp only [step] at h
    split_ifs at h
    exact hquiet (calls_send h)
  | recv r =>
    simp only [step] at h
    split_ifs at h
    cases r with
    | data bytes =>
      simp only [recv] at h
      split_ifs at h
      rw [Option.map_eq_some_iff] at h
      obtain ⟨⟨alive, u⟩, hinput, hc'⟩ := h
      have hreceive : Calls c.session (c.session.receive bytes) [] := Calls.of_eq rfl rfl rfl
      have hmode' : (c.session.receive bytes).mode = .webSocket := hmode
      obtain ⟨cs, hcalls, hword, honly⟩ := Calls.processInput hmode' hinput
      have hu := hreceive.trans hcalls
      rw [List.nil_append] at hu
      cases alive with
      | true =>
        refine ⟨cs, ?_, hword, Or.inl (honly rfl)⟩
        exact hc' ▸ hu.quiet (calls_flushNext c u)
      | false =>
        have hclose : Calls u { u with keepAlive := false }.close [] := Calls.of_eq rfl rfl rfl
        rw [← hc']
        exact ⟨cs, hu.quiet hclose, hword, Or.inr ⟨rfl, rfl⟩⟩
    | wouldBlock => exact hquiet (Option.some.inj h ▸ Calls.of_eq rfl rfl rfl)
    | eof => exact hquiet (Option.some.inj h ▸ Calls.of_eq rfl rfl rfl)
    | error => exact hquiet (Option.some.inj h ▸ Calls.of_eq rfl rfl rfl)

/-- Behind the verdict `false` the socket is closed and the handlers have returned. -/
theorem calls_of_verdict {server : Server} {c c₁ : Conversation} {bytes : Bytes} {u : Session}
    (hmode : c.session.mode = .webSocket)
    (hverdict : (c.session.receive bytes).processFrames server.settings = some (false, u))
    (h : step server c (.recv (.data bytes)) = some c₁) : Calls u c₁.session [] ∧ c₁.Over := by
  have hinput : (c.session.receive bytes).processInput server = some (false, u) := by
    unfold Session.processInput
    rw [show (c.session.receive bytes).mode = .webSocket from hmode]
    exact hverdict
  simp only [step, recv] at h
  split_ifs at h
  rw [hinput, Option.map_some, Option.some.injEq] at h
  exact h ▸ ⟨Calls.of_eq rfl rfl rfl, rfl, rfl⟩

theorem calls_run_of_over {server : Server} (calls : List SysCall) (c c' : Conversation)
    (hover : c.Over) (h : Runs.run (step server) c calls = some c') :
    Calls c.session c'.session [] := by
  induction calls generalizing c with
  | nil => exact Option.some.inj h ▸ Calls.of_eq rfl rfl rfl
  | cons call calls ih =>
    obtain ⟨d, hstep, hrest⟩ := (Runs.run_cons_eq_some c c' call calls).mp h
    obtain ⟨hcalls, hover'⟩ := calls_of_over hover hstep
    exact hcalls.quiet (ih d hover' hrest)

theorem calls_run {server : Server} (calls : List SysCall) (c c' : Conversation)
    (hmode : c.session.mode = .webSocket) (h : Runs.run (step server) c calls = some c') :
    ∃ cs, Calls c.session c'.session cs ∧ LifeWord cs := by
  induction calls generalizing c with
  | nil =>
    exact ⟨[], Option.some.inj h ▸ Calls.of_eq rfl rfl rfl, onlyMessages_nil.lifeWord⟩
  | cons call calls ih =>
    obtain ⟨d, hstep, hrest⟩ := (Runs.run_cons_eq_some c c' call calls).mp h
    obtain ⟨cs, hcalls, hword, honly | hover⟩ := calls_of_step hmode hstep
    · obtain ⟨rest, hrest', hword'⟩ := ih d (hcalls.mode_eq.trans hmode) hrest
      exact ⟨cs ++ rest, hcalls.trans hrest', LifeWord.append honly hword'⟩
    · exact ⟨cs, hcalls.quiet (calls_run_of_over calls d c' hover hrest), hword⟩

end Conversation

/-- What holds between two states of a session: outside `active` nothing is called, and
in WebSocket mode a word that goes on only as long as the session stays active. -/
structure Dispatches (s t : Session) : Prop where
  inactive : s.status ≠ .active → Calls s t [] ∧ t.status ≠ .active
  active : s.status = .active → s.mode = .webSocket →
    ∃ cs, Calls s t cs ∧ LifeWord cs ∧ (t.status = .active → OnlyMessages cs)

namespace Dispatches

theorem of_calls {s t : Session} (hcalls : Calls s t [])
    (hstatus : t.status = .active → s.status = .active) : Dispatches s t where
  inactive := fun hs => ⟨hcalls, fun ht => hs (hstatus ht)⟩
  active := fun _ _ => ⟨[], hcalls, onlyMessages_nil.lifeWord, fun _ => onlyMessages_nil⟩

theorem trans (s t u : Session) (h : Dispatches s t) (h' : Dispatches t u) : Dispatches s u where
  inactive := by
    intro hs
    obtain ⟨hcalls, ht⟩ := h.inactive hs
    obtain ⟨hcalls', hu⟩ := h'.inactive ht
    exact ⟨hcalls.quiet hcalls', hu⟩
  active := by
    intro hs hmode
    obtain ⟨cs, hcalls, hword, honly⟩ := h.active hs hmode
    by_cases ht : t.status = .active
    · obtain ⟨rest, hrest, hword', honly'⟩ := h'.active ht (hcalls.mode_eq.trans hmode)
      exact ⟨cs ++ rest, hcalls.trans hrest, LifeWord.append (honly ht) hword',
        fun hu => (honly ht).append (honly' hu)⟩
    · obtain ⟨hquiet, hu⟩ := h'.inactive ht
      exact ⟨cs, hcalls.quiet hquiet, hword, fun hact => absurd hact hu⟩

theorem takeInput {server : Server} (s : Session) (bytes : Bytes) (t : Session)
    (hactive : s.status = .active)
    (h : (s.setReading false).takeInput server bytes = some t) : Dispatches s t where
  inactive := fun hs => absurd hactive hs
  active := by
    intro _ hmode
    unfold Session.takeInput at h
    rw [Option.map_eq_some_iff] at h
    obtain ⟨⟨alive, u⟩, hinput, rfl⟩ := h
    have hreceive : Calls s ((s.setReading false).receive bytes) [] := Calls.of_eq rfl rfl rfl
    have hmode' : ((s.setReading false).receive bytes).mode = .webSocket := hmode
    obtain ⟨cs, hcalls, hword, honly⟩ := Calls.processInput hmode' hinput
    have hu := hreceive.trans hcalls
    rw [List.nil_append] at hu
    cases alive with
    | true => exact ⟨cs, hu, hword, fun _ => honly rfl⟩
    | false =>
      have hclose : Calls u { u.setStatus .closing with keepAlive := false } [] :=
        Calls.of_eq rfl rfl rfl
      exact ⟨cs, hu.quiet hclose, hword, fun hact => by simp [Session.setStatus] at hact⟩

theorem uringRelation (server : Server) : UringRelation server Dispatches where
  refl := fun _ => of_calls (Calls.of_eq rfl rfl rfl) id
  trans := trans
  input := takeInput
  flags := fun _ _ => of_calls (Calls.of_eq rfl rfl rfl) id
  locked := fun _ _ => of_calls (Calls.of_eq rfl rfl rfl) id
  tick := fun _ _ => of_calls (Calls.of_eq rfl rfl rfl) id
  release := fun _ => of_calls (Calls.of_eq rfl rfl rfl) id
  keepAliveOff := fun _ => of_calls (Calls.of_eq rfl rfl rfl) id
  closing := fun _ => of_calls (Calls.of_eq rfl rfl rfl) fun h => by simp [Session.setStatus] at h
  close := fun _ => of_calls (Calls.of_eq rfl rfl rfl) id

end Dispatches

namespace Worker

variable {server : Server} {w w' : Worker} {sid : SessionId}

/-- The verdict `false` on the frames of a completion leaves a session that is not
active any more, and nothing is called behind the verdict. -/
theorem calls_of_recv {room : ℕ} {bytes : Bytes} {now : ℕ} {s u t : Session} (hw : w.Sound)
    (hs : w.pool sid = some s) (hmode : s.mode = .webSocket) (hactive : s.status = .active)
    (hverdict : ((s.setReading false).receive bytes).processFrames server.settings =
      some (false, u))
    (hstep : w.step server (.recv sid room (.data bytes) now) = some w')
    (ht : w'.pool sid = some t) : Calls u t [] ∧ t.status ≠ .active := by
  have hlocal := localStep_of_session hw rfl hstep
  have hsv : (w.view sid).session = some s := hs
  have htv : (w'.view sid).session = some t := ht
  generalize w.view sid = v at hlocal hsv
  generalize w'.view sid = v' at hlocal htv
  cases hlocal with
  | released hcompletes hclosing =>
    rw [Option.some.inj hsv, hactive] at hclosing
    simp at hclosing
  | ignored hcompletes hinactive =>
    rw [Option.some.inj hsv] at hinactive
    exact absurd hactive hinactive
  | handled hcompletes hact hhandled htouched =>
    obtain rfl := (Option.some.inj hsv).symm
    obtain rfl := Option.some.inj htv
    cases hhandled with
    | endClosed hres => exact absurd rfl (hres bytes)
    | endWaiting hres => exact absurd rfl (hres bytes)
    | data hin hwrite hread =>
      have hinput : ((s.setReading false).receive bytes).processInput server = some (false, u) := by
        unfold Session.processInput
        rw [show ((s.setReading false).receive bytes).mode = .webSocket from hmode]
        exact hverdict
      rw [Session.takeInput, hinput, Option.map_some, Option.some.injEq] at hin
      have hclose : Calls u { u.setStatus .closing with keepAlive := false } [] :=
        Calls.of_eq rfl rfl rfl
      have hR := Dispatches.uringRelation server
      have hrel := hR.armed hwrite hread
      rw [← hin] at hrel
      rcases htouched with ⟨rfl, -⟩ | ⟨⟨now, rfl⟩, -⟩
      · obtain ⟨hcalls, hstatus⟩ := hrel.inactive (by simp [Session.setStatus])
        exact ⟨hclose.quiet hcalls, hstatus⟩
      · obtain ⟨hcalls, hstatus⟩ := (hR.trans _ _ _ hrel (hR.tick _ now)).inactive
          (by simp [Session.setStatus])
        exact ⟨hclose.quiet hcalls, hstatus⟩

end Worker

/-- Callbacks follow the life of the connection: whatever the socket or the completions
bring, a session in WebSocket mode calls `onMessage` any number of times and then
`onClose` at most once, and nothing any more behind the verdict `false`. -/
theorem callbacks_follow_life (server : Server) :
    (∀ c : Conversation, c.session.mode = .webSocket →
      (∀ calls c', Runs.run (Conversation.step server) c calls = some c' →
        ∃ cs, Calls c.session c'.session cs ∧ LifeWord cs) ∧
      (∀ bytes u c₁, (c.session.receive bytes).processFrames server.settings = some (false, u) →
        Conversation.step server c (.recv (.data bytes)) = some c₁ →
        ∀ calls c', Runs.run (Conversation.step server) c₁ calls = some c' →
          Calls u c'.session [])) ∧
    (∀ (w : Worker) sid s, w.Sound → w.pool sid = some s → s.mode = .webSocket →
      (∀ es w' t, Runs.run (Worker.step server) w es = some w' → w'.pool sid = some t →
        ∃ cs, Calls s t cs ∧ LifeWord cs) ∧
      (∀ room bytes now u w₁, s.status = .active →
        ((s.setReading false).receive bytes).processFrames server.settings = some (false, u) →
        w.step server (.recv sid room (.data bytes) now) = some w₁ →
        ∀ es w' t, Runs.run (Worker.step server) w₁ es = some w' → w'.pool sid = some t →
          Calls u t [])) := by
  refine ⟨fun c hmode => ⟨?_, ?_⟩, fun w sid s hw hs hmode => ⟨?_, ?_⟩⟩
  · exact fun calls c' hrun => Conversation.calls_run calls c c' hmode hrun
  · intro bytes u c₁ hverdict hstep calls c' hrun
    obtain ⟨hcalls, hover⟩ := Conversation.calls_of_verdict hmode hverdict hstep
    exact hcalls.quiet (Conversation.calls_run_of_over calls c₁ c' hover hrun)
  · intro es w' t hrun ht
    obtain ⟨s', hs', hrel⟩ := Worker.relates_run (Dispatches.uringRelation server) hw
      (Worker.known_of_pool hw hs) hrun ht
    obtain rfl := Option.some.inj (hs'.symm.trans hs)
    by_cases hactive : s'.status = .active
    · obtain ⟨cs, hcalls, hword, -⟩ := hrel.active hactive hmode
      exact ⟨cs, hcalls, hword⟩
    · exact ⟨[], (hrel.inactive hactive).1, onlyMessages_nil.lifeWord⟩
  · intro room bytes now u w₁ hactive hverdict hstep es w' t hrun ht
    have hknown := Nat.lt_of_lt_of_le (Worker.known_of_pool hw hs) (Worker.moves_step hw hstep).1
    obtain ⟨t₁, hpool, hrel⟩ := Worker.relates_run (Dispatches.uringRelation server)
      (Worker.sound_step hw hstep) hknown hrun ht
    obtain ⟨hcalls, hstatus⟩ := Worker.calls_of_recv hw hs hmode hactive hverdict hstep hpool
    exact hcalls.quiet (hrel.inactive hstatus).1

def quietRoute : WebSocketRoute := ⟨none, some fun _ _ => [], some fun _ => []⟩

def textAndClose : Bytes := [0x81, 0x80, 0, 0, 0, 0, 0x88, 0x80, 0, 0, 0, 0]

theorem callbacks_text_close :
    ∃ c' cs, Runs.run (Conversation.step (bareServer .epoll))
        (Conversation.start (upgradedSession quietRoute))
        [.readable, .recv (.data textAndClose)] = some c' ∧
      Calls (upgradedSession quietRoute) c'.session cs ∧ LifeWord cs := by
  have hends : (Runs.run (Conversation.step (bareServer .epoll))
      (Conversation.start (upgradedSession quietRoute))
      [.readable, .recv (.data textAndClose)]).isSome = true := by decide +kernel
  obtain ⟨c', hrun⟩ := Option.isSome_iff_exists.mp hends
  obtain ⟨cs, hcalls, hword⟩ := ((callbacks_follow_life (bareServer .epoll)).1
    (Conversation.start (upgradedSession quietRoute)) rfl).1 _ c' hrun
  exact ⟨c', cs, hrun, hcalls, hword⟩

end WarpApi

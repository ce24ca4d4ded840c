import WarpApi.SentFrames

/-!
The closing handshake on the server's side. `closeSent` is set when the server
echoes a CLOSE or answers a protocol error, but not by `WebSocketContext::close`.
Whether a CLOSE stays the last frame therefore depends on what user code calls
and on what the client goes on to send.
-/
namespace WarpApi

section LastOnly

variable {α β : Type*} {p : α → Prop}

/-- An element with this property has nothing behind it. -/
def LastOnly (p : α → Prop) (xs : List α) : Prop :=
  ∀ pre x post, xs = pre ++ x :: post → p x → post = []

theorem lastOnly_nil : LastOnly p [] := by
  intro pre x post h
  simp at h

theorem lastOnly_singleton (x : α) : LastOnly p [x] := by
  intro pre y post h _
  cases pre with
  | nil => exact (List.cons.inj h).2.symm
  | cons z pre => simp at h

theorem lastOnly_append (xs ys : List α) :
    LastOnly p (xs ++ ys) ↔ LastOnly p xs ∧ LastOnly p ys ∧ ((∃ x ∈ xs, p x) → ys = []) := by
  constructor
  · intro h
    refine ⟨fun pre x post heq hx => ?_, fun pre x post heq hx => ?_, fun ⟨x, hmem, hx⟩ => ?_⟩
    · have hnil := h pre x (post ++ ys) (by rw [heq, List.append_assoc, List.cons_append]) hx
      exact (List.append_eq_nil_iff.mp hnil).1
    · exact h (xs ++ pre) x post (by rw [heq, List.append_assoc]) hx
    · obtain ⟨pre, post, heq⟩ := List.append_of_mem hmem
      have hnil := h pre x (post ++ ys) (by rw [heq, List.append_assoc, List.cons_append]) hx
      exact (List.append_eq_nil_iff.mp hnil).2
  · rintro ⟨hxs, hys, hlast⟩ pre x post heq hx
    rcases List.append_eq_append_iff.mp heq with ⟨mid, rfl, hmid⟩ | ⟨mid, rfl, hmid⟩
    · exact hys mid x post hmid hx
    · cases mid with
      | nil => exact hys [] x post hmid.symm hx
      | cons z mid =>
        obtain ⟨rfl, rfl⟩ := List.cons.inj hmid
        have hmid' := hxs pre x mid rfl hx
        have hys' := hlast ⟨x, by simp, hx⟩
        rw [hmid', hys']
        rfl

theorem lastOnly_map (q : β → Prop) (f : β → α) (hq : ∀ y, p (f y) ↔ q y) (ys : List β) :
    LastOnly p (ys.map f) ↔ LastOnly q ys := by
  induction ys with
  | nil => exact ⟨fun _ => lastOnly_nil, fun _ => lastOnly_nil⟩
  | cons y ys ih =>
    have hx : ys.map f = [] ↔ ys = [] := List.map_eq_nil_iff
    have hsplit := lastOnly_append (p := p) [f y] (ys.map f)
    have hsplit' := lastOnly_append (p := q) [y] ys
    rw [List.singleton_append] at hsplit hsplit'
    rw [List.map_cons, hsplit, hsplit', ih, hx]
    simp [lastOnly_singleton, hq]

end LastOnly

def Frame.isClose (f : Frame) : Bool := f.opcode = wsOpClose

/-- At most one of the frames is a CLOSE, and no frame of any kind follows it. -/
structure ClosesOnce (fs : List Frame) : Prop where
  atMostOne : (fs.filter Frame.isClose).length ≤ 1
  nothingAfter : LastOnly (fun f => f.isClose = true) fs

theorem closesOnce_iff (fs : List Frame) :
    ClosesOnce fs ↔ LastOnly (fun f => f.isClose = true) fs := by
  refine ⟨ClosesOnce.nothingAfter, fun h => ⟨?_, h⟩⟩
  induction fs with
  | nil => exact Nat.zero_le _
  | cons f fs ih =>
    obtain ⟨-, hfs, hlast⟩ := (lastOnly_append [f] fs).mp h
    by_cases hf : f.isClose = true
    · rw [hlast ⟨f, List.mem_singleton_self f, hf⟩]
      exact List.length_filter_le _ _
    · rw [List.filter_cons_of_neg hf]
      exact ih hfs

def ContextCall.isClose : ContextCall → Prop
  | .close _ _ => True
  | _ => False

namespace Turn

def isMessage (turn : Turn) : Prop :=
  turn.frame.fin = true ∧ (turn.frame.opcode = wsOpText ∨ turn.frame.opcode = wsOpBinary)

def isPong (turn : Turn) : Prop := turn.frame.fin = true ∧ turn.frame.opcode = wsOpPong

def isCloseFrame (turn : Turn) : Prop := turn.frame.fin = true ∧ turn.frame.opcode = wsOpClose

/-- The server has no occasion to send anything: a PONG, or a message that user code
leaves unanswered. -/
def isSilent (turn : Turn) : Prop := turn.isPong ∨ turn.isMessage ∧ turn.calls = []

end Turn

/-- User code closed the connection by one of these calls. -/
def Closes (calls : List ContextCall) : Prop := ∃ c ∈ calls, c.isClose

/-- Nothing is sent behind a CLOSE that user code sends: it is the last call of its
callback and every later frame is silent; and `onClose`, which runs behind the echo of
the client's CLOSE, makes no calls. -/
structure Courteous (opened : List ContextCall) (turns : List Turn) : Prop where
  openedLast : LastOnly ContextCall.isClose opened
  openedSilence : Closes opened → ∀ turn ∈ turns, turn.isSilent
  messageLast : ∀ turn ∈ turns, turn.isMessage → LastOnly ContextCall.isClose turn.calls
  messageSilence : ∀ pre turn post, turns = pre ++ turn :: post → turn.isMessage →
    Closes turn.calls → ∀ later ∈ post, later.isSilent
  onCloseSilent : ∀ turn ∈ turns, turn.isCloseFrame → turn.calls = []

theorem sentFrames_append (os os' : List Obs) :
    sentFrames (os ++ os') = sentFrames os ++ sentFrames os' := List.filterMap_append

theorem sentFrames_entries (calls : List ContextCall) :
    sentFrames (calls.map ContextCall.entry) = calls.map ContextCall.frame := by
  have hsome : Obs.sentFrame ∘ ContextCall.entry = some ∘ ContextCall.frame := rfl
  rw [sentFrames, List.filterMap_map, hsome, List.filterMap_eq_map]

theorem isClose_frame_iff (c : ContextCall) : c.frame.isClose = true ↔ c.isClose := by
  cases c with
  | sendText payload =>
    refine ⟨fun h => ?_, False.elim⟩
    have hop : wsOpText = wsOpClose := of_decide_eq_true h
    exact absurd hop (by decide)
  | sendBinary payload =>
    refine ⟨fun h => ?_, False.elim⟩
    have hop : wsOpBinary = wsOpClose := of_decide_eq_true h
    exact absurd hop (by decide)
  | close code reason => exact ⟨fun _ => trivial, fun _ => rfl⟩

theorem lastOnly_calls (calls : List ContextCall) :
    LastOnly (fun f => f.isClose = true) (calls.map ContextCall.frame) ↔
      LastOnly ContextCall.isClose calls :=
  lastOnly_map ContextCall.isClose ContextCall.frame isClose_frame_iff calls

theorem closes_calls (calls : List ContextCall) :
    (∃ f ∈ calls.map ContextCall.frame, f.isClose = true) ↔ Closes calls := by
  simp only [List.mem_map, exists_exists_and_eq_and, isClose_frame_iff, Closes]

namespace Turn

def goesOn (turn : Turn) : Prop :=
  turn.isMessage ∨ turn.isPong ∨ turn.frame.fin = true ∧ turn.frame.opcode = wsOpPing

/-- Without a callback there are no calls. -/
def Fits (onMessage onClose : Bool) (turn : Turn) : Prop :=
  (turn.isMessage → onMessage = false → turn.calls = []) ∧
    (turn.isCloseFrame → onClose = false → turn.calls = [])

def sent (onMessage onClose : Bool) (turn : Turn) : List Frame :=
  sentFrames (turn.entries onMessage onClose)

variable {onMessage onClose : Bool} {turn : Turn}

theorem sent_message (h : turn.isMessage) (hfits : turn.Fits onMessage onClose) :
    turn.sent onMessage onClose = turn.calls.map ContextCall.frame := by
  obtain ⟨hfin, hop⟩ := h
  unfold sent entries
  dsimp only
  rw [hfin, if_neg (by simp), if_pos hop]
  cases onMessage with
  | true => exact sentFrames_entries turn.calls
  | false =>
    rw [hfits.1 ⟨hfin, hop⟩ rfl]
    rfl

theorem sent_pong (h : turn.isPong) : turn.sent onMessage onClose = [] := by
  unfold sent entries
  dsimp only
  rw [h.1, h.2]
  rfl

theorem sent_ping (hfin : turn.frame.fin = true) (hop : turn.frame.opcode = wsOpPing) :
    turn.sent onMessage onClose = [⟨wsOpPong, true, turn.frame.payload⟩] := by
  unfold sent entries
  dsimp only
  rw [hfin, hop]
  rfl

theorem sent_close (h : turn.isCloseFrame) (hfits : turn.Fits onMessage onClose) :
    turn.sent onMessage onClose =
      ⟨wsOpClose, true, turn.frame.payload.take wsControlMaxPayload⟩ ::
        turn.calls.map ContextCall.frame := by
  unfold sent entries
  dsimp only
  rw [h.1, h.2]
  cases onClose with
  | true => exact congrArg _ (sentFrames_entries turn.calls)
  | false =>
    rw [hfits.2 h rfl]
    rfl

theorem sent_other (hgoes : ¬ turn.goesOn) (hclose : ¬ turn.isCloseFrame) :
    turn.sent onMessage onClose = [⟨wsOpClose, true, Session.protocolError⟩] := by
  unfold goesOn isMessage isPong isCloseFrame at *
  unfold sent entries
  dsimp only
  by_cases hfin : turn.frame.fin = true
  · simp only [hfin, true_and] at hgoes hclose
    rw [hfin, if_neg (by simp), if_neg (fun h => hgoes (Or.inl h)),
      if_neg (fun h => hgoes (Or.inr (Or.inr h))), if_neg (fun h => hgoes (Or.inr (Or.inl h))),
      if_neg hclose]
    rfl
  · rw [if_pos (by simpa using hfin)]
    rfl

theorem not_isMessage_of_isPong (h : turn.isPong) : ¬ turn.isMessage := by
  rintro ⟨-, hop | hop⟩ <;> exact absurd (h.2.symm.trans hop) (by decide)

theorem not_isMessage_of_isCloseFrame (h : turn.isCloseFrame) : ¬ turn.isMessage := by
  rintro ⟨-, hop | hop⟩ <;> exact absurd (h.2.symm.trans hop) (by decide)

theorem not_isMessage_of_ping (h : turn.frame.opcode = wsOpPing) : ¬ turn.isMessage := by
  rintro ⟨-, hop | hop⟩ <;> exact absurd (h.symm.trans hop) (by decide)

theorem not_isCloseFrame_of_goesOn (h : turn.goesOn) : ¬ turn.isCloseFrame := by
  intro hclose
  rcases h with h | h | h
  · exact not_isMessage_of_isCloseFrame hclose h
  · exact absurd (h.2.symm.trans hclose.2) (by decide)
  · exact absurd (h.2.symm.trans hclose.2) (by decide)

theorem sent_eq_nil_iff (hfits : turn.Fits onMessage onClose) :
    turn.sent onMessage onClose = [] ↔ turn.isSilent := by
  constructor
  · intro hsent
    by_cases hgoes : turn.goesOn
    · rcases hgoes with h | h | h
      · rw [sent_message h hfits, List.map_eq_nil_iff] at hsent
        exact Or.inr ⟨h, hsent⟩
      · exact Or.inl h
      · rw [sent_ping h.1 h.2] at hsent
        simp at hsent
    · by_cases hclose : turn.isCloseFrame
      · rw [sent_close hclose hfits] at hsent
        simp at hsent
      · rw [sent_other hgoes hclose] at hsent
        simp at hsent
  · rintro (h | ⟨h, hcalls⟩)
    · exact sent_pong h
    · rw [sent_message h hfits, hcalls, List.map_nil]

theorem lastOnly_sent_iff (hfits : turn.Fits onMessage onClose) :
    LastOnly (fun f => f.isClose = true) (turn.sent onMessage onClose) ↔
      (turn.isMessage → LastOnly ContextCall.isClose turn.calls) ∧
        (turn.isCloseFrame → turn.calls = []) := by
  by_cases hgoes : turn.goesOn
  · have hclose := not_isCloseFrame_of_goesOn hgoes
    rcases hgoes with h | h | h
    · rw [sent_message h hfits, lastOnly_calls]
      exact ⟨fun hlast => ⟨fun _ => hlast, fun hc => absurd hc hclose⟩, fun hboth => hboth.1 h⟩
    · rw [sent_pong h]
      exact ⟨fun _ => ⟨fun hm => absurd hm (not_isMessage_of_isPong h),
        fun hc => absurd hc hclose⟩, fun _ => lastOnly_nil⟩
    · rw [sent_ping h.1 h.2]
      exact ⟨fun _ => ⟨fun hm => absurd hm (not_isMessage_of_ping h.2),
        fun hc => absurd hc hclose⟩, fun _ => lastOnly_singleton _⟩
  · by_cases hclose : turn.isCloseFrame
    · have hmessage := not_isMessage_of_isCloseFrame hclose
      rw [sent_close hclose hfits, ← List.singleton_append, lastOnly_append]
      constructor
      · rintro ⟨-, -, hrest⟩
        have hnil := hrest ⟨_, List.mem_singleton_self _, rfl⟩
        exact ⟨fun hm => absurd hm hmessage, fun _ => List.map_eq_nil_iff.mp hnil⟩
      · rintro ⟨-, hcalls⟩
        rw [hcalls hclose, List.map_nil]
        exact ⟨lastOnly_singleton _, lastOnly_nil, fun _ => rfl⟩
    · rw [sent_other hgoes hclose]
      exact ⟨fun _ => ⟨fun hm => absurd (Or.inl hm) hgoes, fun hc => absurd hc hclose⟩,
        fun _ => lastOnly_singleton _⟩

/-- Of the turns behind which the loop goes on, only a message can send a CLOSE. -/
theorem closes_sent_iff (hfits : turn.Fits onMessage onClose) (hgoes : turn.goesOn) :
    (∃ f ∈ turn.sent onMessage onClose, f.isClose = true) ↔
      turn.isMessage ∧ Closes turn.calls := by
  rcases hgoes with h | h | h
  · rw [sent_message h hfits, closes_calls]
    exact ⟨fun hcloses => ⟨h, hcloses⟩, And.right⟩
  · rw [sent_pong h]
    exact ⟨fun ⟨_, hmem, _⟩ => absurd hmem List.not_mem_nil,
      fun ⟨hm, _⟩ => absurd hm (not_isMessage_of_isPong h)⟩
  · rw [sent_ping h.1 h.2]
    refine ⟨fun ⟨f, hmem, hf⟩ => ?_, fun ⟨hm, _⟩ => absurd hm (not_isMessage_of_ping h.2)⟩
    rw [List.mem_singleton.mp hmem] at hf
    have hop : wsOpPong = wsOpClose := of_decide_eq_true hf
    exact absurd hop (by decide)

end Turn

/-- Only the last turn of a run may be one that ends the loop. -/
def StopsLast : List Turn → Prop
  | [] => True
  | turn :: rest => (turn.goesOn ∨ rest = []) ∧ StopsLast rest

theorem stopsLast_append (turns rest : List Turn) (h : ∀ turn ∈ turns, turn.goesOn)
    (hrest : StopsLast rest) : StopsLast (turns ++ rest) := by
  induction turns with
  | nil => exact hrest
  | cons turn turns ih =>
    exact ⟨Or.inl (h turn List.mem_cons_self),
      ih fun later hmem => h later (List.mem_cons_of_mem _ hmem)⟩

theorem courteous_cons (turn : Turn) (rest : List Turn) :
    Courteous [] (turn :: rest) ↔
      ((turn.isMessage → LastOnly ContextCall.isClose turn.calls) ∧
          (turn.isCloseFrame → turn.calls = [])) ∧
        (turn.isMessage → Closes turn.calls → ∀ later ∈ rest, later.isSilent) ∧
          Courteous [] rest := by
  constructor
  · intro h
    refine ⟨⟨h.messageLast turn List.mem_cons_self, h.onCloseSilent turn List.mem_cons_self⟩,
      h.messageSilence [] turn rest rfl, ?_⟩
    exact
      { openedLast := lastOnly_nil
        openedSilence := fun ⟨_, hmem, _⟩ => absurd hmem List.not_mem_nil
        messageLast := fun t ht => h.messageLast t (List.mem_cons_of_mem _ ht)
        messageSilence := fun pre t post heq =>
          h.messageSilence (turn :: pre) t post (by rw [heq, List.cons_append])
        onCloseSilent := fun t ht => h.onCloseSilent t (List.mem_cons_of_mem _ ht) }
  · rintro ⟨⟨hlast, hnone⟩, hsilence, h⟩
    exact
      { openedLast := lastOnly_nil
        openedSilence := fun ⟨_, hmem, _⟩ => absurd hmem List.not_mem_nil
        messageLast := fun t ht => by
          rcases List.mem_cons.mp ht with rfl | ht
          · exact hlast
          · exact h.messageLast t ht
        messageSilence := fun pre t post heq => by
          cases pre with
          | nil =>
            obtain ⟨rfl, rfl⟩ := List.cons.inj heq
            exact hsilence
          | cons first pre => exact h.messageSilence pre t post (List.cons.inj heq).2
        onCloseSilent := fun t ht => by
          rcases List.mem_cons.mp ht with rfl | ht
          · exact hnone
          · exact h.onCloseSilent t ht }

theorem flatMap_sent_eq_nil_iff {onMessage onClose : Bool} (turns : List Turn)
    (hfits : ∀ turn ∈ turns, turn.Fits onMessage onClose) :
    turns.flatMap (Turn.sent onMessage onClose) = [] ↔ ∀ turn ∈ turns, turn.isSilent := by
  rw [List.flatMap_eq_nil_iff]
  exact forall₂_congr fun turn hmem => Turn.sent_eq_nil_iff (hfits turn hmem)

theorem lastOnly_turns_iff {onMessage onClose : Bool} (turns : List Turn)
    (hfits : ∀ turn ∈ turns, turn.Fits onMessage onClose) (hstops : StopsLast turns) :
    LastOnly (fun f => f.isClose = true) (turns.flatMap (Turn.sent onMessage onClose)) ↔
      Courteous [] turns := by
  induction turns with
  | nil =>
    refine ⟨fun _ => ⟨lastOnly_nil, ?_, ?_, ?_, ?_⟩, fun _ => lastOnly_nil⟩ <;> simp
  | cons turn rest ih =>
    have hturn := hfits turn List.mem_cons_self
    have hrest : ∀ later ∈ rest, later.Fits onMessage onClose :=
      fun later hmem => hfits later (List.mem_cons_of_mem _ hmem)
    rw [List.flatMap_cons, lastOnly_append, Turn.lastOnly_sent_iff hturn,
      ih hrest hstops.2, courteous_cons]
    have hsilence : ((∃ f ∈ turn.sent onMessage onClose, f.isClose = true) →
          rest.flatMap (Turn.sent onMessage onClose) = []) ↔
        (turn.isMessage → Closes turn.calls → ∀ later ∈ rest, later.isSilent) := by
      rw [flatMap_sent_eq_nil_iff rest hrest]
      rcases hstops.1 with hgoes | hnil
      · rw [Turn.closes_sent_iff hturn hgoes, and_imp]
      · simp [hnil]
    rw [hsilence]
    exact ⟨fun ⟨h1, h2, h3⟩ => ⟨h1, h3, h2⟩, fun ⟨h1, h2, h3⟩ => ⟨h1, h3, h2⟩⟩

theorem callbackCalls_fits (s : Session) (f : Frame) :
    Turn.Fits s.handlesMessages s.handlesClose ⟨f, s.callbackCalls f⟩ := by
  refine ⟨fun ⟨hfin, hop⟩ hnone => ?_, fun hclose hnone => ?_⟩
  · dsimp only at hfin hop ⊢
    unfold Session.handlesMessages at hnone
    unfold Session.callbackCalls Session.messageCalls
    rw [Option.isSome_eq_false_iff, Option.isNone_iff_eq_none] at hnone
    rw [hfin, if_neg (by simp), if_pos hop, hnone]
  · have hmessage := Turn.not_isMessage_of_isCloseFrame hclose
    obtain ⟨hfin, hop⟩ := hclose
    dsimp only at hfin hop ⊢
    unfold Session.handlesClose at hnone
    unfold Session.callbackCalls Session.closeCalls
    rw [Option.isSome_eq_false_iff, Option.isNone_iff_eq_none] at hnone
    rw [hfin, if_neg (by simp), if_neg (fun h => hmessage ⟨hfin, h⟩), if_pos hop,
      Session.route_echoClose, hnone]

theorem goesOn_of_dispatchFrame {s t : Session} {f : Frame} (calls : List ContextCall)
    (h : s.dispatchFrame f.opcode f.fin f.payload = (true, t)) : Turn.goesOn ⟨f, calls⟩ := by
  unfold Session.dispatchFrame at h
  split_ifs at h with hfin hdata hping hpong hclose
  · simp [Session.sendProtocolClose] at h
  · exact Or.inl ⟨by simpa using hfin, hdata⟩
  · exact Or.inr (Or.inr ⟨by simpa using hfin, hping⟩)
  · exact Or.inr (Or.inl ⟨by simpa using hfin, hpong⟩)
  · simp at h
  · simp [Session.sendProtocolClose] at h

namespace FrameRun

variable {settings : SettingsData} {s t : Session} {turns : List Turn} {alive : Bool}

theorem fits (h : FrameRun settings s turns alive t) :
    ∀ turn ∈ turns, turn.Fits s.handlesMessages s.handlesClose := by
  unfold Session.handlesMessages Session.handlesClose
  induction h with
  | wait _ => simp
  | reject _ => simp
  | @next s s' t u f n turns alive hnext hs hd htail ih =>
    have hstate : s'.wsState = s.wsState := by rw [hs]
    rw [(Session.wsState_dispatchFrame _ _ _ _ _ hd).trans hstate] at ih
    have hturn := callbackCalls_fits s' f
    unfold Session.handlesMessages Session.handlesClose at hturn
    rw [hstate] at hturn
    intro turn hmem
    rcases List.mem_cons.mp hmem with rfl | hmem
    · exact hturn
    · exact ih turn hmem
  | @last s s' t f n hnext hs hd =>
    have hstate : s'.wsState = s.wsState := by rw [hs]
    have hturn := callbackCalls_fits s' f
    unfold Session.handlesMessages Session.handlesClose at hturn
    rw [hstate] at hturn
    intro turn hmem
    rw [List.mem_singleton.mp hmem]
    exact hturn

theorem goesOn (h : FrameRun settings s turns true t) : ∀ turn ∈ turns, turn.goesOn := by
  generalize halive : true = alive at h
  induction h with
  | wait _ => simp
  | reject _ => simp
  | next hnext hs hd htail ih =>
    intro turn hmem
    rcases List.mem_cons.mp hmem with rfl | hmem
    · exact goesOn_of_dispatchFrame _ hd
    · exact ih halive turn hmem
  | last hnext hs hd => simp at halive

theorem stopsLast (h : FrameRun settings s turns alive t) : StopsLast turns := by
  induction h with
  | wait _ => trivial
  | reject _ => trivial
  | next hnext hs hd htail ih => exact ⟨Or.inl (goesOn_of_dispatchFrame _ hd), ih⟩
  | last hnext hs hd => exact ⟨Or.inr rfl, trivial⟩

end FrameRun

theorem feed_shape (settings : SettingsData) (chunks : List Bytes) (s t : Session)
    (turns : List Turn) (alive : Bool)
    (h : Session.feed settings chunks s = some (turns, alive, t)) :
    (∀ turn ∈ turns, turn.Fits s.handlesMessages s.handlesClose) ∧ StopsLast turns := by
  induction chunks generalizing s turns with
  | nil =>
    simp only [Session.feed, Option.some.injEq, Prod.mk.injEq] at h
    rw [← h.1]
    exact ⟨by simp, trivial⟩
  | cons chunk chunks ih =>
    obtain ⟨first, go, u, hprocess, hcases⟩ := Session.feed_cons_eq_some h
    have hrun := FrameRun.of_processTurns hprocess
    have hfirst : ∀ turn ∈ first, turn.Fits s.handlesMessages s.handlesClose := hrun.fits
    rcases hcases with ⟨rfl, rfl, rfl⟩ | ⟨rfl, rest, hrest, rfl⟩
    · exact ⟨hfirst, hrun.stopsLast⟩
    · have hkept : u.wsState = s.wsState := hrun.wsState_eq
      obtain ⟨hfits, hstops⟩ := ih u rest hrest
      unfold Session.handlesMessages Session.handlesClose at hfits hfirst ⊢
      rw [hkept] at hfits
      refine ⟨fun turn hmem => ?_, stopsLast_append _ _ hrun.goesOn hstops⟩
      exact (List.mem_append.mp hmem).elim (hfirst turn) (hfits turn)

def Session.openCalls (s : Session) (route : WebSocketRoute) : List ContextCall :=
  match route.onOpen with
  | some f => f s.moment
  | none => []

theorem Session.sends_runOnOpen (s : Session) (route : WebSocketRoute) :
    ∃ os, Sends s (s.runOnOpen route) os ∧
      sentFrames os = (s.openCalls route).map ContextCall.frame := by
  unfold runOnOpen openCalls
  cases route.onOpen with
  | none => exact ⟨[], Sends.of_eq rfl rfl, rfl⟩
  | some f =>
    exact ⟨_, (Sends.note s .wsOpen rfl).trans (sends_contextCalls _ _),
      sentFrames_entries (f s.moment)⟩

theorem Session.wsState_runOnOpen (s : Session) (route : WebSocketRoute) :
    (s.runOnOpen route).wsState = s.wsState := by
  unfold runOnOpen
  cases route.onOpen with
  | none => rfl
  | some f => exact wsState_contextCalls _ _

/-- From `onOpen` on and over every stream, however it is cut: the server sends at most
one CLOSE and nothing behind it exactly when user code and the client see to it. -/
theorem closesOnce_feed_iff (settings : SettingsData) (route : WebSocketRoute)
    (chunks : List Bytes) (s t : Session) (turns : List Turn) (alive : Bool)
    (hsent : s.wsState.closeSent = false)
    (hrun : Session.feed settings chunks (s.runOnOpen route) = some (turns, alive, t)) :
    ∃ os, Sends s t os ∧ (ClosesOnce (sentFrames os) ↔ Courteous (s.openCalls route) turns) := by
  obtain ⟨opened, hopen, hframes⟩ := s.sends_runOnOpen route
  have hfeed := sends_feed settings chunks _ t turns alive
    (by rw [s.wsState_runOnOpen, hsent]) hrun
  obtain ⟨hfits, hstops⟩ := feed_shape settings chunks _ t turns alive hrun
  refine ⟨_, hopen.trans hfeed, ?_⟩
  have hturns : sentFrames (turns.flatMap (Turn.entries (s.runOnOpen route).handlesMessages
      (s.runOnOpen route).handlesClose)) =
        turns.flatMap (Turn.sent (s.runOnOpen route).handlesMessages
          (s.runOnOpen route).handlesClose) := List.filterMap_flatMap ..
  rw [closesOnce_iff, sentFrames_append, hframes, hturns, lastOnly_append, lastOnly_calls,
    closes_calls, flatMap_sent_eq_nil_iff turns hfits, lastOnly_turns_iff turns hfits hstops]
  constructor
  · rintro ⟨hlast, h, hsilence⟩
    exact { h with openedLast := hlast, openedSilence := hsilence }
  · intro h
    refine ⟨h.openedLast, ?_, h.openedSilence⟩
    exact
      { h with
        openedLast := lastOnly_nil
        openedSilence := fun ⟨_, hmem, _⟩ => absurd hmem List.not_mem_nil }

def closingRoute : WebSocketRoute := ⟨none, some fun _ _ => [.close 1000 []], none⟩

def textThenPong : List Bytes := [[0x81, 0x81, 0, 0, 0, 0, 72], [0x8A, 0x80, 0, 0, 0, 0]]

theorem closesOnce_feed_textThenPong :
    ∃ turns alive t os, Session.feed configJson textThenPong
        ((upgradedSession closingRoute).runOnOpen closingRoute) = some (turns, alive, t) ∧
      Sends (upgradedSession closingRoute) t os ∧ (∃ turn ∈ turns, Closes turn.calls) ∧
      ClosesOnce (sentFrames os) := by
  have hturns : (Session.feed configJson textThenPong
      ((upgradedSession closingRoute).runOnOpen closingRoute)).map Prod.fst =
        some [⟨⟨wsOpText, true, [72]⟩, [.close 1000 []]⟩, ⟨⟨wsOpPong, true, []⟩, []⟩] := by
    decide +kernel
  obtain ⟨⟨turns, alive, t⟩, hfeed, rfl⟩ := Option.map_eq_some_iff.mp hturns
  obtain ⟨os, hsends, hiff⟩ := closesOnce_feed_iff configJson closingRoute textThenPong
    (upgradedSession closingRoute) t _ alive rfl hfeed
  have hpong : Turn.isPong ⟨⟨wsOpPong, true, []⟩, []⟩ := ⟨rfl, rfl⟩
  have hnoMessage : ¬ Turn.isMessage ⟨⟨wsOpPong, true, []⟩, []⟩ := by
    rintro ⟨-, hop | hop⟩
    · exact absurd hop (by decide)
    · exact absurd hop (by decide)
  refine ⟨_, alive, t, os, hfeed, hsends, ⟨_, List.mem_cons_self, _, List.mem_cons_self, trivial⟩,
    hiff.mpr ⟨lastOnly_nil, ?_, ?_, ?_, ?_⟩⟩
  · rintro ⟨c, hc, -⟩
    exact absurd hc List.not_mem_nil
  · intro turn hturn hmessage
    rcases List.mem_pair.mp hturn with rfl | rfl
    · exact lastOnly_singleton _
    · exact absurd hmessage hnoMessage
  · intro pre turn post heq hmessage hcloses later hlater
    have hmem : later ∈ [Turn.mk ⟨wsOpPong, true, []⟩ []] := by
      cases pre with
      | nil => exact (List.cons.inj heq).2 ▸ hlater
      | cons first pre =>
        rw [(List.cons.inj heq).2]
        exact List.mem_append_right _ (List.mem_cons_of_mem _ hlater)
    rw [List.mem_singleton.mp hmem]
    exact Or.inl hpong
  · intro turn hturn hclose
    rcases List.mem_pair.mp hturn with rfl | rfl
    · exact absurd hclose.2 (by decide)
    · rfl

def textThenClose : List Bytes := [[0x81, 0x81, 0, 0, 0, 0, 72], [0x88, 0x80, 0, 0, 0, 0]]

/-- The CLOSE of user code is followed by an echo of the client's own CLOSE. -/
theorem textThenClose_sends_two :
    ∃ turns alive t os,
      Session.feed configJson textThenClose (upgradedSession closingRoute) =
        some (turns, alive, t) ∧
      Sends (upgradedSession closingRoute) t os ∧
      sentFrames os = [⟨wsOpClose, true, [3, 232]⟩, ⟨wsOpClose, true, []⟩] ∧
      ¬ ClosesOnce (sentFrames os) := by
  have hturns : (Session.feed configJson textThenClose (upgradedSession closingRoute)).map
      Prod.fst =
        some [⟨⟨wsOpText, true, [72]⟩, [.close 1000 []]⟩, ⟨⟨wsOpClose, true, []⟩, []⟩] := by
    decide +kernel
  obtain ⟨⟨turns, alive, t⟩, hfeed, rfl⟩ := Option.map_eq_some_iff.mp hturns
  have hsends := sends_feed configJson textThenClose (upgradedSession closingRoute) t _ alive rfl
    hfeed
  refine ⟨_, alive, t, _, hfeed, hsends, rfl, fun h => ?_⟩
  exact absurd h.atMostOne (by decide)

end WarpApi

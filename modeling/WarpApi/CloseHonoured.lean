import WarpApi.EpollSession
import WarpApi.HeaderLines

/-!
`Connection: close` in the epoll backend. The decision to close is kept in
`_keepAlive`, which every later parse attempt sets back to true once it has read
a request line. As long as no attempt gets that far the decision stands: nothing
more is handled and the socket is closed when the write buffer runs empty.
-/
namespace WarpApi

def Obs.closes : Obs → Bool
  | .response r _ => r.carriesClose
  | _ => false

/-- What must not happen any more: a request is handled, or the write buffer runs
empty and the socket stays open. -/
def Obs.breaches : Obs → Bool
  | .handled _ _ _ => true
  | .emptied socketOpen => socketOpen
  | _ => false

/-- The log lists the newest entry first. -/
def Honoured (log : List Obs) : Prop :=
  log.Pairwise fun newer older => older.closes = true → newer.breaches = false

instance (log : List Obs) : Decidable (Honoured log) :=
  inferInstanceAs (Decidable (log.Pairwise _))

/-- Parsing these bytes neither accepts a request nor turns `_keepAlive` on again. -/
def Harmless (settings : SettingsData) (unread : Bytes) : Prop :=
  ∀ req, (parseBytes settings unread req false).consumed = none ∧
    (parseBytes settings unread req false).keepAlive = false

/-- The calls send a body while the response says close. -/
def WritesClose (r : HttpResponse) (calls : List ResponseCall) : Prop :=
  ∃ before body after, calls = before ++ .setBody body :: after ∧
    (before.foldl HttpResponse.apply r).carriesClose = true

/-- The condition on one entry and the entries before it: behind a closing response
only harmless bytes are parsed, and no handler announces the close on its own. -/
def CalmAt (settings : SettingsData) (older : List Obs) : Obs → Prop
  | .attempt unread => (∃ o ∈ older, o.closes = true) → Harmless settings unread
  | .handlerRan true ran => ran.thrown = none → ¬ WritesClose (Session.openResponse true) ran.calls
  | _ => True

def Calm (settings : SettingsData) : List Obs → Prop
  | [] => True
  | o :: older => CalmAt settings older o ∧ Calm settings older

theorem Calm.of_suffix {settings : SettingsData} {older log : List Obs} (h : Calm settings log)
    (hsuffix : older <:+ log) : Calm settings older := by
  induction log with
  | nil => exact List.suffix_nil.mp hsuffix ▸ h
  | cons o log ih =>
    rcases List.suffix_cons_iff.mp hsuffix with rfl | hsuffix
    · exact h
    · exact ih h.2 hsuffix

theorem Calm.at_mem {settings : SettingsData} {log : List Obs} (h : Calm settings log) {o : Obs}
    (ho : o ∈ log) : ∃ older, CalmAt settings older o := by
  induction log with
  | nil => exact absurd ho List.not_mem_nil
  | cons p log ih =>
    rcases List.mem_cons.mp ho with rfl | ho
    · exact ⟨log, h.1⟩
    · exact ih h.2 ho

/-- The close has been announced, so the flag is off, and it has been honoured. -/
structure CloseKept (s : Session) : Prop where
  mode : s.mode = .http
  flag : (∃ o ∈ s.log, o.closes = true) → s.keepAlive = false
  honoured : Honoured s.log

/-- From s to t the log grows, and what is kept in s is kept in t on a calm log. -/
structure KeepsClose (settings : SettingsData) (s t : Session) : Prop where
  suffix : s.log <:+ t.log
  kept : Calm settings t.log → CloseKept s → CloseKept t

namespace KeepsClose

variable {settings : SettingsData}

theorem refl (s : Session) : KeepsClose settings s s := ⟨List.suffix_refl _, fun _ h => h⟩

theorem trans (s t u : Session) (h : KeepsClose settings s t) (h' : KeepsClose settings t u) :
    KeepsClose settings s u :=
  ⟨h.suffix.trans h'.suffix, fun hcalm hs => h'.kept hcalm (h.kept (hcalm.of_suffix h'.suffix) hs)⟩

theorem of_log_eq {s t : Session} (hlog : t.log = s.log) (hmode : t.mode = s.mode)
    (hflag : t.keepAlive = s.keepAlive ∨ t.keepAlive = false) : KeepsClose settings s t where
  suffix := hlog ▸ List.suffix_refl _
  kept := by
    intro _ hs
    refine ⟨hmode.trans hs.mode, fun howes => ?_, hlog ▸ hs.honoured⟩
    rw [hlog] at howes
    exact hflag.elim (fun h => h.trans (hs.flag howes)) id

theorem onWriteComplete (s : Session) : KeepsClose settings s s.onWriteComplete where
  suffix := by
    unfold Session.onWriteComplete
    dsimp only
    split_ifs <;> exact List.suffix_cons _ _
  kept := by
    intro _ hs
    unfold Session.onWriteComplete
    cases hflag : s.keepAlive with
    | true =>
      have hnone : ¬ ∃ o ∈ s.log, o.closes = true := fun howes => by
        have := hs.flag howes
        rw [hflag] at this
        exact absurd this (by decide)
      rw [if_pos rfl, if_pos hs.mode]
      refine ⟨hs.mode, ?_, ?_⟩
      · rintro ⟨o, ho, hcloses⟩
        rcases List.mem_cons.mp ho with rfl | ho
        · exact absurd hcloses (by simp [Obs.closes])
        · exact absurd ⟨o, ho, hcloses⟩ hnone
      · refine List.pairwise_cons.mpr ⟨fun o ho hcloses => ?_, hs.honoured⟩
        exact absurd ⟨o, ho, hcloses⟩ hnone
    | false =>
      rw [if_neg Bool.false_ne_true]
      refine ⟨hs.mode, fun _ => hflag, List.pairwise_cons.mpr ⟨fun _ _ _ => rfl, hs.honoured⟩⟩

theorem attemptRequest (s : Session) : KeepsClose settings s (s.attemptRequest settings).2 := by
  cases hconsumed : (parseBytes settings s.readBuffer.unread s.req s.keepAlive).consumed with
  | none =>
    rw [Session.attemptRequest_of_none hconsumed]
    refine ⟨List.suffix_cons _ _, fun hcalm hs => ?_⟩
    refine ⟨hs.mode, ?_, List.pairwise_cons.mpr ⟨fun _ _ _ => rfl, hs.honoured⟩⟩
    rintro ⟨o, ho, hcloses⟩
    rcases List.mem_cons.mp ho with rfl | ho
    · exact absurd hcloses (by simp [Obs.closes])
    · have hoff := hs.flag ⟨o, ho, hcloses⟩
      have hharmless := (hcalm.1 ⟨o, ho, hcloses⟩ s.req).2
      rw [← hoff] at hharmless
      exact hharmless.trans hoff
  | some n =>
    rw [Session.attemptRequest_of_some hconsumed]
    refine ⟨⟨[_, _], rfl⟩, fun hcalm hs => ?_⟩
    -- an accepted request is not harmless, so no close has been announced
    have hnone : ¬ ∃ o ∈ s.log, o.closes = true := by
      intro howes
      have hharmless := (hcalm.2.1 howes s.req).1
      rw [← hs.flag howes, hconsumed] at hharmless
      exact absurd hharmless (by simp)
    have hcloses : ∀ o, o ∈ Obs.attempt s.readBuffer.unread :: s.log → o.closes = false := by
      intro o ho
      rcases List.mem_cons.mp ho with rfl | ho
      · rfl
      · exact Bool.eq_false_iff.mpr fun h => hnone ⟨o, ho, h⟩
    refine ⟨hs.mode, ?_, ?_⟩
    · rintro ⟨o, ho, ho'⟩
      rcases List.mem_cons.mp ho with rfl | ho
      · exact absurd ho' (by simp [Obs.closes])
      · exact absurd ((hcloses o ho).symm.trans ho') (by decide)
    · refine List.pairwise_cons.mpr ⟨fun o ho ho' => ?_, List.pairwise_cons.mpr
        ⟨fun _ _ _ => rfl, hs.honoured⟩⟩
      exact absurd ((hcloses o ho).symm.trans ho') (by decide)

end KeepsClose

theorem Obs.breaches_of_isAnswer {o : Obs} (h : o.isAnswer = true) : o.breaches = false := by
  cases o <;> first | rfl | simp [Obs.isAnswer] at h

/-- A handler that announces no close on its own queues no closing response. -/
theorem noClose_responseCalls (r : HttpResponse) (s : Session) (calls : List ResponseCall)
    (h : ¬ WritesClose r calls) :
    NewEntries (fun o => o.closes = false) s (Session.responseCalls r s calls).2 := by
  induction calls generalizing r s with
  | nil => exact NewEntries.of_log_eq rfl
  | cons c cs ih =>
    have htail : ¬ WritesClose (r.apply c) cs := by
      rintro ⟨before, body, after, rfl, hclose⟩
      exact h ⟨c :: before, body, after, rfl, hclose⟩
    have hfst : (Session.responseCall r s c).1 = r.apply c := by cases c <;> rfl
    rw [← hfst] at htail
    have hcall : NewEntries (fun o => o.closes = false) s (Session.responseCall r s c).2 := by
      cases c with
      | setBody body =>
        have hopen : r.carriesClose = false :=
          Bool.eq_false_iff.mpr fun hclose => h ⟨[], body, cs, rfl, hclose⟩
        exact NewEntries.of_cons rfl hopen
      | _ => exact NewEntries.of_log_eq rfl
    exact hcall.trans (ih _ _ htail)

theorem noClose_runHandler (r : HttpResponse) (s : Session) (ran : HandlerRun)
    (h : ¬ WritesClose r ran.calls) :
    NewEntries (fun o => o.closes = false) s (s.runHandler r ran).2 := by
  have hran : NewEntries (fun o => o.closes = false) s
      (s.note (.handlerRan s.keepAlive ran)) := NewEntries.of_cons rfl rfl
  refine (hran.trans (noClose_responseCalls r _ ran.calls h)).trans ?_
  exact NewEntries.of_cons rfl rfl

theorem keepAlive_respondError (server : Server) (s : Session) (r : HttpResponse) (what : Bytes) :
    (s.respondError server r what).keepAlive = false := by
  unfold Session.respondError
  dsimp only
  split
  · rfl
  · rename_i hoff
    exact Bool.eq_false_iff.mpr hoff

/-- A calm answer on a connection that is kept alive closes nothing, or it turns the
flag off. -/
theorem routeRequest_closes (server : Server) (s : Session) (hflag : s.keepAlive = true)
    (hcalm : Calm server.settings (s.routeRequest server (Session.openResponse true)).log) :
    NewEntries (fun o => o.closes = false) s (s.routeRequest server (Session.openResponse true)) ∨
      (s.routeRequest server (Session.openResponse true)).keepAlive = false := by
  unfold Session.routeRequest Session.execEndpoint at hcalm ⊢
  dsimp only at hcalm ⊢
  cases hroute : server.endpoints.getEndpoint s.req.data.method s.req.data.path with
  | none => exact Or.inl (NewEntries.of_cons rfl (by decide))
  | some endpoint =>
    rw [hroute] at hcalm
    dsimp only at hcalm ⊢
    cases hthrown : (endpoint.exec s.moment s.req).thrown with
    | some what => exact Or.inr (keepAlive_respondError server _ _ what)
    | none =>
      rw [hthrown] at hcalm
      refine Or.inl (noClose_runHandler _ s _ ?_)
      have hran : Obs.handlerRan true (endpoint.exec s.moment s.req) ∈
          (s.runHandler (Session.openResponse true) (endpoint.exec s.moment s.req)).2.log := by
        have hsuffix := (Handles.answerRelation server).responseCalls (Session.openResponse true)
          (s.note (.handlerRan s.keepAlive (endpoint.exec s.moment s.req)))
          (endpoint.exec s.moment s.req).calls
        refine List.mem_cons_of_mem _ (hsuffix.log_suffix.subset ?_)
        rw [hflag]
        exact List.mem_cons_self ..
      obtain ⟨older, hat⟩ := hcalm.at_mem hran
      exact hat hthrown

theorem KeepsClose.handleRequest (server : Server) (s : Session) :
    KeepsClose server.settings s (s.handleRequest server) := by
  have hanswers := Answers.handleRequest server s
  obtain ⟨new, hlog, hnew⟩ := hanswers.entries
  refine ⟨⟨new, hlog.symm⟩, fun hcalm hs => ⟨hanswers.mode_eq.trans hs.mode, ?_, ?_⟩⟩
  · cases hflag : s.keepAlive with
    | false =>
      intro _
      exact hanswers.flag.elim (fun h => h.trans hflag) id
    | true =>
      have hnone : ∀ o ∈ s.log, o.closes = false := fun o ho =>
        Bool.eq_false_iff.mpr fun h => by
          have hoff := hs.flag ⟨o, ho, h⟩
          rw [hflag] at hoff
          exact absurd hoff (by decide)
      have hopen : NewEntries (fun o => o.closes = false) s (s.handleRequest server) ∨
          (s.handleRequest server).keepAlive = false := by
        revert hcalm
        unfold Session.handleRequest Session.handleRequestWith
        split
        · rw [upgradeToWebSocket_eq]
          split
          · exact fun _ => Or.inl (NewEntries.of_log_eq rfl)
          · exact fun _ => Or.inr (Session.keepAlive_setClosingIfIoUring server _)
        · exact routeRequest_closes server s hflag
      rcases hopen with ⟨new', hlog', hnew'⟩ | hoff
      · rintro ⟨o, ho, hcloses⟩
        rw [hlog'] at ho
        have hopen := (List.mem_append.mp ho).elim (hnew' o) (hnone o)
        rw [hopen] at hcloses
        exact absurd hcloses (by decide)
      · exact fun _ => hoff
  · rw [Honoured, hlog, List.pairwise_append]
    have hquiet : ∀ o ∈ new, o.breaches = false := fun o ho => Obs.breaches_of_isAnswer (hnew o ho)
    exact ⟨List.pairwise_of_forall_mem_list fun a ha b _ _ => hquiet a ha, hs.honoured,
      fun a ha b _ _ => hquiet a ha⟩

theorem KeepsClose.epollRelation (server : Server) :
    EpollRelation server (KeepsClose server.settings) where
  refl := KeepsClose.refl
  trans := KeepsClose.trans
  close := fun s => KeepsClose.of_log_eq rfl rfl (Or.inl rfl)
  giveUp := fun s => KeepsClose.of_log_eq rfl rfl (Or.inr rfl)
  receive := fun s bytes => KeepsClose.of_log_eq rfl rfl (Or.inl rfl)
  input := by
    intro s alive t hinput
    unfold Session.processInput at hinput
    split at hinput
    · simp only [Option.map_eq_some_iff, Prod.mk.injEq] at hinput
      obtain ⟨t', hdrain, -, rfl⟩ := hinput
      exact parseLoop_relates (KeepsClose server.settings) KeepsClose.trans
        KeepsClose.attemptRequest (KeepsClose.handleRequest server) _ s t' hdrain
    · rename_i hmode
      have hsuffix := (Handles.processFramesLoop server.settings _ s t alive hinput).log_suffix
      refine ⟨hsuffix, fun _ hs => ?_⟩
      rw [hs.mode] at hmode
      exact absurd hmode (by decide)
  sent := fun s n => KeepsClose.of_log_eq rfl rfl (Or.inl rfl)
  complete := KeepsClose.onWriteComplete

/-- In every calm run of an HTTP session, whatever state it starts in, the announced
close is honoured in every state that is reached. -/
theorem close_honoured_of_calm (server : Server) (s t : Session) (es : List EpollEvent)
    (hmode : s.mode = .http) (hstart : s.log = [])
    (hrun : Runs.run (epollStep server) s es = some t) (hcalm : Calm server.settings t.log) :
    Honoured t.log := by
  have hkept : CloseKept s := by
    refine ⟨hmode, fun howes => ?_, hstart ▸ List.Pairwise.nil⟩
    obtain ⟨o, ho, -⟩ := howes
    rw [hstart] at ho
    exact absurd ho List.not_mem_nil
  exact (((KeepsClose.epollRelation server).run es s t hrun).kept hcalm hkept).honoured

/-- The bytes do not get to a request line, or no request is accepted and the last line
that decides about the flag turns it off again. -/
theorem harmless_iff (settings : SettingsData) (unread : Bytes) :
    Harmless settings unread ↔ startLine unread = none ∨
      (∀ req, (parseBytes settings unread req false).consumed = none) ∧
        ((takenLines settings unread).filterMap connectionChoice).getLast? = some false := by
  cases hstart : startLine unread with
  | none =>
    refine ⟨fun _ => Or.inl rfl, fun _ req => ?_⟩
    rw [parseBytes_of_startLine_none hstart]
    exact ⟨rfl, rfl⟩
  | some line =>
    have hflag : ∀ req, (parseBytes settings unread req false).keepAlive = false ↔
        ((takenLines settings unread).filterMap connectionChoice).getLast? = some false := by
      intro req
      rw [(parseBytes_of_startLine settings hstart req false).1, keepAlive_foldl]
      cases ((takenLines settings unread).filterMap connectionChoice).getLast? with
      | none => simp
      | some choice => simp
    constructor
    · exact fun h => Or.inr ⟨fun req => (h req).1, (hflag HttpRequest.init).mp (h _).2⟩
    · intro h req
      obtain ⟨hnone, hoff⟩ := h.resolve_left (by simp)
      exact ⟨hnone req, (hflag req).mpr hoff⟩

theorem harmless_of_short (settings : SettingsData) (unread : Bytes)
    (h : unread.length < minRequestSize) : Harmless settings unread :=
  (harmless_iff settings unread).mpr (Or.inl (if_pos h))

def Obs.minor : Obs → Bool
  | .attempt unread => unread.length < minRequestSize
  | .handlerRan _ _ => false
  | _ => true

/-- When only minor things happen behind a closing response the log is calm. -/
theorem calm_of_minor (settings : SettingsData) (log : List Obs)
    (hminor : log.Pairwise fun newer older => older.closes = true → newer.minor = true)
    (hran : ∀ o ∈ log, ∀ ran, o ≠ .handlerRan true ran) : Calm settings log := by
  induction log with
  | nil => trivial
  | cons o log ih =>
    obtain ⟨ho, hlog⟩ := List.pairwise_cons.mp hminor
    refine ⟨?_, ih hlog fun p hp => hran p (List.mem_cons_of_mem _ hp)⟩
    cases o with
    | attempt unread =>
      rintro ⟨p, hp, hcloses⟩
      exact harmless_of_short settings unread (by simpa [Obs.minor] using ho p hp hcloses)
    | handlerRan keepAlive ran =>
      cases keepAlive with
      | true => exact absurd rfl (hran _ (List.mem_cons_self ..) ran)
      | false => trivial
    | _ => trivial

def closingRequest : Bytes := ascii "GET /a HTTP/1.1\r\nConnection: close\r\n\r\n"

def secondRequest : Bytes := ascii "GET /b HTTP/1.1\r\n\r\n"

def calmEvents : List EpollEvent :=
  [⟨true, false, [.data closingRequest], [.sent 60, .wouldBlock]⟩,
    ⟨false, true, [], [.sent 50]⟩]

def freshSession : Session := Session.init configJson 0 5

theorem single_request_close_honoured :
    ∃ t, Runs.run (epollStep (bareServer .epoll)) freshSession calmEvents = some t ∧
      t.isOpen = false ∧ Honoured t.log := by
  have hsome :
      (Runs.run (epollStep (bareServer .epoll)) freshSession calmEvents).isSome = true := by
    decide +kernel
  obtain ⟨t, ht⟩ := Option.isSome_iff_exists.mp hsome
  have hchecks : ((Runs.run (epollStep (bareServer .epoll)) freshSession calmEvents).map fun t =>
      (t.isOpen, decide (t.log.Pairwise fun newer older =>
        older.closes = true → newer.minor = true),
      t.log.all fun o => match o with | .handlerRan _ _ => false | _ => true)) =
      some (false, true, true) := by decide +kernel
  rw [ht] at hchecks
  simp only [Option.map_some, Option.some.injEq, Prod.mk.injEq, decide_eq_true_eq,
    List.all_eq_true] at hchecks
  obtain ⟨hclosed, hminor, hran⟩ := hchecks
  refine ⟨t, ht, hclosed, close_honoured_of_calm (bareServer .epoll) freshSession t calmEvents rfl
    rfl ht (calm_of_minor _ t.log hminor fun o ho ran heq => ?_)⟩
  have h := hran o ho
  simp [heq] at h

/-- The second of two pipelined requests is handled although the first one has been
answered with a close, and the socket stays open. -/
theorem pipelined_request_after_close :
    ∃ t, Runs.run (epollStep (bareServer .epoll)) freshSession
          [⟨true, false, [.data (closingRequest ++ secondRequest), .wouldBlock], [.sent 225]⟩] =
        some t ∧
      t.isOpen = true ∧ ¬ Honoured t.log := by
  have hchecks : ((Runs.run (epollStep (bareServer .epoll)) freshSession
      [⟨true, false, [.data (closingRequest ++ secondRequest), .wouldBlock], [.sent 225]⟩]).map
        fun t => (t.isOpen, decide (Honoured t.log))) = some (true, false) := by decide +kernel
  rw [Option.map_eq_some_iff] at hchecks
  obtain ⟨t, ht, hopen⟩ := hchecks
  simp only [Prod.mk.injEq, decide_eq_false_iff_not] at hopen
  exact ⟨t, ht, hopen⟩

end WarpApi

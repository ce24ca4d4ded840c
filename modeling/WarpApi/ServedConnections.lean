import WarpApi.ServedStreams
import WarpApi.SessionRules
import WarpApi.EdgeTriggered
import WarpApi.SendOrder
import WarpApi.Services

/-!
Whole runs of both event loops, seen from the clients. Each connection is sent a stream of
requests without headers that would leave their array. However it is cut into chunks,
whatever part of an answer the socket takes at a time and whatever the other connections
do, the client reads the answers to its own requests in their order.
-/
namespace WarpApi

/-- Being served is kept by both loops, while the chunks are those of the client. -/
theorem inService_rule {server : Server} {rs : List (CompleteRequest server.settings)} {bit : ℕ}
    (hbit : upgradeMask.testBit bit = true) (hrs : ∀ r ∈ rs, r.SelfContained server bit)
    (hmin : ∀ r ∈ rs, minRequestSize ≤ r.bytes.length) :
    SessionRule server (Delivers server rs) (InService server bit rs) where
  start self socket := inService_init server rs self socket hmin
  untouched _ _ h hs := hs.of_eq h.mode_eq h.readBuffer_eq h.written_eq h.req_eq
  feeds_setReading _ _ h := ⟨h.continues, h.settled, h.room⟩
  input s chunk alive t hs hchunk hfits hinput := by
    obtain ⟨u, hu, hserved, -⟩ := hs.input hbit hrs hmin hchunk hfits
    obtain ⟨-, rfl⟩ := Prod.mk.inj (Option.some.inj (hu.symm.trans hinput))
    exact hserved

theorem testBit_upgradeMask : upgradeMask.testBit 10 = true := by decide

/-- The same where no header has a bit of the mask: no write leaves the session either. -/
theorem inServiceConfined_rule {server : Server} (hserver : server.Confined)
    {rs : List (CompleteRequest server.settings)} {bit : ℕ}
    (hbit : upgradeMask.testBit bit = true)
    (hrs : ∀ r ∈ rs, ∀ bit, upgradeMask.testBit bit = true → r.SelfContained server bit)
    (hmin : ∀ r ∈ rs, minRequestSize ≤ r.bytes.length) :
    SessionRule server (Delivers server rs) fun s =>
      InService server bit rs s ∧ s.mode = .http ∧ s.Confined := by
  refine (inService_rule hbit (fun r hr => hrs r hr bit hbit) hmin).and (confined_rule hserver)
    fun s chunk hs hchunk => hs.receivesConfined (fun r hr line hline => ?_) hmin hchunk
  exact hasSlot_of_unmarked fun bit hbit => (hrs r hr bit hbit).unmarked line hline

/-- The chunks that the recvs of a conversation bring are those of its client. -/
def Conversation.Fed (server : Server) (rs : List (CompleteRequest server.settings))
    (c : Conversation) (call : SysCall) : Prop :=
  ∀ chunk, call = .recv (.data chunk) → Delivers server rs c.session chunk

theorem inService_of_run {server : Server} {rs : List (CompleteRequest server.settings)} {bit : ℕ}
    (hbit : upgradeMask.testBit bit = true) (hrs : ∀ r ∈ rs, r.SelfContained server bit)
    (hmin : ∀ r ∈ rs, minRequestSize ≤ r.bytes.length) {self : SessionId} {socket : ℤ}
    {calls : List SysCall} {c : Conversation}
    (hfed : Runs.Guarded (Conversation.step server) (Conversation.Fed server rs)
      (Conversation.start (Session.init server.settings self socket)) calls)
    (hrun : Runs.run (Conversation.step server)
      (Conversation.start (Session.init server.settings self socket)) calls = some c) :
    InService server bit rs c.session ∧ WireExact c := by
  refine ⟨?_, ?_⟩
  · exact (inService_rule hbit hrs hmin).conversation hfed hrun
  · exact Runs.invariant_of_reachable (I := WireExact) (fun c call c' h hstep => h.step hstep)
      (show WireExact (Conversation.start _) from rfl) ⟨calls, hrun⟩

theorem WireExact.append_unread {c : Conversation} (h : WireExact c) :
    c.wire ++ c.session.writeBuffer.unread = c.session.writeBuffer.written := by
  rw [h, BoundedQueue.unread, List.take_append_drop]

/-- A connection of the epoll loop: what the socket has taken and what waits in the write
buffer are together the answers to the requests received so far, and all of them have been
taken when the session waits for input and no send was turned away. -/
theorem epoll_serves (server : Server) (rs : List (CompleteRequest server.settings))
    {bit : ℕ} (hbit : upgradeMask.testBit bit = true)
    (hrs : ∀ r ∈ rs, r.SelfContained server bit) (hmin : ∀ r ∈ rs, minRequestSize ≤ r.bytes.length)
    (self : SessionId) (socket : ℤ) (calls : List SysCall) (c : Conversation)
    (hfed : Runs.Guarded (Conversation.step server) (Conversation.Fed server rs)
      (Conversation.start (Session.init server.settings self socket)) calls)
    (hrun : Runs.run (Conversation.step server)
      (Conversation.start (Session.init server.settings self socket)) calls = some c) :
    ∃ done left rest, Cut CompleteRequest.bytes rs c.session.readBuffer.written done left rest ∧
      c.session.readBuffer.unread = rest ∧
      c.wire ++ c.session.writeBuffer.unread = done.flatMap (CompleteRequest.answer server) ∧
      (c.phase = .idle → c.session.isOpen = true → c.lastSend ≠ some .wouldBlock →
        c.wire = done.flatMap (CompleteRequest.answer server)) := by
  obtain ⟨hserved, hexact⟩ := inService_of_run hbit hrs hmin hfed hrun
  have hkept : EdgeKept c :=
    Runs.invariant_of_reachable (I := EdgeKept) (fun c call c' h hstep => h.step hstep)
      (EdgeKept.start _ rfl) ⟨calls, hrun⟩
  obtain ⟨done, left, rest, hcut, hdone⟩ := hserved
  have hall : c.wire ++ c.session.writeBuffer.unread =
      done.flatMap (CompleteRequest.answer server) := by
    rw [hexact.append_unread, hdone.written]
  refine ⟨done, left, rest, hcut, hdone.unread, hall, fun hidle hopen hsend => ?_⟩
  have hsize : c.session.writeBuffer.size = 0 := by
    by_contra hpos
    exact hsend (hkept.blocked (Or.inl hidle) hopen (Nat.pos_of_ne_zero hpos))
  rw [← hall, (BoundedQueue.size_eq_zero_iff _).mp hsize, List.append_nil]

theorem Conversation.exists_sendAll (server : Server) {c : Conversation} (h : WireExact c)
    (hphase : c.phase = .flushing ∨ c.phase = .writing) (hsize : c.session.writeBuffer.size ≠ 0) :
    ∃ c', c.step server (.send (.sent c.session.writeBuffer.size)) = some c' ∧
      c'.wire = c.session.writeBuffer.written := by
  generalize hn : c.session.writeBuffer.size = n
  have hempty : (c.accept n).session.writeBuffer.size = 0 := by
    show (c.session.writeBuffer.advance n).size = 0
    rw [BoundedQueue.size_advance, hn, Nat.sub_self]
  refine ⟨(c.accept n).returnWrite (c.accept n).session.onWriteComplete, ?_, ?_⟩
  · rw [Conversation.step, if_pos hphase, Conversation.send,
      if_pos ⟨Nat.pos_of_ne_zero (hn ▸ hsize), hn.ge⟩]
    dsimp only
    rw [if_pos hempty]
  · rw [((c.accept n).writeBuffer_returnWrite _).1, ← h.append_unread]
    show c.wire ++ c.session.writeBuffer.unread.take n = _
    rw [List.take_of_length_le (by rw [BoundedQueue.length_unread, hn])]

/-- What is queued between two events can be sent with the next one. -/
theorem Conversation.exists_drained (server : Server) {c : Conversation} (h : WireExact c)
    (hidle : c.phase = .idle) (hopen : c.session.isOpen = true) :
    ∃ calls c', Runs.run (step server) c calls = some c' ∧
      c'.wire = c.session.writeBuffer.written := by
  by_cases hsize : c.session.writeBuffer.size = 0
  · refine ⟨[], c, rfl, ?_⟩
    rw [← h.append_unread, (BoundedQueue.size_eq_zero_iff _).mp hsize, List.append_nil]
  · have hwritable : c.step server .writable = some { c with phase := .writing } := by
      rw [step, if_pos hidle, if_neg hsize, hopen]
      rfl
    obtain ⟨c', hsend, hwire⟩ := exists_sendAll server
      (show WireExact { c with phase := .writing } from h) (Or.inr rfl) hsize
    refine ⟨[.writable, .send (.sent c.session.writeBuffer.size)], c', ?_, hwire⟩
    exact (Runs.run_cons_eq_some ..).mpr ⟨_, hwritable, (Runs.run_cons_eq_some ..).mpr
      ⟨c', hsend, rfl⟩⟩

theorem Conversation.exists_flushed (server : Server) {c : Conversation} {t : Session}
    (h : WireExact { c with session := t }) :
    ∃ calls c', Runs.run (step server) (c.flushNext t) calls = some c' ∧
      c'.wire = t.writeBuffer.written := by
  by_cases hsize : t.writeBuffer.size = 0
  · refine ⟨[], _, rfl, ?_⟩
    rw [(c.writeBuffer_flushNext t).1, ← h.append_unread,
      (BoundedQueue.size_eq_zero_iff _).mp hsize, List.append_nil]
  · obtain ⟨c', hsend, hwire⟩ := exists_sendAll server
      (show WireExact { c with phase := .flushing, session := t } from h) (Or.inl rfl) hsize
    refine ⟨[.send (.sent t.writeBuffer.size)], c', ?_, hwire⟩
    rw [flushNext, if_neg hsize]
    exact (Runs.run_cons_eq_some ..).mpr ⟨c', hsend, rfl⟩

/-- No conversation gets stuck: while the socket is open, the rest of the requests, where
there is room for it and for the answers, can be received and everything be sent. -/
theorem epoll_finishes (server : Server) (rs : List (CompleteRequest server.settings))
    {bit : ℕ} (hbit : upgradeMask.testBit bit = true)
    (hrs : ∀ r ∈ rs, r.SelfContained server bit) (hmin : ∀ r ∈ rs, minRequestSize ≤ r.bytes.length)
    (self : SessionId) (socket : ℤ) (calls : List SysCall) (c : Conversation)
    (hfed : Runs.Guarded (Conversation.step server) (Conversation.Fed server rs)
      (Conversation.start (Session.init server.settings self socket)) calls)
    (hrun : Runs.run (Conversation.step server)
      (Conversation.start (Session.init server.settings self socket)) calls = some c)
    (hidle : c.phase = .idle) (hopen : c.session.isOpen = true)
    (hfits : (rs.flatMap CompleteRequest.bytes).length ≤
      c.session.readBuffer.written.length + c.session.readBuffer.free)
    (hroom : (rs.flatMap (CompleteRequest.answer server)).length ≤
      c.session.writeBuffer.readPos + c.session.writeBuffer.capacity) :
    ∃ calls' c', Runs.run (Conversation.step server) c calls' = some c' ∧
      c'.wire = rs.flatMap (CompleteRequest.answer server) := by
  obtain ⟨hserved, hexact⟩ := inService_of_run hbit hrs hmin hfed hrun
  obtain ⟨chunk, hchunk⟩ := hserved.received
  by_cases hnil : chunk = []
  · -- everything is received, and only the queue is left
    rw [hnil, List.append_nil] at hchunk
    obtain ⟨calls', c', hrun', hwire⟩ := Conversation.exists_drained server hexact hidle hopen
    exact ⟨calls', c', hrun', hwire.trans (hserved.written_of_whole hchunk)⟩
  · have hlength := congrArg List.length hchunk
    rw [List.length_append] at hlength
    have hchunkFits : chunk.length ≤ c.session.readBuffer.free := by omega
    have hpos := List.length_pos_iff.mpr hnil
    have hdelivers : Delivers server rs c.session chunk := by
      apply Delivers.of_room
      · rw [hchunk]
      · rw [hchunk, ← List.append_nil (List.flatMap _ _)]
        exact not_premature_requests rs (by decide)
      · exact hroom
    obtain ⟨t, hinput, ht, hreceived⟩ := hserved.input hbit hrs hmin hdelivers hchunkFits
    have hhandles := Handles.processInput server _ t true hinput
    obtain ⟨calls', c', hrun', hwire⟩ := Conversation.exists_flushed server
      (show WireExact { c with phase := .reading, session := t } from
        WireExact.of_written hexact rfl hhandles.written hhandles.readPos_eq)
    have hreadable : c.step server .readable = some { c with phase := .reading } := by
      rw [Conversation.step, if_pos hidle, Conversation.readNext, if_neg (by omega), hopen]
      rfl
    have hbytes : ¬ (chunk = [] ∨ c.session.readBuffer.free < chunk.length) := by
      rintro (h | h)
      · exact hnil h
      · omega
    refine ⟨.readable :: .recv (.data chunk) :: calls', c', ?_,
      hwire.trans (ht.written_of_whole (hreceived.trans hchunk))⟩
    rw [Runs.run, hreadable, Option.bind_some,
      Conversation.run_recv_data { c with phase := .reading } rfl hbytes hinput calls']
    exact hrun'

def generalServiceOn (backend : Backend) : Server := { generalServer with backend := backend }

def hiPost : PlainRequest configJson := benchmarkPost (ascii "hi") (by decide)

theorem hiPost_ok : HttpRequest.parseMethod hiPost.method = .post ∧
    hiPost.path = ascii "/apibenchmark" := ⟨by decide, rfl⟩

theorem hiPost_body_ne : hiPost.body ≠ [] := by decide

theorem length_hiPost : hiPost.bytes.length < 2 ^ 64 := by decide +kernel

def postHi (backend : Backend) : CompleteRequest (generalServiceOn backend).settings :=
  hiPost.complete length_hiPost

theorem selfContained_postHi (backend : Backend) (bit : ℕ)
    (hbit : upgradeMask.testBit bit = true) :
    (postHi backend).SelfContained (generalServiceOn backend) bit :=
  @PlainRequest.selfContained_echo (generalServiceOn backend) (ascii "/apibenchmark") .post hiPost
    bit hbit rfl hiPost_ok hiPost_body_ne length_hiPost

theorem confined_generalServiceOn (backend : Backend) : (generalServiceOn backend).Confined :=
  confined_generalServices ⟨ascii "{}", fun _ => .error (ascii "no JSON"), ascii "{}", ascii "{}"⟩
    _ (Prod.ext rfl rfl)

theorem answer_postHi (backend : Backend) :
    (postHi backend).answer (generalServiceOn backend) =
      (Session.openResponse true).serialise (ascii "hi") :=
  @PlainRequest.answer_echo (generalServiceOn backend) (ascii "/apibenchmark") .post hiPost
    rfl hiPost_ok hiPost_body_ne length_hiPost

theorem length_answerHi : ((Session.openResponse true).serialise (ascii "hi")).length = 90 := by
  decide +kernel

theorem delivers_postHi (backend : Backend) {s : Session} {chunk : Bytes}
    (hreceived : s.readBuffer.written ++ chunk = (postHi backend).bytes.take 14 ∨
      s.readBuffer.written ++ chunk = (postHi backend).bytes)
    (hroom : 90 ≤ s.writeBuffer.readPos + s.writeBuffer.capacity) :
    Delivers (generalServiceOn backend) [postHi backend] s chunk := by
  have hstream : [postHi backend].flatMap CompleteRequest.bytes = (postHi backend).bytes :=
    List.flatMap_singleton _ _
  apply Delivers.of_room
  · rw [hstream]
    rcases hreceived with heq | heq
    · rw [heq]
      exact List.take_prefix _ _
    · rw [heq]
  · rcases hreceived with heq | heq
    · rw [heq, ← List.nil_append (List.take _ _)]
      exact not_premature_requests [] (lt_of_le_of_lt (List.length_take_le _ _) (by decide))
    · rw [heq, ← hstream, ← List.append_nil (List.flatMap _ _)]
      exact not_premature_requests _ (by decide)
  · rw [List.flatMap_singleton, answer_postHi, length_answerHi]
    exact hroom

def cutPost : List SysCall :=
  [.readable, .recv (.data ((postHi .epoll).bytes.take 14)),
    .recv (.data ((postHi .epoll).bytes.drop 14)), .send (.sent 10), .send .wouldBlock, .writable,
    .send (.sent 80)]

theorem cutPost_reads : (∀ c, Runs.run (Conversation.step (generalServiceOn .epoll))
      (Conversation.start (Session.init configJson 0 5)) (cutPost.take 1) = some c →
        c.session.readBuffer.written = [] ∧
          90 ≤ c.session.writeBuffer.readPos + c.session.writeBuffer.capacity) ∧
    ∀ c, Runs.run (Conversation.step (generalServiceOn .epoll))
      (Conversation.start (Session.init configJson 0 5)) (cutPost.take 2) = some c →
        c.session.readBuffer.written = (postHi .epoll).bytes.take 14 ∧
          90 ≤ c.session.writeBuffer.readPos + c.session.writeBuffer.capacity := by
  decide +kernel

theorem fed_cutPost : Runs.Guarded (Conversation.step (generalServiceOn .epoll))
    (Conversation.Fed (generalServiceOn .epoll) [postHi .epoll])
    (Conversation.start (Session.init configJson 0 5)) cutPost := by
  refine ⟨fun chunk h => by simp at h, fun c₁ h₁ => ⟨fun chunk h => ?_, fun c₂ h₂ =>
    ⟨fun chunk h => ?_, fun c₃ _ => Runs.guarded_of_forall (fun call hcall c chunk h => ?_) c₃⟩⟩⟩
  · obtain ⟨hwritten, hroom⟩ := cutPost_reads.1 c₁
      ((Runs.run_cons_eq_some _ _ _ _).mpr ⟨c₁, h₁, rfl⟩)
    obtain rfl := RecvResult.data.inj (SysCall.recv.inj h)
    exact delivers_postHi .epoll (Or.inl (by rw [hwritten, List.nil_append])) hroom
  · obtain ⟨hwritten, hroom⟩ := cutPost_reads.2 c₂ ((Runs.run_cons_eq_some _ _ _ _).mpr
      ⟨c₁, h₁, (Runs.run_cons_eq_some _ _ _ _).mpr ⟨c₂, h₂, rfl⟩⟩)
    obtain rfl := RecvResult.data.inj (SysCall.recv.inj h)
    exact delivers_postHi .epoll (Or.inr (by rw [hwritten, List.take_append_drop])) hroom
  · subst h
    simp at hcall

theorem epoll_serves_cutPost :
    ∃ c, Runs.run (Conversation.step (generalServiceOn .epoll))
        (Conversation.start (Session.init configJson 0 5)) cutPost = some c ∧
      (c.phase = .idle ∧ c.wire.length = 90) ∧ ∃ done left rest,
        Cut CompleteRequest.bytes [postHi .epoll] c.session.readBuffer.written done left rest ∧
          c.session.readBuffer.unread = rest ∧
          c.wire ++ c.session.writeBuffer.unread =
            done.flatMap (CompleteRequest.answer (generalServiceOn .epoll)) ∧
          (c.phase = .idle → c.session.isOpen = true → c.lastSend ≠ some .wouldBlock →
            c.wire = done.flatMap (CompleteRequest.answer (generalServiceOn .epoll))) := by
  have hsome : ((Runs.run (Conversation.step (generalServiceOn .epoll))
      (Conversation.start (Session.init configJson 0 5)) cutPost).map fun c =>
        (c.phase, c.wire.length)) = some (.idle, 90) := by decide +kernel
  obtain ⟨c, hrun, hc⟩ := Option.map_eq_some_iff.mp hsome
  refine ⟨c, hrun, Prod.mk.inj hc, ?_⟩
  exact epoll_serves (generalServiceOn .epoll) [postHi .epoll] testBit_upgradeMask
    (List.forall_mem_singleton.mpr (selfContained_postHi .epoll 10 testBit_upgradeMask))
    (by decide +kernel) 0 5 cutPost c fed_cutPost hrun

def halfPost : List SysCall :=
  [.readable, .recv (.data ((postHi .epoll).bytes.take 14)), .recv .wouldBlock]

theorem fed_halfPost : Runs.Guarded (Conversation.step (generalServiceOn .epoll))
    (Conversation.Fed (generalServiceOn .epoll) [postHi .epoll])
    (Conversation.start (Session.init configJson 0 5)) halfPost := by
  refine ⟨fun chunk h => by simp at h, fun c₁ h₁ => ⟨fun chunk h => ?_, fun c₂ _ =>
    Runs.guarded_of_forall (fun call hcall c chunk h => ?_) c₂⟩⟩
  · obtain ⟨hwritten, hroom⟩ := cutPost_reads.1 c₁
      ((Runs.run_cons_eq_some _ _ _ _).mpr ⟨c₁, h₁, rfl⟩)
    obtain rfl := RecvResult.data.inj (SysCall.recv.inj h)
    exact delivers_postHi .epoll (Or.inl (by rw [hwritten, List.nil_append])) hroom
  · subst h
    simp at hcall

theorem epoll_finishes_halfPost :
    ∃ c, Runs.run (Conversation.step (generalServiceOn .epoll))
        (Conversation.start (Session.init configJson 0 5)) halfPost = some c ∧ c.wire = [] ∧
      ∃ calls' c', Runs.run (Conversation.step (generalServiceOn .epoll)) c calls' = some c' ∧
        c'.wire = (Session.openResponse true).serialise (ascii "hi") := by
  have hsome : ((Runs.run (Conversation.step (generalServiceOn .epoll))
      (Conversation.start (Session.init configJson 0 5)) halfPost).map fun c =>
        (c.wire, c.phase, c.session.isOpen,
          decide (52 ≤ c.session.readBuffer.written.length + c.session.readBuffer.free),
          decide (90 ≤ c.session.writeBuffer.readPos + c.session.writeBuffer.capacity))) =
      some ([], .idle, true, true, true) := by decide +kernel
  obtain ⟨c, hrun, hc⟩ := Option.map_eq_some_iff.mp hsome
  simp only [Prod.mk.injEq, decide_eq_true_eq] at hc
  obtain ⟨hwire, hidle, hopen, hfits, hroom⟩ := hc
  obtain ⟨calls', c', hrun', hall⟩ := epoll_finishes (generalServiceOn .epoll) [postHi .epoll]
    testBit_upgradeMask
    (List.forall_mem_singleton.mpr (selfContained_postHi .epoll 10 testBit_upgradeMask))
    (by decide +kernel) 0 5 halfPost c fed_halfPost hrun hidle hopen hfits (by
      rw [List.flatMap_singleton, answer_postHi, length_answerHi]
      exact hroom)
  refine ⟨c, hrun, hwire, calls', c', hrun', ?_⟩
  rw [hall, List.flatMap_singleton, answer_postHi]

/-- All connections of an epoll worker, while descriptors and pool places are used again and
no header leaves its array: what a session in use has written, of which its socket has taken
the beginning, is the answers to those requests of its own client that have been received. -/
theorem epoll_worker_serves (server : Server) (hserver : server.Confined)
    (streams : SessionId → List (CompleteRequest server.settings))
    (hstreams : ∀ id, ∀ r ∈ streams id, ∀ bit, upgradeMask.testBit bit = true →
      r.SelfContained server bit)
    (hmin : ∀ id, ∀ r ∈ streams id, minRequestSize ≤ r.bytes.length) (es : List LoopEvent)
    (w : EpollWorker)
    (hfed : ∀ id, Runs.Guarded (connectionStep server id)
      (ConnectionFed server (Delivers server (streams id))) none
      (SideBySide.labelsOf id (EpollWorker.actsOf server es)))
    (hrun : Runs.run (EpollWorker.step server) EpollWorker.init es = some w) (a : Slot)
    (s : Session) (huse : w.inUse a = true) (hmemory : w.memory a = some s) :
    s.Confined ∧ ∃ done left rest,
      Cut CompleteRequest.bytes (streams s.self) s.readBuffer.written done left rest ∧
        s.readBuffer.unread = rest ∧
        s.writeBuffer.written = done.flatMap (CompleteRequest.answer server) := by
  obtain ⟨⟨done, left, rest, hcut, hdone⟩, -, hconfined⟩ := EpollWorker.rule
    (fun id => inServiceConfined_rule hserver testBit_upgradeMask (hstreams id) (hmin id)) hfed
    hrun huse hmemory
  exact ⟨hconfined, done, left, rest, hcut, hdone.unread, hdone.written⟩

def postEvent : EpollEvent :=
  ⟨true, false, [.data ((postHi .epoll).bytes.take 14), .data ((postHi .epoll).bytes.drop 14),
    .wouldBlock], [.sent 90]⟩

theorem postEvent_deliveries :
    ∀ d ∈ postEvent.deliveries (generalServiceOn .epoll) (Session.init configJson 1 7),
      (d.1.readBuffer.written ++ d.2 = (postHi .epoll).bytes.take 14 ∨
        d.1.readBuffer.written ++ d.2 = (postHi .epoll).bytes) ∧
      90 ≤ d.1.writeBuffer.readPos + d.1.writeBuffer.capacity := by
  decide +kernel

def recycledPost : List LoopEvent := recycled ++ [.serve postEvent false 2000]

theorem fed_recycledPost (id : SessionId) :
    Runs.Guarded (connectionStep (generalServiceOn .epoll) id)
      (ConnectionFed (generalServiceOn .epoll) (Delivers (generalServiceOn .epoll)
        [postHi .epoll])) none
      (SideBySide.labelsOf id (EpollWorker.actsOf (generalServiceOn .epoll) recycledPost)) := by
  refine fed_recycled (by decide +kernel) (fun d hd => ?_) id
  obtain ⟨hreceived, hroom⟩ := postEvent_deliveries d hd
  exact delivers_postHi .epoll hreceived hroom

theorem epoll_worker_serves_recycledPost :
    ∃ w a s, Runs.run (EpollWorker.step (generalServiceOn .epoll)) EpollWorker.init recycledPost =
        some w ∧ w.inUse a = true ∧ w.memory a = some s ∧ s.self = 1 ∧
      s.writeBuffer.readPos = 90 ∧ ∃ done left rest,
        Cut CompleteRequest.bytes [postHi .epoll] s.readBuffer.written done left rest ∧
          s.readBuffer.unread = rest ∧
          s.writeBuffer.written =
            done.flatMap (CompleteRequest.answer (generalServiceOn .epoll)) := by
  have hchecks : ((Runs.run (EpollWorker.step (generalServiceOn .epoll)) EpollWorker.init
      recycledPost).bind fun w => (w.memory 1).map fun s =>
        (w.inUse 1, s.self, s.writeBuffer.readPos)) = some (true, 1, 90) := by decide +kernel
  obtain ⟨w, hrun, hw⟩ := Option.bind_eq_some_iff.mp hchecks
  obtain ⟨s, hmemory, hs⟩ := Option.map_eq_some_iff.mp hw
  simp only [Prod.mk.injEq] at hs
  refine ⟨w, 1, s, hrun, hs.1, hmemory, hs.2.1, hs.2.2, ?_⟩
  exact (epoll_worker_serves (generalServiceOn .epoll) (confined_generalServiceOn .epoll)
    (fun _ => [postHi .epoll])
    (fun _ => List.forall_mem_singleton.mpr (selfContained_postHi .epoll))
    (fun _ => by decide +kernel) recycledPost w fed_recycledPost hrun 1 s hs.1 hmemory).2

/-- The chunks that the active sessions receive are those of their clients. -/
def View.Fed (server : Server) (streams : SessionId → List (CompleteRequest server.settings)) :
    ViewGuard :=
  View.Feeds fun sid => Delivers server (streams sid)

/-- A session of the io_uring loop whose client is served, and its wire, which stays behind
the session. -/
structure ServedView (server : Server) (bit : ℕ)
    (streams : SessionId → List (CompleteRequest server.settings)) (sid : SessionId) (v : View) :
    Prop where
  ordered : Ordered sid v
  ruled : Ruled (InService server bit (streams sid)) sid v
  wire : v.wire <+: (streams sid).flatMap (CompleteRequest.answer server)

section servedView

variable {server : Server} {bit : ℕ}
  {streams : SessionId → List (CompleteRequest server.settings)} {sid : SessionId}

theorem servedView_unused : ServedView server bit streams sid View.unused where
  ordered := ordered_unused sid
  ruled := ruled_unused
  wire := List.nil_prefix

theorem ServedView.of_session {v : View} (hordered : Ordered sid v)
    (hruled : Ruled (InService server bit (streams sid)) sid v)
    (hfreed : v.session = none → v.wire <+: (streams sid).flatMap (CompleteRequest.answer server)) :
    ServedView server bit streams sid v := by
  refine ⟨hordered, hruled, ?_⟩
  cases hs : v.session with
  | none => exact hfreed hs
  | some s =>
    obtain ⟨done, left, rest, hcut, hserved⟩ := hruled.holds s hs
    refine (hordered.2 s hs).inOrder.trans ?_
    rw [hserved.written, hcut.items_eq, List.flatMap_append]
    exact List.prefix_append _ _

theorem ServedView.step (hbit : upgradeMask.testBit bit = true)
    (hstreams : ∀ sid, ∀ r ∈ streams sid, r.SelfContained server bit)
    (hmin : ∀ sid, ∀ r ∈ streams sid, minRequestSize ≤ r.bytes.length) {ring : Ring} {e : Event}
    {v v' : View} (h : ServedView server bit streams sid v)
    (hguard : (NoOverlap ring e v ∧ View.Fed server streams ring e v) ∧ e.Deliverable)
    (hkeyed : ∀ s, v.session = some s → s.self = sid)
    (hstep : LocalStep server sid ring e v v') : ServedView server bit streams sid v' := by
  refine .of_session (h.ordered.step hguard.1.1 hkeyed hstep)
    ((inService_rule hbit (hstreams sid) (hmin sid)).localStep h.ruled hguard.1.2 hguard.2 hkeyed
      hstep) fun hfreed => ?_
  cases hstep with
  | released => exact h.wire
  | performed => exact absurd (h.ordered.1.freed hfreed) Multiset.cons_ne_zero
  | refused => exact h.wire
  | expiredFreed => exact h.wire
  | _ => exact absurd hfreed (by simp)

theorem servedView_of_run (hbit : upgradeMask.testBit bit = true)
    (hstreams : ∀ sid, ∀ r ∈ streams sid, r.SelfContained server bit)
    (hmin : ∀ sid, ∀ r ∈ streams sid, minRequestSize ≤ r.bytes.length) {entries : ℕ}
    {es : List Event} {w : Worker}
    (hg : Runs.Guarded (Worker.step server)
      (Worker.Meets fun ring e v => NoOverlap ring e v ∧ View.Fed server streams ring e v)
      (Worker.init entries) es)
    (hrun : Runs.run (Worker.step server) (Worker.init entries) es = some w) (sid : SessionId) :
    ServedView server bit streams sid (w.view sid) := by
  have hboth : Runs.Guarded (Worker.step server)
      (Worker.Meets fun ring e v =>
        (NoOverlap ring e v ∧ View.Fed server streams ring e v) ∧ e.Deliverable)
      (Worker.init entries) es := hg.and_of_run deliverable_of_step hrun
  exact Worker.views_of_run (fun _ => servedView_unused)
    (fun _ _ _ _ _ h hguard hkeyed hstep => h.step hbit hstreams hmin hguard hkeyed hstep)
    hboth hrun sid

end servedView

/-- The io_uring loop with all its connections, while no two sends overlap and no header
leaves its array: what a client has read is a beginning of the answers to its own requests,
and what its session has written is the answers to those that have been received. -/
theorem uring_serves (server : Server) (hserver : server.Confined)
    (streams : SessionId → List (CompleteRequest server.settings))
    (hstreams : ∀ sid, ∀ r ∈ streams sid, ∀ bit, upgradeMask.testBit bit = true →
      r.SelfContained server bit)
    (hmin : ∀ sid, ∀ r ∈ streams sid, minRequestSize ≤ r.bytes.length) (entries : ℕ)
    (es : List Event) (w : Worker)
    (hg : Runs.Guarded (Worker.step server)
      (Worker.Meets fun ring e v => NoOverlap ring e v ∧ View.Fed server streams ring e v)
      (Worker.init entries) es)
    (hrun : Runs.run (Worker.step server) (Worker.init entries) es = some w) (sid : SessionId) :
    w.wire sid <+: (streams sid).flatMap (CompleteRequest.answer server) ∧
      ∀ s, w.pool sid = some s → s.Confined ∧ ∃ done left rest,
        Cut CompleteRequest.bytes (streams sid) s.readBuffer.written done left rest ∧
          s.readBuffer.unread = rest ∧
          s.writeBuffer.written = done.flatMap (CompleteRequest.answer server) := by
  have hview := servedView_of_run testBit_upgradeMask
    (fun sid r hr => hstreams sid r hr 10 testBit_upgradeMask) hmin hg hrun sid
  have hconfined := Worker.rule (fun sid => inServiceConfined_rule hserver testBit_upgradeMask
    (hstreams sid) (hmin sid)) (hg.mono fun _ _ h => h.2) hrun sid
  refine ⟨hview.wire, fun s hs => ⟨(hconfined.holds s hs).2.2, ?_⟩⟩
  obtain ⟨done, left, rest, hcut, hdone⟩ := hview.ruled.holds s hs
  exact ⟨done, left, rest, hcut, hdone.unread, hdone.written⟩

def cutPostEvents : List Event :=
  [.accept 5 true, .submit, .recv 0 16384 (.data ((postHi .ioUring).bytes.take 14)) 0, .submit,
    .recv 0 16370 (.data ((postHi .ioUring).bytes.drop 14)) 0, .submit, .kernelSend 0 60]

theorem cutPostEvents_reads : (∀ w, Runs.run (Worker.step (generalServiceOn .ioUring))
      (Worker.init 8) (cutPostEvents.take 2) = some w → ∀ s, w.pool 0 = some s →
        s.readBuffer.written = [] ∧ 90 ≤ s.writeBuffer.readPos + s.writeBuffer.capacity) ∧
    ∀ w, Runs.run (Worker.step (generalServiceOn .ioUring)) (Worker.init 8)
      (cutPostEvents.take 4) = some w → ∀ s, w.pool 0 = some s →
        s.readBuffer.written = (postHi .ioUring).bytes.take 14 ∧
          90 ≤ s.writeBuffer.readPos + s.writeBuffer.capacity := by
  decide +kernel

theorem fed_cutPostEvents : Runs.Guarded (Worker.step (generalServiceOn .ioUring))
    (Worker.Meets (View.Fed (generalServiceOn .ioUring) fun _ => [postHi .ioUring]))
    (Worker.init 8) cutPostEvents := by
  refine ⟨?_, fun w₁ h₁ => ⟨?_, fun w₂ h₂ => ⟨?_, fun w₃ h₃ => ⟨?_, fun w₄ h₄ => ⟨?_,
    fun w₅ _ => Runs.guarded_of_forall (fun e he w => ?_) w₅⟩⟩⟩⟩⟩
  · rintro sid room chunk now s h
    simp at h
  · rintro sid room chunk now s h
    simp at h
  · rintro sid room chunk now s h hs -
    obtain ⟨rfl, rfl, hchunk, rfl⟩ := Event.recv.inj h
    obtain rfl := RecvResult.data.inj hchunk
    obtain ⟨hwritten, hroom⟩ := cutPostEvents_reads.1 w₂ ((Runs.run_cons_eq_some _ _ _ _).mpr
      ⟨w₁, h₁, (Runs.run_cons_eq_some _ _ _ _).mpr ⟨w₂, h₂, rfl⟩⟩) s hs
    exact delivers_postHi .ioUring (Or.inl (by rw [hwritten, List.nil_append])) hroom
  · rintro sid room chunk now s h
    simp at h
  · rintro sid room chunk now s h hs -
    obtain ⟨rfl, rfl, hchunk, rfl⟩ := Event.recv.inj h
    obtain rfl := RecvResult.data.inj hchunk
    obtain ⟨hwritten, hroom⟩ := cutPostEvents_reads.2 w₄ ((Runs.run_cons_eq_some _ _ _ _).mpr
      ⟨w₁, h₁, (Runs.run_cons_eq_some _ _ _ _).mpr ⟨w₂, h₂, (Runs.run_cons_eq_some _ _ _ _).mpr
        ⟨w₃, h₃, (Runs.run_cons_eq_some _ _ _ _).mpr ⟨w₄, h₄, rfl⟩⟩⟩⟩) s hs
    exact delivers_postHi .ioUring (Or.inr (by rw [hwritten, List.take_append_drop])) hroom
  · rintro sid room chunk now s rfl
    simp at he

theorem apart_cutPostEvents : Runs.Guarded (Worker.step (generalServiceOn .ioUring))
    (Worker.Meets fun ring e v => NoOverlap ring e v ∧
      View.Fed (generalServiceOn .ioUring) (fun _ => [postHi .ioUring]) ring e v)
    (Worker.init 8) cutPostEvents := by
  have hapart : Runs.Guarded (Worker.step (generalServiceOn .ioUring)) (Worker.Meets NoOverlap)
      (Worker.init 8) cutPostEvents := by decide +kernel
  exact hapart.and fed_cutPostEvents

theorem run_cutPostEvents : ∃ w, Runs.run (Worker.step (generalServiceOn .ioUring)) (Worker.init 8)
    cutPostEvents = some w ∧ (w.wire 0).length = 60 := by
  have hsome : ((Runs.run (Worker.step (generalServiceOn .ioUring)) (Worker.init 8)
      cutPostEvents).map fun w => (w.wire 0).length) = some 60 := by decide +kernel
  exact Option.map_eq_some_iff.mp hsome

theorem uring_serves_cutPost :
    ∃ w, Runs.run (Worker.step (generalServiceOn .ioUring)) (Worker.init 8) cutPostEvents =
        some w ∧ (w.wire 0).length = 60 ∧
      w.wire 0 <+: (Session.openResponse true).serialise (ascii "hi") := by
  obtain ⟨w, hrun, hlength⟩ := run_cutPostEvents
  refine ⟨w, hrun, hlength, ?_⟩
  obtain ⟨hwire, -⟩ := uring_serves (generalServiceOn .ioUring)
    (confined_generalServiceOn .ioUring) (fun _ => [postHi .ioUring])
    (fun _ => List.forall_mem_singleton.mpr (selfContained_postHi .ioUring))
    (fun _ => by decide +kernel) 8 cutPostEvents w apart_cutPostEvents hrun 0
  rwa [List.flatMap_singleton, answer_postHi] at hwire

end WarpApi

import WarpApi.LiveDispatch

/-!
`HttpServer` and `EventLoop`: start, stop and the destructors, with the worker threads
that run beside them. The owner's calls come one after the other and are taken apart
where a worker can see the difference; the threads' steps come in between in any order.
A worker tests `_running` at the head of its loop only. Creating a thread may throw,
which leaves `EventLoop::start` in the middle of its loop.
-/
namespace WarpApi

/-- Where a thread is in `runWorker`: before the loop, at its head, before `epoll_wait`,
behind it, and behind the function. -/
inductive Place
  | setup
  | head (w : EpollWorker)
  | waiting (w : EpollWorker)
  | working (w : EpollWorker)
  | done

inductive WorkerLabel
  /-- A socket call before the loop fails. -/
  | fail
  | enter
  | test
  | wait (batch : List Ready)
  | work (e : LoopEvent)
  | turn

namespace Place

def worker : Place → Option EpollWorker
  | .head w => some w
  | .waiting w => some w
  | .working w => some w
  | _ => none

def registered (x : Place) (fd : ℕ) : Bool := (x.worker.map fun w => w.registered fd).getD false

/-- A step of a worker while `EventLoop::_running` has this value. -/
def step (server : Server) (running : Bool) : Place → WorkerLabel → Option Place
  | .setup, .fail => some .done
  | .setup, .enter => some (.head EpollWorker.init)
  | .head w, .test => some (if running then .waiting w else .done)
  | .waiting w, .wait batch => (w.step server (.wait batch)).map .working
  | .working w, .work e =>
    match e with
    | .wait _ => none
    | _ => (w.step server e).map .working
  | .working w, .turn => if w.pending = [] then some (.head w) else none
  | _, _ => none

end Place

/-- `generation` is no data of the sources: the start that has created the thread. -/
structure Thread where
  place : Place
  joinable : Bool
  generation : ℕ

/-- What the owner is doing: nothing, the loop of `EventLoop::start` or the one of
`EventLoop::stop`; or the server has been destroyed. -/
inductive Stage
  | idle
  | spawning (i : ℕ)
  | joining (k : ℕ) (last : Bool)
  | gone
  deriving DecidableEq

/-- `generation` and `dropped` are no data of the sources: how often the workers have
been started, and the thread objects that were destroyed. -/
structure HttpServer where
  running : Bool
  loopRunning : Bool
  threads : List Thread
  stage : Stage
  generation : ℕ
  dropped : List Thread

inductive OwnerCall
  | start
  | stop
  | destroy

inductive ServerLabel
  | call (c : OwnerCall)
  /-- `_threads.emplace_back(&EventLoop::runWorker, this, i)`. -/
  | spawn
  | spawnThrows
  | started
  | join
  | stopped
  | thread (i : ℕ) (l : WorkerLabel)

namespace HttpServer

def init : HttpServer where
  running := false
  loopRunning := false
  threads := []
  stage := .idle
  generation := 0
  dropped := []

/-- `_threads.clear()`, or the destructor of the vector. -/
def clearThreads (p : HttpServer) : HttpServer :=
  { p with threads := [], dropped := p.threads ++ p.dropped }

def loopStop (p : HttpServer) (last : Bool) : HttpServer :=
  if p.loopRunning then { p with loopRunning := false, stage := .joining 0 last }
  else if last then { p.clearThreads with stage := .gone } else p

/-- The destructor calls both stop functions, and the second one finds nothing to do
behind the first. -/
def call (p : HttpServer) : OwnerCall → HttpServer
  | .start =>
    if p.running then p
    else if p.loopRunning then { p with running := true }
    else { p with loopRunning := true, stage := .spawning 0, generation := p.generation + 1 }
  | .stop => if p.running then { p with running := false }.loopStop false else p
  | .destroy => { p with running := false }.loopStop true

/-- accept gives a worker no descriptor that another one has open. -/
def canTake (p : HttpServer) (i : ℕ) : WorkerLabel → Bool
  | .work e =>
    e.clients.all fun client => (p.threads.eraseIdx i).all fun t => !t.place.registered client.1
  | _ => true

def step (server : Server) (p : HttpServer) : ServerLabel → Option HttpServer
  | .call c => if p.stage = .idle then some (p.call c) else none
  | .spawn =>
    match p.stage with
    | .spawning i =>
      if i < server.settings.maxThreads.toNat then
        some { p with threads := p.threads ++ [⟨.setup, true, p.generation⟩]
                      stage := .spawning (i + 1) }
      else none
    | _ => none
  | .spawnThrows =>
    match p.stage with
    | .spawning i =>
      if i < server.settings.maxThreads.toNat then some { p with stage := .idle } else none
    | _ => none
  | .started =>
    match p.stage with
    | .spawning i =>
      if i < server.settings.maxThreads.toNat then none
      else some { p with running := true, stage := .idle }
    | _ => none
  | .join =>
    match p.stage with
    | .joining k last => p.threads[k]?.bind fun t =>
      match t.joinable, t.place with
      | true, .done => some { p with threads := p.threads.set k { t with joinable := false }
                                     stage := .joining (k + 1) last }
      | true, _ => none
      | false, _ => some { p with stage := .joining (k + 1) last }
    | _ => none
  | .stopped =>
    match p.stage with
    | .joining k last =>
      if p.threads.length ≤ k then
        some { p.clearThreads with stage := if last then .gone else .idle }
      else none
    | _ => none
  | .thread i l => p.threads[i]?.bind fun t =>
    if p.canTake i l then (t.place.step server p.loopRunning l).map fun place =>
      { p with threads := p.threads.set i { t with place := place } }
    else none

/-- What a step does. -/
inductive Steps (server : Server) (p : HttpServer) : ServerLabel → HttpServer → Prop
  | called (c : OwnerCall) (hidle : p.stage = .idle) : Steps server p (.call c) (p.call c)
  | spawned (i : ℕ) (hstage : p.stage = .spawning i)
      (hlt : i < server.settings.maxThreads.toNat) :
      Steps server p .spawn
        { p with threads := p.threads ++ [⟨.setup, true, p.generation⟩]
                 stage := .spawning (i + 1) }
  | threw (i : ℕ) (hstage : p.stage = .spawning i)
      (hlt : i < server.settings.maxThreads.toNat) :
      Steps server p .spawnThrows { p with stage := .idle }
  | started (i : ℕ) (hstage : p.stage = .spawning i) :
      Steps server p .started { p with running := true, stage := .idle }
  | joined (k : ℕ) (last : Bool) (t : Thread) (hstage : p.stage = .joining k last)
      (hthread : p.threads[k]? = some t) (hdone : t.place = .done) :
      Steps server p .join { p with threads := p.threads.set k { t with joinable := false }
                                    stage := .joining (k + 1) last }
  | passed (k : ℕ) (last : Bool) (t : Thread) (hstage : p.stage = .joining k last)
      (hthread : p.threads[k]? = some t) (hjoined : t.joinable = false) :
      Steps server p .join { p with stage := .joining (k + 1) last }
  | stopped (k : ℕ) (last : Bool) (hstage : p.stage = .joining k last)
      (hall : p.threads.length ≤ k) :
      Steps server p .stopped { p.clearThreads with stage := if last then .gone else .idle }
  | moved (i : ℕ) (l : WorkerLabel) (t : Thread) (x : Place) (hthread : p.threads[i]? = some t)
      (htake : p.canTake i l = true) (hx : t.place.step server p.loopRunning l = some x) :
      Steps server p (.thread i l) { p with threads := p.threads.set i { t with place := x } }

theorem steps_of_join {server : Server} {p q : HttpServer} (h : p.step server .join = some q) :
    Steps server p .join q := by
  dsimp only [step] at h
  split at h
  · rename_i k last hstage
    obtain ⟨t, hthread, hjoin⟩ := Option.bind_eq_some_iff.mp h
    split at hjoin
    · rename_i hjoinable hdone
      exact Option.some.inj hjoin ▸ .joined k last t hstage hthread hdone
    · simp at hjoin
    · rename_i hjoined
      exact Option.some.inj hjoin ▸ .passed k last t hstage hthread hjoined
  · simp at h

theorem steps_of_stopped {server : Server} {p q : HttpServer}
    (h : p.step server .stopped = some q) : Steps server p .stopped q := by
  dsimp only [step] at h
  split at h
  · rename_i k last hstage
    by_cases hall : p.threads.length ≤ k
    · rw [if_pos hall] at h
      exact Option.some.inj h ▸ .stopped k last hstage hall
    · rw [if_neg hall] at h
      simp at h
  · simp at h

theorem steps_of_step {server : Server} {p q : HttpServer} {l : ServerLabel}
    (h : p.step server l = some q) : Steps server p l q := by
  cases l with
  | call c =>
    dsimp only [step] at h
    split_ifs at h with hidle
    exact Option.some.inj h ▸ .called c hidle
  | spawn =>
    dsimp only [step] at h
    split at h
    · rename_i i hstage
      split_ifs at h with hlt
      exact Option.some.inj h ▸ .spawned i hstage hlt
    · simp at h
  | spawnThrows =>
    dsimp only [step] at h
    split at h
    · rename_i i hstage
      split_ifs at h with hlt
      exact Option.some.inj h ▸ .threw i hstage hlt
    · simp at h
  | started =>
    dsimp only [step] at h
    split at h
    · rename_i i hstage
      split_ifs at h
      exact Option.some.inj h ▸ .started i hstage
    · simp at h
  | join => exact steps_of_join h
  | stopped => exact steps_of_stopped h
  | thread i l =>
    dsimp only [step] at h
    obtain ⟨t, hthread, hmove⟩ := Option.bind_eq_some_iff.mp h
    split_ifs at hmove with htake
    obtain ⟨x, hx, rfl⟩ := Option.map_eq_some_iff.mp hmove
    exact .moved i l t x hthread htake hx

/-- What the owner's position says about the flags and the threads. -/
def StageOk (p : HttpServer) : Stage → Prop
  | .idle => (p.running = true → p.loopRunning = true) ∧ (p.loopRunning = false → p.threads = [])
  | .spawning i => p.running = false ∧ p.loopRunning = true ∧ p.threads.length = i
  | .joining k _ => p.running = false ∧ p.loopRunning = false ∧
      ∀ j < k, ∀ t, p.threads[j]? = some t → t.joinable = false
  | .gone => p.running = false ∧ p.loopRunning = false ∧ p.threads = []

structure Orderly (server : Server) (p : HttpServer) : Prop where
  size : p.threads.length ≤ server.settings.maxThreads.toNat
  stage : p.StageOk p.stage
  current : ∀ t ∈ p.threads, t.generation = p.generation
  ended : ∀ t ∈ p.threads, t.joinable = false → t.place = .done
  dropped : ∀ t ∈ p.dropped, t.joinable = false ∧ t.place = .done

theorem orderly_init (server : Server) : Orderly server init where
  size := Nat.zero_le _
  stage := ⟨fun h => h, fun _ => rfl⟩
  current _ h := absurd h List.not_mem_nil
  ended _ h := absurd h List.not_mem_nil
  dropped _ h := absurd h List.not_mem_nil

namespace Orderly

variable {server : Server} {p : HttpServer}

theorem clearThreads (h : Orderly server p) (hjoined : ∀ t ∈ p.threads, t.joinable = false)
    {stage : Stage} (hstage : { p.clearThreads with stage := stage }.StageOk stage) :
    Orderly server { p.clearThreads with stage := stage } where
  size := Nat.zero_le _
  stage := hstage
  current _ ht := absurd ht List.not_mem_nil
  ended _ ht := absurd ht List.not_mem_nil
  dropped t ht := by
    rcases List.mem_append.mp ht with ht | ht
    · exact ⟨hjoined t ht, h.ended t ht (hjoined t ht)⟩
    · exact h.dropped t ht

theorem loopStop (h : Orderly server p) (last : Bool) (hrunning : p.running = false)
    (hidle : p.stage = .idle) : Orderly server (p.loopStop last) := by
  obtain ⟨-, hempty⟩ : p.StageOk .idle := hidle ▸ h.stage
  unfold HttpServer.loopStop
  split_ifs with hloop hlast
  · exact { h with stage := ⟨hrunning, rfl, fun j hj => absurd hj (Nat.not_lt_zero j)⟩ }
  · have hoff : p.loopRunning = false := by simpa using hloop
    have hnone := hempty hoff
    refine h.clearThreads (fun t ht => ?_) ⟨hrunning, hoff, rfl⟩
    rw [hnone] at ht
    exact absurd ht List.not_mem_nil
  · exact h

theorem call (h : Orderly server p) (c : OwnerCall) (hidle : p.stage = .idle) :
    Orderly server (p.call c) := by
  obtain ⟨hflags, hempty⟩ : p.StageOk .idle := hidle ▸ h.stage
  have hoff : Orderly server { p with running := false } := by
    refine { h with stage := ?_ }
    rw [hidle]
    exact ⟨fun hrunning => absurd hrunning Bool.false_ne_true, hempty⟩
  cases c with
  | start =>
    unfold HttpServer.call
    dsimp only
    split_ifs with hrunning hloop
    · exact h
    · refine { h with stage := ?_ }
      rw [hidle]
      exact ⟨fun _ => hloop, fun hoff => absurd (hoff.symm.trans hloop) Bool.false_ne_true⟩
    · have hnone := hempty (by simpa using hloop)
      refine { h with stage := ⟨by simpa using hrunning, rfl, ?_⟩, current := fun t ht => ?_ }
      · rw [hnone]
        rfl
      · rw [hnone] at ht
        exact absurd ht List.not_mem_nil
  | stop =>
    unfold HttpServer.call
    dsimp only
    split_ifs
    · exact hoff.loopStop false rfl hidle
    · exact h
  | destroy => exact hoff.loopStop true rfl hidle

theorem set (h : Orderly server p) {i : ℕ} {t u : Thread} {stage : Stage}
    (hthread : p.threads[i]? = some t) (hgeneration : u.generation = t.generation)
    (hended : u.joinable = false → u.place = .done)
    (hstage : { p with threads := p.threads.set i u }.StageOk stage) :
    Orderly server { p with threads := p.threads.set i u, stage := stage } := by
  obtain ⟨hi, rfl⟩ := List.getElem?_eq_some_iff.mp hthread
  refine ⟨?_, hstage, fun v hv => ?_, fun v hv => ?_, h.dropped⟩
  · rw [List.length_set]
    exact h.size
  · rcases List.mem_or_eq_of_mem_set hv with hv | rfl
    · exact h.current v hv
    · exact hgeneration.trans (h.current _ (List.getElem_mem hi))
  · rcases List.mem_or_eq_of_mem_set hv with hv | rfl
    · exact h.ended v hv
    · exact hended

theorem moved (h : Orderly server p) {i : ℕ} {t : Thread} {x : Place} {l : WorkerLabel}
    (hthread : p.threads[i]? = some t) (hx : t.place.step server p.loopRunning l = some x) :
    Orderly server { p with threads := p.threads.set i { t with place := x } } := by
  have hjoinable : t.joinable = true := by
    by_contra hjoined
    rw [h.ended t (List.mem_of_getElem? hthread) (by simpa using hjoined)] at hx
    simp [Place.step] at hx
  have hi : i < p.threads.length := (List.getElem?_eq_some_iff.mp hthread).1
  refine h.set hthread rfl (fun hjoined => absurd (hjoinable.symm.trans hjoined) (by simp)) ?_
  have hstage := h.stage
  cases hp : p.stage with
  | idle =>
    rw [hp] at hstage
    refine ⟨hstage.1, fun hoff => ?_⟩
    rw [hstage.2 hoff] at hi
    exact absurd hi (Nat.not_lt_zero _)
  | spawning n =>
    rw [hp] at hstage
    exact ⟨hstage.1, hstage.2.1, List.length_set.trans hstage.2.2⟩
  | joining k last =>
    rw [hp] at hstage
    obtain ⟨hrunning, hloop, hjoined⟩ := hstage
    refine ⟨hrunning, hloop, fun j hj v hv => ?_⟩
    rw [List.getElem?_set] at hv
    split_ifs at hv with hij
    · exact absurd (hjoinable.symm.trans (hjoined i (hij ▸ hj) t hthread)) (by simp)
    · exact hjoined j hj v hv
  | gone =>
    rw [hp] at hstage
    rw [hstage.2.2] at hi
    exact absurd hi (Nat.not_lt_zero _)

theorem joined (h : Orderly server p) {k : ℕ} {last : Bool} {t : Thread}
    (hstage : p.stage = .joining k last) (hthread : p.threads[k]? = some t)
    (hdone : t.place = .done) :
    Orderly server { p with threads := p.threads.set k { t with joinable := false }
                            stage := .joining (k + 1) last } := by
  obtain ⟨hrunning, hloop, hjoined⟩ : p.StageOk (.joining k last) := hstage ▸ h.stage
  refine h.set hthread rfl (fun _ => hdone) ⟨hrunning, hloop, fun j hj v hv => ?_⟩
  rw [List.getElem?_set] at hv
  split_ifs at hv with hkj
  · exact Option.some.inj hv ▸ rfl
  · exact hjoined j (by omega) v hv

theorem step (h : Orderly server p) (l : ServerLabel) {q : HttpServer}
    (hstep : p.step server l = some q) : Orderly server q := by
  cases steps_of_step hstep with
  | called c hidle => exact h.call c hidle
  | spawned i hstage hlt =>
    obtain ⟨hrunning, hloop, hlength⟩ : p.StageOk (.spawning i) := hstage ▸ h.stage
    have hsize : (p.threads ++ [Thread.mk .setup true p.generation]).length = i + 1 := by
      rw [List.length_append, hlength]
      rfl
    refine ⟨hsize.trans_le hlt, ⟨hrunning, hloop, hsize⟩, fun t ht => ?_, fun t ht => ?_,
      h.dropped⟩
    · rcases List.mem_append.mp ht with ht | ht
      · exact h.current t ht
      · rw [List.mem_singleton.mp ht]
    · rcases List.mem_append.mp ht with ht | ht
      · exact h.ended t ht
      · rw [List.mem_singleton.mp ht]
        exact fun hjoined => absurd hjoined.symm Bool.false_ne_true
  | threw i hstage =>
    obtain ⟨hrunning, hloop, -⟩ : p.StageOk (.spawning i) := hstage ▸ h.stage
    exact { h with stage := ⟨fun hon => absurd (hrunning.symm.trans hon) Bool.false_ne_true,
      fun hoff => absurd (hoff.symm.trans hloop) Bool.false_ne_true⟩ }
  | started i hstage =>
    obtain ⟨-, hloop, -⟩ : p.StageOk (.spawning i) := hstage ▸ h.stage
    exact { h with stage := ⟨fun _ => hloop,
      fun hoff => absurd (hoff.symm.trans hloop) Bool.false_ne_true⟩ }
  | joined k last t hstage hthread hdone => exact h.joined hstage hthread hdone
  | passed k last t hstage hthread hjoined =>
    obtain ⟨hrunning, hloop, hall⟩ : p.StageOk (.joining k last) := hstage ▸ h.stage
    refine { h with stage := ⟨hrunning, hloop, fun j hj v hv => ?_⟩ }
    by_cases hjk : j = k
    · rw [hjk] at hv
      exact Option.some.inj (hthread.symm.trans hv) ▸ hjoined
    · exact hall j (by omega) v hv
  | stopped k last hstage hall =>
    obtain ⟨hrunning, hloop, hjoined⟩ : p.StageOk (.joining k last) := hstage ▸ h.stage
    refine h.clearThreads (fun t ht => ?_) ?_
    · obtain ⟨j, hj, rfl⟩ := List.getElem_of_mem ht
      exact hjoined j (by omega) _ (List.getElem?_eq_getElem hj)
    · cases last with
      | true => exact ⟨hrunning, hloop, rfl⟩
      | false =>
        exact ⟨fun hon => absurd (hrunning.symm.trans hon) Bool.false_ne_true, fun _ => rfl⟩
  | moved i l t x hthread htake hx => exact h.moved hthread hx

end Orderly

theorem orderly_of_reachable {server : Server} {p : HttpServer}
    (h : Runs.Reachable (step server) init p) : Orderly server p :=
  Runs.invariant_of_reachable (fun _ l _ hp hstep => hp.step l hstep) (orderly_init server) h

end HttpServer

/-- At no time are there more workers than the settings say, or workers of an earlier
start; a thread object is destroyed only behind the end of its worker and its join, and
none is left when `stop` has found the loop running, or when the server is gone. -/
theorem threads_accounted (server : Server) (p : HttpServer)
    (h : Runs.Reachable (HttpServer.step server) HttpServer.init p) :
    p.threads.length ≤ server.settings.maxThreads.toNat ∧
      (∀ t ∈ p.threads, t.generation = p.generation) ∧
      (∀ t ∈ p.dropped, t.joinable = false ∧ t.place = .done) ∧
      (p.stage = .idle → p.loopRunning = false → p.threads = []) ∧
      (p.stage = .gone → p.threads = []) := by
  have hp := HttpServer.orderly_of_reachable h
  refine ⟨hp.size, hp.current, hp.dropped, fun hidle => ?_, fun hgone => ?_⟩
  · have hok : p.StageOk .idle := hidle ▸ hp.stage
    exact hok.2
  · have hok : p.StageOk .gone := hgone ▸ hp.stage
    exact hok.2.2

/-- The second thread cannot be created: `stop` would find `_running` of the server false,
and it is the destructor of the event loop that joins the first one. -/
def halfStarted : List ServerLabel :=
  [.call .start, .spawn, .spawnThrows, .call .stop, .call .destroy, .thread 0 .enter,
    .thread 0 .test, .join, .stopped]

theorem threads_accounted_halfStarted :
    ∃ p, Runs.run (HttpServer.step (bareServer .epoll)) HttpServer.init halfStarted = some p ∧
      p.stage = .gone ∧ p.threads = [] ∧ p.dropped.length = 1 ∧
      ∀ t ∈ p.dropped, t.joinable = false ∧ t.place = .done := by
  have hrun : (Runs.run (HttpServer.step (bareServer .epoll)) HttpServer.init halfStarted).map
      (fun p => (p.stage, p.dropped.length)) = some (.gone, 1) := by decide +kernel
  obtain ⟨p, hp, heq⟩ := Option.map_eq_some_iff.mp hrun
  simp only [Prod.mk.injEq] at heq
  obtain ⟨-, -, hdropped, -, hgone⟩ := threads_accounted (bareServer .epoll) p ⟨halfStarted, hp⟩
  exact ⟨p, hp, heq.1, hgone heq.1, heq.2, hdropped⟩

end WarpApi

import WarpApi.WorkersApart

/-!
The end of `stop`. A worker looks at `_running` at the head of its loop only. It gets there
from everywhere, when `epoll_wait` returns and the rest of its batch brings nothing new:
accept and recv say EAGAIN. Where accept goes on failing otherwise, it never gets there.
-/
namespace WarpApi

/-- Nothing new has come: accept and recv say EAGAIN at once. -/
inductive LoopEvent.Drained : LoopEvent → Prop
  | listener : Drained (.listen [])
  | client (now : ℕ) : Drained (.serve ⟨true, false, [.wouldBlock], []⟩ false now)

theorem LoopEvent.Drained.clients_eq {e : LoopEvent} (h : e.Drained) : e.clients = [] := by
  cases h <;> rfl

namespace EpollWorker

variable {server : Server} {w w' : EpollWorker}

theorem pending_handle {a : Slot} {s : Session} {e : EpollEvent} {hangUp : Bool} {now : ℕ}
    (h : w.handle server a s e hangUp now = some w') : w'.pending = w.pending := by
  unfold handle at h
  obtain ⟨⟨activity, t⟩, -, rfl⟩ := Option.map_eq_some_iff.mp h
  dsimp only
  split_ifs
  · rfl
  · unfold touch
    split_ifs
    · rfl
    · rfl
  · rfl

/-- A client that is readable without anything to read: the session is left alone, or closed
when its read buffer is full. -/
theorem exists_handled (server : Server) (w : EpollWorker) (a : Slot) (s : Session) :
    ∃ w', w.handle server a s ⟨true, false, [.wouldBlock], []⟩ false 0 = some w' := by
  have hread : ∃ out, s.readLoop server [.wouldBlock] [] false = some out := by
    unfold Session.readLoop
    split_ifs
    · exact ⟨_, rfl⟩
    · exact ⟨_, rfl⟩
    · exact ⟨_, rfl⟩
  obtain ⟨⟨⟨read, t⟩, sends⟩, hread⟩ := hread
  have hserve : serveSession server s ⟨true, false, [.wouldBlock], []⟩ = some (read, t) := by
    unfold serveSession
    rw [show readPart server s ⟨true, false, [.wouldBlock], []⟩ = _ from hread, Option.bind_some]
    simp
  exact ⟨_, Option.map_eq_some_iff.mpr ⟨_, hserve, rfl⟩⟩

theorem Kept.exists_next (server : Server) (hw : Kept w) {r : Ready} {rest : List Ready}
    (hpending : w.pending = r :: rest) :
    ∃ e w', EpollWorker.step server w e = some w' ∧ w'.pending = rest ∧ e.Drained := by
  cases r with
  | listener =>
    refine ⟨.listen [], { w with pending := rest }, ?_, rfl, .listener⟩
    rw [EpollWorker.step, hpending]
    rfl
  | client fd =>
    obtain ⟨a, s, htable, hmemory, -⟩ := hw.found (hw.ready fd (hpending ▸ List.mem_cons_self ..))
    obtain ⟨w', hhandle⟩ := exists_handled server { w with pending := rest } a s
    refine ⟨.serve ⟨true, false, [.wouldBlock], []⟩ false 0, w', ?_, pending_handle hhandle,
      .client 0⟩
    rw [EpollWorker.step, hpending]
    dsimp only
    rw [if_pos (show (true || false || false) = true from rfl), htable]
    dsimp only
    rw [hmemory, Option.bind_some]
    exact hhandle

theorem Kept.exists_drained (server : Server) (hw : Kept w) :
    ∃ es w', Runs.run (EpollWorker.step server) w es = some w' ∧ w'.pending = [] ∧
      ∀ e ∈ es, e.Drained := by
  induction hpending : w.pending generalizing w with
  | nil => exact ⟨[], w, rfl, hpending, fun e he => absurd he List.not_mem_nil⟩
  | cons r rest ih =>
    obtain ⟨e, u, hu, hrest, he⟩ := hw.exists_next server hpending
    obtain ⟨es, w', hrun, hempty, hes⟩ := ih (hw.step e hu) hrest
    refine ⟨e :: es, w', (Runs.run_cons_eq_some ..).mpr ⟨u, hu, hrun⟩, hempty, ?_⟩
    exact List.forall_mem_cons.mpr ⟨he, hes⟩

end EpollWorker

namespace Place

variable {server : Server}

/-- The step is one that a worker takes when nothing new comes. -/
def Quiet (l : WorkerLabel) : Prop := ∀ e, l = .work e → e.Drained

theorem ends_of_head (w : EpollWorker) :
    Runs.run (step server false) (.head w) [.test] = some .done := rfl

theorem working_run {w w' : EpollWorker} {es : List LoopEvent} (hes : ∀ e ∈ es, e.Drained)
    (hrun : Runs.run (EpollWorker.step server) w es = some w') :
    Runs.run (step server false) (.working w) (es.map .work) = some (.working w') := by
  induction es generalizing w with
  | nil => exact congrArg some (congrArg Place.working (Option.some.inj hrun))
  | cons e es ih =>
    obtain ⟨u, hu, hrest⟩ := (Runs.run_cons_eq_some ..).mp hrun
    refine (Runs.run_cons_eq_some ..).mpr ⟨.working u, ?_,
      ih (fun x hx => hes x (List.mem_cons_of_mem _ hx)) hrest⟩
    cases hes e List.mem_cons_self with
    | listener => exact Option.map_eq_some_iff.mpr ⟨u, hu, rfl⟩
    | client => exact Option.map_eq_some_iff.mpr ⟨u, hu, rfl⟩

theorem ends_of_working (server : Server) {w : EpollWorker} (hw : EpollWorker.Kept w) :
    ∃ ls, (∀ l ∈ ls, Quiet l) ∧ Runs.run (step server false) (.working w) ls = some .done := by
  obtain ⟨es, w', hrun, hempty, hes⟩ := hw.exists_drained server
  refine ⟨es.map .work ++ [.turn, .test], fun l hl => ?_, ?_⟩
  · rintro e rfl
    rcases List.mem_append.mp hl with hl | hl
    · obtain ⟨e', he', heq⟩ := List.mem_map.mp hl
      exact WorkerLabel.work.inj heq ▸ hes e' he'
    · simp at hl
  · rw [Runs.run_append, working_run hes hrun, Option.bind_some, Runs.run_cons_eq_some]
    exact ⟨.head w', if_pos hempty, ends_of_head w'⟩

/-- A worker that finds `_running` false comes to the end of `runWorker`. -/
theorem Sound.ends {x : Place} (hx : x.Sound server) :
    ∃ ls, (∀ l ∈ ls, Quiet l) ∧ Runs.run (Place.step server false) x ls = some .done := by
  cases x with
  | setup =>
    refine ⟨[.enter, .test], fun l hl e heq => ?_, rfl⟩
    subst heq
    simp at hl
  | head w =>
    refine ⟨[.test], fun l hl e heq => ?_, ends_of_head w⟩
    subst heq
    simp at hl
  | waiting w =>
    have hempty : w.pending = [] := hx.rests
    have hwait : w.step server (.wait []) = some { w with pending := [] } :=
      if_pos ⟨hempty, List.nodup_nil, fun r hr => absurd hr List.not_mem_nil⟩
    have hw := (EpollWorker.kept_of_reachable (hx.reached w rfl)).step _ hwait
    obtain ⟨ls, hls, hrun⟩ := ends_of_working server hw
    refine ⟨.wait [] :: ls, List.forall_mem_cons.mpr ⟨fun e heq => by simp at heq, hls⟩, ?_⟩
    exact (Runs.run_cons_eq_some ..).mpr ⟨_, Option.map_eq_some_iff.mpr ⟨_, hwait, rfl⟩, hrun⟩
  | working w => exact ends_of_working server (EpollWorker.kept_of_reachable (hx.reached w rfl))
  | done => exact ⟨[], fun l hl => absurd hl List.not_mem_nil, rfl⟩

end Place

namespace HttpServer

variable {server : Server} {p : HttpServer}

/-- What goes on inside a call of stop or of the destructor when nothing new comes. -/
def WithinStop (l : ServerLabel) : Prop :=
  l = .join ∨ l = .stopped ∨ ∃ i x, l = .thread i x ∧ Place.Quiet x

theorem run_thread {i : ℕ} {t : Thread} {y : Place} {ls : List WorkerLabel}
    (hthread : p.threads[i]? = some t) (hquiet : ∀ l ∈ ls, Place.Quiet l)
    (hrun : Runs.run (Place.step server p.loopRunning) t.place ls = some y) :
    Runs.run (step server) p (ls.map (.thread i)) =
      some { p with threads := p.threads.set i { t with place := y } } := by
  induction ls generalizing p t with
  | nil =>
    obtain ⟨hi, rfl⟩ := List.getElem?_eq_some_iff.mp hthread
    obtain rfl := Option.some.inj hrun
    rw [List.set_getElem_self]
    rfl
  | cons l ls ih =>
    obtain ⟨x, hx, hrest⟩ := (Runs.run_cons_eq_some ..).mp hrun
    have htake : p.canTake i l = true := by
      unfold canTake
      split
      · rename_i e
        rw [(hquiet (.work e) List.mem_cons_self e rfl).clients_eq]
        rfl
      · rfl
    have hstep : p.step server (.thread i l) =
        some { p with threads := p.threads.set i { t with place := x } } := by
      dsimp only [step]
      rw [hthread, Option.bind_some, if_pos htake, hx]
      rfl
    have hi := (List.getElem?_eq_some_iff.mp hthread).1
    refine (Runs.run_cons_eq_some ..).mpr ⟨_, hstep, ?_⟩
    rw [ih (p := { p with threads := p.threads.set i { t with place := x } })
      (t := { t with place := x }) (List.getElem?_set_self hi)
      (fun l hl => hquiet l (List.mem_cons_of_mem _ hl)) hrest, List.set_set]

theorem Apart.run {q : HttpServer} {ls : List ServerLabel} (h : Apart server p)
    (hrun : Runs.run (HttpServer.step server) p ls = some q) : Apart server q :=
  Runs.invariant_of_reachable (fun _ l _ hp hstep => hp.step l hstep) h ⟨ls, hrun⟩

/-- `join` returns for a thread that has ended, and at once for one that was joined. -/
theorem join_of_done {k : ℕ} {last : Bool} {t : Thread} (hstage : p.stage = .joining k last)
    (hthread : p.threads[k]? = some t) (hdone : t.place = .done) :
    ∃ q, p.step server .join = some q ∧ q.stage = .joining (k + 1) last ∧
      q.loopRunning = p.loopRunning ∧ q.threads.length = p.threads.length := by
  dsimp only [HttpServer.step]
  rw [hstage]
  dsimp only
  rw [hthread, Option.bind_some, hdone]
  cases t.joinable with
  | true => exact ⟨_, rfl, rfl, rfl, List.length_set⟩
  | false => exact ⟨_, rfl, rfl, rfl, rfl⟩

theorem exists_stopped (hp : Apart server p) (hloop : p.loopRunning = false) {k : ℕ} {last : Bool}
    (hstage : p.stage = .joining k last) :
    ∃ ls q, Runs.run (step server) p ls = some q ∧ (∀ l ∈ ls, WithinStop l) ∧
      q.stage = (if last then .gone else .idle) ∧ q.threads = [] := by
  induction hn : p.threads.length - k generalizing p k with
  | zero =>
    refine ⟨[.stopped], { p.clearThreads with stage := if last then .gone else .idle }, ?_,
      fun l hl => Or.inr (Or.inl (List.mem_singleton.mp hl)), rfl, rfl⟩
    refine (Runs.run_cons_eq_some ..).mpr ⟨_, ?_, rfl⟩
    rw [step, hstage]
    exact if_pos (by omega)
  | succ n ih =>
    have hk : k < p.threads.length := by omega
    have hthread := List.getElem?_eq_getElem hk
    obtain ⟨ls, hquiet, hends⟩ := (hp.sound _ (List.getElem_mem hk)).ends
    rw [← hloop] at hends
    have hrun := run_thread hthread hquiet hends
    obtain ⟨u, hjoin, hustage, huloop, hulength⟩ := join_of_done (t := ⟨.done, _, _⟩)
      (p := { p with threads := p.threads.set k { p.threads[k] with place := .done } }) hstage
      (List.getElem?_set_self hk) rfl
    have hu : Apart server u := (hp.run hrun).step .join hjoin
    obtain ⟨ms, q, hms, hwithin, hq⟩ := ih hu (huloop.trans hloop) hustage (by
      rw [hulength, List.length_set]
      omega)
    refine ⟨ls.map (.thread k) ++ .join :: ms, q, ?_, fun l hl => ?_, hq⟩
    · rw [Runs.run_append, hrun, Option.bind_some]
      exact (Runs.run_cons_eq_some ..).mpr ⟨u, hjoin, hms⟩
    · rcases List.mem_append.mp hl with hl | hl
      · obtain ⟨x, hx, rfl⟩ := List.mem_map.mp hl
        exact Or.inr (Or.inr ⟨k, x, rfl, hquiet x hx⟩)
      · rcases List.mem_cons.mp hl with rfl | hl
        · exact Or.inl rfl
        · exact hwithin l hl

/-- A failed accept is called again, and `_running` is not looked at. -/
theorem retry_stays {i : ℕ} {t : Thread} {w : EpollWorker} {rest : List Ready}
    (hthread : p.threads[i]? = some t) (hplace : t.place = .working w)
    (hpending : w.pending = .listener :: rest) (n : ℕ) :
    Runs.run (step server) p (List.replicate n (.thread i (.work (.retry [])))) = some p := by
  have hstep : p.step server (.thread i (.work (.retry []))) = some p := by
    have hwork : t.place.step server p.loopRunning (.work (.retry [])) = some t.place := by
      rw [hplace]
      refine Option.map_eq_some_iff.mpr ⟨w, ?_, rfl⟩
      rw [EpollWorker.step, hpending]
      rfl
    obtain ⟨hi, rfl⟩ := List.getElem?_eq_some_iff.mp hthread
    dsimp only [step]
    rw [hthread, Option.bind_some, if_pos (show p.canTake i (.work (.retry [])) = true from rfl),
      hwork, Option.map_some, List.set_getElem_self]
  induction n with
  | zero => rfl
  | succ n ih =>
    rw [List.replicate_succ]
    exact (Runs.run_cons_eq_some ..).mpr ⟨p, hstep, ih⟩

end HttpServer

/-- However far the workers are, a call that joins them can return, by steps of theirs that
bring nothing new. But a worker whose accept goes on failing goes on calling it. -/
theorem stop_can_return (server : Server) (p : HttpServer)
    (h : Runs.Reachable (HttpServer.step server) HttpServer.init p) (k : ℕ) (last : Bool)
    (hstage : p.stage = .joining k last) :
    (∃ ls q, Runs.run (HttpServer.step server) p ls = some q ∧
      (∀ l ∈ ls, HttpServer.WithinStop l) ∧ q.stage = (if last then .gone else .idle) ∧
      q.threads = []) ∧
    ∀ (i : ℕ) (t : Thread) (w : EpollWorker) (rest : List Ready), p.threads[i]? = some t →
      t.place = .working w → w.pending = .listener :: rest → ∀ n,
        Runs.run (HttpServer.step server) p
          (List.replicate n (.thread i (.work (.retry [])))) = some p := by
  have hok : p.StageOk (.joining k last) := hstage ▸ (HttpServer.orderly_of_reachable h).stage
  refine ⟨HttpServer.exists_stopped (HttpServer.apart_of_reachable h) hok.2.1 hstage, ?_⟩
  exact fun i t w rest hthread hplace hpending n =>
    HttpServer.retry_stays hthread hplace hpending n

def Place.batch : Place → Option (List Ready)
  | .working w => some w.pending
  | _ => none

def stopCalled : List ServerLabel :=
  .call .start :: List.replicate 12 .spawn ++
    [.started, .thread 0 .enter, .thread 0 .test, .thread 0 (.wait [.listener]), .call .stop]

theorem stop_can_return_stopCalled :
    ∃ p, Runs.run (HttpServer.step (bareServer .epoll)) HttpServer.init stopCalled = some p ∧
      p.threads.length = 12 ∧
      (∃ ls q, Runs.run (HttpServer.step (bareServer .epoll)) p ls = some q ∧
        (∀ l ∈ ls, HttpServer.WithinStop l) ∧ q.stage = .idle ∧ q.threads = []) ∧
      ∀ n, Runs.run (HttpServer.step (bareServer .epoll)) p
        (List.replicate n (.thread 0 (.work (.retry [])))) = some p := by
  have hrun : (Runs.run (HttpServer.step (bareServer .epoll)) HttpServer.init stopCalled).map
      (fun p => (p.stage, p.threads.length, p.threads[0]?.bind fun t => t.place.batch)) =
        some (.joining 0 false, 12, some [.listener]) := by decide +kernel
  obtain ⟨p, hp, heq⟩ := Option.map_eq_some_iff.mp hrun
  simp only [Prod.mk.injEq] at heq
  obtain ⟨hstage, hlength, hfirst⟩ := heq
  obtain ⟨t, hthread, hbatch⟩ := Option.bind_eq_some_iff.mp hfirst
  obtain ⟨hreturns, hwaits⟩ :=
    stop_can_return (bareServer .epoll) p ⟨stopCalled, hp⟩ 0 false hstage
  refine ⟨p, hp, hlength, hreturns, ?_⟩
  cases hplace : t.place with
  | working w =>
    rw [hplace] at hbatch
    exact hwaits 0 t w [] hthread hplace (Option.some.inj hbatch)
  | _ => simp [hplace, Place.batch] at hbatch

end WarpApi

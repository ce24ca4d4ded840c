import WarpApi.Lifecycle

/-!
The worker threads beside each other. They share the settings and the flag of the event
loop, and nothing else but the descriptors that the kernel hands out: every worker is in a
state that it could reach alone, and no two of them have the same descriptor open.
-/
namespace WarpApi

namespace EpollWorker

variable {server : Server} {w w' : EpollWorker} {fd : ℕ}

theorem closeFd_subset {registered : ℕ → Bool} {socket : ℤ}
    (h : closeFd registered socket fd = true) : registered fd = true := by
  unfold closeFd at h
  split_ifs at h
  exact h

theorem registered_acceptOne {client : ℕ × Slot} (h : w.acceptOne server client = some w')
    (hfd : w'.registered fd = true) : w.registered fd = true ∨ fd = client.1 := by
  obtain ⟨n, a⟩ := client
  obtain ⟨-, -, -, rfl⟩ := acceptOne_cases h
  by_cases hn : fd = n
  · exact Or.inr hn
  · exact Or.inl ((Function.update_of_ne hn ..).symm.trans hfd)

theorem registered_accepts {accepts : List (ℕ × Slot)}
    (h : accepts.foldlM (acceptOne server) w = some w') (hfd : w'.registered fd = true) :
    w.registered fd = true ∨ ∃ client ∈ accepts, fd = client.1 := by
  induction accepts generalizing w with
  | nil => exact Or.inl (Option.some.inj h ▸ hfd)
  | cons client accepts ih =>
    rw [List.foldlM_cons] at h
    obtain ⟨u, hu, hrest⟩ := Option.bind_eq_some_iff.mp h
    rcases ih hrest with hold | ⟨c, hc, heq⟩
    · rcases registered_acceptOne hu hold with hold | heq
      · exact Or.inl hold
      · exact Or.inr ⟨client, List.mem_cons_self .., heq⟩
    · exact Or.inr ⟨c, List.mem_cons_of_mem _ hc, heq⟩

theorem registered_put {a : Slot} {s t : Session} (hfd : (w.put a s t).registered fd = true) :
    w.registered fd = true := by
  unfold put at hfd
  dsimp only at hfd
  split_ifs at hfd
  · exact hfd
  · exact closeFd_subset hfd

theorem registered_release {a : Slot} {s : Session}
    (hfd : (w.release a s).registered fd = true) : w.registered fd = true :=
  @closeFd_subset _ w.registered s.socket hfd

theorem registered_touch (a : Slot) (t : Session) (now : ℕ) :
    (w.touch a t now).registered = w.registered := by
  unfold touch
  split_ifs
  · rfl
  · rfl

theorem registered_handle {a : Slot} {s : Session} {e : EpollEvent} {hangUp : Bool} {now : ℕ}
    (h : w.handle server a s e hangUp now = some w') (hfd : w'.registered fd = true) :
    w.registered fd = true := by
  unfold handle at h
  obtain ⟨⟨activity, t⟩, -, rfl⟩ := Option.map_eq_some_iff.mp h
  dsimp only at hfd
  split_ifs at hfd
  · exact registered_put (registered_release hfd)
  · rw [registered_touch] at hfd
    exact registered_put hfd
  · exact registered_put hfd

/-- Whatever a worker has open is what it has accepted. -/
theorem Kept.registered_step (hw : Kept w) {e : LoopEvent} (h : w.step server e = some w')
    (hfd : w'.registered fd = true) :
    w.registered fd = true ∨ ∃ client ∈ e.clients, fd = client.1 := by
  cases hw.steps h with
  | waited => exact Or.inl hfd
  | @accepted _ rest accepts hpending haccepts =>
    exact registered_accepts (w := { w with pending := rest }) haccepts hfd
  | retried accepts hpending haccepts => exact registered_accepts haccepts hfd
  | @served _ rest fd' a s e hangUp now hpending hbits htable hmemory huse hsocket hhandle =>
    exact Or.inl (registered_handle (w := { w with pending := rest }) hhandle hfd)
  | expired => exact Or.inl (registered_release hfd)

end EpollWorker

namespace Place

variable {server : Server} {running : Bool} {x y : Place} {l : WorkerLabel}

/-- Outside of a batch no event is left to handle. -/
def Rests : Place → Prop
  | .head w => w.pending = []
  | .waiting w => w.pending = []
  | _ => True

/-- The worker of the place is in a state that it can reach on its own. -/
structure Sound (server : Server) (x : Place) : Prop where
  reached : ∀ w, x.worker = some w → Runs.Reachable (EpollWorker.step server) EpollWorker.init w
  rests : x.Rests

theorem sound_setup : setup.Sound server := ⟨fun w hw => absurd hw (by simp [worker]), trivial⟩

/-- A step of the place is one of its worker, or the worker stays, begins or ends. -/
theorem worker_step (h : x.step server running l = some y) :
    (∀ w, y.worker = some w → x.worker = some w ∨ w = EpollWorker.init) ∨
      ∃ w w' e, x.worker = some w ∧ y.worker = some w' ∧ w.step server e = some w' ∧
        (e.clients = [] ∨ l = .work e) := by
  cases x with
  | setup =>
    left
    cases l with
    | fail =>
      obtain rfl := Option.some.inj h
      exact fun w hw => absurd hw (by simp [worker])
    | enter =>
      obtain rfl := Option.some.inj h
      exact fun w hw => Or.inr (Option.some.inj hw).symm
    | _ => simp [step] at h
  | head v =>
    left
    cases l with
    | test =>
      obtain rfl := Option.some.inj h
      intro w hw
      cases running with
      | true => exact Or.inl hw
      | false => exact absurd hw (by simp [worker])
    | _ => simp [step] at h
  | waiting v =>
    right
    cases l with
    | wait batch =>
      obtain ⟨v', hv, rfl⟩ := Option.map_eq_some_iff.mp h
      exact ⟨v, v', .wait batch, rfl, rfl, hv, Or.inl rfl⟩
    | _ => simp [step] at h
  | working v =>
    cases l with
    | work e =>
      right
      have hstep : ∃ v', v.step server e = some v' ∧ .working v' = y := by
        cases e with
        | wait => simp [step] at h
        | _ => exact Option.map_eq_some_iff.mp h
      obtain ⟨v', hv, rfl⟩ := hstep
      exact ⟨v, v', e, rfl, rfl, hv, Or.inr rfl⟩
    | turn =>
      left
      dsimp only [step] at h
      split_ifs at h
      obtain rfl := Option.some.inj h
      exact fun w hw => Or.inl hw
    | _ => simp [step] at h
  | done => simp [step] at h

theorem Rests.step (hx : x.Rests) (h : x.step server running l = some y) : y.Rests := by
  cases x with
  | setup =>
    cases l with
    | fail => exact Option.some.inj h ▸ trivial
    | enter => exact Option.some.inj h ▸ rfl
    | _ => simp [Place.step] at h
  | head w =>
    cases l with
    | test =>
      cases running with
      | true => exact Option.some.inj h ▸ hx
      | false => exact Option.some.inj h ▸ trivial
    | _ => simp [Place.step] at h
  | waiting w =>
    cases l with
    | wait batch =>
      obtain ⟨w', -, rfl⟩ := Option.map_eq_some_iff.mp h
      trivial
    | _ => simp [Place.step] at h
  | working w =>
    cases l with
    | work e =>
      cases e with
      | wait => simp [Place.step] at h
      | _ =>
        obtain ⟨w', -, rfl⟩ := Option.map_eq_some_iff.mp h
        trivial
    | turn =>
      dsimp only [Place.step] at h
      split_ifs at h with hempty
      exact Option.some.inj h ▸ hempty
    | _ => simp [Place.step] at h
  | done => simp [Place.step] at h

theorem Sound.step (hx : x.Sound server) (h : x.step server running l = some y) :
    y.Sound server := by
  refine ⟨fun w hw => ?_, hx.rests.step h⟩
  rcases worker_step h with hsame | ⟨v, v', e, hv, hv', hstep, -⟩
  · rcases hsame w hw with hold | rfl
    · exact hx.reached w hold
    · exact ⟨[], rfl⟩
  · obtain rfl := Option.some.inj (hw.symm.trans hv')
    obtain ⟨es, hrun⟩ := hx.reached v hv
    refine ⟨es ++ [e], ?_⟩
    rw [Runs.run_append, hrun]
    exact (Runs.run_cons_eq_some ..).mpr ⟨w, hstep, rfl⟩

theorem registered_iff {fd : ℕ} :
    x.registered fd = true ↔ ∃ w, x.worker = some w ∧ w.registered fd = true := by
  unfold registered
  cases x.worker with
  | none => simp
  | some w => simp

theorem Sound.registered_step (hx : x.Sound server) (h : x.step server running l = some y)
    {fd : ℕ} (hfd : y.registered fd = true) :
    x.registered fd = true ∨ ∃ e, l = .work e ∧ ∃ client ∈ e.clients, fd = client.1 := by
  obtain ⟨w, hw, hregistered⟩ := registered_iff.mp hfd
  rcases worker_step h with hsame | ⟨v, v', e, hv, hv', hstep, hwork⟩
  · rcases hsame w hw with hold | rfl
    · exact Or.inl (registered_iff.mpr ⟨w, hold, hregistered⟩)
    · exact absurd hregistered Bool.false_ne_true
  · obtain rfl := Option.some.inj (hw.symm.trans hv')
    have hkept := EpollWorker.kept_of_reachable (hx.reached v hv)
    rcases hkept.registered_step hstep hregistered with hold | ⟨client, hclient, heq⟩
    · exact Or.inl (registered_iff.mpr ⟨v, hv, hold⟩)
    · rcases hwork with hnone | hwork
      · rw [hnone] at hclient
        exact absurd hclient List.not_mem_nil
      · exact Or.inr ⟨e, hwork, client, hclient, heq⟩

end Place

namespace HttpServer

variable {server : Server} {p q : HttpServer}

/-- No descriptor is open in two workers. -/
structure Apart (server : Server) (p : HttpServer) : Prop where
  sound : ∀ t ∈ p.threads, t.place.Sound server
  disjoint : ∀ (i j : ℕ) (t u : Thread), p.threads[i]? = some t → p.threads[j]? = some u →
    ∀ fd, t.place.registered fd = true → u.place.registered fd = true → i = j

namespace Apart

theorem of_threads (h : Apart server p) (hthreads : q.threads = p.threads) : Apart server q := by
  constructor
  · rw [hthreads]
    exact h.sound
  · rw [hthreads]
    exact h.disjoint

theorem of_nil (h : p.threads = []) : Apart server p := by
  constructor
  · rw [h]
    exact fun t ht => absurd ht List.not_mem_nil
  · rw [h]
    exact fun i j t u hi => absurd hi (by simp)

theorem set (h : Apart server p) {i : ℕ} {u : Thread} (hthreads : q.threads = p.threads.set i u)
    (hu : u.place.Sound server)
    (halone : ∀ (j : ℕ) (v : Thread), p.threads[j]? = some v → j ≠ i →
      ∀ fd, u.place.registered fd = true → v.place.registered fd = false) :
    Apart server q := by
  constructor
  · intro t ht
    rw [hthreads] at ht
    rcases List.mem_or_eq_of_mem_set ht with ht | rfl
    · exact h.sound t ht
    · exact hu
  · intro j k t v hj hk fd htfd hvfd
    rw [hthreads, List.getElem?_set] at hj hk
    split_ifs at hj hk with hij hlt hik hik hik
    · exact hij.symm.trans hik
    · obtain rfl := Option.some.inj hj
      exact absurd (hvfd.symm.trans (halone k v hk (Ne.symm hik) fd htfd)) (by simp)
    · obtain rfl := Option.some.inj hk
      exact absurd (htfd.symm.trans (halone j t hj (Ne.symm hij) fd hvfd)) (by simp)
    · exact h.disjoint j k t v hj hk fd htfd hvfd

theorem append (h : Apart server p) {u : Thread} (hthreads : q.threads = p.threads ++ [u])
    (hu : u.place = .setup) : Apart server q := by
  have hnone : ∀ fd, u.place.registered fd = false := by
    intro fd
    rw [hu]
    rfl
  constructor
  · intro t ht
    rw [hthreads] at ht
    rcases List.mem_append.mp ht with ht | ht
    · exact h.sound t ht
    · rw [List.mem_singleton.mp ht, hu]
      exact Place.sound_setup
  · intro j k t v hj hk fd htfd hvfd
    rw [hthreads, List.getElem?_append] at hj hk
    have hold : ∀ {n : ℕ} {r : Thread}, r.place.registered fd = true →
        (if n < p.threads.length then p.threads[n]? else [u][n - p.threads.length]?) = some r →
          p.threads[n]? = some r := by
      intro n r hr hn
      split_ifs at hn with hlt
      · exact hn
      · obtain rfl := List.mem_singleton.mp (List.mem_of_getElem? hn)
        exact absurd (hr.symm.trans (hnone fd)) (by simp)
    exact h.disjoint j k t v (hold htfd hj) (hold hvfd hk) fd htfd hvfd

/-- What a worker has open behind a step that it may take, no other one has. -/
theorem alone (h : Apart server p) {i : ℕ} {t : Thread} {x : Place} {l : WorkerLabel}
    (hthread : p.threads[i]? = some t) (htake : p.canTake i l = true)
    (hx : t.place.step server p.loopRunning l = some x) (j : ℕ) (u : Thread)
    (hj : p.threads[j]? = some u) (hji : j ≠ i) (fd : ℕ) (hxfd : x.registered fd = true) :
    u.place.registered fd = false := by
  by_contra hufd
  rw [Bool.not_eq_false] at hufd
  have hsound := h.sound t (List.mem_of_getElem? hthread)
  rcases hsound.registered_step hx hxfd with hold | ⟨e, rfl, client, hclient, rfl⟩
  · exact hji (h.disjoint j i u t hj hthread fd hufd hold)
  · have hothers := List.all_eq_true.mp htake client hclient
    have hu := List.all_eq_true.mp hothers u
      (List.mem_eraseIdx_iff_getElem?.mpr ⟨j, hji, hj⟩)
    rw [hufd] at hu
    exact absurd hu (by simp)

theorem loopStop (h : Apart server p) (last : Bool) : Apart server (p.loopStop last) := by
  unfold HttpServer.loopStop
  split_ifs
  · exact h.of_threads rfl
  · exact of_nil rfl
  · exact h

theorem call (h : Apart server p) (c : OwnerCall) : Apart server (p.call c) := by
  have hoff : Apart server { p with running := false } := h.of_threads rfl
  cases c with
  | start =>
    refine h.of_threads ?_
    unfold HttpServer.call
    dsimp only
    split_ifs <;> rfl
  | stop =>
    unfold HttpServer.call
    dsimp only
    split_ifs
    · exact hoff.loopStop false
    · exact h
  | destroy => exact hoff.loopStop true

theorem step (h : Apart server p) (l : ServerLabel) (hstep : p.step server l = some q) :
    Apart server q := by
  cases steps_of_step hstep with
  | called c => exact h.call c
  | spawned => exact h.append rfl rfl
  | threw => exact h.of_threads rfl
  | started => exact h.of_threads rfl
  | joined k last t hstage hthread =>
    refine h.set rfl (h.sound t (List.mem_of_getElem? hthread)) fun j v hj hjk fd htfd => ?_
    by_contra hvfd
    rw [Bool.not_eq_false] at hvfd
    exact hjk (h.disjoint j k v t hj hthread fd hvfd htfd)
  | passed => exact h.of_threads rfl
  | stopped => exact of_nil rfl
  | moved i l t x hthread htake hx =>
    have hsound := h.sound t (List.mem_of_getElem? hthread)
    exact h.set rfl (hsound.step hx) (h.alone hthread htake hx)

end Apart

theorem apart_of_reachable (h : Runs.Reachable (step server) init p) : Apart server p :=
  Runs.invariant_of_reachable (fun _ l _ hp hstep => hp.step l hstep) (Apart.of_nil rfl) h

end HttpServer

/-- Beside the other workers each one does what it could do alone, and no descriptor of a
client is open in two of them. -/
theorem workers_apart (server : Server) (p : HttpServer)
    (h : Runs.Reachable (HttpServer.step server) HttpServer.init p) :
    (∀ t ∈ p.threads, ∀ w, t.place.worker = some w →
      Runs.Reachable (EpollWorker.step server) EpollWorker.init w) ∧
    ∀ (i j : ℕ) (t u : Thread), p.threads[i]? = some t → p.threads[j]? = some u →
      ∀ fd, t.place.registered fd = true → u.place.registered fd = true → i = j := by
  have hp := HttpServer.apart_of_reachable h
  exact ⟨fun t ht => (hp.sound t ht).reached, hp.disjoint⟩

def twoClients : List ServerLabel :=
  [.call .start, .spawn, .spawn, .thread 0 .enter, .thread 1 .enter, .thread 0 .test,
    .thread 1 .test, .thread 0 (.wait [.listener]), .thread 1 (.wait [.listener]),
    .thread 0 (.work (.listen [(7, 0)])), .thread 1 (.work (.listen [(8, 0)]))]

theorem workers_apart_twoClients :
    ∃ p, Runs.run (HttpServer.step (bareServer .epoll)) HttpServer.init twoClients = some p ∧
      (p.threads.map fun t => (t.place.registered 7, t.place.registered 8)) =
        [(true, false), (false, true)] ∧
      ∀ t ∈ p.threads, ∀ w, t.place.worker = some w →
        Runs.Reachable (EpollWorker.step (bareServer .epoll)) EpollWorker.init w := by
  have hrun : (Runs.run (HttpServer.step (bareServer .epoll)) HttpServer.init twoClients).map
      (fun p => p.threads.map fun t => (t.place.registered 7, t.place.registered 8)) =
        some [(true, false), (false, true)] := by decide +kernel
  obtain ⟨p, hp, heq⟩ := Option.map_eq_some_iff.mp hrun
  exact ⟨p, hp, heq, (workers_apart (bareServer .epoll) p ⟨twoClients, hp⟩).1⟩

end WarpApi

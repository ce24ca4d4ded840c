import WarpApi.LiveDispatch
import WarpApi.UringViews

/-!
Which connections the timer can end. The io_uring loop links a session in the wheel
when it is accepted, and takes it out only to close it. The epoll loop links it when
an event has found it active, so a client that sends nothing is never timed out.
-/
namespace WarpApi

/-- Every session of the pool whose socket is open is linked in the timer wheel. -/
def Worker.AllLinked (w : Worker) : Prop :=
  ∀ sid s, w.pool sid = some s → s.isOpen = true → w.wheel sid = true

def EpollWorker.AllLinked (w : EpollWorker) : Prop :=
  ∀ a s, w.inUse a = true → w.memory a = some s → s.isOpen = true → w.wheel a = true

/-- A session that is not linked has run out of time. -/
def LinkedOrExpired (v : View) : Prop :=
  ∀ s, v.session = some s → v.linked = true ∨ s.status = .closing ∧ s.isOpen = false

theorem linkedOrExpired_localStep {server : Server} {sid : SessionId} {ring : Ring} {e : Event}
    {v v' : View} (h : LinkedOrExpired v) (hstep : LocalStep server sid ring e v v') :
    LinkedOrExpired v' := by
  intro t ht
  cases hstep with
  | born => exact Or.inl rfl
  | released => simp at ht
  | ignored => exact h t ht
  | @handled e op next added s t' u rest linked linked' wire _ hactive _ htouched =>
    have hlinked : linked = true := by
      rcases h s rfl with hlinked | ⟨hclosing, -⟩
      · exact hlinked
      · rw [hactive] at hclosing
        simp at hclosing
    rcases htouched with ⟨-, hsame⟩ | ⟨-, hnow⟩
    · exact Or.inl (hsame.trans hlinked)
    · exact Or.inl hnow
  | performed => exact h t ht
  | refused => exact h t ht
  | expiredFreed => simp at ht
  | expiredKept =>
    obtain rfl := Option.some.inj ht
    exact Or.inr ⟨rfl, by simp [Session.close, Session.isOpen]⟩

theorem allLinked_of_reachable {server : Server} {entries : ℕ} {w : Worker}
    (h : Runs.Reachable (Worker.step server) (Worker.init entries) w) : w.AllLinked := by
  intro sid s hs hopen
  have hview := Worker.views_of_reachable (I := fun _ => LinkedOrExpired)
    (fun _ _ hs => absurd hs (by simp [View.unused]))
    (fun _ _ _ _ _ hv _ hstep => linkedOrExpired_localStep hv hstep) h sid
  rcases hview s hs with hlinked | ⟨-, hclosed⟩
  · exact hlinked
  · exact absurd (hclosed.symm.trans hopen) Bool.false_ne_true

namespace EpollWorker

/-- The session whose timer the event sets: it has been active, and the last time is a
tick ago. -/
def refreshes (server : Server) (w : EpollWorker) : LoopEvent → Option SessionId
  | .serve e false now =>
    match w.pending with
    | .client fd :: _ =>
      ((w.table[fd]?).join.bind w.memory).bind fun s =>
        (serveSession server s e).bind fun (activity, t) =>
          if activity && Worker.tickPassed now t.lastActivityTick then some s.self else none
    | _ => none
  | _ => none

/-- The sessions whose timer the events of a run set. -/
def refreshed (server : Server) : EpollWorker → List LoopEvent → List SessionId
  | _, [] => []
  | w, e :: es =>
    match w.step server e with
    | none => []
    | some w' => (w.refreshes server e).toList ++ refreshed server w' es

theorem Kept.place_eq {w : EpollWorker} (hw : Kept w) {a b : Slot} {s t : Session}
    (ha : w.inUse a = true) (hs : w.memory a = some s) (hb : w.inUse b = true)
    (ht : w.memory b = some t) (hself : s.self = t.self) : a = b := by
  have hsa := holder_eq ha hs
  rw [hself] at hsa
  exact hw.handles.distinct a b t.self _ _ hsa (holder_eq hb ht)

theorem Kept.self_lt {w : EpollWorker} (hw : Kept w) {a : Slot} {s : Session}
    (ha : w.inUse a = true) (hs : w.memory a = some s) : s.self < w.accepted :=
  (hw.handles.fresh a s.self _ (holder_eq ha hs)).1

/-- A session in use that was in use before; at most this event has linked it. -/
structure Carried (w w' : EpollWorker) (refresh : Option SessionId) (a : Slot) (s t : Session) :
    Prop where
  inUse : w.inUse a = true
  memory : w.memory a = some s
  self_eq : t.self = s.self
  opened : t.isOpen = true → s.isOpen = true
  wheel_iff : w'.wheel a = true ↔ w.wheel a = true ∨ refresh = some t.self

structure Arrived (w w' : EpollWorker) (a : Slot) (t : Session) : Prop where
  new : w.accepted ≤ t.self
  opened : t.isOpen = true
  unlinked : w'.wheel a = false

/-- What accepting makes of the pool: the wheel stays as it is. -/
structure Accepts (w w' : EpollWorker) : Prop where
  wheel_eq : w'.wheel = w.wheel
  accepted_le : w.accepted ≤ w'.accepted
  kept : ∀ a, w.inUse a = true → w'.inUse a = true ∧ w'.memory a = w.memory a
  added : ∀ a t, w.inUse a = false → w'.inUse a = true → w'.memory a = some t →
    w.accepted ≤ t.self ∧ t.isOpen = true

namespace Accepts

variable {server : Server}

theorem refl (w : EpollWorker) : Accepts w w where
  wheel_eq := rfl
  accepted_le := le_refl _
  kept _ h := ⟨h, rfl⟩
  added _ _ hfree huse _ := absurd (hfree.symm.trans huse) Bool.false_ne_true

theorem trans {u v w : EpollWorker} (huv : Accepts u v) (hvw : Accepts v w) : Accepts u w where
  wheel_eq := hvw.wheel_eq.trans huv.wheel_eq
  accepted_le := huv.accepted_le.trans hvw.accepted_le
  kept a h := by
    obtain ⟨huse, hmemory⟩ := huv.kept a h
    obtain ⟨huse', hmemory'⟩ := hvw.kept a huse
    exact ⟨huse', hmemory'.trans hmemory⟩
  added a t hfree huse ht := by
    cases hv : v.inUse a with
    | true => exact huv.added a t hfree hv ((hvw.kept a hv).2.symm.trans ht)
    | false =>
      obtain ⟨hnew, hopen⟩ := hvw.added a t hv huse ht
      exact ⟨huv.accepted_le.trans hnew, hopen⟩

theorem acceptOne {w w' : EpollWorker} {fd : ℕ} {a : Slot}
    (h : w.acceptOne server (fd, a) = some w') :
    Accepts w w' ∧ w.inUse a = false ∧ w'.inUse a = true ∧
      w'.memory a = some (Session.init server.settings w.accepted fd) := by
  obtain ⟨-, hfree, -, rfl⟩ := acceptOne_cases h
  have hne : ∀ b, w.inUse b = true → b ≠ a := by
    rintro b hb rfl
    exact absurd (hfree.symm.trans hb) Bool.false_ne_true
  refine ⟨?_, hfree, Function.update_self .., Function.update_self ..⟩
  constructor
  · rfl
  · exact Nat.le_succ _
  · intro b hb
    exact ⟨(Function.update_of_ne (hne b hb) ..).trans hb, Function.update_of_ne (hne b hb) ..⟩
  · intro b t hb huse ht
    rcases HandleTable.update_eq_some ht with ⟨-, hinit⟩ | ⟨hba, -⟩
    · obtain rfl := Option.some.inj hinit
      refine ⟨le_refl _, ?_⟩
      simp [Session.init, Session.isOpen, socketErrorValue]
    · exact absurd ((Function.update_of_ne hba ..).symm.trans huse) (by simp [hb])

theorem foldlM {w w' : EpollWorker} {clients : List (ℕ × Slot)}
    (h : clients.foldlM (EpollWorker.acceptOne server) w = some w') : Accepts w w' := by
  induction clients generalizing w with
  | nil => exact Option.some.inj h ▸ refl w
  | cons client clients ih =>
    rw [List.foldlM_cons] at h
    obtain ⟨u, hu, hrest⟩ := Option.bind_eq_some_iff.mp h
    exact (acceptOne hu).1.trans (ih hrest)

theorem unlinked {w w' : EpollWorker} (h : Accepts w w') (hw : Kept w) {a : Slot}
    (hfree : w.inUse a = false) : w'.wheel a = false := by
  rw [h.wheel_eq]
  by_contra hlinked
  have huse := hw.linked a (by simpa using hlinked)
  exact absurd (hfree.symm.trans huse) Bool.false_ne_true

end Accepts

theorem exists_arrived {server : Server} {w w' : EpollWorker} (hw : Kept w)
    {clients : List (ℕ × Slot)} (hne : clients ≠ [])
    (h : clients.foldlM (acceptOne server) w = some w') :
    ∃ a t, w'.inUse a = true ∧ w'.memory a = some t ∧ Arrived w w' a t := by
  have hall := Accepts.foldlM h
  cases clients with
  | nil => exact absurd rfl hne
  | cons client clients =>
    obtain ⟨fd, a⟩ := client
    rw [List.foldlM_cons] at h
    obtain ⟨u, hu, hrest⟩ := Option.bind_eq_some_iff.mp h
    obtain ⟨-, hfree, huse, hmemory⟩ := Accepts.acceptOne hu
    obtain ⟨huse', hmemory'⟩ := (Accepts.foldlM hrest).kept a huse
    rw [hmemory] at hmemory'
    obtain ⟨-, hopen⟩ := hall.added a _ hfree huse' hmemory'
    exact ⟨a, _, huse', hmemory', le_refl _, hopen, hall.unlinked hw hfree⟩

section handle

variable {server : Server} {w w' : EpollWorker} {a : Slot} {s : Session} {e : EpollEvent}
  {now : ℕ}

theorem carried_other (hw : Kept w) (ha : w.inUse a = true) (hs : w.memory a = some s) {b : Slot}
    {u : Session} (hba : b ≠ a) (hb : w.inUse b = true) (hu : w.memory b = some u)
    (hwheel : w'.wheel b = w.wheel b) {refresh : Option SessionId}
    (hrefresh : ∀ id, refresh = some id → id = s.self) : Carried w w' refresh b u u where
  inUse := hb
  memory := hu
  self_eq := rfl
  opened := id
  wheel_iff := by
    rw [hwheel]
    refine ⟨Or.inl, fun h => h.resolve_right fun heq => ?_⟩
    exact hba (hw.place_eq hb hu ha hs (hrefresh _ heq))

theorem carried_handle (hw : Kept w) (ha : w.inUse a = true) (hs : w.memory a = some s)
    (hopen : s.isOpen = true) (h : w.handle server a s e false now = some w') {b : Slot}
    {u : Session} (hb : w'.inUse b = true) (hu : w'.memory b = some u) :
    ∃ v, Carried w w' ((serveSession server s e).bind fun (activity, t) =>
      if activity && Worker.tickPassed now t.lastActivityTick then some s.self else none)
      b v u := by
  unfold handle at h
  obtain ⟨⟨activity, t⟩, hserve, heq⟩ := Option.map_eq_some_iff.mp h
  have hself := (sameClient_serveSession hopen hserve).self_eq
  rw [hserve, Option.bind_some]
  dsimp only at heq ⊢
  rw [if_neg Bool.false_ne_true] at heq
  unfold touch at heq
  by_cases hrefresh : activity = true ∧ Worker.tickPassed now t.lastActivityTick = true
  · rw [if_pos hrefresh.1, if_pos hrefresh.2] at heq
    rw [if_pos (by simp [hrefresh])]
    subst heq
    rcases HandleTable.update_eq_some hu with ⟨rfl, hnow⟩ | ⟨hba, hu⟩
    · obtain rfl := Option.some.inj hnow
      refine ⟨s, ha, hs, hself, fun _ => hopen, ?_⟩
      rw [show ({ t with lastActivityTick := now } : Session).self = s.self from hself]
      exact iff_of_true (Function.update_self ..) (Or.inr rfl)
    · have hold := (Function.update_of_ne hba ..).symm.trans hu
      exact ⟨u, carried_other hw ha hs hba hb hold (Function.update_of_ne hba ..)
        fun id hid => (Option.some.inj hid).symm⟩
  · have hput : w' = w.put a s t := by
      rw [← heq]
      split_ifs with hactivity htick
      · exact absurd ⟨hactivity, htick⟩ hrefresh
      · rfl
      · rfl
    rw [if_neg (by simpa using hrefresh)]
    subst hput
    rcases HandleTable.update_eq_some hu with ⟨rfl, hnow⟩ | ⟨hba, hu⟩
    · obtain rfl := Option.some.inj hnow
      exact ⟨s, ha, hs, hself, fun _ => hopen, by simp [put]⟩
    · refine ⟨u, carried_other hw ha hs hba hb hu ?_ ?_⟩
      · rfl
      · intro id hid
        simp at hid

theorem carried_release (ha : w.inUse a = true) {t : Session} {b : Slot} {u : Session}
    (hb : (w.release a t).inUse b = true) (hu : (w.release a t).memory b = some u) :
    b ≠ a ∧ Carried w (w.release a t) none b u u := by
  have hba : b ≠ a := by
    rintro rfl
    exact absurd ((Function.update_self ..).symm.trans hb) Bool.false_ne_true
  refine ⟨hba, (Function.update_of_ne hba ..).symm.trans hb,
    (Function.update_of_ne hba ..).symm.trans hu, rfl, id, ?_⟩
  rw [show (w.release a t).wheel b = w.wheel b from Function.update_of_ne hba ..]
  simp

end handle

/-- What a session in use has been before these accepts, unless one of them has brought it. -/
theorem session_of_accepts {server : Server} {w w' : EpollWorker} (hw : Kept w)
    {clients : List (ℕ × Slot)} (h : clients.foldlM (acceptOne server) w = some w') {b : Slot}
    {u : Session} (hb : w'.inUse b = true) (hu : w'.memory b = some u) :
    Carried w w' none b u u ∨ clients ≠ [] ∧ Arrived w w' b u := by
  have hall := Accepts.foldlM h
  cases hfree : w.inUse b with
  | true =>
    obtain ⟨-, hmemory⟩ := hall.kept b hfree
    refine Or.inl ⟨hfree, hmemory.symm.trans hu, rfl, id, ?_⟩
    rw [hall.wheel_eq]
    simp
  | false =>
    obtain ⟨hnew, hopen⟩ := hall.added b u hfree hb hu
    refine Or.inr ⟨?_, hnew, hopen, hall.unlinked hw hfree⟩
    rintro rfl
    obtain rfl := Option.some.inj h
    exact absurd (hfree.symm.trans hb) Bool.false_ne_true

/-- What a session in use has been before the event, unless the event has brought it. -/
theorem session_before {server : Server} {w w' : EpollWorker} (hw : Kept w) {e : LoopEvent}
    (h : w.step server e = some w') {b : Slot} {u : Session} (hb : w'.inUse b = true)
    (hu : w'.memory b = some u) :
    (∃ v, Carried w w' (w.refreshes server e) b v u) ∨
      e.clients ≠ [] ∧ Arrived w w' b u := by
  cases hw.steps h with
  | waited => exact Or.inl ⟨u, hb, hu, rfl, id, by simp [refreshes]⟩
  | @accepted _ rest accepts hpending haccepts =>
    rcases session_of_accepts (hw.pop hpending).1 haccepts hb hu with hv | harrived
    · exact Or.inl ⟨u, hv.inUse, hv.memory, rfl, id, hv.wheel_iff⟩
    · exact Or.inr ⟨harrived.1, harrived.2.new, harrived.2.opened, harrived.2.unlinked⟩
  | retried accepts hpending haccepts =>
    rcases session_of_accepts hw haccepts hb hu with hv | harrived
    · exact Or.inl ⟨u, hv⟩
    · exact Or.inr harrived
  | @served _ rest fd a s e hangUp now hpending hbits htable hs ha hsocket hhandle =>
    left
    cases hangUp with
    | false =>
      obtain ⟨v, hv⟩ := carried_handle (hw.pop hpending).1 ha hs (isOpen_of_socket hsocket) hhandle
        hb hu
      refine ⟨v, hv.inUse, hv.memory, hv.self_eq, hv.opened, ?_⟩
      rw [hv.wheel_iff, refreshes, hpending]
      dsimp only
      rw [htable, Option.join_some, Option.bind_some, hs, Option.bind_some]
    | true =>
      unfold handle at hhandle
      obtain ⟨⟨activity, t⟩, -, rfl⟩ := Option.map_eq_some_iff.mp hhandle
      dsimp only at hb hu ⊢
      rw [if_pos rfl] at hb hu ⊢
      obtain ⟨hba, hcarried⟩ := carried_release (w := EpollWorker.put _ a s t) ha hb hu
      refine ⟨u, hcarried.inUse, ?_, rfl, id, hcarried.wheel_iff⟩
      exact (Function.update_of_ne hba ..).symm.trans hcarried.memory
  | expired _ hlinked => exact Or.inl ⟨u, (carried_release (hw.linked _ hlinked) hb hu).2⟩

/-- A session in use is linked exactly if one of these events has set its timer. -/
structure LinkedBy (w : EpollWorker) (ids : List SessionId) : Prop where
  kept : Kept w
  linked_iff : ∀ a s, w.inUse a = true → w.memory a = some s →
    (w.wheel a = true ↔ s.self ∈ ids)
  old : ∀ id ∈ ids, id < w.accepted

theorem accepted_handle {server : Server} {w w' : EpollWorker} {a : Slot} {s : Session}
    {e : EpollEvent} {hangUp : Bool} {now : ℕ} (h : w.handle server a s e hangUp now = some w') :
    w'.accepted = w.accepted := by
  unfold handle at h
  obtain ⟨⟨activity, t⟩, -, rfl⟩ := Option.map_eq_some_iff.mp h
  dsimp only
  split_ifs
  · rfl
  · unfold touch
    split_ifs
    · rfl
    · rfl
  · rfl

theorem accepted_le_step {server : Server} {w w' : EpollWorker} (hw : Kept w) {e : LoopEvent}
    (h : w.step server e = some w') : w.accepted ≤ w'.accepted := by
  cases hw.steps h with
  | waited => exact le_refl _
  | accepted accepts hpending haccepts => exact (Accepts.foldlM haccepts).accepted_le
  | retried accepts hpending haccepts => exact (Accepts.foldlM haccepts).accepted_le
  | served e hangUp now hpending hbits htable hs ha hsocket hhandle =>
    exact (accepted_handle hhandle).ge
  | expired => exact le_refl _

theorem refreshes_lt {server : Server} {w : EpollWorker} (hw : Kept w) {e : LoopEvent}
    {id : SessionId} (h : w.refreshes server e = some id) : id < w.accepted := by
  unfold refreshes at h
  split at h
  · split at h
    · rename_i fd rest hpending
      obtain ⟨a, s, htable, hs, ha, -⟩ := hw.found (hw.ready fd (hpending ▸ List.mem_cons_self ..))
      rw [htable, Option.join_some, Option.bind_some, hs, Option.bind_some] at h
      obtain ⟨⟨activity, t⟩, -, hid⟩ := Option.bind_eq_some_iff.mp h
      dsimp only at hid
      split_ifs at hid
      exact Option.some.inj hid ▸ hw.self_lt ha hs
    · simp at h
  · simp at h

theorem linkedBy_init : LinkedBy init [] where
  kept := kept_init
  linked_iff _ _ h := absurd h Bool.false_ne_true
  old _ h := absurd h List.not_mem_nil

theorem LinkedBy.step {server : Server} {w w' : EpollWorker} {ids : List SessionId}
    (hw : LinkedBy w ids) {e : LoopEvent} (h : w.step server e = some w') :
    LinkedBy w' (ids ++ (w.refreshes server e).toList) := by
  refine ⟨hw.kept.step e h, fun b u hb hu => ?_, fun id hid => ?_⟩
  · rw [List.mem_append, Option.mem_toList]
    rcases session_before hw.kept h hb hu with ⟨v, hv⟩ | ⟨hclients, hu'⟩
    · rw [hv.wheel_iff, hw.linked_iff b v hv.inUse hv.memory, ← hv.self_eq]
    · refine iff_of_false (by simp [hu'.unlinked]) ?_
      rintro (hmem | hrefresh)
      · exact absurd (hw.old _ hmem) (Nat.not_lt.mpr hu'.new)
      · cases e with
        | serve => exact absurd rfl hclients
        | _ => simp [refreshes] at hrefresh
  · refine lt_of_lt_of_le ?_ (accepted_le_step hw.kept h)
    rcases List.mem_append.mp hid with hmem | hmem
    · exact hw.old id hmem
    · exact refreshes_lt hw.kept (Option.mem_toList.mp hmem)

theorem LinkedBy.run {server : Server} {w w' : EpollWorker} {ids : List SessionId}
    (hw : LinkedBy w ids) {es : List LoopEvent}
    (h : Runs.run (EpollWorker.step server) w es = some w') :
    LinkedBy w' (ids ++ refreshed server w es) := by
  induction es generalizing w ids with
  | nil =>
    obtain rfl := Option.some.inj h
    rwa [refreshed, List.append_nil]
  | cons e es ih =>
    obtain ⟨u, hu, hrest⟩ := (Runs.run_cons_eq_some w w' e es).mp h
    have hnext := ih (hw.step hu) hrest
    rw [refreshed, hu]
    rwa [List.append_assoc] at hnext

/-- As long as nobody is accepted, and only then, all that are there stay linked. -/
theorem allLinked_step_iff {server : Server} {w w' : EpollWorker} (hw : Kept w)
    (hall : w.AllLinked) {e : LoopEvent} (h : w.step server e = some w') :
    w'.AllLinked ↔ e.clients = [] := by
  constructor
  · intro hall'
    by_contra hne
    have hnew : ∀ v, Kept v → e.clients.foldlM (acceptOne server) v = some w' → False := by
      intro v hv haccepts
      obtain ⟨a, t, ha, ht, harrived⟩ := exists_arrived hv hne haccepts
      have hlinked := hall' a t ha ht harrived.opened
      exact absurd (harrived.unlinked.symm.trans hlinked) Bool.false_ne_true
    cases hw.steps h with
    | accepted _ hpending haccepts => exact hnew _ (hw.pop hpending).1 haccepts
    | retried _ hpending haccepts => exact hnew w hw haccepts
    | _ => exact hne rfl
  · intro hnobody b u hb hu hopen
    rcases session_before hw h hb hu with ⟨v, hv⟩ | ⟨hne, -⟩
    · exact hv.wheel_iff.mpr (Or.inl (hall b v hv.inUse hv.memory (hv.opened hopen)))
    · exact absurd hnobody hne

end EpollWorker

/-- In the io_uring loop every open session is always linked. In the epoll loop the open
sessions that are linked are those that an event has found active since their accept,
so that all of them are linked all the time exactly if nobody is ever accepted. -/
theorem all_linked_iff (server : Server) :
    (∀ entries w, Runs.Reachable (Worker.step server) (Worker.init entries) w → w.AllLinked) ∧
    ∀ es w, Runs.run (EpollWorker.step server) EpollWorker.init es = some w →
      (∀ a s, w.inUse a = true → w.memory a = some s →
        (w.wheel a = true ↔ s.self ∈ EpollWorker.refreshed server EpollWorker.init es)) ∧
      ((∀ pre u, pre <+: es → Runs.run (EpollWorker.step server) EpollWorker.init pre = some u →
          u.AllLinked) ↔
        ∀ e ∈ es, e.clients = []) := by
  refine ⟨fun entries w h => allLinked_of_reachable h, fun es w hrun => ⟨?_, ?_⟩⟩
  · have hlinked := EpollWorker.linkedBy_init.run hrun
    rw [List.nil_append] at hlinked
    exact hlinked.linked_iff
  · have hguarded := Runs.always_iff_guarded (I := EpollWorker.Kept) (P := EpollWorker.AllLinked)
      (fun w e w' hw hstep => hw.step e hstep)
      (fun w e w' hw hall hstep => EpollWorker.allLinked_step_iff hw hall hstep)
      EpollWorker.kept_init (fun a s h => absurd h Bool.false_ne_true) hrun
    rw [hguarded, Runs.guarded_iff_forall_mem hrun]

def oneSilent : List LoopEvent :=
  [.wait [.listener], .listen [(7, 0), (8, 1)], .wait [.client 7, .client 8],
    .serve ⟨false, true, [], []⟩ false 5000,
    .serve ⟨true, true, [.data plainRequest, .wouldBlock], [.sent 115]⟩ false 5000]

theorem all_linked_iff_oneSilent :
    ∃ w u, Runs.run (EpollWorker.step (bareServer .epoll)) EpollWorker.init oneSilent = some w ∧
      (w.wheel 0, w.wheel 1) = (false, true) ∧
      (∀ a s, w.inUse a = true → w.memory a = some s → (w.wheel a = true ↔
        s.self ∈ EpollWorker.refreshed (bareServer .epoll) EpollWorker.init oneSilent)) ∧
      Runs.run (Worker.step (bareServer .ioUring)) (Worker.init 8) [.accept 5 true] = some u ∧
      (u.pool 0).isSome = true ∧ u.AllLinked := by
  have hrun : (Runs.run (EpollWorker.step (bareServer .epoll)) EpollWorker.init oneSilent).map
      (fun w => (w.wheel 0, w.wheel 1)) = some (false, true) := by
    decide +kernel
  have hrun' : (Runs.run (Worker.step (bareServer .ioUring)) (Worker.init 8) [.accept 5 true]).map
      (fun u => (u.pool 0).isSome) = some true := by
    decide +kernel
  obtain ⟨w, hw, hwheel⟩ := Option.map_eq_some_iff.mp hrun
  obtain ⟨u, hu, hpool⟩ := Option.map_eq_some_iff.mp hrun'
  refine ⟨w, u, hw, hwheel, ?_, hu, hpool, ?_⟩
  · exact ((all_linked_iff (bareServer .epoll)).2 oneSilent w hw).1
  · exact (all_linked_iff (bareServer .ioUring)).1 8 u ⟨_, hu⟩

/-- A client that has connected and is only ever found writable is not linked. -/
theorem silent_client_unlinked :
    ¬ ∀ server w, Runs.Reachable (EpollWorker.step server) EpollWorker.init w → w.AllLinked := by
  intro hall
  have hrun : (Runs.run (EpollWorker.step (bareServer .epoll)) EpollWorker.init oneSilent).map
      (fun w => (w.inUse 0, (w.memory 0).map Session.isOpen, w.wheel 0)) =
        some (true, some true, false) := by
    decide +kernel
  obtain ⟨w, hw, heq⟩ := Option.map_eq_some_iff.mp hrun
  simp only [Prod.mk.injEq] at heq
  obtain ⟨huse, hmemory, hwheel⟩ := heq
  obtain ⟨s, hs, hopen⟩ := Option.map_eq_some_iff.mp hmemory
  have hlinked := hall (bareServer .epoll) w ⟨oneSilent, hw⟩ 0 s huse hs hopen
  exact absurd (hwheel.symm.trans hlinked) Bool.false_ne_true

end WarpApi

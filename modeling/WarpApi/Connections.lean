import WarpApi.Timeouts
import WarpApi.Library.SideBySide

/-!
The epoll worker as its connections side by side. The connections share the worker's
thread, its session table, the memory of its pool and its timer wheel, and descriptors
and places are used again. As far as the modelled fields go all of this is without effect
on what a client is answered: every session is what its own events have made of it. What
is written outside an array is recorded only; `ConfinedWrites` is about runs without it.
-/
namespace WarpApi

/-- What happens to one connection. -/
inductive ClientAct
  | accept (fd : ℕ)
  /-- An event of its descriptor, handled at this time. -/
  | turn (e : EpollEvent) (now : ℕ)
  /-- An event with EPOLLERR or EPOLLHUP, behind which the session is released. -/
  | hangUp (e : EpollEvent)
  | timeout
  deriving DecidableEq

/-- The session behind an event that was handled at this time. -/
def Session.touched (s : Session) (activity : Bool) (now : ℕ) : Session :=
  if activity && Worker.tickPassed now s.lastActivityTick then { s with lastActivityTick := now }
  else s

/-- A connection alone in the world: it has no session before it is accepted and none
after it was released. -/
def connectionStep (server : Server) (id : SessionId) :
    Option Session → ClientAct → Option (Option Session)
  | none, .accept fd => some (some (Session.init server.settings id fd))
  | some s, .turn e now =>
    (serveSession server s e).map fun (activity, t) => some (t.touched activity now)
  | some s, .hangUp e => (serveSession server s e).map fun _ => none
  | some _, .timeout => some none
  | _, _ => none

namespace EpollWorker

def acceptActs : SessionId → List (ℕ × Slot) → List (SessionId × ClientAct)
  | _, [] => []
  | id, (fd, _) :: accepts => (id, .accept fd) :: acceptActs (id + 1) accepts

/-- The connections that a step is about, and what it does to them. -/
def acts (w : EpollWorker) : LoopEvent → List (SessionId × ClientAct)
  | .wait _ => []
  | .listen accepts => acceptActs w.accepted accepts
  | .retry accepts => acceptActs w.accepted accepts
  | .serve e hangUp now =>
    match w.pending with
    | .client fd :: _ => (((w.table[fd]?).join.bind w.memory).map fun s =>
        (s.self, if hangUp then .hangUp e else .turn e now)).toList
    | _ => []
  | .expire a => ((w.memory a).map fun s => (s.self, .timeout)).toList

def actsOf (server : Server) (es : List LoopEvent) : List (SessionId × ClientAct) :=
  Runs.translate (step server) acts init es

/-- The sessions of these connections are those that the worker has in use. -/
def Represents (w : EpollWorker) (x : SessionId → Option Session) : Prop :=
  ∀ id s, x id = some s ↔ ∃ a, w.inUse a = true ∧ w.memory a = some s ∧ s.self = id

/-- Only the session with this number changes, and its place is this one. -/
structure OneChanges (w w' : EpollWorker) (a : Slot) (id : SessionId) (o : Option Session) :
    Prop where
  memory_eq : ∀ b, b ≠ a → w'.memory b = w.memory b
  inUse_eq : ∀ b, b ≠ a → w'.inUse b = w.inUse b
  now : ∀ s, o = some s ↔ w'.inUse a = true ∧ w'.memory a = some s
  self_eq : ∀ s, o = some s → s.self = id
  place : ∀ b s, w.inUse b = true → w.memory b = some s → (s.self = id ↔ b = a)

theorem Represents.update {w w' : EpollWorker} {x : SessionId → Option Session} {a : Slot}
    {id : SessionId} {o : Option Session} (h : w.Represents x) (hone : OneChanges w w' a id o) :
    w'.Represents (Function.update x id o) := by
  intro n s
  by_cases hn : n = id
  · subst hn
    rw [Function.update_self]
    constructor
    · intro ho
      obtain ⟨huse, hmemory⟩ := (hone.now s).mp ho
      exact ⟨a, huse, hmemory, hone.self_eq s ho⟩
    · rintro ⟨b, huse, hmemory, hself⟩
      by_cases hba : b = a
      · subst hba
        exact (hone.now s).mpr ⟨huse, hmemory⟩
      · rw [hone.inUse_eq b hba] at huse
        rw [hone.memory_eq b hba] at hmemory
        exact absurd ((hone.place b s huse hmemory).mp hself) hba
  · rw [Function.update_of_ne hn, h n s]
    constructor
    · rintro ⟨b, huse, hmemory, hself⟩
      have hba : b ≠ a := fun hba =>
        hn (hself.symm.trans ((hone.place b s huse hmemory).mpr hba))
      exact ⟨b, (hone.inUse_eq b hba).trans huse, (hone.memory_eq b hba).trans hmemory, hself⟩
    · rintro ⟨b, huse, hmemory, hself⟩
      by_cases hba : b = a
      · subst hba
        exact absurd (hself.symm.trans (hone.self_eq s ((hone.now s).mpr ⟨huse, hmemory⟩))) hn
      · exact ⟨b, (hone.inUse_eq b hba).symm.trans huse, (hone.memory_eq b hba).symm.trans hmemory,
          hself⟩

variable {server : Server} {w w' : EpollWorker} {x : SessionId → Option Session}

theorem Kept.self_eq_iff (hw : Kept w) {a : Slot} {s : Session} (ha : w.inUse a = true)
    (hs : w.memory a = some s) (b : Slot) (t : Session) (hb : w.inUse b = true)
    (ht : w.memory b = some t) : t.self = s.self ↔ b = a := by
  constructor
  · exact hw.place_eq hb ht ha hs
  · rintro rfl
    rw [Option.some.inj (ht.symm.trans hs)]

theorem acceptOne_represented (hw : Kept w) (hx : w.Represents x) {fd : ℕ} {a : Slot}
    (h : w.acceptOne server (fd, a) = some w') :
    ∃ y, SideBySide.step (connectionStep server) x (w.accepted, .accept fd) = some y ∧
      w'.Represents y := by
  obtain ⟨-, hfree, -, rfl⟩ := acceptOne_cases h
  have hnone : x w.accepted = none := by
    by_contra hsome
    obtain ⟨s, hs⟩ := Option.ne_none_iff_exists'.mp hsome
    obtain ⟨b, huse, hmemory, hself⟩ := (hx _ s).mp hs
    exact (hw.self_lt huse hmemory).ne hself
  refine ⟨Function.update x w.accepted (some (Session.init server.settings w.accepted fd)), ?_, ?_⟩
  · rw [SideBySide.step_eq_some, hnone]
    exact ⟨_, rfl, rfl⟩
  · refine hx.update (a := a) ⟨?_, ?_, ?_, ?_, ?_⟩
    · exact fun b hba => Function.update_of_ne hba ..
    · exact fun b hba => Function.update_of_ne hba ..
    · intro s
      dsimp only
      rw [Function.update_self, Function.update_self]
      exact ⟨fun hs => ⟨rfl, hs⟩, And.right⟩
    · intro s hs
      exact Option.some.inj hs ▸ rfl
    · intro b s huse hmemory
      refine ⟨fun hself => absurd hself (hw.self_lt huse hmemory).ne, fun hba => ?_⟩
      rw [hba, hfree] at huse
      exact absurd huse Bool.false_ne_true

theorem accepted_acceptOne {client : ℕ × Slot} (h : w.acceptOne server client = some w') :
    w'.accepted = w.accepted + 1 := by
  obtain ⟨fd, a⟩ := client
  obtain ⟨-, -, -, rfl⟩ := acceptOne_cases h
  rfl

theorem accepts_represented (hw : Kept w) (hx : w.Represents x) {accepts : List (ℕ × Slot)}
    (h : accepts.foldlM (acceptOne server) w = some w') :
    ∃ y, Runs.run (SideBySide.step (connectionStep server)) x (acceptActs w.accepted accepts) =
      some y ∧ w'.Represents y := by
  induction accepts generalizing w x with
  | nil => exact ⟨x, rfl, Option.some.inj h ▸ hx⟩
  | cons client accepts ih =>
    rw [List.foldlM_cons] at h
    obtain ⟨u, hu, hrest⟩ := Option.bind_eq_some_iff.mp h
    obtain ⟨y, hy, hyu⟩ := acceptOne_represented hw hx hu
    obtain ⟨z, hz, hzw⟩ := ih (hw.acceptOne hu) hyu hrest
    rw [accepted_acceptOne hu] at hz
    exact ⟨z, (Runs.run_cons_eq_some ..).mpr ⟨y, hy, hz⟩, hzw⟩

theorem oneChanges_release (hw : Kept w) {a : Slot} {s : Session} (ha : w.inUse a = true)
    (hs : w.memory a = some s) (t : Session)
    (hmemory : ∀ b, b ≠ a → (w'.release a t).memory b = w.memory b)
    (hinUse : ∀ b, b ≠ a → (w'.release a t).inUse b = w.inUse b) :
    OneChanges w (w'.release a t) a s.self none where
  memory_eq := hmemory
  inUse_eq := hinUse
  now u := by
    have hfree : (w'.release a t).inUse a = false := Function.update_self ..
    simp [hfree]
  self_eq u hu := absurd hu (by simp)
  place b u := hw.self_eq_iff ha hs b u

theorem oneChanges_handle (hw : Kept w) {a : Slot} {s t : Session} {e : EpollEvent}
    {activity : Bool} {now : ℕ} (ha : w.inUse a = true) (hs : w.memory a = some s)
    (hopen : s.isOpen = true) (hserve : serveSession server s e = some (activity, t)) :
    OneChanges w (if activity then (w.put a s t).touch a t now else w.put a s t) a s.self
      (some (t.touched activity now)) := by
  have hself : (t.touched activity now).self = s.self := by
    rw [← (sameClient_serveSession hopen hserve).self_eq]
    unfold Session.touched
    split_ifs <;> rfl
  have hplace := hw.self_eq_iff ha hs
  by_cases hrefresh : activity = true ∧ Worker.tickPassed now t.lastActivityTick = true
  · have htouched : t.touched activity now = { t with lastActivityTick := now } :=
      if_pos (by simp [hrefresh])
    rw [if_pos hrefresh.1]
    unfold touch
    rw [if_pos hrefresh.2]
    refine ⟨fun b hba => ?_, fun b hba => rfl, fun u => ?_, fun u hu => ?_, hplace⟩
    · exact (Function.update_of_ne hba ..).trans (Function.update_of_ne hba ..)
    · rw [htouched]
      dsimp only
      rw [Function.update_self]
      exact ⟨fun hu => ⟨ha, hu⟩, And.right⟩
    · exact Option.some.inj hu ▸ hself
  · have htouched : t.touched activity now = t := if_neg (by simpa using hrefresh)
    have hput : (if activity then (w.put a s t).touch a t now else w.put a s t) =
        w.put a s t := by
      unfold touch
      split_ifs with hactivity htick
      · exact absurd ⟨hactivity, htick⟩ hrefresh
      · rfl
      · rfl
    rw [hput]
    refine ⟨fun b hba => ?_, fun b hba => rfl, fun u => ?_, fun u hu => ?_, hplace⟩
    · exact Function.update_of_ne hba ..
    · rw [htouched]
      unfold put
      dsimp only
      rw [Function.update_self]
      exact ⟨fun hu => ⟨ha, hu⟩, And.right⟩
    · exact Option.some.inj hu ▸ hself

theorem handle_represented (hw : Kept w) (hx : w.Represents x) {a : Slot} {s : Session}
    {e : EpollEvent} {hangUp : Bool} {now : ℕ} (ha : w.inUse a = true)
    (hs : w.memory a = some s) (hopen : s.isOpen = true)
    (h : w.handle server a s e hangUp now = some w') :
    ∃ y, SideBySide.step (connectionStep server) x
        (s.self, if hangUp then .hangUp e else .turn e now) = some y ∧ w'.Represents y := by
  have hxs : x s.self = some s := (hx s.self s).mpr ⟨a, ha, hs, rfl⟩
  unfold handle at h
  obtain ⟨⟨activity, t⟩, hserve, heq⟩ := Option.map_eq_some_iff.mp h
  dsimp only at heq
  cases hangUp with
  | true =>
    rw [if_pos rfl] at heq ⊢
    refine ⟨Function.update x s.self none, ?_, ?_⟩
    · rw [SideBySide.step_eq_some, hxs]
      exact ⟨none, by simp [connectionStep, hserve], rfl⟩
    · subst heq
      refine hx.update (oneChanges_release hw ha hs t ?_ ?_)
      · exact fun b hba => (Function.update_of_ne hba ..).trans (Function.update_of_ne hba ..)
      · exact fun b hba => Function.update_of_ne hba ..
  | false =>
    rw [if_neg Bool.false_ne_true] at heq ⊢
    refine ⟨Function.update x s.self (some (t.touched activity now)), ?_, ?_⟩
    · rw [SideBySide.step_eq_some, hxs]
      exact ⟨_, by simp [connectionStep, hserve], rfl⟩
    · subst heq
      exact hx.update (oneChanges_handle hw ha hs hopen hserve)

theorem step_represented (hw : Kept w) (hx : w.Represents x) {e : LoopEvent}
    (h : w.step server e = some w') :
    ∃ y, Runs.run (SideBySide.step (connectionStep server)) x (w.acts e) = some y ∧
      w'.Represents y := by
  cases hw.steps h with
  | waited => exact ⟨x, rfl, hx⟩
  | accepted accepts hpending haccepts =>
    exact accepts_represented (hw.pop hpending).1 hx haccepts
  | retried accepts hpending haccepts => exact accepts_represented hw hx haccepts
  | @served _ rest fd a s e hangUp now hpending hbits htable hmemory huse hsocket hhandle =>
    obtain ⟨y, hy, hyw⟩ := handle_represented (hw.pop hpending).1 hx huse hmemory
      (isOpen_of_socket hsocket) hhandle
    refine ⟨y, ?_, hyw⟩
    rw [acts, hpending]
    dsimp only
    rw [htable, Option.join_some, Option.bind_some, hmemory]
    exact (Runs.run_cons_eq_some ..).mpr ⟨y, hy, rfl⟩
  | @expired a s hpending hlinked hmemory =>
    have huse := hw.linked a hlinked
    have hxs : x s.self = some s := (hx s.self s).mpr ⟨a, huse, hmemory, rfl⟩
    refine ⟨Function.update x s.self none, ?_,
      hx.update (oneChanges_release hw huse hmemory s ?_ ?_)⟩
    · rw [acts, hmemory]
      refine (Runs.run_cons_eq_some ..).mpr ⟨_, ?_, rfl⟩
      rw [SideBySide.step_eq_some, hxs]
      exact ⟨none, rfl, rfl⟩
    · exact fun b hba => Function.update_of_ne hba ..
    · exact fun b hba => Function.update_of_ne hba ..

/-- A run of the worker is a run of the connections side by side. -/
theorem exists_represented {es : List LoopEvent} (hrun : Runs.run (step server) init es = some w) :
    ∃ clients, Runs.run (SideBySide.step (connectionStep server)) (fun _ => none)
      (actsOf server es) = some clients ∧ w.Represents clients := by
  have hinit : init.Represents fun _ => none := by
    intro id s
    refine ⟨fun h => absurd h (by simp), ?_⟩
    rintro ⟨a, huse, -⟩
    exact absurd huse Bool.false_ne_true
  obtain ⟨clients, hclients, -, hrepresents⟩ := Runs.exists_run_translate
    (R := fun w x => Kept w ∧ w.Represents x)
    (fun v x e u h hstep => by
      obtain ⟨y, hy, hyu⟩ := step_represented h.1 h.2 hstep
      exact ⟨y, hy, h.1.step e hstep, hyu⟩)
    ⟨kept_init, hinit⟩ hrun
  exact ⟨clients, hclients, hrepresents⟩

end EpollWorker

end WarpApi

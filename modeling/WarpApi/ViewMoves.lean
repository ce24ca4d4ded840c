import WarpApi.LocalSteps

/-!
What the parts of a step of the worker do to the views of the sessions: to the one that
the event is about, and to those of all others.
-/
namespace WarpApi

namespace Worker

/-- Sessions are stored under their own number, and later numbers are unused. -/
structure Sound (w : Worker) : Prop where
  keyed : ∀ sid s, w.pool sid = some s → s.self = sid
  unused : ∀ sid, w.acquired ≤ sid → w.view sid = View.unused

/-- One session makes a local step and the views of the others stay. -/
structure Moves (server : Server) (e : Event) (w w' : Worker) (sid : SessionId) : Prop where
  known : sid < w'.acquired
  others : ∀ sid', sid' ≠ sid → w'.view sid' = w.view sid'
  moved : LocalStep server sid w.ring e (w.view sid) (w'.view sid)

/-- No view changes: the event is about no session, or there is no entry for a new one. -/
structure Rests (e : Event) (w w' : Worker) : Prop where
  views : ∀ sid, w'.view sid = w.view sid
  sessionless : e.session? = none
  dropped : ∀ fd more, e = .accept fd more → w.ring.full = true

theorem view_init (entries : ℕ) (sid : SessionId) : (init entries).view sid = View.unused := by
  have hops : (init entries).ops sid = 0 := by
    simp [ops, init, opsOf, Op.session?]
  rw [view, hops]
  rfl

theorem sound_init (entries : ℕ) : (init entries).Sound :=
  ⟨fun sid s h => absurd h (by simp [init]), fun sid _ => view_init entries sid⟩

theorem view_submit (w : Worker) (sid : SessionId) : w.submit.view sid = w.view sid := by
  have hops : w.submit.ops sid = w.ops sid := by
    simp only [ops, submit, opsOf_nil, opsOf_append, zero_add]
    exact add_comm _ _
  simp only [view, hops]
  rfl

theorem view_makeRoom (w : Worker) (sid : SessionId) : w.makeRoom.view sid = w.view sid := by
  unfold makeRoom
  split
  · exact view_submit w sid
  · rfl

theorem acquired_makeRoom (w : Worker) : w.makeRoom.acquired = w.acquired := by
  unfold makeRoom submit
  split <;> rfl

/-- Submitting does not make room by itself. -/
theorem full_makeRoom (w : Worker) : w.makeRoom.ring.full = w.ring.full := by
  unfold makeRoom submit
  split
  · rw [Bool.eq_iff_iff, Ring.full_iff, Ring.full_iff]
    simp only [Ring.room, List.length_nil]
    omega
  · rfl

/-- The listener has no session, so no view changes when it is armed again. -/
theorem view_listenerDone {w w' : Worker} {more : Bool} (h : w.listenerDone more = some w') :
    w'.acquired = w.acquired ∧ ∀ sid, w'.view sid = w.view sid := by
  unfold listenerDone at h
  split at h
  · exact Option.some.inj h ▸ ⟨rfl, fun _ => rfl⟩
  · unfold rearmListener at h
    dsimp only at h
    split at h
    · simp at h
    · have hproceed : ∀ sid, (w.proceed .accept []).view sid = w.view sid := by
        intro sid
        have hops : (w.proceed .accept []).ops sid = w.ops sid := by
          simp only [ops, proceed, opsOf_append, opsOf_nil, add_zero]
          rw [opsOf_erase_of_ne _ (by simp [Op.session?])]
        simp only [view, hops]
        rfl
      rw [← Option.some.inj h]
      refine ⟨acquired_makeRoom _, fun sid => ?_⟩
      rw [← hproceed, ← view_makeRoom (w.proceed .accept [])]
      simp only [view, ops, Ring.push, opsOf_append]
      rw [opsOf_of_forall_ne (l := [Op.accept]) (by simp [Op.session?]), add_zero]

theorem ops_proceed_self {w : Worker} {op : Op} {sid : SessionId} (next : List Op)
    (hop : op ∈ w.inFlight) (hsid : op.session? = some sid) :
    ∃ rest, w.ops sid = op ::ₘ rest ∧ (w.proceed op next).ops sid = opsOf sid next + rest := by
  refine ⟨opsOf sid w.ring.prepared + opsOf sid (w.inFlight.erase op), ?_, ?_⟩
  · rw [ops, opsOf_erase hop hsid, Multiset.add_cons]
  · simp only [ops, proceed, opsOf_append]
    rw [add_comm (opsOf sid next), add_assoc]

theorem view_proceed_other (w : Worker) {op : Op} {next : List Op} {sid sid' : SessionId}
    (hsid : op.session? = some sid) (hnext : ∀ op' ∈ next, op'.session? = some sid)
    (hne : sid' ≠ sid) : (w.proceed op next).view sid' = w.view sid' := by
  have hops : (w.proceed op next).ops sid' = w.ops sid' := by
    simp only [ops, proceed, opsOf_append]
    have hnone : opsOf sid' next = 0 := by
      refine opsOf_of_forall_ne fun op' hop' => ?_
      rw [hnext op' hop']
      simpa using hne.symm
    rw [opsOf_erase_of_ne _ (by rw [hsid]; simpa using hne.symm), hnone, add_zero]
  simp only [view, hops]
  rfl

/-- The timer update behind the handling, seen from its session and from others. -/
theorem view_touch (w : Worker) (sid : SessionId) (t : Session) (added : List Op) (now : ℕ)
    (hadded : ∀ op ∈ added, op.session? = some sid ∨ op.session? = none) :
    (∃ u linked', Touched t (w.wheel sid) u linked' ∧
      (w.touch sid t (w.ring.extend added) now).view sid =
        ⟨some u, opsOf sid added + w.ops sid, linked', w.wire sid⟩) ∧
      (∀ sid', sid' ≠ sid → (w.touch sid t (w.ring.extend added) now).view sid' = w.view sid') ∧
      (w.touch sid t (w.ring.extend added) now).acquired = w.acquired := by
  have hself : opsOf sid (w.ring.prepared ++ added) + opsOf sid w.inFlight =
      opsOf sid added + w.ops sid := by
    rw [opsOf_append, ops, add_comm (opsOf sid w.ring.prepared), add_assoc]
  have hother : ∀ sid', sid' ≠ sid →
      opsOf sid' (w.ring.prepared ++ added) + opsOf sid' w.inFlight = w.ops sid' := by
    intro sid' hne
    rw [opsOf_append, opsOf_of_forall_ne (l := added), add_zero, ops]
    intro op hop
    rcases hadded op hop with h | h <;> rw [h]
    · simpa using hne.symm
    · simp
  unfold touch
  split
  · refine ⟨⟨{ t with lastActivityTick := now }, true, Or.inr ⟨⟨now, rfl⟩, rfl⟩, ?_⟩, ?_, rfl⟩
    · simp only [view, ops, store, Ring.extend, Function.update_self]
      rw [hself]
      rfl
    · intro sid' hne
      simp only [view, ops, store, Ring.extend, Function.update_of_ne hne]
      rw [hother sid' hne]
      rfl
  · refine ⟨⟨t, w.wheel sid, Or.inl ⟨rfl, rfl⟩, ?_⟩, ?_, rfl⟩
    · simp only [view, ops, store, Ring.extend, Function.update_self]
      rw [hself]
      rfl
    · intro sid' hne
      simp only [view, ops, store, Ring.extend, Function.update_of_ne hne]
      rw [hother sid' hne]
      rfl

theorem view_free (w : Worker) (sid : SessionId) :
    (w.free sid).view sid = ⟨none, w.ops sid, false, w.wire sid⟩ ∧
      ∀ sid', sid' ≠ sid → (w.free sid).view sid' = w.view sid' := by
  refine ⟨?_, fun sid' hne => ?_⟩
  · simp only [view, free, ops, Function.update_self]
  · simp only [view, free, ops, Function.update_of_ne hne]

/-- What the dispatch of a completion does with its session. -/
inductive CompleteCase (w w' : Worker) (sid : SessionId) (now : ℕ)
    (process : Session → Ring → Option (Bool × Session × Ring)) (s : Session) : Prop
  | frees (hclosing : s.status = .closing) (hio : s.hasPendingIo = false)
      (hafter : w' = w.free sid) : CompleteCase w w' sid now process s
  | handles {alive : Bool} {t : Session} {ring' : Ring} (hactive : s.status = .active)
      (hres : process s w.ring = some (alive, t, ring'))
      (hafter : w' = w.touch sid (if alive then t else t.setStatus .closing) ring' now) :
      CompleteCase w w' sid now process s
  | ignores (hinactive : s.status ≠ .active)
      (hkept : ¬ (s.status = .closing ∧ s.hasPendingIo = false)) (hafter : w' = w) :
      CompleteCase w w' sid now process s

theorem complete_cases {w w' : Worker} {sid : SessionId} {now : ℕ}
    {process : Session → Ring → Option (Bool × Session × Ring)}
    (h : w.complete sid now process = some w') :
    ∃ s, w.pool sid = some s ∧ CompleteCase w w' sid now process s := by
  unfold complete at h
  cases hpool : w.pool sid with
  | none => simp [hpool] at h
  | some s =>
    refine ⟨s, rfl, ?_⟩
    simp only [hpool] at h
    split at h
    · rename_i hclosing
      exact .frees hclosing.1 hclosing.2 (Option.some.inj h).symm
    · rename_i hkept
      split at h
      · rename_i hactive
        obtain ⟨⟨alive, t, ring'⟩, hres, hafter⟩ := Option.map_eq_some_iff.mp h
        exact .handles hactive hres hafter.symm
      · rename_i hinactive
        exact .ignores hinactive hkept (Option.some.inj h).symm

/-- A completion makes its session release, ignore or handle it. -/
theorem moves_take {server : Server} {e : Event} {w w' : Worker} {op : Op} {next : List Op}
    {sid : SessionId} {now : ℕ} {process : Session → Ring → Option (Bool × Session × Ring)}
    (hw : w.Sound) (hcompletes : Completes e sid op next)
    (hprocess : ∀ s alive t ring', process s w.ring = some (alive, t, ring') →
      ∃ added, ring' = w.ring.extend added ∧
        Handled server w.ring e s (if alive then t else t.setStatus .closing) added)
    (h : w.take op next sid now process = some w') :
    w'.acquired = w.acquired ∧ Moves server e w w' sid := by
  obtain ⟨hsid, hnext⟩ := hcompletes.session
  obtain ⟨hop, hcomplete⟩ := Option.ite_none_right_eq_some.mp h
  obtain ⟨rest, hrest, hproceed⟩ := ops_proceed_self next hop hsid
  have hothers : ∀ sid', sid' ≠ sid → (w.proceed op next).view sid' = w.view sid' :=
    fun sid' hne => view_proceed_other w hsid hnext hne
  obtain ⟨s, hpool, hcase⟩ := complete_cases hcomplete
  have hview : w.view sid = ⟨some s, op ::ₘ rest, w.wheel sid, w.wire sid⟩ := by
    rw [view, hrest]
    exact congrArg (View.mk · _ _ _) hpool
  have hknown : sid < w.acquired := by
    by_contra hle
    have hnone := hw.unused sid (Nat.not_lt.mp hle)
    rw [hview] at hnone
    simp [View.unused] at hnone
  cases hcase with
  | frees hclosing hio hafter =>
    rw [hafter]
    obtain ⟨hself, hother⟩ := view_free (w.proceed op next) sid
    refine ⟨rfl, hknown, fun sid' hne => (hother sid' hne).trans (hothers sid' hne), ?_⟩
    rw [hself, hview, hproceed]
    exact .released hcompletes hclosing hio
  | @handles alive t ring' hactive hres hafter =>
    obtain ⟨added, rfl, hhandled⟩ := hprocess s alive t ring' hres
    have hkeyed : s.self = sid := hw.keyed sid s hpool
    have hadded := hhandled.frame.2
    rw [hkeyed] at hadded
    obtain ⟨⟨u, linked', htouched, hself⟩, hother, hacquired⟩ := view_touch
      (w.proceed op next) sid (if alive then t else t.setStatus .closing) added now hadded
    have hring : (w.proceed op next).ring = w.ring := rfl
    rw [hring] at hother hacquired hself
    rw [hafter]
    refine ⟨hacquired, ?_, fun sid' hne => (hother sid' hne).trans (hothers sid' hne), ?_⟩
    · exact hacquired.symm ▸ hknown
    · rw [hproceed] at hself
      rw [hview, hself]
      exact .handled hcompletes hactive hhandled htouched
  | ignores hinactive hkept hafter =>
    rw [hafter]
    refine ⟨rfl, hknown, hothers, ?_⟩
    have hsame : (w.proceed op next).view sid =
        ⟨some s, opsOf sid next + rest, w.wheel sid, w.wire sid⟩ := by
      rw [view, hproceed, hpool]
      rfl
    rw [hview, hsame]
    exact .ignored hcompletes hinactive hkept

/-- A connection is dropped, or the next number gets a session. -/
theorem moves_connect (server : Server) {w : Worker} (fd : ℤ) (more : Bool) (hw : w.Sound) :
    (w.connect server fd).acquired = w.acquired + 1 ∧
      (Rests (.accept fd more) w (w.connect server fd) ∨
        Moves server (.accept fd more) w (w.connect server fd) w.acquired) := by
  unfold connect
  dsimp only
  split
  · rename_i hfull
    refine ⟨rfl, Or.inl ⟨fun sid => view_makeRoom w sid, rfl, fun _ _ _ => ?_⟩⟩
    exact (full_makeRoom w).symm.trans hfull
  · rename_i hroom
    refine ⟨rfl, Or.inr ⟨Nat.lt_succ_self _, fun sid' hne => ?_, ?_⟩⟩
    · rw [← view_makeRoom w sid']
      simp only [view, ops, store, Ring.push, opsOf_append, Function.update_of_ne hne]
      rw [opsOf_of_forall_ne (l := [_]), add_zero]
      intro op hop
      rw [List.mem_singleton.mp hop]
      unfold Session.onReadReadySqe
      split
      · simp [Op.session?]
      · simpa [Op.session?, Session.init] using hne.symm
    · have hunused := hw.unused w.acquired (Nat.le_refl _)
      have hroom := view_makeRoom w w.acquired
      rw [hunused] at hroom ⊢
      simp only [view, View.unused, View.mk.injEq] at hroom
      obtain ⟨-, hops, -, hwire⟩ := hroom
      have hafter : opsOf w.acquired (w.makeRoom.ring.prepared ++
          [(Session.init server.settings w.acquired fd).onReadReadySqe.2]) +
            opsOf w.acquired w.makeRoom.inFlight =
          opsOf w.acquired [(Session.init server.settings w.acquired fd).onReadReadySqe.2] := by
        rw [opsOf_append, add_right_comm]
        unfold ops at hops
        rw [hops, zero_add]
      simp only [view, ops, store, Ring.push, Function.update_self, hafter, hwire]
      exact .born fd more ((full_makeRoom w).symm.trans (Bool.eq_false_iff.mpr hroom))

theorem mem_of_nextSend {w : Worker} {sid : SessionId} {region : Bytes}
    (h : w.nextSend sid = some region) : .send sid region ∈ w.inFlight := by
  unfold nextSend at h
  obtain ⟨op, hop, hval⟩ := List.exists_of_findSome?_eq_some h
  split at hval
  · split at hval
    · rename_i hsid
      rw [← hsid, ← Option.some.inj hval]
      exact hop
    · simp at hval
  · simp at hval

theorem known_of_op {w : Worker} (hw : w.Sound) {op : Op} {sid : SessionId}
    (hop : op ∈ w.inFlight) (hsid : op.session? = some sid) : sid < w.acquired := by
  by_contra hle
  have hunused := congrArg View.ops (hw.unused sid (Nat.not_lt.mp hle))
  obtain ⟨rest, hrest, -⟩ := ops_proceed_self [] hop hsid
  simp [view, hrest, View.unused] at hunused

/-- The kernel performs or refuses the first send of a session. -/
theorem moves_kernel {server : Server} {w : Worker} {sid : SessionId} {region : Bytes}
    (hw : w.Sound) (hnext : w.nextSend sid = some region) :
    (∀ n, n ≤ region.length → Moves server (.kernelSend sid n) w
      { w.proceed (.send sid region) [.sent sid n] with
        wire := Function.update w.wire sid (w.wire sid ++ region.take n) } sid) ∧
      ∀ more, Moves server (.kernelFail sid more) w
        (w.proceed (.send sid region) [.failed sid more]) sid := by
  have hop := mem_of_nextSend hnext
  have hsid : (Op.send sid region).session? = some sid := rfl
  have hknown := known_of_op hw hop hsid
  constructor
  · intro n hn
    obtain ⟨rest, hrest, hproceed⟩ := ops_proceed_self [.sent sid n] hop hsid
    refine ⟨hknown, fun sid' hne => ?_, ?_⟩
    · have hnext : ∀ op' ∈ [Op.sent sid n], op'.session? = some sid := by simp [Op.session?]
      have hview := view_proceed_other w hsid hnext hne
      rw [← hview]
      simp only [view, Function.update_of_ne hne]
      rfl
    · have hbefore : w.view sid =
          ⟨w.pool sid, .send sid region ::ₘ rest, w.wheel sid, w.wire sid⟩ := by
        rw [view, hrest]
      rw [opsOf_singleton rfl, Multiset.singleton_add] at hproceed
      rw [hbefore]
      simp only [view, Function.update_self]
      unfold ops at hproceed ⊢
      rw [hproceed]
      exact .performed hn
  · intro more
    obtain ⟨rest, hrest, hproceed⟩ := ops_proceed_self [.failed sid more] hop hsid
    refine ⟨hknown, fun sid' hne => view_proceed_other w hsid (by simp [Op.session?]) hne, ?_⟩
    have hbefore : w.view sid =
        ⟨w.pool sid, .send sid region ::ₘ rest, w.wheel sid, w.wire sid⟩ := by
      rw [view, hrest]
    rw [opsOf_singleton rfl, Multiset.singleton_add] at hproceed
    rw [hbefore, view, hproceed]
    exact .refused

theorem moves_expire (server : Server) {w : Worker} {sid : SessionId} {s : Session}
    (hw : w.Sound) (hpool : w.pool sid = some s) (hlinked : w.wheel sid = true) :
    (w.expire sid s).acquired = w.acquired ∧
      Moves server (.expire sid) w (w.expire sid s) sid := by
  have hknown : sid < w.acquired := by
    by_contra hle
    have hunused := congrArg View.session (hw.unused sid (Nat.not_lt.mp hle))
    simp [view, hpool, View.unused] at hunused
  have hview : w.view sid = ⟨some s, w.ops sid, true, w.wire sid⟩ := by
    rw [view, hpool, hlinked]
  have hio : (s.setStatus .closing).close.hasPendingIo = s.hasPendingIo := rfl
  unfold expire
  dsimp only
  rw [hio]
  cases hpending : s.hasPendingIo with
  | true =>
    refine ⟨rfl, hknown, fun sid' hne => ?_, ?_⟩
    · simp only [if_true, view, ops, store, Function.update_of_ne hne]
    · rw [hview]
      simp only [if_true, view, ops, store, Function.update_self]
      exact .expiredKept hpending
  | false =>
    refine ⟨rfl, hknown, fun sid' hne => ?_, ?_⟩
    · simp only [Bool.false_eq_true, if_false, view, ops, free, Function.update_of_ne hne]
    · rw [hview]
      simp only [Bool.false_eq_true, if_false, view, ops, free, Function.update_self]
      exact .expiredFreed hpending

end Worker

end WarpApi

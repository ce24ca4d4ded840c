import WarpApi.UringLoop
import Mathlib.Data.Multiset.Filter

/-!
The worker loop seen from one session. A view is the session, its outstanding
operations, its place in the timer wheel and the bytes on its wire. The local steps are
what a step of the worker can make of a view, and the handlers of completions make no
others.
-/
namespace WarpApi

structure View where
  session : Option Session
  ops : Multiset Op
  linked : Bool
  wire : Bytes

def View.unused : View := ⟨none, 0, false, []⟩

/-- The operations of one session in a list. -/
def opsOf (sid : SessionId) (l : List Op) : Multiset Op :=
  (l.filter fun op => op.session? = some sid : List Op)

namespace Worker

def ops (w : Worker) (sid : SessionId) : Multiset Op :=
  opsOf sid w.ring.prepared + opsOf sid w.inFlight

def view (w : Worker) (sid : SessionId) : View := ⟨w.pool sid, w.ops sid, w.wheel sid, w.wire sid⟩

end Worker

section opsOf

variable {sid : SessionId}

@[simp] theorem opsOf_nil : opsOf sid [] = 0 := rfl

theorem opsOf_append (a b : List Op) : opsOf sid (a ++ b) = opsOf sid a + opsOf sid b := by
  simp only [opsOf, List.filter_append, Multiset.coe_add]

theorem opsOf_of_forall_ne {l : List Op} (h : ∀ op ∈ l, op.session? ≠ some sid) :
    opsOf sid l = 0 := by
  have hnil : l.filter (fun op => op.session? = some sid) = [] := by
    rw [List.filter_eq_nil_iff]
    intro op hop
    simpa using h op hop
  simp only [opsOf, hnil, Multiset.coe_nil]

theorem opsOf_singleton {op : Op} (h : op.session? = some sid) : opsOf sid [op] = {op} := by
  simp only [opsOf, List.filter_cons, h, decide_true, if_true, List.filter_nil]
  rfl

theorem opsOf_erase {op : Op} {l : List Op} (hop : op ∈ l) (h : op.session? = some sid) :
    opsOf sid l = op ::ₘ opsOf sid (l.erase op) := by
  have hperm := (List.perm_cons_erase hop).filter fun op => decide (op.session? = some sid)
  rw [List.filter_cons_of_pos (by simpa using h)] at hperm
  exact Multiset.coe_eq_coe.mpr hperm

theorem opsOf_erase_of_ne {op : Op} (l : List Op) (h : op.session? ≠ some sid) :
    opsOf sid (l.erase op) = opsOf sid l := by
  by_cases hop : op ∈ l
  · have hperm := (List.perm_cons_erase hop).filter fun op => decide (op.session? = some sid)
    rw [List.filter_cons_of_neg (by simpa using h)] at hperm
    exact (Multiset.coe_eq_coe.mpr hperm).symm
  · rw [List.erase_of_not_mem hop]

/-- The entries of both parts of `processRead` join those that are there one after the other. -/
theorem opsOf_append_add (wOps rOps : List Op) (rest : Multiset Op) :
    opsOf sid (wOps ++ rOps) + (opsOf sid [] + rest) =
      opsOf sid rOps + (opsOf sid wOps + rest) := by
  rw [opsOf_append, add_comm (opsOf sid wOps), add_assoc, opsOf_nil, zero_add]

theorem mem_opsOf {op : Op} {l : List Op} :
    op ∈ opsOf sid l ↔ op ∈ l ∧ op.session? = some sid := by
  simp only [opsOf, Multiset.mem_coe, List.mem_filter, decide_eq_true_eq]

end opsOf

/-- `ring` with these entries prepared behind its own. -/
def Ring.extend (r : Ring) (added : List Op) : Ring :=
  { r with prepared := r.prepared ++ added }

theorem Ring.extend_nil (r : Ring) : r.extend [] = r := by
  simp only [extend, List.append_nil]

theorem Ring.extend_extend (r : Ring) (a b : List Op) :
    (r.extend a).extend b = r.extend (a ++ b) := by
  simp only [extend, List.append_assoc]

/-- The write part of `processRead`. -/
inductive WriteArmed (s : Session) (ring : Ring) : Session → List Op → Prop
  | sends (hsize : 0 < s.writeBuffer.size) (hidle : s.ioFlags.writing = false)
      (hroom : ring.full = false) :
      WriteArmed s ring (s.setWriting true) [.send s.self s.writeBuffer.unread]
  | noEntry (hsize : 0 < s.writeBuffer.size) (hidle : s.ioFlags.writing = false)
      (hroom : ring.full = true) : WriteArmed s ring s []
  | idle (h : s.writeBuffer.size = 0 ∨ s.ioFlags.writing = true) : WriteArmed s ring s []

/-- The read part of `processRead`. -/
inductive ReadArmed (s : Session) (ring : Ring) : Session → List Op → Prop
  | receives (hactive : s.status = .active) (hroom : ring.full = false)
      (hfree : s.readBuffer.free ≠ 0) :
      ReadArmed s ring (s.setReading true) [.recv s.self s.readBuffer.free]
  | gaveUp (hactive : s.status = .active) (hroom : ring.full = false)
      (hfree : s.readBuffer.free = 0) : ReadArmed s ring s.close [.nop]
  | noEntry (hactive : s.status = .active) (hroom : ring.full = true) : ReadArmed s ring s []
  | idle (h : s.status ≠ .active) : ReadArmed s ring s []

section armed

variable {s t : Session} {ring : Ring} {added : List Op}

theorem WriteArmed.self_eq (h : WriteArmed s ring t added) : t.self = s.self := by
  cases h <;> rfl

theorem WriteArmed.status_eq (h : WriteArmed s ring t added) : t.status = s.status := by
  cases h <;> rfl

theorem WriteArmed.reading_eq (h : WriteArmed s ring t added) :
    t.ioFlags.reading = s.ioFlags.reading := by
  cases h <;> rfl

theorem WriteArmed.buffers_eq (h : WriteArmed s ring t added) :
    t.readBuffer = s.readBuffer ∧ t.writeBuffer = s.writeBuffer := by
  cases h <;> exact ⟨rfl, rfl⟩

theorem ReadArmed.status_eq (h : ReadArmed s ring t added) : t.status = s.status := by
  cases h <;> rfl

theorem ReadArmed.writeBuffer_eq (h : ReadArmed s ring t added) :
    t.writeBuffer = s.writeBuffer := by
  cases h <;> rfl

end armed

/-- A completion of `op` that comes with this event; `next` is still to come. -/
inductive Completes : Event → SessionId → Op → List Op → Prop
  | recv (sid : SessionId) (room : ℕ) (res : RecvResult) (now : ℕ) :
      Completes (.recv sid room res now) sid (.recv sid room) []
  | sent (sid : SessionId) (n now : ℕ) :
      Completes (.sent sid n now) sid (.sent sid n) [.notif sid]
  | failed (sid : SessionId) (more : Bool) (now : ℕ) :
      Completes (.failed sid more now) sid (.failed sid more) (if more then [.notif sid] else [])
  | notif (sid : SessionId) (now : ℕ) : Completes (.notif sid now) sid (.notif sid) []

/-- What the handling of a completion makes of an active session, and the entries
that it prepares. -/
inductive Handled (server : Server) (ring : Ring) : Event → Session → Session → List Op → Prop
  | data {sid : SessionId} {room now : ℕ} {bytes : Bytes} {s s₁ s₂ t : Session}
      {wOps rOps : List Op}
      (hin : (s.setReading false).takeInput server bytes = some s₁)
      (hwrite : WriteArmed s₁ ring s₂ wOps) (hread : ReadArmed s₂ (ring.extend wOps) t rOps) :
      Handled server ring (.recv sid room (.data bytes) now) s t (wOps ++ rOps)
  | endClosed {sid : SessionId} {room now : ℕ} {res : RecvResult} {s : Session}
      (hres : ∀ bytes, res ≠ .data bytes) (hsize : s.writeBuffer.size = 0) :
      Handled server ring (.recv sid room res now) s
        ((s.setReading false).close.setStatus .closing) []
  | endWaiting {sid : SessionId} {room now : ℕ} {res : RecvResult} {s : Session}
      (hres : ∀ bytes, res ≠ .data bytes) (hsize : 0 < s.writeBuffer.size) :
      Handled server ring (.recv sid room res now) s
        ({ s.setReading false with keepAlive := false }.setStatus .closing) []
  | sent {sid : SessionId} {n now : ℕ} {s : Session} :
      Handled server ring (.sent sid n now) s
        { (s.setWaitingZc true).setWriting false with lockedZcBytes := n } []
  | failed {sid : SessionId} {more : Bool} {now : ℕ} {s : Session} :
      Handled server ring (.failed sid more now) s
        ((((if more then s.setWaitingZc true else s).setWriting false).close).setStatus .closing) []
  | notifSend {sid : SessionId} {now : ℕ} {s : Session} (hsize : 0 < s.releaseZc.writeBuffer.size)
      (hroom : ring.full = false) :
      Handled server ring (.notif sid now) s (s.releaseZc.setWriting true)
        [.send s.self s.releaseZc.writeBuffer.unread]
  | notifNoEntry {sid : SessionId} {now : ℕ} {s : Session}
      (hsize : 0 < s.releaseZc.writeBuffer.size) (hroom : ring.full = true) :
      Handled server ring (.notif sid now) s s.releaseZc []
  | notifKept {sid : SessionId} {now : ℕ} {s : Session} (hsize : s.releaseZc.writeBuffer.size = 0)
      (hkeep : s.keepAlive = true) : Handled server ring (.notif sid now) s s.releaseZc []
  | notifClosed {sid : SessionId} {now : ℕ} {s : Session}
      (hsize : s.releaseZc.writeBuffer.size = 0) (hkeep : s.keepAlive = false) :
      Handled server ring (.notif sid now) s (s.releaseZc.close.setStatus .closing) []

/-- The session and its link in the wheel behind the timer update. -/
def Touched (s : Session) (linked : Bool) (t : Session) (linked' : Bool) : Prop :=
  (t = s ∧ linked' = linked) ∨ (∃ now, t = { s with lastActivityTick := now }) ∧ linked' = true

/-- The steps of one session. -/
inductive LocalStep (server : Server) (sid : SessionId) (ring : Ring) : Event → View → View → Prop
  | born (fd : ℤ) (more : Bool) (hroom : ring.full = false) :
      LocalStep server sid ring (.accept fd more) View.unused
        ⟨some (Session.init server.settings sid fd).onReadReadySqe.1,
          opsOf sid [(Session.init server.settings sid fd).onReadReadySqe.2], true, []⟩
  | released {e : Event} {op : Op} {next : List Op} {s : Session} {rest : Multiset Op}
      {linked : Bool} {wire : Bytes} (hcompletes : Completes e sid op next)
      (hclosing : s.status = .closing) (hio : s.hasPendingIo = false) :
      LocalStep server sid ring e ⟨some s, op ::ₘ rest, linked, wire⟩
        ⟨none, opsOf sid next + rest, false, wire⟩
  | ignored {e : Event} {op : Op} {next : List Op} {s : Session} {rest : Multiset Op}
      {linked : Bool} {wire : Bytes} (hcompletes : Completes e sid op next)
      (hinactive : s.status ≠ .active) (hkept : ¬ (s.status = .closing ∧ s.hasPendingIo = false)) :
      LocalStep server sid ring e ⟨some s, op ::ₘ rest, linked, wire⟩
        ⟨some s, opsOf sid next + rest, linked, wire⟩
  | handled {e : Event} {op : Op} {next added : List Op} {s t u : Session} {rest : Multiset Op}
      {linked linked' : Bool} {wire : Bytes} (hcompletes : Completes e sid op next)
      (hactive : s.status = .active) (hhandled : Handled server ring e s t added)
      (htouched : Touched t linked u linked') :
      LocalStep server sid ring e ⟨some s, op ::ₘ rest, linked, wire⟩
        ⟨some u, opsOf sid added + (opsOf sid next + rest), linked', wire⟩
  | performed {session : Option Session} {region wire : Bytes} {n : ℕ} {rest : Multiset Op}
      {linked : Bool} (hn : n ≤ region.length) :
      LocalStep server sid ring (.kernelSend sid n)
        ⟨session, .send sid region ::ₘ rest, linked, wire⟩
        ⟨session, .sent sid n ::ₘ rest, linked, wire ++ region.take n⟩
  | refused {session : Option Session} {region wire : Bytes} {more : Bool} {rest : Multiset Op}
      {linked : Bool} :
      LocalStep server sid ring (.kernelFail sid more)
        ⟨session, .send sid region ::ₘ rest, linked, wire⟩
        ⟨session, .failed sid more ::ₘ rest, linked, wire⟩
  | expiredFreed {s : Session} {ops : Multiset Op} {wire : Bytes} (hio : s.hasPendingIo = false) :
      LocalStep server sid ring (.expire sid) ⟨some s, ops, true, wire⟩ ⟨none, ops, false, wire⟩
  | expiredKept {s : Session} {ops : Multiset Op} {wire : Bytes} (hio : s.hasPendingIo = true) :
      LocalStep server sid ring (.expire sid) ⟨some s, ops, true, wire⟩
        ⟨some (s.setStatus .closing).close, ops, false, wire⟩

/-- The session that an event is about; a new connection has none yet. -/
def Event.session? : Event → Option SessionId
  | .recv sid _ _ _ => some sid
  | .sent sid _ _ => some sid
  | .failed sid _ _ => some sid
  | .notif sid _ => some sid
  | .kernelSend sid _ => some sid
  | .kernelFail sid _ => some sid
  | .expire sid => some sid
  | _ => none

theorem LocalStep.session {server : Server} {sid : SessionId} {ring : Ring} {e : Event}
    {v v' : View} (h : LocalStep server sid ring e v v') :
    e.session? = some sid ∨ e.session? = none ∧ v = View.unused := by
  have hcompletes : ∀ {op : Op} {next : List Op}, Completes e sid op next →
      e.session? = some sid := fun hc => by cases hc <;> rfl
  cases h with
  | born => exact Or.inr ⟨rfl, rfl⟩
  | released hc => exact Or.inl (hcompletes hc)
  | ignored hc => exact Or.inl (hcompletes hc)
  | handled hc => exact Or.inl (hcompletes hc)
  | _ => exact Or.inl rfl

/-- A condition on a step, as its session sees it: the queue, the event and the view. -/
abbrev ViewGuard := Ring → Event → View → Prop

namespace Session

theorem writeArmed_armWrite (s : Session) (ring : Ring) :
    ∃ t ops, WriteArmed s ring t ops ∧ s.armWrite ring = (t, ring.extend ops) := by
  unfold armWrite arm isWriteInFlight
  by_cases hwants : 0 < s.writeBuffer.size ∧ s.ioFlags.writing = false
  · obtain ⟨hsize, hidle⟩ := hwants
    rw [if_pos ⟨hsize, hidle⟩]
    cases hroom : ring.full with
    | true => exact ⟨s, [], .noEntry hsize hidle hroom, by rw [Ring.extend_nil]; rfl⟩
    | false =>
      refine ⟨_, _, .sends hsize hidle hroom, ?_⟩
      rw [s.onWriteReadySqe_of_pos hsize]
      rfl
  · rw [if_neg hwants]
    refine ⟨s, [], .idle ?_, by rw [Ring.extend_nil]⟩
    rw [not_and_or, Nat.not_lt, Nat.le_zero, Bool.not_eq_false] at hwants
    exact hwants

theorem readArmed_armRead (s : Session) (ring : Ring) (hread : s.ioFlags.reading = false) :
    ∃ t ops, ReadArmed s ring t ops ∧ s.armRead ring = (t, ring.extend ops) := by
  unfold armRead arm isReadInFlight
  by_cases hactive : s.status = .active
  · rw [if_pos ⟨hread, hactive⟩]
    cases hroom : ring.full with
    | true => exact ⟨s, [], .noEntry hactive hroom, by rw [Ring.extend_nil]; rfl⟩
    | false =>
      by_cases hfree : s.readBuffer.free = 0
      · refine ⟨_, _, .gaveUp hactive hroom hfree, ?_⟩
        rw [onReadReadySqe, if_pos hfree]
        rfl
      · refine ⟨_, _, .receives hactive hroom hfree, ?_⟩
        rw [onReadReadySqe, if_neg hfree]
        rfl
  · rw [if_neg fun h => hactive h.2]
    exact ⟨s, [], .idle hactive, by rw [Ring.extend_nil]⟩

theorem handles_takeInput {server : Server} {bytes : Bytes} {s t : Session}
    (h : s.takeInput server bytes = some t) : Handles (s.receive bytes) t := by
  unfold takeInput at h
  rw [Option.map_eq_some_iff] at h
  obtain ⟨⟨alive, u⟩, hinput, rfl⟩ := h
  have hu := Handles.processInput server _ u alive hinput
  cases alive with
  | true => exact hu
  | false => exact hu.trans { Handles.refl u with status_eq := Or.inr rfl }

theorem reading_takeInput {server : Server} {bytes : Bytes} {s t : Session}
    (h : (s.setReading false).takeInput server bytes = some t) : t.ioFlags.reading = false := by
  rw [(handles_takeInput h).flags_eq]
  rfl

end Session

theorem handled_processRead {server : Server} {ring ring' : Ring} {res : RecvResult}
    {s t : Session} {alive : Bool} {sid : SessionId} {room now : ℕ}
    (h : s.processRead server res ring = some (alive, t, ring')) :
    ∃ added, ring' = ring.extend added ∧
      Handled server ring (.recv sid room res now) s (if alive then t else t.setStatus .closing)
        added := by
  unfold Session.processRead at h
  cases res with
  | data bytes =>
    simp only [Option.map_eq_some_iff, Prod.mk.injEq] at h
    obtain ⟨s₁, hin, rfl, rfl, rfl⟩ := h
    obtain ⟨s₂, wOps, hwrite, hw⟩ := s₁.writeArmed_armWrite ring
    have hreading := hwrite.reading_eq.trans (Session.reading_takeInput hin)
    obtain ⟨s₃, rOps, hread, hr⟩ := s₂.readArmed_armRead (ring.extend wOps) hreading
    rw [hw]
    dsimp only
    rw [hr]
    exact ⟨wOps ++ rOps, Ring.extend_extend _ _ _, .data hin hwrite hread⟩
  | _ =>
    dsimp only at h
    split at h
    · rename_i hsize
      simp only [Option.some.injEq, Prod.mk.injEq] at h
      obtain ⟨rfl, rfl, rfl⟩ := h
      exact ⟨[], (Ring.extend_nil _).symm, .endClosed (by simp) hsize⟩
    · rename_i hsize
      simp only [Option.some.injEq, Prod.mk.injEq] at h
      obtain ⟨rfl, rfl, rfl⟩ := h
      exact ⟨[], (Ring.extend_nil _).symm, .endWaiting (by simp) (Nat.pos_of_ne_zero hsize)⟩

theorem handled_processNotif (server : Server) (ring : Ring) (s : Session) (sid : SessionId)
    (now : ℕ) :
    ∃ added, (s.processNotif ring).2.2 = ring.extend added ∧
      Handled server ring (.notif sid now) s
        (if (s.processNotif ring).1 then (s.processNotif ring).2.1
          else (s.processNotif ring).2.1.setStatus .closing) added := by
  unfold Session.processNotif
  by_cases hsize : 0 < s.releaseZc.writeBuffer.size
  · simp only [hsize, if_true, Session.arm]
    cases hroom : ring.full with
    | true => exact ⟨[], (Ring.extend_nil _).symm, .notifNoEntry hsize hroom⟩
    | false =>
      refine ⟨[.send s.self s.releaseZc.writeBuffer.unread], ?_, ?_⟩
      · rw [s.releaseZc.onWriteReadySqe_of_pos hsize]
        rfl
      · rw [s.releaseZc.onWriteReadySqe_of_pos hsize]
        exact .notifSend hsize hroom
  · have hzero : s.releaseZc.writeBuffer.size = 0 := by omega
    simp only [hsize, if_false]
    have hflag : s.releaseZc.keepAlive = s.keepAlive := rfl
    cases hkeep : s.keepAlive with
    | true =>
      rw [hflag, hkeep]
      exact ⟨[], (Ring.extend_nil _).symm, .notifKept hzero hkeep⟩
    | false =>
      rw [hflag, hkeep]
      exact ⟨[], (Ring.extend_nil _).symm, .notifClosed hzero hkeep⟩

theorem handled_sent {server : Server} {ring ring' : Ring} {s t : Session} {alive : Bool}
    {sid : SessionId} {n now : ℕ}
    (h : some ((s.setWaitingZc true).processWrite n false ring) = some (alive, t, ring')) :
    ∃ added, ring' = ring.extend added ∧
      Handled server ring (.sent sid n now) s (if alive then t else t.setStatus .closing)
        added := by
  have hpos : ¬ (n : ℤ) < 0 := by omega
  rw [Session.processWrite, if_neg Bool.false_ne_true, if_neg hpos] at h
  simp only [Option.some.injEq, Prod.mk.injEq] at h
  obtain ⟨rfl, rfl, rfl⟩ := h
  exact ⟨[], (Ring.extend_nil _).symm, .sent⟩

theorem handled_failed {server : Server} {ring ring' : Ring} {s t : Session} {alive more : Bool}
    {sid : SessionId} {now : ℕ}
    (h : some ((if more then s.setWaitingZc true else s).processWrite (-1) false ring) =
      some (alive, t, ring')) :
    ∃ added, ring' = ring.extend added ∧
      Handled server ring (.failed sid more now) s (if alive then t else t.setStatus .closing)
        added := by
  rw [Session.processWrite, if_neg Bool.false_ne_true, if_pos (by omega)] at h
  simp only [Option.some.injEq, Prod.mk.injEq] at h
  obtain ⟨rfl, rfl, rfl⟩ := h
  exact ⟨[], (Ring.extend_nil _).symm, .failed⟩

theorem handled_notif {server : Server} {ring ring' : Ring} {s t : Session} {alive : Bool}
    {sid : SessionId} {now : ℕ}
    (h : some (s.processWrite 0 true ring) = some (alive, t, ring')) :
    ∃ added, ring' = ring.extend added ∧
      Handled server ring (.notif sid now) s (if alive then t else t.setStatus .closing)
        added := by
  obtain ⟨added, hring, hhandled⟩ := handled_processNotif server ring s sid now
  rw [Session.processWrite, if_pos rfl, Option.some.injEq] at h
  rw [h] at hring hhandled
  exact ⟨added, hring, hhandled⟩

/-- Whatever is handled, the session keeps its number and prepares its own entries. -/
theorem Handled.frame {server : Server} {ring : Ring} {e : Event} {s t : Session}
    {added : List Op} (h : Handled server ring e s t added) :
    t.self = s.self ∧ ∀ op ∈ added, op.session? = some s.self ∨ op.session? = none := by
  cases h with
  | @data sid room now bytes s s₁ s₂ t wOps rOps hin hwrite hread =>
    have hself : s₁.self = s.self := (Session.handles_takeInput hin).self_eq
    have hw : s₂.self = s.self ∧
        ∀ op ∈ wOps, op.session? = some s.self ∨ op.session? = none := by
      cases hwrite with
      | sends => exact ⟨hself, by simp [Op.session?, hself]⟩
      | noEntry => exact ⟨hself, by simp⟩
      | idle => exact ⟨hself, by simp⟩
    have hr : t.self = s.self ∧
        ∀ op ∈ rOps, op.session? = some s.self ∨ op.session? = none := by
      cases hread with
      | receives => exact ⟨hw.1, by simp [Op.session?, hw.1]⟩
      | gaveUp => exact ⟨hw.1, by simp [Op.session?]⟩
      | noEntry => exact ⟨hw.1, by simp⟩
      | idle => exact ⟨hw.1, by simp⟩
    refine ⟨hr.1, fun op hop => ?_⟩
    exact (List.mem_append.mp hop).elim (hw.2 op) (hr.2 op)
  | notifSend => exact ⟨rfl, by simp [Op.session?]⟩
  | @failed sid more now s =>
    refine ⟨?_, by simp⟩
    cases more <;> rfl
  | _ => exact ⟨rfl, by simp⟩

theorem Completes.session {e : Event} {sid : SessionId} {op : Op} {next : List Op}
    (h : Completes e sid op next) :
    op.session? = some sid ∧ ∀ op' ∈ next, op'.session? = some sid := by
  cases h with
  | recv => exact ⟨rfl, by simp⟩
  | sent => exact ⟨rfl, by simp [Op.session?]⟩
  | failed _ more => cases more <;> exact ⟨rfl, by simp [Op.session?]⟩
  | notif => exact ⟨rfl, by simp⟩

end WarpApi

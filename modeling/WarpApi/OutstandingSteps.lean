import WarpApi.UringViews

/-!
The operations of all sessions over one step. A step of the worker takes one operation
and leaves the next stage of it, adds the entries that a handler has prepared or the
first recv of a connection, or only moves operations between the queues.
-/
namespace WarpApi

namespace Worker

/-- What has a completion to come, whether it has been submitted or not. -/
def outstanding (w : Worker) : Multiset Op := (w.ring.prepared ++ w.inFlight : List Op)

theorem outstanding_eq_add (w : Worker) :
    w.outstanding = (w.ring.prepared : Multiset Op) + w.inFlight :=
  (Multiset.coe_add _ _).symm

theorem ops_eq_filter (w : Worker) (sid : SessionId) :
    w.ops sid = w.outstanding.filter fun op => op.session? = some sid := by
  rw [outstanding, Multiset.filter_coe, List.filter_append, ← Multiset.coe_add]
  rfl

end Worker

/-- What a step makes of the outstanding operations. -/
inductive OpsStep (server : Server) (w w' : Worker) : Event → Prop
  | completed {e : Event} {sid : SessionId} {op : Op} {next added : List Op} {s : Session}
      {rest : Multiset Op} (hcompletes : Completes e sid op next) (hpool : w.pool sid = some s)
      (hadded : s.status ≠ .active ∧ added = [] ∨
        s.status = .active ∧ ∃ t u, w'.pool sid = some u ∧ Handled server w.ring e s t added)
      (hring : w'.ring = w.ring.extend added) (hbefore : w.outstanding = op ::ₘ rest)
      (hafter : w'.outstanding = added + (next + rest)) : OpsStep server w w' e
  | performed {sid : SessionId} {region : Bytes} {n : ℕ} {rest : Multiset Op}
      (hnext : w.nextSend sid = some region) (hbefore : w.outstanding = .send sid region ::ₘ rest)
      (hafter : w'.outstanding = .sent sid n ::ₘ rest) : OpsStep server w w' (.kernelSend sid n)
  | refused {sid : SessionId} {region : Bytes} {more : Bool} {rest : Multiset Op}
      (hnext : w.nextSend sid = some region) (hbefore : w.outstanding = .send sid region ::ₘ rest)
      (hafter : w'.outstanding = .failed sid more ::ₘ rest) :
      OpsStep server w w' (.kernelFail sid more)
  | connected (fd : ℤ) (more : Bool) (hroom : w.ring.full = false)
      (hafter : w'.outstanding =
        (Session.init server.settings w.acquired fd).onReadReadySqe.2 ::ₘ w.outstanding) :
      OpsStep server w w' (.accept fd more)
  | dropped (fd : ℤ) (more : Bool) (hfull : w.ring.full = true)
      (hkept : w'.outstanding = w.outstanding) : OpsStep server w w' (.accept fd more)
  | relisted (more : Bool) (hkept : w'.outstanding = w.outstanding) :
      OpsStep server w w' (.acceptFailed more)
  | expired (sid : SessionId) (hkept : w'.outstanding = w.outstanding) :
      OpsStep server w w' (.expire sid)
  | submitted (hkept : w'.outstanding = w.outstanding) : OpsStep server w w' .submit
  | consumed (k : ℕ) (hkept : w'.outstanding = w.outstanding) : OpsStep server w w' (.consume k)

theorem Completes.target {e : Event} {sid : SessionId} {op : Op} {next : List Op}
    (h : Completes e sid op next) (w : Worker) : w.target e = w.view sid := by
  cases h <;> rfl

namespace Worker

variable {server : Server} {w w' : Worker} {e : Event} {sid : SessionId} {op : Op}
  {next : List Op}

theorem outstanding_submit (w : Worker) : w.submit.outstanding = w.outstanding := by
  rw [outstanding_eq_add, outstanding_eq_add, submit, ← Multiset.coe_add, Multiset.coe_nil,
    zero_add]
  exact add_comm _ _

theorem outstanding_makeRoom (w : Worker) : w.makeRoom.outstanding = w.outstanding := by
  unfold makeRoom
  split
  · exact outstanding_submit w
  · rfl

/-- Taking an operation out of the queue leaves the others and what is still to come. -/
theorem outstanding_proceed (next : List Op) (hop : op ∈ w.inFlight) :
    ∃ rest, w.outstanding = op ::ₘ rest ∧ (w.proceed op next).outstanding = next + rest := by
  refine ⟨(w.ring.prepared : Multiset Op) + (w.inFlight.erase op : List Op), ?_, ?_⟩
  · rw [outstanding_eq_add, ← Multiset.add_cons, Multiset.cons_coe]
    exact congrArg _ (Multiset.coe_eq_coe.mpr (List.perm_cons_erase hop))
  · rw [outstanding_eq_add, proceed, ← Multiset.coe_add, add_comm (next : Multiset Op), add_assoc]

theorem outstanding_listenerDone {more : Bool} (hlistens : .accept ∈ w.inFlight)
    (h : w.listenerDone more = some w') : w'.outstanding = w.outstanding := by
  unfold listenerDone at h
  split at h
  · rw [← Option.some.inj h]
  · unfold rearmListener at h
    dsimp only at h
    split at h
    · simp at h
    · obtain ⟨rest, hbefore, hafter⟩ := outstanding_proceed [] hlistens
      have hrest : (w.proceed .accept []).makeRoom.outstanding = rest := by
        rw [outstanding_makeRoom, hafter, Multiset.coe_nil, zero_add]
      rw [← Option.some.inj h, hbefore, ← hrest, outstanding_eq_add, outstanding_eq_add,
        Ring.push, ← Multiset.coe_add, add_right_comm]
      exact add_comm _ _

theorem mem_inFlight_connect (fd : ℤ) (hop : op ∈ w.inFlight) :
    op ∈ (w.connect server fd).inFlight := by
  have hroom : op ∈ w.makeRoom.inFlight := by
    unfold makeRoom
    split
    · exact List.mem_append_left _ hop
    · exact hop
  unfold connect
  dsimp only
  split
  · exact hroom
  · exact hroom

theorem outstanding_connect (server : Server) (w : Worker) (fd : ℤ) :
    (w.ring.full = true ∧ (w.connect server fd).outstanding = w.outstanding) ∨
      (w.ring.full = false ∧ (w.connect server fd).outstanding =
        (Session.init server.settings w.acquired fd).onReadReadySqe.2 ::ₘ w.outstanding) := by
  unfold connect
  dsimp only
  split
  · rename_i hfull
    exact Or.inl ⟨(full_makeRoom w).symm.trans hfull, outstanding_makeRoom w⟩
  · rename_i hroom
    refine Or.inr ⟨(full_makeRoom w).symm.trans (Bool.eq_false_iff.mpr hroom), ?_⟩
    rw [← outstanding_makeRoom w, outstanding_eq_add, outstanding_eq_add, ← Multiset.singleton_add]
    simp only [store, Ring.push, ← Multiset.coe_add]
    rw [add_right_comm, Multiset.coe_singleton]
    exact add_comm _ _

theorem queues_touch (w : Worker) (sid : SessionId) (s : Session) (ring : Ring) (now : ℕ) :
    (w.touch sid s ring now).ring = ring ∧ (w.touch sid s ring now).inFlight = w.inFlight ∧
      ∃ u, (w.touch sid s ring now).pool sid = some u := by
  have hpool : ∀ t, (w.store sid t ring).pool sid = some t := fun t => by
    simp only [store, Function.update_self]
  rw [touch]
  -- the elapsed time is not computed
  generalize tickPassed now s.lastActivityTick = ticked
  cases ticked with
  | true =>
    rw [if_pos rfl]
    exact ⟨rfl, rfl, _, hpool { s with lastActivityTick := now }⟩
  | false =>
    rw [if_neg Bool.false_ne_true]
    exact ⟨rfl, rfl, _, hpool s⟩

theorem opsStep_take {now : ℕ} {process : Session → Ring → Option (Bool × Session × Ring)}
    (hcompletes : Completes e sid op next)
    (hprocess : ∀ s alive t ring', process s w.ring = some (alive, t, ring') →
      ∃ added, ring' = w.ring.extend added ∧
        Handled server w.ring e s (if alive then t else t.setStatus .closing) added)
    (h : w.take op next sid now process = some w') : OpsStep server w w' e := by
  obtain ⟨hop, hcomplete⟩ := Option.ite_none_right_eq_some.mp h
  obtain ⟨rest, hbefore, hafter⟩ := outstanding_proceed next hop
  have hadd : ∀ added, w'.inFlight = (w.proceed op next).inFlight →
      w'.ring = w.ring.extend added → w'.outstanding = added + (next + rest) := by
    intro added hflight hring
    rw [← hafter, outstanding_eq_add, outstanding_eq_add, hflight, hring, Ring.extend,
      ← Multiset.coe_add, add_comm (w.ring.prepared : Multiset Op), add_assoc]
    rfl
  have hquiet : ∀ s, w.pool sid = some s → s.status ≠ .active → w'.ring = w.ring →
      w'.inFlight = (w.proceed op next).inFlight → OpsStep server w w' e := by
    intro s hpool hinactive hring hflight
    have hsame : w'.ring = w.ring.extend [] := hring.trans (Ring.extend_nil _).symm
    exact .completed hcompletes hpool (Or.inl ⟨hinactive, rfl⟩) hsame hbefore
      (hadd [] hflight hsame)
  obtain ⟨s, hpool, hcase⟩ := complete_cases hcomplete
  cases hcase with
  | frees hclosing hio hw' =>
    rw [hw'] at hquiet ⊢
    exact hquiet s hpool (by rw [hclosing]; decide) rfl rfl
  | ignores hinactive hkept hw' =>
    rw [hw'] at hquiet ⊢
    exact hquiet s hpool hinactive rfl rfl
  | @handles alive t ring' hactive hres hw' =>
    obtain ⟨added, rfl, hhandled⟩ := hprocess s alive t ring' hres
    obtain ⟨hring, hflight, u, hu⟩ := queues_touch (w.proceed op next) sid
      (if alive then t else t.setStatus .closing) (w.ring.extend added) now
    rw [← hw'] at hring hflight hu
    exact .completed hcompletes hpool (Or.inr ⟨hactive, _, u, hu, hhandled⟩) hring hbefore
      (hadd added hflight hring)

theorem outstanding_expire (w : Worker) (sid : SessionId) (s : Session) :
    (w.expire sid s).outstanding = w.outstanding := by
  unfold expire
  dsimp only
  split
  · rfl
  · rfl

theorem opsStep (h : w.step server e = some w') : OpsStep server w w' e := by
  cases step_cases h with
  | completes hcompletes hprocess htake => exact opsStep_take hcompletes hprocess htake
  | @accepts fd more hlistens hdone =>
    have hkept := outstanding_listenerDone (mem_inFlight_connect fd hlistens) hdone
    rcases outstanding_connect server w fd with ⟨hfull, hsame⟩ | ⟨hroom, hafter⟩
    · exact .dropped fd more hfull (hkept.trans hsame)
    · exact .connected fd more hroom (hkept.trans hafter)
  | acceptFails hlistens hdone => exact .relisted _ (outstanding_listenerDone hlistens hdone)
  | @performs sid region n hnext hn hw' =>
    obtain ⟨rest, hbefore, hafter⟩ := outstanding_proceed [.sent sid n] (mem_of_nextSend hnext)
    rw [hw']
    exact .performed hnext hbefore hafter
  | @refuses sid region more hnext hw' =>
    obtain ⟨rest, hbefore, hafter⟩ :=
      outstanding_proceed [.failed sid more] (mem_of_nextSend hnext)
    rw [hw']
    exact .refused hnext hbefore hafter
  | @expires sid s hpool hlinked hw' =>
    rw [hw']
    exact .expired sid (outstanding_expire w sid s)
  | submits hw' =>
    rw [hw']
    exact .submitted (outstanding_submit w)
  | consumes hw' =>
    rw [hw']
    exact .consumed _ rfl

end Worker

end WarpApi

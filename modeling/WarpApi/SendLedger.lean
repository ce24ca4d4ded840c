import WarpApi.OutstandingOps
import WarpApi.OutstandingSteps

/-!
The ledger of sends. It follows every send_zc beside the worker, from its entry to its
F_NOTIF, and remembers where it started and how much the kernel has accepted. It only
watches: it has every outstanding send, and every run of the worker is a run with it.
-/
namespace WarpApi

/-- A send_zc: the operation that stands for it, the read position at which it started,
and the number of bytes from there on that the kernel has accepted. -/
structure Pin where
  op : Op
  start : ℕ
  accepted : ℕ
  deriving DecidableEq

namespace Pin

def Holds (p : Pin) (pos : ℕ) : Prop := p.start ≤ pos ∧ pos < p.start + p.accepted

/-- The next stage of the send. Once it is performed, it is known what was accepted. -/
def move (p : Pin) : Op → Pin
  | .sent sid n => ⟨.sent sid n, p.start, n⟩
  | op => { p with op := op }

theorem op_move (p : Pin) (op : Op) : (p.move op).op = op := by
  cases op <;> rfl

theorem start_move (p : Pin) (op : Op) : (p.move op).start = p.start := by
  cases op <;> rfl

end Pin

def Op.isZc (op : Op) : Bool := op.isSend || op.isNotif

/-- The stage of a send that an event ends, and what follows it. -/
def Worker.stage? (w : Worker) : Event → Option (Op × List Op)
  | .sent sid n _ => some (.sent sid n, [.notif sid])
  | .failed sid more _ => some (.failed sid more, if more then [.notif sid] else [])
  | .notif sid _ => some (.notif sid, [])
  | .kernelSend sid n => (w.nextSend sid).map fun region => (.send sid region, [.sent sid n])
  | .kernelFail sid more =>
    (w.nextSend sid).map fun region => (.send sid region, [.failed sid more])
  | _ => none

/-- The event moves the send at this index of the ledger, if it is about a send. -/
def movePins (w : Worker) (pins : List Pin) (e : Event) (i : ℕ) : Option (List Pin) :=
  match w.stage? e with
  | none => some pins
  | some (op, next) => pins[i]?.bind fun p =>
    if p.op = op then some (pins.eraseIdx i ++ next.map p.move) else none

/-- The sends that have been prepared start at the read position of their session. -/
def newPins (w w' : Worker) : List Pin :=
  (w'.ring.prepared.drop w.ring.prepared.length).filterMap fun op =>
    if op.isSend then (op.session?.bind w'.pool).map fun s => ⟨op, s.writeBuffer.readPos, 0⟩
    else none

def Event.isCompletion : Event → Bool
  | .recv _ _ _ _ => true
  | .sent _ _ _ => true
  | .failed _ _ _ => true
  | .notif _ _ => true
  | _ => false

/-- A step of the worker with its ledger. The label tells of which of several sends in the
same stage the completion is. -/
def pinnedStep (server : Server) (x : Worker × List Pin) (l : Event × ℕ) :
    Option (Worker × List Pin) :=
  (x.1.step server l.1).bind fun w => (movePins x.1 x.2 l.1 l.2).map fun pins =>
    (w, pins ++ if l.1.isCompletion then newPins x.1 w else [])

def zcOps (ops : Multiset Op) : Multiset Op := ops.filter fun op => op.isZc = true

/-- The ledger has every send, in the stage that it is in. -/
def Ledger (w : Worker) (pins : List Pin) : Prop :=
  (pins.map Pin.op : Multiset Op) = zcOps w.outstanding

section zcOps

variable {op : Op} {ops ops' : Multiset Op}

theorem zcOps_add : zcOps (ops + ops') = zcOps ops + zcOps ops' := Multiset.filter_add ..

theorem zcOps_cons (h : op.isZc = true) : zcOps (op ::ₘ ops) = op ::ₘ zcOps ops :=
  Multiset.filter_cons_of_pos ops h

theorem zcOps_cons_other (h : op.isZc = false) : zcOps (op ::ₘ ops) = zcOps ops :=
  Multiset.filter_cons_of_neg ops (by simp [h])

theorem zcOps_eq_self (h : ∀ op ∈ ops, op.isZc = true) : zcOps ops = ops :=
  Multiset.filter_eq_self.mpr h

theorem card_zcOps (ops : Multiset Op) : (zcOps ops).card = sends ops + notifs ops := by
  induction ops using Multiset.induction with
  | empty => rfl
  | cons op ops ih =>
    have hkinds : op.isZc.toNat = op.isSend.toNat + op.isNotif.toNat := by cases op <;> rfl
    rw [sends_cons, notifs_cons]
    cases hop : op.isZc with
    | true =>
      rw [zcOps_cons hop, Multiset.card_cons]
      rw [hop, Bool.toNat_true] at hkinds
      omega
    | false =>
      rw [zcOps_cons_other hop]
      rw [hop, Bool.toNat_false] at hkinds
      omega

theorem zcOps_coe (l : List Op) : zcOps l = (l.filter Op.isZc : List Op) := by
  simp [zcOps]

end zcOps

section stages

variable {server : Server} {w w' : Worker} {e : Event} {sid : SessionId} {op : Op}
  {next added : List Op} {ring : Ring} {s t : Session}

theorem Completes.isCompletion (h : Completes e sid op next) : e.isCompletion = true := by
  cases h <;> rfl

theorem Completes.stage (h : Completes e sid op next) (w : Worker) :
    (w.stage? e = none ∧ op.isZc = false ∧ next = []) ∨
      w.stage? e = some (op, next) ∧ op.isZc = true ∧ ∀ op' ∈ next, op'.isZc = true := by
  have hnotif : ∀ op' ∈ [Op.notif sid], op'.isZc = true := by simp [Op.isZc, Op.isNotif]
  cases h with
  | recv => exact Or.inl ⟨rfl, rfl, rfl⟩
  | sent => exact Or.inr ⟨rfl, rfl, hnotif⟩
  | failed _ more =>
    refine Or.inr ⟨rfl, rfl, ?_⟩
    cases more with
    | true => exact hnotif
    | false => exact fun _ hop => absurd hop List.not_mem_nil
  | notif => exact Or.inr ⟨rfl, rfl, fun _ hop => absurd hop List.not_mem_nil⟩

theorem stage_kernelSend {region : Bytes} (n : ℕ) (h : w.nextSend sid = some region) :
    w.stage? (.kernelSend sid n) = some (.send sid region, [.sent sid n]) := by
  rw [Worker.stage?, h]
  rfl

theorem stage_kernelFail {region : Bytes} (more : Bool) (h : w.nextSend sid = some region) :
    w.stage? (.kernelFail sid more) = some (.send sid region, [.failed sid more]) := by
  rw [Worker.stage?, h]
  rfl

theorem session_stage (h : w.stage? e = some (op, next)) {op' : Op} (hop : op' ∈ next) :
    op'.session? = op.session? := by
  cases e with
  | sent sid n =>
    obtain ⟨rfl, rfl⟩ := Prod.mk.inj (Option.some.inj h)
    exact List.mem_singleton.mp hop ▸ rfl
  | failed sid more =>
    obtain ⟨rfl, rfl⟩ := Prod.mk.inj (Option.some.inj h)
    cases more with
    | true => exact List.mem_singleton.mp hop ▸ rfl
    | false => exact absurd hop List.not_mem_nil
  | notif sid =>
    obtain ⟨rfl, rfl⟩ := Prod.mk.inj (Option.some.inj h)
    exact absurd hop List.not_mem_nil
  | kernelSend sid n =>
    obtain ⟨region, -, hstage⟩ := Option.map_eq_some_iff.mp h
    obtain ⟨rfl, rfl⟩ := Prod.mk.inj hstage
    exact List.mem_singleton.mp hop ▸ rfl
  | kernelFail sid more =>
    obtain ⟨region, -, hstage⟩ := Option.map_eq_some_iff.mp h
    obtain ⟨rfl, rfl⟩ := Prod.mk.inj hstage
    exact List.mem_singleton.mp hop ▸ rfl
  | _ => simp [Worker.stage?] at h

/-- The entries of a handler are no notifications, and its sends are its session's own. -/
theorem Handled.prepared (h : Handled server ring e s t added) :
    ∀ op ∈ added, op.isNotif = false ∧ (op.isSend = true → op.session? = some s.self) := by
  have hown : ∀ op ∈ added, op.isSend = true → op.session? = some s.self := by
    intro op hop hsend
    refine (h.frame.2 op hop).resolve_right ?_
    cases op <;> simp [Op.isSend, Op.session?] at hsend ⊢
  refine fun op hop => ⟨?_, hown op hop⟩
  cases h with
  | data hin hwrite hread =>
    rcases List.mem_append.mp hop with hop | hop
    · cases hwrite with
      | sends => exact List.mem_singleton.mp hop ▸ rfl
      | noEntry => exact absurd hop List.not_mem_nil
      | idle => exact absurd hop List.not_mem_nil
    · cases hread with
      | receives => exact List.mem_singleton.mp hop ▸ rfl
      | gaveUp => exact List.mem_singleton.mp hop ▸ rfl
      | noEntry => exact absurd hop List.not_mem_nil
      | idle => exact absurd hop List.not_mem_nil
  | notifSend => exact List.mem_singleton.mp hop ▸ rfl
  | _ => exact absurd hop List.not_mem_nil

theorem ops_newPins (hring : w'.ring = w.ring.extend added)
    (hadded : ∀ op ∈ added, op.isNotif = false ∧
      (op.isSend = true → ∃ sid u, op.session? = some sid ∧ w'.pool sid = some u)) :
    (newPins w w').map Pin.op = added.filter Op.isZc := by
  unfold newPins
  rw [hring, Ring.extend, List.drop_left, List.map_filterMap, ← List.filterMap_eq_filter]
  refine List.filterMap_congr fun op hop => ?_
  obtain ⟨hnotif, hsend⟩ := hadded op hop
  unfold Op.isZc Option.guard
  cases hop' : op.isSend with
  | true =>
    obtain ⟨sid, u, hsid, hu⟩ := hsend hop'
    simp [hop', hsid, hu]
  | false => simp [hop', hnotif]

theorem start_newPins {p : Pin} (hp : p ∈ newPins w w') (hsid : p.op.session? = some sid)
    (hs : w'.pool sid = some s) : p.start = s.writeBuffer.readPos := by
  unfold newPins at hp
  obtain ⟨op, -, hpin⟩ := List.mem_filterMap.mp hp
  split at hpin
  · obtain ⟨u, hu, rfl⟩ := Option.map_eq_some_iff.mp hpin
    have hown : op.session? = some sid := hsid
    rw [hown, Option.bind_some, hs] at hu
    rw [Option.some.inj hu]
  · simp at hpin

/-- A send that moves is taken from the ledger, and its next stage is put behind the others. -/
theorem movePins_eq_some {pins moved : List Pin} {i : ℕ} (hstage : w.stage? e = some (op, next))
    (h : movePins w pins e i = some moved) :
    ∃ p kept, pins.Perm (p :: kept) ∧ p.op = op ∧ moved = kept ++ next.map p.move := by
  unfold movePins at h
  rw [hstage] at h
  obtain ⟨p, hp, hmoved⟩ := Option.bind_eq_some_iff.mp h
  split at hmoved
  · rename_i hop
    obtain ⟨hi, rfl⟩ := List.getElem?_eq_some_iff.mp hp
    exact ⟨_, pins.eraseIdx i, (List.getElem_cons_eraseIdx_perm hi).symm, hop,
      (Option.some.inj hmoved).symm⟩
  · simp at hmoved

theorem movePins_of_none {pins : List Pin} (i : ℕ) (hstage : w.stage? e = none) :
    movePins w pins e i = some pins := by
  unfold movePins
  rw [hstage]

end stages

section ledger

variable {server : Server} {w w' : Worker} {e : Event} {sid : SessionId} {op : Op}
  {next : List Op} {rest : Multiset Op} {pins moved : List Pin} {i : ℕ}

theorem ledger_init (entries : ℕ) : Ledger (Worker.init entries) [] := rfl

theorem Ledger.staged (h : Ledger w pins) (hstage : w.stage? e = some (op, next))
    (hop : op.isZc = true) (hbefore : w.outstanding = op ::ₘ rest)
    (hmove : movePins w pins e i = some moved) :
    (moved.map Pin.op : Multiset Op) = next + zcOps rest := by
  obtain ⟨p, kept, hperm, hp, rfl⟩ := movePins_eq_some hstage hmove
  have hkept : (kept.map Pin.op : Multiset Op) = zcOps rest := by
    have hcons : (p.op ::ₘ (kept.map Pin.op : Multiset Op)) = op ::ₘ zcOps rest := by
      rw [← zcOps_cons hop, ← hbefore, ← h]
      exact (Multiset.coe_eq_coe.mpr (hperm.map Pin.op)).symm
    rw [hp] at hcons
    exact (Multiset.cons_inj_right op).mp hcons
  have hnext : (next.map p.move).map Pin.op = next := by
    rw [List.map_map]
    exact (List.map_congr_left fun op _ => p.op_move op).trans (List.map_id next)
  rw [List.map_append, hnext, ← Multiset.coe_add, hkept, add_comm]

/-- The zero-copy operations among the prepared entries are the new pins. -/
theorem ops_newPins_of_handled {added : List Op} {s : Session} (hw : w.Sound)
    (hpool : w.pool sid = some s) (hring : w'.ring = w.ring.extend added)
    (hadded : s.status ≠ .active ∧ added = [] ∨
      s.status = .active ∧ ∃ t u, w'.pool sid = some u ∧ Handled server w.ring e s t added) :
    ((newPins w w').map Pin.op : Multiset Op) = zcOps added := by
  rw [zcOps_coe, ops_newPins hring]
  rcases hadded with ⟨-, rfl⟩ | ⟨-, t, u, hu, hhandled⟩
  · exact fun _ hop => absurd hop List.not_mem_nil
  · intro op hop
    obtain ⟨hnotif, hown⟩ := hhandled.prepared op hop
    refine ⟨hnotif, fun hsend => ⟨sid, u, ?_, hu⟩⟩
    rw [hown hsend, hw.keyed sid s hpool]

/-- The pins behind a completion: a send that has completed waits for its F_NOTIF. -/
theorem Ledger.completed (h : Ledger w pins) (hcompletes : Completes e sid op next)
    (hbefore : w.outstanding = op ::ₘ rest) (hmove : movePins w pins e i = some moved) :
    (moved.map Pin.op : Multiset Op) = zcOps (next + rest) := by
  rw [zcOps_add]
  rcases hcompletes.stage w with ⟨hstage, hop, rfl⟩ | ⟨hstage, hop, hnext⟩
  · rw [movePins_of_none i hstage] at hmove
    rw [← Option.some.inj hmove, h, hbefore, zcOps_cons_other hop]
    exact (zero_add _).symm
  · have hall : zcOps (next : Multiset Op) = next := zcOps_eq_self hnext
    rw [h.staged hstage hop hbefore hmove, hall]

theorem Ledger.step (h : Ledger w pins) (hw : w.Sound) (hstep : w.step server e = some w')
    (hmove : movePins w pins e i = some moved) :
    Ledger w' (moved ++ if e.isCompletion then newPins w w' else []) := by
  have hkept : w.stage? e = none → e.isCompletion = false →
      zcOps w'.outstanding = zcOps w.outstanding →
      Ledger w' (moved ++ if e.isCompletion then newPins w w' else []) := by
    intro hstage hevent hsame
    rw [movePins_of_none i hstage] at hmove
    rw [Ledger, hsame, hevent, if_neg Bool.false_ne_true, List.append_nil, ← Option.some.inj hmove]
    exact h
  have hperformed : ∀ op op' rest, w.stage? e = some (op, [op']) → op.isZc = true →
      op'.isZc = true → e.isCompletion = false → w.outstanding = op ::ₘ rest →
      w'.outstanding = op' ::ₘ rest →
      Ledger w' (moved ++ if e.isCompletion then newPins w w' else []) := by
    intro op op' rest hstage hop hop' hevent hbefore hafter
    rw [Ledger, hafter, hevent, if_neg Bool.false_ne_true, List.append_nil,
      h.staged hstage hop hbefore hmove, zcOps_cons hop']
    rfl
  cases Worker.opsStep hstep with
  | completed hcompletes hpool hadded hring hbefore hafter =>
    rw [Ledger, hafter, hcompletes.isCompletion, if_pos rfl, List.map_append, ← Multiset.coe_add,
      h.completed hcompletes hbefore hmove, ops_newPins_of_handled hw hpool hring hadded]
    exact (add_comm _ _).trans zcOps_add.symm
  | performed hnext hbefore hafter =>
    exact hperformed _ _ _ (stage_kernelSend _ hnext) rfl rfl rfl hbefore hafter
  | refused hnext hbefore hafter =>
    exact hperformed _ _ _ (stage_kernelFail _ hnext) rfl rfl rfl hbefore hafter
  | connected fd more hroom hafter =>
    refine hkept rfl rfl ?_
    rw [hafter, zcOps_cons_other]
    unfold Session.onReadReadySqe
    split
    · simp [Op.isZc, Op.isSend, Op.isNotif]
    · simp [Op.isZc, Op.isSend, Op.isNotif]
  | dropped fd more hfull hsame => exact hkept rfl rfl (by rw [hsame])
  | relisted more hsame => exact hkept rfl rfl (by rw [hsame])
  | expired sid hsame => exact hkept rfl rfl (by rw [hsame])
  | submitted hsame => exact hkept rfl rfl (by rw [hsame])
  | consumed k hsame => exact hkept rfl rfl (by rw [hsame])

theorem stage_of_step (hstep : w.step server e = some w') :
    w.stage? e = none ∨
      ∃ op next, w.stage? e = some (op, next) ∧ op.isZc = true ∧ op ∈ w.outstanding := by
  cases Worker.opsStep hstep with
  | completed hcompletes hpool hadded hring hbefore hafter =>
    rcases hcompletes.stage w with ⟨hstage, -, -⟩ | ⟨hstage, hop, -⟩
    · exact Or.inl hstage
    · exact Or.inr ⟨_, _, hstage, hop, hbefore ▸ Multiset.mem_cons_self _ _⟩
  | performed hnext hbefore hafter =>
    exact Or.inr ⟨_, _, stage_kernelSend _ hnext, rfl, hbefore ▸ Multiset.mem_cons_self _ _⟩
  | refused hnext hbefore hafter =>
    exact Or.inr ⟨_, _, stage_kernelFail _ hnext, rfl, hbefore ▸ Multiset.mem_cons_self _ _⟩
  | _ => exact Or.inl rfl

/-- The ledger is never in the way of a step. -/
theorem Ledger.exists_moved (h : Ledger w pins) (hstep : w.step server e = some w') :
    ∃ i moved, movePins w pins e i = some moved := by
  rcases stage_of_step hstep with hstage | ⟨op, next, hstage, hop, hmem⟩
  · exact ⟨0, pins, movePins_of_none 0 hstage⟩
  · have hpinned : op ∈ (pins.map Pin.op : Multiset Op) := by
      rw [h]
      exact Multiset.mem_filter.mpr ⟨hmem, hop⟩
    obtain ⟨p, hp, rfl⟩ := List.mem_map.mp (Multiset.mem_coe.mp hpinned)
    obtain ⟨i, hi⟩ := List.mem_iff_getElem?.mp hp
    refine ⟨i, pins.eraseIdx i ++ next.map p.move, ?_⟩
    unfold movePins
    rw [hstage]
    simp only [hi, Option.bind_some, if_true]

/-- Every run of the worker is a run with a ledger. -/
theorem exists_pinnedRun (server : Server) (entries : ℕ) (es : List Event)
    (hrun : Runs.run (Worker.step server) (Worker.init entries) es = some w) :
    ∃ ls x, ls.map Prod.fst = es ∧
      Runs.run (pinnedStep server) (Worker.init entries, []) ls = some x ∧ x.1 = w := by
  refine Runs.exists_run_above (I := fun x : Worker × List Pin => x.1.Sound ∧ Ledger x.1 x.2)
    ?_ ⟨Worker.sound_init entries, ledger_init entries⟩ hrun
  rintro ⟨u, pins⟩ e v ⟨hu, hledger⟩ hv
  obtain ⟨i, moved, hmove⟩ := hledger.exists_moved hv
  refine ⟨(e, i), (v, moved ++ if e.isCompletion then newPins u v else []), rfl, ?_, rfl,
    Worker.sound_step hu hv, hledger.step hu hv hmove⟩
  rw [pinnedStep, hv, Option.bind_some, hmove, Option.map_some]

end ledger

end WarpApi

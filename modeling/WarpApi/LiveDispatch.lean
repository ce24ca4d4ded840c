import WarpApi.EpollLoop
import WarpApi.Library.HandleTable

/-!
The session table of the epoll loop as a table of handles. Descriptors and places in
the pool are used again, and the table keeps the place of a session that has closed
its socket itself. Every event of a client still finds the session of the latest
accept of its descriptor, because a batch reports a descriptor only once.
-/
namespace WarpApi

namespace EpollWorker

/-- The session at a place in use: its number and the descriptor that it has open. -/
def holder (w : EpollWorker) (a : Slot) : Option (SessionId × Option ℕ) :=
  if w.inUse a then (w.memory a).map fun s => (s.self, s.socket.toNat?) else none

def handles (w : EpollWorker) : HandleTable ℕ Slot where
  entry := fun fd => (w.table[fd]?).join
  holder := w.holder
  isOpen := w.registered
  next := w.accepted
  latest := w.latest
  released := w.released

/-- The handles are in order, and so is what the loop keeps besides. -/
structure Kept (w : EpollWorker) : Prop where
  handles : w.handles.Sound
  sockets : ∀ a s, w.inUse a = true → w.memory a = some s →
    s.socket = socketErrorValue ∨ ∃ fd : ℕ, s.socket = fd ∧ fd < 2 ^ 31
  linked : ∀ a, w.wheel a = true → w.inUse a = true
  ready : ∀ fd, .client fd ∈ w.pending → w.registered fd = true
  once : w.pending.Nodup
  size : 0 < w.table.length ∧ w.table.length ≤ 2 ^ 31

theorem isOpen_of_socket {s : Session} {fd : ℕ} (h : s.socket = fd) : s.isOpen = true := by
  simp [Session.isOpen, h, socketErrorValue]

theorem closeFd_eq (registered : ℕ → Bool) (fd : ℤ) :
    closeFd registered fd = HandleTable.closeKey registered fd.toNat? := by
  funext n
  unfold closeFd HandleTable.closeKey
  simp only [Int.mem_toNat?, eq_comm]

theorem length_le_grow (table : List (Option Slot)) (fd : ℕ) :
    table.length ≤ (grow table fd).length := by
  unfold grow
  split_ifs
  · rw [List.length_append]
    omega
  · exact le_refl _

theorem lt_length_grow {table : List (Option Slot)} {fd : ℕ} (hsize : 0 < table.length) :
    fd < (grow table fd).length := by
  unfold grow
  split_ifs with hle
  · rw [List.length_append, List.length_replicate]
    omega
  · omega

theorem join_grow (table : List (Option Slot)) (fd n : ℕ) :
    ((grow table fd)[n]?).join = (table[n]?).join := by
  unfold grow
  split_ifs with hle
  · by_cases hn : n < table.length
    · rw [List.getElem?_append_left hn]
    · have hle : table.length ≤ n := Nat.le_of_not_lt hn
      rw [List.getElem?_append_right hle, List.getElem?_eq_none hle, List.getElem?_replicate]
      split_ifs <;> rfl
  · rfl

theorem join_set {table : List (Option Slot)} {fd : ℕ} (hfd : fd < table.length)
    (o : Option Slot) (n : ℕ) :
    ((table.set fd o)[n]?).join = if n = fd then o else (table[n]?).join := by
  rw [List.getElem?_set]
  by_cases hn : fd = n
  · subst hn
    rw [if_pos rfl, if_pos hfd, if_pos rfl]
    rfl
  · rw [if_neg hn, if_neg (Ne.symm hn)]

theorem holder_update (w w' : EpollWorker) {a : Slot} {o : Option Session} {used : Bool}
    (hmemory : w'.memory = Function.update w.memory a o)
    (huse : w'.inUse = Function.update w.inUse a used) :
    w'.holder = Function.update w.holder a
      (if used then o.map fun s => (s.self, s.socket.toNat?) else none) := by
  funext b
  unfold holder
  rw [hmemory, huse]
  by_cases hb : b = a
  · subst hb
    rw [Function.update_self, Function.update_self, Function.update_self]
  · rw [Function.update_of_ne hb, Function.update_of_ne hb, Function.update_of_ne hb]

theorem holder_used (w w' : EpollWorker) {a : Slot} {t : Session}
    (hmemory : w'.memory = Function.update w.memory a (some t))
    (huse : w'.inUse = Function.update w.inUse a true) :
    w'.holder = Function.update w.holder a (some (t.self, t.socket.toNat?)) :=
  holder_update w w' hmemory huse

theorem holder_free (w w' : EpollWorker) {a : Slot} {o : Option Session}
    (hmemory : w'.memory = Function.update w.memory a o)
    (huse : w'.inUse = Function.update w.inUse a false) :
    w'.holder = Function.update w.holder a none :=
  holder_update w w' hmemory huse

theorem holder_eq {w : EpollWorker} {a : Slot} {s : Session} (huse : w.inUse a = true)
    (hmemory : w.memory a = some s) : w.holder a = some (s.self, s.socket.toNat?) := by
  unfold holder
  rw [if_pos huse, hmemory]
  rfl

theorem holder_kept (w w' : EpollWorker) {a : Slot} {t : Session}
    (hmemory : w'.memory = Function.update w.memory a (some t)) (huse : w.inUse a = true)
    (hkept : w'.inUse = w.inUse) :
    w'.holder = Function.update w.holder a (some (t.self, t.socket.toNat?)) := by
  refine holder_used w w' hmemory ?_
  rw [hkept, ← huse, Function.update_eq_self]

theorem acceptOne_cases {server : Server} {w w' : EpollWorker} {fd : ℕ} {a : Slot}
    (h : w.acceptOne server (fd, a) = some w') :
    w.registered fd = false ∧ w.inUse a = false ∧ (w.table.length ≤ fd → fd * 2 < 2 ^ 31) ∧
      w' = { w with
        memory := Function.update w.memory a (some (Session.init server.settings w.accepted fd))
        inUse := Function.update w.inUse a true
        table := (grow w.table fd).set fd (some a)
        registered := Function.update w.registered fd true
        accepted := w.accepted + 1
        latest := Function.update w.latest fd (some w.accepted) } := by
  dsimp only [acceptOne] at h
  split_ifs at h with hbusy
  simp only [not_or, Bool.not_eq_true, not_and, not_le] at hbusy
  exact ⟨hbusy.1, hbusy.2.1, hbusy.2.2, (Option.some.inj h).symm⟩

theorem handles_acceptOne {server : Server} {w w' : EpollWorker} {fd : ℕ} {a : Slot}
    (hsize : 0 < w.table.length) (h : w.acceptOne server (fd, a) = some w') :
    w'.handles = w.handles.acquire fd a := by
  obtain ⟨-, -, -, rfl⟩ := acceptOne_cases h
  unfold handles HandleTable.acquire
  congr 1
  · funext n
    dsimp only
    rw [join_set (lt_length_grow hsize), join_grow, Function.update_apply]
  · exact holder_used w _ (t := Session.init server.settings w.accepted fd) rfl rfl

theorem fdIndex_natCast {fd : ℕ} (hfd : fd < 2 ^ 31) : fdIndex fd = fd := by
  unfold fdIndex
  omega

theorem fdIndex_socketErrorValue : fdIndex socketErrorValue = 2 ^ 64 - 1 := rfl

/-- The entry of the descriptor goes, and -1 is behind the end of the table. -/
theorem join_release {table : List (Option Slot)} {socket : ℤ} (hsize : table.length ≤ 2 ^ 31)
    (hsocket : socket = socketErrorValue ∨ ∃ fd : ℕ, socket = fd ∧ fd < 2 ^ 31) (n : ℕ) :
    ((if fdIndex socket < table.length then table.set (fdIndex socket) none else table)[n]?).join =
      if socket.toNat? = some n then none else (table[n]?).join := by
  rcases hsocket with rfl | ⟨fd, rfl, hfd⟩
  · rw [fdIndex_socketErrorValue, if_neg (by omega), if_neg]
    rw [Int.mem_toNat?, socketErrorValue]
    omega
  · have hiff : (fd : ℤ).toNat? = some n ↔ n = fd := by
      rw [Int.mem_toNat?]
      omega
    rw [fdIndex_natCast hfd]
    split_ifs with hlt heq heq
    · rw [join_set hlt, if_pos (hiff.mp heq)]
    · rw [join_set hlt, if_neg (heq ∘ hiff.mpr)]
    · rw [hiff.mp heq, List.getElem?_eq_none (by omega)]
      rfl
    · rfl

theorem handles_release {w : EpollWorker} (hw : Kept w) {a : Slot} {s : Session}
    (huse : w.inUse a = true) (hmemory : w.memory a = some s) :
    (w.release a s).handles = w.handles.release a s.self s.socket.toNat? := by
  unfold handles HandleTable.release
  congr 1
  · funext n
    exact join_release hw.size.2 (hw.sockets a s huse hmemory) n
  · exact holder_free w _ rfl rfl
  · exact closeFd_eq w.registered s.socket

/-- Only closing makes a difference for the table. -/
theorem handles_put {w : EpollWorker} {a : Slot} {s t : Session} (hsame : SameClient s t)
    (huse : w.inUse a = true) (hmemory : w.memory a = some s) :
    (w.put a s t).handles = if t.isOpen then w.handles
      else w.handles.shut a s.self s.socket.toNat? := by
  have hholder := holder_kept w (w.put a s t) rfl huse rfl
  rw [hsame.self_eq] at hholder
  unfold handles
  rw [hholder]
  split_ifs with hopen
  · have hsocket : t.socket = s.socket := by
      rcases hsame.socket_eq with heq | hclosed
      · exact heq
      · exact absurd (hclosed.symm.trans hopen) Bool.false_ne_true
    have hregistered : (w.put a s t).registered = w.registered := if_pos hopen
    rw [hsocket, ← holder_eq huse hmemory, Function.update_eq_self, hregistered]
    rfl
  · have hsocket : t.socket = socketErrorValue := by
      simpa [Session.isOpen] using hopen
    have hregistered : (w.put a s t).registered = closeFd w.registered s.socket := if_neg hopen
    rw [hsocket, hregistered, closeFd_eq]
    rfl

theorem handles_touch {w : EpollWorker} {a : Slot} {t : Session} (now : ℕ)
    (huse : w.inUse a = true) (hmemory : w.memory a = some t) :
    (w.touch a t now).handles = w.handles := by
  unfold touch
  split_ifs
  · have hholder := holder_kept w { w with
        memory := Function.update w.memory a (some { t with lastActivityTick := now })
        wheel := Function.update w.wheel a true } rfl huse rfl
    rw [← holder_eq huse hmemory, Function.update_eq_self] at hholder
    unfold handles
    rw [hholder]
  · rfl

/-- What a step does while the handles are in order. -/
inductive Steps (server : Server) (w : EpollWorker) : LoopEvent → EpollWorker → Prop
  | waited (batch : List Ready) (honce : batch.Nodup)
      (hready : ∀ r ∈ batch, w.canReport r = true) :
      Steps server w (.wait batch) { w with pending := batch }
  | accepted {w' : EpollWorker} {rest : List Ready} (accepts : List (ℕ × Slot))
      (hpending : w.pending = .listener :: rest)
      (haccepts : accepts.foldlM (acceptOne server) { w with pending := rest } = some w') :
      Steps server w (.listen accepts) w'
  | retried {w' : EpollWorker} {rest : List Ready} (accepts : List (ℕ × Slot))
      (hpending : w.pending = .listener :: rest)
      (haccepts : accepts.foldlM (acceptOne server) w = some w') :
      Steps server w (.retry accepts) w'
  | served {w' : EpollWorker} {rest : List Ready} {fd : ℕ} {a : Slot} {s : Session}
      (e : EpollEvent) (hangUp : Bool) (now : ℕ) (hpending : w.pending = .client fd :: rest)
      (hbits : (e.readable || e.writable || hangUp) = true)
      (htable : w.table[fd]? = some (some a)) (hmemory : w.memory a = some s)
      (huse : w.inUse a = true) (hsocket : s.socket = fd)
      (hhandle : { w with pending := rest }.handle server a s e hangUp now = some w') :
      Steps server w (.serve e hangUp now) w'
  | expired {a : Slot} {s : Session} (hpending : w.pending = []) (hlinked : w.wheel a = true)
      (hmemory : w.memory a = some s) : Steps server w (.expire a) (w.release a s)

theorem kept_init : Kept init where
  handles := by
    have hinit : init.handles = HandleTable.empty := by
      unfold handles HandleTable.empty
      congr 1
      funext n
      have hentry : init.table[n]? = if n < maxEvents then some none else none :=
        List.getElem?_replicate
      rw [hentry]
      split_ifs <;> rfl
    rw [hinit]
    exact HandleTable.sound_empty
  sockets _ _ h := absurd h Bool.false_ne_true
  linked _ h := absurd h Bool.false_ne_true
  ready _ h := absurd h List.not_mem_nil
  once := List.nodup_nil
  size := by
    have hlength : init.table.length = maxEvents := List.length_replicate
    rw [hlength]
    decide

namespace Kept

variable {server : Server} {w : EpollWorker}

theorem found (hw : Kept w) {fd : ℕ} (hfd : w.registered fd = true) :
    ∃ a s, w.table[fd]? = some (some a) ∧ w.memory a = some s ∧ w.inUse a = true ∧
      s.socket = fd ∧ w.latest fd = some s.self ∧ s.self ∉ w.released := by
  obtain ⟨a, id, hentry, hholder, hlatest⟩ := hw.handles.found fd hfd
  have huse : w.inUse a = true := by
    by_contra hfree
    simp [EpollWorker.handles, holder, hfree] at hholder
  obtain ⟨s, hs, hself, hsocket⟩ : ∃ s, w.memory a = some s ∧ s.self = id ∧
      s.socket.toNat? = some fd := by
    simpa [EpollWorker.handles, holder, huse] using hholder
  refine ⟨a, s, Option.join_eq_some_iff.mp hentry, hs, huse, Int.mem_toNat?.mp hsocket, ?_, ?_⟩
  · rw [hself]
    exact hlatest
  · rw [hself]
    exact (hw.handles.fresh a id (some fd) hholder).2

theorem pop (hw : Kept w) {r : Ready} {rest : List Ready} (hpending : w.pending = r :: rest) :
    Kept { w with pending := rest } ∧ r ∉ rest := by
  have honce := hw.once
  rw [hpending, List.nodup_cons] at honce
  refine ⟨{ hw with ready := fun fd hfd => hw.ready fd ?_, once := honce.2 }, honce.1⟩
  rw [hpending]
  exact List.mem_cons_of_mem _ hfd

theorem acceptOne (hw : Kept w) {w' : EpollWorker} {client : ℕ × Slot}
    (h : w.acceptOne server client = some w') : Kept w' := by
  obtain ⟨fd, a⟩ := client
  obtain ⟨hclosed, hfree, hgrow, heq⟩ := acceptOne_cases h
  have hfd : fd < 2 ^ 31 := by
    by_cases hlt : w.table.length ≤ fd
    · have := hgrow hlt
      omega
    · have := hw.size.2
      omega
  constructor
  · rw [handles_acceptOne hw.size.1 h]
    refine hw.handles.acquire hclosed ?_
    simp [EpollWorker.handles, holder, hfree]
  · subst heq
    intro b s huse hs
    rcases HandleTable.update_eq_some hs with ⟨-, hinit⟩ | ⟨hba, hold⟩
    · obtain rfl := Option.some.inj hinit
      exact Or.inr ⟨fd, rfl, hfd⟩
    · exact hw.sockets b s ((Function.update_of_ne hba ..).symm.trans huse) hold
  · subst heq
    intro b hb
    by_cases hba : b = a
    · rw [hba]
      exact Function.update_self ..
    · exact (Function.update_of_ne hba ..).trans (hw.linked b hb)
  · subst heq
    intro n hn
    by_cases hnfd : n = fd
    · rw [hnfd]
      exact Function.update_self ..
    · exact (Function.update_of_ne hnfd ..).trans (hw.ready n hn)
  · subst heq
    exact hw.once
  · subst heq
    simp only [List.length_set]
    obtain ⟨hpos, hle⟩ := hw.size
    refine ⟨lt_of_lt_of_le hpos (length_le_grow _ _), ?_⟩
    unfold grow
    split_ifs with hlt
    · have := hgrow hlt
      rw [List.length_append, List.length_replicate]
      omega
    · exact hle

theorem accepts (hw : Kept w) {w' : EpollWorker} {clients : List (ℕ × Slot)}
    (h : clients.foldlM (EpollWorker.acceptOne server) w = some w') : Kept w' := by
  induction clients generalizing w with
  | nil => exact Option.some.inj h ▸ hw
  | cons client clients ih =>
    rw [List.foldlM_cons] at h
    obtain ⟨u, hu, hrest⟩ := Option.bind_eq_some_iff.mp h
    exact ih (hw.acceptOne hu) hrest

/-- A session is released while no further event of its descriptor is left to handle. -/
theorem release (hw : Kept w) {a : Slot} {s : Session} (huse : w.inUse a = true)
    (hmemory : w.memory a = some s) (hdone : ∀ fd : ℕ, s.socket = fd → .client fd ∉ w.pending) :
    Kept (w.release a s) := by
  constructor
  · rw [handles_release hw huse hmemory]
    exact hw.handles.release (holder_eq huse hmemory)
  · intro b t hb ht
    by_cases hba : b = a
    · subst hba
      exact absurd ((Function.update_self ..).symm.trans hb) Bool.false_ne_true
    · exact hw.sockets b t ((Function.update_of_ne hba ..).symm.trans hb)
        ((Function.update_of_ne hba ..).symm.trans ht)
  · intro b hb
    by_cases hba : b = a
    · subst hba
      exact absurd ((Function.update_self ..).symm.trans hb) Bool.false_ne_true
    · exact (Function.update_of_ne hba ..).trans
        (hw.linked b ((Function.update_of_ne hba ..).symm.trans hb))
  · intro fd hfd
    have hne : ¬ (fd : ℤ) = s.socket := fun heq => hdone fd heq.symm hfd
    exact (if_neg hne).trans (hw.ready fd hfd)
  · exact hw.once
  · unfold EpollWorker.release
    dsimp only
    split_ifs
    · rw [List.length_set]
      exact hw.size
    · exact hw.size

theorem put (hw : Kept w) {a : Slot} {s t : Session} (huse : w.inUse a = true)
    (hmemory : w.memory a = some s) (hsame : SameClient s t)
    (hdone : ∀ fd : ℕ, s.socket = fd → .client fd ∉ w.pending) : Kept (w.put a s t) := by
  constructor
  · rw [handles_put hsame huse hmemory]
    split_ifs
    · exact hw.handles
    · exact hw.handles.shut (holder_eq huse hmemory)
  · intro b u hb hu
    rcases HandleTable.update_eq_some hu with ⟨-, heq⟩ | ⟨-, hold⟩
    · obtain rfl := Option.some.inj heq
      rcases hsame.socket_eq with hsocket | hclosed
      · rw [hsocket]
        exact hw.sockets a s huse hmemory
      · left
        simpa [Session.isOpen] using hclosed
    · exact hw.sockets b u hb hold
  · exact hw.linked
  · intro fd hfd
    have hne : ¬ (fd : ℤ) = s.socket := fun heq => hdone fd heq.symm hfd
    unfold EpollWorker.put
    dsimp only
    split_ifs
    · exact hw.ready fd hfd
    · exact (if_neg hne).trans (hw.ready fd hfd)
  · exact hw.once
  · exact hw.size

theorem touch (hw : Kept w) {a : Slot} {t : Session} (huse : w.inUse a = true)
    (hmemory : w.memory a = some t) (now : ℕ) : Kept (w.touch a t now) := by
  have hhandles := handles_touch now huse hmemory
  unfold EpollWorker.touch at hhandles ⊢
  split_ifs at hhandles ⊢
  · refine { hw with handles := hhandles ▸ hw.handles, sockets := ?_, linked := ?_ }
    · intro b u hb hu
      rcases HandleTable.update_eq_some hu with ⟨-, heq⟩ | ⟨-, hold⟩
      · obtain rfl := Option.some.inj heq
        exact hw.sockets a t huse hmemory
      · exact hw.sockets b u hb hold
    · intro b hb
      by_cases hba : b = a
      · exact hba ▸ huse
      · exact hw.linked b ((Function.update_of_ne hba ..).symm.trans hb)
  · exact hw

theorem handle (hw : Kept w) {w' : EpollWorker} {a : Slot} {s : Session} {e : EpollEvent}
    {hangUp : Bool} {now : ℕ} (huse : w.inUse a = true) (hmemory : w.memory a = some s)
    (hopen : s.isOpen = true) (hdone : ∀ fd : ℕ, s.socket = fd → .client fd ∉ w.pending)
    (h : w.handle server a s e hangUp now = some w') : Kept w' := by
  unfold EpollWorker.handle at h
  obtain ⟨⟨activity, t⟩, hserve, heq⟩ := Option.map_eq_some_iff.mp h
  have hsame := sameClient_serveSession hopen hserve
  have hput := hw.put huse hmemory hsame hdone
  have hmemory' : (w.put a s t).memory a = some t := Function.update_self ..
  dsimp only at heq
  subst heq
  split_ifs
  · refine hput.release huse hmemory' fun fd hfd => ?_
    rcases hsame.socket_eq with hsocket | hclosed
    · exact hdone fd (hsocket.symm.trans hfd)
    · have hclosed' : t.socket = socketErrorValue := by simpa [Session.isOpen] using hclosed
      rw [hclosed', socketErrorValue] at hfd
      omega
  · exact hput.touch huse hmemory' now
  · exact hput

theorem steps (hw : Kept w) {e : LoopEvent} {w' : EpollWorker}
    (h : EpollWorker.step server w e = some w') : Steps server w e w' := by
  cases e with
  | wait batch =>
    dsimp only [EpollWorker.step] at h
    split_ifs at h with hwait
    obtain ⟨-, honce, hready⟩ := hwait
    exact Option.some.inj h ▸ .waited batch honce hready
  | listen accepts =>
    dsimp only [EpollWorker.step] at h
    split at h
    · rename_i rest hpending
      exact .accepted accepts hpending h
    · simp at h
  | retry accepts =>
    dsimp only [EpollWorker.step] at h
    split at h
    · rename_i rest hpending
      exact .retried accepts hpending h
    · simp at h
  | serve e hangUp now =>
    dsimp only [EpollWorker.step] at h
    split at h
    · rename_i fd rest hpending
      split_ifs at h with hbits
      obtain ⟨a, s, htable, hmemory, huse, hsocket, -⟩ :=
        hw.found (hw.ready fd (hpending ▸ List.mem_cons_self ..))
      rw [htable] at h
      dsimp only at h
      rw [hmemory, Option.bind_some] at h
      exact .served e hangUp now hpending hbits htable hmemory huse hsocket h
    · simp at h
  | expire a =>
    dsimp only [EpollWorker.step] at h
    split_ifs at h with hexpire
    obtain ⟨s, hmemory, rfl⟩ := Option.map_eq_some_iff.mp h
    exact .expired hexpire.1 hexpire.2 hmemory

theorem step (hw : Kept w) (e : LoopEvent) {w' : EpollWorker}
    (h : EpollWorker.step server w e = some w') : Kept w' := by
  cases hw.steps h with
  | waited batch honce hready =>
    exact { hw with ready := fun fd hfd => hready _ hfd, once := honce }
  | accepted accepts hpending haccepts => exact (hw.pop hpending).1.accepts haccepts
  | retried accepts hpending haccepts => exact hw.accepts haccepts
  | @served _ rest fd a s e hangUp now hpending hbits htable hmemory huse hsocket hhandle =>
    obtain ⟨hpop, hnotin⟩ := hw.pop hpending
    refine hpop.handle huse hmemory (isOpen_of_socket hsocket) ?_ hhandle
    intro n hn
    have hnfd : n = fd := by
      rw [hsocket] at hn
      omega
    rw [hnfd]
    exact hnotin
  | expired hpending hlinked hmemory =>
    refine hw.release (hw.linked _ hlinked) hmemory fun fd _ => ?_
    rw [hpending]
    exact List.not_mem_nil

end Kept

theorem kept_of_reachable {server : Server} {w : EpollWorker}
    (h : Runs.Reachable (step server) init w) : Kept w :=
  Runs.invariant_of_reachable (fun _ e _ hw hstep => hw.step e hstep) kept_init h

end EpollWorker

/-- Every event of a batch that is still to be handled finds the open session that the
latest accept of its descriptor has created, and no session is released twice. -/
theorem dispatch_safe (server : Server) (w : EpollWorker)
    (h : Runs.Reachable (EpollWorker.step server) EpollWorker.init w) :
    (∀ fd : ℕ, .client fd ∈ w.pending → ∃ a s, w.table[fd]? = some (some a) ∧
      w.memory a = some s ∧ w.inUse a = true ∧ s.socket = fd ∧ w.latest fd = some s.self ∧
      s.self ∉ w.released) ∧
    w.released.Nodup := by
  have hw := EpollWorker.kept_of_reachable h
  exact ⟨fun fd hfd => hw.found (hw.ready fd hfd), hw.handles.releasedOnce⟩

/-- A client hangs up, the next one gets its descriptor in the same batch, and the timer
releases the first session afterwards. -/
def recycled : List LoopEvent :=
  [.wait [.listener], .listen [(7, 0)], .wait [.client 7, .listener],
    .serve ⟨true, false, [.eof], []⟩ false 1000, .listen [(7, 1)], .expire 0, .wait [.client 7]]

theorem dispatch_safe_recycled :
    ∃ w, Runs.run (EpollWorker.step (bareServer .epoll)) EpollWorker.init recycled = some w ∧
      w.pending = [.client 7] ∧ w.released = [0] ∧
      ∃ a s, w.table[7]? = some (some a) ∧ w.memory a = some s ∧ w.inUse a = true ∧
        s.socket = 7 ∧ w.latest 7 = some s.self ∧ s.self ∉ w.released := by
  have hrun : (Runs.run (EpollWorker.step (bareServer .epoll)) EpollWorker.init recycled).map
      (fun w => (w.pending, w.released)) = some ([.client 7], [0]) := by
    decide +kernel
  obtain ⟨w, hw, heq⟩ := Option.map_eq_some_iff.mp hrun
  simp only [Prod.mk.injEq] at heq
  refine ⟨w, hw, heq.1, heq.2, ?_⟩
  refine (dispatch_safe (bareServer .epoll) w ⟨recycled, hw⟩).1 7 ?_
  rw [heq.1]
  exact List.mem_cons_self ..

end WarpApi

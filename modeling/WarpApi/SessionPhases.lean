import WarpApi.UringRuns

/-!
The life of a session of the io_uring worker in one direction. Its number is not given
out again when it has been freed, and once it is closing it is not served any more: it
takes no input, answers nothing and starts no operation, until the last completion or
the timer frees it.
-/
namespace WarpApi

/-- A closing session keeps what it was left with. -/
structure Unserved (s t : Session) : Prop where
  status : t.status = .closing
  log_eq : t.log = s.log
  req_eq : t.req = s.req
  readBuffer_eq : t.readBuffer = s.readBuffer
  writeBuffer_eq : t.writeBuffer = s.writeBuffer
  flags_eq : t.ioFlags = s.ioFlags
  isOpen : t.isOpen = true → s.isOpen = true

theorem Unserved.refl {s : Session} (h : s.status = .closing) : Unserved s s :=
  ⟨h, rfl, rfl, rfl, rfl, rfl, id⟩

theorem Unserved.trans {s t u : Session} (h : Unserved s t) (h' : Unserved t u) :
    Unserved s u where
  status := h'.status
  log_eq := h'.log_eq.trans h.log_eq
  req_eq := h'.req_eq.trans h.req_eq
  readBuffer_eq := h'.readBuffer_eq.trans h.readBuffer_eq
  writeBuffer_eq := h'.writeBuffer_eq.trans h.writeBuffer_eq
  flags_eq := h'.flags_eq.trans h.flags_eq
  isOpen hu := h.isOpen (h'.isOpen hu)

/-- What a view can become once its number has been given out. -/
structure View.Later (v v' : View) : Prop where
  gone : v.session = none → v'.session = none
  kept : ∀ s t, v.session = some s → v'.session = some t → s.status = .closing → Unserved s t
  fewer : (∀ s, v.session = some s → s.status = .closing) →
    Multiset.card v'.ops ≤ Multiset.card v.ops

namespace View.Later

theorem refl (v : View) : v.Later v where
  gone h := h
  kept s t hs ht hclosing := by
    obtain rfl := Option.some.inj (hs.symm.trans ht)
    exact .refl hclosing
  fewer _ := le_refl _

theorem trans {v v' v'' : View} (h : v.Later v') (h' : v'.Later v'') : v.Later v'' where
  gone hv := h'.gone (h.gone hv)
  kept s t hs ht hclosing := by
    cases hu : v'.session with
    | none => exact absurd (ht.symm.trans (h'.gone hu)) (by simp)
    | some u =>
      have hsu := h.kept s u hs hu hclosing
      exact hsu.trans (h'.kept u t hu ht hsu.status)
  fewer hall := by
    refine le_trans (h'.fewer fun u hu => ?_) (h.fewer hall)
    cases hs : v.session with
    | none => exact absurd (hu.symm.trans (h.gone hs)) (by simp)
    | some s => exact (h.kept s u hs hu (hall s hs)).status

end View.Later

theorem Completes.card_next_le {e : Event} {sid : SessionId} {op : Op} {next : List Op}
    (h : Completes e sid op next) : Multiset.card (opsOf sid next) ≤ 1 := by
  have hle : Multiset.card (opsOf sid next) ≤ next.length := by
    rw [opsOf, Multiset.coe_card]
    exact List.length_filter_le _ _
  refine hle.trans ?_
  cases h with
  | recv => exact Nat.zero_le _
  | sent => exact le_refl _
  | failed sid more =>
    cases more with
    | true => exact le_refl _
    | false => exact Nat.zero_le _
  | notif => exact Nat.zero_le _

theorem LocalStep.later {server : Server} {sid : SessionId} {ring : Ring} {e : Event}
    {v v' : View} (h : LocalStep server sid ring e v v') (hold : e.session? = some sid) :
    v.Later v' := by
  cases h with
  | born => simp [Event.session?] at hold
  | released hcompletes =>
    refine ⟨fun hnone => absurd hnone (by simp), fun s t _ ht => absurd ht (by simp), fun _ => ?_⟩
    have hle := hcompletes.card_next_le
    simp only [Multiset.card_add, Multiset.card_cons]
    omega
  | ignored hcompletes =>
    refine ⟨fun hnone => absurd hnone (by simp), fun s t hs ht hclosing => ?_, fun _ => ?_⟩
    · obtain rfl := Option.some.inj (hs.symm.trans ht)
      exact .refl hclosing
    · have hle := hcompletes.card_next_le
      simp only [Multiset.card_add, Multiset.card_cons]
      omega
  | @handled _ _ _ _ s _ _ _ _ _ _ _ hactive =>
    have hnot : ¬ s.status = .closing := by
      rw [hactive]
      simp
    refine ⟨fun hnone => absurd hnone (by simp), fun r t hr _ hclosing => ?_, fun hall => ?_⟩
    · obtain rfl := Option.some.inj hr
      exact absurd hclosing hnot
    · exact absurd (hall s rfl) hnot
  | performed =>
    refine ⟨id, fun s t hs ht hclosing => ?_, fun _ => by simp⟩
    obtain rfl := Option.some.inj (hs.symm.trans ht)
    exact .refl hclosing
  | refused =>
    refine ⟨id, fun s t hs ht hclosing => ?_, fun _ => by simp⟩
    obtain rfl := Option.some.inj (hs.symm.trans ht)
    exact .refl hclosing
  | expiredFreed =>
    exact ⟨fun hnone => absurd hnone (by simp), fun s t _ ht => absurd ht (by simp),
      fun _ => le_refl _⟩
  | expiredKept =>
    refine ⟨fun hnone => absurd hnone (by simp), fun s t hs ht _ => ?_, fun _ => le_refl _⟩
    obtain rfl := Option.some.inj hs
    obtain rfl := Option.some.inj ht
    refine ⟨rfl, rfl, rfl, rfl, rfl, rfl, fun hopen => absurd hopen ?_⟩
    simp [Session.close, Session.isOpen]

namespace Worker

theorem later_step {server : Server} {w w' : Worker} {sid : SessionId} {e : Event} (hw : w.Sound)
    (hsid : sid < w.acquired) (h : w.step server e = some w') :
    (w.view sid).Later (w'.view sid) := by
  rcases known_step hw hsid h with hsame | ⟨hown, hlocal⟩
  · rw [hsame]
    exact .refl _
  · exact hlocal.later hown

theorem later_run {server : Server} {w w' : Worker} {sid : SessionId} {es : List Event}
    (hw : w.Sound) (hsid : sid < w.acquired) (hrun : Runs.run (step server) w es = some w') :
    (w.view sid).Later (w'.view sid) := by
  have hinv : w'.Sound ∧ sid < w'.acquired ∧ (w.view sid).Later (w'.view sid) := by
    refine Runs.invariant_of_reachable
      (I := fun u : Worker => u.Sound ∧ sid < u.acquired ∧ (w.view sid).Later (u.view sid))
      ?_ ⟨hw, hsid, .refl _⟩ ⟨es, hrun⟩
    rintro u e u' ⟨hu, hknown, hlater⟩ hstep
    exact ⟨sound_step hu hstep, Nat.lt_of_lt_of_le hknown (moves_step hu hstep).1,
      hlater.trans (later_step hu hknown hstep)⟩
  exact hinv.2.2

end Worker

/-- From any moment of a run to any later one: a number that has been given out and freed
stays free, and a session that is closing is left as it is, but for its socket, while its
outstanding operations become no more. -/
theorem closing_is_final (server : Server) (entries : ℕ) (es es' : List Event) (w w' : Worker)
    (hrun : Runs.run (Worker.step server) (Worker.init entries) es = some w)
    (hrun' : Runs.run (Worker.step server) w es' = some w') (sid : SessionId)
    (hknown : sid < w.acquired) :
    (w.pool sid = none → w'.pool sid = none) ∧
      ∀ s, w.pool sid = some s → s.status = .closing →
        Multiset.card (w'.ops sid) ≤ Multiset.card (w.ops sid) ∧
          ∀ t, w'.pool sid = some t → Unserved s t := by
  have hw : w.Sound := Runs.invariant_of_reachable (I := Worker.Sound)
    (fun _ _ _ hu hstep => Worker.sound_step hu hstep) (Worker.sound_init entries) ⟨es, hrun⟩
  have hlater := Worker.later_run hw hknown hrun'
  refine ⟨hlater.gone, fun s hs hclosing => ⟨hlater.fewer fun t ht => ?_, fun t ht =>
    hlater.kept s t hs ht hclosing⟩⟩
  obtain rfl := Option.some.inj (hs.symm.trans ht)
  exact hclosing

def endedEarly : List Event :=
  [.accept 5 true, .submit, .recv 0 16384 (.data plainRequest) 0, .submit, .recv 0 16384 .eof 0]

theorem closing_is_final_endedEarly :
    ∃ w w' s, Runs.run (Worker.step (bareServer .ioUring)) (Worker.init 8) endedEarly = some w ∧
      Runs.run (Worker.step (bareServer .ioUring)) w
        [.kernelSend 0 115, .sent 0 115 0, .notif 0 0] = some w' ∧
      w.pool 0 = some s ∧ s.status = .closing ∧
      Multiset.card (w'.ops 0) ≤ Multiset.card (w.ops 0) ∧
      ∀ t, w'.pool 0 = some t → Unserved s t := by
  have hchecks : ((Runs.run (Worker.step (bareServer .ioUring)) (Worker.init 8) endedEarly).bind
      fun w => (w.pool 0).map fun s => (s.status, w.acquired,
        (Runs.run (Worker.step (bareServer .ioUring)) w
          [.kernelSend 0 115, .sent 0 115 0, .notif 0 0]).isSome)) =
      some (.closing, 1, true) := by decide +kernel
  obtain ⟨w, hw, hrest⟩ := Option.bind_eq_some_iff.mp hchecks
  obtain ⟨s, hs, hrest⟩ := Option.map_eq_some_iff.mp hrest
  simp only [Prod.mk.injEq] at hrest
  obtain ⟨hclosing, hacquired, hsome⟩ := hrest
  obtain ⟨w', hw'⟩ := Option.isSome_iff_exists.mp hsome
  obtain ⟨-, hfinal⟩ := closing_is_final (bareServer .ioUring) 8 endedEarly
    [.kernelSend 0 115, .sent 0 115 0, .notif 0 0] w w' hw hw' 0 (hacquired ▸ Nat.zero_lt_one)
  obtain ⟨hcard, hunserved⟩ := hfinal s hs hclosing
  exact ⟨w, w', s, hw, hw', hs, hclosing, hcard, hunserved⟩

end WarpApi

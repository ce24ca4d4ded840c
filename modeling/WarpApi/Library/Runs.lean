import Mathlib.Data.List.Basic

/-!
Finite runs of a partial labelled step function. `step s e = none` means that
the label e cannot happen in s, or that the program has no defined behaviour
there. A guard is a condition on the state before a step and on its label;
invariants are carried along runs whose every step meets the guard.
-/
namespace WarpApi.Runs

variable {σ ε : Type*}

/-- The state after all labels, when every one of them can be taken. -/
def run (step : σ → ε → Option σ) : σ → List ε → Option σ
  | s, [] => some s
  | s, e :: es => (step s e).bind fun t => run step t es

def Reachable (step : σ → ε → Option σ) (start t : σ) : Prop :=
  ∃ es, run step start es = some t

/-- Every step of the run that is taken meets the guard in the state before it. -/
def Guarded (step : σ → ε → Option σ) (guard : σ → ε → Prop) : σ → List ε → Prop
  | _, [] => True
  | s, e :: es => guard s e ∧ ∀ t, step s e = some t → Guarded step guard t es

variable {step : σ → ε → Option σ} {guard : σ → ε → Prop}

/-- A guard that can be decided can be decided along a run. -/
instance decidableGuarded [∀ s e, Decidable (guard s e)] :
    ∀ s es, Decidable (Guarded step guard s es)
  | _, [] => .isTrue trivial
  | s, e :: es =>
    have := fun t => decidableGuarded t es
    inferInstanceAs (Decidable (guard s e ∧ ∀ t, t ∈ step s e → Guarded step guard t es))

theorem run_cons_eq_some (s t : σ) (e : ε) (es : List ε) :
    run step s (e :: es) = some t ↔ ∃ u, step s e = some u ∧ run step u es = some t := by
  simp only [run, Option.bind_eq_some_iff]

theorem run_append (s : σ) (es es' : List ε) :
    run step s (es ++ es') = (run step s es).bind fun t => run step t es' := by
  induction es generalizing s with
  | nil => rfl
  | cons e es ih => simp only [List.cons_append, run, Option.bind_assoc, ih]

/-- What every guarded step preserves holds at the end of every guarded run. -/
theorem invariant_of_guarded {I : σ → Prop}
    (hstep : ∀ s e t, I s → guard s e → step s e = some t → I t)
    {s t : σ} {es : List ε} (hs : I s) (hg : Guarded step guard s es)
    (hrun : run step s es = some t) : I t := by
  induction es generalizing s with
  | nil =>
    have hst : s = t := Option.some.inj hrun
    exact hst ▸ hs
  | cons e es ih =>
    obtain ⟨u, hu, hrest⟩ := (run_cons_eq_some s t e es).mp hrun
    exact ih (hstep s e u hs hg.1 hu) (hg.2 u hu) hrest

theorem Guarded.mono {guard' : σ → ε → Prop} {s : σ} {es : List ε}
    (hg : Guarded step guard s es) (h : ∀ s e, guard s e → guard' s e) :
    Guarded step guard' s es := by
  induction es generalizing s with
  | nil => trivial
  | cons e es ih => exact ⟨h s e hg.1, fun t ht => ih (hg.2 t ht)⟩

theorem guarded_congr {guard' : σ → ε → Prop} (h : ∀ s e, guard s e ↔ guard' s e) (s : σ)
    (es : List ε) : Guarded step guard s es ↔ Guarded step guard' s es :=
  ⟨fun hg => hg.mono fun s e => (h s e).mp, fun hg => hg.mono fun s e => (h s e).mpr⟩

theorem guarded_iff_forall_mem {g : ε → Prop} {s t : σ} {es : List ε}
    (hrun : run step s es = some t) :
    Guarded step (fun _ e => g e) s es ↔ ∀ e ∈ es, g e := by
  induction es generalizing s with
  | nil => exact ⟨fun _ e he => absurd he List.not_mem_nil, fun _ => trivial⟩
  | cons e es ih =>
    obtain ⟨u, hu, hrest⟩ := (run_cons_eq_some s t e es).mp hrun
    rw [List.forall_mem_cons]
    constructor
    · rintro ⟨he, hg⟩
      exact ⟨he, (ih hrest).mp (hg u hu)⟩
    · rintro ⟨he, hall⟩
      refine ⟨he, fun v hv => ?_⟩
      obtain rfl := Option.some.inj (hu.symm.trans hv)
      exact (ih hrest).mpr hall

theorem guarded_of_forall {es : List ε} (h : ∀ e ∈ es, ∀ s, guard s e) (s : σ) :
    Guarded step guard s es := by
  induction es generalizing s with
  | nil => trivial
  | cons e es ih =>
    refine ⟨h e List.mem_cons_self s, fun t _ => ?_⟩
    exact ih (fun e' he' => h e' (List.mem_cons_of_mem _ he')) t

theorem Guarded.and {guard' : σ → ε → Prop} {s : σ} {es : List ε}
    (h : Guarded step guard s es) (h' : Guarded step guard' s es) :
    Guarded step (fun s e => guard s e ∧ guard' s e) s es := by
  induction es generalizing s with
  | nil => trivial
  | cons e es ih => exact ⟨⟨h.1, h'.1⟩, fun t ht => ih (h.2 t ht) (h'.2 t ht)⟩

/-- What the steps that are taken say about their labels may be added to the guard. -/
theorem Guarded.and_of_run {P : ε → Prop} (hP : ∀ s e t, step s e = some t → P e) {s t : σ}
    {es : List ε} (hg : Guarded step guard s es) (hrun : run step s es = some t) :
    Guarded step (fun s e => guard s e ∧ P e) s es := by
  induction es generalizing s with
  | nil => trivial
  | cons e es ih =>
    obtain ⟨u, hu, hrest⟩ := (run_cons_eq_some s t e es).mp hrun
    refine ⟨⟨hg.1, hP s e u hu⟩, fun v hv => ?_⟩
    obtain rfl := Option.some.inj (hu.symm.trans hv)
    exact ih (hg.2 u hu) hrest

/-- What every step preserves holds in every reachable state. -/
theorem invariant_of_reachable {I : σ → Prop}
    (hstep : ∀ s e t, I s → step s e = some t → I t)
    {s t : σ} (hs : I s) (h : Reachable step s t) : I t := by
  obtain ⟨es, hrun⟩ := h
  have hg : Guarded step (fun _ _ => True) s es := by
    clear hrun
    induction es generalizing s with
    | nil => trivial
    | cons e es ih => exact ⟨trivial, fun u hu => ih (hstep s e u hs hu)⟩
  exact invariant_of_guarded (fun s e t hI _ => hstep s e t hI) hs hg hrun

/-- A richer system that can follow every step, from the states that its steps lead to,
can follow every run. -/
theorem exists_run_above {τ κ : Type*} {above : τ → κ → Option τ} {state : τ → σ} {label : κ → ε}
    {I : τ → Prop}
    (hstep : ∀ x e t, I x → step (state x) e = some t →
      ∃ l y, label l = e ∧ above x l = some y ∧ state y = t ∧ I y)
    {x : τ} {t : σ} {es : List ε} (hx : I x) (hrun : run step (state x) es = some t) :
    ∃ ls y, ls.map label = es ∧ run above x ls = some y ∧ state y = t := by
  induction es generalizing x with
  | nil => exact ⟨[], x, rfl, rfl, Option.some.inj hrun⟩
  | cons e es ih =>
    obtain ⟨u, hu, hrest⟩ := (run_cons_eq_some _ t e es).mp hrun
    obtain ⟨l, y, rfl, hy, rfl, hIy⟩ := hstep x e u hx hu
    obtain ⟨ls, z, rfl, hz, hzt⟩ := ih hIy hrest
    exact ⟨l :: ls, z, rfl, (run_cons_eq_some x z l ls).mpr ⟨y, hy, hz⟩, hzt⟩

/-- When the guard says of every step exactly that P survives it, the guarded runs are
those in which P always holds. -/
theorem always_iff_guarded {I P : σ → Prop} (hI : ∀ s e t, I s → step s e = some t → I t)
    (hP : ∀ s e t, I s → P s → step s e = some t → (P t ↔ guard s e)) {s t : σ} {es : List ε}
    (hs : I s) (hsP : P s) (hrun : run step s es = some t) :
    (∀ pre u, pre <+: es → run step s pre = some u → P u) ↔ Guarded step guard s es := by
  induction es generalizing s with
  | nil =>
    refine ⟨fun _ => trivial, fun _ pre u hpre hu => ?_⟩
    rw [List.prefix_nil.mp hpre] at hu
    exact Option.some.inj hu ▸ hsP
  | cons e es ih =>
    obtain ⟨v, hv, hrest⟩ := (run_cons_eq_some s t e es).mp hrun
    constructor
    · intro halways
      have hvP : P v := halways [e] v (List.cons_prefix_cons.mpr ⟨rfl, List.nil_prefix⟩) (by
        rw [run, hv]
        rfl)
      refine ⟨(hP s e v hs hsP hv).mp hvP, fun v' hv' => ?_⟩
      obtain rfl := Option.some.inj (hv.symm.trans hv')
      refine (ih (hI s e v hs hv) hvP hrest).mp fun pre u hpre hu => ?_
      refine halways (e :: pre) u (List.cons_prefix_cons.mpr ⟨rfl, hpre⟩) ?_
      rw [run, hv]
      exact hu
    · rintro ⟨hguard, hg⟩ pre u hpre hu
      have hvP : P v := (hP s e v hs hsP hv).mpr hguard
      cases pre with
      | nil => exact Option.some.inj hu ▸ hsP
      | cons e' pre =>
        obtain ⟨rfl, hpre'⟩ := List.cons_prefix_cons.mp hpre
        obtain ⟨v', hv', hu'⟩ := (run_cons_eq_some s u e' pre).mp hu
        obtain rfl := Option.some.inj (hv.symm.trans hv')
        exact (ih (hI s e' v hs hv) hvP hrest).mpr (hg v hv) pre u hpre' hu'

section follow

variable {τ κ : Type*} {above : τ → κ → Option τ} {labels : σ → ε → List κ}
  {R : σ → τ → Prop}

/-- The labels of another system for a run, when each label here stands for some there. -/
def translate (step : σ → ε → Option σ) (labels : σ → ε → List κ) : σ → List ε → List κ
  | _, [] => []
  | s, e :: es => labels s e ++ ((step s e).map fun t => translate step labels t es).getD []

/-- When another system follows every step with a run, it follows every run. -/
theorem exists_run_translate
    (hstep : ∀ s x e t, R s x → step s e = some t →
      ∃ y, run above x (labels s e) = some y ∧ R t y)
    {s t : σ} {x : τ} {es : List ε} (hR : R s x) (hrun : run step s es = some t) :
    ∃ y, run above x (translate step labels s es) = some y ∧ R t y := by
  induction es generalizing s x with
  | nil => exact ⟨x, rfl, Option.some.inj hrun ▸ hR⟩
  | cons e es ih =>
    obtain ⟨u, hu, hrest⟩ := (run_cons_eq_some s t e es).mp hrun
    obtain ⟨y, hy, hRy⟩ := hstep s x e u hR hu
    obtain ⟨z, hz, hRz⟩ := ih hRy hrest
    refine ⟨z, ?_, hRz⟩
    rw [translate, hu, run_append, hy]
    exact hz

end follow

end WarpApi.Runs

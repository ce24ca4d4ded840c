import WarpApi.Library.Runs
import Mathlib.Logic.Function.Basic

/-!
Components side by side. A label names the component that takes it, and no component
sees the state of another one. A run of all of them is then the same as a run of each
on the labels that name it, in whatever order the labels of different components come.
-/
namespace WarpApi.SideBySide

variable {ι σ κ : Type*} [DecidableEq ι] {own : ι → σ → κ → Option σ}

def step (own : ι → σ → κ → Option σ) (x : ι → σ) (l : ι × κ) : Option (ι → σ) :=
  (own l.1 (x l.1) l.2).map (Function.update x l.1)

/-- The labels that name this component. -/
def labelsOf (i : ι) : List (ι × κ) → List κ
  | [] => []
  | l :: ls => if l.1 = i then l.2 :: labelsOf i ls else labelsOf i ls

theorem step_eq_some (x y : ι → σ) (i : ι) (k : κ) :
    step own x (i, k) = some y ↔ ∃ t, own i (x i) k = some t ∧ Function.update x i t = y := by
  simp only [step, Option.map_eq_some_iff]

theorem labelsOf_cons_self (i : ι) (k : κ) (ls : List (ι × κ)) :
    labelsOf i ((i, k) :: ls) = k :: labelsOf i ls := if_pos rfl

theorem labelsOf_cons_of_ne {i j : ι} (h : j ≠ i) (k : κ) (ls : List (ι × κ)) :
    labelsOf j ((i, k) :: ls) = labelsOf j ls := if_neg h.symm

theorem mem_labelsOf {i : ι} {k : κ} {ls : List (ι × κ)} : k ∈ labelsOf i ls ↔ (i, k) ∈ ls := by
  induction ls with
  | nil => exact ⟨fun h => absurd h List.not_mem_nil, fun h => absurd h List.not_mem_nil⟩
  | cons l ls ih =>
    obtain ⟨j, k'⟩ := l
    by_cases hij : i = j
    · subst hij
      rw [labelsOf_cons_self, List.mem_cons, List.mem_cons, ih, Prod.mk.injEq,
        and_iff_right rfl]
    · rw [labelsOf_cons_of_ne hij, List.mem_cons, ih, Prod.mk.injEq]
      exact ⟨Or.inr, fun h => h.resolve_left fun heq => hij heq.1⟩

/-- A run of all components is a run of every one. -/
theorem run_iff (x y : ι → σ) (ls : List (ι × κ)) :
    Runs.run (step own) x ls = some y ↔
      ∀ i, Runs.run (own i) (x i) (labelsOf i ls) = some (y i) := by
  induction ls generalizing x with
  | nil =>
    constructor
    · intro h i
      exact congrArg some (congrFun (Option.some.inj h) i)
    · intro h
      exact congrArg some (funext fun i => Option.some.inj (h i))
  | cons l ls ih =>
    obtain ⟨i, k⟩ := l
    rw [Runs.run_cons_eq_some]
    constructor
    · rintro ⟨u, hu, hrest⟩ j
      obtain ⟨t, ht, rfl⟩ := (step_eq_some x u i k).mp hu
      have hj := (ih _).mp hrest j
      by_cases hji : j = i
      · subst hji
        rw [Function.update_self] at hj
        rw [labelsOf_cons_self, Runs.run_cons_eq_some]
        exact ⟨t, ht, hj⟩
      · rw [Function.update_of_ne hji] at hj
        rw [labelsOf_cons_of_ne hji]
        exact hj
    · intro h
      have hi := h i
      rw [labelsOf_cons_self, Runs.run_cons_eq_some] at hi
      obtain ⟨t, ht, hrest⟩ := hi
      refine ⟨Function.update x i t, (step_eq_some x _ i k).mpr ⟨t, ht, rfl⟩, (ih _).mpr ?_⟩
      intro j
      by_cases hji : j = i
      · subst hji
        rw [Function.update_self]
        exact hrest
      · rw [Function.update_of_ne hji]
        have hj := h j
        rw [labelsOf_cons_of_ne hji] at hj
        exact hj

end WarpApi.SideBySide

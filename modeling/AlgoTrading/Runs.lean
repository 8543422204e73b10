import Mathlib.Tactic.Common
/-!
# Runs — labelled transition systems and what their runs keep

A step relation `step : σ → ι → σ → Prop` relates a state, a label (who moved and how) and a state after it.  `Run` is
a finite run with its labels in order, so a prefix of a run is a run and "every state reached" is "the end of every
run".  `run_invariant` is the induction every safety result goes through; `run_guarded` is the same induction when each
step is only known to keep the invariant under a condition on the state before it.
-/
namespace Atp
namespace Runs

variable {σ ι : Type}

/-- A finite run of `step`, with the labels of its steps. -/
inductive Run (step : σ → ι → σ → Prop) : σ → List ι → σ → Prop
  | nil (s : σ) : Run step s [] s
  | cons {s t u : σ} {i : ι} {l : List ι} : step s i t → Run step t l u → Run step s (i :: l) u

/-- The steps that meet a condition on the state before them. -/
def guarded (step : σ → ι → σ → Prop) (G : σ → ι → Prop) : σ → ι → σ → Prop :=
  fun s i t => step s i t ∧ G s i

variable {step : σ → ι → σ → Prop} {s t u : σ}

theorem run_nil_iff : Run step s [] t ↔ s = t := by
  constructor
  · intro h; cases h; rfl
  · rintro rfl; exact .nil s

theorem run_cons_iff {i : ι} {l : List ι} : Run step s (i :: l) u ↔ ∃ t, step s i t ∧ Run step t l u := by
  constructor
  · intro h
    cases h with
    | cons hs hr => exact ⟨_, hs, hr⟩
  · rintro ⟨t, hs, hr⟩
    exact .cons hs hr

/-- **A run splits wherever its labels do.** -/
theorem run_append_iff {l m : List ι} : Run step s (l ++ m) u ↔ ∃ t, Run step s l t ∧ Run step t m u := by
  induction l generalizing s with
  | nil => simp [run_nil_iff]
  | cons i l ih =>
    simp only [List.cons_append, run_cons_iff, ih]
    constructor
    · rintro ⟨v, hs, t, hr, hm⟩
      exact ⟨t, ⟨v, hs, hr⟩, hm⟩
    · rintro ⟨t, ⟨v, hs, hr⟩, hm⟩
      exact ⟨v, hs, t, hr, hm⟩

/-- The runs of a step function are its folds. -/
theorem run_fold_iff {f : σ → ι → Option σ} {l : List ι} : Run (fun s i t => f s i = some t) s l t ↔ l.foldlM f s = some t := by
  induction l generalizing s with
  | nil => simp [run_nil_iff]
  | cons i l ih => simp only [run_cons_iff, ih, List.foldlM_cons, Option.bind_eq_bind, Option.bind_eq_some_iff]

theorem run_mono {step' : σ → ι → σ → Prop} (hstep : ∀ s i t, step s i t → step' s i t) {l : List ι}
    (h : Run step s l t) : Run step' s l t := by
  induction h with
  | nil s => exact .nil s
  | cons hs _ ih => exact .cons (hstep _ _ _ hs) ih

/-- **What every step keeps, every run keeps.** -/
theorem run_invariant (I : σ → Prop) (hstep : ∀ s i t, I s → step s i t → I t) {l : List ι} (h0 : I s)
    (h : Run step s l t) : I t := by
  induction h with
  | nil s => exact h0
  | cons hs _ ih => exact ih (hstep _ _ _ h0 hs)

/-- What every step keeps under the guard, every guarded run keeps. -/
theorem run_guarded (G : σ → ι → Prop) (I : σ → Prop) (hstep : ∀ s i t, I s → G s i → step s i t → I t) {l : List ι}
    (h0 : I s) (h : Run (guarded step G) s l t) : I t :=
  run_invariant I (fun s i t hI hs => hstep s i t hI hs.2 hs.1) h0 h

/-- **A property each step keeps exactly when its guard holds**, kept by a run exactly when every step meets the guard. -/
theorem run_guarded_iff {I P : σ → Prop} {G : σ → ι → Prop} (hI : ∀ s i t, I s → step s i t → I t)
    (hstep : ∀ s i t, I s → step s i t → (P t ↔ P s ∧ G s i)) {l : List ι} (h0 : I s) (h : Run step s l t) :
    P t ↔ P s ∧ Run (guarded step G) s l t := by
  constructor
  · intro hP
    induction h with
    | nil s => exact ⟨hP, .nil s⟩
    | cons hs _ ih =>
      obtain ⟨ht, hrest⟩ := ih (hI _ _ _ h0 hs) hP
      obtain ⟨hP, hG⟩ := (hstep _ _ _ h0 hs).1 ht
      exact ⟨hP, .cons ⟨hs, hG⟩ hrest⟩
  · rintro ⟨hP, hrun⟩
    exact (run_guarded G (fun s => I s ∧ P s)
      (fun s i t h hG hs => ⟨hI s i t h.1 hs, (hstep s i t h.1 hs).2 ⟨h.2, hG⟩⟩) ⟨h0, hP⟩ hrun).2

end Runs
end Atp

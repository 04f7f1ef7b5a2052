import Mathlib.Data.List.Induction

/-!
# Systems with outputs

A step takes an input and gives an output, and a run gives the log of the inputs with their outputs. A partial system
follows a total one, which describes it, where each step gives the same output and leads to related states again; then
so does each run.
-/

namespace Trace

variable {σ τ α ρ : Type*}

/-- The state after the inputs, and the log; no result where a step has none. -/
def run (step : σ → α → Option (σ × ρ)) : σ → List α → Option (σ × List (α × ρ))
  | s, [] => some (s, [])
  | s, a :: as =>
      match step s a with
      | none => none
      | some (s', r) => (run step s' as).map fun t => (t.1, (a, r) :: t.2)

/-- The same for a total system. -/
def go (step : τ → α → τ × ρ) : τ → List α → τ × List (α × ρ)
  | t, [] => (t, [])
  | t, a :: as => ((go step (step t a).1 as).1, (a, (step t a).2) :: (go step (step t a).1 as).2)

/-- Related states give the same outputs, and related states. -/
def Follows (step : σ → α → Option (σ × ρ)) (step' : τ → α → τ × ρ) (R : σ → τ → Prop) : Prop :=
  ∀ s t a, R s t → ∃ s', step s a = some (s', (step' t a).2) ∧ R s' (step' t a).1

variable {step : σ → α → Option (σ × ρ)} {step' : τ → α → τ × ρ} {R : σ → τ → Prop}

theorem Follows.run (h : Follows step step' R) {s : σ} {t : τ} (hst : R s t) (as : List α) :
    ∃ s', Trace.run step s as = some (s', (go step' t as).2) ∧ R s' (go step' t as).1 := by
  induction as generalizing s t with
  | nil => exact ⟨s, rfl, hst⟩
  | cons a as ih =>
      obtain ⟨s₁, hstep, hR⟩ := h s t a hst
      obtain ⟨s', hrun, hR'⟩ := ih hR
      exact ⟨s', by rw [Trace.run, hstep]; simp only [hrun]; rfl, hR'⟩

theorem go_concat (t : τ) (as : List α) (a : α) :
    go step' t (as ++ [a]) =
      ((step' (go step' t as).1 a).1, (go step' t as).2 ++ [(a, (step' (go step' t as).1 a).2)]) := by
  induction as generalizing t with
  | nil => rfl
  | cons b as ih => simp [go, ih]

/-- What holds at the begin and is kept by a step, together with the log, holds at the end. -/
theorem go_invariant {I : List (α × ρ) → τ → Prop} {t : τ} (hnil : I [] t)
    (hstep : ∀ log u a, I log u → I (log ++ [(a, (step' u a).2)]) (step' u a).1) (as : List α) :
    I (go step' t as).2 (go step' t as).1 := by
  induction as using List.reverseRecOn with
  | nil => exact hnil
  | append_singleton as a ih =>
      rw [go_concat]
      exact hstep _ _ a ih

theorem inputs_go (step' : τ → α → τ × ρ) (t : τ) (as : List α) : (go step' t as).2.map Prod.fst = as := by
  induction as generalizing t with
  | nil => rfl
  | cons a as ih => rw [go, List.map_cons, ih]

theorem filterMap_concat {γ : Type*} (f : α → Option γ) (l : List α) (a : α) :
    (l ++ [a]).filterMap f = l.filterMap f ++ (f a).toList := by
  rw [List.filterMap_append, List.filterMap_cons]
  cases f a with
  | none => rfl
  | some b => rfl

end Trace

import Mathlib.Data.List.Induction
import Mathlib.Data.List.Infix

/-!
# Executable transition systems

A system is a partial step function `σ → α → Option σ`: `none` where the action is not enabled. All
nondeterminism (schedules, answers of the environment) is in the list of actions, so that a run is a
computation. `Always` and `Each` state a property of every state, or of every step, of one run.
-/

namespace Transition

variable {σ α : Type*} {step : σ → α → Option σ}

/-- The state after a list of actions, if each of them is enabled in its turn. -/
def run (step : σ → α → Option σ) : σ → List α → Option σ
  | s, [] => some s
  | s, a :: as => (step s a).bind (fun s' => run step s' as)

/-- `P` holds in every state the run goes through, the first one included. -/
def Always (step : σ → α → Option σ) (P : σ → Prop) : σ → List α → Prop
  | s, [] => P s
  | s, a :: as => P s ∧ ∀ s', step s a = some s' → Always step P s' as

/-- `C` holds of every step the run takes: of the state before it and of its action. -/
def Each (step : σ → α → Option σ) (C : σ → α → Prop) : σ → List α → Prop
  | _, [] => True
  | s, a :: as => ∀ s', step s a = some s' → C s a ∧ Each step C s' as

@[simp] theorem run_nil (s : σ) : run step s [] = some s := rfl

theorem run_cons_eq_some {s s' : σ} {a : α} {as : List α} :
    run step s (a :: as) = some s' ↔ ∃ t, step s a = some t ∧ run step t as = some s' := by
  simp [run, Option.bind_eq_some_iff]

theorem run_append {s s' : σ} {as bs : List α} :
    run step s (as ++ bs) = some s' ↔ ∃ t, run step s as = some t ∧ run step t bs = some s' := by
  induction as generalizing s with
  | nil => simp
  | cons a as ih =>
      simp only [List.cons_append, run_cons_eq_some, ih]
      constructor
      · rintro ⟨t, ha, u, has, hbs⟩; exact ⟨u, ⟨t, ha, has⟩, hbs⟩
      · rintro ⟨u, ⟨t, ha, has⟩, hbs⟩; exact ⟨t, ha, u, has, hbs⟩

/-! ## Deciding a property of one run -/

instance Always.decidable {P : σ → Prop} [DecidablePred P] : ∀ s as, Decidable (Always step P s as)
  | s, [] => inferInstanceAs (Decidable (P s))
  | s, a :: as =>
      match h : step s a with
      | none => decidable_of_iff (P s) (by simp [Always, h])
      | some t =>
          have := Always.decidable (P := P) t as
          decidable_of_iff (P s ∧ Always step P t as) (by simp [Always, h])

instance Each.decidable {C : σ → α → Prop} [∀ s a, Decidable (C s a)] : ∀ s as, Decidable (Each step C s as)
  | _, [] => inferInstanceAs (Decidable True)
  | s, a :: as =>
      match h : step s a with
      | none => isTrue (by simp [Each, h])
      | some t =>
          have := Each.decidable (C := C) t as
          decidable_of_iff (C s a ∧ Each step C t as) (by simp [Each, h])

/-! ## The invariant rule -/

theorem run_invariant {A : α → Prop} {I : σ → Prop}
    (hstep : ∀ s a s', A a → I s → step s a = some s' → I s')
    {as : List α} (hA : ∀ a ∈ as, A a) {s s' : σ} (hs : I s) (h : run step s as = some s') : I s' := by
  induction as generalizing s with
  | nil => simp only [run_nil, Option.some.injEq] at h; exact h ▸ hs
  | cons a as ih =>
      obtain ⟨t, ha, has⟩ := run_cons_eq_some.mp h
      exact ih (fun b hb => hA b (by simp [hb])) (hstep s a t (hA a (by simp)) hs ha) has

theorem run_keeps {I : σ → Prop} (hstep : ∀ s a s', I s → step s a = some s' → I s') {as : List α} {s s' : σ}
    (hs : I s) (h : run step s as = some s') : I s' :=
  run_invariant (A := fun _ => True) (fun s a s' _ => hstep s a s') (fun _ _ => trivial) hs h

/-- Where no allowed action is refused, a list of them is a run. -/
theorem exists_run {A : α → Prop} {I : σ → Prop} (hI : ∀ s a s', A a → I s → step s a = some s' → I s')
    (hstep : ∀ s a, A a → I s → ∃ s', step s a = some s') {as : List α} (hA : ∀ a ∈ as, A a) {s : σ} (hs : I s) :
    ∃ s', run step s as = some s' := by
  induction as generalizing s with
  | nil => exact ⟨s, rfl⟩
  | cons a as ih =>
      have hAa : A a := hA a (by simp)
      obtain ⟨t, ht⟩ := hstep s a hAa hs
      obtain ⟨s', hs'⟩ := ih (fun b hb => hA b (by simp [hb])) (hI s a t hAa hs ht)
      exact ⟨s', run_cons_eq_some.mpr ⟨t, ht, hs'⟩⟩

theorem run_history {I : List α → σ → Prop} {s : σ} (hnil : I [] s)
    (hstep : ∀ as t a t', run step s as = some t → I as t → step t a = some t' → I (as ++ [a]) t')
    {as : List α} {t : σ} (h : run step s as = some t) : I as t := by
  induction as using List.reverseRecOn generalizing t with
  | nil => exact Option.some.inj h ▸ hnil
  | append_singleton as a ih =>
      obtain ⟨u, hu, ha⟩ := run_append.mp h
      obtain ⟨t', ht', hnil'⟩ := run_cons_eq_some.mp ha
      exact Option.some.inj hnil' ▸ hstep as u a t' hu (ih hu) ht'

/-- Where each step is that of another system, seen through `m`, so is each run. -/
theorem run_map {τ : Type*} {step' : τ → α → Option τ} {m : σ → τ} {I : σ → Prop}
    (hstep : ∀ s a, I s → step' (m s) a = (step s a).map m) (hI : ∀ s a s', I s → step s a = some s' → I s')
    {s : σ} (hs : I s) (as : List α) : run step' (m s) as = (run step s as).map m := by
  induction as generalizing s with
  | nil => rfl
  | cons a as ih =>
      rw [run, run, hstep s a hs]
      cases ht : step s a with
      | none => rfl
      | some t => exact ih (hI s a t hs ht)

/-! ## Runs that come to an end -/

/-- Where each allowed action makes a measure smaller, a run of them is no longer than the measure. -/
theorem length_add_le {A : α → Prop} {I : σ → Prop} (μ : σ → ℕ)
    (hstep : ∀ s a s', A a → I s → step s a = some s' → I s' ∧ μ s' < μ s) {as : List α} (hA : ∀ a ∈ as, A a)
    {s s' : σ} (hs : I s) (h : run step s as = some s') : as.length + μ s' ≤ μ s := by
  induction as generalizing s with
  | nil =>
      rw [run_nil, Option.some.injEq] at h
      rw [h, List.length_nil, Nat.zero_add]
  | cons a as ih =>
      obtain ⟨t, ht, has⟩ := run_cons_eq_some.mp h
      obtain ⟨hI, hlt⟩ := hstep s a t (hA a (by simp)) hs ht
      have hle := ih (fun b hb => hA b (by simp [hb])) hI has
      rw [List.length_cons]
      omega

/-- If moreover some allowed action is enabled until `P` holds, then some run leads to `P`. -/
theorem exists_run_to {A : α → Prop} {I P : σ → Prop} (μ : σ → ℕ)
    (hstep : ∀ s a s', A a → I s → step s a = some s' → I s' ∧ μ s' < μ s)
    (hgo : ∀ s, I s → ¬P s → ∃ a s', A a ∧ step s a = some s') {s : σ} (hs : I s) :
    ∃ as s', (∀ a ∈ as, A a) ∧ run step s as = some s' ∧ P s' := by
  induction hm : μ s using Nat.strong_induction_on generalizing s with
  | _ m ih =>
      by_cases hP : P s
      · exact ⟨[], s, nofun, rfl, hP⟩
      · obtain ⟨a, t, hAa, ht⟩ := hgo s hs hP
        obtain ⟨hI, hlt⟩ := hstep s a t hAa hs ht
        obtain ⟨as, s', hA, hrun, hP'⟩ := ih (μ t) (hm ▸ hlt) hI rfl
        refine ⟨a :: as, s', fun b hb => ?_, run_cons_eq_some.mpr ⟨t, ht, hrun⟩, hP'⟩
        rcases List.mem_cons.mp hb with rfl | hb
        · exact hAa
        · exact hA b hb

/-! ## Properties of whole runs -/

theorem always_iff {P : σ → Prop} {as : List α} {s : σ} :
    Always step P s as ↔ ∀ xs s', xs <+: as → run step s xs = some s' → P s' := by
  induction as generalizing s with
  | nil =>
      constructor
      · intro h xs s' hx hr
        rw [List.prefix_nil.mp hx, run_nil, Option.some.injEq] at hr
        exact hr ▸ h
      · intro h; exact h [] s (List.prefix_refl _) rfl
  | cons a as ih =>
      constructor
      · rintro ⟨hs, h⟩ xs s' hx hr
        cases xs with
        | nil => rw [run_nil, Option.some.injEq] at hr; exact hr ▸ hs
        | cons b xs =>
            obtain ⟨rfl, hxs⟩ := List.cons_prefix_cons.mp hx
            obtain ⟨t, ht, hr⟩ := run_cons_eq_some.mp hr
            exact ih.mp (h t ht) xs s' hxs hr
      · intro h
        refine ⟨h [] s (by simp) rfl, fun t ht => ih.mpr (fun xs s' hx hr => ?_)⟩
        exact h (a :: xs) s' (List.cons_prefix_cons.mpr ⟨rfl, hx⟩) (run_cons_eq_some.mpr ⟨t, ht, hr⟩)

theorem each_iff {C : σ → α → Prop} {as : List α} {s : σ} :
    Each step C s as ↔ ∀ xs a t t', xs ++ [a] <+: as → run step s xs = some t →
      step t a = some t' → C t a := by
  induction as generalizing s with
  | nil =>
      constructor
      · intro _ xs a t t' hx; simp at hx
      · intro _; trivial
  | cons b as ih =>
      constructor
      · intro h xs a t t' hx hr ht
        cases xs with
        | nil =>
            obtain ⟨rfl, _⟩ := List.cons_prefix_cons.mp hx
            rw [run_nil, Option.some.injEq] at hr
            subst hr
            exact (h t' ht).1
        | cons c xs =>
            obtain ⟨rfl, hxs⟩ := List.cons_prefix_cons.mp hx
            obtain ⟨u, hu, hr⟩ := run_cons_eq_some.mp hr
            exact ih.mp (h u hu).2 xs a t t' hxs hr ht
      · intro h u hu
        refine ⟨h [] b s u (by simp) rfl hu, ih.mpr (fun xs a t t' hx hr ht => ?_)⟩
        exact h (b :: xs) a t t' (List.cons_prefix_cons.mpr ⟨rfl, hx⟩)
          (run_cons_eq_some.mpr ⟨u, hu, hr⟩) ht

theorem each_congr {A : α → Prop} {I : σ → Prop} {C D : σ → α → Prop}
    (hI : ∀ s a s', A a → I s → step s a = some s' → I s') (hCD : ∀ s a, A a → I s → (C s a ↔ D s a))
    {as : List α} (hA : ∀ a ∈ as, A a) {s : σ} (hs : I s) : Each step C s as ↔ Each step D s as := by
  induction as generalizing s with
  | nil => exact Iff.rfl
  | cons a as ih =>
      have hAa : A a := hA a (by simp)
      refine forall_congr' fun t => forall_congr' fun ht => and_congr (hCD s a hAa hs) ?_
      exact ih (fun b hb => hA b (by simp [hb])) (hI s a t hAa hs ht)

theorem always_of_invariant {I P : σ → Prop} (hstep : ∀ s a s', I s → step s a = some s' → I s')
    (hP : ∀ s, I s → P s) {s : σ} (hs : I s) (as : List α) : Always step P s as := by
  induction as generalizing s with
  | nil => exact hP s hs
  | cons a as ih => exact ⟨hP s hs, fun t ht => ih (hstep s a t hs ht)⟩

theorem each_of_invariant {I : σ → Prop} {C : σ → α → Prop} (hstep : ∀ s a s', I s → step s a = some s' → I s')
    (hC : ∀ s a, I s → C s a) {s : σ} (hs : I s) (as : List α) : Each step C s as := by
  induction as generalizing s with
  | nil => trivial
  | cons a as ih => exact fun t ht => ⟨hC s a hs, ih (hstep s a t hs ht)⟩

/-- The guard rule: where the steps that meet `C` keep an invariant which gives `P`, the runs whose steps
all meet `C` stay in `P`. -/
theorem always_of_each {I P : σ → Prop} {C : σ → α → Prop}
    (hstep : ∀ s a s', I s → C s a → step s a = some s' → I s') (hP : ∀ s, I s → P s) {as : List α} {s : σ}
    (hs : I s) (h : Each step C s as) : Always step P s as := by
  induction as generalizing s with
  | nil => exact hP s hs
  | cons a as ih =>
      refine ⟨hP s hs, fun t ht => ?_⟩
      obtain ⟨hC, hrest⟩ := h t ht
      exact ih (hstep s a t hs hC ht) hrest

/-- The exact-guard rule: where `C` tells which steps keep `P`, the runs that stay in `P` are the runs
whose steps all meet `C`. The invariant `I` has to be kept by the steps inside `P` only. -/
theorem always_iff_each_within {A : α → Prop} {I P : σ → Prop} {C : σ → α → Prop}
    (hinv : ∀ s a s', A a → I s → P s → step s a = some s' → P s' → I s')
    (hstep : ∀ s a s', A a → I s → P s → step s a = some s' → (P s' ↔ C s a))
    {as : List α} (hA : ∀ a ∈ as, A a) {s : σ} (hs : I s) (hP : P s) :
    Always step P s as ↔ Each step C s as := by
  induction as generalizing s with
  | nil => simp [Always, Each, hP]
  | cons a as ih =>
      have hAa : A a := hA a (by simp)
      have hAas : ∀ b ∈ as, A b := fun b hb => hA b (by simp [hb])
      simp only [Always, Each, hP, true_and]
      refine forall_congr' fun t => forall_congr' fun ht => ?_
      have hPC := hstep s a t hAa hs hP ht
      constructor
      · intro h
        have hPt : P t := by cases as with
          | nil => exact h
          | cons b bs => exact h.1
        exact ⟨hPC.mp hPt, (ih hAas (hinv s a t hAa hs hP ht hPt) hPt).mp h⟩
      · rintro ⟨hC, h⟩
        have hPt : P t := hPC.mpr hC
        exact (ih hAas (hinv s a t hAa hs hP ht hPt) hPt).mpr h

theorem always_iff_each {A : α → Prop} {I P : σ → Prop} {C : σ → α → Prop}
    (hinv : ∀ s a s', A a → I s → step s a = some s' → I s')
    (hstep : ∀ s a s', A a → I s → P s → step s a = some s' → (P s' ↔ C s a))
    {as : List α} (hA : ∀ a ∈ as, A a) {s : σ} (hs : I s) (hP : P s) :
    Always step P s as ↔ Each step C s as :=
  always_iff_each_within (fun s a s' hAa hI _ h _ => hinv s a s' hAa hI h) hstep hA hs hP

/-- The exact-guard rule where all actions are allowed. -/
theorem always_iff_each_of_keeps {I P : σ → Prop} {C : σ → α → Prop}
    (hinv : ∀ s a s', I s → step s a = some s' → I s')
    (hstep : ∀ s a s', I s → P s → step s a = some s' → (P s' ↔ C s a)) {s : σ} (hs : I s) (hP : P s)
    (as : List α) : Always step P s as ↔ Each step C s as :=
  always_iff_each (A := fun _ => True) (fun s a s' _ => hinv s a s') (fun s a s' _ => hstep s a s')
    (fun _ _ => trivial) hs hP

/-- The exact-guard rule for a property of the states together with one of the steps. -/
theorem always_and_each_iff {P : σ → Prop} {E C : σ → α → Prop}
    (hstep : ∀ s a s', P s → step s a = some s' → (P s' ∧ E s a ↔ C s a)) {s : σ} (hP : P s) (as : List α) :
    Always step P s as ∧ Each step E s as ↔ Each step C s as := by
  induction as generalizing s with
  | nil => simp [Always, Each, hP]
  | cons a as ih =>
      constructor
      · rintro ⟨⟨_, halways⟩, heach⟩ t ht
        have hPt : P t := always_iff.mp (halways t ht) [] t List.nil_prefix rfl
        exact ⟨(hstep s a t hP ht).mp ⟨hPt, (heach t ht).1⟩, (ih hPt).mp ⟨halways t ht, (heach t ht).2⟩⟩
      · intro h
        have hgood : ∀ t, step s a = some t → (P t ∧ E s a) ∧ Always step P t as ∧ Each step E t as := by
          intro t ht
          have hPE := (hstep s a t hP ht).mpr (h t ht).1
          exact ⟨hPE, (ih hPE.1).mpr (h t ht).2⟩
        exact ⟨⟨hP, fun t ht => (hgood t ht).2.1⟩, fun t ht => ⟨(hgood t ht).1.2, (hgood t ht).2.2⟩⟩

end Transition

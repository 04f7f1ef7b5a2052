import MyDemo.Lib.Transition
import Mathlib.Algebra.BigOperators.Group.List.Basic
import Mathlib.Algebra.Order.Group.Multiset
import Mathlib.Tactic.Abel

/-!
# A pool of threads

A task is a list of effects: it submits further tasks and emits values. Any pending task may be taken by
any thread that is free, and the threads take turns in any order, one effect at a time.
-/

namespace TaskPool

open Transition

variable {τ ω : Type*}

inductive Effect (τ ω : Type*) where
  | execute (task : τ)
  | emit (value : ω)
  deriving DecidableEq, Repr

/-- `workers` is what the busy threads have still to do. -/
structure State (τ ω : Type*) where
  queue : List τ
  workers : List (List (Effect τ ω))
  output : List ω
  deriving DecidableEq, Repr

def State.start (tasks : List τ) : State τ ω := ⟨tasks, [], []⟩

def State.Idle (s : State τ ω) : Prop := s.queue = [] ∧ s.workers = []

inductive Action where
  | take (i : ℕ)
  | proceed (k : ℕ)
  deriving DecidableEq, Repr

def Effect.run (s : State τ ω) : Effect τ ω → State τ ω
  | .execute task => { s with queue := s.queue ++ [task] }
  | .emit value => { s with output := s.output ++ [value] }

def step (size : ℕ) (work : τ → List (Effect τ ω)) (s : State τ ω) : Action → Option (State τ ω)
  | .take i =>
      match s.queue[i]? with
      | none => none
      | some task =>
          if s.workers.length < size then
            some { s with queue := s.queue.eraseIdx i, workers := s.workers ++ [work task] }
          else none
  | .proceed k =>
      match s.workers[k]? with
      | none => none
      | some [] => some { s with workers := s.workers.eraseIdx k }
      | some (e :: es) => some (e.run { s with workers := s.workers.set k es })

/-! ## Nothing is lost and nothing is done twice

`yields` says what a task emits in the end, with all the tasks that come from it. -/

section Total

variable (yields : τ → Multiset ω)

def Effect.total : Effect τ ω → Multiset ω
  | .execute task => yields task
  | .emit value => {value}

def totalOf (es : List (Effect τ ω)) : Multiset ω := (es.map (Effect.total yields)).sum

/-- What has been emitted, and what is still to come. -/
def State.total (s : State τ ω) : Multiset ω :=
  s.output + (s.workers.map (totalOf yields)).sum + (s.queue.map yields).sum

variable {yields} {work : τ → List (Effect τ ω)}

@[simp] theorem totalOf_nil : totalOf yields [] = 0 := rfl

@[simp] theorem totalOf_cons (e : Effect τ ω) (es : List (Effect τ ω)) :
    totalOf yields (e :: es) = e.total yields + totalOf yields es := by
  simp [totalOf]

theorem Effect.total_run (s : State τ ω) (e : Effect τ ω) :
    (e.run s).total yields = e.total yields + s.total yields := by
  cases e with
  | execute task =>
      simp only [run, State.total, Effect.total, List.map_append, List.sum_append, List.map_singleton,
        List.sum_singleton]
      abel
  | emit value =>
      simp only [run, State.total, Effect.total, ← Multiset.coe_add, Multiset.coe_singleton]
      abel

theorem sum_map_eraseIdx {β M : Type*} [AddCommMonoid M] (f : β → M) {l : List β} {i : ℕ} {b : β}
    (h : l[i]? = some b) : (l.map f).sum = f b + ((l.eraseIdx i).map f).sum := by
  obtain ⟨hi, rfl⟩ := List.getElem?_eq_some_iff.mp h
  rw [← List.sum_cons, ← List.map_cons]
  exact ((List.getElem_cons_eraseIdx_perm hi).map f).sum_eq.symm

theorem sum_map_set {β M : Type*} [AddCommMonoid M] (f : β → M) {l : List β} {i : ℕ} {b : β}
    (h : l[i]? = some b) (c : β) : ((l.set i c).map f).sum = f c + ((l.eraseIdx i).map f).sum := by
  obtain ⟨hi, rfl⟩ := List.getElem?_eq_some_iff.mp h
  rw [← List.sum_cons, ← List.map_cons]
  exact ((List.set_perm_cons_eraseIdx hi c).map f).sum_eq

theorem step_total (hwork : ∀ task, yields task = totalOf yields (work task)) {size : ℕ} {s s' : State τ ω}
    {a : Action} (h : step size work s a = some s') : s'.total yields = s.total yields := by
  cases a with
  | take i =>
      simp only [step] at h
      split at h
      · cases h
      · next task hi =>
          split at h
          · cases h
            simp [State.total, sum_map_eraseIdx yields hi, ← hwork]
            abel
          · cases h
  | proceed k =>
      simp only [step] at h
      split at h
      · cases h
      · next hk =>
          cases h
          simp [State.total, sum_map_eraseIdx (totalOf yields) hk]
      · next e es hk =>
          cases h
          rw [Effect.total_run, State.total, State.total, sum_map_set _ hk, sum_map_eraseIdx _ hk,
            totalOf_cons]
          abel

theorem output_of_idle (hwork : ∀ task, yields task = totalOf yields (work task)) {size : ℕ}
    {tasks : List τ} {as : List Action} {s : State τ ω}
    (h : run (step size work) (.start tasks) as = some s) (hidle : s.Idle) :
    (s.output : Multiset ω) = (tasks.map yields).sum := by
  have hrun : s.total yields = (State.start tasks : State τ ω).total yields :=
    run_keeps (I := fun t => t.total yields = (State.start tasks).total yields)
      (fun t a t' ht hstep => (step_total hwork hstep).trans ht) rfl h
  simpa [State.total, State.start, hidle.1, hidle.2] using hrun

end Total

end TaskPool

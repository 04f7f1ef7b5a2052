import Mathlib.Data.List.Basic

/-!
# Computations that keep a log

A computation comes to a result or to an exception. What it has logged before an exception is not lost.
-/

/-- What a computation has logged, in order, and how it has ended. -/
structure Logged (ω ε α : Type*) where
  log : List ω
  result : Except ε α

namespace Logged

universe u

variable {ω ε : Type*} {α β : Type u}

instance : Monad (Logged ω ε) where
  pure a := ⟨[], .ok a⟩
  bind x f :=
    match x.result with
    | .error e => ⟨x.log, .error e⟩
    | .ok a => ⟨x.log ++ (f a).log, (f a).result⟩

def tell (o : ω) : Logged ω ε Unit := ⟨[o], .ok ()⟩

def throw (e : ε) : Logged ω ε α := ⟨[], .error e⟩

variable {x : Logged ω ε α} {f : α → Logged ω ε β} {a : α}

@[simp] theorem pure_log : (pure a : Logged ω ε α).log = [] := rfl

@[simp] theorem pure_result : (pure a : Logged ω ε α).result = .ok a := rfl

theorem bind_of_ok (h : x.result = .ok a) : x >>= f = ⟨x.log ++ (f a).log, (f a).result⟩ := by
  simp only [bind, h]

theorem bind_of_error {e : ε} (h : x.result = .error e) : x >>= f = ⟨x.log, .error e⟩ := by
  simp only [bind, h]

@[simp] theorem pure_bind (a : α) (f : α → Logged ω ε β) : pure a >>= f = f a := by
  rw [bind_of_ok pure_result]
  rfl

/-- What comes next matters for the result alone. -/
theorem bind_congr {g : α → Logged ω ε β} (h : ∀ a, x.result = .ok a → f a = g a) : x >>= f = x >>= g := by
  cases hx : x.result with
  | error e => rw [bind_of_error hx, bind_of_error hx]
  | ok a => rw [bind_of_ok hx, bind_of_ok hx, h a hx]

theorem result_bind_eq_ok {b : β} :
    (x >>= f).result = .ok b ↔ ∃ a, x.result = .ok a ∧ (f a).result = .ok b := by
  cases hx : x.result with
  | error e => simp [bind_of_error hx]
  | ok a => simp [bind_of_ok hx]

theorem mem_log_bind {o : ω} (h : o ∈ x.log) : o ∈ (x >>= f).log := by
  cases hx : x.result with
  | error e => rw [bind_of_error hx]; exact h
  | ok a => rw [bind_of_ok hx]; exact List.mem_append_left _ h

/-! ## What the log and the result of a computation meet -/

/-- The log meets `P`, and the result meets `Q`, or the exception meets `E`. -/
structure Meets (P : ω → Prop) (E : ε → Prop) (Q : α → Prop) (x : Logged ω ε α) : Prop where
  log : ∀ o ∈ x.log, P o
  error : ∀ e, x.result = .error e → E e
  ok : ∀ a, x.result = .ok a → Q a

variable {P : ω → Prop} {E E' : ε → Prop} {Q : α → Prop} {R : β → Prop}

theorem Meets.pure (h : Q a) : Meets P E Q (pure a : Logged ω ε α) :=
  ⟨nofun, nofun, fun b hb => by cases hb; exact h⟩

theorem Meets.tell {o : ω} {Q : Unit → Prop} (h : P o) (hQ : Q ()) :
    Meets P E Q (tell o : Logged ω ε Unit) :=
  ⟨fun _ hp => List.mem_singleton.mp hp ▸ h, nofun, fun _ _ => hQ⟩

theorem Meets.throw {e : ε} (h : E e) : Meets P E Q (throw e : Logged ω ε α) :=
  ⟨nofun, fun e' he' => by cases he'; exact h, nofun⟩

theorem Meets.bind (hx : Meets P E Q x) (hf : ∀ a, Q a → Meets P E R (f a)) : Meets P E R (x >>= f) := by
  cases h : x.result with
  | error e =>
      rw [bind_of_error h]
      exact ⟨hx.log, fun e' he' => by cases he'; exact hx.error e h, nofun⟩
  | ok a =>
      have hrest := hf a (hx.ok a h)
      rw [bind_of_ok h]
      refine ⟨fun o ho => ?_, hrest.error, hrest.ok⟩
      exact (List.mem_append.mp ho).elim (hx.log o) (hrest.log o)

theorem Meets.imp {Q' : α → Prop} (hx : Meets P E Q x) (hE : ∀ e, E e → E' e) (hQ : ∀ a, Q a → Q' a) :
    Meets P E' Q' x :=
  ⟨hx.log, fun e he => hE e (hx.error e he), fun a ha => hQ a (hx.ok a ha)⟩

theorem Meets.imp_ok {Q' : α → Prop} (hx : Meets P E Q x) (hQ : ∀ a, Q a → Q' a) : Meets P E Q' x :=
  hx.imp (fun _ he => he) hQ

theorem Meets.imp_log {P' : ω → Prop} (hx : Meets P E Q x) (hP : ∀ o, P o → P' o) : Meets P' E Q x :=
  ⟨fun o ho => hP o (hx.log o ho), hx.error, hx.ok⟩

theorem Meets.and_result (hx : Meets P E Q x) : Meets P E (fun a => Q a ∧ x.result = .ok a) x :=
  ⟨hx.log, hx.error, fun a ha => ⟨hx.ok a ha, ha⟩⟩

/-- Where no exception may come, there is a result. -/
theorem Meets.exists_ok (hx : Meets P E Q x) (hE : ∀ e, ¬ E e) : ∃ a, x.result = .ok a ∧ Q a := by
  cases h : x.result with
  | error e => exact absurd (hx.error e h) (hE e)
  | ok a => exact ⟨a, rfl, hx.ok a h⟩

/-! ## Computations that agree -/

/-- Both log the same, and end in the same exception or with results that `R` relates. -/
inductive Agree {α β : Type u} (R : α → β → Prop) : Logged ω ε α → Logged ω ε β → Prop
  | ok {log : List ω} {a : α} {b : β} (h : R a b) : Agree R ⟨log, .ok a⟩ ⟨log, .ok b⟩
  | error {log : List ω} {e : ε} : Agree R ⟨log, .error e⟩ ⟨log, .error e⟩

theorem Agree.pure {R : α → β → Prop} {b : β} (h : R a b) :
    Agree R (pure a : Logged ω ε α) (pure b : Logged ω ε β) := .ok h

theorem Agree.refl (x : Logged ω ε α) : Agree Eq x x := by
  obtain ⟨log, e | a⟩ := x
  · exact .error
  · exact .ok rfl

theorem Agree.eq {y : Logged ω ε α} (h : Agree Eq x y) : x = y := by
  cases h with
  | ok h => rw [h]
  | error => rfl

theorem Agree.imp {α β : Type u} {R R' : α → β → Prop} {x : Logged ω ε α} {y : Logged ω ε β} (h : Agree R x y)
    (hR : ∀ a b, R a b → R' a b) : Agree R' x y := by
  cases h with
  | ok h => exact .ok (hR _ _ h)
  | error => exact .error

theorem Agree.prepend {α β : Type u} {R : α → β → Prop} {x : Logged ω ε α} {y : Logged ω ε β} (h : Agree R x y)
    (log : List ω) : Agree R ⟨log ++ x.log, x.result⟩ ⟨log ++ y.log, y.result⟩ := by
  cases h with
  | ok h => exact .ok h
  | error => exact .error

theorem Agree.bind {α' β' : Type u} {R : α → α' → Prop} {S : β → β' → Prop} {y : Logged ω ε α'}
    {g : α' → Logged ω ε β'} (h : Agree R x y) (hf : ∀ a b, R a b → Agree S (f a) (g b)) :
    Agree S (x >>= f) (y >>= g) := by
  cases h with
  | ok h =>
      rw [bind_of_ok rfl, bind_of_ok rfl]
      exact (hf _ _ h).prepend _
  | error => exact .error

/-! ## The rest of a computation -/

/-- `y` is what is left of `x` at some moment. -/
def Continues (x y : Logged ω ε α) : Prop := ∃ log, x = ⟨log ++ y.log, y.result⟩

theorem Continues.refl (x : Logged ω ε α) : Continues x x := ⟨[], rfl⟩

theorem Continues.trans {x y z : Logged ω ε α} (h : Continues x y) (h' : Continues y z) : Continues x z := by
  obtain ⟨log, rfl⟩ := h
  obtain ⟨log', rfl⟩ := h'
  exact ⟨log ++ log', by simp⟩

theorem Continues.bind (h : x.result = .ok a) (f : α → Logged ω ε β) : Continues (x >>= f) (f a) :=
  ⟨x.log, bind_of_ok h⟩

theorem Continues.bind_right {y : Logged ω ε α} (h : Continues x y) (f : α → Logged ω ε β) :
    Continues (x >>= f) (y >>= f) := by
  obtain ⟨log, rfl⟩ := h
  refine ⟨log, ?_⟩
  cases hy : y.result with
  | error e => simp only [Bind.bind, hy]
  | ok a => simp only [Bind.bind, hy, List.append_assoc]

theorem Continues.mem_log {y : Logged ω ε α} (h : Continues x y) {o : ω} (ho : o ∈ y.log) : o ∈ x.log := by
  obtain ⟨log, rfl⟩ := h
  exact List.mem_append_right _ ho

theorem Continues.result_eq {y : Logged ω ε α} (h : Continues x y) : x.result = y.result := by
  obtain ⟨log, rfl⟩ := h
  rfl

end Logged

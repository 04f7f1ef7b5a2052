import MyDemo.Java
import MyDemo.Lib.Logged
import Mathlib.Algebra.Ring.Int.Defs
import Mathlib.Algebra.Ring.Nat

/-!
# Arrays and the arithmetic of their indices

`int` expressions wrap around, and an array has fewer than `2 ^ 31` elements. Each index that is used is logged.
-/

namespace MyDemo.Sort

/-! ## The arithmetic of int -/

/-- The value of an `int` expression. -/
def wrap (n : ℤ) : ℤ := n.bmod (2 ^ 32)

variable {n : ℤ}

theorem wrap_cases (n : ℤ) (h : -2 ^ 32 ≤ n) (h' : n < 2 ^ 32) :
    n < -2 ^ 31 ∧ wrap n = n + 2 ^ 32 ∨ -2 ^ 31 ≤ n ∧ n < 2 ^ 31 ∧ wrap n = n ∨
      2 ^ 31 ≤ n ∧ wrap n = n - 2 ^ 32 := by
  rw [wrap, Int.bmod]
  split <;> omega

theorem wrap_bounds (n : ℤ) : -2 ^ 31 ≤ wrap n ∧ wrap n < 2 ^ 31 := by
  rw [wrap, Int.bmod]
  split <;> omega

theorem wrap_eq (h : -2 ^ 31 ≤ n) (h' : n < 2 ^ 31) : wrap n = n := by
  have hcases := wrap_cases n (by omega) (by omega)
  omega

theorem wrap_of_le (h : 2 ^ 31 ≤ n) (h' : n < 2 ^ 32) : wrap n = n - 2 ^ 32 := by
  have hcases := wrap_cases n (by omega) (by omega)
  omega

/-- Halving rounds towards zero. -/
theorem tdiv_two_bounds (n : ℤ) :
    (0 ≤ n → n - 1 ≤ 2 * n.tdiv 2 ∧ 2 * n.tdiv 2 ≤ n) ∧ (n ≤ 0 → n ≤ 2 * n.tdiv 2 ∧ 2 * n.tdiv 2 ≤ n + 1) := by
  constructor
  · intro hn
    rw [Int.tdiv_eq_ediv_of_nonneg hn]
    omega
  · intro hn
    rw [show n = -(-n) by omega, Int.neg_tdiv, Int.tdiv_eq_ediv_of_nonneg (by omega)]
    omega

/-! ## Arrays -/

structure IntArray (α : Type) where
  elems : List α
  length_lt : elems.length < 2 ^ 31

/-- What is logged: an index with which an array is accessed, and the arguments of a recursive call with the
midpoint it computes. -/
inductive Event where
  | index (i : ℤ)
  | midpoint (low mid high : ℤ)
  deriving DecidableEq, Repr

inductive Thrown where
  | exn (e : Exn)
  | negativeArraySize
  | stackOverflow
  deriving DecidableEq, Repr

abbrev Traced (α : Type) := Logged Event Thrown α

namespace IntArray

variable {α : Type} {xs : IntArray α} {i : ℤ} {a : α}

def length (xs : IntArray α) : ℤ := xs.elems.length

theorem length_lt' (xs : IntArray α) : xs.length < 2 ^ 31 := by
  have := xs.length_lt
  rw [length]
  omega

/-- `xs[i]`, and what is known of an index that may be used. -/
def get (xs : IntArray α) (i : ℤ) : Traced {_x : α // 0 ≤ i ∧ i + 1 < 2 ^ 31} where
  log := [.index i]
  result :=
    if h : 0 ≤ i ∧ i < xs.elems.length then
      have := xs.length_lt
      .ok ⟨xs.elems[i.toNat], by omega⟩
    else .error (.exn .indexOutOfBounds)

/-- `xs[i] = a`. -/
def set (xs : IntArray α) (i : ℤ) (a : α) : Traced (IntArray α) where
  log := [.index i]
  result :=
    if 0 ≤ i ∧ i < xs.elems.length then
      .ok ⟨xs.elems.set i.toNat a, by rw [List.length_set]; exact xs.length_lt⟩
    else .error (.exn .indexOutOfBounds)

/-- `new int[n]`. -/
def new [Inhabited α] (n : ℤ) : Traced (IntArray α) :=
  if h : 0 ≤ n ∧ n < 2 ^ 31 then
    pure ⟨List.replicate n.toNat default, by rw [List.length_replicate]; omega⟩
  else Logged.throw .negativeArraySize

/-! ## Accesses -/

theorem length_of_set {ys : IntArray α} (h : (xs.set i a).result = .ok ys) : ys.length = xs.length := by
  simp only [set] at h
  split at h
  · cases h
    simp [length]
  · cases h

variable {P : Event → Prop} {E : Thrown → Prop}

/-- The element at an index inside the array. -/
def entry [Inhabited α] (xs : IntArray α) (i : ℤ) : α := xs.elems.getD i.toNat default

theorem meets_get_result (hi : 0 ≤ i) (hlt : i < xs.length) (hP : P (.index i)) :
    (xs.get i).Meets P E fun x => xs.elems[i.toNat]? = some x.1 := by
  refine ⟨fun o ho => List.mem_singleton.mp ho ▸ hP, fun e he => ?_, fun x hx => ?_⟩
  · rw [get, dif_pos ⟨hi, hlt⟩] at he
    cases he
  · rw [get, dif_pos ⟨hi, hlt⟩] at hx
    cases hx
    rw [length] at hlt
    exact List.getElem?_eq_getElem (by omega)

theorem meets_get (hi : 0 ≤ i) (hlt : i < xs.length) (hP : P (.index i)) : (xs.get i).Meets P E fun _ => True :=
  (meets_get_result hi hlt hP).imp_ok fun _ _ => trivial

theorem meets_get_entry [Inhabited α] (hi : 0 ≤ i) (hlt : i < xs.length) (hP : P (.index i)) :
    (xs.get i).Meets P E fun x => x.1 = xs.entry i :=
  (meets_get_result hi hlt hP).imp_ok fun x hx => by
    rw [entry, List.getD_eq_getElem?_getD, hx, Option.getD_some]

theorem meets_set_elems (hi : 0 ≤ i) (hlt : i < xs.length) (hP : P (.index i)) :
    (xs.set i a).Meets P E fun ys => ys.elems = xs.elems.set i.toNat a := by
  refine ⟨fun o ho => List.mem_singleton.mp ho ▸ hP, fun e he => ?_, fun ys hys => ?_⟩
  · rw [set, if_pos ⟨hi, hlt⟩] at he
    cases he
  · rw [set, if_pos ⟨hi, hlt⟩] at hys
    cases hys
    rfl

theorem meets_set (hi : 0 ≤ i) (hlt : i < xs.length) (hP : P (.index i)) :
    (xs.set i a).Meets P E fun ys => ys.length = xs.length :=
  (meets_set_elems hi hlt hP).imp_ok fun ys hys => by rw [length, hys, List.length_set, length]

theorem meets_new [Inhabited α] (hn : 0 ≤ n) (hlt : n < 2 ^ 31) :
    (new n : Traced (IntArray α)).Meets P E fun xs => xs.length = n := by
  rw [new, dif_pos ⟨hn, hlt⟩]
  exact .pure (by rw [length, List.length_replicate]; omega)

end IntArray

end MyDemo.Sort

import MyDemo.Java
import Mathlib.Order.Lattice

/-!
# Quick sort

`getMiddle`, `quickSort` and `quick` of `Sort.java`. The elements are only compared, so that they may be of
any linear order, as those of an `int[]` are.
-/

namespace MyDemo.Sort

open JArray

variable {α : Type} [LinearOrder α]

/-! ## getMiddle -/

/-- `while (low < high && numbers[high] >= temp) high--`. -/
def scanHigh (numbers : List α) (temp : α) (low high : ℤ) : Except Exn ℤ :=
  if low < high then
    match get numbers high with
    | .error e => .error e
    | .ok x => if x ≥ temp then scanHigh numbers temp low (high - 1) else .ok high
  else .ok high
termination_by (high - low).toNat

/-- `while (low < high && numbers[low] < temp) low++`. -/
def scanLow (numbers : List α) (temp : α) (low high : ℤ) : Except Exn ℤ :=
  if low < high then
    match get numbers low with
    | .error e => .error e
    | .ok x => if x < temp then scanLow numbers temp (low + 1) high else .ok low
  else .ok low
termination_by (high - low).toNat

/-- The body of the outer loop. -/
def sweep (numbers : List α) (temp : α) (low high : ℤ) : Except Exn (List α × ℤ × ℤ) := do
  let high ← scanHigh numbers temp low high
  let numbers ← set numbers low (← get numbers high)
  let low ← scanLow numbers temp low high
  let numbers ← set numbers high (← get numbers low)
  return (numbers, low, high)

/-! ## A sweep brings the two ends closer -/

theorem scanHigh_bounds (numbers : List α) (temp : α) (low high : ℤ) {high' : ℤ}
    (h : scanHigh numbers temp low high = .ok high') (hle : low ≤ high) : low ≤ high' ∧ high' ≤ high := by
  fun_induction scanHigh numbers temp low high with
  | case1 => cases h
  | case2 high hlt x hx hge ih =>
      have hbounds := ih h (by omega)
      omega
  | case3 => cases h; omega
  | case4 => cases h; omega

theorem scanLow_bounds (numbers : List α) (temp : α) (low high : ℤ) {low' : ℤ}
    (h : scanLow numbers temp low high = .ok low') (hle : low ≤ high) : low ≤ low' ∧ low' ≤ high := by
  fun_induction scanLow numbers temp low high with
  | case1 => cases h
  | case2 low hlt x hx hltx ih =>
      have hbounds := ih h (by omega)
      omega
  | case3 => cases h; omega
  | case4 => cases h; omega

/-- An end that does not move at once stands before an element that will. -/
theorem scanHigh_eq_high {numbers : List α} {temp : α} {low high : ℤ} (hlt : low < high)
    (h : scanHigh numbers temp low high = .ok high) : ∃ x, get numbers high = .ok x ∧ x < temp := by
  rw [scanHigh, if_pos hlt] at h
  split at h
  · cases h
  · next x hx =>
      split at h
      · have hbounds := scanHigh_bounds numbers temp low (high - 1) h (by omega)
        omega
      · next hge => exact ⟨x, hx, lt_of_not_ge hge⟩

theorem lt_scanLow {numbers : List α} {temp x : α} {low high low' : ℤ} (hlt : low < high)
    (hx : get numbers low = .ok x) (hxt : x < temp) (h : scanLow numbers temp low high = .ok low') :
    low < low' := by
  rw [scanLow, if_pos hlt, hx] at h
  dsimp only at h
  rw [if_pos hxt] at h
  have hbounds := scanLow_bounds numbers temp (low + 1) high h (by omega)
  omega

theorem sweep_bounds {numbers numbers' : List α} {temp : α} {low high low' high' : ℤ} (hlt : low < high)
    (h : sweep numbers temp low high = .ok (numbers', low', high')) :
    low ≤ low' ∧ low' ≤ high' ∧ high' ≤ high ∧ high' - low' < high - low := by
  simp only [sweep, Exn.bind_eq_ok] at h
  obtain ⟨h₁, hhigh, x, hx, ys, hset, l₁, hlow, y, _, zs, _, hr⟩ := h
  cases hr
  have hhighBounds := scanHigh_bounds numbers temp low high hhigh (by omega)
  have hlowBounds := scanLow_bounds ys temp low high' hlow (by omega)
  rcases Int.lt_or_eq_of_le hhighBounds.2 with hmoved | rfl
  · omega
  · obtain ⟨x', hx', hxt⟩ := scanHigh_eq_high hlt hhigh
    rw [hx, Except.ok.injEq] at hx'
    have hmoved := lt_scanLow hlt (get_set hset) (hx' ▸ hxt) hlow
    omega

theorem sweep_decreases {numbers numbers' : List α} {temp : α} {low high low' high' : ℤ} (hlt : low < high)
    (h : sweep numbers temp low high = .ok (numbers', low', high')) :
    (high' - low').toNat < (high - low).toNat := by
  have hbounds := sweep_bounds hlt h
  omega

/-! ## The loop and the recursion -/

/-- The outer loop of `getMiddle`. -/
def partition (numbers : List α) (temp : α) (low high : ℤ) : Except Exn (List α × ℤ) :=
  if hlt : low < high then
    match h : sweep numbers temp low high with
    | .error e => .error e
    | .ok (numbers', low', high') =>
        have := sweep_decreases hlt h
        partition numbers' temp low' high'
  else .ok (numbers, low)
termination_by (high - low).toNat

def getMiddle (numbers : List α) (low high : ℤ) : Except Exn (List α × ℤ) := do
  let temp ← get numbers low
  let (numbers, low) ← partition numbers temp low high
  let numbers ← set numbers low temp
  return (numbers, low)

theorem partition_bounds (numbers : List α) (temp : α) (low high : ℤ) {numbers' : List α} {middle : ℤ}
    (hle : low ≤ high) (h : partition numbers temp low high = .ok (numbers', middle)) :
    low ≤ middle ∧ middle ≤ high := by
  fun_induction partition numbers temp low high with
  | case1 => cases h
  | case2 numbers low high hlt numbers₁ low₁ high₁ hsweep _ ih =>
      have hbounds := sweep_bounds hlt hsweep
      have hrest := ih (by omega) h
      omega
  | case3 => cases h; omega

theorem getMiddle_bounds {numbers numbers' : List α} {low high middle : ℤ} (hle : low ≤ high)
    (h : getMiddle numbers low high = .ok (numbers', middle)) : low ≤ middle ∧ middle ≤ high := by
  simp only [getMiddle, Exn.bind_eq_ok] at h
  obtain ⟨temp, _, ⟨ys, m⟩, hpartition, zs, _, hr⟩ := h
  cases hr
  exact partition_bounds numbers temp low high hle hpartition

def quickSort (numbers : List α) (low high : ℤ) : Except Exn (List α) :=
  if hlt : low < high then
    match h : getMiddle numbers low high with
    | .error e => .error e
    | .ok (numbers', middle) =>
        have := getMiddle_bounds (Int.le_of_lt hlt) h
        match quickSort numbers' low (middle - 1) with
        | .error e => .error e
        | .ok numbers'' => quickSort numbers'' (middle + 1) high
  else .ok numbers
termination_by (high - low).toNat

def quick (numbers : List α) : Except Exn (List α) :=
  if numbers.length > 0 then quickSort numbers 0 (numbers.length - 1) else .ok numbers

end MyDemo.Sort

import MyDemo.Java

/-!
# Merge sort

`sort` and `merge` of `Sort.java`. The elements are only compared by `<`, in `takeSmaller`.
-/

namespace MyDemo.Sort

open JArray

variable {α : Type} [LT α] [DecidableLT α]

/-! ## merge -/

/-- `while (i <= mid && j <= high)`, which leaves `temp`, `i`, `j` and `k`. -/
def takeSmaller (nums : List α) (mid high : ℤ) (temp : List α) (i j k : ℤ) :
    Except Exn (List α × ℤ × ℤ × ℤ) :=
  if i ≤ mid ∧ j ≤ high then do
    let x ← get nums i
    let y ← get nums j
    if x < y then
      let temp ← set temp k x
      takeSmaller nums mid high temp (i + 1) j (k + 1)
    else
      let temp ← set temp k y
      takeSmaller nums mid high temp i (j + 1) (k + 1)
  else return (temp, i, j, k)
termination_by (mid + 1 - i).toNat + (high + 1 - j).toNat

/-- `while (i <= last) temp[k++] = nums[i++]`, for either side. -/
def copyRest (nums : List α) (last : ℤ) (temp : List α) (i k : ℤ) : Except Exn (List α × ℤ) :=
  if i ≤ last then do
    let x ← get nums i
    let temp ← set temp k x
    copyRest nums last temp (i + 1) (k + 1)
  else return (temp, k)
termination_by (last + 1 - i).toNat

/-- `for (; k2 < temp.length; k2++) nums[k2 + low] = temp[k2]`. -/
def copyBack (nums : List α) (low : ℤ) (temp : List α) (k2 : ℤ) : Except Exn (List α) :=
  if k2 < temp.length then do
    let x ← get temp k2
    let nums ← set nums (k2 + low) x
    copyBack nums low temp (k2 + 1)
  else return nums
termination_by (temp.length - k2).toNat

/-- A new array is filled with the default element. -/
def merge [Inhabited α] (nums : List α) (low mid high : ℤ) : Except Exn (List α) := do
  let temp := List.replicate (high - low + 1).toNat default
  let (temp, i, j, k) ← takeSmaller nums mid high temp low (mid + 1) 0
  let (temp, k) ← copyRest nums mid temp i k
  let (temp, _) ← copyRest nums high temp j k
  copyBack nums low temp 0

/-! ## sort -/

theorem midpoint_bounds {low : ℕ} {high : ℤ} (h : low < high) :
    low ≤ (low + high).tdiv 2 ∧ (low + high).tdiv 2 < high := by
  rw [Int.tdiv_eq_ediv_of_nonneg (by omega)]
  omega

/-- `low` is never negative, as `mid` would not come closer to `high` then. -/
def sort [Inhabited α] (nums : List α) (low : ℕ) (high : ℤ) : Except Exn (List α) :=
  let mid := (low + high).tdiv 2
  if low < high then do
    let nums ← sort nums low mid
    let nums ← sort nums (mid + 1).toNat high
    merge nums low mid high
  else return nums
termination_by (high - low).toNat
decreasing_by
  all_goals
    have hmid := midpoint_bounds ‹_›
    omega

end MyDemo.Sort

import MyDemo.Sort.IntArray

/-!
# Merge sort with the indices of a machine

`sort` and `merge` of `Sort.java` again, with an arithmetic that wraps around. `depth` is the number of calls
that the stack still has room for.
-/

namespace MyDemo.Sort.IntArray

variable {α : Type} [LT α] [DecidableLT α]

/-! ## merge -/

/-- `while (i <= mid && j <= high)`, which leaves `temp`, `i`, `j` and `k`. -/
def takeSmaller (nums : IntArray α) (mid high : ℤ) (temp : IntArray α) (i j k : ℤ) :
    Traced (IntArray α × ℤ × ℤ × ℤ) :=
  if i ≤ mid ∧ j ≤ high then do
    let ⟨x, _⟩ ← nums.get i
    let ⟨y, _⟩ ← nums.get j
    if x < y then do
      let temp ← temp.set k x
      takeSmaller nums mid high temp (wrap (i + 1)) j (wrap (k + 1))
    else do
      let temp ← temp.set k y
      takeSmaller nums mid high temp i (wrap (j + 1)) (wrap (k + 1))
  else return (temp, i, j, k)
termination_by (mid + 1 - i).toNat + (high + 1 - j).toNat
decreasing_by
  · have hi : 0 ≤ i ∧ i + 1 < 2 ^ 31 := ‹_›
    rw [wrap_eq (by omega) hi.2]
    omega
  · have hj : 0 ≤ j ∧ j + 1 < 2 ^ 31 := ‹_›
    rw [wrap_eq (by omega) hj.2]
    omega

/-- `while (i <= last) temp[k++] = nums[i++]`, for either side. -/
def copyRest (nums : IntArray α) (last : ℤ) (temp : IntArray α) (i k : ℤ) : Traced (IntArray α × ℤ) :=
  if i ≤ last then do
    let ⟨x, _⟩ ← nums.get i
    let temp ← temp.set k x
    copyRest nums last temp (wrap (i + 1)) (wrap (k + 1))
  else return (temp, k)
termination_by (last + 1 - i).toNat
decreasing_by
  have hi : 0 ≤ i ∧ i + 1 < 2 ^ 31 := ‹_›
  rw [wrap_eq (by omega) hi.2]
  omega

/-- `for (; k2 < temp.length; k2++) nums[k2 + low] = temp[k2]`. -/
def copyBack (nums : IntArray α) (low : ℤ) (temp : IntArray α) (k2 : ℤ) : Traced (IntArray α) :=
  if k2 < temp.length then do
    let ⟨x, _⟩ ← temp.get k2
    let nums ← nums.set (wrap (k2 + low)) x
    copyBack nums low temp (wrap (k2 + 1))
  else return nums
termination_by (temp.length - k2).toNat
decreasing_by
  have hk : 0 ≤ k2 ∧ k2 + 1 < 2 ^ 31 := ‹_›
  rw [wrap_eq (by omega) hk.2]
  omega

def merge [Inhabited α] (nums : IntArray α) (low mid high : ℤ) : Traced (IntArray α) := do
  let temp ← new (wrap (high - low + 1))
  let (temp, i, j, k) ← takeSmaller nums mid high temp low (wrap (mid + 1)) 0
  let (temp, k) ← copyRest nums mid temp i k
  let (temp, _) ← copyRest nums high temp j k
  copyBack nums low temp 0

/-! ## sort -/

def sort [Inhabited α] (depth : ℕ) (nums : IntArray α) (low high : ℤ) : Traced (IntArray α) :=
  match depth with
  | 0 => Logged.throw .stackOverflow
  | depth + 1 => do
      let mid := (wrap (low + high)).tdiv 2
      Logged.tell (.midpoint low mid high)
      if low < high then do
        let nums ← sort depth nums low mid
        let nums ← sort depth nums (wrap (mid + 1)) high
        merge nums low mid high
      else return nums

end MyDemo.Sort.IntArray

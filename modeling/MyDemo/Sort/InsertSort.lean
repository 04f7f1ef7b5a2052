import MyDemo.Java
import MyDemo.Lib.CountingLoop

/-!
# Insertion sort and shell sort

`insertSort` and `shellSort` of `Sort.java`, which insert an element into those before it in the same way,
with a step of one or of `increment`. The elements are only compared, by `<` or by `>`.
-/

namespace MyDemo.Sort

open JArray CountingLoop

variable {α : Type}

/-- What `j` is decreased by. -/
abbrev Step := { n : ℤ // 0 < n }

/-- The innermost loop, which leaves `numbers` and `j`. Elements that `temp` has to pass move up. -/
def shift (passes : α → α → Bool) (increment : Step) (temp : α) (numbers : List α) (j : ℤ) :
    Except Exn (List α × ℤ) :=
  if j ≥ increment then do
    let x ← get numbers (j - increment)
    if passes temp x then
      let numbers ← set numbers j x
      shift passes increment temp numbers (j - increment)
    else return (numbers, j)
  else return (numbers, j)
termination_by j.toNat
decreasing_by
  have := increment.property
  omega

/-- The body of the loop around it. -/
def insertAt (passes : α → α → Bool) (increment : Step) (numbers : List α) (i : ℤ) : Except Exn (List α) := do
  let temp ← get numbers i
  let (numbers, j) ← shift passes increment temp numbers i
  set numbers j temp

variable [LT α] [DecidableLT α]

def insertSort (numbers : List α) : Except Exn (List α) :=
  countUp 0 numbers.length (insertAt (· < ·) ⟨1, by decide⟩) numbers

/-- The outer loop of `shellSort`. -/
def shellRounds (increment : ℤ) (data : List α) : Except Exn (List α) :=
  if h : increment > 0 then do
    let data ← countUp increment data.length (insertAt (· > ·) ⟨increment, h⟩) data
    shellRounds (increment.tdiv 2) data
  else return data
termination_by increment.toNat
decreasing_by
  rw [Int.tdiv_eq_ediv_of_nonneg (by omega)]
  omega

def shellSort (data : List α) : Except Exn (List α) := shellRounds ((data.length : ℤ).tdiv 2) data

end MyDemo.Sort

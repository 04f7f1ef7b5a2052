import MyDemo.Java
import MyDemo.Lib.CountingLoop

/-!
# Selection sort

`selectSort` of `Sort.java`.
-/

namespace MyDemo.Sort

open JArray CountingLoop

variable {α : Type} [LinearOrder α]

/-- The body of the inner loop: `k` is the place of the smallest element found. -/
def select (numbers : List α) (k j : ℤ) : Except Exn ℤ := do
  if (← get numbers j) < (← get numbers k) then return j else return k

/-- The round `i` of the outer loop. -/
def selectRound (size : ℤ) (numbers : List α) (i : ℤ) : Except Exn (List α) := do
  let k ← countDown (size - 1) i (select numbers) i
  swap numbers i k

/-- The outer loop up to the round `i`, which is not run. -/
def selectRounds (numbers : List α) (i : ℤ) : Except Exn (List α) :=
  countUp 0 i (selectRound numbers.length) numbers

def selectSort (numbers : List α) : Except Exn (List α) := selectRounds numbers numbers.length

end MyDemo.Sort

import MyDemo.Java
import MyDemo.Lib.CountingLoop

/-!
# Bubble sort

`bubbleSort` of `Sort.java`.
-/

namespace MyDemo.Sort

open JArray CountingLoop

variable {α : Type} [LinearOrder α]

/-- The body of the inner loop. -/
def bubble (numbers : List α) (j : ℤ) : Except Exn (List α) := do
  if (← get numbers j) > (← get numbers (j + 1)) then swap numbers j (j + 1) else return numbers

/-- The inner loop, which is the round `i` of the outer one. -/
def bubbleRound (size : ℤ) (numbers : List α) (i : ℤ) : Except Exn (List α) :=
  countUp 0 (size - 1 - i) bubble numbers

/-- The outer loop up to the round `i`, which is not run. -/
def bubbleRounds (numbers : List α) (i : ℤ) : Except Exn (List α) :=
  countUp 0 i (bubbleRound numbers.length) numbers

def bubbleSort (numbers : List α) : Except Exn (List α) := bubbleRounds numbers (numbers.length - 1)

end MyDemo.Sort

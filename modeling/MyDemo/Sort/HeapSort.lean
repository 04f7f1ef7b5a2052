import MyDemo.Sort.IntArray
import Mathlib.Order.Lattice

/-!
# Heap sort

`HeapSort` of `Sort.java`, with an arithmetic of the indices that wraps around.
-/

namespace MyDemo.Sort.HeapSort

variable {α : Type} [LinearOrder α]

def swap (data : IntArray α) (i j : ℤ) : Traced (IntArray α) := do
  let ⟨tmp, _⟩ ← data.get i
  let ⟨x, _⟩ ← data.get j
  let data ← data.set i x
  data.set j tmp

/-! ## buildMaxHeap -/

/-- `biggerIndex`, the index of the greater child, once it is settled. -/
def biggerIndex (data : IntArray α) (lastIndex k : ℤ) :
    Traced {b : ℤ // b = wrap (2 * k + 1) ∨ b = wrap (wrap (2 * k + 1) + 1)} :=
  let left := wrap (2 * k + 1)
  let right := wrap (left + 1)
  if left < lastIndex then do
    let ⟨x, _⟩ ← data.get left
    let ⟨y, _⟩ ← data.get right
    if x < y then return ⟨right, .inr rfl⟩ else return ⟨left, .inl rfl⟩
  else return ⟨left, .inl rfl⟩

/-- An index that both elements could be read at is not reached by wrapping around. -/
theorem lt_of_bigger {k b : ℤ} (hb : b = wrap (2 * k + 1) ∨ b = wrap (wrap (2 * k + 1) + 1))
    (hk : 0 ≤ k ∧ k + 1 < 2 ^ 31) (hvalid : 0 ≤ b ∧ b + 1 < 2 ^ 31) : k < b ∧ b + 1 < 2 ^ 31 := by
  have hleft := wrap_cases (2 * k + 1) (by omega) (by omega)
  have hright := wrap_cases (wrap (2 * k + 1) + 1) (by omega) (by omega)
  omega

/-- The body of the inner loop. It leaves the next `k`, if the loop goes on. -/
def siftStep (lastIndex : ℤ) (data : IntArray α) (k : ℤ) :
    Traced (IntArray α × Option {b : ℤ // k < b ∧ b + 1 < 2 ^ 31}) := do
  let ⟨bigger, hbigger⟩ ← biggerIndex data lastIndex k
  let ⟨x, hk⟩ ← data.get k
  let ⟨y, hvalid⟩ ← data.get bigger
  if x < y then do
    let data ← swap data k bigger
    return (data, some ⟨bigger, lt_of_bigger hbigger hk hvalid⟩)
  else return (data, none)

/-- The inner loop. -/
def sift (lastIndex : ℤ) (data : IntArray α) (k : ℤ) : Traced (IntArray α) :=
  if wrap (k * 2 + 1) ≤ lastIndex then do
    let (data, next) ← siftStep lastIndex data k
    match next with
    | none => return data
    | some ⟨bigger, _⟩ => sift lastIndex data bigger
  else return data
termination_by (2 ^ 31 - k).toNat
decreasing_by omega

/-- The outer loop. -/
def build (lastIndex : ℤ) (data : IntArray α) (i : ℤ) : Traced (IntArray α) :=
  if i ≥ 0 then do
    let data ← sift lastIndex data i
    build lastIndex data (i - 1)
  else return data
termination_by (i + 1).toNat

def firstParent (lastIndex : ℤ) : ℤ := (wrap (lastIndex - 1)).tdiv 2

def buildMaxHeap (data : IntArray α) (lastIndex : ℤ) : Traced (IntArray α) :=
  build lastIndex data (firstParent lastIndex)

/-! ## main -/

/-- The body of the loop. -/
def round (arrayLength : ℤ) (a : IntArray α) (i : ℤ) : Traced (IntArray α) := do
  let a ← buildMaxHeap a (arrayLength - 1 - i)
  swap a 0 (arrayLength - 1 - i)

def rounds (arrayLength : ℤ) (a : IntArray α) (i : ℤ) : Traced (IntArray α) :=
  if i < arrayLength - 1 then do
    let a ← round arrayLength a i
    rounds arrayLength a (i + 1)
  else return a
termination_by (arrayLength - 1 - i).toNat

/-- The loop, for any array. -/
def main (a : IntArray α) : Traced (IntArray α) := rounds a.length a 0

/-! ## The states of the loops -/

/-- The inner loop of `buildMaxHeap data lastIndex` comes to its test with this array, `i` and `k`. -/
inductive AtTest (data : IntArray α) (lastIndex : ℤ) : IntArray α → ℤ → ℤ → Prop
  | start (h : 0 ≤ firstParent lastIndex) :
      AtTest data lastIndex data (firstParent lastIndex) (firstParent lastIndex)
  | sink {d d' : IntArray α} {i k : ℤ} {b : {b : ℤ // k < b ∧ b + 1 < 2 ^ 31}} (h : AtTest data lastIndex d i k)
      (htest : wrap (k * 2 + 1) ≤ lastIndex) (hstep : (siftStep lastIndex d k).result = .ok (d', some b)) :
      AtTest data lastIndex d' i b
  | next {d d' : IntArray α} {i k : ℤ} (h : AtTest data lastIndex d i k)
      (hsift : (sift lastIndex d k).result = .ok d') (hi : 0 ≤ i - 1) : AtTest data lastIndex d' (i - 1) (i - 1)

/-- The loop of `main` comes to its test with this array and `i`. -/
inductive AtRound (a : IntArray α) : IntArray α → ℤ → Prop
  | start : AtRound a a 0
  | next {b c : IntArray α} {i : ℤ} (h : AtRound a b i) (htest : i < a.length - 1)
      (hround : (round a.length b i).result = .ok c) : AtRound a c (i + 1)

/-- The element at `k` is smaller than its greater child, which is at `b`. -/
structure Sinks [Inhabited α] (data : IntArray α) (lastIndex k b : ℤ) : Prop where
  child : b = 2 * k + 1 ∧ (2 * k + 2 ≤ lastIndex → data.entry (2 * k + 2) ≤ data.entry (2 * k + 1)) ∨
    b = 2 * k + 2 ∧ data.entry (2 * k + 1) < data.entry (2 * k + 2)
  le_last : b ≤ lastIndex
  smaller : data.entry k < data.entry b

/-- No element sinks to an index the double of which is out of the range of `int`. -/
def Shallow [Inhabited α] (data : IntArray α) (lastIndex : ℤ) : Prop :=
  ∀ d i k b, AtTest data lastIndex d i k → Sinks d lastIndex k b → b < 2 ^ 30

end MyDemo.Sort.HeapSort

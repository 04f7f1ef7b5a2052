import MyDemo.Sort.HeapSort

/-!
# Heap construction with exact indices

`HeapSort.buildMaxHeap` of `Sort.java` again, with indices that are integers of any size.
-/

namespace MyDemo.Sort.HeapSort.Exact

variable {α : Type} [LinearOrder α]

/-- `biggerIndex`, the index of the greater child, once it is settled. -/
def biggerIndex (data : IntArray α) (lastIndex k : ℤ) :
    Traced {b : ℤ // b = 2 * k + 1 ∨ b = 2 * k + 1 + 1} :=
  let left := 2 * k + 1
  let right := left + 1
  if left < lastIndex then do
    let ⟨x, _⟩ ← data.get left
    let ⟨y, _⟩ ← data.get right
    if x < y then return ⟨right, .inr rfl⟩ else return ⟨left, .inl rfl⟩
  else return ⟨left, .inl rfl⟩

/-- The body of the inner loop. It leaves the next `k`, if the loop goes on. -/
def siftStep (lastIndex : ℤ) (data : IntArray α) (k : ℤ) :
    Traced (IntArray α × Option {b : ℤ // k < b ∧ b + 1 < 2 ^ 31}) := do
  let ⟨bigger, hbigger⟩ ← biggerIndex data lastIndex k
  let ⟨x, hk⟩ ← data.get k
  let ⟨y, hvalid⟩ ← data.get bigger
  if x < y then do
    let data ← swap data k bigger
    return (data, some ⟨bigger, by omega⟩)
  else return (data, none)

/-- The inner loop. -/
def sift (lastIndex : ℤ) (data : IntArray α) (k : ℤ) : Traced (IntArray α) :=
  if k * 2 + 1 ≤ lastIndex then do
    let (data, next) ← siftStep lastIndex data k
    match next with
    | none => return data
    | some ⟨bigger, _⟩ => sift lastIndex data bigger
  else return data
termination_by (2 ^ 31 - k).toNat
decreasing_by omega

/-- The outer loop. -/
def build (lastIndex : ℤ) (data : IntArray α) (i : ℤ) : Traced (IntArray α) :=
  if i ≥ 0 then do
    let data ← sift lastIndex data i
    build lastIndex data (i - 1)
  else return data
termination_by (i + 1).toNat

def buildMaxHeap (data : IntArray α) (lastIndex : ℤ) : Traced (IntArray α) :=
  build lastIndex data ((lastIndex - 1).tdiv 2)

/-- The body of the loop of `main`. -/
def round (arrayLength : ℤ) (a : IntArray α) (i : ℤ) : Traced (IntArray α) := do
  let a ← buildMaxHeap a (arrayLength - 1 - i)
  swap a 0 (arrayLength - 1 - i)

/-- The loop of `main` comes to its test with this array and `i`. -/
inductive AtRound (a : IntArray α) : IntArray α → ℤ → Prop
  | start : AtRound a a 0
  | next {b c : IntArray α} {i : ℤ} (h : AtRound a b i) (htest : i < a.length - 1)
      (hround : (round a.length b i).result = .ok c) : AtRound a c (i + 1)

/-- The heap is built without a change at the indices from `2 ^ 30` on, the doubles of which are out of the range
of `int`. -/
def InPlace (data : IntArray α) (lastIndex : ℤ) : Prop :=
  ∀ data', (buildMaxHeap data lastIndex).result = .ok data' →
    data'.elems.drop (2 ^ 30) = data.elems.drop (2 ^ 30)

end MyDemo.Sort.HeapSort.Exact

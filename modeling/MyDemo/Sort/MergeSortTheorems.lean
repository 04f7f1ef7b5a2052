import MyDemo.Lib.SortedList
import MyDemo.Lib.StrictMergeSort
import MyDemo.Sort.Lemmas.Merge
import Mathlib.Data.Int.Order.Basic

/-!
# Merge sort sorts the segment it is given
-/

namespace MyDemo.Sort

open JArray

section

variable {α : Type} [LT α] [DecidableLT α] [Inhabited α]

/-- `sort` does to its segment what `List.mergeSort` does to a list, by the strict order. -/
theorem sort_spec (low : ℕ) (high : ℤ) (before segment after : List α) (hlow : low = before.length)
    (hhigh : high = before.length + segment.length - 1) :
    sort (before ++ segment ++ after) low high = .ok (before ++ segment.mergeSort (· < ·) ++ after) := by
  induction hn : segment.length using Nat.strongRecOn generalizing before segment after low high with
  | ind n ih =>
  by_cases htwo : 2 ≤ segment.length
  · rw [List.mergeSort_of_two_le _ htwo]
    generalize hhalf : (segment.length + 1) / 2 = half
    have hleftLength : (segment.take half).length = half := by rw [List.length_take]; omega
    have hrightLength : (segment.drop half).length = segment.length - half := List.length_drop
    have harray : before ++ segment ++ after =
        before ++ segment.take half ++ (segment.drop half ++ after) := by
      simp [← List.append_assoc (segment.take half)]
    rw [harray]
    generalize segment.take half = left at *
    generalize segment.drop half = right at *
    have hmid : (low + high).tdiv 2 = before.length + left.length - 1 := by
      rw [Int.tdiv_eq_ediv_of_nonneg (by omega)]
      omega
    have hleft := ih left.length (by omega) low _ before left (right ++ after) hlow hmid rfl
    have hright := ih right.length (by omega) ((low + high).tdiv 2 + 1).toNat high
      (before ++ left.mergeSort (· < ·)) right after (by simp; omega) (by simp; omega) rfl
    have hmerge := merge_spec low ((low + high).tdiv 2) high before (left.mergeSort (· < ·))
      (right.mergeSort (· < ·)) after (by omega) (by simp; omega) (by simp; omega)
    rw [sort, if_pos (by omega), hleft, Exn.ok_bind, ← List.append_assoc, hright, Exn.ok_bind,
      List.append_assoc before, hmerge]
  · have hsorted : segment.mergeSort (· < ·) = segment := by
      match segment with
      | [] => simp
      | [x] => simp
      | x :: y :: rest => simp at htwo
    rw [sort, if_neg (by omega), hsorted]
    rfl

theorem sort_all (nums : List α) : sort nums 0 (nums.length - 1) = .ok (nums.mergeSort (· < ·)) := by
  have hsort := sort_spec 0 (nums.length - 1) [] nums [] rfl (by rw [List.length_nil, Int.natCast_zero, Int.zero_add])
  rwa [List.nil_append, List.append_nil, List.nil_append, List.append_nil] at hsort

end

variable {α : Type} [LinearOrder α] [Inhabited α]

/-- `sort nums low high` comes to its end without an exception: the elements from `low` to `high` are in
order then, and the others are where they were. For an empty array nothing happens. -/
theorem sort_sorts : (∀ (nums : List α) (low high : ℕ), low ≤ high → high < nums.length →
    ∃ sorted, sort nums low high = .ok (nums.take low ++ sorted ++ nums.drop (high + 1)) ∧
      sorted.Pairwise (· ≤ ·) ∧ sorted.Perm ((nums.take (high + 1)).drop low)) ∧
    sort ([] : List α) 0 (-1) = .ok [] := by
  refine ⟨fun nums low high hle hlt => ?_, ?_⟩
  · have harray : nums = nums.take low ++ (nums.take (high + 1)).drop low ++ nums.drop (high + 1) := by
      have htake : (nums.take (high + 1)).take low = nums.take low := by
        rw [List.take_take, Nat.min_eq_left (by omega)]
      rw [← htake, List.take_append_drop, List.take_append_drop]
    have hsort := sort_spec low high (nums.take low) ((nums.take (high + 1)).drop low)
      (nums.drop (high + 1)) (by simp; omega) (by simp; omega)
    rw [← harray] at hsort
    exact ⟨_, hsort, List.pairwise_mergeSort_lt id _, List.mergeSort_perm _ _⟩
  · simpa using sort_spec 0 (-1) ([] : List α) [] [] rfl (by simp)

theorem sort_sorts_middle : ∃ sorted, sort [5, 3, 1, 2] 1 2 = .ok ([(5 : ℤ)] ++ sorted ++ [2]) ∧
    sorted.Pairwise (· ≤ ·) ∧ sorted.Perm [3, 1] :=
  sort_sorts.1 [5, 3, 1, 2] 1 2 (by decide) (by decide)

/-! ## Elements with the same key -/

variable {κ β : Type} [LinearOrder κ] [Inhabited (Tagged κ β)]

/-- They come out in reverse order. -/
theorem sort_reverses (nums : List (Tagged κ β)) : ∃ sorted, sort nums 0 (nums.length - 1) = .ok sorted ∧
    ∀ k, sorted.filter (·.key = k) = (nums.filter (·.key = k)).reverse :=
  ⟨_, sort_all nums, List.filter_mergeSort_lt Tagged.key nums⟩

/-- The order is kept where it shows no difference. If no element occurs twice, no key may occur twice. -/
theorem sort_stable_iff (nums : List (Tagged κ β)) : ∃ sorted, sort nums 0 (nums.length - 1) = .ok sorted ∧
    (List.Stable Tagged.key nums sorted ↔ ∀ k, (nums.filter (·.key = k)).reverse = nums.filter (·.key = k)) ∧
    (nums.Nodup → (List.Stable Tagged.key nums sorted ↔ (nums.map Tagged.key).Nodup)) := by
  obtain ⟨sorted, hsort, hreverses⟩ := sort_reverses nums
  have hstable : List.Stable Tagged.key nums sorted ↔
      ∀ k, (nums.filter (·.key = k)).reverse = nums.filter (·.key = k) :=
    forall_congr' fun k => by rw [hreverses k]
  refine ⟨sorted, hsort, hstable, fun hnodup => ?_⟩
  rw [hstable, List.reversed_iff hnodup]

instance : Inhabited (Tagged ℤ ℕ) := ⟨⟨0, 0⟩⟩

/-- Of two equal elements the second comes first. -/
theorem sort_not_stable : ¬ ∃ sorted, sort [Tagged.mk (1 : ℤ) 0, Tagged.mk 1 1] 0 1 = .ok sorted ∧
    List.Stable Tagged.key [Tagged.mk (1 : ℤ) 0, Tagged.mk 1 1] sorted := by
  rintro ⟨sorted, hsort, hstable⟩
  obtain ⟨sorted', hsort', hreverses⟩ := sort_reverses [Tagged.mk (1 : ℤ) 0, Tagged.mk 1 1]
  cases hsort.symm.trans hsort'
  have hsame := (hstable 1).symm.trans (hreverses 1)
  simp at hsame

end MyDemo.Sort

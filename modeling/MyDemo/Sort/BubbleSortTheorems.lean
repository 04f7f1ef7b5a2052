import MyDemo.Sort.BubbleSort
import MyDemo.Lib.SortedList

/-!
# Bubble sort sorts, from the end of the array on
-/

namespace MyDemo.Sort

open JArray CountingLoop

variable {α : Type} [LinearOrder α]

theorem bubble_spec {pre post : List α} {x y : α} {j : ℤ} (hj : j = pre.length) :
    bubble (pre ++ x :: y :: post) j =
      .ok (if y < x then pre ++ y :: x :: post else pre ++ x :: y :: post) := by
  have hy : get (pre ++ x :: y :: post) (j + 1) = .ok y := by
    rw [List.append_cons]
    exact get_append (by simp [hj])
  rw [bubble, get_append hj, Exn.ok_bind, hy, Exn.ok_bind]
  split
  · have hswap : swap (pre ++ x :: ([] ++ y :: post)) j (j + 1) = _ := swap_append hj (by simp [hj])
    exact hswap
  · rfl

/-- The inner loop stands at `j`, where a greatest element of those up to there is. -/
def Carried (front tail : List α) (j : ℤ) (numbers : List α) : Prop :=
  ∃ pre m post, numbers = pre ++ m :: (post ++ tail) ∧ j = pre.length ∧
    (pre ++ m :: post).Perm front ∧ ∀ a ∈ pre, a ≤ m

theorem Carried.step {front tail numbers : List α} {j : ℤ} (h : Carried front tail j numbers)
    (hj : j + 1 < front.length) : ∃ numbers', bubble numbers j = .ok numbers' ∧
      Carried front tail (j + 1) numbers' := by
  obtain ⟨pre, m, post, rfl, hpre, hperm, hle⟩ := h
  have hlength := hperm.length_eq
  rw [List.length_append, List.length_cons] at hlength
  obtain ⟨y, post, rfl⟩ := List.exists_cons_of_length_pos (by omega : 0 < post.length)
  rw [List.cons_append, bubble_spec hpre]
  split
  · next hym =>
      refine ⟨_, rfl, pre ++ [y], m, post, by simp, by simp [hpre], ?_, fun a ha => ?_⟩
      · rw [List.append_assoc]
        exact ((List.Perm.swap m y post).append_left pre).trans hperm
      · rcases List.mem_append.mp ha with ha | ha
        · exact hle a ha
        · exact List.mem_singleton.mp ha ▸ hym.le
  · next hym =>
      refine ⟨_, rfl, pre ++ [m], y, post, by simp, by simp [hpre], by simpa using hperm, fun a ha => ?_⟩
      rcases List.mem_append.mp ha with ha | ha
      · exact (hle a ha).trans (le_of_not_gt hym)
      · exact List.mem_singleton.mp ha ▸ le_of_not_gt hym

/-- The inner loop carries a greatest element to the end of the part that is not settled. -/
theorem bubbleRound_spec (size i : ℤ) (front tail : List α) (hfront : front ≠ [])
    (hsize : size = front.length + tail.length) (hi : i = tail.length) :
    ∃ front' m, bubbleRound size (front ++ tail) i = .ok (front' ++ m :: tail) ∧
      (front' ++ [m]).Perm front ∧ ∀ a ∈ front', a ≤ m := by
  obtain ⟨x, rest, rfl⟩ := List.exists_cons_of_ne_nil hfront
  have hstart : Carried (x :: rest) tail 0 (x :: rest ++ tail) := ⟨[], x, rest, rfl, rfl, .refl _, nofun⟩
  obtain ⟨s, hs, pre, m, post, rfl, hj, hperm, hle⟩ :
      ∃ s, bubbleRound size (x :: rest ++ tail) i = .ok s ∧ Carried (x :: rest) tail _ s :=
    countUp_invariant (Carried (x :: rest) tail) hstart fun j s _ hlt hcarried => hcarried.step (by omega)
  have hlength := hperm.length_eq
  simp only [List.length_append, List.length_cons] at hlength hsize
  obtain rfl : post = [] := List.length_eq_zero_iff.mp (by omega)
  exact ⟨pre, m, hs, hperm, hle⟩

/-- One element is settled in each round. -/
theorem bubbleRounds_spec (numbers : List α) (i : ℤ) (hi : i ≤ numbers.length) :
    ∃ front tail, bubbleRounds numbers i = .ok (front ++ tail) ∧ List.Settled numbers front tail ∧
      tail.length = max 0 i := by
  obtain ⟨s, hs, front, tail, rfl, hsettled, hlength⟩ : ∃ s, bubbleRounds numbers i = .ok s ∧
      ∃ front tail, s = front ++ tail ∧ List.Settled numbers front tail ∧ (tail.length : ℤ) = max 0 i := by
    refine countUp_invariant (fun i s => ∃ front tail, s = front ++ tail ∧ List.Settled numbers front tail ∧
      (tail.length : ℤ) = i) ⟨numbers, [], by simp, .start numbers, rfl⟩ ?_
    rintro i s _ hlt ⟨front, tail, rfl, hsettled, hlength⟩
    have hsum := hsettled.length_eq
    obtain ⟨front', m, hround, hperm, hm⟩ := bubbleRound_spec numbers.length i front tail
      (List.ne_nil_of_length_pos (by omega)) (by omega) hlength.symm
    exact ⟨_, hround, front', m :: tail, rfl, hsettled.round hperm hm, by simp [hlength]⟩
  exact ⟨front, tail, hs, hsettled, hlength⟩

/-- It comes to its end without an exception, and after the round `i` the last `i + 1` elements do not change
any more. -/
theorem bubbleSort_sorts (numbers : List α) : ∃ sorted, bubbleSort numbers = .ok sorted ∧
    sorted.Pairwise (· ≤ ·) ∧ sorted.Perm numbers ∧ ∀ i : ℕ, i + 1 < numbers.length →
      ∃ settled, bubbleRounds numbers (i + 1) = .ok settled ∧
        settled.drop (numbers.length - (i + 1)) = sorted.drop (numbers.length - (i + 1)) := by
  obtain ⟨front, tail, hrun, hsettled, hlength⟩ := bubbleRounds_spec numbers (numbers.length - 1) (by omega)
  have hsum := hsettled.length_eq
  have hsorted : (front ++ tail).Pairwise (· ≤ ·) := hsettled.pairwise (by omega)
  refine ⟨front ++ tail, hrun, hsorted, hsettled.perm, fun i hi => ?_⟩
  obtain ⟨front', tail', hrun', hsettled', hlength'⟩ := bubbleRounds_spec numbers (i + 1) (by omega)
  have hsum' := hsettled'.length_eq
  have hfront' : numbers.length - (i + 1) = front'.length := by omega
  refine ⟨_, hrun', ?_⟩
  rw [hfront', List.drop_left, List.drop_eq_of_le hsettled'.le hsettled'.sorted hsorted
    (hsettled.perm.trans hsettled'.perm.symm)]

end MyDemo.Sort

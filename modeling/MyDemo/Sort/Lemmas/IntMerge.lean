import MyDemo.Sort.IntMergeSort
import MyDemo.Sort.MergeSort

/-!
# The merge sort of the machine does what the one with mathematical integers does

Where it comes to its end, no index has wrapped around on the way.
-/

namespace MyDemo.Sort.IntArray

open Logged

variable {α : Type} {xs ys : IntArray α} {a : α} {i : ℤ}

theorem get_refines {x} (h : (xs.get i).result = .ok x) : JArray.get xs.elems i = .ok x.1 := by
  simp only [get] at h
  split at h
  · next hi =>
      cases h
      exact JArray.get_of_getElem? (n := i.toNat) (List.getElem?_eq_getElem (by omega)) (by omega)
  · cases h

theorem set_refines (h : (xs.set i a).result = .ok ys) :
    JArray.set xs.elems i a = .ok ys.elems ∧ 0 ≤ i ∧ i + 1 < 2 ^ 31 := by
  have hlength := xs.length_lt
  simp only [set] at h
  split at h
  · next hi =>
      cases h
      exact ⟨JArray.set_eq hi.1 hi.2, by omega⟩
  · cases h

/-! ## merge -/

variable {nums temp temp' nums' : IntArray α} {low mid high last j k i' j' k' : ℤ}

theorem takeSmaller_refines [LT α] [DecidableLT α]
    (h : (takeSmaller nums mid high temp i j k).result = .ok (temp', i', j', k')) :
    Sort.takeSmaller nums.elems mid high temp.elems i j k = .ok (temp'.elems, i', j', k') := by
  induction hn : (mid + 1 - i).toNat + (high + 1 - j).toNat using Nat.strongRecOn generalizing temp i j k with
  | ind n ih =>
  rw [takeSmaller] at h
  rw [Sort.takeSmaller]
  split at h
  · next htest =>
      obtain ⟨x, hx, h⟩ := result_bind_eq_ok.mp h
      obtain ⟨y, hy, h⟩ := result_bind_eq_ok.mp h
      have hi := x.2
      have hj := y.2
      rw [if_pos htest, get_refines hx, Exn.ok_bind, get_refines hy, Exn.ok_bind]
      dsimp only at h
      split at h
      · next hxy =>
          obtain ⟨temp₁, hset, h⟩ := result_bind_eq_ok.mp h
          obtain ⟨hset, hk⟩ := set_refines hset
          rw [wrap_eq (by omega) hi.2, wrap_eq (by omega) hk.2] at h
          rw [if_pos hxy, hset, Exn.ok_bind]
          exact ih _ (by omega) h rfl
      · next hxy =>
          obtain ⟨temp₁, hset, h⟩ := result_bind_eq_ok.mp h
          obtain ⟨hset, hk⟩ := set_refines hset
          rw [wrap_eq (by omega) hj.2, wrap_eq (by omega) hk.2] at h
          rw [if_neg hxy, hset, Exn.ok_bind]
          exact ih _ (by omega) h rfl
  · next htest =>
      cases h
      rw [if_neg htest]
      rfl

theorem copyRest_refines (h : (copyRest nums last temp i k).result = .ok (temp', k')) :
    Sort.copyRest nums.elems last temp.elems i k = .ok (temp'.elems, k') := by
  induction hn : (last + 1 - i).toNat generalizing temp i k with
  | zero =>
      rw [copyRest, if_neg (by omega)] at h
      cases h
      rw [Sort.copyRest, if_neg (by omega)]
      rfl
  | succ n ih =>
      rw [copyRest, if_pos (by omega)] at h
      obtain ⟨x, hx, h⟩ := result_bind_eq_ok.mp h
      obtain ⟨temp₁, hset, h⟩ := result_bind_eq_ok.mp h
      obtain ⟨hset, hk⟩ := set_refines hset
      have hi := x.2
      rw [wrap_eq (by omega) hi.2, wrap_eq (by omega) hk.2] at h
      rw [Sort.copyRest, if_pos (by omega), get_refines hx, Exn.ok_bind, hset, Exn.ok_bind]
      exact ih h (by omega)

theorem copyBack_refines (hlow : 0 ≤ low ∧ low < 2 ^ 31) (h : (copyBack nums low temp k).result = .ok nums') :
    Sort.copyBack nums.elems low temp.elems k = .ok nums'.elems := by
  induction hn : (temp.length - k).toNat generalizing nums k with
  | zero =>
      rw [copyBack, if_neg (by omega)] at h
      cases h
      rw [length] at hn
      rw [Sort.copyBack, if_neg (by omega)]
      rfl
  | succ n ih =>
      rw [copyBack, if_pos (by omega)] at h
      obtain ⟨x, hx, h⟩ := result_bind_eq_ok.mp h
      obtain ⟨nums₁, hset, h⟩ := result_bind_eq_ok.mp h
      obtain ⟨hset, hindex⟩ := set_refines hset
      have hk := x.2
      have hplace : wrap (k + low) = k + low := by
        have hcases := wrap_cases (k + low) (by omega) (by omega)
        omega
      rw [hplace] at hset
      rw [wrap_eq (by omega) hk.2] at h
      rw [length] at hn
      rw [Sort.copyBack, if_pos (by omega), get_refines hx, Exn.ok_bind, hset, Exn.ok_bind]
      exact ih h (by rw [length]; omega)

theorem new_refines [Inhabited α] {n : ℤ} (h : (new n).result = .ok xs) :
    0 ≤ n ∧ xs.elems = List.replicate n.toNat (default : α) := by
  rw [new] at h
  split at h
  · next hn =>
      cases h
      exact ⟨hn.1, rfl⟩
  · cases h

variable [LT α] [DecidableLT α] [Inhabited α]

theorem merge_refines (hlow : 0 ≤ low) (hmid : low ≤ mid ∧ mid ≤ high) (hhigh : high + 1 < 2 ^ 31)
    (h : (merge nums low mid high).result = .ok nums') :
    Sort.merge nums.elems low mid high = .ok nums'.elems := by
  obtain ⟨temp, hnew, h⟩ := result_bind_eq_ok.mp h
  obtain ⟨⟨temp₁, i, j, k⟩, htake, h⟩ := result_bind_eq_ok.mp h
  obtain ⟨⟨temp₂, k₂⟩, hleft, h⟩ := result_bind_eq_ok.mp h
  obtain ⟨⟨temp₃, k₃⟩, hright, h⟩ := result_bind_eq_ok.mp h
  rw [wrap_eq (by omega) (by omega)] at hnew htake
  have htake' := takeSmaller_refines htake
  rw [(new_refines hnew).2] at htake'
  simp only [Sort.merge, Exn.bind_eq_ok]
  exact ⟨_, htake', _, copyRest_refines hleft, _, copyRest_refines hright, copyBack_refines ⟨hlow, by omega⟩ h⟩

/-! ## sort -/

/-- A segment that begins before the array cannot be merged. -/
theorem merge_of_neg (hlow : low < 0) (hmid : low ≤ mid) : (merge nums low mid high).result ≠ .ok nums' := by
  intro h
  obtain ⟨temp, -, h⟩ := result_bind_eq_ok.mp h
  obtain ⟨⟨temp₁, i, j, k⟩, htake, h⟩ := result_bind_eq_ok.mp h
  obtain ⟨⟨temp₂, k₂⟩, hleft, -⟩ := result_bind_eq_ok.mp h
  rw [takeSmaller] at htake
  split at htake
  · obtain ⟨x, -, -⟩ := result_bind_eq_ok.mp htake
    exact absurd x.2.1 (by omega)
  · cases htake
    rw [copyRest, if_pos hmid] at hleft
    obtain ⟨x, -, -⟩ := result_bind_eq_ok.mp hleft
    exact absurd x.2.1 (by omega)

/-- The two halves and the merge have gone well. -/
theorem result_of_sort {depth : ℕ} (hlt : low < high) (h : (sort (depth + 1) nums low high).result = .ok nums') :
    ∃ nums₁ nums₂, (sort depth nums low ((wrap (low + high)).tdiv 2)).result = .ok nums₁ ∧
      (sort depth nums₁ (wrap ((wrap (low + high)).tdiv 2 + 1)) high).result = .ok nums₂ ∧
      (merge nums₂ low ((wrap (low + high)).tdiv 2) high).result = .ok nums' := by
  rw [sort] at h
  obtain ⟨_, -, h⟩ := result_bind_eq_ok.mp h
  rw [if_pos hlt] at h
  obtain ⟨nums₁, hleft, h⟩ := result_bind_eq_ok.mp h
  obtain ⟨nums₂, hright, hmerge⟩ := result_bind_eq_ok.mp h
  exact ⟨nums₁, nums₂, hleft, hright, hmerge⟩

theorem sort_of_neg {depth : ℕ} (hlow : -2 ^ 30 ≤ low ∧ low < 0) (hlt : low < high) (hhigh : high + 1 < 2 ^ 31) :
    (sort depth nums low high).result ≠ .ok nums' := by
  intro h
  cases depth with
  | zero => cases h
  | succ depth =>
      obtain ⟨nums₁, nums₂, -, -, hmerge⟩ := result_of_sort hlt h
      have hhalf := tdiv_two_bounds (low + high)
      rw [wrap_eq (by omega) (by omega)] at hmerge
      exact merge_of_neg hlow.2 (by omega) hmerge

/-- Where a midpoint wraps around that is used, there is no result. -/
theorem sort_refines {depth : ℕ} (hlow : 0 ≤ low ∧ low ≤ high + 1) (hhigh : high + 1 < 2 ^ 31)
    (h : (sort depth nums low high).result = .ok nums') :
    Sort.sort nums.elems low.toNat high = .ok nums'.elems := by
  induction depth generalizing nums nums' low high with
  | zero => cases h
  | succ depth ih =>
      obtain hle | hlt : high ≤ low ∨ low < high := by omega
      · rw [sort] at h
        obtain ⟨_, -, h⟩ := result_bind_eq_ok.mp h
        rw [if_neg (by omega)] at h
        cases h
        rw [Sort.sort, if_neg (by omega)]
        rfl
      · obtain ⟨nums₁, nums₂, hleft, hright, hmerge⟩ := result_of_sort hlt h
        by_cases hsum : low + high < 2 ^ 31
        · have hhalf := tdiv_two_bounds (low + high)
          rw [wrap_eq (by omega) hsum] at hleft hright hmerge
          rw [wrap_eq (by omega) (by omega)] at hright
          have hcast : ((low.toNat : ℤ) + high).tdiv 2 = (low + high).tdiv 2 := by rw [Int.toNat_of_nonneg hlow.1]
          have hl := ih (by omega) (by omega) hleft
          have hr := ih (by omega) hhigh hright
          have hm := merge_refines hlow.1 (by omega) hhigh hmerge
          rw [Sort.sort, if_pos (by omega), hcast, hl, Exn.ok_bind, hr, Exn.ok_bind, Int.toNat_of_nonneg hlow.1]
          exact hm
        · have hhalf := tdiv_two_bounds (low + high - 2 ^ 32)
          rw [wrap_of_le (n := low + high) (by omega) (by omega), wrap_eq (by omega) (by omega)] at hright
          exact absurd hright (sort_of_neg (by omega) (by omega) hhigh)

end MyDemo.Sort.IntArray

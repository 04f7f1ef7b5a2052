import MyDemo.Sort.Lemmas.IntMerge
import MyDemo.Sort.MergeSortTheorems

/-!
# When the midpoints and the indices of merge sort are right
-/

namespace MyDemo.Sort

open Logged

/-- A midpoint lies between the ends, and an index in an array of `n` elements. -/
def Event.InRange (n : ℤ) : Event → Prop
  | .index i => 0 ≤ i ∧ i ≤ n - 1
  | .midpoint low mid high => low ≤ mid ∧ mid ≤ high

namespace IntArray

variable {α : Type} {n low mid high : ℤ} {E : Thrown → Prop}

/-! ## merge -/

theorem copyRest_meets (nums temp : IntArray α) (last i k : ℤ) (hnums : last < nums.length)
    (hn : nums.length ≤ n) (hi : 0 ≤ i) (hile : i ≤ last + 1) (hk : 0 ≤ k)
    (hroom : k + (last + 1 - i) ≤ temp.length) (htemp : temp.length ≤ n) :
    (copyRest nums last temp i k).Meets (Event.InRange n) E
      fun r => r.1.length = temp.length ∧ r.2 = k + (last + 1 - i) := by
  have hbound := temp.length_lt'
  fun_induction copyRest nums last temp i k with
  | case1 temp i k hle ih =>
      refine .bind (meets_get hi (by omega) ⟨hi, by omega⟩) fun ⟨x, hvalid⟩ _ => ?_
      refine .bind (meets_set hk (by omega) ⟨hk, by omega⟩) fun temp' htemp' => ?_
      rw [wrap_eq (by omega) hvalid.2, wrap_eq (n := k + 1) (by omega) (by omega)] at *
      refine (ih hvalid temp' (by omega) (by omega) (by omega) (by omega) (by omega) (by omega)).imp_ok
        fun r hr => ?_
      exact ⟨hr.1.trans htemp', by omega⟩
  | case2 temp i k hgt => exact .pure ⟨rfl, by simp only []; omega⟩

theorem copyBack_meets (nums temp : IntArray α) (k2 : ℤ) (hlow : 0 ≤ low)
    (hhigh : low + temp.length ≤ nums.length) (hn : nums.length ≤ n) (hk : 0 ≤ k2) :
    (copyBack nums low temp k2).Meets (Event.InRange n) E fun nums' => nums'.length = nums.length := by
  have hbound := nums.length_lt'
  fun_induction copyBack nums low temp k2 with
  | case1 nums k2 hlt ih =>
      refine .bind (meets_get hk hlt ⟨hk, by omega⟩) fun ⟨x, hvalid⟩ _ => ?_
      rw [wrap_eq (n := k2 + low) (by omega) (by omega), wrap_eq (by omega) hvalid.2] at *
      refine .bind (meets_set (by omega) (by omega) ⟨by omega, by omega⟩) fun nums' hnums' => ?_
      exact (ih hvalid nums' (by omega) (by omega) (by omega) (by omega)).imp_ok fun _ hr => hr.trans hnums'
  | case2 nums k2 hge => exact .pure rfl

variable [LT α] [DecidableLT α]

theorem takeSmaller_meets (nums temp : IntArray α) (i j k : ℤ) (hmid : mid < nums.length)
    (hhigh : high < nums.length) (hn : nums.length ≤ n) (hi : 0 ≤ i) (hile : i ≤ mid + 1) (hj : 0 ≤ j)
    (hjle : j ≤ high + 1) (hk : 0 ≤ k) (hroom : k + (mid + 1 - i) + (high + 1 - j) ≤ temp.length)
    (htemp : temp.length ≤ n) : (takeSmaller nums mid high temp i j k).Meets (Event.InRange n) E
      fun (temp', i', j', k') => temp'.length = temp.length ∧ i ≤ i' ∧ i' ≤ mid + 1 ∧ j ≤ j' ∧ j' ≤ high + 1 ∧
        k' = k + (i' - i) + (j' - j) := by
  have hbound := temp.length_lt'
  fun_induction takeSmaller nums mid high temp i j k with
  | case1 temp i j k hle ih₁ ih₂ =>
      refine .bind (meets_get hi (by omega) ⟨hi, by omega⟩) fun ⟨x, hvalid⟩ _ => ?_
      refine .bind (meets_get hj (by omega) ⟨hj, by omega⟩) fun ⟨y, hvalid'⟩ _ => ?_
      rw [wrap_eq (n := i + 1) (by omega) hvalid.2, wrap_eq (n := j + 1) (by omega) hvalid'.2,
        wrap_eq (n := k + 1) (by omega) (by omega)] at *
      dsimp only
      split
      · refine .bind (meets_set hk (by omega) ⟨hk, by omega⟩) fun temp' htemp' => ?_
        refine (ih₁ hvalid temp' (by omega) (by omega) (by omega) (by omega) (by omega) (by omega) (by omega)
          (by omega)).imp_ok fun (temp'', i', j', k') hr => ?_
        dsimp only at hr ⊢
        omega
      · refine .bind (meets_set hk (by omega) ⟨hk, by omega⟩) fun temp' htemp' => ?_
        refine (ih₂ hvalid' temp' (by omega) (by omega) (by omega) (by omega) (by omega) (by omega) (by omega)
          (by omega)).imp_ok fun (temp'', i', j', k') hr => ?_
        dsimp only at hr ⊢
        omega
  | case2 temp i j k hgt =>
      exact .pure ⟨rfl, Int.le_refl i, hile, Int.le_refl j, hjle, by omega⟩

theorem merge_meets [Inhabited α] (nums : IntArray α) (hlow : 0 ≤ low) (hmid : low ≤ mid) (hhigh : mid < high)
    (hlt : high < nums.length) :
    (merge nums low mid high).Meets (Event.InRange nums.length) E fun nums' => nums'.length = nums.length := by
  have hbound := nums.length_lt'
  rw [merge, wrap_eq (n := high - low + 1) (by omega) (by omega), wrap_eq (n := mid + 1) (by omega) (by omega)]
  refine .bind (meets_new (by omega) (by omega)) fun temp htemp => ?_
  refine .bind (takeSmaller_meets nums temp low (mid + 1) 0 (by omega) hlt (Int.le_refl _) hlow (by omega)
    (by omega) (by omega) (Int.le_refl 0) (by omega) (by omega)) fun (temp₁, i, j, k) hr => ?_
  dsimp only at hr
  refine .bind (copyRest_meets nums temp₁ mid i k (by omega) (Int.le_refl _) (by omega) (by omega) (by omega)
    (by omega) (by omega)) fun (temp₂, k') hr' => ?_
  dsimp only at hr'
  refine .bind (copyRest_meets nums temp₂ high j k' hlt (Int.le_refl _) (by omega) (by omega) (by omega)
    (by omega) (by omega)) fun (temp₃, _) hr'' => ?_
  dsimp only at hr''
  exact copyBack_meets nums temp₃ 0 hlow (by omega) (Int.le_refl _) (Int.le_refl 0)

/-! ## sort -/

variable [Inhabited α]

theorem midpoint_eq (hlow : 0 ≤ low) (hhigh : 0 ≤ high) (hsum : low + high < 2 ^ 31) :
    (wrap (low + high)).tdiv 2 = (low + high) / 2 := by
  rw [wrap_eq (by omega) hsum, Int.tdiv_eq_ediv_of_nonneg (by omega)]

theorem midpoint_neg (hhigh : high + 1 < 2 ^ 31) (hlow : low ≤ high) (hsum : 2 ^ 31 ≤ low + high) :
    (wrap (low + high)).tdiv 2 < 0 := by
  have hhalf := tdiv_two_bounds (low + high - 2 ^ 32)
  rw [wrap_of_le hsum (by omega)]
  omega

/-- Up to the index `2 ^ 30 - 1`. The stack has to have room for as many calls as the segment can be halved. -/
theorem sort_meets (depth : ℕ) (nums : IntArray α) (low high : ℤ) (hlow : 0 ≤ low) (hle : low ≤ high)
    (hhigh : high < nums.length) (hsmall : high < 2 ^ 30) :
    (sort depth nums low high).Meets (Event.InRange nums.length)
      (fun e => e = .stackOverflow ∧ (depth = 0 ∨ 2 ^ (depth - 1) ≤ high - low))
      fun nums' => nums'.length = nums.length := by
  induction depth generalizing nums low high with
  | zero => exact .throw ⟨rfl, .inl rfl⟩
  | succ depth ih =>
      have hmid := midpoint_eq hlow (by omega : 0 ≤ high) (by omega)
      have hhalf : ∀ d, d ≤ (high - low) / 2 → low < high → depth = 0 ∨ 2 ^ (depth - 1) ≤ d →
          depth + 1 = 0 ∨ 2 ^ (depth + 1 - 1) ≤ high - low := by
        intro d hd hlt hroom
        refine .inr ?_
        cases depth with
        | zero => simp; omega
        | succ m =>
            rw [Nat.add_sub_cancel, Int.pow_succ]
            rw [Nat.add_sub_cancel] at hroom
            omega
      rw [sort, hmid]
      refine .bind (.tell (Q := fun _ => True) ⟨by omega, by omega⟩ trivial) fun _ _ => ?_
      split
      · next hlt =>
          refine .bind ((ih nums low ((low + high) / 2) hlow (by omega) (by omega) (by omega)).imp
            (fun e he => ⟨he.1, hhalf _ (by omega) hlt he.2⟩) fun _ h => h) fun nums₁ h₁ => ?_
          rw [← h₁, wrap_eq (by omega) (by omega)]
          refine .bind ((ih nums₁ ((low + high) / 2 + 1) high (by omega) (by omega) (by omega) hsmall).imp
            (fun e he => ⟨he.1, hhalf _ (by omega) hlt he.2⟩) fun _ h => h) fun nums₂ h₂ => ?_
          rw [← h₂]
          exact merge_meets nums₂ hlow (by omega) (by omega) (by omega)
      · exact .pure rfl

theorem sort_of_overflow (depth : ℕ) (nums : IntArray α) (hle : low ≤ high)
    (hhigh : high + 1 < 2 ^ 31) (hsum : 2 ^ 31 ≤ low + high) :
    ∃ o ∈ (sort (depth + 1) nums low high).log, ¬ o.InRange n := by
  refine ⟨.midpoint low ((wrap (low + high)).tdiv 2) high, ?_, fun h => ?_⟩
  · rw [sort]
    exact mem_log_bind (List.mem_singleton_self _)
  · have hneg := midpoint_neg hhigh hle hsum
    have hmid : low ≤ (wrap (low + high)).tdiv 2 := h.1
    omega

/-- The call on the right is reached once the one on the left has gone well. -/
theorem sort_continues (depth : ℕ) (nums nums' : IntArray α) (hlt : low < high)
    (h : (sort depth nums low ((wrap (low + high)).tdiv 2)).result = .ok nums') :
    Continues (sort (depth + 1) nums low high)
      (sort depth nums' (wrap ((wrap (low + high)).tdiv 2 + 1)) high >>= fun nums'' =>
        merge nums'' low ((wrap (low + high)).tdiv 2) high) := by
  rw [sort]
  refine (Continues.bind rfl _).trans ?_
  rw [if_pos hlt]
  exact .bind h _

/-- The rightmost calls come to a sum that wraps around. -/
theorem sort_overflows (depth : ℕ) (nums : IntArray α) (low high : ℤ) (hlow : 0 ≤ low) (hle : low ≤ high)
    (hhigh : high < nums.length) (hlarge : 2 ^ 30 ≤ high) (hdepth : high - low < 2 ^ depth) :
    ∃ o ∈ (sort (depth + 1) nums low high).log, ¬ o.InRange nums.length := by
  have hlength := nums.length_lt'
  induction depth generalizing nums low with
  | zero =>
      rw [Int.pow_zero] at hdepth
      exact sort_of_overflow 0 nums hle (by omega) (by omega)
  | succ depth ih =>
      by_cases hsum : 2 ^ 31 ≤ low + high
      · exact sort_of_overflow _ nums hle (by omega) hsum
      · have hmid := midpoint_eq hlow (by omega : 0 ≤ high) (by omega)
        rw [Int.pow_succ] at hdepth
        obtain ⟨nums', hleft, hlength'⟩ := (sort_meets (depth + 1) nums low ((low + high) / 2) hlow (by omega)
          (by omega) (by omega)).exists_ok fun e he => by rw [Nat.add_sub_cancel] at he; omega
        have hright := sort_continues (depth + 1) nums nums' (by omega : low < high) (hmid ▸ hleft)
        rw [hmid, wrap_eq (by omega) (by omega)] at hright
        obtain ⟨o, ho, hnot⟩ := ih nums' ((low + high) / 2 + 1) (by omega) (by omega) (by omega) (by omega)
          (by omega)
        exact ⟨o, hright.mem_log (mem_log_bind ho), hlength' ▸ hnot⟩

end IntArray

/-! ## The whole array -/

variable {α : Type} [LT α] [DecidableLT α] [Inhabited α]

/-- Whatever room the stack has. -/
theorem indices_in_range_iff (nums : IntArray α) (h : 1 ≤ nums.length) :
    (∀ depth, ∀ o ∈ (nums.sort depth 0 (nums.length - 1)).log, o.InRange nums.length) ↔
      nums.length ≤ 2 ^ 30 := by
  constructor
  · intro hrange
    by_contra hlarge
    have hlength := nums.length_lt'
    obtain ⟨o, ho, hnot⟩ := IntArray.sort_overflows 31 nums 0 (nums.length - 1) (by omega) (by omega) (by omega)
      (by omega) (by omega)
    exact hnot (hrange 32 o ho)
  · intro hsmall depth
    exact (IntArray.sort_meets depth nums 0 (nums.length - 1) (by omega) (by omega) (by omega) (by omega)).log

theorem indices_in_range_three :
    (∀ depth, ∀ o ∈ (IntArray.sort depth ⟨[3, 1, (2 : ℤ)], by decide⟩ 0 2).log, o.InRange 3) ↔
    (3 : ℤ) ≤ 2 ^ 30 :=
  indices_in_range_iff ⟨[3, 1, 2], by decide⟩ (by decide)

/-- The shortest array in which a midpoint wraps around. -/
def longZeros : IntArray ℤ := ⟨List.replicate (2 ^ 30 + 1) 0, by rw [List.length_replicate]; omega⟩

theorem longZeros_length : longZeros.length = 2 ^ 30 + 1 := by
  rw [longZeros, IntArray.length, List.length_replicate]
  omega

theorem longZeros_not_in_range :
    ¬ ∀ o ∈ (longZeros.sort 32 0 (longZeros.length - 1)).log, o.InRange longZeros.length := by
  intro hrange
  have hlength := longZeros_length
  obtain ⟨o, ho, hnot⟩ := IntArray.sort_overflows 31 longZeros 0 (longZeros.length - 1) (by omega) (by omega)
    (by omega) (by omega) (by omega)
  exact hnot (hrange o ho)

/-! ## The order -/

/-- However long the array is, it is sorted where there is no exception. -/
theorem sorted_of_ok {α : Type} [LinearOrder α] [Inhabited α] {depth : ℕ} {nums sorted : IntArray α}
    (h : (nums.sort depth 0 (nums.length - 1)).result = .ok sorted) :
    sorted.elems.Pairwise (· ≤ ·) ∧ sorted.elems.Perm nums.elems := by
  have hlength := nums.length_lt'
  have hnonneg : 0 ≤ nums.length := by
    rw [IntArray.length]
    omega
  have hrefines := IntArray.sort_refines (by omega) (by omega) h
  rw [Except.ok.inj (hrefines.symm.trans (sort_all nums.elems))]
  exact ⟨List.pairwise_mergeSort_lt id _, List.mergeSort_perm _ _⟩

end MyDemo.Sort

import MyDemo.Sort.HeapSort

/-!
# The states that the loops of buildMaxHeap come to

Whatever the elements are, and however deep the inner loop goes.
-/

namespace MyDemo.Sort.HeapSort

open Logged

variable {α : Type} {data data' data₀ : IntArray α} {lastIndex i j k : ℤ}

/-! ## Lengths and bounds -/

theorem swap_length (h : (swap data i j).result = .ok data') : data'.length = data.length := by
  obtain ⟨x, -, h⟩ := result_bind_eq_ok.mp h
  obtain ⟨y, -, h⟩ := result_bind_eq_ok.mp h
  obtain ⟨data₁, h₁, h⟩ := result_bind_eq_ok.mp h
  rw [IntArray.length_of_set h, IntArray.length_of_set h₁]

variable [LinearOrder α]

theorem siftStep_length {next} (h : (siftStep lastIndex data k).result = .ok (data', next)) :
    data'.length = data.length := by
  obtain ⟨b, -, h⟩ := result_bind_eq_ok.mp h
  obtain ⟨x, -, h⟩ := result_bind_eq_ok.mp h
  obtain ⟨y, -, h⟩ := result_bind_eq_ok.mp h
  dsimp only at h
  split at h
  · obtain ⟨data₁, hswap, h⟩ := result_bind_eq_ok.mp h
    cases h
    exact swap_length hswap
  · cases h
    rfl

theorem sift_length (hk : 0 ≤ k ∧ k < 2 ^ 31) (h : (sift lastIndex data k).result = .ok data') :
    data'.length = data.length := by
  induction hn : (2 ^ 31 - k).toNat using Nat.strongRecOn generalizing data k with
  | ind n ih =>
  rw [sift] at h
  split at h
  · obtain ⟨⟨data₁, next⟩, hstep, h⟩ := result_bind_eq_ok.mp h
    cases next with
    | none =>
        cases h
        exact siftStep_length hstep
    | some b =>
        have hb := b.2
        rw [ih (2 ^ 31 - b.1).toNat (by omega) (by omega) h rfl, siftStep_length hstep]
  · cases h
    rfl

theorem build_length (hi : i < 2 ^ 31) (h : (build lastIndex data i).result = .ok data') :
    data'.length = data.length := by
  induction hn : (i + 1).toNat generalizing data i with
  | zero =>
      rw [build, if_neg (by omega)] at h
      cases h
      rfl
  | succ n ih =>
      rw [build, if_pos (by omega)] at h
      obtain ⟨data₁, hsift, h⟩ := result_bind_eq_ok.mp h
      rw [ih (by omega) h (by omega), sift_length ⟨by omega, hi⟩ hsift]

theorem firstParent_eq (hlast : 0 < lastIndex) (hlt : lastIndex < 2 ^ 31) :
    firstParent lastIndex = (lastIndex - 1) / 2 := by
  rw [firstParent, wrap_eq (by omega) (by omega), Int.tdiv_eq_ediv_of_nonneg (by omega)]

theorem firstParent_bounds (hlast : 0 ≤ lastIndex) (hlt : lastIndex < 2 ^ 31) :
    0 ≤ firstParent lastIndex ∧ lastIndex ≤ 2 * firstParent lastIndex + 2 := by
  obtain rfl | hpos : lastIndex = 0 ∨ 0 < lastIndex := by omega
  · decide
  · rw [firstParent_eq hpos hlt]
    omega

theorem firstParent_lt (lastIndex : ℤ) : firstParent lastIndex < 2 ^ 30 := by
  have hbounds := wrap_bounds (lastIndex - 1)
  have hhalf := tdiv_two_bounds (wrap (lastIndex - 1))
  rw [firstParent]
  omega

theorem buildMaxHeap_length (h : (buildMaxHeap data lastIndex).result = .ok data') : data'.length = data.length := by
  have hfirst := firstParent_lt lastIndex
  exact build_length (by omega) h

/-! ## The states of the loops -/

theorem AtTest.bounds (h : AtTest data₀ lastIndex data i k) :
    0 ≤ i ∧ i ≤ k ∧ k < 2 ^ 31 ∧ data.length = data₀.length := by
  induction h with
  | start h =>
      refine ⟨h, Int.le_refl _, ?_, rfl⟩
      have hfirst := firstParent_lt lastIndex
      omega
  | @sink d d' i k b h htest hstep ih =>
      have hb := b.2
      rw [siftStep_length hstep]
      omega
  | next h hsift hi ih =>
      rw [sift_length ⟨by omega, ih.2.2.1⟩ hsift]
      omega

/-- From there on, the two loops are still to come. -/
theorem AtTest.continues (h : AtTest data₀ lastIndex data i k) :
    Continues (buildMaxHeap data₀ lastIndex) (sift lastIndex data k >>= fun d => build lastIndex d (i - 1)) := by
  induction h with
  | start h =>
      rw [buildMaxHeap, build, if_pos h]
      exact .refl _
  | @sink d d' i k b h htest hstep ih =>
      rw [sift, if_pos htest] at ih
      refine ih.trans (.bind_right ?_ _)
      exact .bind hstep _
  | next h hsift hi ih =>
      refine ih.trans ((Continues.bind hsift _).trans ?_)
      rw [build, if_pos hi]
      exact .refl _

/-! ## Below an index that is too deep -/

/-- The index of the left child wraps around and is negative. -/
theorem sift_of_deep (hk : 2 ^ 30 ≤ k ∧ k < 2 ^ 31) (hnonneg : 0 ≤ lastIndex) :
    sift lastIndex data k = ⟨[.index (2 * k + 1 - 2 ^ 32)], .error (.exn .indexOutOfBounds)⟩ := by
  have hwrap : wrap (2 * k + 1) = 2 * k + 1 - 2 ^ 32 := wrap_of_le (by omega) (by omega)
  have hget : data.get (wrap (2 * k + 1)) = ⟨[.index (2 * k + 1 - 2 ^ 32)], .error (.exn .indexOutOfBounds)⟩ := by
    rw [hwrap, IntArray.get, dif_neg (by omega)]
  have hbigger : (biggerIndex data lastIndex k) =
      ⟨[.index (2 * k + 1 - 2 ^ 32)], .error (.exn .indexOutOfBounds)⟩ := by
    rw [biggerIndex]
    dsimp only
    rw [if_pos (by omega), bind_of_error (by rw [hget]), hget]
  have hstep : siftStep lastIndex data k =
      ⟨[.index (2 * k + 1 - 2 ^ 32)], .error (.exn .indexOutOfBounds)⟩ := by
    rw [siftStep, bind_of_error (by rw [hbigger]), hbigger]
  rw [sift, if_pos (by rw [show k * 2 + 1 = 2 * k + 1 by omega]; omega), bind_of_error (by rw [hstep]), hstep]

theorem AtTest.of_deep (h : AtTest data₀ lastIndex data i k) (hnonneg : 0 ≤ lastIndex) (hk : 2 ^ 30 ≤ k) :
    .index (2 * k + 1 - 2 ^ 32) ∈ (buildMaxHeap data₀ lastIndex).log ∧
      (buildMaxHeap data₀ lastIndex).result = .error (.exn .indexOutOfBounds) := by
  have hbounds := h.bounds
  have hcontinues := h.continues
  rw [bind_of_error (by rw [sift_of_deep ⟨hk, hbounds.2.2.1⟩ hnonneg]), sift_of_deep ⟨hk, hbounds.2.2.1⟩ hnonneg]
    at hcontinues
  exact ⟨hcontinues.mem_log List.mem_cons_self, hcontinues.result_eq⟩

end MyDemo.Sort.HeapSort

import MyDemo.Sort.Lemmas.Heap
import MyDemo.Sort.Lemmas.HeapStates

/-!
# Indices that wrap around, and exact ones

The two agree while no element sinks too deep.
-/

namespace MyDemo.Sort.HeapSort

open Logged MaxHeap

variable {α : Type} {data data' data₀ : IntArray α} {lastIndex i k : ℤ}

/-! ## One step -/

theorem get_agree (data : IntArray α) {i j : ℤ} (h : i = j) :
    Agree (fun x y => x.1 = y.1) (data.get i) (data.get j) := by
  subst h
  exact (Agree.refl _).imp fun x y hxy => congrArg _ hxy

variable [LinearOrder α]

theorem biggerIndex_agree (data : IntArray α) (hk : 0 ≤ k ∧ k < 2 ^ 30) (hlast : lastIndex < 2 ^ 31) :
    Agree (fun b b' => b.1 = b'.1) (biggerIndex data lastIndex k) (Exact.biggerIndex data lastIndex k) := by
  have hl : wrap (2 * k + 1) = 2 * k + 1 := wrap_eq (by omega) (by omega)
  unfold biggerIndex Exact.biggerIndex
  dsimp only
  by_cases hlt : 2 * k + 1 < lastIndex
  · have hr : wrap (wrap (2 * k + 1) + 1) = 2 * k + 1 + 1 := by
      rw [hl, wrap_eq (by omega) (by omega)]
    rw [if_pos (by omega), if_pos hlt]
    refine (get_agree data hl).bind fun x x' hx => ?_
    refine (get_agree data hr).bind fun y y' hy => ?_
    rw [hx, hy]
    split
    · exact .pure hr
    · exact .pure hl
  · rw [if_neg (by omega), if_neg hlt]
    exact .pure hl

theorem siftStep_eq (data : IntArray α) (hk : 0 ≤ k ∧ k < 2 ^ 30) (hlast : lastIndex < 2 ^ 31) :
    siftStep lastIndex data k = Exact.siftStep lastIndex data k := by
  refine Agree.eq ((biggerIndex_agree data hk hlast).bind fun ⟨b, hb⟩ ⟨b', hb'⟩ heq => ?_)
  dsimp only at heq
  subst heq
  exact .refl _

/-! ## The loops -/

variable [Inhabited α]

/-- Below a node that the inner loop has come to, no index wraps around. -/
theorem sift_eq (hshallow : Shallow data₀ lastIndex) (hlast : lastIndex < data.length)
    (hk : 0 ≤ k ∧ k < 2 ^ 30) (hat : AtTest data₀ lastIndex data i k) :
    sift lastIndex data k = Exact.sift lastIndex data k := by
  induction hn : (lastIndex - k).toNat using Nat.strongRecOn generalizing data k with
  | ind n ih =>
  have hlength := data.length_lt'
  have htest : wrap (k * 2 + 1) = k * 2 + 1 := wrap_eq (by omega) (by omega)
  rw [sift, Exact.sift, htest, siftStep_eq data hk (by omega)]
  split
  · next hle =>
      refine bind_congr fun r hstep => ?_
      obtain ⟨data', next⟩ := r
      cases next with
      | none => rfl
      | some b =>
          obtain ⟨hsinks, hswapped⟩ := (Exact.siftStep_meets (E := fun _ => True) hk.1 (by omega) hlast).ok _ hstep
          have hbelow := hshallow data i k b.1 hat hsinks
          have hrange := hsinks.bigger.range hk.1
          rw [← siftStep_eq data hk (by omega)] at hstep
          exact ih (lastIndex - b.1).toNat (by omega) (siftStep_length hstep ▸ hlast) ⟨by omega, hbelow⟩
            (hat.sink (htest.trans_le hle) hstep) rfl
  · rfl

theorem build_eq (hshallow : Shallow data₀ lastIndex) (hlast : lastIndex < data.length) (hi : i < 2 ^ 30)
    (hat : 0 ≤ i → AtTest data₀ lastIndex data i i) : build lastIndex data i = Exact.build lastIndex data i := by
  induction hn : (i + 1).toNat generalizing data i with
  | zero => rw [build, Exact.build, if_neg (by omega), if_neg (by omega)]
  | succ n ih =>
      have hnow := hat (by omega)
      rw [build, Exact.build, if_pos (by omega), if_pos (by omega), ← sift_eq hshallow hlast ⟨by omega, hi⟩ hnow]
      refine bind_congr fun data' hsift => ?_
      exact ih (sift_length ⟨by omega, by omega⟩ hsift ▸ hlast) (by omega) (fun hnext => hnow.next hsift hnext)
        (by omega)

/-- As long as no element sinks too deep, a machine computes what is computed with exact indices. -/
theorem buildMaxHeap_eq (hshallow : Shallow data lastIndex) (hnonneg : 0 ≤ lastIndex)
    (hlast : lastIndex < data.length) :
    buildMaxHeap data lastIndex = Exact.buildMaxHeap data lastIndex := by
  have hlength := data.length_lt'
  have hfirst : firstParent lastIndex = (lastIndex - 1).tdiv 2 := by
    rw [firstParent, wrap_eq (by omega) (by omega)]
  rw [buildMaxHeap, Exact.buildMaxHeap, ← hfirst]
  exact build_eq hshallow hlast (firstParent_lt lastIndex) .start

theorem buildMaxHeap_meets (hshallow : Shallow data lastIndex) (hlast : lastIndex < data.length)
    (hnonneg : 0 ≤ lastIndex) :
    (buildMaxHeap data lastIndex).Meets (Inside lastIndex) (fun _ => False) fun data' =>
      Kept lastIndex data data' ∧ Ordered (values data') 0 lastIndex.toNat := by
  rw [buildMaxHeap_eq hshallow hnonneg hlast]
  exact Exact.buildMaxHeap_meets hnonneg hlast

/-! ## Below an index that is too deep -/

theorem Sinks.exists_step {b : ℤ} (h : Sinks data lastIndex k b) (hk : 0 ≤ k) (hlast : lastIndex < data.length) :
    ∃ d, ∃ b' : {b : ℤ // k < b ∧ b + 1 < 2 ^ 31}, (Exact.siftStep lastIndex data k).result = .ok (d, some b') ∧
      b' = b ∧ Swapped data d k.toNat b.toNat := by
  have hleft : 2 * k + 1 ≤ lastIndex := by
    have hle := h.le_last
    obtain ⟨hb, -⟩ | ⟨hb, -⟩ := h.child
    · omega
    · omega
  obtain ⟨⟨d, next⟩, hresult, hstep⟩ :=
    (Exact.siftStep_meets (E := fun _ => False) hk hleft hlast).exists_ok fun _ => id
  cases next with
  | none =>
      obtain ⟨-, b', hbigger, hle⟩ := hstep
      rw [hbigger.unique h.bigger] at hle
      exact absurd h.smaller (not_lt_of_ge hle)
  | some b' =>
      obtain ⟨hsinks, hswapped⟩ := hstep
      have hb := hsinks.bigger.unique h.bigger
      exact ⟨d, b', hresult, hb, hb ▸ hswapped⟩

/-- The loop comes to the index that the element sinks to. -/
theorem AtTest.exists_sink {b : ℤ} (h : AtTest data₀ lastIndex data i k) (hlast : lastIndex < data₀.length)
    (hk : k < 2 ^ 30) (hsinks : Sinks data lastIndex k b) : ∃ d, AtTest data₀ lastIndex d i b := by
  have hbounds := h.bounds
  have hlength := data.length_lt'
  have hrange := hsinks.bigger.range (by omega)
  obtain ⟨d, b', hresult, rfl, -⟩ := hsinks.exists_step (by omega) (hbounds.2.2.2 ▸ hlast)
  rw [← siftStep_eq data ⟨by omega, hk⟩ (by omega)] at hresult
  refine ⟨d, h.sink ?_ hresult⟩
  rw [wrap_eq (by omega) (by omega)]
  obtain ⟨hb, -⟩ | ⟨hb, -⟩ := hsinks.child
  · omega
  · omega

/-- Where an element sinks too deep, a negative index is used. -/
theorem AtTest.sinks_deep {b : ℤ} (h : AtTest data₀ lastIndex data i k) (hlast : lastIndex < data₀.length)
    (hsinks : Sinks data lastIndex k b) (hb : 2 ^ 30 ≤ b) :
    (∃ j, j < 0 ∧ .index j ∈ (buildMaxHeap data₀ lastIndex).log) ∧
      (buildMaxHeap data₀ lastIndex).result = .error (.exn .indexOutOfBounds) := by
  have hle := hsinks.le_last
  have hbounds := h.bounds
  obtain ⟨d, k', hat, hdeep⟩ : ∃ d k', AtTest data₀ lastIndex d i k' ∧ 2 ^ 30 ≤ k' := by
    by_cases hk : k < 2 ^ 30
    · obtain ⟨d, hd⟩ := h.exists_sink hlast hk hsinks
      exact ⟨d, b, hd, hb⟩
    · exact ⟨data, k, h, by omega⟩
  have hrange := hat.bounds
  obtain ⟨hlog, hresult⟩ := hat.of_deep (by omega) hdeep
  exact ⟨⟨_, by omega, hlog⟩, hresult⟩

end MyDemo.Sort.HeapSort

import MyDemo.Sort.ExactHeapSort
import MyDemo.Lib.ListEntries
import MyDemo.Lib.MaxHeap

/-!
# What the loops of buildMaxHeap do with exact indices
-/

namespace MyDemo.Sort.HeapSort

open Logged MaxHeap

/-- An index is used that lies in the heap. -/
def Inside (lastIndex : ℤ) : Event → Prop
  | .index i => 0 ≤ i ∧ i ≤ lastIndex
  | .midpoint _ _ _ => True

variable {α : Type} {data data' data'' : IntArray α} {lastIndex k : ℤ} {E : Thrown → Prop}

/-- The elements after the heap stay, and none is lost. -/
structure Kept (lastIndex : ℤ) (data data' : IntArray α) : Prop where
  perm : data'.elems.Perm data.elems
  drop : data'.elems.drop (lastIndex + 1).toNat = data.elems.drop (lastIndex + 1).toNat

theorem Kept.refl (data : IntArray α) : Kept lastIndex data data := ⟨.refl _, rfl⟩

theorem Kept.trans (h : Kept lastIndex data data') (h' : Kept lastIndex data' data'') :
    Kept lastIndex data data'' :=
  ⟨h'.perm.trans h.perm, h'.drop.trans h.drop⟩

theorem Kept.length_eq (h : Kept lastIndex data data') : data'.length = data.length := by
  rw [IntArray.length, h.perm.length_eq, IntArray.length]

variable [Inhabited α]

/-- The values at the nodes. -/
def values (data : IntArray α) (c : ℕ) : α := data.entry c

theorem values_toNat {c : ℤ} (hc : 0 ≤ c) : values data c.toNat = data.entry c := by
  rw [values, Int.toNat_of_nonneg hc]

/-! ## swap -/

/-- Two elements have changed places. -/
structure Swapped (data data' : IntArray α) (i j : ℕ) : Prop where
  perm : data'.elems.Perm data.elems
  values_eq : values data' = values data ∘ Equiv.swap i j
  drop : ∀ m, i < m → j < m → data'.elems.drop m = data.elems.drop m

theorem swap_meets (data : IntArray α) {i j : ℤ} (hi : 0 ≤ i ∧ i ≤ lastIndex) (hj : 0 ≤ j ∧ j ≤ lastIndex)
    (hlast : lastIndex < data.length) :
    (swap data i j).Meets (Inside lastIndex) E fun data' => Swapped data data' i.toNat j.toNat := by
  have hilt : i.toNat < data.elems.length := by rw [IntArray.length] at hlast; omega
  have hjlt : j.toNat < data.elems.length := by rw [IntArray.length] at hlast; omega
  refine .bind (IntArray.meets_get_entry hi.1 (by omega) hi) fun x hx => ?_
  refine .bind (IntArray.meets_get_entry hj.1 (by omega) hj) fun y hy => ?_
  refine .bind (IntArray.meets_set_elems hi.1 (by omega) hi) fun data₁ h₁ => ?_
  have hlength : data₁.length = data.length := by rw [IntArray.length, h₁, List.length_set, IntArray.length]
  refine (IntArray.meets_set_elems hj.1 (by omega) hj).imp_ok fun data₂ h₂ => ?_
  rw [h₁, hx, hy, IntArray.entry, IntArray.entry] at h₂
  refine ⟨h₂ ▸ List.set_set_perm_getD default hilt hjlt, ?_, fun m him hjm => ?_⟩
  · funext c
    simp only [values, IntArray.entry, Int.toNat_natCast, Function.comp_apply, h₂]
    exact List.getD_set_set default hilt hjlt c
  · rw [h₂, List.drop_set_of_lt hjm, List.drop_set_of_lt him]

theorem Swapped.kept {i j : ℤ} (h : Swapped data data' i.toNat j.toNat) (hi : i ≤ lastIndex)
    (hj : j ≤ lastIndex) (hlast : 0 ≤ lastIndex) : Kept lastIndex data data' :=
  ⟨h.perm, h.drop _ (by omega) (by omega)⟩

/-! ## The inner loop -/

variable [LinearOrder α]

/-- `b` is the greater child of `k`. -/
structure Bigger (data : IntArray α) (lastIndex k b : ℤ) : Prop where
  child : b = 2 * k + 1 ∧ (2 * k + 2 ≤ lastIndex → data.entry (2 * k + 2) ≤ data.entry (2 * k + 1)) ∨
    b = 2 * k + 2 ∧ data.entry (2 * k + 1) < data.entry (2 * k + 2)
  le_last : b ≤ lastIndex

theorem Exact.biggerIndex_meets (hk : 0 ≤ k) (hleft : 2 * k + 1 ≤ lastIndex) (hlast : lastIndex < data.length) :
    (Exact.biggerIndex data lastIndex k).Meets (Inside lastIndex) E fun b => Bigger data lastIndex k b.1 := by
  have hright : 2 * k + 1 + 1 = 2 * k + 2 := by omega
  unfold Exact.biggerIndex
  dsimp only
  split
  · next hlt =>
      refine .bind (IntArray.meets_get_entry (by omega) (by omega) ⟨by omega, by omega⟩) fun x hx => ?_
      refine .bind (IntArray.meets_get_entry (by omega) (by omega) ⟨by omega, by omega⟩) fun y hy => ?_
      rw [hx, hy, congrArg data.entry hright]
      split
      · next hxy => exact .pure ⟨.inr ⟨hright, hxy⟩, hright.trans_le (by omega)⟩
      · next hxy => exact .pure ⟨.inl ⟨rfl, fun _ => le_of_not_gt hxy⟩, hleft⟩
  · next hge => exact .pure ⟨.inl ⟨rfl, fun hle => absurd hle (by omega)⟩, hleft⟩

theorem Bigger.range {b : ℤ} (h : Bigger data lastIndex k b) (hk : 0 ≤ k) : k < b ∧ b ≤ lastIndex := by
  obtain ⟨⟨hb, -⟩ | ⟨hb, -⟩, hlast⟩ := h
  · omega
  · omega

theorem Sinks.bigger {b : ℤ} (h : Sinks data lastIndex k b) : Bigger data lastIndex k b := ⟨h.child, h.le_last⟩

theorem Bigger.unique {b b' : ℤ} (h : Bigger data lastIndex k b) (h' : Bigger data lastIndex k b') : b = b' := by
  have hle := h.le_last
  have hle' := h'.le_last
  obtain ⟨hb, hright⟩ | ⟨hb, hless⟩ := h.child
  · obtain ⟨hb', -⟩ | ⟨hb', hless⟩ := h'.child
    · rw [hb, hb']
    · exact absurd hless (not_lt_of_ge (hright (by omega)))
  · obtain ⟨hb', hright⟩ | ⟨hb', -⟩ := h'.child
    · exact absurd hless (not_lt_of_ge (hright (by omega)))
    · rw [hb, hb']

/-- A step goes on where the element sinks, and breaks the loop where it does not. -/
theorem Exact.siftStep_meets (hk : 0 ≤ k) (hleft : 2 * k + 1 ≤ lastIndex) (hlast : lastIndex < data.length) :
    (Exact.siftStep lastIndex data k).Meets (Inside lastIndex) E fun r =>
      match r.2 with
      | none => r.1 = data ∧ ∃ b, Bigger data lastIndex k b ∧ data.entry b ≤ data.entry k
      | some b => Sinks data lastIndex k b ∧ Swapped data r.1 k.toNat b.1.toNat := by
  refine (Exact.biggerIndex_meets hk hleft hlast).bind fun b hbigger => ?_
  have hrange := hbigger.range hk
  refine (IntArray.meets_get_entry (P := Inside lastIndex) hk (by omega) ⟨hk, by omega⟩).bind fun x hx => ?_
  refine (IntArray.meets_get_entry (P := Inside lastIndex) (i := b.1) (by omega) (by omega)
    ⟨by omega, by omega⟩).bind fun y hy => ?_
  dsimp only
  split
  · next hxy =>
      rw [hx, hy] at hxy
      refine (swap_meets data ⟨hk, by omega⟩ ⟨by omega, hrange.2⟩ hlast).bind fun data' hswapped => ?_
      exact .pure ⟨⟨hbigger.child, hbigger.le_last, hxy⟩, hswapped⟩
  · next hxy =>
      rw [hx, hy] at hxy
      exact .pure ⟨rfl, b, hbigger, le_of_not_gt hxy⟩

theorem Bigger.greatestChild {b : ℤ} (h : Bigger data lastIndex k b) (hk : 0 ≤ k) :
    GreatestChild (values data) lastIndex.toNat k.toNat b.toNat := by
  have hrange := h.range hk
  refine ⟨by omega, by omega, ?_, fun c hc hlast hpc => ?_⟩
  · rw [parent_eq_iff (by omega)]
    obtain ⟨hb, -⟩ | ⟨hb, -⟩ := h.child
    · omega
    · omega
  · rw [parent_eq_iff hc] at hpc
    rw [values_toNat (c := b) (by omega)]
    obtain rfl | rfl := hpc
    · rw [show 2 * k.toNat + 1 = (2 * k + 1).toNat by omega, values_toNat (by omega)]
      obtain ⟨rfl, -⟩ | ⟨rfl, hlt⟩ := h.child
      · exact le_refl _
      · exact le_of_lt hlt
    · rw [show 2 * k.toNat + 2 = (2 * k + 2).toNat by omega, values_toNat (by omega)]
      obtain ⟨rfl, hle⟩ | ⟨rfl, -⟩ := h.child
      · exact hle (by omega)
      · exact le_refl _

/-- Where the element does not sink, the order below it is right. -/
theorem Bigger.ordered {b : ℤ} {i : ℕ} (h : Bigger data lastIndex k b) (hk : 0 ≤ k)
    (hle : data.entry b ≤ data.entry k) (hsifting : Sifting (values data) i lastIndex.toNat k.toNat) :
    Ordered (values data) i lastIndex.toNat := by
  have hrange := h.range hk
  refine hsifting.finish fun c hc hclast hpc => ?_
  have hcb := (h.greatestChild hk).le c hc hclast hpc
  rw [values_toNat (c := b) (by omega)] at hcb
  rw [values_toNat hk]
  exact hcb.trans hle

/-- Where it sinks, the order may be wrong below its new place only. -/
theorem Sinks.sifting {b : ℤ} {i : ℕ} (h : Sinks data lastIndex k b) (hk : 0 ≤ k)
    (hswapped : Swapped data data' k.toNat b.toNat) (hsifting : Sifting (values data) i lastIndex.toNat k.toNat) :
    Sifting (values data') i lastIndex.toNat b.toNat := by
  have hrange := h.bigger.range hk
  have hless : values data k.toNat < values data b.toNat := by
    rw [values_toNat hk, values_toNat (c := b) (by omega)]
    exact h.smaller
  rw [hswapped.values_eq]
  exact hsifting.step (h.bigger.greatestChild hk) hless

theorem Exact.sift_meets {i : ℤ} (hlast : lastIndex < data.length) (hnonneg : 0 ≤ lastIndex) (hk : 0 ≤ k)
    (hsifting : Sifting (values data) i.toNat lastIndex.toNat k.toNat) :
    (Exact.sift lastIndex data k).Meets (Inside lastIndex) E fun data' =>
      Kept lastIndex data data' ∧ Ordered (values data') i.toNat lastIndex.toNat := by
  induction hn : (lastIndex - k).toNat using Nat.strongRecOn generalizing data k with
  | ind n ih =>
  rw [Exact.sift]
  split
  · next hle =>
      have hleft : 2 * k + 1 ≤ lastIndex := by omega
      refine (Exact.siftStep_meets hk hleft hlast).bind fun ⟨data', next⟩ hstep => ?_
      cases next with
      | none =>
          obtain ⟨rfl, b, hbigger, hle⟩ := hstep
          exact .pure ⟨.refl _, hbigger.ordered hk hle hsifting⟩
      | some b =>
          obtain ⟨hsinks, hswapped⟩ := hstep
          have hrange := hsinks.bigger.range hk
          have hkept : Kept lastIndex data data' := hswapped.kept (by omega) hrange.2 hnonneg
          have hnext := hsinks.sifting hk hswapped hsifting
          refine (ih (lastIndex - b.1).toNat (by omega) (hkept.length_eq ▸ hlast) (by omega) hnext rfl).imp_ok
            fun data'' h'' => ?_
          exact ⟨hkept.trans h''.1, h''.2⟩
  · next hgt =>
      refine .pure ⟨.refl _, hsifting.finish fun c hc hclast hpc => ?_⟩
      rw [parent_eq_iff hc] at hpc
      omega

/-! ## The outer loop -/

theorem Exact.build_meets {i : ℤ} (hlast : lastIndex < data.length) (hnonneg : 0 ≤ lastIndex) (hi : -1 ≤ i)
    (hordered : Ordered (values data) (i + 1).toNat lastIndex.toNat) :
    (Exact.build lastIndex data i).Meets (Inside lastIndex) E fun data' =>
      Kept lastIndex data data' ∧ Ordered (values data') 0 lastIndex.toNat := by
  induction hn : (i + 1).toNat generalizing data i with
  | zero =>
      rw [Exact.build, if_neg (by omega)]
      exact .pure ⟨.refl _, hn ▸ hordered⟩
  | succ n ih =>
      rw [Exact.build, if_pos (by omega)]
      rw [show (i + 1).toNat = i.toNat + 1 by omega] at hordered
      refine (Exact.sift_meets hlast hnonneg (by omega) (.start hordered)).bind fun data' ⟨hkept, hsifted⟩ => ?_
      rw [show i.toNat = (i - 1 + 1).toNat by omega] at hsifted
      refine (ih (hkept.length_eq ▸ hlast) (by omega) hsifted (by omega)).imp_ok fun data'' h'' => ?_
      exact ⟨hkept.trans h''.1, h''.2⟩

theorem Exact.buildMaxHeap_meets (hnonneg : 0 ≤ lastIndex) (hlast : lastIndex < data.length) :
    (Exact.buildMaxHeap data lastIndex).Meets (Inside lastIndex) E fun data' =>
      Kept lastIndex data data' ∧ Ordered (values data') 0 lastIndex.toNat := by
  have hhalf := tdiv_two_bounds (lastIndex - 1)
  refine Exact.build_meets hlast hnonneg (by omega) fun c hc hclast hparent => ?_
  rw [parent] at hparent
  omega

/-- It comes to its end without an exception. -/
theorem Exact.exists_buildMaxHeap (hnonneg : 0 ≤ lastIndex) (hlast : lastIndex < data.length) :
    ∃ data', (Exact.buildMaxHeap data lastIndex).result = .ok data' ∧ Kept lastIndex data data' ∧
      Ordered (values data') 0 lastIndex.toNat :=
  (Exact.buildMaxHeap_meets (E := fun _ => False) hnonneg hlast).exists_ok fun _ => id

end MyDemo.Sort.HeapSort

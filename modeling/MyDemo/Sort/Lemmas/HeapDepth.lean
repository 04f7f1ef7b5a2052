import MyDemo.Sort.Lemmas.HeapAgreement

/-!
# Elements that stay in place

An element sinks too deep just if the elements from the index `2 ^ 30` on do not all stay in place with exact indices.
-/

namespace MyDemo.Sort.HeapSort

open Logged MaxHeap

variable {α : Type} {data data' data₀ : IntArray α} {lastIndex i j k b : ℤ} {E : Thrown → Prop}

theorem entry_eq_of_drop_eq [Inhabited α] {m : ℕ} (h : data'.elems.drop m = data.elems.drop m) (hm : m ≤ j.toNat) :
    data'.entry j = data.entry j := by
  have hget := congrArg (·[j.toNat - m]?) h
  simp only [List.getElem?_drop, Nat.add_sub_cancel' hm] at hget
  rw [IntArray.entry, IntArray.entry, List.getD_eq_getElem?_getD, hget, List.getD_eq_getElem?_getD]

variable [LinearOrder α] [Inhabited α]

/-! ## With exact indices no element without children becomes greater -/

omit [LinearOrder α] in
theorem Swapped.entry_eq (h : Swapped data data' i.toNat j.toNat) {c : ℤ} (hc : 0 ≤ c) :
    data'.entry c = values data (Equiv.swap i.toNat j.toNat c.toNat) := by
  have hvalue := congrFun h.values_eq c.toNat
  rwa [values_toNat hc] at hvalue

/-- Where an element sinks, the place it comes to gets a smaller one. -/
theorem Sinks.entry_lt (h : Sinks data lastIndex k b) (hk : 0 ≤ k) (hswapped : Swapped data data' k.toNat b.toNat) :
    data'.entry b < data.entry b := by
  have hrange := h.bigger.range hk
  rw [hswapped.entry_eq (by omega), Equiv.swap_apply_right, values_toNat hk]
  exact h.smaller

theorem Sinks.entry_le (h : Sinks data lastIndex k b) (hk : 0 ≤ k) (hswapped : Swapped data data' k.toNat b.toNat)
    (hj : k < j) : data'.entry j ≤ data.entry j := by
  by_cases hjb : j = b
  · rw [hjb]
    exact (h.entry_lt hk hswapped).le
  · have hrange := h.bigger.range hk
    rw [hswapped.entry_eq (by omega), Equiv.swap_apply_of_ne_of_ne (by omega) (by omega), values_toNat (by omega)]

theorem Exact.sift_le (hlast : lastIndex < data.length) (hk : 0 ≤ k) (hj : lastIndex < 2 * j + 1) :
    (Exact.sift lastIndex data k).Meets (Inside lastIndex) E fun data' =>
      data'.length = data.length ∧ data'.entry j ≤ data.entry j := by
  induction hn : (lastIndex - k).toNat using Nat.strongRecOn generalizing data k with
  | ind n ih =>
  rw [Exact.sift]
  split
  · next hle =>
      refine (Exact.siftStep_meets hk (by omega) hlast).bind fun r hstep => ?_
      obtain ⟨data', next⟩ := r
      cases next with
      | none =>
          obtain ⟨rfl, -⟩ := hstep
          exact .pure ⟨rfl, le_rfl⟩
      | some b =>
          obtain ⟨hsinks, hswapped⟩ := hstep
          have hrange := hsinks.bigger.range hk
          have hlength : data'.length = data.length := (hswapped.kept (by omega) hrange.2 (by omega)).length_eq
          have hfirst := hsinks.entry_le hk hswapped (j := j) (by omega)
          refine (ih (lastIndex - b.1).toNat (by omega) (hlength ▸ hlast) (by omega) rfl).imp_ok fun data'' h => ?_
          exact ⟨h.1.trans hlength, h.2.trans hfirst⟩
  · exact .pure ⟨rfl, le_rfl⟩

theorem Exact.build_le (hlast : lastIndex < data.length) (hj : lastIndex < 2 * j + 1) :
    (Exact.build lastIndex data i).Meets (Inside lastIndex) E fun data' => data'.entry j ≤ data.entry j := by
  induction hn : (i + 1).toNat generalizing data i with
  | zero =>
      rw [Exact.build, if_neg (by omega)]
      exact .pure le_rfl
  | succ n ih =>
      rw [Exact.build, if_pos (by omega)]
      refine (Exact.sift_le hlast (by omega) hj).bind fun data' hsift => ?_
      obtain ⟨hlength, hfirst⟩ := hsift
      exact (ih (hlength ▸ hlast) (by omega)).imp_ok fun data'' h => h.trans hfirst

/-! ## Loops that end without an exception -/

/-- They have come to no index of `2 ^ 30` or more. -/
theorem sift_of_ok (hnonneg : 0 ≤ lastIndex) (hlast : lastIndex < data.length) (hk : 0 ≤ k ∧ k < 2 ^ 31)
    (h : (sift lastIndex data k).result = .ok data') :
    k < 2 ^ 30 ∧ sift lastIndex data k = Exact.sift lastIndex data k ∧
      data'.elems.drop (2 ^ 30) = data.elems.drop (2 ^ 30) := by
  induction hn : (lastIndex - k).toNat using Nat.strongRecOn generalizing data k with
  | ind n ih =>
  have hlength := data.length_lt'
  have hshallow : k < 2 ^ 30 := by
    by_contra hdeep
    rw [sift_of_deep ⟨by omega, hk.2⟩ hnonneg] at h
    cases h
  refine ⟨hshallow, ?_⟩
  have htest : wrap (k * 2 + 1) = k * 2 + 1 := wrap_eq (by omega) (by omega)
  have hsame : siftStep lastIndex data k = Exact.siftStep lastIndex data k :=
    siftStep_eq data ⟨hk.1, hshallow⟩ (by omega)
  rw [sift, htest] at h
  rw [sift, Exact.sift, htest]
  by_cases hle : k * 2 + 1 ≤ lastIndex
  · rw [if_pos hle] at h
    rw [if_pos hle, if_pos hle]
    obtain ⟨⟨data₁, next⟩, hstep, hrest⟩ := result_bind_eq_ok.mp h
    have hlength₁ := siftStep_length hstep
    rw [hsame] at hstep ⊢
    have hmeets := (Exact.siftStep_meets (E := fun _ => True) hk.1 (by omega) hlast).ok _ hstep
    cases next with
    | none =>
        cases hrest
        refine ⟨bind_congr fun r hr => ?_, congrArg (List.drop _ ·.elems) hmeets.1⟩
        rw [hstep] at hr
        cases hr
        rfl
    | some b =>
        obtain ⟨hsinks, hswapped⟩ := hmeets
        have hb := b.2
        obtain ⟨hbelow, heq, hdrop⟩ := ih (lastIndex - b.1).toNat (by have hle := hsinks.le_last; omega)
          (hlength₁ ▸ hlast) ⟨by omega, by omega⟩ hrest rfl
        refine ⟨bind_congr fun r hr => ?_, hdrop.trans (hswapped.drop _ (by omega) (by omega))⟩
        rw [hstep] at hr
        cases hr
        exact heq
  · rw [if_neg hle] at h
    cases h
    rw [if_neg hle, if_neg hle]
    exact ⟨rfl, rfl⟩

theorem build_of_ok (hnonneg : 0 ≤ lastIndex) (hlast : lastIndex < data.length) (hi : i < 2 ^ 30)
    (h : (build lastIndex data i).result = .ok data') : data'.elems.drop (2 ^ 30) = data.elems.drop (2 ^ 30) := by
  induction hn : (i + 1).toNat generalizing data i with
  | zero =>
      rw [build, if_neg (by omega)] at h
      cases h
      rfl
  | succ n ih =>
      rw [build, if_pos (by omega)] at h
      obtain ⟨data₁, hsift, hrest⟩ := result_bind_eq_ok.mp h
      obtain ⟨-, -, hdrop⟩ := sift_of_ok hnonneg hlast ⟨by omega, by omega⟩ hsift
      exact (ih (sift_length ⟨by omega, by omega⟩ hsift ▸ hlast) (by omega) hrest (by omega)).trans hdrop

theorem inPlace_of_shallow (hshallow : Shallow data lastIndex) (hnonneg : 0 ≤ lastIndex)
    (hlast : lastIndex < data.length) : Exact.InPlace data lastIndex := by
  intro data' h
  rw [← buildMaxHeap_eq hshallow hnonneg hlast] at h
  exact build_of_ok hnonneg hlast (firstParent_lt lastIndex) h

/-! ## An element that sinks too deep -/

/-- Up to an index that is too deep, the loops with exact indices come to the same states. -/
theorem AtTest.exact (h : AtTest data₀ lastIndex data i k) (hnonneg : 0 ≤ lastIndex)
    (hlast : lastIndex < data₀.length) (hk : k < 2 ^ 30) :
    Continues (Exact.buildMaxHeap data₀ lastIndex)
        (Exact.sift lastIndex data k >>= fun d => Exact.build lastIndex d (i - 1)) ∧
      data.elems.drop (2 ^ 30) = data₀.elems.drop (2 ^ 30) := by
  have hlength := data₀.length_lt'
  induction h with
  | start h =>
      have hfirst : firstParent lastIndex = (lastIndex - 1).tdiv 2 := by
        rw [firstParent, wrap_eq (by omega) (by omega)]
      rw [Exact.buildMaxHeap, ← hfirst, Exact.build, if_pos h]
      exact ⟨.refl _, rfl⟩
  | @sink d d' i k b h htest hstep ih =>
      have hb := b.2
      have hbounds := h.bounds
      obtain ⟨hcontinues, hdrop⟩ := ih (by omega)
      rw [wrap_eq (by omega) (by omega)] at htest
      rw [siftStep_eq d ⟨by omega, by omega⟩ (by omega)] at hstep
      obtain ⟨hsinks, hswapped⟩ := (Exact.siftStep_meets (E := fun _ => True) (by omega) (by omega)
        (hbounds.2.2.2 ▸ hlast)).ok _ hstep
      rw [Exact.sift, if_pos htest] at hcontinues
      refine ⟨hcontinues.trans (.bind_right ?_ _), (hswapped.drop _ (by omega) (by omega)).trans hdrop⟩
      exact .bind hstep _
  | @next d d' i k h hsift hi ih =>
      have hbounds := h.bounds
      obtain ⟨hshallow, heq, hdrop'⟩ := sift_of_ok hnonneg (hbounds.2.2.2 ▸ hlast) ⟨by omega, by omega⟩ hsift
      obtain ⟨hcontinues, hdrop⟩ := ih hshallow
      rw [heq] at hsift
      refine ⟨hcontinues.trans ((Continues.bind hsift _).trans ?_), hdrop'.trans hdrop⟩
      rw [Exact.build, if_pos hi]
      exact .refl _

/-- The place that an element sinks to keeps a smaller one to the end. -/
theorem shallow_of_inPlace (h : Exact.InPlace data lastIndex) (hnonneg : 0 ≤ lastIndex)
    (hlast : lastIndex < data.length) : Shallow data lastIndex := by
  intro d i k b hat hsinks
  by_contra hb
  have hbounds := hat.bounds
  have hlength := data.length_lt'
  have hrange := hsinks.bigger.range (by omega)
  have hleft : 2 * k + 1 ≤ lastIndex ∧ k < 2 ^ 30 := by
    obtain ⟨hchild, -⟩ | ⟨hchild, -⟩ := hsinks.child
    · omega
    · omega
  obtain ⟨data', hresult, -⟩ := Exact.exists_buildMaxHeap hnonneg hlast
  obtain ⟨hcontinues, hdrop⟩ := hat.exact hnonneg hlast hleft.2
  have hrest := hresult
  rw [hcontinues.result_eq] at hrest
  obtain ⟨d₂, hsift, hbuild⟩ := result_bind_eq_ok.mp hrest
  obtain ⟨d₁, b', hstep, rfl, hswapped⟩ := hsinks.exists_step (by omega) (hbounds.2.2.2 ▸ hlast)
  have hlength₁ : d₁.length = d.length := (hswapped.kept (by omega) hrange.2 hnonneg).length_eq
  rw [Exact.sift, if_pos (by omega)] at hsift
  obtain ⟨r, hr, hsift⟩ := result_bind_eq_ok.mp hsift
  rw [hstep] at hr
  cases hr
  obtain ⟨hlength₂, hle₂⟩ :=
    (Exact.sift_le (E := fun _ => True) (j := b'.1) (by omega) (by omega) (by omega)).ok _ hsift
  have hle := (Exact.build_le (E := fun _ => True) (j := b'.1) (by omega) (by omega)).ok _ hbuild
  have hlt := hsinks.entry_lt (by omega) hswapped
  have hsame : data'.entry b'.1 = d.entry b'.1 := entry_eq_of_drop_eq ((h data' hresult).trans hdrop.symm) (by omega)
  rw [hsame] at hle
  exact lt_irrefl _ (hlt.trans_le (hle.trans hle₂))

omit [Inhabited α] in
/-- Without elements there is nothing to do. -/
theorem Exact.inPlace_of_neg (hneg : lastIndex < 0) : Exact.InPlace data lastIndex := by
  intro data' h
  have hhalf := tdiv_two_bounds (lastIndex - 1)
  rw [Exact.buildMaxHeap, Exact.build, if_neg (by omega)] at h
  cases h
  rfl

theorem shallow_of_lt (data : IntArray α) {lastIndex : ℤ} (h : lastIndex < 2 ^ 30) : Shallow data lastIndex := by
  intro d i k b _ hsinks
  have hle := hsinks.le_last
  omega

theorem shallow_iff_inPlace (hlast : lastIndex < data.length) :
    Shallow data lastIndex ↔ Exact.InPlace data lastIndex := by
  obtain hneg | hnonneg : lastIndex < 0 ∨ 0 ≤ lastIndex := by omega
  · exact iff_of_true (shallow_of_lt data (by omega)) (Exact.inPlace_of_neg hneg)
  · exact ⟨fun h => inPlace_of_shallow h hnonneg hlast, fun h => shallow_of_inPlace h hnonneg hlast⟩

end MyDemo.Sort.HeapSort

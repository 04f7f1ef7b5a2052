import Mathlib.Order.Lattice
import Mathlib.Data.List.Pairwise

/-!
# Merging by the strict order

`List.merge` and `List.mergeSort` with `<` in place of `≤`, which take the right one of two equal elements.
-/

namespace List

theorem mergeSort_of_two_le {α : Type*} {l : List α} (le : α → α → Bool) (h : 2 ≤ l.length) :
    l.mergeSort le = merge ((l.take ((l.length + 1) / 2)).mergeSort le)
      ((l.drop ((l.length + 1) / 2)).mergeSort le) le := by
  match l with
  | [] => simp at h
  | [_] => simp at h
  | a :: b :: l =>
      rw [mergeSort]
      simp only [MergeSort.Internal.splitInTwo_fst, MergeSort.Internal.splitInTwo_snd]

variable {α κ : Type*} [LinearOrder κ] (key : α → κ)

theorem merge_lt_eq_merge_le (xs ys : List α) :
    merge xs ys (fun a b => key a < key b) = merge ys xs (fun a b => key a ≤ key b) := by
  fun_induction merge xs ys (fun a b => key a < key b) with
  | case1 ys => simp
  | case2 xs => simp
  | case3 x xs y ys hlt ih =>
      have hnot : ¬ key y ≤ key x := not_le_of_gt (by simpa using hlt)
      rw [ih, cons_merge_cons_neg _ _ _ (by simpa using hnot)]
  | case4 x xs y ys hge ih =>
      have hle : key y ≤ key x := le_of_not_gt (by simpa using hge)
      rw [ih, cons_merge_cons_pos _ _ _ (by simpa using hle)]

variable {key}

theorem pairwise_merge_lt {xs ys : List α} (hx : xs.Pairwise (key · ≤ key ·)) (hy : ys.Pairwise (key · ≤ key ·)) :
    (merge xs ys (fun a b => key a < key b)).Pairwise (key · ≤ key ·) := by
  rw [merge_lt_eq_merge_le]
  have hmerge : (merge ys xs (fun a b => key a ≤ key b)).Pairwise (fun a b => decide (key a ≤ key b) = true) :=
    pairwise_merge
      (fun a b c hab hbc => by simpa using le_trans (of_decide_eq_true hab) (of_decide_eq_true hbc))
      (fun a b => by simpa using le_total (key a) (key b)) ys xs (by simpa using hy) (by simpa using hx)
  simpa using hmerge

/-- By induction on the length, as the two halves are sorted first. -/
theorem mergeSort_lt_induction {P : List α → List α → Prop} (hone : ∀ l : List α, l.length ≤ 1 → P l l)
    (hmerge : ∀ left right left' right', P left left' → P right right' →
      P (left ++ right) (merge left' right' (fun a b => key a < key b))) (l : List α) :
    P l (l.mergeSort (fun a b => key a < key b)) := by
  induction hn : l.length using Nat.strongRecOn generalizing l with
  | ind n ih =>
  by_cases htwo : 2 ≤ l.length
  · rw [mergeSort_of_two_le _ htwo]
    have h := hmerge _ _ _ _ (ih _ (by rw [length_take]; omega) (l.take ((l.length + 1) / 2)) rfl)
      (ih _ (by rw [length_drop]; omega) (l.drop ((l.length + 1) / 2)) rfl)
    rwa [take_append_drop] at h
  · match l with
    | [] => simpa using hone [] (by simp)
    | [x] => simpa using hone [x] (by simp)
    | x :: y :: l => simp at htwo

theorem pairwise_mergeSort_lt (key : α → κ) (l : List α) :
    (l.mergeSort (fun a b => key a < key b)).Pairwise (key · ≤ key ·) := by
  refine mergeSort_lt_induction (P := fun _ l' => l'.Pairwise (key · ≤ key ·)) (fun l hone => ?_)
    (fun _ _ _ _ => pairwise_merge_lt) l
  match l with
  | [] => exact .nil
  | [x] => exact pairwise_singleton _ x
  | x :: y :: l => simp at hone

/-! ## Elements with the same key -/

/-- Those on the right come first. -/
theorem filter_merge_lt {xs ys : List α} (hy : ys.Pairwise (key · ≤ key ·)) (k : κ) :
    (merge xs ys (fun a b => key a < key b)).filter (key · = k) =
      ys.filter (key · = k) ++ xs.filter (key · = k) := by
  fun_induction merge xs ys (fun a b => key a < key b) with
  | case1 ys => simp
  | case2 xs => simp
  | case3 x xs y ys hlt ih =>
      rw [filter_cons, ih hy]
      split
      · next hx =>
          have hnone : (y :: ys).filter (key · = k) = [] := by
            refine filter_eq_nil_iff.mpr fun b hb => ?_
            have hyb : key y ≤ key b := by
              rcases mem_cons.mp hb with rfl | hb
              · exact le_refl _
              · exact rel_of_pairwise_cons hy hb
            have hxb : key x < key b := lt_of_lt_of_le (by simpa using hlt) hyb
            have hk : key x = k := of_decide_eq_true hx
            rw [hk] at hxb
            simpa using ne_of_gt hxb
          rw [hnone, filter_cons_of_pos (p := (key · = k)) hx]
          rfl
      · next hx => rw [filter_cons_of_neg (p := (key · = k)) hx]
  | case4 x xs y ys hge ih =>
      rw [filter_cons, ih hy.of_cons]
      split
      · next hk => rw [filter_cons_of_pos (p := (key · = k)) hk, cons_append]
      · next hk => rw [filter_cons_of_neg (p := (key · = k)) hk]

/-- Each merge puts the elements from the right half in front, so that in the end they stand the other way round. -/
theorem filter_mergeSort_lt (key : α → κ) (l : List α) (k : κ) :
    (l.mergeSort (fun a b => key a < key b)).filter (key · = k) = (l.filter (key · = k)).reverse := by
  refine (mergeSort_lt_induction (P := fun l l' => l'.Pairwise (key · ≤ key ·) ∧
    l'.filter (key · = k) = (l.filter (key · = k)).reverse) (fun l hone => ?_)
    (fun left right left' right' hleft hright => ⟨pairwise_merge_lt hleft.1 hright.1, ?_⟩) l).2
  · match l with
    | [] => exact ⟨.nil, rfl⟩
    | [x] =>
        refine ⟨pairwise_singleton _ x, ?_⟩
        rw [filter_cons]
        split <;> rfl
    | x :: y :: l => simp at hone
  · rw [filter_merge_lt hright.1, hleft.2, hright.2, filter_append, reverse_append]

end List

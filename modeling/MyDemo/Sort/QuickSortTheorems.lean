import MyDemo.Sort.Lemmas.Partition
import Mathlib.Data.Int.Order.Basic
import Mathlib.Data.List.Pairwise

/-!
# What getMiddle leaves, and that quick sort sorts
-/

namespace MyDemo.Sort

open JArray

variable {α : Type} {low high : ℤ}

/-! ## getMiddle -/

/-- `numbers[low..high]`. -/
def segment (numbers : List α) (low high : ℤ) : List α := (numbers.drop low.toNat).take (high + 1 - low).toNat

theorem segment_append {before mid after : List α} (hlow : low = before.length)
    (hhigh : high = before.length + mid.length - 1) : segment (before ++ mid ++ after) low high = mid := by
  rw [segment, List.append_assoc, List.drop_left' (by omega), List.take_left' (by omega)]

theorem exists_segment (numbers : List α) (hlow : 0 ≤ low) (hle : low ≤ high) (hhigh : high < numbers.length) :
    ∃ before pivot rest after, numbers = before ++ pivot :: rest ++ after ∧ low = before.length ∧
      high = before.length + rest.length := by
  obtain ⟨pivot, hpivot⟩ := exists_get hlow (by omega : low < numbers.length)
  obtain ⟨before, rest, rfl, hbefore⟩ := get_eq_ok.mp hpivot
  rw [List.length_append, List.length_cons] at hhigh
  refine ⟨before, pivot, rest.take (high - low).toNat, rest.drop (high - low).toNat, ?_, hbefore, ?_⟩
  · rw [List.append_assoc, List.cons_append, List.take_append_drop]
  · rw [List.length_take]
    omega

variable [LinearOrder α]

/-- The `pivot` stands at `middle`, with the smaller elements of the segment before it and the others after it. -/
structure Partitioned (numbers : List α) (low high : ℤ) (numbers' : List α) (middle : ℤ) (pivot : α) : Prop where
  bounds : low ≤ middle ∧ middle ≤ high
  get_middle : get numbers' middle = .ok pivot
  smaller : ∀ i, low ≤ i → i < middle → ∃ x, get numbers' i = .ok x ∧ x < pivot
  others : ∀ i, middle < i → i ≤ high → ∃ x, get numbers' i = .ok x ∧ pivot ≤ x
  perm : (segment numbers' low high).Perm (segment numbers low high)
  outside : ∀ i, i < low ∨ high < i → get numbers' i = get numbers i

theorem partitioned_append {before after small big rest : List α} {pivot : α} (hperm : (small ++ big).Perm rest)
    (hsmall : ∀ y ∈ small, y < pivot) (hbig : ∀ y ∈ big, pivot ≤ y) (hlow : low = before.length)
    (hhigh : high = before.length + rest.length) :
    Partitioned (before ++ pivot :: rest ++ after) low high (before ++ small ++ pivot :: (big ++ after))
      (before.length + small.length) pivot := by
  have hlength := hperm.length_eq
  rw [List.length_append] at hlength
  have hleft : before ++ small ++ pivot :: (big ++ after) = before ++ (small ++ pivot :: big) ++ after := by simp
  have hright : before ++ small ++ pivot :: (big ++ after) = before ++ small ++ [pivot] ++ big ++ after := by simp
  refine ⟨by omega, get_append (by simp), fun i hi hlt => ?_, fun i hlt hi => ?_, ?_, fun i hi => ?_⟩
  · obtain ⟨x, hx, hget⟩ := exists_get_between (by omega) hlt
    exact ⟨x, hget, hsmall x hx⟩
  · obtain ⟨x, hx, hget⟩ : ∃ x ∈ big, get (before ++ small ++ [pivot] ++ big ++ after) i = .ok x :=
      exists_get_between (by simp; omega) (by simp; omega)
    exact ⟨x, hright ▸ hget, hbig x hx⟩
  · rw [hleft, segment_append hlow (by simp; omega), segment_append hlow (by simp; omega)]
    exact List.perm_middle.trans (hperm.cons pivot)
  · rw [hleft]
    exact get_outside (by simp; omega) (by simp; omega)

theorem getMiddle_partitions (numbers : List α) (hlow : 0 ≤ low) (hle : low ≤ high) (hhigh : high < numbers.length) :
    ∃ numbers' middle pivot, getMiddle numbers low high = .ok (numbers', middle) ∧ get numbers low = .ok pivot ∧
      Partitioned numbers low high numbers' middle pivot := by
  obtain ⟨before, pivot, rest, after, rfl, hbefore, hrest⟩ := exists_segment numbers hlow hle hhigh
  obtain ⟨small, big, hperm, hsmall, hbig, hmiddle⟩ := getMiddle_spec low high before after pivot rest hbefore hrest
  refine ⟨_, _, pivot, hmiddle, ?_, partitioned_append hperm hsmall hbig hbefore hrest⟩
  rw [List.append_assoc, List.cons_append]
  exact get_append hbefore

theorem getMiddle_partitions_three : ∃ numbers' middle pivot,
    getMiddle [2, 3, (1 : ℤ)] 0 2 = .ok (numbers', middle) ∧ get [2, 3, (1 : ℤ)] 0 = .ok pivot ∧
      Partitioned [2, 3, (1 : ℤ)] 0 2 numbers' middle pivot :=
  getMiddle_partitions _ (by decide) (by decide) (by decide)

/-! ## The recursion -/

theorem quickSort_of_getMiddle {numbers numbers' : List α} {middle : ℤ} (hlt : low < high)
    (h : getMiddle numbers low high = .ok (numbers', middle)) :
    quickSort numbers low high = quickSort numbers' low (middle - 1) >>= fun numbers'' =>
      quickSort numbers'' (middle + 1) high := by
  rw [quickSort, dif_pos hlt]
  split
  · next he => rw [h] at he; cases he
  · next hm =>
      rw [h] at hm
      cases hm
      dsimp only
      split
      · next he => rw [he]; rfl
      · next hl => rw [hl]; rfl

/-- A segment that its pivot divides is sorted when its parts are. -/
theorem pairwise_pivot {small small' big big' : List α} {pivot : α} (hsmall : ∀ y ∈ small, y < pivot)
    (hbig : ∀ y ∈ big, pivot ≤ y) (hps : small'.Perm small) (hpb : big'.Perm big)
    (hs : small'.Pairwise (· ≤ ·)) (hb : big'.Pairwise (· ≤ ·)) :
    (small' ++ pivot :: big').Pairwise (· ≤ ·) := by
  have hbelow : ∀ y ∈ small', y ≤ pivot := fun y hy => (hsmall y (hps.mem_iff.mp hy)).le
  have habove : ∀ y ∈ big', pivot ≤ y := fun y hy => hbig y (hpb.mem_iff.mp hy)
  refine List.pairwise_append.mpr ⟨hs, List.pairwise_cons.mpr ⟨habove, hb⟩, fun y hy z hz => ?_⟩
  rcases List.mem_cons.mp hz with rfl | hz
  · exact hbelow y hy
  · exact (hbelow y hy).trans (habove z hz)

/-- By induction on the length of the segment, which the pivot leaves. -/
theorem quickSort_spec (low high : ℤ) (before segment after : List α) (hlow : low = before.length)
    (hhigh : high = before.length + segment.length - 1) :
    ∃ sorted, quickSort (before ++ segment ++ after) low high = .ok (before ++ sorted ++ after) ∧
      sorted.Pairwise (· ≤ ·) ∧ sorted.Perm segment := by
  induction hn : segment.length using Nat.strong_induction_on generalizing before segment after low high with
  | _ n ih =>
  match segment with
  | [] =>
      refine ⟨[], ?_, .nil, .refl _⟩
      rw [quickSort, dif_neg (by simp at hhigh; omega)]
  | [x] =>
      refine ⟨[x], ?_, List.pairwise_singleton _ _, .refl _⟩
      rw [quickSort, dif_neg (by simp at hhigh; omega)]
  | pivot :: x :: rest =>
      obtain ⟨small, big, hperm, hsmall, hbig, hmiddle⟩ :=
        getMiddle_spec low high before after pivot (x :: rest) hlow (by simp at hhigh ⊢; omega)
      have hlength := hperm.length_eq
      rw [List.length_append, List.length_cons] at hlength
      rw [List.length_cons, List.length_cons] at hn hhigh
      obtain ⟨small', hleft, hsorted, hps⟩ := ih small.length (by omega) low
        (before.length + small.length - 1) before small (pivot :: (big ++ after)) hlow rfl rfl
      obtain ⟨big', hright, hsorted', hpb⟩ := ih big.length (by omega)
        (before.length + small.length + 1) high (before ++ small' ++ [pivot]) big after
        (by simp [hps.length_eq]; omega) (by simp [hps.length_eq]; omega) rfl
      refine ⟨small' ++ pivot :: big', ?_, pairwise_pivot hsmall hbig hps hpb hsorted hsorted', ?_⟩
      · rw [quickSort_of_getMiddle (by omega) hmiddle, hleft]
        have harray : before ++ small' ++ pivot :: (big ++ after) =
            before ++ small' ++ [pivot] ++ big ++ after := by simp
        rw [Exn.ok_bind, harray, hright]
        simp
      · have hparts : (small' ++ big').Perm (x :: rest) := (hps.append hpb).trans hperm
        exact List.perm_middle.trans (hparts.cons pivot)

/-- It comes to its end without an exception. -/
theorem quick_sorts (numbers : List α) :
    ∃ sorted, quick numbers = .ok sorted ∧ sorted.Pairwise (· ≤ ·) ∧ sorted.Perm numbers := by
  rw [quick]
  split
  · obtain ⟨sorted, hsort, hsorted, hperm⟩ := quickSort_spec 0 (numbers.length - 1) [] numbers []
      rfl (by simp)
    exact ⟨sorted, by simpa using hsort, hsorted, hperm⟩
  · next hlength =>
      obtain rfl : numbers = [] := by simpa using hlength
      exact ⟨[], rfl, .nil, .refl _⟩

end MyDemo.Sort

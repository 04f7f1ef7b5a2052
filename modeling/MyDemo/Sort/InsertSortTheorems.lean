import MyDemo.Sort.Lemmas.Insertion

/-!
# Insertion sort and shell sort sort
-/

namespace MyDemo.Sort

open JArray CountingLoop

theorem insertSort_spec {α κ : Type} [LT α] [DecidableLT α] [LinearOrder κ] (key : α → κ)
    (hkey : ∀ a b, a < b ↔ key a < key b) (numbers : List α) : ∃ sorted, insertSort numbers = .ok sorted ∧
      sorted.Pairwise (key · ≤ key ·) ∧ sorted.Perm numbers ∧ List.Stable key numbers sorted := by
  have hstart : Inserted key numbers 0 numbers := ⟨⟨[], numbers, rfl, rfl, .nil⟩, .refl _, .refl _⟩
  exact hstart.loop (· < ·) (fun a b => by simpa using hkey a b) (by omega)

/-- It comes to its end without an exception. Elements that are told apart by a tag make the same moves, and
those with the same value stay in their order. -/
theorem insertSort_sorts {κ β : Type} [LinearOrder κ] : (∀ numbers : List κ, ∃ sorted,
      insertSort numbers = .ok sorted ∧ sorted.Pairwise (· ≤ ·) ∧ sorted.Perm numbers) ∧
    ∀ numbers : List (Tagged κ β), ∃ sorted, insertSort numbers = .ok sorted ∧
      insertSort (numbers.map Tagged.key) = .ok (sorted.map Tagged.key) ∧
      List.Stable Tagged.key numbers sorted := by
  have hplain : ∀ numbers : List κ, ∃ sorted, insertSort numbers = .ok sorted ∧ sorted.Pairwise (· ≤ ·) ∧
      sorted.Perm numbers := by
    intro numbers
    obtain ⟨sorted, hrun, hsorted, hperm, _⟩ := insertSort_spec id (fun _ _ => .rfl) numbers
    exact ⟨sorted, hrun, hsorted, hperm⟩
  refine ⟨hplain, fun numbers => ?_⟩
  obtain ⟨sorted, hrun, hsorted, hperm, hstable⟩ := insertSort_spec Tagged.key (fun _ _ => Tagged.lt_iff) numbers
  obtain ⟨keys, hrun', hkeys, hperm'⟩ := hplain (numbers.map Tagged.key)
  have hsame : keys = sorted.map Tagged.key := List.eq_of_perm_sorted (List.pairwise_map.mpr hsorted) hkeys
    (hperm'.trans (hperm.map Tagged.key).symm)
  exact ⟨sorted, hrun, hsame ▸ hrun', hstable⟩

/-! ## Shell sort -/

variable {α : Type} [LinearOrder α]

theorem shellPass_perm (increment : Step) (data : List α) : ∃ data',
    countUp increment data.length (insertAt (· > ·) increment) data = .ok data' ∧ data'.Perm data := by
  have hpos := increment.property
  refine countUp_invariant (fun _ (s : List α) => s.Perm data) (.refl _) fun i s hle hlt hperm => ?_
  obtain ⟨s', hinsert, hperm'⟩ := insertAt_perm (· > ·) increment s i (by omega) (by rw [hperm.length_eq]; omega)
  exact ⟨s', hinsert, hperm'.trans hperm⟩

/-- The pass by a step of one sorts, whatever the passes before it have done. -/
theorem shellPass_one (data : List α) (hdata : data ≠ []) : ∃ sorted,
    countUp 1 data.length (insertAt (· > ·) ⟨1, by decide⟩) data = .ok sorted ∧
      sorted.Pairwise (· ≥ ·) ∧ sorted.Perm data := by
  obtain ⟨x, rest, rfl⟩ := List.exists_cons_of_ne_nil hdata
  have hstart : Inserted OrderDual.toDual (x :: rest) 1 (x :: rest) :=
    ⟨⟨[x], rest, rfl, rfl, List.pairwise_singleton _ x⟩, .refl _, .refl _⟩
  obtain ⟨sorted, hrun, hsorted, hperm, _⟩ := hstart.loop (· > ·) (fun a b => by simp)
    (by rw [List.length_cons]; omega)
  exact ⟨sorted, hrun, hsorted, hperm⟩

theorem shellRounds_of_le {increment : ℤ} {data : List α} (h : increment ≤ 0) :
    shellRounds increment data = .ok data := by
  rw [shellRounds, dif_neg (by omega)]
  rfl

theorem shellRounds_spec (increment : ℤ) (data : List α) (hpos : 0 < increment) (hdata : data ≠ []) :
    ∃ sorted, shellRounds increment data = .ok sorted ∧ sorted.Pairwise (· ≥ ·) ∧ sorted.Perm data := by
  induction hn : increment.toNat using Nat.strongRecOn generalizing increment data with
  | ind n ih =>
  by_cases hone : increment = 1
  · subst hone
    obtain ⟨sorted, hrun, hsorted, hperm⟩ := shellPass_one data hdata
    refine ⟨sorted, ?_, hsorted, hperm⟩
    rw [shellRounds, dif_pos (by omega), hrun, Exn.ok_bind, shellRounds_of_le (by decide)]
  · obtain ⟨data', hrun, hperm⟩ := shellPass_perm ⟨increment, hpos⟩ data
    have hhalf : increment.tdiv 2 = increment / 2 := Int.tdiv_eq_ediv_of_nonneg (by omega)
    have hdata' : data' ≠ [] := fun h => hdata (by simpa [h] using hperm)
    obtain ⟨sorted, hrest, hsorted, hperm'⟩ := ih (increment.tdiv 2).toNat (by omega) _ data' (by omega) hdata' rfl
    refine ⟨sorted, ?_, hsorted, hperm'.trans hperm⟩
    rw [shellRounds, dif_pos hpos, hrun, Exn.ok_bind, hrest]

/-- It comes to its end without an exception. -/
theorem shellSort_sorts (data : List α) : ∃ sorted, shellSort data = .ok sorted ∧
    sorted.Pairwise (· ≥ ·) ∧ sorted.Perm data := by
  have hhalf : (data.length : ℤ).tdiv 2 = data.length / 2 := Int.tdiv_eq_ediv_of_nonneg (by omega)
  rw [shellSort]
  by_cases htwo : 2 ≤ data.length
  · exact shellRounds_spec _ data (by omega) (List.ne_nil_of_length_pos (by omega))
  · exact ⟨data, shellRounds_of_le (by omega), List.pairwise_of_length_le_one (by omega), .refl _⟩

end MyDemo.Sort

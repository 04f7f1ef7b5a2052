import MyDemo.Sort.InsertSort
import MyDemo.Lib.ListEntries
import MyDemo.Lib.SortedList

/-!
# What the insertion of one element does

While elements move up, the place `j` is a hole: its element is kept in `temp`.
-/

namespace MyDemo.Sort

open JArray CountingLoop

variable {α : Type}

/-! ## By any step -/

theorem shift_perm (passes : α → α → Bool) (increment : Step) (temp : α) (numbers : List α) (j : ℤ) (hj : 0 ≤ j)
    (hlt : j < numbers.length) :
    ∃ numbers' j', shift passes increment temp numbers j = .ok (numbers', j') ∧ 0 ≤ j' ∧
      j' < numbers'.length ∧ (numbers'.set j'.toNat temp).Perm (numbers.set j.toNat temp) := by
  fun_induction shift passes increment temp numbers j with
  | case1 numbers j hge ih =>
      have hpos := increment.property
      obtain ⟨x, hx⟩ : ∃ x, get numbers (j - increment) = .ok x := exists_get (by omega) (by omega)
      rw [hx, Exn.ok_bind]
      split
      · have hx' := (getElem?_of_get hx).2
        obtain ⟨numbers', j', hshift, hj', hlt', hperm⟩ := ih (numbers.set j.toNat x) (by omega)
          (by rw [List.length_set]; omega)
        refine ⟨numbers', j', ?_, hj', hlt', hperm.trans ?_⟩
        · rw [set_eq hj hlt, Exn.ok_bind, hshift]
        · exact List.set_set_perm_set (by omega) hx' (by omega)
      · exact ⟨numbers, j, rfl, hj, hlt, .refl _⟩
  | case2 numbers j => exact ⟨numbers, j, rfl, hj, hlt, .refl _⟩

theorem insertAt_perm (passes : α → α → Bool) (increment : Step) (numbers : List α) (i : ℤ) (hi : 0 ≤ i)
    (hlt : i < numbers.length) :
    ∃ numbers', insertAt passes increment numbers i = .ok numbers' ∧ numbers'.Perm numbers := by
  obtain ⟨temp, htemp⟩ := exists_get hi hlt
  obtain ⟨numbers', j, hshift, hj, hlt', hperm⟩ :=
    shift_perm passes increment temp numbers i hi hlt
  refine ⟨numbers'.set j.toNat temp, ?_, ?_⟩
  · rw [insertAt, htemp, Exn.ok_bind, hshift, Exn.ok_bind]
    exact set_eq hj hlt'
  · have hsame : numbers.set i.toNat temp = numbers := by
      obtain ⟨hlength, rfl⟩ := List.getElem?_eq_some_iff.mp (getElem?_of_get htemp).2
      exact List.set_getElem_self hlength
    exact hsame ▸ hperm

/-! ## By a step of one -/

/-- The elements that `temp` passes move up, and the hole is left before them. -/
theorem shift_one (passes : α → α → Bool) (temp : α) (pre post : List α) (x : α) (j : ℤ) (hj : j = pre.length) :
    ∃ before after z, pre = before ++ after ∧ (∀ y ∈ before.getLast?, passes temp y = false) ∧
      (∀ y ∈ after, passes temp y = true) ∧ shift passes ⟨1, by decide⟩ temp (pre ++ x :: post) j =
        .ok (before ++ z :: (after ++ post), before.length) := by
  induction pre using List.reverseRecOn generalizing x post j with
  | nil =>
      refine ⟨[], [], x, rfl, nofun, nofun, ?_⟩
      rw [shift, if_neg (by simp [hj])]
      simp [hj, pure, Except.pure]
  | append_singleton pre y ih =>
      rw [List.length_append, List.length_singleton] at hj
      have hy : get (pre ++ [y] ++ x :: post) (j - 1) = .ok y := by
        rw [List.append_assoc, List.singleton_append]
        exact get_append (by omega)
      rw [shift, if_pos (show j ≥ 1 by omega), hy, Exn.ok_bind]
      split
      · next hpasses =>
          obtain ⟨before, after, z, rfl, hbefore, hafter, hshift⟩ := ih (y :: post) y (j - 1) (by omega)
          refine ⟨before, after ++ [y], z, by simp, hbefore, fun b hb => ?_, ?_⟩
          · rcases List.mem_append.mp hb with hb | hb
            · exact hafter b hb
            · exact List.mem_singleton.mp hb ▸ hpasses
          · rw [set_append (by rw [List.length_append, List.length_singleton]; exact hj), Exn.ok_bind,
              List.append_assoc, List.singleton_append, hshift]
            simp
      · next hstays =>
          refine ⟨pre ++ [y], [], x, by simp, fun b hb => ?_, nofun, ?_⟩
          · rw [List.getLast?_concat, Option.mem_some_iff] at hb
            exact hb ▸ by simpa using hstays
          · simp [hj, pure, Except.pure]

theorem insertAt_one (passes : α → α → Bool) (pre post : List α) (temp : α) (i : ℤ) (hi : i = pre.length) :
    ∃ before after, pre = before ++ after ∧ (∀ y ∈ before.getLast?, passes temp y = false) ∧
      (∀ y ∈ after, passes temp y = true) ∧ insertAt passes ⟨1, by decide⟩ (pre ++ temp :: post) i =
        .ok (before ++ temp :: (after ++ post)) := by
  obtain ⟨before, after, z, hpre, hbefore, hafter, hshift⟩ :=
    shift_one passes temp pre post temp i hi
  refine ⟨before, after, hpre, hbefore, hafter, ?_⟩
  rw [insertAt, get_append hi, Exn.ok_bind, hshift, Exn.ok_bind]
  exact set_append rfl

/-! ## All elements, by a step of one -/

variable {κ : Type} [LinearOrder κ] {key : α → κ} {numbers : List α}

/-- The elements before `i` are in order, and those with the same key are where they were before one another. -/
structure Inserted (key : α → κ) (numbers : List α) (i : ℤ) (array : List α) : Prop where
  sorted : ∃ done rest, array = done ++ rest ∧ (done.length : ℤ) = i ∧ done.Pairwise (key · ≤ key ·)
  perm : array.Perm numbers
  stable : List.Stable key numbers array

theorem Inserted.step {array : List α} {i : ℤ} (h : Inserted key numbers i array) (passes : α → α → Bool)
    (hpasses : ∀ a b, passes a b = true ↔ key a < key b) (hi : i < numbers.length) :
    ∃ array', insertAt passes ⟨1, by decide⟩ array i = .ok array' ∧ Inserted key numbers (i + 1) array' := by
  obtain ⟨⟨done, rest, rfl, hlength, hsorted⟩, hperm, hstable⟩ := h
  have hsum := hperm.length_eq
  rw [List.length_append] at hsum
  obtain ⟨temp, rest, rfl⟩ := List.exists_cons_of_length_pos (by omega : 0 < rest.length)
  obtain ⟨before, after, rfl, hbefore, hafter, hinsert⟩ := insertAt_one passes done rest temp i hlength.symm
  have hlast : ∀ b ∈ before.getLast?, key b ≤ key temp := fun b hb =>
    not_lt.mp fun hlt => by simpa [(hpasses temp b).mpr hlt] using hbefore b hb
  have hgreater : ∀ b ∈ after, key temp < key b := fun b hb => (hpasses temp b).mp (hafter b hb)
  refine ⟨_, hinsert, ⟨before ++ temp :: after, rest, by simp, ?_, ?_⟩, ?_, ?_⟩
  · simp only [List.length_append, List.length_cons] at hlength ⊢
    omega
  · exact List.pairwise_insert hsorted hlast hgreater
  · refine List.Perm.trans ?_ hperm
    rw [List.append_assoc]
    exact List.perm_middle.symm.append_left before
  · refine hstable.trans ?_
    have hmoved : List.Stable key (before ++ after ++ [temp] ++ rest) (before ++ temp :: after ++ rest) :=
      (List.Stable.insert hgreater).append_right rest
    simpa using hmoved

theorem Inserted.loop {array : List α} {i : ℤ} (h : Inserted key numbers i array) (passes : α → α → Bool)
    (hpasses : ∀ a b, passes a b = true ↔ key a < key b) (hi : i ≤ numbers.length) :
    ∃ sorted, countUp i numbers.length (insertAt passes ⟨1, by decide⟩) array = .ok sorted ∧
      sorted.Pairwise (key · ≤ key ·) ∧ sorted.Perm numbers ∧ List.Stable key numbers sorted := by
  obtain ⟨sorted, hrun, ⟨done, rest, rfl, hlength, hsorted⟩, hperm, hstable⟩ :=
    countUp_invariant (Inserted key numbers) h fun i s _ hlt hinv => hinv.step passes hpasses hlt
  have hsum := hperm.length_eq
  rw [List.length_append] at hsum
  obtain rfl : rest = [] := List.length_eq_zero_iff.mp (by omega)
  rw [List.append_nil] at hrun hperm hstable
  exact ⟨done, hrun, hsorted, hperm, hstable⟩

end MyDemo.Sort

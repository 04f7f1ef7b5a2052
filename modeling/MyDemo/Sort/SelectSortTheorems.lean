import MyDemo.Sort.SelectSort
import MyDemo.Lib.SortedList

/-!
# Selection sort sorts, from the beginning of the array on
-/

namespace MyDemo.Sort

open JArray CountingLoop

variable {α : Type} [LinearOrder α]

/-- The inner loop stands at `j`. Of the element at `i` and those after `j`, the one at `k` is a smallest. -/
structure Smallest (numbers : List α) (i j k : ℤ) : Prop where
  low : i ≤ k
  high : k < numbers.length
  value : ∃ m, get numbers k = .ok m ∧ ∀ p x, p = i ∨ j < p → get numbers p = .ok x → m ≤ x

theorem Smallest.step {numbers : List α} {i j k : ℤ} (h : Smallest numbers i j k) (hi : 0 ≤ i) (hij : i < j)
    (hj : j < numbers.length) :
    ∃ k', select numbers k j = .ok k' ∧ Smallest numbers i (j - 1) k' := by
  obtain ⟨hlow, hhigh, m, hm, hle⟩ := h
  obtain ⟨y, hy⟩ : ∃ y, get numbers j = .ok y := exists_get (by omega) hj
  have hstep : ∀ (p : ℤ) (x n : α), n ≤ y → n ≤ m → p = i ∨ j - 1 < p → get numbers p = .ok x → n ≤ x := by
    intro p x n hny hnm hp hx
    by_cases hpj : p = j
    · rw [hpj, hy, Except.ok.injEq] at hx
      exact hx ▸ hny
    · exact hnm.trans (hle p x (by omega) hx)
  rw [select, hy, Exn.ok_bind, hm, Exn.ok_bind]
  split
  · next hlt => exact ⟨j, rfl, hij.le, hj, y, hy, fun p x => hstep p x y le_rfl hlt.le⟩
  · next hge => exact ⟨k, rfl, hlow, hhigh, m, hm, fun p x => hstep p x m (le_of_not_gt hge) le_rfl⟩

theorem Smallest.start {front rest : List α} {x : α} {i : ℤ} (hi : i = front.length) :
    Smallest (front ++ x :: rest) i (front.length + (x :: rest).length - 1) i := by
  refine ⟨le_rfl, by simp; omega, x, get_append hi, fun p y hp hy => ?_⟩
  obtain ⟨pre, post, harray, hpre⟩ := get_eq_ok.mp hy
  have hlength := congrArg List.length harray
  simp only [List.length_append, List.length_cons] at hlength hp
  obtain rfl : p = i := by omega
  rw [get_append hi, Except.ok.injEq] at hy
  exact hy.le

/-- The whole of `rest` has been looked at. -/
theorem Smallest.split {front rest : List α} {i k : ℤ} (h : Smallest (front ++ rest) i i k)
    (hi : i = front.length) : ∃ before m after, rest = before ++ m :: after ∧
      k = (front ++ before).length ∧ ∀ a ∈ rest, m ≤ a := by
  obtain ⟨hlow, _, m, hm, hle⟩ := h
  obtain ⟨pre, after, harray, hpre⟩ := get_eq_ok.mp hm
  have hfront : front <+: pre := List.prefix_of_prefix_length_le ⟨rest, rfl⟩ ⟨m :: after, harray.symm⟩ (by omega)
  obtain ⟨before, rfl⟩ := hfront
  rw [List.append_assoc] at harray
  have hrest := List.append_cancel_left harray
  refine ⟨before, m, after, hrest, hpre, fun a ha => ?_⟩
  obtain ⟨l, r, rfl⟩ := List.append_of_mem ha
  refine hle (front ++ l).length a ?_ ?_
  · rw [List.length_append]
    omega
  · rw [← List.append_assoc]
    exact get_append rfl

/-- The round `i` brings a smallest of the elements from `i` on to the place `i`. -/
theorem selectRound_spec (size i : ℤ) (front rest : List α) (hrest : rest ≠ [])
    (hsize : size = front.length + rest.length) (hi : i = front.length) :
    ∃ m rest', selectRound size (front ++ rest) i = .ok (front ++ m :: rest') ∧
      (m :: rest').Perm rest ∧ ∀ a ∈ rest', m ≤ a := by
  obtain ⟨x, rest, rfl⟩ := List.exists_cons_of_ne_nil hrest
  obtain ⟨k, hk, hsmallest⟩ : ∃ k, countDown (size - 1) i (select (front ++ x :: rest)) i = .ok k ∧
      Smallest (front ++ x :: rest) i (min i (size - 1)) k := by
    refine countDown_invariant (Smallest (front ++ x :: rest) i) (hsize ▸ .start hi) fun j k hlo hle h =>
      h.step (by omega) hlo (by rw [List.length_append]; omega)
  rw [List.length_cons] at hsize
  rw [min_eq_left (by omega)] at hsmallest
  obtain ⟨before, m, after, hsplit, hkplace, hle⟩ := hsmallest.split hi
  cases before with
  | nil =>
      obtain ⟨rfl, rfl⟩ := List.cons_eq_cons.mp hsplit
      obtain rfl : k = i := by rw [hkplace, hi, List.append_nil]
      refine ⟨x, rest, ?_, .refl _, fun a ha => hle a (List.mem_cons_of_mem x ha)⟩
      rw [selectRound, hk, Exn.ok_bind, swap_self hi]
  | cons y before =>
      rw [List.cons_append] at hsplit
      obtain ⟨rfl, rfl⟩ := List.cons_eq_cons.mp hsplit
      have hperm : (m :: (before ++ x :: after)).Perm (x :: (before ++ m :: after)) :=
        ((List.perm_middle.cons m).trans (.swap x m _)).trans (List.perm_middle.symm.cons x)
      refine ⟨m, before ++ x :: after, ?_, hperm, fun a ha => ?_⟩
      · rw [selectRound, hk, Exn.ok_bind, swap_append hi (by simp at hkplace; omega)]
      · exact hle a (hperm.mem_iff.mp (List.mem_cons_of_mem m ha))

/-- The first elements are in order, and nothing after them is smaller. -/
structure Selected (numbers front rest : List α) : Prop where
  perm : (front ++ rest).Perm numbers
  le : ∀ a ∈ front, ∀ b ∈ rest, a ≤ b
  sorted : front.Pairwise (· ≤ ·)

theorem Selected.round {numbers front rest rest' : List α} {m : α} (h : Selected numbers front rest)
    (hperm : (m :: rest').Perm rest) (hm : ∀ a ∈ rest', m ≤ a) : Selected numbers (front ++ [m]) rest' where
  perm := by
    rw [List.append_assoc]
    exact (hperm.append_left front).trans h.perm
  le a ha b hb := by
    rcases List.mem_append.mp ha with ha | ha
    · exact h.le a ha b (hperm.mem_iff.mp (List.mem_cons_of_mem m hb))
    · exact List.mem_singleton.mp ha ▸ hm b hb
  sorted := by
    refine List.pairwise_append.mpr ⟨h.sorted, List.pairwise_singleton _ m, fun a ha b hb => ?_⟩
    exact List.mem_singleton.mp hb ▸ h.le a ha m (hperm.mem_iff.mp (List.mem_cons_self))

/-- One element is selected in each round. -/
theorem selectRounds_spec (numbers : List α) (i : ℕ) (hi : i ≤ numbers.length) :
    ∃ front rest, selectRounds numbers i = .ok (front ++ rest) ∧ Selected numbers front rest ∧
      front.length = i := by
  obtain ⟨s, hs, front, rest, rfl, hselected, hlength⟩ : ∃ s, selectRounds numbers i = .ok s ∧
      ∃ front rest, s = front ++ rest ∧ Selected numbers front rest ∧ (front.length : ℤ) = max 0 i := by
    refine countUp_invariant (fun i s => ∃ front rest, s = front ++ rest ∧ Selected numbers front rest ∧
      (front.length : ℤ) = i) ⟨[], numbers, rfl, ⟨.refl _, nofun, .nil⟩, rfl⟩ ?_
    rintro i s _ hlt ⟨front, rest, rfl, hselected, hlength⟩
    have hsum := hselected.perm.length_eq
    rw [List.length_append] at hsum
    obtain ⟨m, rest', hround, hperm, hm⟩ := selectRound_spec numbers.length i front rest
      (List.ne_nil_of_length_pos (by omega)) (by omega) hlength.symm
    exact ⟨_, hround, front ++ [m], rest', by simp, hselected.round hperm hm, by simp [hlength]⟩
  exact ⟨front, rest, hs, hselected, by omega⟩

/-- It comes to its end without an exception, and after the round `i` the first `i + 1` elements do not change
any more. -/
theorem selectSort_sorts (numbers : List α) : ∃ sorted, selectSort numbers = .ok sorted ∧
    sorted.Pairwise (· ≤ ·) ∧ sorted.Perm numbers ∧ ∀ i < numbers.length,
      ∃ selected, selectRounds numbers (i + 1) = .ok selected ∧
        selected.take (i + 1) = sorted.take (i + 1) := by
  obtain ⟨sorted, rest, hrun, hselected, hlength⟩ := selectRounds_spec numbers numbers.length le_rfl
  have hsum := hselected.perm.length_eq
  rw [List.length_append] at hsum
  obtain rfl : rest = [] := List.length_eq_zero_iff.mp (by omega)
  rw [List.append_nil] at hrun
  have hperm : sorted.Perm numbers := by simpa using hselected.perm
  refine ⟨sorted, hrun, hselected.sorted, hperm, fun i hi => ?_⟩
  obtain ⟨front, rest, hrun', hselected', hlength'⟩ := selectRounds_spec numbers (i + 1) hi
  refine ⟨_, hrun', ?_⟩
  rw [← hlength', List.take_left, List.take_eq_of_le hselected'.le hselected'.sorted hselected.sorted
    (hperm.trans hselected'.perm.symm)]

end MyDemo.Sort

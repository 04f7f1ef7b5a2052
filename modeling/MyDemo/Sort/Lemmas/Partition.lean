import MyDemo.Sort.QuickSort
import Mathlib.Data.List.Induction

/-!
# What getMiddle does to a segment

The array is written as what comes before the segment, the segment, and what comes after it. Within the
segment, one place is a hole, whose element is kept elsewhere: first in `temp`, then at the other end.
-/

namespace MyDemo.Sort

open JArray

variable {α : Type} [LinearOrder α] {temp : α} {low high : ℤ}

/-! ## The scans -/

theorem scanHigh_of_lt {numbers : List α} {x : α} (hlt : low < high) (hx : get numbers high = .ok x) :
    scanHigh numbers temp low high = if temp ≤ x then scanHigh numbers temp low (high - 1) else .ok high := by
  rw [scanHigh, if_pos hlt, hx]

theorem scanLow_of_lt {numbers : List α} {x : α} (hlt : low < high) (hx : get numbers low = .ok x) :
    scanLow numbers temp low high = if x < temp then scanLow numbers temp (low + 1) high else .ok low := by
  rw [scanLow, if_pos hlt, hx]

/-- From the high end, down to the hole `x` at most. -/
theorem scanHigh_spec (temp : α) (before after : List α) (x : α) (rest : List α)
    (hlow : low = before.length) (hhigh : high = before.length + rest.length) :
    ∃ left big, rest = left ++ big ∧ (∀ y ∈ big, temp ≤ y) ∧ (∀ y ∈ left.getLast?, y < temp) ∧
      scanHigh (before ++ x :: rest ++ after) temp low high = .ok (before.length + left.length) := by
  induction rest using List.reverseRecOn generalizing after high with
  | nil =>
      refine ⟨[], [], rfl, nofun, nofun, ?_⟩
      rw [scanHigh, if_neg (by simp at hhigh; omega)]
      simp [hhigh]
  | append_singleton rest y ih =>
      rw [List.length_append, List.length_singleton] at hhigh
      have harray : before ++ x :: (rest ++ [y]) ++ after = before ++ x :: rest ++ y :: after := by simp
      have hy : get (before ++ x :: (rest ++ [y]) ++ after) high = .ok y := by
        rw [harray]
        exact get_append (by simp; omega)
      rw [scanHigh_of_lt (by omega) hy, harray]
      split
      · next hle =>
          obtain ⟨left, big, rfl, hbig, hlast, hscan⟩ := ih (y :: after) (by omega : high - 1 = _)
          refine ⟨left, big ++ [y], by simp, fun z hz => ?_, hlast, hscan⟩
          rcases List.mem_append.mp hz with hz | hz
          · exact hbig z hz
          · exact List.mem_singleton.mp hz ▸ hle
      · next hlt =>
          refine ⟨rest ++ [y], [], by simp, nofun, fun z hz => ?_, ?_⟩
          · rw [List.getLast?_concat, Option.mem_some_iff] at hz
            exact hz ▸ lt_of_not_ge hlt
          · simp; omega

/-- From the low end, up to the hole `x` at most. -/
theorem scanLow_spec (temp : α) (low : ℤ) (before after : List α) (x : α) (rest : List α)
    (hlow : low = before.length) (hhigh : high = before.length + rest.length) :
    ∃ small left, rest = small ++ left ∧ (∀ y ∈ small, y < temp) ∧ (∀ y ∈ left.head?, temp ≤ y) ∧
      scanLow (before ++ rest ++ x :: after) temp low high = .ok (before.length + small.length) := by
  induction rest generalizing before low with
  | nil =>
      refine ⟨[], [], rfl, nofun, nofun, ?_⟩
      rw [scanLow, if_neg (by simp at hhigh; omega)]
      simp [hlow]
  | cons y rest ih =>
      rw [List.length_cons] at hhigh
      have harray : before ++ y :: rest ++ x :: after = before ++ [y] ++ rest ++ x :: after := by simp
      have hy : get (before ++ y :: rest ++ x :: after) low = .ok y := by
        rw [List.append_assoc, List.cons_append]
        exact get_append hlow
      rw [scanLow_of_lt (by omega) hy, harray]
      split
      · next hlt =>
          obtain ⟨small, left, rfl, hsmall, hhead, hscan⟩ :=
            ih (low + 1) (before ++ [y]) (by simp; omega) (by simp; omega)
          refine ⟨y :: small, left, rfl, fun z hz => ?_, hhead, ?_⟩
          · rcases List.mem_cons.mp hz with rfl | hz
            · exact hlt
            · exact hsmall z hz
          · rw [hscan]
            simp
            omega
      · next hge =>
          refine ⟨[], y :: rest, rfl, nofun, fun z hz => ?_, by simp [hlow]⟩
          cases hz
          exact le_of_not_gt hge

/-! ## One sweep -/

theorem sweep_of_scans {numbers numbers₁ numbers₂ : List α} {x y : α} {low' high' : ℤ}
    (hhigh : scanHigh numbers temp low high = .ok high') (hx : get numbers high' = .ok x)
    (hset : set numbers low x = .ok numbers₁) (hlow : scanLow numbers₁ temp low high' = .ok low')
    (hy : get numbers₁ low' = .ok y) (hset' : set numbers₁ high' y = .ok numbers₂) :
    sweep numbers temp low high = .ok (numbers₂, low', high') := by
  simp only [sweep, Exn.bind_eq_ok]
  exact ⟨_, hhigh, x, hx, _, hset, _, hlow, y, hy, _, hset', rfl⟩

/-- The second half of a sweep, with the hole `x` at the high end. -/
theorem sweep_low (temp : α) (before after : List α) (x : α) (rest : List α) (hlow : low = before.length) :
    ∃ small z left, (small ++ left).Perm rest ∧ (∀ y ∈ small, y < temp) ∧ ∃ low' y,
      scanLow (before ++ rest ++ x :: after) temp low (before.length + rest.length) = .ok low' ∧
      get (before ++ rest ++ x :: after) low' = .ok y ∧
      set (before ++ rest ++ x :: after) (before.length + rest.length) y =
        .ok (before ++ small ++ z :: left ++ after) ∧
      low' = before.length + small.length ∧ rest.length = small.length + left.length := by
  obtain ⟨small, left, rfl, hsmall, _, hscan⟩ := scanLow_spec temp low before after x rest hlow rfl
  cases left with
  | nil =>
      refine ⟨small, x, [], .refl _, hsmall, _, x, hscan, ?_, ?_, rfl, by simp⟩
      · exact get_append (by simp)
      · rw [set_append (by simp)]
        simp
  | cons y left =>
      refine ⟨small, y, left ++ [y], ?_, hsmall, _, y, hscan, ?_, ?_, rfl, by simp⟩
      · exact (List.perm_append_singleton y left).append_left small
      · rw [← List.append_assoc, List.append_assoc (before ++ small)]
        exact get_append (by simp)
      · rw [set_append (by simp)]
        simp

theorem sweep_spec (temp : α) (before after : List α) (x : α) (rest : List α)
    (hlow : low = before.length) (hhigh : high = before.length + rest.length) :
    ∃ small z left big, (small ++ left ++ big).Perm rest ∧ (∀ y ∈ small, y < temp) ∧
      (∀ y ∈ big, temp ≤ y) ∧ sweep (before ++ x :: rest ++ after) temp low high =
        .ok (before ++ small ++ z :: left ++ (big ++ after), before.length + small.length,
          before.length + small.length + left.length) := by
  obtain ⟨front, big, rfl, hbig, hlast, hscan⟩ := scanHigh_spec temp before after x rest hlow hhigh
  rcases List.eq_nil_or_concat' front with rfl | ⟨front, y, rfl⟩
  · refine ⟨[], x, [], big, by simp, nofun, hbig, ?_⟩
    have harray : before ++ x :: ([] ++ big) ++ after = before ++ x :: (big ++ after) := by simp
    have hx : get (before ++ x :: (big ++ after)) before.length = .ok x := get_append rfl
    have hset : set (before ++ x :: (big ++ after)) before.length x = .ok (before ++ x :: (big ++ after)) :=
      set_append rfl
    rw [harray] at hscan ⊢
    rw [hlow] at hscan ⊢
    refine (sweep_of_scans hscan (by simpa using hx) hset ?_ hx (by simpa using hset)).trans (by simp)
    rw [scanLow, if_neg (by simp)]
  · have harray : before ++ x :: (front ++ [y] ++ big) ++ after =
        before ++ x :: front ++ y :: (big ++ after) := by simp
    have hset : set (before ++ x :: front ++ y :: (big ++ after)) low y =
        .ok (before ++ y :: front ++ y :: (big ++ after)) := by
      rw [List.append_assoc, List.cons_append, set_append hlow]
      simp
    obtain ⟨small, z, left, hperm, hsmall, low', w, hscan', hw, hset', rfl, hlength⟩ :=
      sweep_low temp before (big ++ after) y (y :: front) hlow
    have hhigh' : (before.length : ℤ) + (front ++ [y]).length = before.length + (y :: front).length := by simp
    rw [harray, hhigh'] at hscan
    rw [harray]
    refine ⟨small, z, left, big, ?_, hsmall, hbig, ?_⟩
    · exact (hperm.trans (List.perm_append_singleton y front).symm).append_right big
    · refine (sweep_of_scans hscan (get_append (by simp)) hset hscan' hw hset').trans ?_
      rw [hlength]
      simp only [Int.natCast_add, Int.add_assoc]

/-! ## The whole partition -/

theorem partition_of_sweep {numbers numbers' : List α} {low' high' : ℤ} (hlt : low < high)
    (h : sweep numbers temp low high = .ok (numbers', low', high')) :
    partition numbers temp low high = partition numbers' temp low' high' := by
  rw [partition, dif_pos hlt]
  split
  · next he => rw [h] at he; cases he
  · next hs => rw [h] at hs; cases hs; rfl

theorem partition_spec (temp : α) (low high : ℤ) (before after : List α) (x : α) (rest : List α)
    (hlow : low = before.length) (hhigh : high = before.length + rest.length) :
    ∃ small z big, (small ++ big).Perm rest ∧ (∀ y ∈ small, y < temp) ∧ (∀ y ∈ big, temp ≤ y) ∧
      partition (before ++ x :: rest ++ after) temp low high =
        .ok (before ++ small ++ z :: (big ++ after), before.length + small.length) := by
  induction hn : rest.length using Nat.strong_induction_on generalizing before after x rest low high with
  | _ n ih =>
  cases n with
  | zero =>
      rw [List.length_eq_zero_iff] at hn
      subst hn
      refine ⟨[], x, [], .refl _, nofun, nofun, ?_⟩
      rw [partition, dif_neg (by simp at hhigh; omega)]
      simp [hlow]
  | succ n =>
      have hlt : low < high := by omega
      obtain ⟨small, z, left, big, hperm, hsmall, hbig, hsweep⟩ :=
        sweep_spec temp before after x rest hlow hhigh
      have hbounds := sweep_bounds hlt hsweep
      obtain ⟨small', z', big', hperm', hsmall', hbig', hrest⟩ :=
        ih left.length (by omega) (before.length + small.length)
          (before.length + small.length + left.length) (before ++ small) (big ++ after) z left
          (by simp) (by simp) rfl
      refine ⟨small ++ small', z', big' ++ big, ?_, ?_, ?_, ?_⟩
      · refine List.Perm.trans ?_ hperm
        rw [List.append_assoc, ← List.append_assoc small', List.append_assoc small]
        exact (hperm'.append_right big).append_left small
      · intro y hy
        exact (List.mem_append.mp hy).elim (hsmall y) (hsmall' y)
      · intro y hy
        exact (List.mem_append.mp hy).elim (hbig' y) (hbig y)
      · rw [partition_of_sweep hlt hsweep, hrest]
        simp [Int.add_assoc]

/-- The first element goes to its place, with the smaller ones before it and the others after it. -/
theorem getMiddle_spec (low high : ℤ) (before after : List α) (pivot : α) (rest : List α)
    (hlow : low = before.length) (hhigh : high = before.length + rest.length) :
    ∃ small big, (small ++ big).Perm rest ∧ (∀ y ∈ small, y < pivot) ∧ (∀ y ∈ big, pivot ≤ y) ∧
      getMiddle (before ++ pivot :: rest ++ after) low high =
        .ok (before ++ small ++ pivot :: (big ++ after), before.length + small.length) := by
  obtain ⟨small, z, big, hperm, hsmall, hbig, hpartition⟩ :=
    partition_spec pivot low high before after pivot rest hlow hhigh
  refine ⟨small, big, hperm, hsmall, hbig, ?_⟩
  have htemp : get (before ++ pivot :: rest ++ after) low = .ok pivot := by
    rw [List.append_assoc, List.cons_append]
    exact get_append hlow
  simp only [getMiddle, Exn.bind_eq_ok]
  exact ⟨pivot, htemp, _, hpartition, _, set_append (by simp), rfl⟩

end MyDemo.Sort

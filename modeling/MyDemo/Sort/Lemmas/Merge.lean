import MyDemo.Sort.MergeSort

/-!
# What merge does to two segments that lie side by side
-/

namespace MyDemo.Sort

open JArray

variable {α : Type} {nums segment : List α} {i : ℤ} {x : α}

/-- The segment lies in the array from place `i` on. -/
def LiesAt (nums : List α) (i : ℤ) (segment : List α) : Prop :=
  ∃ before after, nums = before ++ segment ++ after ∧ i = before.length

theorem LiesAt.get_head (h : LiesAt nums i (x :: segment)) : get nums i = .ok x := by
  obtain ⟨before, after, rfl, hi⟩ := h
  rw [List.append_assoc, List.cons_append]
  exact get_append hi

theorem LiesAt.tail (h : LiesAt nums i (x :: segment)) : LiesAt nums (i + 1) segment := by
  obtain ⟨before, after, rfl, hi⟩ := h
  exact ⟨before ++ [x], after, by simp, by simp [hi]⟩

/-! ## The three loops -/

theorem copyRest_spec (last : ℤ) (segment : List α) {i k : ℤ} (done blank : List α)
    (hat : LiesAt nums i segment) (hlast : last + 1 = i + segment.length) (hk : k = done.length)
    (hblank : segment.length ≤ blank.length) :
    copyRest nums last (done ++ blank) i k =
      .ok (done ++ segment ++ blank.drop segment.length, k + segment.length) := by
  induction segment generalizing i k done blank with
  | nil =>
      rw [copyRest, if_neg (by simp at hlast; omega)]
      simp [pure, Except.pure]
  | cons x segment ih =>
      rw [List.length_cons] at hlast hblank
      obtain ⟨b, blank, rfl⟩ := List.exists_cons_of_length_pos (by omega : 0 < blank.length)
      rw [List.length_cons] at hblank
      rw [copyRest, if_pos (by omega), hat.get_head, Exn.ok_bind, set_append hk, Exn.ok_bind,
        List.append_cons, ih (done ++ [x]) blank hat.tail (by omega) (by simp; omega) (by omega)]
      simp
      omega

theorem copyBack_spec (low : ℤ) (temp : List α) (done old rest before after : List α)
    (hlow : low = before.length) (htemp : temp = done ++ rest) (hold : old.length = rest.length) :
    copyBack (before ++ done ++ old ++ after) low temp done.length =
      .ok (before ++ temp ++ after) := by
  induction rest generalizing done old with
  | nil =>
      obtain rfl := List.length_eq_zero_iff.mp hold
      rw [copyBack, if_neg (by simp [htemp])]
      simp [htemp, pure, Except.pure]
  | cons x rest ih =>
      obtain ⟨y, old, rfl⟩ := List.exists_cons_of_length_pos (by simp [hold] : 0 < old.length)
      have hx : get temp done.length = .ok x := htemp ▸ get_append rfl
      have hset : set (before ++ done ++ (y :: old) ++ after) (done.length + low) x =
          .ok (before ++ (done ++ [x]) ++ old ++ after) := by
        rw [List.append_assoc, List.cons_append, set_append (by rw [List.length_append]; omega)]
        simp
      have hnext := ih (done ++ [x]) old (by simp [htemp]) (by simpa using hold)
      rw [copyBack, if_pos (by rw [htemp, List.length_append, List.length_cons]; omega), hx, Exn.ok_bind, hset,
        Exn.ok_bind, ← hnext]
      simp

variable [LT α] [DecidableLT α]

/-- One side is used up, and the other side's rest may be taken over as it is. -/
theorem takeSmaller_spec (mid high : ℤ) (left right : List α) {i j k : ℤ} (done blank : List α)
    (hleft : LiesAt nums i left) (hright : LiesAt nums j right) (hmid : mid + 1 = i + left.length)
    (hhigh : high + 1 = j + right.length) (hk : k = done.length)
    (hblank : left.length + right.length ≤ blank.length) :
    ∃ merged left' right' i' j',
      takeSmaller nums mid high (done ++ blank) i j k =
        .ok (done ++ merged ++ blank.drop merged.length, i', j', k + merged.length) ∧
      List.merge left right (· < ·) = merged ++ (left' ++ right') ∧
      LiesAt nums i' left' ∧ mid + 1 = i' + left'.length ∧
      LiesAt nums j' right' ∧ high + 1 = j' + right'.length := by
  fun_induction List.merge left right (· < ·) generalizing i j k done blank with
  | case1 right =>
      refine ⟨[], [], right, i, j, ?_, by simp, hleft, hmid, hright, hhigh⟩
      rw [takeSmaller, if_neg (by simp at hmid; omega)]
      simp [pure, Except.pure]
  | case2 left =>
      refine ⟨[], left, [], i, j, ?_, by simp, hleft, hmid, hright, hhigh⟩
      rw [takeSmaller, if_neg (by simp at hhigh; omega)]
      simp [pure, Except.pure]
  | case3 x left y right hlt ih =>
      obtain ⟨b, blank, rfl⟩ := List.exists_cons_of_length_pos (by simp at hblank; omega : 0 < blank.length)
      simp only [List.length_cons] at hmid hhigh hblank
      obtain ⟨merged, left', right', i', j', hrun, hmerge, hat⟩ := ih (i := i + 1) (j := j) (k := k + 1)
        (done ++ [x]) blank hleft.tail hright (by omega) (by simp; omega) (by simp; omega) (by simp; omega)
      refine ⟨x :: merged, left', right', i', j', ?_, by rw [hmerge, List.cons_append], hat⟩
      rw [takeSmaller, if_pos (by omega), hleft.get_head, Exn.ok_bind, hright.get_head, Exn.ok_bind,
        if_pos (by simpa using hlt), set_append hk, Exn.ok_bind, List.append_cons, hrun]
      simp
      omega
  | case4 x left y right hge ih =>
      obtain ⟨b, blank, rfl⟩ := List.exists_cons_of_length_pos (by simp at hblank; omega : 0 < blank.length)
      simp only [List.length_cons] at hmid hhigh hblank
      obtain ⟨merged, left', right', i', j', hrun, hmerge, hat⟩ := ih (i := i) (j := j + 1) (k := k + 1)
        (done ++ [y]) blank hleft hright.tail (by simp; omega) (by omega) (by simp; omega) (by simp; omega)
      refine ⟨y :: merged, left', right', i', j', ?_, by rw [hmerge, List.cons_append], hat⟩
      rw [takeSmaller, if_pos (by omega), hleft.get_head, Exn.ok_bind, hright.get_head, Exn.ok_bind,
        if_neg (by simpa using hge), set_append hk, Exn.ok_bind, List.append_cons, hrun]
      simp
      omega

/-- Where the elements compare as equal, the right segment comes first. -/
theorem merge_spec [Inhabited α] (low mid high : ℤ) (before left right after : List α)
    (hlow : low = before.length) (hmid : mid + 1 = low + left.length)
    (hhigh : high + 1 = mid + 1 + right.length) :
    merge (before ++ (left ++ right) ++ after) low mid high =
      .ok (before ++ List.merge left right (· < ·) ++ after) := by
  have hleft : LiesAt (before ++ (left ++ right) ++ after) low left := ⟨before, right ++ after, by simp, hlow⟩
  have hright : LiesAt (before ++ (left ++ right) ++ after) (mid + 1) right :=
    ⟨before ++ left, after, by simp, by simp; omega⟩
  have hsize : (high - low + 1).toNat = left.length + right.length := by omega
  obtain ⟨merged, left', right', i, j, htake, hmerge, hleft', hmid', hright', hhigh'⟩ :=
    takeSmaller_spec mid high left right (k := 0) []
      (List.replicate (left.length + right.length) default) hleft hright hmid hhigh rfl (by simp)
  have hlength := congrArg List.length hmerge
  simp only [List.length_append, List.length_merge] at hlength
  rw [List.nil_append, Int.zero_add] at htake
  generalize hblank : (List.replicate (left.length + right.length) (default : α)).drop merged.length = blank
    at htake
  have hblankLength : blank.length = left'.length + right'.length := by
    rw [← hblank, List.length_drop, List.length_replicate]
    omega
  have hcopyLeft := copyRest_spec mid left' merged blank hleft' hmid' rfl (by omega)
  have hcopyRight := copyRest_spec high right' (merged ++ left') (blank.drop left'.length) hright' hhigh'
    (k := merged.length + left'.length) (by simp) (by simp; omega)
  have htemp : merged ++ left' ++ right' ++ (blank.drop left'.length).drop right'.length =
      List.merge left right (· < ·) := by
    rw [hmerge, List.drop_drop, List.drop_eq_nil_of_le (by omega)]
    simp
  rw [htemp] at hcopyRight
  have hback := copyBack_spec low (List.merge left right (· < ·)) [] (left ++ right)
    (List.merge left right (· < ·)) before after hlow rfl (by simp)
  simp only [merge, Exn.bind_eq_ok]
  refine ⟨_, hsize ▸ htake, _, hcopyLeft, _, hcopyRight, ?_⟩
  simpa using hback

end MyDemo.Sort

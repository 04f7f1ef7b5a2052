import Mathlib.Data.List.Basic
import Mathlib.Logic.Equiv.Basic

/-!
# Entries of a list that is appended to and modified in place
-/

namespace List

variable {α : Type*} {l : List α}

theorem getElem?_modify_eq_some {f : α → α} {i j : ℕ} {b : α} :
    (l.modify i f)[j]? = some b ↔ ∃ a, l[j]? = some a ∧ (if i = j then f a else a) = b := by
  rw [List.getElem?_modify]
  cases l[j]? <;> simp

theorem getElem?_concat_eq_some {a b : α} {i : ℕ} :
    (l ++ [a])[i]? = some b ↔ l[i]? = some b ∨ i = l.length ∧ a = b := by
  rw [List.getElem?_append]
  split
  · next hi =>
      constructor
      · intro h; exact .inl h
      · rintro (h | ⟨rfl, _⟩)
        · exact h
        · omega
  · next hi =>
      have hnone : l[i]? = none := List.getElem?_eq_none (by omega)
      simp only [hnone, reduceCtorEq, false_or, List.getElem?_singleton]
      split
      · next hz => simp [show i = l.length by omega]
      · next hz => simp [show i ≠ l.length by omega]

theorem forall_mem_modify {f : α → α} {i : ℕ} {P : α → Prop}
    (hf : ∀ a, P a → P (f a)) (h : ∀ a ∈ l, P a) : ∀ a ∈ l.modify i f, P a := by
  intro a ha
  obtain ⟨j, hj⟩ := List.mem_iff_getElem?.mp ha
  obtain ⟨b, hb, rfl⟩ := getElem?_modify_eq_some.mp hj
  have hP := h b (List.mem_of_getElem? hb)
  split
  · exact hf b hP
  · exact hP

/-- An element moves to the place `j`, and leaves its own place to `a`. -/
theorem set_set_perm_set {i j : ℕ} {a b : α} (hij : i ≠ j) (hb : l[i]? = some b) (hj : j < l.length) :
    ((l.set j b).set i a).Perm (l.set j a) := by
  obtain ⟨hi, rfl⟩ := List.getElem?_eq_some_iff.mp hb
  have hswap := @List.set_set_perm _ (l.set j a) j i (by simpa using hj) (by simpa using hi)
  rw [List.getElem_set_self, List.getElem_set_ne hij.symm, List.set_set] at hswap
  exact hswap

/-- Two entries change places. -/
theorem getD_set_set (d : α) {i j : ℕ} (hi : i < l.length) (hj : j < l.length) (c : ℕ) :
    ((l.set i (l.getD j d)).set j (l.getD i d)).getD c d = l.getD (Equiv.swap i j c) d := by
  rw [Equiv.swap_apply_def]
  simp only [List.getD_eq_getElem?_getD, List.getElem?_set, List.length_set]
  split
  · next hci =>
      subst hci
      split
      · next hjc => simp [hj, ← hjc]
      · simp [hi]
  · next hci =>
      split
      · next hcj => simp [hcj.symm, hj]
      · next hcj => simp [Ne.symm hci, Ne.symm hcj]

theorem set_set_perm_getD (d : α) {i j : ℕ} (hi : i < l.length) (hj : j < l.length) :
    ((l.set i (l.getD j d)).set j (l.getD i d)).Perm l := by
  rw [List.getD_eq_getElem?_getD, List.getD_eq_getElem?_getD, List.getElem?_eq_getElem hi,
    List.getElem?_eq_getElem hj]
  exact List.set_set_perm hi hj

/-! ## Entry by entry -/

/-- Each entry of the second list stands in the relation to the first list's entry at its place. -/
def Follows (R : α → α → Prop) (l l' : List α) : Prop :=
  ∀ (i : ℕ) (a' : α), l'[i]? = some a' → ∃ a, l[i]? = some a ∧ R a a'

variable {R : α → α → Prop}

theorem Follows.refl (hR : ∀ a, R a a) (l : List α) : Follows R l l := fun _ a h => ⟨a, h, hR a⟩

theorem Follows.modify (hR : ∀ a, R a a) {i : ℕ} {f : α → α} (hf : ∀ a, l[i]? = some a → R a (f a)) :
    Follows R l (l.modify i f) := by
  intro j a' ha'
  obtain ⟨a, ha, rfl⟩ := getElem?_modify_eq_some.mp ha'
  refine ⟨a, ha, ?_⟩
  split
  · next hij => exact hf a (hij ▸ ha)
  · exact hR a

theorem Follows.set (hR : ∀ a, R a a) {i : ℕ} {a b : α} (ha : l[i]? = some a) (hab : R a b) :
    Follows R l (l.set i b) := by
  intro j c hc
  rw [List.getElem?_set] at hc
  split at hc
  · next hij =>
      split at hc
      · cases hc; exact ⟨a, hij ▸ ha, hab⟩
      · cases hc
  · exact ⟨c, hc, hR c⟩

theorem Follows.forall_mem {P : α → Prop} (hP : ∀ a a', R a a' → P a → P a') {l' : List α}
    (h : Follows R l l') (hl : ∀ a ∈ l, P a) : ∀ a ∈ l', P a := by
  intro a' ha'
  obtain ⟨i, hi⟩ := List.mem_iff_getElem?.mp ha'
  obtain ⟨a, ha, hR⟩ := h i a' hi
  exact hP a a' hR (hl a (List.mem_of_getElem? ha))

/-! ## All entries but one -/

/-- Every entry has the property, but for the one at the place given, if any. -/
def AllBut (P : α → Prop) (l : List α) (place : Option ℕ) : Prop :=
  ∀ (i : ℕ) (a : α), l[i]? = some a → P a ∨ place = some i

variable {P Q : α → Prop} {place : Option ℕ}

theorem allBut_none : AllBut P l none ↔ ∀ a ∈ l, P a := by
  constructor
  · intro h a ha
    obtain ⟨i, hi⟩ := List.mem_iff_getElem?.mp ha
    exact (h i a hi).resolve_right nofun
  · intro h i a ha; exact .inl (h a (List.mem_of_getElem? ha))

theorem AllBut.forall_mem (h : AllBut P l place) (hPQ : ∀ a, P a → Q a)
    (hplace : ∀ i a, place = some i → l[i]? = some a → Q a) : ∀ a ∈ l, Q a := by
  intro a ha
  obtain ⟨i, hi⟩ := List.mem_iff_getElem?.mp ha
  rcases h i a hi with hP | hi'
  · exact hPQ a hP
  · exact hplace i a hi' hi

theorem AllBut.modify {i : ℕ} {f : α → α} (h : AllBut P l (some i)) (hPQ : ∀ a, P a → Q a)
    (hf : ∀ a, l[i]? = some a → Q (f a)) : ∀ a ∈ l.modify i f, Q a := by
  intro b hb
  obtain ⟨j, hj⟩ := List.mem_iff_getElem?.mp hb
  obtain ⟨a, ha, rfl⟩ := getElem?_modify_eq_some.mp hj
  split
  · next hij => exact hf a (hij ▸ ha)
  · next hij => exact hPQ a ((h j a ha).resolve_right fun hplace => hij (Option.some.inj hplace))

theorem AllBut.modify_place {i : ℕ} (h : AllBut P l (some i)) (f : α → α) :
    AllBut P (l.modify i f) (some i) := by
  intro j b hb
  obtain ⟨a, ha, rfl⟩ := getElem?_modify_eq_some.mp hb
  split
  · next hij => exact .inr (congrArg some hij)
  · exact h j a ha

theorem AllBut.follows (hP : ∀ a a', R a a' → P a → P a') {l' : List α} (h : AllBut P l place)
    (hf : Follows R l l') : AllBut P l' place := by
  intro i a' ha'
  obtain ⟨a, ha, hR⟩ := hf i a' ha'
  exact (h i a ha).imp (hP a a' hR) id

theorem AllBut.concat (h : AllBut P l none) (a : α) : AllBut P (l ++ [a]) (some l.length) := by
  intro i b hb
  rcases getElem?_concat_eq_some.mp hb with hb | ⟨rfl, _⟩
  · exact .inl ((h i b hb).resolve_right nofun)
  · exact .inr rfl

/-! ## Changing a function at one argument -/

section Update

variable [DecidableEq α] {β : Type*} {f : α → β} {a : α} {b : β}

theorem map_update_eq_map_iff (hb : f a ≠ b) : l.map (Function.update f a b) = l.map f ↔ a ∉ l := by
  rw [List.map_inj_left]
  constructor
  · intro h ha
    have hsame := h a ha
    rw [Function.update_self] at hsame
    exact hb hsame.symm
  · intro h x hx
    have hxa : x ≠ a := by
      rintro rfl
      exact h hx
    exact Function.update_of_ne hxa b f

/-- One entry changes, if the list has that argument once. -/
theorem map_update_eq_set_iff {i : ℕ} (h : l[i]? = some a) (hb : f a ≠ b) :
    l.map (Function.update f a b) = (l.map f).set i b ↔ l.count a = 1 := by
  induction l generalizing i with
  | nil => cases h
  | cons x l ih =>
      cases i with
      | zero =>
          obtain rfl : x = a := Option.some.inj h
          rw [List.map_cons, List.map_cons, List.set_cons_zero, Function.update_self, List.cons.injEq,
            and_iff_right rfl, map_update_eq_map_iff hb, List.count_cons_self, Nat.add_eq_right,
            List.count_eq_zero]
      | succ i =>
          have hl : l[i]? = some a := h
          rw [List.map_cons, List.map_cons, List.set_cons_succ, List.cons.injEq, ih hl]
          by_cases hx : x = a
          · subst hx
            rw [Function.update_self, List.count_cons_self]
            have hpos := List.count_pos_iff.mpr (List.mem_of_getElem? hl)
            exact iff_of_false (fun hxb => hb hxb.1.symm) (by omega)
          · rw [Function.update_of_ne hx, and_iff_right rfl, List.count_cons_of_ne hx]

end Update

end List

import MyDemo.Lib.Pieces
import Mathlib.Data.List.Basic
import Mathlib.Data.Nat.Notation

/-!
# Ring buffers

The values of a list lie in the slots of a ring one after the other, from a slot on. An index counts on without end; its
slot is the rest modulo the number of slots.
-/

namespace Ring

variable {α : Type*} {slots : List α} {start : ℕ} {l r : List α} {v : α} {m : ℕ}

/-- The values `l` lie in the slots from the index `start` on. -/
def Holds (slots : List α) (start : ℕ) (l : List α) : Prop :=
  ∀ i, i < l.length → slots[(start + i) % slots.length]? = l[i]?

/-- The index after `i`, where `i` is already less than `m`. -/
def next (m i : ℕ) : ℕ := if i + 1 = m then 0 else i + 1

theorem next_mod (hm : 0 < m) (i : ℕ) : next m (i % m) = (i + 1) % m := by
  have hlt : i % m < m := Nat.mod_lt i hm
  rw [next, ← Nat.mod_add_mod]
  split
  case isTrue heq => rw [heq, Nat.mod_self]
  case isFalse hne => exact (Nat.mod_eq_of_lt (by omega)).symm

/-- Two indices that are less than a round apart have different slots. -/
theorem mod_ne {i j : ℕ} (hij : i < j) (hj : j < i + m) : i % m ≠ j % m := by
  intro h
  have hdvd : m ∣ j - i := Nat.dvd_of_mod_eq_zero (Nat.sub_mod_eq_zero_of_mod_eq h.symm)
  have hle := Nat.le_of_dvd (by omega) hdvd
  omega

namespace Holds

theorem nil : Holds slots start [] := fun _ hi => absurd hi (Nat.not_lt_zero _)

theorem head (h : Holds slots start (v :: l)) : slots[start % slots.length]? = some v :=
  h 0 (Nat.zero_lt_succ _)

theorem tail (h : Holds slots start (v :: l)) : Holds slots (start + 1) l := by
  intro i hi
  have hnext := h (i + 1) (Nat.succ_lt_succ hi)
  rwa [← Nat.add_assoc, Nat.add_right_comm] at hnext

theorem drop (h : Holds slots start l) (n : ℕ) : Holds slots (start + n) (l.drop n) := by
  intro i hi
  rw [List.length_drop] at hi
  rw [List.getElem?_drop, Nat.add_assoc]
  exact h (n + i) (by omega)

theorem take (h : Holds slots start l) (n : ℕ) : Holds slots start (l.take n) := by
  intro i hi
  rw [List.length_take] at hi
  rw [List.getElem?_take_of_lt (by omega)]
  exact h i (by omega)

theorem append (h : Holds slots start l) (hr : Holds slots (start + l.length) r) : Holds slots start (l ++ r) := by
  intro i hi
  rcases Nat.lt_or_ge i l.length with hlt | hge
  · rw [List.getElem?_append_left hlt]
    exact h i hlt
  · rw [List.length_append] at hi
    rw [List.getElem?_append_right hge]
    have hrest := hr (i - l.length) (by omega)
    rwa [Nat.add_assoc, Nat.add_sub_cancel' hge] at hrest

/-- The same slots from an index a whole number of rounds away. -/
theorem mod_start (h : Holds slots start l) : Holds slots (start % slots.length) l := by
  intro i hi
  rw [Nat.mod_add_mod]
  exact h i hi

/-- A write to a slot behind the values leaves them. -/
theorem set (h : Holds slots start l) {j : ℕ} (hj : l.length ≤ j) (hlt : j < slots.length) (w : α) :
    Holds (slots.set ((start + j) % slots.length) w) start l := by
  intro i hi
  rw [List.length_set, List.getElem?_set_ne (mod_ne (by omega) (by omega)).symm]
  exact h i hi

/-- A write to the slot after the last one. -/
theorem concat (h : Holds slots start l) (hlt : l.length < slots.length) (w : α) :
    Holds (slots.set ((start + l.length) % slots.length) w) start (l ++ [w]) := by
  refine (h.set (Nat.le_refl _) hlt w).append fun i hi => ?_
  rw [List.length_singleton, Nat.lt_one_iff] at hi
  rw [hi, Nat.add_zero, List.length_set, List.getElem?_set_self (Nat.mod_lt _ (by omega))]
  rfl

/-- What lies in slots without a wrap between them. -/
theorem piece_eq (h : Holds slots start l) {k : ℕ} (hk : k ≤ l.length)
    (hle : start % slots.length + k ≤ slots.length) : slots.piece (start % slots.length) k = l.take k := by
  refine List.ext_getElem? fun i => ?_
  rcases Nat.lt_or_ge i k with hi | hi
  · have hslot : (start + i) % slots.length = start % slots.length + i := by
      rw [← Nat.mod_add_mod, Nat.mod_eq_of_lt (by omega)]
    rw [List.getElem?_piece hi, List.getElem?_take_of_lt hi, ← h i (by omega), hslot]
  · rw [List.getElem?_eq_none (by rw [List.length_piece]; omega),
      List.getElem?_eq_none (by rw [List.length_take]; omega)]

/-- A write of several values to the slots after the last one, without a wrap between them. -/
theorem overwrite (h : Holds slots start l) (hpos : 0 < slots.length)
    (hwrap : (start + l.length) % slots.length + r.length ≤ slots.length) (hroom : l.length + r.length ≤ slots.length) :
    Holds (slots.overwrite ((start + l.length) % slots.length) r) start (l ++ r) := by
  have hle : (start + l.length) % slots.length ≤ slots.length := Nat.le_of_lt (Nat.mod_lt _ hpos)
  have hlength : (slots.overwrite ((start + l.length) % slots.length) r).length = slots.length := by
    rw [List.length_overwrite hle]
    omega
  have hslot : ∀ j < r.length, (start + l.length + j) % slots.length = (start + l.length) % slots.length + j := by
    intro j hj
    rw [← Nat.mod_add_mod, Nat.mod_eq_of_lt (by omega)]
  have hleft : Holds (slots.overwrite ((start + l.length) % slots.length) r) start l := by
    intro i hi
    rw [hlength, List.getElem?_overwrite_of_notMem hle, h i hi]
    by_contra hin
    -- A slot that is written to is that of an index behind the values.
    have hne := mod_ne (m := slots.length) (i := start + i)
      (j := start + l.length + ((start + i) % slots.length - (start + l.length) % slots.length)) (by omega) (by omega)
    rw [hslot _ (by omega)] at hne
    omega
  refine hleft.append fun j hj => ?_
  rw [hlength, hslot j hj, List.getElem?_overwrite_of_mem hle hj]

/-- The ring is made larger by slots with `w`, which is none of the values. -/
theorem append_replicate_iff (h : Holds slots start l) (hs : start < slots.length) {w : α} (hw : ∀ v ∈ l, v ≠ w)
    {k : ℕ} (hk : 0 < k) :
    Holds (slots ++ List.replicate k w) start l ↔ start + l.length ≤ slots.length := by
  constructor
  · intro hlarge
    by_contra hlt
    have hi : slots.length - start < l.length := by omega
    have hindex : start + (slots.length - start) = slots.length := by omega
    have hget := hlarge (slots.length - start) hi
    rw [hindex, List.length_append, List.length_replicate, Nat.mod_eq_of_lt (by omega),
      List.getElem?_append_right (Nat.le_refl _), Nat.sub_self, List.getElem?_replicate, if_pos hk,
      List.getElem?_eq_getElem hi] at hget
    exact hw _ (List.getElem_mem hi) (Option.some.inj hget).symm
  · intro hle i hi
    have hget := h i hi
    rw [Nat.mod_eq_of_lt (by omega)] at hget
    rw [List.length_append, Nat.mod_eq_of_lt (by omega), List.getElem?_append_left (by omega)]
    exact hget

end Holds

end Ring

import Mathlib.Data.List.TakeDrop

/-!
# Pieces of a sequence

`l.piece p n` is what a read of `n` elements at the offset `p` gives, and `l.overwrite p new` is `l` after a write.
Two sequences agree on an extent where the pieces are the same and complete.
-/

namespace List

variable {α : Type*} {l m new : List α} {p q n k j : ℕ}

def piece (l : List α) (p n : ℕ) : List α := (l.drop p).take n

def overwrite (l : List α) (p : ℕ) (new : List α) : List α := l.take p ++ new ++ l.drop (p + new.length)

theorem length_piece : (l.piece p n).length = min n (l.length - p) := by simp [piece]

theorem piece_add : l.piece p (n + k) = l.piece p n ++ l.piece (p + n) k := by
  simp [piece, take_add, drop_drop]

theorem take_piece : (l.piece p n).take k = l.piece p (min k n) := by simp [piece, take_take]

theorem piece_length_self : l.piece p (l.piece p n).length = l.piece p n := by
  rw [length_piece, ← length_drop, piece, ← take_eq_take_min, piece]

theorem length_overwrite (h : p ≤ l.length) : (l.overwrite p new).length = max l.length (p + new.length) := by
  simp only [overwrite, length_append, length_take, length_drop]
  omega

theorem getElem?_piece {i : ℕ} (hi : i < n) : (l.piece p n)[i]? = l[p + i]? := by
  rw [piece, getElem?_take_of_lt hi, getElem?_drop]

theorem getElem?_overwrite_of_mem {i : ℕ} (hp : p ≤ l.length) (hi : i < new.length) :
    (l.overwrite p new)[p + i]? = new[i]? := by
  have htake : (l.take p).length = p := by rw [length_take, Nat.min_eq_left hp]
  rw [overwrite, append_assoc, getElem?_append_right (by omega), htake, Nat.add_sub_cancel_left,
    getElem?_append_left hi]

theorem getElem?_overwrite_of_notMem {i : ℕ} (hp : p ≤ l.length) (hi : i < p ∨ p + new.length ≤ i) :
    (l.overwrite p new)[i]? = l[i]? := by
  have htake : (l.take p ++ new).length = p + new.length := by rw [length_append, length_take, Nat.min_eq_left hp]
  rcases hi with hlt | hge
  · rw [overwrite, append_assoc, getElem?_append_left (by rw [length_take]; omega), getElem?_take_of_lt hlt]
  · rw [overwrite, getElem?_append_right (by omega), htake, getElem?_drop, Nat.add_sub_cancel' hge]

/-- A write does not change what stands in front of it. -/
theorem piece_overwrite_of_le (hp : p ≤ l.length) (h : q + n ≤ p) : (l.overwrite p new).piece q n = l.piece q n := by
  have htake : (l.overwrite p new).take p = l.take p := by
    rw [overwrite, append_assoc, take_left' (by simp [hp])]
  have hpiece : ∀ l' : List α, l'.piece q n = (l'.take p).piece q n := fun l' => by
    simp only [piece, drop_take, take_take]
    congr 1
    omega
  rw [hpiece, htake, ← hpiece]

theorem piece_overwrite_self (hp : p ≤ l.length) : (l.overwrite p new).piece p new.length = new := by
  have hdrop : (l.overwrite p new).drop p = new ++ l.drop (p + new.length) := by
    rw [overwrite, append_assoc, drop_left' (by simp [hp])]
  rw [piece, hdrop, take_left' rfl]

/-! ## Agreement -/

/-- What `l` has at `p` is what `m` has at `q`, for `n` elements. -/
structure Agree (l : List α) (p : ℕ) (m : List α) (q n : ℕ) : Prop where
  eq : l.piece p n = m.piece q n
  le : p + n ≤ l.length

theorem Agree.zero (h : p ≤ l.length) : Agree l p m q 0 := ⟨by simp [piece], h⟩

theorem Agree.take (h : Agree l p m q n) {r : ℕ} (hle : p + n ≤ (l.take r).length) : Agree (l.take r) p m q n where
  eq := by
    rw [← h.eq, piece, piece, drop_take, take_take]
    rw [length_take] at hle
    congr 1
    omega
  le := hle

theorem Agree.sub (h : Agree l p m q n) (hkj : k + j ≤ n) : Agree l (p + k) m (q + k) j where
  eq := by
    have hpiece : ∀ (l' : List α) (r : ℕ), l'.piece (r + k) j = ((l'.piece r n).drop k).take j := fun l' r => by
      simp only [piece, drop_take, drop_drop, take_take]
      congr 1
      omega
    rw [hpiece, hpiece, h.eq]
  le := by
    have := h.le
    omega

theorem Agree.append (h : Agree l p m q n) (h' : Agree l (p + n) m (q + n) k) : Agree l p m q (n + k) where
  eq := by rw [piece_add, piece_add, h.eq, h'.eq]
  le := by
    have := h'.le
    omega

theorem Agree.overwrite (h : Agree l p m q n) {r : ℕ} (hr : r ≤ l.length) (hle : p + n ≤ r) :
    Agree (l.overwrite r new) p m q n where
  eq := by rw [piece_overwrite_of_le hr hle, h.eq]
  le := by
    have := h.le
    rw [length_overwrite hr]
    omega

theorem Agree.of_overwrite (hp : p ≤ l.length) (h : new = m.piece q new.length) :
    Agree (l.overwrite p new) p m q new.length where
  eq := by rw [piece_overwrite_self hp, ← h]
  le := by
    rw [length_overwrite hp]
    omega

end List

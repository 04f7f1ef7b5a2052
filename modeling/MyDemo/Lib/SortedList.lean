import Mathlib.Data.List.Sort

/-!
# Lists sorted by a key

Which parts of a list stay where they are when it is sorted, and which elements keep their order.
-/

/-- An element that is compared by its key. -/
structure Tagged (κ β : Type*) where
  key : κ
  tag : β

namespace Tagged

variable {κ β : Type*} [LT κ]

instance : LT (Tagged κ β) := ⟨fun a b => a.key < b.key⟩

instance [DecidableLT κ] : DecidableLT (Tagged κ β) := fun a b => inferInstanceAs (Decidable (a.key < b.key))

theorem lt_iff {a b : Tagged κ β} : a < b ↔ a.key < b.key := .rfl

end Tagged

namespace List

variable {α κ : Type*} [LinearOrder κ] {key : α → κ}

/-- Elements with the same key stand in the same order in the two lists. -/
def Stable (key : α → κ) (l sorted : List α) : Prop :=
  ∀ k, sorted.filter (key · = k) = l.filter (key · = k)

@[refl] theorem Stable.refl (l : List α) : Stable key l l := fun _ => rfl

theorem Stable.trans {l₁ l₂ l₃ : List α} (h : Stable key l₁ l₂) (h' : Stable key l₂ l₃) : Stable key l₁ l₃ :=
  fun k => (h' k).trans (h k)

theorem Stable.append_right {l l' : List α} (h : Stable key l l') (rest : List α) :
    Stable key (l ++ rest) (l' ++ rest) := by
  intro k
  rw [filter_append, filter_append, h k]

/-- An element may pass those with a greater key. -/
theorem Stable.insert {before after : List α} {a : α} (h : ∀ b ∈ after, key a < key b) :
    Stable key (before ++ after ++ [a]) (before ++ a :: after) := by
  intro k
  simp only [filter_append, filter_cons, filter_nil]
  split
  · next hk =>
      have hnone : after.filter (key · = k) = [] := by
        refine filter_eq_nil_iff.mpr fun b hb => ?_
        have hlt := h b hb
        simp only [decide_eq_true_eq] at hk ⊢
        rw [hk] at hlt
        exact ne_of_gt hlt
      simp [hnone]
  · simp

theorem nodup_map_iff_filter {l : List α} : (l.map key).Nodup ↔ ∀ k, (l.filter (key · = k)).length ≤ 1 := by
  rw [nodup_iff_count_le_one]
  refine forall_congr' fun k => ?_
  rw [count, countP_map, countP_eq_length_filter]
  rfl

theorem length_le_one_of_reverse_eq {l : List α} (h : l.reverse = l) (hnodup : l.Nodup) : l.length ≤ 1 := by
  match l with
  | [] => exact Nat.zero_le 1
  | [a] => exact Nat.le_refl 1
  | a :: b :: l =>
      obtain ⟨c, r, hr⟩ := exists_cons_of_ne_nil (reverse_ne_nil_iff.mpr (cons_ne_nil b l))
      rw [reverse_cons, hr, cons_append] at h
      have hmem : c ∈ (b :: l).reverse := hr ▸ mem_cons_self
      rw [(cons.inj h).1] at hmem
      exact absurd (mem_reverse.mp hmem) (nodup_cons.mp hnodup).1

theorem reverse_eq_of_length_le_one {l : List α} (h : l.length ≤ 1) : l.reverse = l := by
  match l with
  | [] => rfl
  | [a] => rfl
  | a :: b :: l => simp at h

/-- Reversing the elements with the same key keeps their order only where it shows no difference. -/
theorem reversed_iff {l : List α} (hnodup : l.Nodup) :
    (∀ k, (l.filter (key · = k)).reverse = l.filter (key · = k)) ↔ (l.map key).Nodup := by
  rw [nodup_map_iff_filter]
  constructor
  · intro h k
    exact length_le_one_of_reverse_eq (h k) (hnodup.filter _)
  · intro h k
    exact reverse_eq_of_length_le_one (h k)

theorem pairwise_of_length_le_one {R : α → α → Prop} {l : List α} (h : l.length ≤ 1) : l.Pairwise R := by
  match l with
  | [] => exact .nil
  | [a] => exact pairwise_singleton R a
  | a :: b :: l => simp at h

/-- An element belongs between those with a key that is not greater and those with a greater one. -/
theorem pairwise_insert {before after : List α} {a : α}
    (hsorted : (before ++ after).Pairwise (key · ≤ key ·)) (hlast : ∀ b ∈ before.getLast?, key b ≤ key a)
    (hafter : ∀ b ∈ after, key a < key b) : (before ++ a :: after).Pairwise (key · ≤ key ·) := by
  obtain ⟨hb, ha, hba⟩ := pairwise_append.mp hsorted
  have hbefore : ∀ b ∈ before, key b ≤ key a := by
    intro b hmem
    rcases eq_nil_or_concat' before with rfl | ⟨front, c, rfl⟩
    · cases hmem
    · have hca : key c ≤ key a := hlast c (by simp)
      rcases mem_append.mp hmem with hmem | hmem
      · exact ((pairwise_append.mp hb).2.2 b hmem c (mem_singleton_self c)).trans hca
      · exact mem_singleton.mp hmem ▸ hca
  refine pairwise_append.mpr ⟨hb, pairwise_cons.mpr ⟨fun b hmem => (hafter b hmem).le, ha⟩, ?_⟩
  intro b hmem c hc
  rcases mem_cons.mp hc with rfl | hc
  · exact hbefore b hmem
  · exact hba b hmem c hc

/-! ## Parts that are final -/

variable {α : Type*} [LinearOrder α] {l front tail sorted : List α}

theorem eq_of_perm_sorted (hl : l.Pairwise (· ≤ ·)) (hs : sorted.Pairwise (· ≤ ·)) (h : sorted.Perm l) :
    sorted = l :=
  h.eq_of_pairwise (fun _ _ _ _ => le_antisymm) hs hl

theorem pairwise_mergeSort_le (l : List α) : (l.mergeSort (· ≤ ·)).Pairwise (· ≤ ·) := by
  simpa using @List.pairwise_mergeSort α (fun a b => decide (a ≤ b))
    (fun a b c hab hbc => by simpa using le_trans (of_decide_eq_true hab) (of_decide_eq_true hbc))
    (fun a b => by simpa using le_total a b) l

/-- A sorted tail that nothing before it exceeds is the tail of the sorted list. -/
theorem drop_eq_of_le (hle : ∀ a ∈ front, ∀ b ∈ tail, a ≤ b) (htail : tail.Pairwise (· ≤ ·))
    (hs : sorted.Pairwise (· ≤ ·)) (h : sorted.Perm (front ++ tail)) : sorted.drop front.length = tail := by
  have hfront := mergeSort_perm front (· ≤ ·)
  have hall : sorted = front.mergeSort (· ≤ ·) ++ tail := by
    refine eq_of_perm_sorted ?_ hs (h.trans (hfront.symm.append_right tail))
    exact pairwise_append.mpr ⟨pairwise_mergeSort_le front, htail,
      fun a ha b hb => hle a (hfront.mem_iff.mp ha) b hb⟩
  rw [hall, drop_left' (by rw [hfront.length_eq])]

theorem take_eq_of_le (hle : ∀ a ∈ front, ∀ b ∈ tail, a ≤ b) (hfront : front.Pairwise (· ≤ ·))
    (hs : sorted.Pairwise (· ≤ ·)) (h : sorted.Perm (front ++ tail)) : sorted.take front.length = front := by
  have htail := mergeSort_perm tail (· ≤ ·)
  have hall : sorted = front ++ tail.mergeSort (· ≤ ·) := by
    refine eq_of_perm_sorted ?_ hs (h.trans (htail.symm.append_left front))
    exact pairwise_append.mpr ⟨hfront, pairwise_mergeSort_le tail,
      fun a ha b hb => hle a ha b (htail.mem_iff.mp hb)⟩
  rw [hall, take_left']
  rfl

/-- The elements of `l`, with the last ones in order already, and nothing before them that exceeds them. -/
structure Settled (l front tail : List α) : Prop where
  perm : (front ++ tail).Perm l
  le : ∀ a ∈ front, ∀ b ∈ tail, a ≤ b
  sorted : tail.Pairwise (· ≤ ·)

theorem Settled.start (l : List α) : Settled l l [] := ⟨by rw [append_nil], nofun, .nil⟩

/-- A greatest element of the part in front is settled next. -/
theorem Settled.round {front' : List α} {m : α} (h : Settled l front tail) (hperm : (front' ++ [m]).Perm front)
    (hm : ∀ a ∈ front', a ≤ m) : Settled l front' (m :: tail) where
  perm := by
    rw [append_cons]
    exact (hperm.append_right tail).trans h.perm
  le a ha b hb := by
    rcases mem_cons.mp hb with rfl | hb
    · exact hm a ha
    · exact h.le a (hperm.mem_iff.mp (mem_append_left _ ha)) b hb
  sorted := pairwise_cons.mpr ⟨h.le m (hperm.mem_iff.mp (by simp)), h.sorted⟩

theorem Settled.length_eq (h : Settled l front tail) : front.length + tail.length = l.length := by
  rw [← length_append, h.perm.length_eq]

theorem Settled.pairwise (h : Settled l front tail) (hone : front.length ≤ 1) :
    (front ++ tail).Pairwise (· ≤ ·) :=
  pairwise_append.mpr ⟨pairwise_of_length_le_one hone, h.sorted, h.le⟩

end List

import Mathlib.Algebra.Ring.Nat
import Mathlib.Data.List.Find
import Mathlib.Data.Nat.Log
import Mathlib.Data.Tree.Basic
import Mathlib.Order.Lattice

/-!
# Search trees

A binary tree is read from left to right as a list. The height of a balanced tree is logarithmic, and in a list
with increasing keys a key divides the elements into those below it and those above it.
-/

namespace BinaryTree

variable {α : Type*}

def inorder : BinaryTree α → List α
  | nil => []
  | node e l r => l.inorder ++ e :: r.inorder

@[simp] theorem inorder_nil : (nil : BinaryTree α).inorder = [] := rfl

@[simp] theorem inorder_node (e : α) (l r : BinaryTree α) :
    (node e l r).inorder = l.inorder ++ e :: r.inorder := rfl

/-- The heights of two siblings differ by one at most. -/
def Balanced : BinaryTree α → Prop
  | nil => True
  | node _ l r => (l.height ≤ r.height + 1 ∧ r.height ≤ l.height + 1) ∧ l.Balanced ∧ r.Balanced

theorem Balanced.pow_height_le {t : BinaryTree α} (h : t.Balanced) :
    2 ^ ((t.height + 1) / 2) ≤ t.inorder.length + 1 := by
  induction t with
  | nil => simp
  | node e l r ihl ihr =>
      obtain ⟨hlr, hl, hr⟩ := h
      have hle : 2 ^ (max l.height r.height / 2) ≤ 2 ^ ((l.height + 1) / 2) :=
        Nat.pow_le_pow_right (by omega) (by omega)
      have hre : 2 ^ (max l.height r.height / 2) ≤ 2 ^ ((r.height + 1) / 2) :=
        Nat.pow_le_pow_right (by omega) (by omega)
      have hpow : 2 ^ ((max l.height r.height + 1 + 1) / 2) = 2 * 2 ^ (max l.height r.height / 2) := by
        rw [show (max l.height r.height + 1 + 1) / 2 = max l.height r.height / 2 + 1 by omega, Nat.pow_succ']
      have hl' := ihl hl
      have hr' := ihr hr
      simp only [height, inorder_node, List.length_append, List.length_cons, hpow]
      omega

theorem Balanced.height_le {t : BinaryTree α} (h : t.Balanced) :
    t.height ≤ 2 * Nat.log 2 (t.inorder.length + 1) := by
  have hlog := Nat.le_log_of_pow_le (by omega) h.pow_height_le
  omega

end BinaryTree

namespace List

variable {α β : Type*} [LinearOrder β] {f : α → β} {l r : List α} {e a : α} {b : β}

/-- Each element has a greater key than those before it. -/
def Increasing (f : α → β) (l : List α) : Prop := l.Pairwise (f · < f ·)

instance (f : α → β) (l : List α) : Decidable (l.Increasing f) :=
  inferInstanceAs (Decidable (l.Pairwise (f · < f ·)))

/-- The element with the key `b`. -/
def atKey (f : α → β) (l : List α) (b : β) : Option α := l.find? (f · = b)

/-- The last element with a smaller key. -/
def keyBelow (f : α → β) (l : List α) (b : β) : Option α := (l.filter (f · < b)).getLast?

/-- The first element with a greater key. -/
def keyAbove (f : α → β) (l : List α) (b : β) : Option α := (l.filter (b < f ·)).head?

theorem increasing_middle :
    (l ++ e :: r).Increasing f ↔
      l.Increasing f ∧ r.Increasing f ∧ (∀ a ∈ l, f a < f e) ∧ (∀ a ∈ r, f e < f a) := by
  simp only [Increasing, pairwise_append, pairwise_cons, mem_cons, forall_eq_or_imp]
  constructor
  · rintro ⟨hl, ⟨he, hr⟩, h⟩
    exact ⟨hl, hr, fun a ha => (h a ha).1, he⟩
  · rintro ⟨hl, hr, hle, her⟩
    exact ⟨hl, ⟨her, hr⟩, fun a ha => ⟨hle a ha, fun c hc => (hle a ha).trans (her c hc)⟩⟩

theorem Increasing.map {h : α → α} (hl : l.Increasing f) (hf : ∀ a ∈ l, f (h a) = f a) :
    (l.map h).Increasing f := by
  refine pairwise_map.mpr (Pairwise.imp_of_mem (fun {a b} ha hb hab => ?_) hl)
  rw [hf a ha, hf b hb]
  exact hab

/-! ## The element with a key -/

theorem mem_of_atKey (h : l.atKey f b = some a) : a ∈ l ∧ f a = b :=
  ⟨mem_of_find?_eq_some h, by simpa using find?_some h⟩

theorem atKey_eq_none : l.atKey f b = none ↔ ∀ a ∈ l, f a ≠ b := by simp [atKey]

theorem atKey_append : (l ++ r).atKey f b = (l.atKey f b).or (r.atKey f b) := find?_append

theorem atKey_cons : (e :: r).atKey f b = if f e = b then some e else r.atKey f b := by
  simp only [atKey, find?_cons]
  split <;> simp_all

theorem atKey_none_of_gt (h : ∀ a ∈ l, b < f a) : l.atKey f b = none :=
  atKey_eq_none.mpr fun a ha => (h a ha).ne'

theorem atKey_none_of_lt (h : ∀ a ∈ l, f a < b) : l.atKey f b = none :=
  atKey_eq_none.mpr fun a ha => (h a ha).ne

theorem atKey_middle (hl : ∀ a ∈ l, f a < f e) :
    (l ++ e :: r).atKey f b = if f e = b then some e else (l ++ r).atKey f b := by
  rw [atKey_append, atKey_append, atKey_cons]
  split
  · next he => rw [atKey_none_of_lt (he ▸ hl), Option.none_or]
  · rfl

theorem Increasing.atKey_of_mem (h : l.Increasing f) (ha : a ∈ l) : l.atKey f (f a) = some a := by
  obtain ⟨front, rest, rfl⟩ := append_of_mem ha
  rw [atKey_middle (increasing_middle.mp h).2.2.1, if_pos rfl]

theorem atKey_left (h : (l ++ e :: r).Increasing f) (hb : b < f e) : (l ++ e :: r).atKey f b = l.atKey f b := by
  obtain ⟨_, _, _, hr⟩ := increasing_middle.mp h
  rw [atKey_append, atKey_cons, if_neg hb.ne', atKey_none_of_gt fun a ha => hb.trans (hr a ha), Option.or_none]

theorem atKey_right (h : (l ++ e :: r).Increasing f) (hb : f e < b) : (l ++ e :: r).atKey f b = r.atKey f b := by
  obtain ⟨_, _, hl, _⟩ := increasing_middle.mp h
  rw [atKey_append, atKey_cons, if_neg hb.ne, atKey_none_of_lt fun a ha => (hl a ha).trans hb, Option.none_or]

/-! ## The parts below and above a key -/

theorem filter_lt_eq_nil (h : ∀ a ∈ l, b ≤ f a) : l.filter (f · < b) = [] :=
  filter_eq_nil_iff.mpr fun a ha => by simpa using h a ha

theorem filter_lt_eq_self (h : ∀ a ∈ l, f a < b) : l.filter (f · < b) = l :=
  filter_eq_self.mpr fun a ha => by simpa using h a ha

theorem filter_gt_eq_nil (h : ∀ a ∈ l, f a ≤ b) : l.filter (b < f ·) = [] :=
  filter_eq_nil_iff.mpr fun a ha => by simpa using h a ha

theorem filter_gt_eq_self (h : ∀ a ∈ l, b < f a) : l.filter (b < f ·) = l :=
  filter_eq_self.mpr fun a ha => by simpa using h a ha

theorem filter_ne_eq_self (h : ∀ a ∈ l, f a ≠ b) : l.filter (f · ≠ b) = l :=
  filter_eq_self.mpr fun a ha => by simpa using h a ha

theorem filter_lt_left (h : (l ++ e :: r).Increasing f) (hb : b ≤ f e) :
    (l ++ e :: r).filter (f · < b) = l.filter (f · < b) := by
  obtain ⟨_, _, _, hr⟩ := increasing_middle.mp h
  have hnil : (e :: r).filter (f · < b) = [] := filter_lt_eq_nil fun a ha => by
    rcases mem_cons.mp ha with rfl | ha
    · exact hb
    · exact hb.trans (hr a ha).le
  rw [filter_append, hnil, append_nil]

theorem filter_lt_right (h : (l ++ e :: r).Increasing f) (hb : f e < b) :
    (l ++ e :: r).filter (f · < b) = l ++ e :: r.filter (f · < b) := by
  obtain ⟨_, _, hl, _⟩ := increasing_middle.mp h
  rw [filter_append, filter_lt_eq_self fun a ha => (hl a ha).trans hb, filter_cons, if_pos (by simpa using hb)]

theorem filter_gt_left (h : (l ++ e :: r).Increasing f) (hb : b < f e) :
    (l ++ e :: r).filter (b < f ·) = l.filter (b < f ·) ++ e :: r := by
  obtain ⟨_, _, _, hr⟩ := increasing_middle.mp h
  rw [filter_append, filter_cons, if_pos (by simpa using hb), filter_gt_eq_self fun a ha => hb.trans (hr a ha)]

theorem filter_gt_right (h : (l ++ e :: r).Increasing f) (hb : f e ≤ b) :
    (l ++ e :: r).filter (b < f ·) = r.filter (b < f ·) := by
  obtain ⟨_, _, hl, _⟩ := increasing_middle.mp h
  rw [filter_append, filter_gt_eq_nil fun a ha => (hl a ha).le.trans hb, nil_append, filter_cons,
    if_neg (by simpa using hb)]

theorem filter_ne_left (h : (l ++ e :: r).Increasing f) (hb : b < f e) :
    (l ++ e :: r).filter (f · ≠ b) = l.filter (f · ≠ b) ++ e :: r := by
  obtain ⟨_, _, _, hr⟩ := increasing_middle.mp h
  rw [filter_append, filter_cons, if_pos (by simpa using hb.ne'),
    filter_ne_eq_self fun a ha => (hb.trans (hr a ha)).ne']

theorem filter_ne_right (h : (l ++ e :: r).Increasing f) (hb : f e < b) :
    (l ++ e :: r).filter (f · ≠ b) = l ++ e :: r.filter (f · ≠ b) := by
  obtain ⟨_, _, hl, _⟩ := increasing_middle.mp h
  rw [filter_append, filter_ne_eq_self fun a ha => ((hl a ha).trans hb).ne, filter_cons,
    if_pos (by simpa using hb.ne)]

theorem filter_ne_middle (h : (l ++ e :: r).Increasing f) :
    (l ++ e :: r).filter (f · ≠ f e) = l ++ r := by
  obtain ⟨_, _, hl, hr⟩ := increasing_middle.mp h
  rw [filter_append, filter_ne_eq_self fun a ha => (hl a ha).ne, filter_cons, if_neg (by simp),
    filter_ne_eq_self fun a ha => (hr a ha).ne']

/-! ## The neighbours of a key -/

theorem keyBelow_left (h : (l ++ e :: r).Increasing f) (hb : b ≤ f e) :
    (l ++ e :: r).keyBelow f b = l.keyBelow f b := by
  rw [keyBelow, filter_lt_left h hb, keyBelow]

theorem keyBelow_right (h : (l ++ e :: r).Increasing f) (hb : f e < b) :
    (l ++ e :: r).keyBelow f b = (r.keyBelow f b).or (some e) := by
  rw [keyBelow, filter_lt_right h hb, getLast?_append, keyBelow, getLast?_cons]
  cases (r.filter (f · < b)).getLast? <;> rfl

theorem keyAbove_right (h : (l ++ e :: r).Increasing f) (hb : f e ≤ b) :
    (l ++ e :: r).keyAbove f b = r.keyAbove f b := by
  rw [keyAbove, filter_gt_right h hb, keyAbove]

theorem keyAbove_left (h : (l ++ e :: r).Increasing f) (hb : b < f e) :
    (l ++ e :: r).keyAbove f b = (l.keyAbove f b).or (some e) := by
  rw [keyAbove, filter_gt_left h hb, head?_append, keyAbove, head?_cons]

theorem keyBelow_eq_getLast? (h : ∀ a ∈ l, f a < b) : l.keyBelow f b = l.getLast? := by
  rw [keyBelow, filter_lt_eq_self h]

theorem keyAbove_eq_head? (h : ∀ a ∈ l, b < f a) : l.keyAbove f b = l.head? := by
  rw [keyAbove, filter_gt_eq_self h]

theorem keyBelow_eq_none (h : ∀ a ∈ l, b ≤ f a) : l.keyBelow f b = none := by
  rw [keyBelow, filter_lt_eq_nil h, getLast?_nil]

theorem keyAbove_eq_none (h : ∀ a ∈ l, f a ≤ b) : l.keyAbove f b = none := by
  rw [keyAbove, filter_gt_eq_nil h, head?_nil]

theorem Increasing.keyBelow_eq_some {d : α} (h : l.Increasing f) (hd : l.keyBelow f b = some d) :
    d ∈ l ∧ f d < b ∧ ∀ a ∈ l, f a < b → f a ≤ f d := by
  obtain ⟨front, hfront⟩ := getLast?_eq_some_iff.mp hd
  have hmem : ∀ a, a ∈ l ∧ f a < b ↔ a ∈ front ++ [d] := fun a => by rw [← hfront]; simp
  obtain ⟨hdl, hdb⟩ := (hmem d).mpr (by simp)
  have hinc : (front ++ [d]).Increasing f := hfront ▸ Pairwise.filter _ h
  refine ⟨hdl, hdb, fun a ha hab => ?_⟩
  rcases mem_append.mp ((hmem a).mp ⟨ha, hab⟩) with hfront' | hlast
  · exact ((increasing_middle.mp hinc).2.2.1 a hfront').le
  · rw [mem_singleton.mp hlast]

theorem Increasing.keyAbove_eq_some {d : α} (h : l.Increasing f) (hd : l.keyAbove f b = some d) :
    d ∈ l ∧ b < f d ∧ ∀ a ∈ l, b < f a → f d ≤ f a := by
  obtain ⟨rest, hrest⟩ := head?_eq_some_iff.mp hd
  have hmem : ∀ a, a ∈ l ∧ b < f a ↔ a ∈ d :: rest := fun a => by rw [← hrest]; simp
  obtain ⟨hdl, hdb⟩ := (hmem d).mpr mem_cons_self
  have hinc : (d :: rest).Increasing f := hrest ▸ Pairwise.filter _ h
  refine ⟨hdl, hdb, fun a ha hab => ?_⟩
  rcases mem_cons.mp ((hmem a).mp ⟨ha, hab⟩) with rfl | hrest'
  · exact le_rfl
  · exact (rel_of_pairwise_cons hinc hrest').le

theorem le_of_keyBelow_eq_none (h : l.keyBelow f b = none) (ha : a ∈ l) : b ≤ f a := by
  have hnil : l.filter (f · < b) = [] := getLast?_eq_none_iff.mp h
  simpa using filter_eq_nil_iff.mp hnil a ha

theorem le_of_keyAbove_eq_none (h : l.keyAbove f b = none) (ha : a ∈ l) : f a ≤ b := by
  have hnil : l.filter (b < f ·) = [] := head?_eq_none_iff.mp h
  simpa using filter_eq_nil_iff.mp hnil a ha

/-! ## Insertion and removal -/

/-- The list with a new element at the place of its key. -/
def insertKey (f : α → β) (e : α) (l : List α) : List α :=
  l.filter (f · < f e) ++ e :: l.filter (f e < f ·)

theorem Increasing.filter (p : α → Bool) (h : l.Increasing f) : (l.filter p).Increasing f :=
  Pairwise.filter p h

theorem Increasing.insertKey (h : l.Increasing f) (e : α) : (l.insertKey f e).Increasing f :=
  increasing_middle.mpr ⟨h.filter _, h.filter _, fun a ha => by simpa using (mem_filter.mp ha).2,
    fun a ha => by simpa using (mem_filter.mp ha).2⟩

theorem atKey_filter {p : α → Bool} (h : ∀ a ∈ l, f a = b → p a) : (l.filter p).atKey f b = l.atKey f b := by
  simp only [atKey, find?_filter]
  refine find?_congr fun a ha => ?_
  by_cases hab : f a = b
  · simp [hab, h a ha hab]
  · simp [hab]

/-- The new element replaces those with the same key, where these are the last ones. -/
theorem insertKey_append (hl : ∀ a ∈ l, f a < f e) (hr : ∀ a ∈ r, f a = f e) :
    (l ++ r).insertKey f e = l ++ [e] := by
  have hgt : (l ++ r).filter (f e < f ·) = [] := filter_gt_eq_nil fun a ha => by
    rcases mem_append.mp ha with ha | ha
    · exact (hl a ha).le
    · exact (hr a ha).le
  rw [insertKey, hgt, filter_append, filter_lt_eq_self hl, filter_lt_eq_nil fun a ha => (hr a ha).ge, append_nil]

theorem atKey_insertKey (h : l.atKey f (f e) = none) :
    (l.insertKey f e).atKey f b = if f e = b then some e else l.atKey f b := by
  rw [insertKey, atKey_middle fun a ha => by simpa using (mem_filter.mp ha).2, atKey_append]
  refine if_congr Iff.rfl rfl ?_
  rcases lt_trichotomy b (f e) with hlt | rfl | hgt
  · rw [atKey_filter fun a _ ha => by simpa [ha] using hlt,
      atKey_none_of_gt (l := l.filter (f e < f ·)) fun a ha => hlt.trans (by simpa using (mem_filter.mp ha).2),
      Option.or_none]
  · rw [h, Option.or_eq_none_iff]
    exact ⟨atKey_eq_none.mpr fun a ha => atKey_eq_none.mp h a (mem_filter.mp ha).1,
      atKey_eq_none.mpr fun a ha => atKey_eq_none.mp h a (mem_filter.mp ha).1⟩
  · rw [atKey_none_of_lt (l := l.filter (f · < f e)) fun a ha =>
        lt_trans (by simpa using (mem_filter.mp ha).2) hgt,
      Option.none_or, atKey_filter fun a _ ha => by simpa [ha] using hgt]

theorem atKey_filter_ne (c : β) : (l.filter (f · ≠ c)).atKey f b = if c = b then none else l.atKey f b := by
  split
  · next hc =>
      subst hc
      exact atKey_eq_none.mpr fun a ha => by simpa using (mem_filter.mp ha).2
  · next hc => exact atKey_filter fun a _ ha => by simpa [ha] using Ne.symm hc

end List

import MyDemo.Ijkmedia.Tree
import MyDemo.Lib.SearchTree
import Mathlib.Algebra.Ring.Int.Defs
import Mathlib.Algebra.Ring.Nat
import Mathlib.Data.List.Basic

/-!
# Balance and order of the tree
-/

namespace MyDemo.Ijkmedia

/-- `cmp` is a three-way comparison: `g` gives the key of its first argument, and `f` that of an element. -/
structure Compares {κ α β : Type*} [LinearOrder β] (cmp : κ → α → ℤ) (g : κ → β) (f : α → β) : Prop where
  neg : ∀ k a, cmp k a < 0 ↔ g k < f a
  zero : ∀ k a, cmp k a = 0 ↔ g k = f a

theorem compares_FFDIFFSIGN {α κ : Type*} (g : κ → ℤ) (f : α → ℤ) :
    Compares (fun k a => FFDIFFSIGN (g k) (f a)) g f where
  neg k a := by
    rw [FFDIFFSIGN]
    split <;> split <;> omega
  zero k a := by
    rw [FFDIFFSIGN]
    split <;> split <;> omega

namespace IjkAVTreeNode

variable {α κ β : Type*} [LinearOrder β] {f : α → β} {g : κ → β}

/-! ## The elements and the states -/

def toList (t : IjkAVTreeNode α) : List α := t.toTree.inorder

def height (t : IjkAVTreeNode α) : ℕ := t.toTree.height

/-- Each `state` is the height of `child[1]` less that of `child[0]`, and is one of -1, 0 and 1. -/
def Stated : IjkAVTreeNode α → Prop
  | null => True
  | node c0 _ s c1 => (s = c1.height - c0.height ∧ -1 ≤ s ∧ s ≤ 1) ∧ c0.Stated ∧ c1.Stated

@[simp] theorem toList_null : (null : IjkAVTreeNode α).toList = [] := rfl

@[simp] theorem toList_node (c0 : IjkAVTreeNode α) (e : α) (s : ℤ) (c1 : IjkAVTreeNode α) :
    (node c0 e s c1).toList = c0.toList ++ e :: c1.toList := rfl

@[simp] theorem height_null : (null : IjkAVTreeNode α).height = 0 := rfl

@[simp] theorem height_node (c0 : IjkAVTreeNode α) (e : α) (s : ℤ) (c1 : IjkAVTreeNode α) :
    (node c0 e s c1).height = max c0.height c1.height + 1 := rfl

@[simp] theorem stated_null : (null : IjkAVTreeNode α).Stated := trivial

@[simp] theorem stated_node (c0 : IjkAVTreeNode α) (e : α) (s : ℤ) (c1 : IjkAVTreeNode α) :
    (node c0 e s c1).Stated ↔ (s = c1.height - c0.height ∧ -1 ≤ s ∧ s ≤ 1) ∧ c0.Stated ∧ c1.Stated := Iff.rfl

theorem Stated.balanced {t : IjkAVTreeNode α} (h : t.Stated) : t.toTree.Balanced := by
  induction t with
  | null => trivial
  | node c0 e s c1 ih0 ih1 =>
      obtain ⟨⟨hs, hlo, hhi⟩, h0, h1⟩ := h
      refine ⟨?_, ih0 h0, ih1 h1⟩
      change c0.height ≤ c1.height + 1 ∧ c1.height ≤ c0.height + 1
      omega

@[simp] theorem height_link (i : Bool) (a b : IjkAVTreeNode α) (e : α) (s : ℤ) :
    (link i a e s b).height = max a.height b.height + 1 := by
  cases i
  · rfl
  · exact congrArg (· + 1) (max_comm _ _)

theorem toList_ne_nil {t : IjkAVTreeNode α} (h : t.isNode = true) : t.toList ≠ [] := by
  cases t with
  | null => cases h
  | node c0 e s c1 => simp

theorem eq_null_of_isNode {t : IjkAVTreeNode α} (h : t.isNode = false) : t = null := by
  cases t with
  | null => rfl
  | node c0 e s c1 => cases h

theorem toList_link_false (a b : IjkAVTreeNode α) (e : α) (s : ℤ) :
    (link false a e s b).toList = a.toList ++ e :: b.toList := rfl

theorem toList_link_true (a b : IjkAVTreeNode α) (e : α) (s : ℤ) :
    (link true a e s b).toList = b.toList ++ e :: a.toList := rfl

@[simp] theorem toList_map (h : α → α) (t : IjkAVTreeNode α) : (t.map h).toList = t.toList.map h := by
  induction t with
  | null => rfl
  | node c0 e s c1 ih0 ih1 => simp [map, ih0, ih1]

@[simp] theorem height_map (h : α → α) (t : IjkAVTreeNode α) : (t.map h).height = t.height := by
  induction t with
  | null => rfl
  | node c0 e s c1 ih0 ih1 => simp [map, ih0, ih1]

theorem Stated.map {t : IjkAVTreeNode α} (ht : t.Stated) (h : α → α) : (t.map h).Stated := by
  induction t with
  | null => trivial
  | node c0 e s c1 ih0 ih1 => exact ⟨by simpa using ht.1, ih0 ht.2.1, ih1 ht.2.2⟩

theorem enumerate_null {σ : Type*} (enu : σ → α → σ) (t : IjkAVTreeNode α) (s : σ) :
    ijk_av_tree_enumerate none enu t s = t.toList.foldl enu s := by
  induction t generalizing s with
  | null => rfl
  | node c0 e st c1 ih0 ih1 => simp [ijk_av_tree_enumerate, ih0, ih1]

/-! ## ijk_av_tree_find -/

theorem find_spec {cmp : κ → α → ℤ} (hc : Compares cmp g f) (key : κ) {t : IjkAVTreeNode α}
    (ht : t.toList.Increasing f) (next : Option (Next α)) :
    ijk_av_tree_find cmp key t next = (t.toList.atKey f (g key), next.map fun n =>
      ⟨(t.toList.keyBelow f (g key)).or n.prev, (t.toList.keyAbove f (g key)).or n.next⟩) := by
  induction t generalizing next with
  | null => cases next <;> rfl
  | node c0 e s c1 ih0 ih1 =>
      rw [toList_node] at ht ⊢
      obtain ⟨h0, h1, hle, hge⟩ := List.increasing_middle.mp ht
      have hneg := hc.neg key e
      have hzero := hc.zero key e
      rw [ijk_av_tree_find]
      rcases lt_trichotomy (g key) (f e) with hlt | heq | hgt
      · rw [if_pos (hneg.mpr hlt), ih0 h0, List.atKey_left ht hlt, List.keyBelow_left ht hlt.le,
          List.keyAbove_left ht hlt]
        cases next <;> simp [Next.set]
      · have hcmp : cmp key e = 0 := hzero.mpr heq
        rw [heq] at ih0 ih1 ⊢
        rw [List.atKey_middle hle, if_pos rfl, List.keyBelow_left ht le_rfl, List.keyAbove_right ht le_rfl]
        cases next with
        | none => simp [hcmp]
        | some n =>
            simp only [hcmp, lt_irrefl, if_false, ne_eq, not_true_eq_false, Option.isSome_some, if_true, ih0 h0,
              ih1 h1, Option.map_some, List.keyAbove_eq_none fun a ha => (hle a ha).le,
              List.keyBelow_eq_none fun a ha => (hge a ha).le, Option.none_or]
      · have hcmp : ¬cmp key e < 0 := fun h => lt_asymm (hneg.mp h) hgt
        have hne : cmp key e ≠ 0 := fun h => hgt.ne' (hzero.mp h)
        rw [if_neg hcmp, if_pos hne, ih1 h1, List.atKey_right ht hgt, List.keyBelow_right ht hgt,
          List.keyAbove_right ht hgt.le]
        cases next <;> simp [Next.set]

/-! ## The rotations -/

/-- The sign that `state` has where `child[i]` is the higher one. -/
def side (i : Bool) : ℤ := if i then 1 else -1

theorem stated_link {i : Bool} {a b : IjkAVTreeNode α} {e : α} {s : ℤ} :
    (link i a e s b).Stated ↔
      (s = side i * (a.height - b.height) ∧ -1 ≤ s ∧ s ≤ 1) ∧ a.Stated ∧ b.Stated := by
  cases i
  · simp only [link, side, Bool.false_eq_true, if_false, stated_node]
    constructor
    · rintro ⟨h, ha, hb⟩; exact ⟨by omega, ha, hb⟩
    · rintro ⟨h, ha, hb⟩; exact ⟨by omega, ha, hb⟩
  · simp only [link, side, if_true, stated_node]
    constructor
    · rintro ⟨h, ha, hb⟩; exact ⟨by omega, hb, ha⟩
    · rintro ⟨h, ha, hb⟩; exact ⟨by omega, hb, ha⟩

@[simp] theorem deref_link (i : Bool) (a b : IjkAVTreeNode α) (e : α) (s : ℤ) :
    (link i a e s b).deref i = some (a, e, s, b) := by
  cases i <;> rfl

theorem exists_link (i : Bool) {t : IjkAVTreeNode α} (h : 0 < t.height) :
    ∃ a e s b, t = link i a e s b := by
  cases t with
  | null => simp at h
  | node c0 e s c1 =>
      cases i
      · exact ⟨c0, e, s, c1, rfl⟩
      · exact ⟨c1, e, s, c0, rfl⟩

theorem rotate_double (i : Bool) (outer a b other : IjkAVTreeNode α) (e ce ge : α) (cs gs : ℤ) :
    rotate i (link i (link i outer ce cs (link i a ge gs b)) e (-(cs * 2)) other) =
      some (link i (link i outer ce (if i then (if gs < 0 then 1 else 0) else if gs > 0 then -1 else 0) a) ge 0
        (link i b e (if i then (if gs > 0 then -1 else 0) else if gs < 0 then 1 else 0) other)) := by
  simp [rotate]

theorem rotate_single {i : Bool} {cs s : ℤ} (h : ¬cs * 2 = -s) (outer inner other : IjkAVTreeNode α) (e ce : α) :
    rotate i (link i (link i outer ce cs inner) e s other) =
      some (link i outer ce (-(if cs ≠ 0 then (0 : ℤ) else s >>> (1 : ℕ)))
        (link i inner e (if cs ≠ 0 then 0 else s >>> (1 : ℕ)) other)) := by
  simp [rotate, h]

/-- A child that is two levels higher than the other. -/
theorem rotate_spec (i : Bool) {child other : IjkAVTreeNode α} (e : α) (hc : child.Stated)
    (ho : other.Stated) (hh : child.height = other.height + 2) :
    ∃ a x s b, rotate i (link i child e (2 * side i) other) = some (link i a x s b) ∧ (link i a x s b).Stated ∧
      (link i a x s b).toList = (link i child e 0 other).toList ∧
      (link i a x s b).height = other.height + 2 + (if s = 0 then 0 else 1) := by
  obtain ⟨outer, ce, cs, inner, rfl⟩ := exists_link i (show 0 < child.height by omega)
  obtain ⟨hcs, houter, hinner⟩ := stated_link.mp hc
  rw [height_link] at hh
  by_cases hdouble : cs = -side i
  · subst hdouble
    have hhi : inner.height = outer.height + 1 := by cases i <;> simp [side] at hcs <;> omega
    obtain ⟨a, ge, gs, b, rfl⟩ := exists_link i (show 0 < inner.height by omega)
    obtain ⟨hgs, ha, hb⟩ := stated_link.mp hinner
    rw [height_link] at hh hhi
    have hrot := rotate_double i outer a b other e ce ge (-side i) gs
    rw [show -(-side i * 2) = 2 * side i by omega] at hrot
    refine ⟨_, _, _, _, hrot, ?_, ?_, ?_⟩
    · simp only [stated_link, height_link, ha, hb, houter, ho, and_true]
      cases i <;> simp only [side] at hgs ⊢ <;> grind
    · cases i <;> simp [link]
    · simp only [height_link, if_true]
      omega
  · have hne : ¬cs * 2 = -(2 * side i) := by omega
    have hshift : (2 * side i) >>> (1 : ℕ) = side i := by cases i <;> rfl
    refine ⟨_, _, _, _, rotate_single hne outer inner other e ce, ?_, ?_, ?_⟩
    · simp only [stated_link, height_link, hinner, houter, ho, and_true, hshift]
      cases i <;> simp only [side] at hcs hdouble ⊢ <;> grind
    · cases i <;> simp [link]
    · simp only [height_link, hshift]
      cases i <;> simp only [side] at hcs hdouble ⊢ <;> grind

/-- `child[i]` is the higher one, by two levels at most. -/
theorem balance_spec (i : Bool) {child other : IjkAVTreeNode α} (e : α) {s : ℤ} (hc : child.Stated)
    (ho : other.Stated) (hs : s = side i * (child.height - other.height)) (hlo : other.height ≤ child.height)
    (hhi : child.height ≤ other.height + 2) :
    ∃ a x s' b, balance i s (link i child e s other) = some (link i a x s' b) ∧ (link i a x s' b).Stated ∧
      (link i a x s' b).toList = (link i child e 0 other).toList ∧
      (link i a x s' b).height + (if s' = 0 then 1 else 0) =
        max (child.height + 1) (other.height + 2) := by
  have hcases : child.height = other.height ∨ child.height = other.height + 1 ∨ child.height = other.height + 2 := by
    omega
  rcases hcases with h | h | h
  · have hs0 : s = 0 := by rw [hs, h]; simp
    subst hs0
    refine ⟨child, e, 0, other, by simp [balance], ?_, rfl, ?_⟩
    · exact stated_link.mpr ⟨by rw [← hs]; simp, hc, ho⟩
    · simp only [height_link, if_true]
      omega
  · have hs1 : s = side i := by rw [hs, h]; push_cast; cases i <;> simp [side]
    subst hs1
    refine ⟨child, e, side i, other, by cases i <;> simp [balance, side], ?_, by cases i <;> rfl, ?_⟩
    · exact stated_link.mpr ⟨⟨hs, by cases i <;> simp [side]⟩, hc, ho⟩
    · rw [height_link, if_neg (by cases i <;> simp [side])]
      omega
  · have hs2 : s = 2 * side i := by rw [hs, h]; push_cast; cases i <;> simp [side]
    subst hs2
    obtain ⟨a, x, s', b, hrot, hst, hlist, hheight⟩ := rotate_spec i e hc ho h
    refine ⟨a, x, s', b, ?_, hst, hlist, ?_⟩
    · rw [balance, if_pos ⟨by omega, by cases i <;> simp [side]⟩, hrot]
    · rw [hheight]
      split <;> omega

/-- What the returned pointer says: null stands for a new height, greater by one, or less by one after a removal. -/
def Changed (removed : Bool) (old new : IjkAVTreeNode α) : Option α → Prop
  | some _ => new.height = old.height
  | none => if removed then new.height + 1 = old.height else new.height = old.height + 1

theorem link_not (i : Bool) (a b : IjkAVTreeNode α) (e : α) (s : ℤ) : link (!i) a e s b = link i b e s a := by
  cases i <;> rfl

theorem deref_false_link (i : Bool) (a b : IjkAVTreeNode α) (e : α) (s : ℤ) :
    ∃ x y, (link i a e s b).deref false = some (x, e, s, y) := by
  cases i
  · exact ⟨a, b, rfl⟩
  · exact ⟨b, a, rfl⟩

theorem side_eq (i : Bool) : side i = 1 ∨ side i = -1 := by cases i <;> simp [side]

theorem retrace_none {i j : Bool} {tree next other : IjkAVTreeNode α} {e : α} {s : ℤ} (key : α)
    (hi : (j ^^ next.isNode) = i) {a b : IjkAVTreeNode α} {x : α} {s' : ℤ}
    (hbal : balance i (s + side i) (link j tree e (s + side i) other) = some (link i a x s' b)) :
    retrace j e s other key ⟨tree, next, none⟩ =
      some ⟨link i a x s' b, next, if (s' = 0) ^^ next.isNode then some key else none⟩ := by
  obtain ⟨x0, x1, hderef⟩ := deref_false_link i a b x s'
  simp only [side] at hbal
  simp only [retrace, hi, hbal, Option.bind_eq_bind, Option.bind_some, hderef, Option.pure_def]

theorem retrace_spec {j : Bool} {c other : IjkAVTreeNode α} {e₀ : α} {s : ℤ} (h : (link j c e₀ s other).Stated)
    (e key : α) (next : IjkAVTreeNode α) {tree : IjkAVTreeNode α} {ret : Option α} (hr : tree.Stated)
    (hch : Changed next.isNode c tree ret) :
    ∃ tree' ret', retrace j e s other key ⟨tree, next, ret⟩ = some ⟨tree', next, ret'⟩ ∧ tree'.Stated ∧
      tree'.toList = (link j tree e s other).toList ∧
      Changed next.isNode (link j c e₀ s other) tree' ret' := by
  obtain ⟨hs, hc, ho⟩ := stated_link.mp h
  cases ret with
  | some k =>
      have hheight : tree.height = c.height := hch
      refine ⟨link j tree e s other, some k, rfl, stated_link.mpr ⟨?_, hr, ho⟩, rfl, ?_⟩
      · rw [hheight]; exact hs
      · simp only [Changed, height_link, hheight]
  | none =>
      have hside := side_eq j
      cases hremoved : next.isNode with
      | false =>
          have hheight : tree.height = c.height + 1 := by simpa [Changed, hremoved] using hch
          obtain ⟨a, x, s', b, hbal, hst, hlist, htp⟩ := balance_spec j (s := s + side j) e hr ho
            (by rcases hside with hj | hj <;> rw [hj] at hs ⊢ <;> omega)
            (by rcases hside with hj | hj <;> rw [hj] at hs <;> omega)
            (by rcases hside with hj | hj <;> rw [hj] at hs <;> omega)
          refine ⟨_, _, retrace_none key (by rw [hremoved, Bool.xor_false]) hbal, hst, ?_, ?_⟩
          · rw [hlist]; cases j <;> rfl
          · simp only [hremoved, Bool.xor_false, decide_eq_true_eq]
            split at htp
            · next hz => simp only [hz, if_true, Changed, height_link] at htp ⊢; omega
            · next hz =>
                simp only [hz, if_false, Changed, height_link, Bool.false_eq_true] at htp ⊢
                rcases hside with hj | hj <;> rw [hj] at hs <;> omega
      | true =>
          have hheight : tree.height + 1 = c.height := by simpa [Changed, hremoved] using hch
          have hnot : side (!j) = -side j := by cases j <;> rfl
          obtain ⟨a, x, s', b, hbal, hst, hlist, htp⟩ := balance_spec (!j) (s := s + side !j) e ho hr
            (by rw [hnot]; rcases hside with hj | hj <;> rw [hj] at hs ⊢ <;> omega)
            (by rcases hside with hj | hj <;> rw [hj] at hs <;> omega)
            (by rcases hside with hj | hj <;> rw [hj] at hs <;> omega)
          rw [link_not] at hbal
          refine ⟨_, _, retrace_none key (by rw [hremoved, Bool.xor_true]) hbal, hst, ?_, ?_⟩
          · rw [hlist, link_not]; cases j <;> rfl
          · simp only [hremoved, Bool.xor_true]
            split at htp
            · next hz =>
                simp [hz, Changed, height_link] at htp ⊢
                rcases hside with hj | hj <;> rw [hj] at hs <;> omega
            · next hz =>
                simp [hz, Changed, height_link] at htp ⊢
                rcases hside with hj | hj <;> rw [hj] at hs <;> omega

/-! ## ijk_av_tree_insert -/

section insert

variable {cmp : α → α → ℤ} (hc : Compares cmp f f)
include hc

theorem insert_present {key e : α} {t next : IjkAVTreeNode α} (ht : t.toList.Increasing f)
    (he : t.toList.atKey f (f key) = some e) (hnext : next.isNode) :
    ijk_av_tree_insert cmp t key next = some ⟨t, next, some e⟩ := by
  induction t with
  | null => cases he
  | node c0 d s c1 ih0 ih1 =>
      rw [toList_node] at ht he
      obtain ⟨h0, h1, hle, hge⟩ := List.increasing_middle.mp ht
      have hneg := hc.neg d key
      have hzero := hc.zero d key
      rw [ijk_av_tree_insert]
      rcases lt_trichotomy (f key) (f d) with hlt | heq | hgt
      · rw [List.atKey_left ht hlt] at he
        rw [if_neg fun h => hlt.ne' (hzero.mp h), if_neg fun h => lt_asymm (hneg.mp h) hlt, ih0 h0 he]
        rfl
      · rw [heq, List.atKey_middle hle, if_pos rfl] at he
        rw [if_pos (hzero.mpr heq.symm), if_pos hnext, Option.some.inj he]
      · rw [List.atKey_right ht hgt] at he
        rw [if_neg fun h => hgt.ne (hzero.mp h), if_pos (hneg.mpr hgt), ih1 h1 he]
        rfl

theorem remove_absent {key : α} {t : IjkAVTreeNode α} (ht : t.toList.Increasing f)
    (he : t.toList.atKey f (f key) = none) : ijk_av_tree_insert cmp t key null = some ⟨t, null, some key⟩ := by
  induction t with
  | null => rfl
  | node c0 d s c1 ih0 ih1 =>
      rw [toList_node] at ht he
      obtain ⟨h0, h1, hle, hge⟩ := List.increasing_middle.mp ht
      have hneg := hc.neg d key
      have hzero := hc.zero d key
      rw [ijk_av_tree_insert]
      rcases lt_trichotomy (f key) (f d) with hlt | heq | hgt
      · rw [List.atKey_left ht hlt] at he
        rw [if_neg fun h => hlt.ne' (hzero.mp h), if_neg fun h => lt_asymm (hneg.mp h) hlt, ih0 h0 he]
        rfl
      · rw [heq, List.atKey_middle hle, if_pos rfl] at he
        cases he
      · rw [List.atKey_right ht hgt] at he
        rw [if_neg fun h => hgt.ne (hzero.mp h), if_pos (hneg.mpr hgt), ih1 h1 he]
        rfl

theorem insert_absent {key : α} {t : IjkAVTreeNode α} (hs : t.Stated) (ht : t.toList.Increasing f)
    (he : t.toList.atKey f (f key) = none) (x : α) :
    ∃ t' ret, ijk_av_tree_insert cmp t key (alloc x) = some ⟨t', null, ret⟩ ∧ t'.Stated ∧
      t'.toList = t.toList.insertKey f key ∧ Changed false t t' ret := by
  induction t with
  | null => exact ⟨alloc key, none, rfl, by simp [alloc], rfl, by simp [Changed, alloc]⟩
  | node c0 d s c1 ih0 ih1 =>
      rw [toList_node] at ht he
      obtain ⟨h0, h1, hle, hge⟩ := List.increasing_middle.mp ht
      have hneg := hc.neg d key
      have hzero := hc.zero d key
      have hs0 := hs.2.1
      have hs1 := hs.2.2
      rw [ijk_av_tree_insert]
      rcases lt_trichotomy (f key) (f d) with hlt | heq | hgt
      · rw [List.atKey_left ht hlt] at he
        obtain ⟨c0', ret, hins, hst, hlist, hch⟩ := ih0 hs0 h0 he
        obtain ⟨t', ret', hre, hst', hlist', hch'⟩ := retrace_spec (j := false) hs d key null hst hch
        rw [if_neg fun h => hlt.ne' (hzero.mp h), if_neg fun h => lt_asymm (hneg.mp h) hlt, hins]
        refine ⟨t', ret', hre, hst', ?_, hch'⟩
        rw [hlist', toList_node, List.insertKey, List.filter_lt_left ht hlt.le, List.filter_gt_left ht hlt]
        simp [toList_link_false, hlist, List.insertKey]
      · rw [heq, List.atKey_middle hle, if_pos rfl] at he
        cases he
      · rw [List.atKey_right ht hgt] at he
        obtain ⟨c1', ret, hins, hst, hlist, hch⟩ := ih1 hs1 h1 he
        obtain ⟨t', ret', hre, hst', hlist', hch'⟩ := retrace_spec (j := true) hs d key null hst hch
        rw [if_neg fun h => hgt.ne (hzero.mp h), if_pos (hneg.mpr hgt), hins]
        refine ⟨t', ret', hre, hst', ?_, hch'⟩
        rw [hlist', toList_node, List.insertKey, List.filter_lt_right ht hgt, List.filter_gt_right ht hgt.le]
        simp [toList_link_true, hlist, List.insertKey]

theorem remove_present {key e : α} {t : IjkAVTreeNode α} (hs : t.Stated) (ht : t.toList.Increasing f)
    (he : t.toList.atKey f (f key) = some e) :
    ∃ t' x ret, ijk_av_tree_insert cmp t key null = some ⟨t', alloc x, ret⟩ ∧ t'.Stated ∧
      t'.toList = t.toList.filter (f · ≠ f key) ∧ Changed true t t' ret := by
  induction t generalizing key e with
  | null => cases he
  | node c0 d s c1 ih0 ih1 =>
      rw [toList_node] at ht he
      obtain ⟨h0, h1, hle, hge⟩ := List.increasing_middle.mp ht
      have hneg := hc.neg d key
      have hzero := hc.zero d key
      have hs0 := hs.2.1
      have hs1 := hs.2.2
      rw [ijk_av_tree_insert]
      rcases lt_trichotomy (f key) (f d) with hlt | heq | hgt
      · rw [List.atKey_left ht hlt] at he
        obtain ⟨c0', x, ret, hrem, hst, hlist, hch⟩ := ih0 hs0 h0 he
        obtain ⟨t', ret', hre, hst', hlist', hch'⟩ := retrace_spec (j := false) hs d key (alloc x) hst hch
        rw [if_neg fun h => hlt.ne' (hzero.mp h), if_neg fun h => lt_asymm (hneg.mp h) hlt, hrem]
        refine ⟨t', x, ret', hre, hst', ?_, hch'⟩
        rw [hlist', toList_node, List.filter_ne_left ht hlt]
        simp [toList_link_false, hlist]
      · rw [if_pos (hzero.mpr heq.symm), if_neg (by simp [isNode])]
        simp only [toList_node, heq, List.filter_ne_middle ht]
        cases hn0 : c0.isNode with
        | true =>
            obtain ⟨front, k, hfront⟩ := List.eq_nil_or_concat' c0.toList |>.resolve_left (toList_ne_nil hn0)
            have hbelow : c0.toList.keyBelow f (f key) = some k := by
              rw [heq, List.keyBelow_eq_getLast? hle, hfront, List.getLast?_concat]
            have hk : c0.toList.atKey f (f k) = some k := h0.atKey_of_mem (by rw [hfront]; simp)
            obtain ⟨c0', x, ret, hrem, hst, hlist, hch⟩ := ih0 hs0 h0 hk
            obtain ⟨t', ret', hre, hst', hlist', hch'⟩ :=
              retrace_spec (j := false) hs k k (alloc x) hst hch
            refine ⟨t', x, ret', ?_, hst', ?_, hch'⟩
            · simp [find_spec hc key h0, hbelow, Next.get, hrem, hre]
            · have hrest : (c0.toList).filter (f · ≠ f k) = front := by
                rw [hfront] at h0 ⊢
                rw [List.filter_ne_middle h0, List.append_nil]
              rw [hlist', toList_link_false, hlist, hrest, hfront, List.append_assoc, List.singleton_append]
        | false =>
            obtain rfl := eq_null_of_isNode hn0
            cases hn1 : c1.isNode with
            | true =>
                obtain ⟨k, rest, hrest⟩ := List.exists_cons_of_ne_nil (toList_ne_nil hn1)
                have habove : c1.toList.keyAbove f (f key) = some k := by
                  rw [heq, List.keyAbove_eq_head? hge, hrest, List.head?_cons]
                have hk : c1.toList.atKey f (f k) = some k := h1.atKey_of_mem (by rw [hrest]; simp)
                obtain ⟨c1', x, ret, hrem, hst, hlist, hch⟩ := ih1 hs1 h1 hk
                obtain ⟨t', ret', hre, hst', hlist', hch'⟩ :=
                  retrace_spec (j := true) hs k k (alloc x) hst hch
                refine ⟨t', x, ret', ?_, hst', ?_, hch'⟩
                · simp [find_spec hc key h1, habove, Next.get, hrem, hre]
                · have hfront : c1.toList.filter (f · ≠ f k) = rest := by
                    rw [hrest] at h1 ⊢
                    exact List.filter_ne_middle (l := []) h1
                  rw [hlist', toList_link_true, hlist, hfront, hrest, toList_null, List.nil_append]
            | false =>
                obtain rfl := eq_null_of_isNode hn1
                obtain ⟨⟨hz, _⟩, _⟩ := hs
                simp only [height_null, Nat.cast_zero, sub_zero] at hz
                exact ⟨null, d, none, by simp [alloc, hz], trivial, rfl, by simp [Changed]⟩
      · rw [List.atKey_right ht hgt] at he
        obtain ⟨c1', x, ret, hrem, hst, hlist, hch⟩ := ih1 hs1 h1 he
        obtain ⟨t', ret', hre, hst', hlist', hch'⟩ := retrace_spec (j := true) hs d key (alloc x) hst hch
        rw [if_neg fun h => hgt.ne (hzero.mp h), if_pos (hneg.mpr hgt), hrem]
        refine ⟨t', x, ret', hre, hst', ?_, hch'⟩
        rw [hlist', toList_node, List.filter_ne_right ht hgt]
        simp [toList_link_true, hlist]

end insert

end IjkAVTreeNode

end MyDemo.Ijkmedia

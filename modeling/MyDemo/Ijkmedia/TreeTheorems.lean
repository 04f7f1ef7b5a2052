import MyDemo.Ijkmedia.Lemmas.Tree
import MyDemo.Lib.Transition
import Mathlib.Data.Finset.Card
import Mathlib.Order.Bounds.Defs

/-!
# The balanced tree is a map
-/

namespace MyDemo.Ijkmedia

open Transition

namespace IjkAVTreeNode

variable {α κ β σ : Type*} [LinearOrder β] {f : α → β} {g : κ → β} {cmp : α → α → ℤ} {cmpKey : κ → α → ℤ}
  {t t' : IjkAVTreeNode α}

/-! ## Runs -/

inductive Op (α : Type*) where
  | insert (e : α)
  | remove (e : α)
  deriving DecidableEq, Repr

/-- An insertion gets a new node, and a removal a null pointer. -/
def step (cmp : α → α → ℤ) (t : IjkAVTreeNode α) : Op α → Option (IjkAVTreeNode α)
  | .insert e => (ijk_av_tree_insert cmp t e (alloc e)).map (·.tree)
  | .remove e => (ijk_av_tree_insert cmp t e null).map (·.tree)

/-- The same for a partial map: an element that is there already is not replaced. -/
def Op.apply (f : α → β) (m : β → Option α) : Op α → β → Option α
  | .insert e => if (m (f e)).isSome then m else Function.update m (f e) (some e)
  | .remove e => Function.update m (f e) none

/-- The states are those of an ordered, balanced tree that stores the map `m`. -/
structure Stores (f : α → β) (t : IjkAVTreeNode α) (m : β → Option α) : Prop where
  stated : t.Stated
  increasing : t.toList.Increasing f
  atKey : ∀ b, t.toList.atKey f b = m b

theorem Stores.null : (null : IjkAVTreeNode α).Stores f fun _ => none := ⟨trivial, .nil, fun _ => rfl⟩

theorem Stores.mem_iff {m : β → Option α} (h : t.Stores f m) {e : α} : e ∈ t.toList ↔ m (f e) = some e := by
  rw [← h.atKey]
  exact ⟨h.increasing.atKey_of_mem, fun he => (List.mem_of_atKey he).1⟩

theorem Stores.step {m : β → Option α} (hc : Compares cmp f f) (h : t.Stores f m) (a : Op α) :
    ∃ t', t.step cmp a = some t' ∧ t'.Stores f (a.apply f m) := by
  cases a with
  | insert e =>
      have hm := h.atKey (f e)
      cases he : t.toList.atKey f (f e) with
      | some d =>
          refine ⟨t, ?_, ?_⟩
          · rw [IjkAVTreeNode.step, insert_present hc h.increasing he rfl]; rfl
          · rw [Op.apply, if_pos (by rw [← hm, he]; rfl)]; exact h
      | none =>
          obtain ⟨t', ret, hins, hst, hlist, _⟩ := insert_absent hc h.stated h.increasing he e
          have happly : Op.apply f m (.insert e) = Function.update m (f e) (some e) :=
            if_neg (by rw [← hm, he]; simp)
          refine ⟨t', by rw [IjkAVTreeNode.step, hins]; rfl, hst, hlist ▸ h.increasing.insertKey e, fun b => ?_⟩
          rw [hlist, List.atKey_insertKey he, happly, h.atKey, Function.update_apply]
          exact if_congr eq_comm rfl rfl
  | remove e =>
      cases he : t.toList.atKey f (f e) with
      | some d =>
          obtain ⟨t', x, ret, hrem, hst, hlist, _⟩ := remove_present hc h.stated h.increasing he
          refine ⟨t', by rw [IjkAVTreeNode.step, hrem]; rfl, hst, hlist ▸ h.increasing.filter _, fun b => ?_⟩
          rw [hlist, List.atKey_filter_ne, h.atKey, Op.apply, Function.update_apply]
          exact if_congr eq_comm rfl rfl
      | none =>
          refine ⟨t, by rw [IjkAVTreeNode.step, remove_absent hc h.increasing he]; rfl, ?_⟩
          rw [Op.apply, Function.update_eq_self_iff.mpr (by rw [← h.atKey, he])]
          exact h

theorem exists_run (hc : Compares cmp f f) (ops : List (Op α)) :
    ∃ t, run (step cmp) null ops = some t ∧ t.Stores f (ops.foldl (Op.apply f) fun _ => none) := by
  induction ops using List.reverseRecOn with
  | nil => exact ⟨null, rfl, .null⟩
  | append_singleton ops a ih =>
      obtain ⟨t, ht, hstores⟩ := ih
      obtain ⟨t', ht', hstores'⟩ := hstores.step hc a
      refine ⟨t', run_append.mpr ⟨t, ht, run_cons_eq_some.mpr ⟨t', ht', rfl⟩⟩, ?_⟩
      rw [List.foldl_append]
      exact hstores'

theorem stores_of_run (hc : Compares cmp f f) {ops : List (Op α)} (h : run (step cmp) null ops = some t) :
    t.Stores f (ops.foldl (Op.apply f) fun _ => none) := by
  obtain ⟨t', ht', hstores⟩ := exists_run hc ops
  rw [h, Option.some.injEq] at ht'
  exact ht' ▸ hstores

/-- Every sequence of insertions and removals runs, and afterwards the tree finds what the map holds. -/
theorem find_after_run (hc : Compares cmp f f) (hk : Compares cmpKey g f) (ops : List (Op α)) :
    ∃ t, run (step cmp) null ops = some t ∧ t.Stated ∧ t.toList.Increasing f ∧
      ∀ key next, (ijk_av_tree_find cmpKey key t next).1 = ops.foldl (Op.apply f) (fun _ => none) (g key) := by
  obtain ⟨t, ht, hstores⟩ := exists_run hc ops
  refine ⟨t, ht, hstores.stated, hstores.increasing, fun key next => ?_⟩
  rw [find_spec hk key hstores.increasing, hstores.atKey]

theorem find_after_four :
    ∃ t, run (step FFDIFFSIGN) null [.insert 2, .insert 1, .insert 3, .remove 2] = some t ∧
      (ijk_av_tree_find FFDIFFSIGN 3 t none).1 = some 3 ∧ (ijk_av_tree_find FFDIFFSIGN 2 t none).1 = none := by
  obtain ⟨t, ht, _, _, hfind⟩ := find_after_run (compares_FFDIFFSIGN id id) (compares_FFDIFFSIGN id id)
    [.insert 2, .insert 1, .insert 3, .remove 2]
  exact ⟨t, ht, (hfind 3 none).trans (by decide), (hfind 2 none).trans (by decide)⟩

theorem run_two : run (step FFDIFFSIGN) null [.insert 1, .insert 2] = some (node null 1 1 (alloc 2)) := by decide

/-! ## What a call leaves in `*next` and returns -/

/-- The cases of the comment in `ijktree.h`. A null pointer is returned where the tree has become higher, or lower
by a removal; the node that a removal gives back can be inserted again. -/
def Contract (cmp : α → α → ℤ) (f : α → β) (t : IjkAVTreeNode α) (key : α) : Prop :=
  match t.toList.atKey f (f key) with
  | some e =>
      (∀ x, ijk_av_tree_insert cmp t key (alloc x) = some ⟨t, alloc x, some e⟩) ∧
      ∃ t' x ret, ijk_av_tree_insert cmp t key null = some ⟨t', alloc x, ret⟩ ∧
        t'.toList = t.toList.filter (f · ≠ f key) ∧
        t'.height + (if ret.isSome then 0 else 1) = t.height
  | none =>
      (∀ x, ∃ t' ret, ijk_av_tree_insert cmp t key (alloc x) = some ⟨t', null, ret⟩ ∧
        t'.toList = t.toList.insertKey f key ∧
        t'.height = t.height + (if ret.isSome then 0 else 1)) ∧
      ijk_av_tree_insert cmp t key null = some ⟨t, null, some key⟩

theorem contract_of_run (hc : Compares cmp f f) {ops : List (Op α)} (h : run (step cmp) null ops = some t)
    (key : α) : Contract cmp f t key := by
  have hstores := stores_of_run hc h
  rw [Contract]
  split
  · next e he =>
      refine ⟨fun x => insert_present hc hstores.increasing he rfl, ?_⟩
      obtain ⟨t', x, ret, hrem, _, hlist, hch⟩ := remove_present hc hstores.stated hstores.increasing he
      refine ⟨t', x, ret, hrem, hlist, ?_⟩
      cases ret
      · simpa [Changed] using hch
      · simpa [Changed] using hch
  · next he =>
      refine ⟨fun x => ?_, remove_absent hc hstores.increasing he⟩
      obtain ⟨t', ret, hins, _, hlist, hch⟩ := insert_absent hc hstores.stated hstores.increasing he x
      refine ⟨t', ret, hins, hlist, ?_⟩
      cases ret
      · simpa [Changed] using hch
      · simpa [Changed] using hch

theorem contract_of_two : Contract FFDIFFSIGN id (node null 1 1 (alloc 2)) 1 :=
  contract_of_run (compares_FFDIFFSIGN id id) run_two 1

/-! ## The neighbours -/

/-- `d` is the element of the greatest key below `b`. -/
def IsPrevious (f : α → β) (m : β → Option α) (b : β) (d : α) : Prop :=
  m (f d) = some d ∧ IsGreatest {c | (m c).isSome ∧ c < b} (f d)

/-- `d` is the element of the least key above `b`. -/
def IsFollowing (f : α → β) (m : β → Option α) (b : β) (d : α) : Prop :=
  m (f d) = some d ∧ IsLeast {c | (m c).isSome ∧ b < c} (f d)

theorem Stores.exists_mem {m : β → Option α} (h : t.Stores f m) {c : β} (hc : (m c).isSome) :
    ∃ a ∈ t.toList, f a = c := by
  obtain ⟨a, ha⟩ := Option.isSome_iff_exists.mp hc
  rw [← h.atKey] at ha
  exact ⟨a, List.mem_of_atKey ha⟩

theorem Stores.prev {m : β → Option α} (h : t.Stores f m) (b : β) (old : Option α) :
    (∃ d, (t.toList.keyBelow f b).or old = some d ∧ IsPrevious f m b d) ∨
      (t.toList.keyBelow f b).or old = old ∧ ∀ c < b, m c = none := by
  cases hb : t.toList.keyBelow f b with
  | some d =>
      obtain ⟨hd, hlt, hmax⟩ := h.increasing.keyBelow_eq_some hb
      have hm := h.mem_iff.mp hd
      refine .inl ⟨d, rfl, hm, ⟨by rw [hm]; rfl, hlt⟩, fun c hcb => ?_⟩
      obtain ⟨a, ha, rfl⟩ := h.exists_mem hcb.1
      exact hmax a ha hcb.2
  | none =>
      refine .inr ⟨rfl, fun c hcb => Option.not_isSome_iff_eq_none.mp fun hc => ?_⟩
      obtain ⟨a, ha, rfl⟩ := h.exists_mem hc
      exact absurd hcb (List.le_of_keyBelow_eq_none hb ha).not_gt

theorem Stores.next {m : β → Option α} (h : t.Stores f m) (b : β) (old : Option α) :
    (∃ d, (t.toList.keyAbove f b).or old = some d ∧ IsFollowing f m b d) ∨
      (t.toList.keyAbove f b).or old = old ∧ ∀ c, b < c → m c = none := by
  cases hb : t.toList.keyAbove f b with
  | some d =>
      obtain ⟨hd, hlt, hmin⟩ := h.increasing.keyAbove_eq_some hb
      have hm := h.mem_iff.mp hd
      refine .inl ⟨d, rfl, hm, ⟨by rw [hm]; rfl, hlt⟩, fun c hcb => ?_⟩
      obtain ⟨a, ha, rfl⟩ := h.exists_mem hcb.1
      exact hmin a ha hcb.2
  | none =>
      refine .inr ⟨rfl, fun c hcb => Option.not_isSome_iff_eq_none.mp fun hc => ?_⟩
      obtain ⟨a, ha, rfl⟩ := h.exists_mem hc
      exact absurd hcb (List.le_of_keyAbove_eq_none hb ha).not_gt

/-- After any run `next` has the elements on both sides of the key, whether the key itself is there or not. An
entry for which there is no element keeps its value. -/
theorem neighbours_after_run (hc : Compares cmp f f) (hk : Compares cmpKey g f) {ops : List (Op α)}
    (h : run (step cmp) null ops = some t) (key : κ) (n : Next α) :
    ∃ n', (ijk_av_tree_find cmpKey key t (some n)).2 = some n' ∧
      ((∃ d, n'.prev = some d ∧ IsPrevious f (ops.foldl (Op.apply f) fun _ => none) (g key) d) ∨
        n'.prev = n.prev ∧ ∀ c < g key, ops.foldl (Op.apply f) (fun _ => none) c = none) ∧
      ((∃ d, n'.next = some d ∧ IsFollowing f (ops.foldl (Op.apply f) fun _ => none) (g key) d) ∨
        n'.next = n.next ∧ ∀ c, g key < c → ops.foldl (Op.apply f) (fun _ => none) c = none) := by
  have hstores := stores_of_run hc h
  refine ⟨_, by rw [find_spec hk key hstores.increasing]; rfl, ?_, ?_⟩
  · exact hstores.prev (g key) n.prev
  · exact hstores.next (g key) n.next

theorem neighbours_of_two : ∃ n', (ijk_av_tree_find FFDIFFSIGN 3 (node null 1 1 (alloc 2)) (some ⟨none, none⟩)).2 =
    some n' ∧ n'.prev = some 2 := by
  obtain ⟨n', hn', hprev, _⟩ := neighbours_after_run (compares_FFDIFFSIGN id id) (compares_FFDIFFSIGN id id)
    run_two 3 ⟨none, none⟩
  refine ⟨n', hn', ?_⟩
  rcases hprev with ⟨d, hd, hm, hgreatest⟩ | ⟨_, hnone⟩
  · have hle : (2 : ℤ) ≤ d := hgreatest.2 ⟨by decide, by decide⟩
    have hlt : d < 3 := hgreatest.1.2
    rw [hd, show d = 2 by omega]
  · exact absurd (hnone 2 (by decide)) (by decide)

/-! ## The height -/

/-- The recursions go no deeper than twice the logarithm of the number of keys. -/
theorem height_after_run (hc : Compares cmp f f) {ops : List (Op α)} (h : run (step cmp) null ops = some t) :
    ∃ keys : Finset β, (∀ b, b ∈ keys ↔ (ops.foldl (Op.apply f) (fun _ => none) b).isSome) ∧
      t.height ≤ 2 * Nat.log 2 (keys.card + 1) := by
  have hstores := stores_of_run hc h
  have hnodup : (t.toList.map f).Nodup :=
    List.pairwise_map.mpr (List.Pairwise.imp (fun hlt => hlt.ne) hstores.increasing)
  refine ⟨(t.toList.map f).toFinset, fun b => ?_, ?_⟩
  · rw [List.mem_toFinset, List.mem_map]
    constructor
    · rintro ⟨a, ha, rfl⟩
      rw [hstores.mem_iff.mp ha]
      rfl
    · exact hstores.exists_mem
  · rw [List.toFinset_card_of_nodup hnodup, List.length_map]
    exact hstores.stated.balanced.height_le

theorem height_of_two : ∃ keys : Finset ℤ,
    (∀ b, b ∈ keys ↔ ([Op.insert 1, .insert 2].foldl (Op.apply id) (fun _ => none) b).isSome) ∧
      (node null 1 1 (alloc 2)).height ≤ 2 * Nat.log 2 (keys.card + 1) :=
  height_after_run (compares_FFDIFFSIGN id id) run_two

/-! ## Enumeration -/

/-- `cmp` tells the elements below a range from those in it and those above it. -/
structure Ranges (f : α → β) (cmp : α → ℤ) : Prop where
  neg : ∀ a b, f a < f b → cmp b < 0 → cmp a < 0
  pos : ∀ a b, f a < f b → 0 < cmp a → 0 < cmp b

theorem enumerate_eq {cmp : α → ℤ} (hr : Ranges f cmp) (enu : σ → α → σ) (ht : t.toList.Increasing f) (s : σ) :
    ijk_av_tree_enumerate (some cmp) enu t s = (t.toList.filter (cmp · = 0)).foldl enu s := by
  induction t generalizing s with
  | null => rfl
  | node c0 e st c1 ih0 ih1 =>
      rw [toList_node] at ht ⊢
      obtain ⟨h0, h1, hle, hge⟩ := List.increasing_middle.mp ht
      rw [ijk_av_tree_enumerate, List.filter_append, List.filter_cons, List.foldl_append]
      rcases lt_trichotomy (cmp e) 0 with hlt | heq | hgt
      · have hnil : c0.toList.filter (cmp · = 0) = [] :=
          List.filter_eq_nil_iff.mpr fun a ha => by simpa using (hr.neg a e (hle a ha) hlt).ne
        simp [hlt.not_ge, hlt.ne, hlt.le, hnil, ih1 h1]
      · simp [heq, ih0 h0, ih1 h1]
      · have hnil : c1.toList.filter (cmp · = 0) = [] :=
          List.filter_eq_nil_iff.mpr fun a ha => by simpa using (hr.pos e a (hge a ha) hgt).ne'
        simp [hgt.le, hgt.ne', hgt.not_ge, hnil, ih0 h0]

/-- `enu` is called once on each element in the range, in the order of the keys; without a `cmp` on all of them. -/
theorem enumerate_after_run (hc : Compares cmp f f) {ops : List (Op α)} (h : run (step cmp) null ops = some t)
    (range : Option (α → ℤ)) (hr : ∀ c ∈ range, Ranges f c) :
    ∃ es : List α, es.Increasing f ∧
      (∀ e, e ∈ es ↔ ops.foldl (Op.apply f) (fun _ => none) (f e) = some e ∧ ∀ c ∈ range, c e = 0) ∧
      ∀ (enu : σ → α → σ) s, ijk_av_tree_enumerate range enu t s = es.foldl enu s := by
  have hstores := stores_of_run hc h
  cases range with
  | none =>
      exact ⟨t.toList, hstores.increasing, fun e => by simp [hstores.mem_iff], fun enu s => enumerate_null enu t s⟩
  | some c =>
      refine ⟨t.toList.filter (c · = 0), hstores.increasing.filter _, fun e => ?_, fun enu s => ?_⟩
      · simp [hstores.mem_iff]
      · exact enumerate_eq (hr c rfl) enu hstores.increasing s

theorem enumerate_two : ∃ es : List ℤ, es.Increasing id ∧
    (∀ e, e ∈ es ↔ [Op.insert 1, .insert 2].foldl (Op.apply id) (fun _ => none) e = some e ∧
      ∀ c ∈ some fun e => FFDIFFSIGN e 2, c e = 0) ∧
    ∀ (enu : List ℤ → ℤ → List ℤ) s,
      ijk_av_tree_enumerate (some fun e => FFDIFFSIGN e 2) enu (node null 1 1 (alloc 2)) s = es.foldl enu s :=
  enumerate_after_run (compares_FFDIFFSIGN id id) run_two _ fun c hc => by
    cases hc
    have hcmp := compares_FFDIFFSIGN (id : ℤ → ℤ) fun _ : Unit => (2 : ℤ)
    refine ⟨fun a b hab hb => (hcmp.neg a ()).mpr (hab.trans ((hcmp.neg b ()).mp hb)), fun a b hab ha => ?_⟩
    simp only [FFDIFFSIGN, id] at hab ha ⊢
    split at ha <;> split at ha <;> grind

end IjkAVTreeNode

end MyDemo.Ijkmedia

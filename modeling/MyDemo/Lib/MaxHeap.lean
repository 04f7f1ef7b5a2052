import Mathlib.Logic.Equiv.Basic
import Mathlib.Order.Lattice

/-!
# Heaps laid out in an array

The nodes are numbers, `parent c` is above `c`, and `f c` is the value at `c`. A heap may begin at a later node
than the root, and sifting down restores the order below one node.
-/

namespace MaxHeap

variable {α : Type*} [LinearOrder α] {f : ℕ → α} {i last k b c : ℕ}

def parent (c : ℕ) : ℕ := (c - 1) / 2

theorem parent_lt (h : 0 < c) : parent c < c := by
  rw [parent]
  omega

theorem parent_eq_iff (h : 0 < c) : parent c = k ↔ c = 2 * k + 1 ∨ c = 2 * k + 2 := by
  rw [parent]
  omega

/-- No node up to `last` is greater than its parent, where the parent is `i` or comes later. -/
def Ordered (f : ℕ → α) (i last : ℕ) : Prop :=
  ∀ c, 0 < c → c ≤ last → i ≤ parent c → f c ≤ f (parent c)

/-- The order may be wrong below `k` only. -/
structure Sifting (f : ℕ → α) (i last k : ℕ) : Prop where
  low : i ≤ k
  except : ∀ c, 0 < c → c ≤ last → i ≤ parent c → parent c ≠ k → f c ≤ f (parent c)
  grand : ∀ c, 0 < c → c ≤ last → parent c = k → 0 < k → i ≤ parent k → f c ≤ f (parent k)

/-- `b` is a child of `k` that no child is greater than. -/
structure GreatestChild (f : ℕ → α) (last k b : ℕ) : Prop where
  pos : 0 < b
  le_last : b ≤ last
  parent_eq : parent b = k
  le : ∀ c, 0 < c → c ≤ last → parent c = k → f c ≤ f b

theorem Sifting.start (h : Ordered f (i + 1) last) : Sifting f i last i where
  low := Nat.le_refl i
  except c hc hlast hi hne := h c hc hlast (by omega)
  grand _ _ _ _ hi hle := absurd (parent_lt hi) (Nat.not_lt_of_le hle)

theorem Sifting.finish (h : Sifting f i last k) (hk : ∀ c, 0 < c → c ≤ last → parent c = k → f c ≤ f k) :
    Ordered f i last := by
  intro c hc hlast hi
  by_cases hpk : parent c = k
  · exact hpk ▸ hk c hc hlast hpk
  · exact h.except c hc hlast hi hpk

/-- A node that is smaller than a child changes places with its greatest child. -/
theorem Sifting.step (h : Sifting f i last k) (hb : GreatestChild f last k b) (hlt : f k < f b) :
    Sifting (f ∘ Equiv.swap k b) i last b := by
  have hkb : k < b := hb.parent_eq ▸ parent_lt hb.pos
  have hother : ∀ c, c ≠ k → c ≠ b → (f ∘ Equiv.swap k b) c = f c := fun c hck hcb =>
    congrArg f (Equiv.swap_apply_of_ne_of_ne hck hcb)
  have hatk : (f ∘ Equiv.swap k b) k = f b := congrArg f (Equiv.swap_apply_left k b)
  have hatb : (f ∘ Equiv.swap k b) b = f k := congrArg f (Equiv.swap_apply_right k b)
  have hlow := h.low
  refine ⟨by omega, fun c hc hlast hi hpb => ?_, fun c hc hlast hpc _ _ => ?_⟩
  · have hpc := parent_lt hc
    by_cases hck : c = k
    · subst hck
      rw [hatk, hother (parent c) (by omega) (by omega)]
      exact h.grand b hb.pos hb.le_last hb.parent_eq hc hi
    · by_cases hpk : parent c = k
      · rw [hpk, hatk]
        by_cases hcb : c = b
        · rw [hcb, hatb]
          exact le_of_lt hlt
        · rw [hother c hck hcb]
          exact hb.le c hc hlast hpk
      · have hcb : c ≠ b := fun heq => hpk (heq ▸ hb.parent_eq)
        rw [hother c hck hcb, hother (parent c) hpk hpb]
        exact h.except c hc hlast hi hpk
  · have hbc : b < c := hpc ▸ parent_lt hc
    rw [hb.parent_eq, hatk, hother c (by omega) (by omega), ← hpc]
    exact h.except c hc hlast (by omega) (by omega)

/-- The root is a greatest node. -/
theorem Ordered.le_root (h : Ordered f 0 last) (hc : c ≤ last) : f c ≤ f 0 := by
  induction c using Nat.strongRecOn with
  | ind c ih =>
  by_cases hzero : c = 0
  · rw [hzero]
  · have hlt := parent_lt (Nat.pos_of_ne_zero hzero)
    exact le_trans (h c (by omega) hc (Nat.zero_le _)) (ih (parent c) hlt (by omega))

end MaxHeap

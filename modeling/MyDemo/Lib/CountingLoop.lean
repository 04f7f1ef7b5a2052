import Mathlib.Order.Lattice
import Mathlib.Data.Int.Order.Basic

/-!
# Counting loops

`for` loops with bounds that their bodies do not change. A body may end the loop with an exception.
-/

namespace CountingLoop

variable {ε σ : Type*} {lo hi mid : ℤ} {body : σ → ℤ → Except ε σ} {s : σ}

/-- `for (i = lo; i < hi; i++) body`. -/
def countUp (lo hi : ℤ) (body : σ → ℤ → Except ε σ) (s : σ) : Except ε σ :=
  if lo < hi then body s lo >>= countUp (lo + 1) hi body else .ok s
termination_by (hi - lo).toNat

/-- `for (i = hi; i > lo; i--) body`. -/
def countDown (hi lo : ℤ) (body : σ → ℤ → Except ε σ) (s : σ) : Except ε σ :=
  if lo < hi then body s hi >>= countDown (hi - 1) lo body else .ok s
termination_by (hi - lo).toNat

theorem countUp_of_lt (h : lo < hi) : countUp lo hi body s = body s lo >>= countUp (lo + 1) hi body := by
  rw [countUp, if_pos h]

theorem countUp_of_le (h : hi ≤ lo) : countUp lo hi body s = .ok s := by
  rw [countUp, if_neg (by omega)]

theorem countDown_of_lt (h : lo < hi) : countDown hi lo body s = body s hi >>= countDown (hi - 1) lo body := by
  rw [countDown, if_pos h]

theorem countDown_of_le (h : hi ≤ lo) : countDown hi lo body s = .ok s := by
  rw [countDown, if_neg (by omega)]

/-! ## The loop rules -/

/-- Where each round goes well and takes the invariant to the next one, the loop goes well. By induction on
the rounds that are left. -/
theorem countUp_invariant (Inv : ℤ → σ → Prop) (h : Inv lo s)
    (hbody : ∀ i s, lo ≤ i → i < hi → Inv i s → ∃ s', body s i = .ok s' ∧ Inv (i + 1) s') :
    ∃ s', countUp lo hi body s = .ok s' ∧ Inv (max lo hi) s' := by
  induction hn : (hi - lo).toNat generalizing lo s with
  | zero => exact ⟨s, countUp_of_le (by omega), by rwa [max_eq_left (by omega)]⟩
  | succ n ih =>
      obtain ⟨t, ht, hinv⟩ := hbody lo s (le_refl lo) (by omega) h
      obtain ⟨s', hs', hdone⟩ := ih hinv (fun i u hle hi' hu => hbody i u (by omega) hi' hu) (by omega)
      rw [show max (lo + 1) hi = max lo hi by omega] at hdone
      exact ⟨s', by rw [countUp_of_lt (by omega), ht]; exact hs', hdone⟩

/-- The invariant at `i` holds before the round of `i`. -/
theorem countDown_invariant (Inv : ℤ → σ → Prop) (h : Inv hi s)
    (hbody : ∀ i s, lo < i → i ≤ hi → Inv i s → ∃ s', body s i = .ok s' ∧ Inv (i - 1) s') :
    ∃ s', countDown hi lo body s = .ok s' ∧ Inv (min lo hi) s' := by
  induction hn : (hi - lo).toNat generalizing hi s with
  | zero => exact ⟨s, countDown_of_le (by omega), by rwa [min_eq_right (by omega)]⟩
  | succ n ih =>
      obtain ⟨t, ht, hinv⟩ := hbody hi s (by omega) (le_refl hi) h
      obtain ⟨s', hs', hdone⟩ := ih hinv (fun i u hlo hle hu => hbody i u hlo (by omega) hu) (by omega)
      rw [show min lo (hi - 1) = min lo hi by omega] at hdone
      exact ⟨s', by rw [countDown_of_lt (by omega), ht]; exact hs', hdone⟩

end CountingLoop

import Mathlib.Algebra.Order.Floor.Ring
import Mathlib.Tactic.Linarith

/-!
# Rounding half to even
-/

namespace Rounding

variable {K : Type*} [Field K] [LinearOrder K] [FloorRing K]

/-- The nearest integer, and of two the even one. -/
def roundHalfEven (x : K) : ℤ :=
  if Int.fract x < 1 / 2 ∨ Int.fract x = 1 / 2 ∧ Even ⌊x⌋ then ⌊x⌋ else ⌊x⌋ + 1

variable [IsStrictOrderedRing K] {x y : K}

theorem roundHalfEven_intCast (n : ℤ) : roundHalfEven (n : K) = n := by
  rw [roundHalfEven, Int.fract_intCast, Int.floor_intCast, if_pos (.inl (by norm_num))]

theorem abs_roundHalfEven_sub_le (x : K) : |(roundHalfEven x : K) - x| ≤ 1 / 2 := by
  have hx : (⌊x⌋ : K) + Int.fract x = x := Int.floor_add_fract x
  rw [roundHalfEven, abs_le]
  split
  · next h =>
      have hle : Int.fract x ≤ 1 / 2 := h.elim le_of_lt (fun h => h.1.le)
      have hnonneg := Int.fract_nonneg x
      constructor <;> linarith
  · next h =>
      have hle : 1 / 2 ≤ Int.fract x := not_lt.mp (fun hlt => h (.inl hlt))
      have hlt := Int.fract_lt_one x
      push_cast
      constructor <;> linarith

theorem roundHalfEven_mono (h : x ≤ y) : roundHalfEven x ≤ roundHalfEven y := by
  by_contra hlt
  have hnext : (roundHalfEven y : K) + 1 ≤ roundHalfEven x := by exact_mod_cast not_le.mp hlt
  have hx := abs_le.mp (abs_roundHalfEven_sub_le x)
  have hy := abs_le.mp (abs_roundHalfEven_sub_le y)
  have hxy : x = y := le_antisymm h (by linarith)
  exact hlt (hxy ▸ le_rfl)

theorem roundHalfEven_half_below {n : ℤ} (hn : Even n) : roundHalfEven ((n : K) - 1 / 2) = n := by
  have hfloor : ⌊(n : K) - 1 / 2⌋ = n - 1 := by
    rw [Int.floor_eq_iff]
    push_cast
    constructor <;> linarith
  have hfract : Int.fract ((n : K) - 1 / 2) = 1 / 2 := by
    rw [Int.fract, hfloor]
    push_cast
    linarith
  have hodd : ¬ Even (n - 1) := Int.not_even_iff_odd.mpr (hn.sub_odd odd_one)
  rw [roundHalfEven, hfract, hfloor, if_neg]
  · exact sub_add_cancel n 1
  · rintro (h | h)
    · exact lt_irrefl _ h
    · exact hodd h.2

/-- An even integer is reached half a unit below it. -/
theorem le_roundHalfEven_iff {n : ℤ} (hn : Even n) : n ≤ roundHalfEven x ↔ (n : K) - 1 / 2 ≤ x := by
  constructor
  · intro h
    have hx := (abs_le.mp (abs_roundHalfEven_sub_le x)).2
    have hle : (n : K) ≤ roundHalfEven x := by exact_mod_cast h
    linarith
  · intro h
    exact (roundHalfEven_half_below (K := K) hn).symm.trans_le (roundHalfEven_mono h)

/-! ## Rounding to multiples -/

/-- The nearest multiple of `q`. -/
def roundTo (q x : K) : K := roundHalfEven (x / q) * q

variable {q : K}

theorem roundTo_mul (hq : 0 < q) (n : ℤ) : roundTo q (n * q) = n * q := by
  rw [roundTo, mul_div_cancel_right₀ _ hq.ne', roundHalfEven_intCast]

theorem roundTo_mono (hq : 0 < q) (h : x ≤ y) : roundTo q x ≤ roundTo q y := by
  have hdiv : x / q ≤ y / q := div_le_div_of_nonneg_right h hq.le
  exact mul_le_mul_of_nonneg_right (by exact_mod_cast roundHalfEven_mono hdiv) hq.le

theorem roundTo_le (hq : 0 < q) {n : ℤ} (h : x ≤ n * q) : roundTo q x ≤ n * q :=
  (roundTo_mono hq h).trans_eq (roundTo_mul hq n)

theorem le_roundTo (hq : 0 < q) {n : ℤ} (h : n * q ≤ x) : n * q ≤ roundTo q x :=
  (roundTo_mul hq n).symm.trans_le (roundTo_mono hq h)

theorem abs_roundTo_sub_le (hq : 0 < q) (x : K) : |roundTo q x - x| ≤ q / 2 := by
  have hdiff : roundTo q x - x = (roundHalfEven (x / q) - x / q) * q := by
    rw [sub_mul, div_mul_cancel₀ _ hq.ne', roundTo]
  have hhalf : q / 2 = 1 / 2 * q := (div_eq_inv_mul q 2).trans (by rw [one_div])
  rw [hdiff, abs_mul, abs_of_pos hq, hhalf]
  exact mul_le_mul_of_nonneg_right (abs_roundHalfEven_sub_le _) hq.le

end Rounding

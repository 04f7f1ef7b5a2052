import MyDemo.Ijk.IjkPlayView
import Mathlib.Tactic.Linarith

/-!
# Where the bar is after it has been moved
-/

namespace MyDemo.Ijk

namespace IjkPlayView

variable {s t : IjkPlayView} {d x : Int64} {p : Int32}

/-! ## Two divisions -/

theorem bar_le {d p : ℤ} (hd : 1000 ≤ d) : 1000 * (d * p / 1000) / d ≤ p := by
  have hposition : d * p / 1000 * 1000 ≤ d * p := Int.ediv_mul_le _ (by decide)
  exact Int.ediv_le_of_le_mul (by omega) (by linarith)

theorem le_bar {d p : ℤ} (hd : 1000 ≤ d) : p - 1 ≤ 1000 * (d * p / 1000) / d := by
  have hposition : d * p < (d * p / 1000 + 1) * 1000 := Int.lt_ediv_add_one_mul_self _ (by decide)
  exact Int.le_ediv_of_mul_le (by omega) (by linarith)

/-! ## In 64 bits -/

theorem toInt_mul_of_lt {a b : Int64} (h : 0 ≤ a.toInt * b.toInt) (h' : a.toInt * b.toInt < 2 ^ 63) :
    (a * b).toInt = a.toInt * b.toInt := by
  rw [Int64.toInt_mul]
  exact Int.bmod_eq_of_le (by omega) (by omega)

theorem toInt_div_of_nonneg {a b : Int64} (h : 0 ≤ a.toInt) : (a / b).toInt = a.toInt / b.toInt := by
  have hmin : a ≠ Int64.minValue := by
    rintro rfl
    exact absurd h (by decide)
  rw [Int64.toInt_div_of_ne_left a b hmin, Int.tdiv_eq_ediv_of_nonneg h]

theorem toInt_position (hd : 0 ≤ d.toInt) (hp : 0 ≤ p.toInt) (h : d.toInt * p.toInt < 2 ^ 63) :
    (d * p.toInt64).toInt = d.toInt * p.toInt ∧ (d * p.toInt64 / 1000).toInt = d.toInt * p.toInt / 1000 := by
  have hnonneg : 0 ≤ d.toInt * p.toInt := Int.mul_nonneg hd hp
  have hprod : (d * p.toInt64).toInt = d.toInt * p.toInt := by
    rw [← Int32.toInt_toInt64 p] at hnonneg h ⊢
    exact toInt_mul_of_lt hnonneg h
  refine ⟨hprod, ?_⟩
  rw [toInt_div_of_nonneg (by rw [hprod]; exact hnonneg), hprod]
  rfl

/-- The bar shows the position in thousandths of the duration, where these do not overflow. -/
theorem toInt_progress (hs : s.mDragging = false) (hd : 0 < d.toInt) (hd' : 1000 * d.toInt < 2 ^ 63)
    (hx : 0 ≤ x.toInt) (hx' : x.toInt ≤ d.toInt) :
    (1000 * x).toInt = 1000 * x.toInt ∧ (s.setProgress x d).1.progress.toInt = 1000 * x.toInt / d.toInt := by
  have hprod : (1000 * x).toInt = 1000 * x.toInt :=
    toInt_mul_of_lt (Int.mul_nonneg (by decide) hx) (by rw [show (1000 : Int64).toInt = 1000 from rfl]; omega)
  refine ⟨hprod, ?_⟩
  have hbar : (1000 * x / d).toInt = 1000 * x.toInt / d.toInt := by
    rw [toInt_div_of_nonneg (by omega), hprod]
  have hnonneg : 0 ≤ 1000 * x.toInt / d.toInt := Int.ediv_nonneg (by omega) hd.le
  have hle : 1000 * x.toInt / d.toInt ≤ 1000 := Int.ediv_le_of_le_mul hd (by omega)
  have hpos : d > 0 := Int64.lt_iff_toInt_lt.mpr (show (0 : Int64).toInt < d.toInt from hd)
  rw [setProgress, hs]
  simp only [Bool.false_eq_true, if_false, if_pos hpos, Int64.toInt_toInt32, hbar]
  exact Int.bmod_eq_of_le (by omega) (by omega)

/-- The bar ends up where it has been moved to, or one below, once it is not dragged any more; it stays
within its range, and none of the products overflows. -/
theorem seek_progress (s : IjkPlayView) (ht : t.mDragging = false) (hd : 1000 ≤ d.toInt)
    (hd' : d.toInt ≤ 9200000000000000) (hp : 0 ≤ p.toInt) (hp' : p.toInt ≤ 1000) :
    ((d * p.toInt64).toInt = d.toInt * p.toInt ∧ ∃ position, (s.onProgressChanged p true d).2 = some position ∧
      position.toInt = d.toInt * p.toInt / 1000 ∧
      p.toInt - 1 ≤ (t.setProgress position d).1.progress.toInt ∧
      (t.setProgress position d).1.progress.toInt ≤ p.toInt) ∧
    ∀ position : Int64, 0 ≤ position.toInt → position.toInt ≤ d.toInt →
      (1000 * position).toInt = 1000 * position.toInt ∧
      (t.setProgress position d).1.progress.toInt = 1000 * position.toInt / d.toInt ∧
      0 ≤ (t.setProgress position d).1.progress.toInt ∧ (t.setProgress position d).1.progress.toInt ≤ 1000 := by
  have hover : 1000 * d.toInt < 2 ^ 63 := by omega
  constructor
  · have hmax : d.toInt * p.toInt ≤ d.toInt * 1000 := Int.mul_le_mul_of_nonneg_left hp' (by omega)
    obtain ⟨hprod, hposition⟩ := toInt_position (d := d) (p := p) (by omega) hp (by omega)
    have hnonneg : 0 ≤ d.toInt * p.toInt := Int.mul_nonneg (by omega) hp
    refine ⟨hprod, d * p.toInt64 / 1000, rfl, hposition, ?_⟩
    rw [(toInt_progress ht (by omega) hover (by omega) (by omega)).2, hposition]
    exact ⟨le_bar hd, bar_le hd⟩
  · intro position hx hx'
    obtain ⟨hprod, hprogress⟩ := toInt_progress (x := position) ht (by omega) hover hx hx'
    rw [hprogress]
    exact ⟨hprod, rfl, Int.ediv_nonneg (by omega) (by omega), Int.ediv_le_of_le_mul (by omega) (by omega)⟩

theorem seek_progress_short :
    (∃ position, ((new.onStartTrackingTouch).onProgressChanged 7 true 1999).2 = some position ∧
      6 ≤ (new.setProgress position 1999).1.progress.toInt ∧
      (new.setProgress position 1999).1.progress.toInt ≤ 7) ∧
    (new.setProgress 1998 1999).1.progress.toInt ≤ 1000 :=
  have h := seek_progress (t := new) (d := 1999) (p := 7) new.onStartTrackingTouch rfl (by decide) (by decide)
    (by decide) (by decide)
  have ⟨position, hposition, _, hle, hle'⟩ := h.1.2
  ⟨⟨position, hposition, hle, hle'⟩, (h.2 1998 (by decide) (by decide)).2.2.2⟩

end IjkPlayView

end MyDemo.Ijk

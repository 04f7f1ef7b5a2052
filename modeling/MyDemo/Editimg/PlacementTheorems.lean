import MyDemo.Editimg.MImageView
import Mathlib.Tactic.Linarith
import Mathlib.Tactic.NormNum

/-!
# Where the picture is placed
-/

namespace MyDemo.Editimg

open Zooming

/-- The rectangle is centred in a view of this size, does not leave it, and reaches two opposite edges. -/
structure FitsView (width height : ℚ) (rect : Rect ℚ) : Prop where
  centredX : rect.left = width - rect.right
  centredY : rect.top = height - rect.bottom
  insideX : 0 ≤ rect.left ∧ rect.right ≤ width
  insideY : 0 ≤ rect.top ∧ rect.bottom ≤ height
  touches : (rect.left = 0 ∧ rect.right = width) ∨ (rect.top = 0 ∧ rect.bottom = height)

/-- A bitmap that is wider than high is no higher than the view in proportion to its width, and another one
no wider in proportion to its height. -/
def SuitsView (imgWidth imgHeight bitmapWidth bitmapHeight : ℤ) : Prop :=
  if bitmapWidth > bitmapHeight then bitmapHeight * imgWidth ≤ imgHeight * bitmapWidth
  else bitmapWidth * imgHeight ≤ imgWidth * bitmapHeight

/-- A rectangle around the centre of the view. -/
def centred (width height w h : ℚ) : Rect ℚ :=
  ⟨(width - w) / 2, (height - h) / 2, (width + w) / 2, (height + h) / 2⟩

theorem fitsView_centred_iff {width height w h' : ℚ} :
    FitsView width height (centred width height w h') ↔ (w = width ∧ h' ≤ height) ∨ (h' = height ∧ w ≤ width) := by
  constructor
  · rintro ⟨_, _, ⟨hx, _⟩, ⟨hy, _⟩, ⟨ht, _⟩ | ⟨ht, _⟩⟩
    · exact .inl ⟨by simp only [centred] at ht; linarith, by simp only [centred] at hy; linarith⟩
    · exact .inr ⟨by simp only [centred] at ht; linarith, by simp only [centred] at hx; linarith⟩
  · intro h
    have hw : w ≤ width := h.elim (fun h => h.1.le) (fun h => h.2)
    have hh : h' ≤ height := h.elim (fun h => h.2) (fun h => h.1.le)
    constructor <;> simp only [centred]
    case centredX => ring
    case centredY => ring
    case insideX => constructor <;> linarith
    case insideY => constructor <;> linarith
    case touches =>
      rcases h with ⟨rfl, _⟩ | ⟨rfl, _⟩
      · left; constructor <;> ring
      · right; constructor <;> ring

namespace ImageView

variable {s : ImageView}

theorem placed_bitmap (hi : 0 < s.imgWidth) (hi' : 0 < s.imgHeight) (hb : 0 < s.bitmapWidth)
    (hb' : 0 < s.bitmapHeight) :
    s.placeImage.mBaseMatrix.mapRect ⟨0, 0, s.bitmapWidth, s.bitmapHeight⟩ =
      centred s.imgWidth s.imgHeight (s.placeImage.defalutScale * s.bitmapWidth)
        (s.placeImage.defalutScale * s.bitmapHeight) := by
  have hpos := defalutScale_pos hi hi' hb hb'
  rw [Matrix.mapRect_bitmap (by rw [scale_placeImage]; exact hpos.le) (by positivity) (by positivity), scale_placeImage]
  ext <;> simp only [placeImage, resetMatrix, getDrawMatrix, Matrix.postScale, Matrix.postTranslate, Zoom.andThen,
    Zoom.scaleAbout, Zoom.translate, Zoom.id, Zoom.map, centred] <;> ring

theorem fitsView_placeImage_iff (hi : 0 < s.imgWidth) (hi' : 0 < s.imgHeight) (hb : 0 < s.bitmapWidth)
    (hb' : 0 < s.bitmapHeight) :
    FitsView s.imgWidth s.imgHeight (s.placeImage.mBaseMatrix.mapRect ⟨0, 0, s.bitmapWidth, s.bitmapHeight⟩) ↔
      SuitsView s.imgWidth s.imgHeight s.bitmapWidth s.bitmapHeight := by
  have hbq : (0 : ℚ) < s.bitmapWidth := by exact_mod_cast hb
  have hbq' : (0 : ℚ) < s.bitmapHeight := by exact_mod_cast hb'
  rw [placed_bitmap hi hi' hb hb', fitsView_centred_iff, SuitsView]
  simp only [placeImage, resetMatrix, getDrawMatrix]
  split
  · rw [div_mul_cancel₀ _ hbq.ne', and_iff_right rfl, and_iff_left le_rfl, or_iff_left_of_imp le_of_eq,
      div_mul_eq_mul_div, div_le_iff₀ hbq, mul_comm (s.bitmapHeight : ℤ)]
    exact_mod_cast Iff.rfl
  · rw [div_mul_cancel₀ _ hbq'.ne', and_iff_right rfl, and_iff_left le_rfl, or_iff_right_of_imp le_of_eq,
      div_mul_eq_mul_div, div_le_iff₀ hbq', mul_comm (s.bitmapWidth : ℤ)]
    exact_mod_cast Iff.rfl

end ImageView

/-- Both views place a bitmap that suits them as they should, and no other one. -/
theorem placement_fits_iff (s : MImageView) (t : ImageView) {imgWidth imgHeight bitmapWidth bitmapHeight : ℤ}
    (hi : 0 < imgWidth) (hi' : 0 < imgHeight) (hb : 0 < bitmapWidth) (hb' : 0 < bitmapHeight) :
    (FitsView imgWidth imgHeight
        ((s.onGlobalLayout imgWidth imgHeight bitmapWidth bitmapHeight).mBaseMatrix.mapRect
          ⟨0, 0, bitmapWidth, bitmapHeight⟩) ↔
      SuitsView imgWidth imgHeight bitmapWidth bitmapHeight) ∧
    (FitsView imgWidth imgHeight
        ((MatrixImageView.onGlobalLayout
          (MatrixImageView.onLayout t imgWidth imgHeight bitmapWidth bitmapHeight)).mBaseMatrix.mapRect
            ⟨0, 0, bitmapWidth, bitmapHeight⟩) ↔
      SuitsView imgWidth imgHeight bitmapWidth bitmapHeight) :=
  ⟨ImageView.fitsView_placeImage_iff (s := s.toImageView.measure imgWidth imgHeight bitmapWidth bitmapHeight)
      hi hi' hb hb',
    ImageView.fitsView_placeImage_iff (s := t.measure imgWidth imgHeight bitmapWidth bitmapHeight) hi hi' hb hb'⟩

theorem placement_fits_iff_square :
    (FitsView (100 : ℤ) (100 : ℤ) ((MImageView.new.onGlobalLayout 100 100 200 100).mBaseMatrix.mapRect
      ⟨0, 0, (200 : ℤ), (100 : ℤ)⟩) ↔ SuitsView 100 100 200 100) ∧
    (FitsView (100 : ℤ) (100 : ℤ) ((MatrixImageView.onGlobalLayout
      (MatrixImageView.onLayout .new 100 100 200 100)).mBaseMatrix.mapRect ⟨0, 0, (200 : ℤ), (100 : ℤ)⟩) ↔
      SuitsView 100 100 200 100) :=
  placement_fits_iff .new .new (by decide) (by decide) (by decide) (by decide)

/-- The view is five times as wide as it is high, the bitmap twice. -/
theorem wide_view_overflowed :
    ¬ FitsView 200 40 ((MImageView.new.onGlobalLayout 200 40 200 100).mBaseMatrix.mapRect ⟨0, 0, 200, 100⟩) := by
  intro h
  exact absurd h.insideY.1 (by decide +kernel)

end MyDemo.Editimg

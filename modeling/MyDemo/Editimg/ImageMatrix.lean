import MyDemo.Lib.Zoom
import Mathlib.Algebra.Order.Field.Rat
import Mathlib.Tactic.Positivity

/-!
# The matrices of an image view

The fields and methods that `MImageView.java` and `MatrixImageView.java` have in common, with exact numbers
for their floats. A `Matrix` scales uniformly and translates; the views build no others.
-/

namespace MyDemo.Editimg

open Zooming

abbrev Matrix := Zoom ℚ

namespace Matrix

def postTranslate (m : Matrix) (dx dy : ℚ) : Matrix := m.andThen (.translate dx dy)

def postScale (m : Matrix) (scale px py : ℚ) : Matrix := m.andThen (.scaleAbout scale px py)

def postConcat (m other : Matrix) : Matrix := m.andThen other

/-- The corners are mapped, and then sorted. -/
def mapRect (m : Matrix) (rect : Rect ℚ) : Rect ℚ :=
  let p := m.map ⟨rect.left, rect.top⟩
  let q := m.map ⟨rect.right, rect.bottom⟩
  ⟨min p.x q.x, min p.y q.y, max p.x q.x, max p.y q.y⟩

theorem mapRect_bitmap {m : Matrix} {w h : ℚ} (hm : 0 ≤ m.scale) (hw : 0 ≤ w) (hh : 0 ≤ h) :
    m.mapRect ⟨0, 0, w, h⟩ =
      ⟨m.trans.x, m.trans.y, m.scale * w + m.trans.x, m.scale * h + m.trans.y⟩ := by
  have hx : m.trans.x ≤ m.scale * w + m.trans.x := le_add_of_nonneg_left (mul_nonneg hm hw)
  have hy : m.trans.y ≤ m.scale * h + m.trans.y := le_add_of_nonneg_left (mul_nonneg hm hh)
  simp only [mapRect, Zoom.map, mul_zero, zero_add, min_eq_left hx, min_eq_left hy, max_eq_right hx, max_eq_right hy]

end Matrix

/-- The drawable has the bounds of its bitmap. -/
structure ImageView where
  imgWidth : ℤ
  imgHeight : ℤ
  bitmapWidth : ℤ
  bitmapHeight : ℤ
  mBaseMatrix : Matrix
  mSuppMatrix : Matrix
  mDrawMatrix : Matrix
  defalutScale : ℚ
  imgScale : ℚ
  centerX : ℚ
  centerY : ℚ
  deriving DecidableEq

namespace ImageView

def new : ImageView where
  imgWidth := 0
  imgHeight := 0
  bitmapWidth := 0
  bitmapHeight := 0
  mBaseMatrix := .id
  mSuppMatrix := .id
  mDrawMatrix := .id
  defalutScale := 1
  imgScale := 0
  centerX := 0
  centerY := 0

/-- The matrix that the image is drawn with, as `setImageViewMatrix(getDrawMatrix())` sets it. -/
def getDrawMatrix (s : ImageView) : ImageView := { s with mDrawMatrix := s.mBaseMatrix.postConcat s.mSuppMatrix }

def resetMatrix (s : ImageView) : ImageView := { s with mSuppMatrix := .id }.getDrawMatrix

/-- `onGlobalLayout` once it has the sizes. -/
def placeImage (s : ImageView) : ImageView :=
  let scale : ℚ :=
    if s.bitmapWidth > s.bitmapHeight then s.imgWidth / s.bitmapWidth else s.imgHeight / s.bitmapHeight
  let base := Matrix.postTranslate .id ((s.imgWidth - s.bitmapWidth) / 2) ((s.imgHeight - s.bitmapHeight) / 2)
  { s with
    mBaseMatrix := base.postScale scale (s.imgWidth / 2) (s.imgHeight / 2)
    defalutScale := scale
    imgScale := scale
    centerX := s.imgWidth / 2
    centerY := s.imgHeight / 2 }.resetMatrix

theorem scale_placeImage {s : ImageView} : s.placeImage.mBaseMatrix.scale = s.placeImage.defalutScale := by
  simp only [placeImage, resetMatrix, getDrawMatrix, Matrix.postScale, Matrix.postTranslate, Zoom.scale_andThen,
    Zoom.scaleAbout, Zoom.translate, Zoom.id, mul_one]

theorem defalutScale_pos {s : ImageView} (hi : 0 < s.imgWidth) (hi' : 0 < s.imgHeight) (hb : 0 < s.bitmapWidth)
    (hb' : 0 < s.bitmapHeight) : 0 < s.placeImage.defalutScale := by
  simp only [placeImage, resetMatrix, getDrawMatrix]
  split <;> positivity

/-- The sizes of the view and of the bounds of its drawable. -/
def measure (s : ImageView) (measuredWidth measuredHeight width height : ℤ) : ImageView :=
  { s with imgWidth := measuredWidth, imgHeight := measuredHeight, bitmapWidth := width, bitmapHeight := height }

end ImageView

/-! ## MatrixImageView -/

namespace MatrixImageView

def onLayout (s : ImageView) (measuredWidth measuredHeight width height : ℤ) : ImageView :=
  s.measure measuredWidth measuredHeight width height

def onGlobalLayout (s : ImageView) : ImageView := s.placeImage

end MatrixImageView

end MyDemo.Editimg

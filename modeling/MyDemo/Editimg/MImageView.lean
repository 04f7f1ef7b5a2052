import MyDemo.Editimg.ImageMatrix
import Mathlib.Data.Rat.Floor

/-!
# The image view that is drawn on

`MImageView.java`, from its layout on. The two gesture detectors are the platform's: what they make of an
event is part of it. A position on the view becomes one of its content once the scroll is added.
-/

namespace MyDemo.Editimg

open Zooming

/-- A step of `graffitiPath`. -/
inductive Segment where
  | moveTo (p : Point ℚ)
  | lineTo (p : Point ℚ)
  deriving DecidableEq

namespace Segment

def point : Segment → Point ℚ
  | moveTo p => p
  | lineTo p => p

def transform (M : Matrix) : Segment → Segment
  | moveTo p => moveTo (M.map p)
  | lineTo p => lineTo (M.map p)

end Segment

structure ScaleGestureDetector where
  scaleFactor : ℚ
  focusX : ℚ
  focusY : ℚ
  pos : 0 < scaleFactor
  deriving DecidableEq

/-- An event with its pointers, of which there is at least one; whether the one detector calls `onScroll`
for it, and what the other one calls `onScale` with. -/
structure Move where
  first : Point ℚ
  others : List (Point ℚ)
  scrolls : Bool
  scales : Option ScaleGestureDetector
  deriving DecidableEq

/-- `mScrollX` and `mScrollY` belong to the view. -/
structure MImageView extends ImageView where
  scrollx : ℚ
  scrolly : ℚ
  mScrollX : ℤ
  mScrollY : ℤ
  lastx : ℚ
  lasty : ℚ
  scaling : Bool
  graffitiPath : List Segment
  deriving DecidableEq

namespace MImageView

def new : MImageView where
  toImageView := .new
  scrollx := 0
  scrolly := 0
  mScrollX := 0
  mScrollY := 0
  lastx := 0
  lasty := 0
  scaling := false
  graffitiPath := []

def onGlobalLayout (s : MImageView) (measuredWidth measuredHeight width height : ℤ) : MImageView :=
  { s with toImageView := (s.toImageView.measure measuredWidth measuredHeight width height).placeImage }

def setImageViewMatrix (s : MImageView) : MImageView := { s with toImageView := s.toImageView.getDrawMatrix }

def getMatrixRectF (s : MImageView) : Rect ℚ := s.mDrawMatrix.mapRect ⟨0, 0, s.bitmapWidth, s.bitmapHeight⟩

def getScale (s : MImageView) : ℚ :=
  (s.getMatrixRectF.right - s.getMatrixRectF.left) / s.bitmapWidth / s.defalutScale

def scrollTo (s : MImageView) (x y : ℤ) : MImageView := { s with mScrollX := x, mScrollY := y }

/-! ## What the detectors call -/

def onDown (s : MImageView) (e : Point ℚ) : MImageView :=
  if !s.scaling then { s with graffitiPath := s.graffitiPath ++ [.moveTo e] } else s

def onScroll (s : MImageView) (e : Point ℚ) : MImageView :=
  if !s.scaling then { s with graffitiPath := s.graffitiPath ++ [.lineTo e] } else s

def checkScale (s : MImageView) (detector : ScaleGestureDetector) : MImageView :=
  { s with
    imgScale := detector.scaleFactor
    centerX := detector.focusX + s.mScrollX
    centerY := detector.focusY + s.mScrollY }

def onScale (s : MImageView) (detector : ScaleGestureDetector) : MImageView :=
  let s := s.checkScale detector
  { s with mSuppMatrix := s.mSuppMatrix.postScale s.imgScale s.centerX s.centerY }

/-- `mGestureDetector.onTouchEvent`. -/
def gestureDetector (s : MImageView) (event : Move) : MImageView :=
  if event.scrolls then s.onScroll event.first else s

/-- `mScaleGestureDetector.onTouchEvent`. -/
def scaleGestureDetector (s : MImageView) (event : Move) : MImageView :=
  match event.scales with
  | some detector => s.onScale detector
  | none => s

def detect (s : MImageView) (event : Move) : MImageView :=
  ((s.gestureDetector event).scaleGestureDetector event).setImageViewMatrix

/-! ## onTouchEvent -/

def actionDown (s : MImageView) (e : Point ℚ) : MImageView :=
  ({ s with graffitiPath := [] }.onDown e).setImageViewMatrix

/-- `(int)`. -/
def truncate (x : ℚ) : ℤ := if 0 ≤ x then ⌊x⌋ else ⌈x⌉

def between (p q : Point ℚ) : Point ℚ := ⟨(p.x + q.x) / 2, (p.y + q.y) / 2⟩

def remember (s : MImageView) (p : Point ℚ) : MImageView := { s with scaling := true, lastx := p.x, lasty := p.y }

def scrollWith (s : MImageView) (p : Point ℚ) : MImageView :=
  let scrollx := s.scrollx + (s.lastx - p.x)
  let scrolly := s.scrolly + (s.lasty - p.y)
  { s.remember p with scrollx, scrolly }.scrollTo (truncate scrollx) (truncate scrolly)

def onePointer (s : MImageView) (e : Point ℚ) : MImageView :=
  { s with
    graffitiPath := if s.scaling then s.graffitiPath ++ [.moveTo e] else s.graffitiPath
    scaling := false }

def actionMove (s : MImageView) (event : Move) : MImageView :=
  match event.others with
  | [] => (s.onePointer event.first).detect event
  | [second] =>
      -- the first of these events is only remembered, and the detectors do not get it
      if s.lastx = 0 then s.remember (between event.first second)
      else (s.scrollWith (between event.first second)).detect event
  | _ => s.detect event

/-- What the path is brought to the coordinates of `onDraw` with. -/
def normalize (s : MImageView) : Matrix :=
  let scale := 1 / s.getScale
  Matrix.postTranslate (.translate s.mScrollX s.mScrollY) (-s.getMatrixRectF.left) (-s.getMatrixRectF.top)
    |>.postScale scale 0 0

def actionUp (s : MImageView) : MImageView :=
  { s with
    lastx := 0
    lasty := 0
    graffitiPath := s.graffitiPath.map (Segment.transform s.normalize) }.setImageViewMatrix

/-! ## onDraw -/

/-- What the path is drawn through. -/
def canvas (s : MImageView) : Matrix :=
  let canvas : Matrix := .translate s.getMatrixRectF.left s.getMatrixRectF.top
  Zoom.andThen (.scaleAbout s.getScale 0 0) canvas

/-- The rectangle and the path, as they are drawn on the content. -/
def onDraw (s : MImageView) : Rect ℚ × List Segment :=
  (s.getMatrixRectF, s.graffitiPath.map (Segment.transform s.canvas))

/-! ## What can happen -/

/-- A zoom or a scroll that leaves the path as it is. -/
inductive Change where
  | zoom (detector : ScaleGestureDetector)
  | scrollTo (x y : ℤ)
  deriving DecidableEq

def change (s : MImageView) : Change → MImageView
  | .zoom detector => (s.onScale detector).setImageViewMatrix
  | .scrollTo x y => s.scrollTo x y

inductive Event where
  | down (e : Point ℚ)
  | move (event : Move)
  | up
  | change (c : Change)
  deriving DecidableEq

def step (s : MImageView) : Event → MImageView
  | .down e => s.actionDown e
  | .move event => s.actionMove event
  | .up => s.actionUp
  | .change c => s.change c

/-- The moves of a gesture. -/
def moves (s : MImageView) (events : List Move) : MImageView := events.foldl actionMove s

def changes (s : MImageView) (cs : List Change) : MImageView := cs.foldl change s

/-- The view as it is after a layout and these events. -/
def view (measuredWidth measuredHeight width height : ℤ) (events : List Event) : MImageView :=
  events.foldl step (new.onGlobalLayout measuredWidth measuredHeight width height)

/-! ## Pixels -/

/-- The pixel of the bitmap that is drawn at a point of the content. -/
def pixelAt (s : MImageView) (p : Point ℚ) : Point ℚ := s.mDrawMatrix.inverse.map p

/-- The pixel of the bitmap under a finger on the view. -/
def pixelUnder (s : MImageView) (p : Point ℚ) : Point ℚ := s.pixelAt ⟨p.x + s.mScrollX, p.y + s.mScrollY⟩

/-- The pixels that the points of the path are drawn over. -/
def drawnOver (s : MImageView) : List (Point ℚ) := s.onDraw.2.map (fun segment => s.pixelAt segment.point)

end MImageView

end MyDemo.Editimg

import MyDemo.Java
import MyDemo.Lib.CountingLoop
import Mathlib.Data.Rat.Defs

/-!
# Ripples

`RippleView.java`, with exact numbers for its floats. What is drawn is left out: a draw is what it does to
the circles.
-/

namespace MyDemo.Ripple

open CountingLoop

/-- Times are in milliseconds. -/
structure RippleView where
  dialWidth : ℕ
  isStarting : Bool
  alphaList : List ℚ
  startWidthList : List ℚ
  circleNumber : ℤ
  lastCreateTime : ℤ
  newCircleTime : ℤ
  deriving DecidableEq, Repr

namespace RippleView

def speed : ℚ := 1

def new (dialWidth : ℕ) : RippleView := ⟨dialWidth, false, [], [], 4, 0, 200⟩

def maxWidth (s : RippleView) : ℚ := s.dialWidth / 2

def diffusionUnit (s : RippleView) : ℚ := if s.maxWidth > 255 then s.maxWidth / 255 else 1

def zoomOutUnit (s : RippleView) : ℚ := if s.maxWidth > 255 then 1 else 255 / s.maxWidth

/-- The body of the loop over the circles. -/
def diffuse (s : RippleView) (i : ℤ) : Except Exn RippleView := do
  let alpha ← JArray.get s.alphaList i
  let startWidth ← JArray.get s.startWidthList i
  if s.isStarting ∧ startWidth ≤ s.maxWidth - s.diffusionUnit * speed then
    let alphaList ← JArray.set s.alphaList i
      (if alpha - s.zoomOutUnit * speed > 0 then alpha - s.zoomOutUnit * speed else 0)
    let startWidthList ← JArray.set s.startWidthList i (startWidth + s.diffusionUnit * speed)
    return { s with alphaList, startWidthList }
  else return s

/-- `list.remove(0)` -/
def removeFirst : List ℚ → Except Exn (List ℚ)
  | [] => .error .indexOutOfBounds
  | _ :: list => .ok list

def addCircle (s : RippleView) (add : Bool) : RippleView :=
  if s.isStarting && add then
    { s with alphaList := s.alphaList ++ [255], startWidthList := s.startWidthList ++ [0] }
  else s

/-- `onDraw` up to its last condition. -/
def drawCircles (s : RippleView) (createTime : ℤ) : Except Exn RippleView := do
  let s ← countUp 0 s.alphaList.length diffuse s
  let add : Bool := createTime - s.lastCreateTime ≥ s.newCircleTime
  let s := if add then { s with lastCreateTime := createTime } else s
  return s.addCircle add

def removeOutermost (s : RippleView) : Except Exn RippleView := do
  if s.isStarting ∧ s.startWidthList.length = s.circleNumber then
    let startWidthList ← removeFirst s.startWidthList
    let alphaList ← removeFirst s.alphaList
    return { s with alphaList, startWidthList }
  else return s

def onDraw (s : RippleView) (createTime : ℤ) : Except Exn RippleView := do
  (← s.drawCircles createTime).removeOutermost

def start (s : RippleView) : RippleView :=
  if !s.isStarting then { s with isStarting := true, lastCreateTime := 0 } else s

def stop (s : RippleView) : RippleView :=
  if s.isStarting then
    { s with isStarting := false, lastCreateTime := 0, startWidthList := [], alphaList := [] }
  else s

def setCircleNumber (s : RippleView) (circleNumber : ℤ) : RippleView := { s with circleNumber }

def setNewCircleTime (s : RippleView) (newCircleTime : ℤ) : RippleView := { s with newCircleTime }

inductive Event where
  | start
  | stop
  | onDraw (createTime : ℤ)
  | setCircleNumber (circleNumber : ℤ)
  | setNewCircleTime (newCircleTime : ℤ)
  deriving DecidableEq, Repr

/-- `none` where a draw throws. -/
def handle (s : RippleView) : Event → Option RippleView
  | .start => some s.start
  | .stop => some s.stop
  | .onDraw createTime => (s.onDraw createTime).toOption
  | .setCircleNumber circleNumber => some (s.setCircleNumber circleNumber)
  | .setNewCircleTime newCircleTime => some (s.setNewCircleTime newCircleTime)

end RippleView

end MyDemo.Ripple

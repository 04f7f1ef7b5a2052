import MyDemo.Sort.IntArray

/-!
# A header above a scrolling child

`MyNestedView.java`: how it scrolls before its child does, and what else moves it.
-/

namespace MyDemo.Nested

open MyDemo.Sort (wrap)

structure MyNestedView where
  scrollX : ℤ
  scrollY : ℤ
  mTopViewHeight : ℤ
  deriving DecidableEq, Repr

namespace MyNestedView

def scrollTo (s : MyNestedView) (x y : ℤ) : MyNestedView :=
  let y := if y < 0 then 0 else y
  let y := if y > s.mTopViewHeight then s.mTopViewHeight else y
  if y ≠ s.scrollY then { s with scrollX := x, scrollY := y } else s

/-- `View.scrollBy`. -/
def scrollBy (s : MyNestedView) (x y : ℤ) : MyNestedView :=
  s.scrollTo (wrap (s.scrollX + x)) (wrap (s.scrollY + y))

/-- `canScrollVertically` is the answer for the target and the direction -1. -/
def onNestedPreScroll (s : MyNestedView) (canScrollVertically : Bool) (dy : ℤ) (consumed : ℤ × ℤ) :
    MyNestedView × (ℤ × ℤ) :=
  let hiddenTop : Bool := dy > 0 ∧ s.scrollY < s.mTopViewHeight
  let showTop : Bool := dy < 0 ∧ s.scrollY ≥ 0 ∧ !canScrollVertically
  if hiddenTop || showTop then (s.scrollBy 0 dy, (consumed.1, dy)) else (s, consumed)

/-- What a child asks for. -/
structure PreScroll where
  canScrollVertically : Bool
  dy : ℤ
  deriving DecidableEq, Repr

/-- A child asks with nothing consumed. -/
def preScroll (s : MyNestedView) (p : PreScroll) : MyNestedView × (ℤ × ℤ) :=
  s.onNestedPreScroll p.canScrollVertically p.dy (0, 0)

def handle (s : MyNestedView) (p : PreScroll) : Option MyNestedView := some (s.preScroll p).1

/-! ## What else moves the view -/

def new : MyNestedView := ⟨0, 0, 0⟩

/-- `measuredHeight` is that of the header. -/
def onSizeChanged (s : MyNestedView) (measuredHeight : ℤ) : MyNestedView :=
  { s with mTopViewHeight := measuredHeight }

def onAnimationUpdate (s : MyNestedView) (animatedValue : ℤ) : MyNestedView := s.scrollTo 0 animatedValue

/-- `currY` is none where the scroller has finished. -/
def computeScroll (s : MyNestedView) (currY : Option ℤ) : MyNestedView :=
  match currY with
  | some y => s.scrollTo 0 y
  | none => s

inductive Event where
  | nestedPreScroll (p : PreScroll)
  | animationUpdate (animatedValue : ℤ)
  | computeScroll (currY : Option ℤ)
  | sizeChanged (measuredHeight : ℤ)
  deriving DecidableEq, Repr

def step (s : MyNestedView) : Event → Option MyNestedView
  | .nestedPreScroll p => some (s.preScroll p).1
  | .animationUpdate animatedValue => some (s.onAnimationUpdate animatedValue)
  | .computeScroll currY => some (s.computeScroll currY)
  | .sizeChanged measuredHeight => some (s.onSizeChanged measuredHeight)

end MyNestedView

end MyDemo.Nested

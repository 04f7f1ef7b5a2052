import Mathlib.Data.Int.Notation
import Mathlib.Data.List.Range

/-!
# The banner

`BannerView.java` and `MarkView.java`. A page is named by the index in `imgsPath` of the image that is loaded
into its view.
-/

namespace MyDemo.Banner

/-! ## The dots -/

/-- A mark is `true` where it has the background `mark_select`. -/
structure MarkView where
  markNumber : ℕ
  marks : List Bool
  deriving DecidableEq, Repr

namespace MarkView

def new : MarkView := ⟨0, []⟩

def setMarks (m : MarkView) (markNumber : ℕ) : MarkView :=
  ⟨markNumber, m.marks ++ List.replicate markNumber false⟩

def setSelect (m : MarkView) (selectNumber : ℤ) : MarkView :=
  { m with marks := (List.range m.markNumber).map fun (i : ℕ) => (i : ℤ) == selectNumber }

/-- The indices of the highlighted dots. -/
def selected (m : MarkView) : List ℕ := (List.range m.marks.length).filter fun i => m.marks[i]? == some true

end MarkView

/-! ## The pages -/

/-- `listening` tells whether the page change listener has been added. -/
structure BannerViewPager where
  pages : List ℕ
  currentItem : ℕ
  listening : Bool
  deriving DecidableEq, Repr

def BannerViewPager.new : BannerViewPager := ⟨[], 0, false⟩

/-- `pending` holds the delays of the copies of `task` that the handler has. -/
structure BannerView where
  views : List ℕ
  imgsPathSize : ℕ
  viewSize : ℕ
  canScroll : Bool
  currentItem : ℕ
  isStart : Bool
  viewPager : BannerViewPager
  markView : Option MarkView
  pending : List ℕ
  deriving DecidableEq, Repr

namespace BannerView

def delayTime : ℕ := 4000

def new : BannerView := ⟨[], 0, 0, false, 0, false, .new, none, []⟩

def setSelect (s : BannerView) (selectNumber : ℤ) : BannerView :=
  { s with markView := s.markView.map (·.setSelect selectNumber) }

def onPageSelected (s : BannerView) (position : ℕ) : BannerView :=
  let s := { s with currentItem := position }
  if s.currentItem = 0 then s.setSelect (s.viewSize - 3)
  else if (s.currentItem : ℤ) = s.viewSize - 1 then s.setSelect 0
  else s.setSelect (s.currentItem - 1)

/-- The pager turns to a page of its own and tells the listener if that is another page. -/
def turnTo (s : BannerView) (item : ℕ) : BannerView :=
  if item = s.viewPager.currentItem then s
  else
    let t := { s with viewPager := { s.viewPager with currentItem := item } }
    if s.viewPager.listening then t.onPageSelected item else t

/-- `ViewPager.setCurrentItem`, which takes the nearest page there is. -/
def setCurrentItem (s : BannerView) (item : ℕ) : BannerView :=
  if s.viewPager.pages = [] then s else s.turnTo (min item (s.viewPager.pages.length - 1))

def setImgsPath {α : Type*} (s : BannerView) (imgsPath : List α) : BannerView :=
  let s := { s with views := [], imgsPathSize := imgsPath.length, viewSize := imgsPath.length + 2 }
  if s.imgsPathSize = 0 then { s with canScroll := false }
  else
    let views := List.range s.imgsPathSize
    let views := if s.imgsPathSize ≥ 2 then (s.imgsPathSize - 1) :: views ++ [0] else views
    let s := { s with
      canScroll := s.imgsPathSize ≥ 2
      views := views
      viewPager := ⟨views, 0, false⟩
      markView := some (MarkView.new.setMarks s.imgsPathSize) }
    let s := if s.canScroll then { (s.setCurrentItem 1).setSelect 0 with currentItem := 1 } else s
    { s with viewPager := { s.viewPager with listening := true } }

inductive ScrollState where
  | idle
  | dragging
  | settling
  deriving DecidableEq, Repr

def onPageScrollStateChanged (s : BannerView) : ScrollState → BannerView
  | .idle =>
      if s.currentItem = 0 then s.setCurrentItem (s.viewSize - 2)
      else if (s.currentItem : ℤ) = s.viewSize - 1 then s.setCurrentItem 1
      else s
  | .dragging =>
      if s.canScroll then
        if s.currentItem = 0 then s.setCurrentItem (s.viewSize - 2)
        else if (s.currentItem : ℤ) = s.viewSize - 1 then s.setCurrentItem 1
        else s
      else s
  | .settling => s

/-! ## Playing by itself -/

def stopAutoPlay (s : BannerView) : BannerView := { s with pending := [] }

def startAutoPlay (s : BannerView) : BannerView := { s with pending := [delayTime] }

def start (s : BannerView) : BannerView :=
  if s.canScroll then { s.startAutoPlay with isStart := true } else s

def stop (s : BannerView) : BannerView := { s.stopAutoPlay with isStart := false }

inductive MotionAction where
  | down
  | up
  | cancel
  | outside
  | other
  deriving DecidableEq, Repr

def dispatchTouchEvent (s : BannerView) : MotionAction → BannerView
  | .up | .cancel | .outside => if s.isStart then s.startAutoPlay else s
  | .down => s.stopAutoPlay
  | .other => s

/-- The handler has taken the copy that runs. -/
def task (s : BannerView) : BannerView :=
  let s := { s with currentItem := s.currentItem % (s.viewSize - 1) + 1 }
  if s.currentItem = 1 then
    let s := s.setCurrentItem s.currentItem
    { s with pending := s.pending ++ [0] }
  else
    let s := s.setCurrentItem s.currentItem
    { s with pending := s.pending ++ [delayTime] }

/-! ## What can happen once the images are set -/

/-- `select` is the user's doing, and `task` runs a copy that is pending. -/
inductive Action where
  | select (position : ℕ)
  | scrollState (state : ScrollState)
  | touch (action : MotionAction)
  | start
  | stop
  | task (i : ℕ)
  deriving DecidableEq, Repr

def step (s : BannerView) : Action → Option BannerView
  | .select position => if position < s.viewPager.pages.length then some (s.turnTo position) else none
  | .scrollState state => if s.viewPager.listening then some (s.onPageScrollStateChanged state) else none
  | .touch action => some (s.dispatchTouchEvent action)
  | .start => some s.start
  | .stop => some s.stop
  | .task i => if i < s.pending.length then some { s with pending := s.pending.eraseIdx i }.task else none

end BannerView

end MyDemo.Banner

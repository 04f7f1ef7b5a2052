import MyDemo.Show.RecyclerViewAdatper

/-!
# The picture viewer under a finger

`PictureView.java`, with positions and opacities as exact numbers. Gestures are made with one finger.
-/

namespace MyDemo.Show

/-- The field `orientation`, for which the source has 0 at first. -/
inductive Orientation where
  | none
  | H
  | V
  deriving DecidableEq, Repr

inductive Animation where
  | hideAnim
  | showAnim
  | resetAnim
  deriving DecidableEq, Repr

/-- What the page in front answers when a finger moves. -/
structure PageView where
  scaleIsOne : Bool
  isMinimum : Bool
  isScrolling : Bool
  isTop : Bool
  isBottom : Bool
  deriving DecidableEq, Repr

/-- What moves the content view, the newest first: a finger drags it, a move puts it back, or an
animation ends. -/
inductive Entry where
  | dragged (moveY : ℚ)
  | putBack
  | restored
  deriving DecidableEq, Repr

/-- `contentY` and `alpha` are what the content view and the background have been set to; `anims` are
the animations that run. -/
structure PictureView where
  screenHeight : ℕ
  screenHeight_pos : 0 < screenHeight
  type : PictureType
  moveY : ℚ
  contentY : ℚ
  alpha : ℚ
  xx : ℚ
  yy : ℚ
  lockOrientation : Bool
  orientation : Orientation
  canHide : Bool
  canScroll : Bool
  visible : Bool
  animing : Bool
  fingerDown : Bool
  anims : List Animation
  log : List Entry
  deriving DecidableEq

namespace PictureView

def new (screenHeight : ℕ) (screenHeight_pos : 0 < screenHeight) (type : PictureType) : PictureView where
  screenHeight := screenHeight
  screenHeight_pos := screenHeight_pos
  type := type
  moveY := 0
  contentY := 0
  alpha := 1
  xx := 0
  yy := 0
  lockOrientation := false
  orientation := .none
  canHide := false
  canScroll := true
  visible := false
  animing := false
  fingerDown := false
  anims := []
  log := []

/-! ## Animations -/

/-- `none` where the animator throws because its duration, cut off to an integer, is negative. -/
def hideAnim (s : PictureView) : Option PictureView :=
  if (s.screenHeight - |s.moveY|) / 6 ≤ -1 then none
  else if s.animing then some s
  else some { s with animing := true, anims := s.anims ++ [.hideAnim] }

def showAnim (s : PictureView) : PictureView :=
  if s.animing then s
  else { s with animing := true, visible := true, anims := s.anims ++ [.showAnim] }

def resetAnim (s : PictureView) : PictureView := { s with anims := s.anims ++ [.resetAnim] }

/-- `onAnimationUpdate`. The background follows the content view when it is hidden, and has an animator
of its own, here `opacity`, when it is shown. -/
def onAnimationUpdate (s : PictureView) (value opacity : ℚ) : Animation → PictureView
  | .hideAnim => { s with contentY := value, alpha := 1 - |value| / s.screenHeight }
  | .showAnim => { s with contentY := value, alpha := opacity }
  | .resetAnim => { s with contentY := value }

/-- The last update and `onAnimationEnd`; the picture is always shown with `endY` = 0. -/
def onAnimationEnd (s : PictureView) (a : Animation) : PictureView :=
  let t := match a with
    | .hideAnim => { s with animing := false, moveY := 0, contentY := 0, visible := false, alpha := 1 }
    | .showAnim => { s with animing := false, contentY := 0, alpha := 1 }
    | .resetAnim => { s with contentY := 0, alpha := 1, moveY := 0 }
  { t with log := .restored :: t.log }

/-! ## dispatchTouchEvent -/

def actionDown (s : PictureView) (x y : ℚ) : PictureView :=
  { s with
    fingerDown := true
    xx := x
    yy := y
    lockOrientation := false
    canHide := false
    canScroll := true }

def lock (s : PictureView) (xxx yyy : ℚ) : PictureView :=
  if |xxx - s.xx| > |yyy - s.yy| ∧ !s.lockOrientation then
    { s with lockOrientation := true, orientation := .H }
  else if |xxx - s.xx| < |yyy - s.yy| ∧ !s.lockOrientation then
    { s with lockOrientation := true, orientation := .V }
  else s

def drag (s : PictureView) (moveY : ℚ) : PictureView :=
  { s with
    moveY := moveY
    contentY := moveY
    alpha := 1 - |moveY / s.screenHeight|
    log := .dragged moveY :: s.log }

def putBack (s : PictureView) : PictureView :=
  { s with moveY := 0, contentY := 0, log := .putBack :: s.log }

def moveNormal (s : PictureView) (yyy : ℚ) (page : PageView) : PictureView :=
  if s.orientation = .V then
    if page.scaleIsOne then s.drag (yyy - s.yy) else s.putBack
  else s

def moveLong (s : PictureView) (yyy : ℚ) (page : PageView) : PictureView :=
  if s.orientation = .V then
    if page.isMinimum then
      let moveY := yyy - s.yy
      if !page.isScrolling then
        if (moveY > 0 ∧ page.isTop) ∨ (moveY < 0 ∧ page.isBottom) then
          { s.drag moveY with canScroll := false, canHide := true }
        else s.putBack
      else { s with yy := yyy }.putBack
    else s.putBack
  else s.putBack

def actionMove (s : PictureView) (xxx yyy : ℚ) (page : PageView) : PictureView :=
  if |xxx - s.xx| > 2 ∨ |yyy - s.yy| > 2 then
    match s.type with
    | .normalPicture => (s.lock xxx yyy).moveNormal yyy page
    | .longPicture => (s.lock xxx yyy).moveLong yyy page
    | .video | .error => s
  else s

/-- `screenHeight / 4` is a division of integers. -/
def release (s : PictureView) : Option PictureView :=
  if |s.moveY| < (s.screenHeight / 4 : ℕ) then some s.resetAnim else s.hideAnim

def actionUp (s : PictureView) : Option PictureView :=
  let s := { s with fingerDown := false }
  match s.type with
  | .normalPicture => if |s.moveY| > 0 then s.release else some s
  | .longPicture => if |s.moveY| > 0 ∧ s.canHide then s.release else some s
  | .video | .error => some s

/-! ## What can happen -/

/-- `hide` is the back key, `show` a tap on a row of the list, and `pageSelected` a turn of the page. -/
inductive Action where
  | down (x y : ℚ)
  | move (x y : ℚ) (page : PageView)
  | up
  | update (i : ℕ) (value opacity : ℚ)
  | finish (i : ℕ)
  | hide
  | show (type : PictureType)
  | pageSelected (type : PictureType)
  deriving DecidableEq

def step (s : PictureView) : Action → Option PictureView
  | .down x y => if s.fingerDown then none else some (s.actionDown x y)
  | .move x y page => if s.fingerDown then some (s.actionMove x y page) else none
  | .up => if s.fingerDown then s.actionUp else none
  | .update i value opacity =>
      match s.anims[i]? with
      | none => none
      | some a => some (s.onAnimationUpdate value opacity a)
  | .finish i =>
      match s.anims[i]? with
      | none => none
      | some a => some ({ s with anims := s.anims.eraseIdx i }.onAnimationEnd a)
  | .hide => s.hideAnim
  | .show type => if s.fingerDown then none else some { s with type := type }.showAnim
  | .pageSelected type => if s.fingerDown then none else some { s with type := type }

end PictureView

end MyDemo.Show

import Mathlib.Data.Nat.Notation

/-!
# The video view and its timer

`IjkPlayView.kt`. `progressRun` shows the position of the player and posts itself again; it is one
runnable, and the queue of the view may hold it several times. The views are set, as the activity does
before the first callback; texts are kept as the times they show.
-/

namespace MyDemo.Ijk

/-- What happens to the copies of `progressRun` in the queue, the newest first: a handler posts one, all
are removed, or one has run and not posted itself again. -/
inductive Entry where
  | posted
  | removed
  | ended
  deriving DecidableEq, Repr

/-- `isPlaying` belongs to the player; `psListener` and `seekListener` tell whether the button and the
bar have got their listeners; `queue` holds the delays of the pending copies of `progressRun`. -/
structure IjkPlayView where
  isPlaying : Bool
  mDragging : Bool
  bufferPercentage : Int32
  completion : Bool
  psListener : Bool
  seekListener : Bool
  progress : Int32
  secondaryProgress : Int32
  currentTime : Int64
  endTime : Int64
  queue : List Int64
  log : List Entry
  deriving DecidableEq

namespace IjkPlayView

def new : IjkPlayView where
  isPlaying := false
  mDragging := false
  bufferPercentage := 0
  completion := true
  psListener := false
  seekListener := false
  progress := 0
  secondaryProgress := 0
  currentTime := 0
  endTime := 0
  queue := []
  log := []

def initPs (s : IjkPlayView) : IjkPlayView := { s with psListener := true }

def initSeekBar (s : IjkPlayView) (duration : Int64) : IjkPlayView :=
  { s with currentTime := 0, endTime := duration, seekListener := true }

def start (s : IjkPlayView) : IjkPlayView := { s with isPlaying := true, completion := false }.initPs

def pause (s : IjkPlayView) : IjkPlayView := { s with isPlaying := false, completion := true }.initPs

/-! ## The queue of the view -/

def post (s : IjkPlayView) : IjkPlayView := { s with queue := s.queue ++ [0], log := .posted :: s.log }

def removeCallbacks (s : IjkPlayView) : IjkPlayView := { s with queue := [], log := .removed :: s.log }

/-! ## progressRun -/

def setProgress (s : IjkPlayView) (position duration : Int64) : IjkPlayView × Int64 :=
  if s.mDragging then (s, 0)
  else
    ({ s with
        progress := if duration > 0 then (1000 * position / duration).toInt32 else s.progress
        secondaryProgress := s.bufferPercentage * 10
        currentTime := if s.completion then duration else position }, position)

/-- `run()` of a copy that has been taken out of the queue. -/
def progressRun (s : IjkPlayView) (position duration : Int64) : IjkPlayView :=
  let (t, pos) := s.setProgress position duration
  if !t.mDragging && t.isPlaying then { t with queue := t.queue ++ [1000 - pos % 1000] }
  else { t with log := .ended :: t.log }

/-! ## The listeners -/

/-- The player may start by itself when it is prepared. -/
def onPrepared (s : IjkPlayView) (autoStart : Bool) (duration : Int64) : IjkPlayView :=
  ({ s with isPlaying := s.isPlaying || autoStart, completion := false }.initPs.initSeekBar duration).post

def onClick (s : IjkPlayView) : IjkPlayView := if s.isPlaying then s.pause else s.start.post

def onStartTrackingTouch (s : IjkPlayView) : IjkPlayView := { s with mDragging := true }.removeCallbacks

def onStopTrackingTouch (s : IjkPlayView) (position duration : Int64) : IjkPlayView :=
  ({ s with mDragging := false, completion := false }.setProgress position duration).1.post

def onCompletion (s : IjkPlayView) : IjkPlayView := { s with isPlaying := false, completion := true }.initPs

def onBufferingUpdate (s : IjkPlayView) (percent : Int32) : IjkPlayView := { s with bufferPercentage := percent }

/-- A move of the bar, with the position that the player is sent to, if it is. -/
def onProgressChanged (s : IjkPlayView) (progress : Int32) (fromUser : Bool) (duration : Int64) :
    IjkPlayView × Option Int64 :=
  if !fromUser then (s, none)
  else
    let newposition := duration * progress.toInt64 / 1000
    ({ s with currentTime := newposition }, some newposition)

/-! ## What can happen -/

/-- The button and the bar act once they have their listeners; any pending copy may run next. -/
inductive Action where
  | prepared (autoStart : Bool) (duration : Int64)
  | click
  | startTrackingTouch
  | stopTrackingTouch (position duration : Int64)
  | completion
  | bufferingUpdate (percent : Int32)
  | fire (i : ℕ) (position duration : Int64)
  deriving DecidableEq

def step (s : IjkPlayView) : Action → Option IjkPlayView
  | .prepared autoStart duration => some (s.onPrepared autoStart duration)
  | .click => if s.psListener then some s.onClick else none
  | .startTrackingTouch => if s.seekListener then some s.onStartTrackingTouch else none
  | .stopTrackingTouch position duration =>
      if s.seekListener then some (s.onStopTrackingTouch position duration) else none
  | .completion => some s.onCompletion
  | .bufferingUpdate percent => some (s.onBufferingUpdate percent)
  | .fire i position duration =>
      match s.queue[i]? with
      | none => none
      | some _ => some ({ s with queue := s.queue.eraseIdx i }.progressRun position duration)

end IjkPlayView

end MyDemo.Ijk

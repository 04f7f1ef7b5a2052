import Mathlib.Algebra.BigOperators.Group.List.Basic
import Mathlib.Algebra.Ring.Int.Defs

/-!
# The time base of a recording

`onPreviewFrame`, `resumeRecording`, `pauseRecording` and `stopRecorder` of `FFmpegRecordActivity.java`, with
`RecordFragment.java`. The camera calls back on the main thread, where the buttons are handled as well, so
an action is one whole call; it carries the answers of `System.currentTimeMillis()`.
-/

namespace MyDemo.Javacv

structure RecordFragment where
  startTimestamp : ℤ
  endTimestamp : ℤ
  deriving DecidableEq, Repr

def RecordFragment.getDuration (f : RecordFragment) : ℤ := f.endTimestamp - f.startTimestamp

def calculateTotalRecordedTime (recordFragments : List RecordFragment) : ℤ :=
  (recordFragments.map RecordFragment.getDuration).sum

def MAX_VIDEO_LENGTH : ℤ := 90 * 1000

/-- A frame offered to `mFrameToRecordQueue`: its timestamp, with the clock and the start of the current
fragment at that moment, and the fragments that `pauseRecording` had ended by then. -/
structure Offer where
  timestamp : ℤ
  time : ℤ
  start : ℤ
  closed : List RecordFragment
  deriving DecidableEq, Repr

/-- `mRecordFragments` is a stack with its top first, and `audioRunning` stands for an audio thread that is
not null and running. `closed`, `offers` and `rises` record what has happened: the fragments ended and the
frames offered since the last `stopRecorder`, the newest first, and how often the audio thread has started
to run in this fragment. -/
structure FFmpegRecordActivity where
  now : ℤ
  mRecording : Bool
  audioRunning : Bool
  mRecordFragments : List RecordFragment
  closed : List RecordFragment
  offers : List Offer
  rises : ℕ
  deriving DecidableEq, Repr

namespace FFmpegRecordActivity

def new : FFmpegRecordActivity := ⟨0, false, false, [], [], [], 0⟩

def resumeRecording (s : FFmpegRecordActivity) (time : ℤ) : FFmpegRecordActivity :=
  if !s.mRecording then
    { s with mRecordFragments := ⟨time, 0⟩ :: s.mRecordFragments, mRecording := true, rises := 0 }
  else s

/-- `none` here and below is the exception of `peek` and `pop` on an empty stack. -/
def pauseRecording (s : FFmpegRecordActivity) (time : ℤ) : Option FFmpegRecordActivity :=
  if s.mRecording then
    match s.mRecordFragments with
    | [] => none
    | f :: fs => some { s with
        mRecordFragments := { f with endTimestamp := time } :: fs
        mRecording := false
        closed := { f with endTimestamp := time } :: s.closed }
  else some s

/-- `pauseTime` is the answer of the clock in `pauseRecording`. -/
def onPreviewFrame (s : FFmpegRecordActivity) (time pauseTime : ℤ) : Option FFmpegRecordActivity :=
  if s.mRecording then
    match s.mRecordFragments with
    | [] => none
    | f :: fs =>
        if !s.audioRunning then
          some { s with mRecordFragments := { f with startTimestamp := time } :: fs }
        else
          let curRecordedTime := time - f.startTimestamp + calculateTotalRecordedTime fs
          if curRecordedTime > MAX_VIDEO_LENGTH then s.pauseRecording pauseTime
          else some { s with offers := ⟨1000 * curRecordedTime, time, f.startTimestamp, s.closed⟩ :: s.offers }
  else some s

def stopRecorder (s : FFmpegRecordActivity) : FFmpegRecordActivity :=
  { s with mRecordFragments := [], closed := [], offers := [] }

def setAudio (s : FFmpegRecordActivity) (running : Bool) : FFmpegRecordActivity :=
  { s with
    audioRunning := running
    rises := if s.mRecording && !s.audioRunning && running then s.rises + 1 else s.rises }

inductive Action where
  | resume (time : ℤ)
  | pause (time : ℤ)
  | previewFrame (time pauseTime : ℤ)
  | stopRecorder
  | audio (running : Bool)
  deriving DecidableEq, Repr

/-- The clock does not go back, and the recorder is stopped only while not recording. -/
def step (s : FFmpegRecordActivity) : Action → Option FFmpegRecordActivity
  | .resume time => if s.now ≤ time then some ({ s with now := time }.resumeRecording time) else none
  | .pause time => if s.now ≤ time then { s with now := time }.pauseRecording time else none
  | .previewFrame time pauseTime =>
      if s.now ≤ time ∧ time ≤ pauseTime then { s with now := pauseTime }.onPreviewFrame time pauseTime
      else none
  | .stopRecorder => if s.mRecording then none else some s.stopRecorder
  | .audio running => some (s.setAudio running)

end FFmpegRecordActivity

end MyDemo.Javacv

import Mathlib.Data.Nat.Notation

/-!
# The threads of the recorder

`startRecording`, `stopRecording` and the loops of `AudioRecordThread` and `VideoRecordThread` of
`FFmpegRecordActivity.java`. The two calls are made from the main thread and from background tasks, so that
several of them may be in progress. An action is one access to what the threads share.
-/

namespace MyDemo.Javacv

/-- The place in `run`: before `isRunning` is set, at the test of the loop, in its body, after it. -/
inductive AudioPc where
  | created
  | starting
  | testing
  | reading
  | finished
  deriving DecidableEq, Repr

/-- In `take`, a thread that has found the queue empty is `blocked`, which `getState` tells as `WAITING`, until
it is interrupted or `woken` by a frame. -/
inductive VideoPc where
  | created
  | starting
  | testing
  | testingQueue
  | taking
  | blocked
  | woken
  | working
  | finished
  deriving DecidableEq, Repr

structure AudioRecordThread where
  pc : AudioPc
  isRunning : Bool
  deriving DecidableEq, Repr

structure VideoRecordThread where
  pc : VideoPc
  isRunning : Bool
  interrupted : Bool
  deriving DecidableEq, Repr

/-- The place in a call of `startRecording` (the first four) or of `stopRecording`. A test of a field for
null is one access with the use of the field that follows. -/
inductive Call where
  | newAudio
  | startAudio
  | newVideo
  | startVideo
  | testAudio
  | clearAudio
  | testVideo
  | clearVideo
  | testWaiting (i : ℕ)
  | interruptVideo (i : ℕ)
  | joinAudio
  | joiningAudio (i : ℕ)
  | joinVideo
  | joiningVideo (i : ℕ)
  | forgetAudio
  | forgetVideo
  | clear
  deriving DecidableEq, Repr

/-- The lists hold every thread created, and `calls` the calls in progress. Of `mFrameToRecordQueue` only
the length matters here. -/
structure RecordThreads where
  mRecording : Bool
  mFrameToRecordQueue : ℕ
  audioThreads : List AudioRecordThread
  videoThreads : List VideoRecordThread
  mAudioRecordThread : Option ℕ
  mVideoRecordThread : Option ℕ
  calls : List Call
  deriving DecidableEq, Repr

/-! ## The loop of AudioRecordThread -/

namespace AudioRecordThread

def new : AudioRecordThread := ⟨.created, false⟩

/-- `isAlive()`. -/
def alive (t : AudioRecordThread) : Bool := t.pc != .created && t.pc != .finished

def stopRunning (t : AudioRecordThread) : AudioRecordThread := { t with isRunning := false }

def step (t : AudioRecordThread) : Option AudioRecordThread :=
  match t.pc with
  | .created | .finished => none
  | .starting => some ⟨.testing, true⟩
  | .testing => some { t with pc := if t.isRunning then .reading else .finished }
  | .reading => some { t with pc := .testing }

end AudioRecordThread

/-! ## The loop of VideoRecordThread -/

namespace VideoRecordThread

def new : VideoRecordThread := ⟨.created, false, false⟩

def alive (t : VideoRecordThread) : Bool := t.pc != .created && t.pc != .finished

def waiting (t : VideoRecordThread) : Bool := t.pc == .blocked

def interrupt (t : VideoRecordThread) : VideoRecordThread := { t with interrupted := true }

/-- What it inherits, without the test of `getState`. -/
def stopRunning (t : VideoRecordThread) : VideoRecordThread := { t with isRunning := false }

/-- The loop ends with an `InterruptedException`. -/
def break_ (t : VideoRecordThread) : VideoRecordThread := { t with pc := .finished, interrupted := false }

/-- The next access of the thread where `queue` frames wait, and how many wait after it. -/
def step (t : VideoRecordThread) (queue : ℕ) : Option (VideoRecordThread × ℕ) :=
  match t.pc with
  | .created | .finished => none
  | .starting => some ({ t with pc := .testing, isRunning := true }, queue)
  | .testing => some ({ t with pc := if t.isRunning then .taking else .testingQueue }, queue)
  | .testingQueue => some ({ t with pc := if queue = 0 then .finished else .taking }, queue)
  | .taking =>
      if t.interrupted then some (t.break_, queue)
      else if queue = 0 then some ({ t with pc := .blocked }, queue)
      else some ({ t with pc := .working }, queue - 1)
  | .blocked => if t.interrupted then some (t.break_, queue) else none
  -- it holds the lock of the queue again, where a frame comes before an interrupt
  | .woken =>
      if queue ≠ 0 then some ({ t with pc := .working }, queue - 1)
      else if t.interrupted then some (t.break_, queue)
      else some ({ t with pc := .blocked }, queue)
  | .working => some ({ t with pc := .testing }, queue)

/-- A frame in the queue wakes a thread that waits for one. -/
def wake (t : VideoRecordThread) (queue : ℕ) : Option VideoRecordThread :=
  if t.pc = .blocked ∧ queue ≠ 0 then some { t with pc := .woken } else none

end VideoRecordThread

namespace RecordThreads

def new : RecordThreads := ⟨false, 0, [], [], none, none, []⟩

/-! ## startRecording and stopRecording -/

def modifyAudio (s : RecordThreads) (i : ℕ) (f : AudioRecordThread → AudioRecordThread) : RecordThreads :=
  { s with audioThreads := s.audioThreads.modify i f }

def modifyVideo (s : RecordThreads) (i : ℕ) (f : VideoRecordThread → VideoRecordThread) : RecordThreads :=
  { s with videoThreads := s.videoThreads.modify i f }

/-- The access of a call, and the place where the call goes on. It ends after its last access, and with an
exception where a field that was tested has become null or a thread is started twice. `none`: it waits. -/
def access (s : RecordThreads) : Call → Option (RecordThreads × Option Call)
  | .newAudio => some ({ s with
      audioThreads := s.audioThreads ++ [.new]
      mAudioRecordThread := some s.audioThreads.length }, some .startAudio)
  | .startAudio =>
      match s.mAudioRecordThread with
      | none => some (s, none)
      | some i =>
          if s.audioThreads[i]?.any (·.pc = .created) then
            some (s.modifyAudio i ({ · with pc := .starting }), some .newVideo)
          else some (s, none)
  | .newVideo => some ({ s with
      videoThreads := s.videoThreads ++ [.new]
      mVideoRecordThread := some s.videoThreads.length }, some .startVideo)
  | .startVideo =>
      match s.mVideoRecordThread with
      | none => some (s, none)
      | some i =>
          if s.videoThreads[i]?.any (·.pc = .created) then
            some (s.modifyVideo i ({ · with pc := .starting }), none)
          else some (s, none)
  | .testAudio =>
      match s.mAudioRecordThread with
      | none => some (s, some .testVideo)
      | some i =>
          if s.audioThreads[i]?.any (·.isRunning) then some (s, some .clearAudio)
          else some (s, some .testVideo)
  | .clearAudio =>
      match s.mAudioRecordThread with
      | none => some (s, none)
      | some i => some (s.modifyAudio i .stopRunning, some .testVideo)
  | .testVideo =>
      match s.mVideoRecordThread with
      | none => some (s, some .joinAudio)
      | some i =>
          if s.videoThreads[i]?.any (·.isRunning) then some (s, some .clearVideo)
          else some (s, some .joinAudio)
  | .clearVideo =>
      match s.mVideoRecordThread with
      | none => some (s, none)
      | some i => some (s.modifyVideo i .stopRunning, some (.testWaiting i))
  | .testWaiting i =>
      if s.videoThreads[i]?.any (·.waiting) then some (s, some (.interruptVideo i))
      else some (s, some .joinAudio)
  | .interruptVideo i => some (s.modifyVideo i .interrupt, some .joinAudio)
  | .joinAudio =>
      match s.mAudioRecordThread with
      | none => some (s, some .joinVideo)
      | some i => some (s, some (.joiningAudio i))
  | .joiningAudio i => if s.audioThreads[i]?.any (·.alive) then none else some (s, some .joinVideo)
  | .joinVideo =>
      match s.mVideoRecordThread with
      | none => some (s, some .forgetAudio)
      | some i => some (s, some (.joiningVideo i))
  | .joiningVideo i => if s.videoThreads[i]?.any (·.alive) then none else some (s, some .forgetAudio)
  | .forgetAudio => some ({ s with mAudioRecordThread := none }, some .forgetVideo)
  | .forgetVideo => some ({ s with mVideoRecordThread := none }, some .clear)
  | .clear => some ({ s with mFrameToRecordQueue := 0 }, none)

/-- The call at place `j` of the list makes its next access. -/
def advance (s : RecordThreads) (j : ℕ) : Option RecordThreads :=
  match s.calls[j]? with
  | none => none
  | some c =>
      match s.access c with
      | none => none
      | some (s', some c') => some { s' with calls := s.calls.set j c' }
      | some (s', none) => some { s' with calls := s.calls.eraseIdx j }

/-! ## What can happen -/

inductive Action where
  | resumeRecording
  | pauseRecording
  | offer
  | startRecording
  | stopRecording
  | call (j : ℕ)
  | audio (i : ℕ)
  | video (i : ℕ)
  | wake (i : ℕ)
  deriving DecidableEq, Repr

/-- Frames come in only while recording, and the queue holds ten at most. -/
def step (s : RecordThreads) : Action → Option RecordThreads
  | .resumeRecording => some { s with mRecording := true }
  | .pauseRecording => some { s with mRecording := false }
  | .offer =>
      if s.mRecording ∧ s.mFrameToRecordQueue < 10 then
        some { s with mFrameToRecordQueue := s.mFrameToRecordQueue + 1 }
      else none
  | .startRecording => some { s with calls := s.calls ++ [.newAudio] }
  | .stopRecording => some { s with calls := s.calls ++ [.testAudio] }
  | .call j => s.advance j
  | .audio i =>
      match (s.audioThreads[i]?).bind (·.step) with
      | none => none
      | some t => some { s with audioThreads := s.audioThreads.set i t }
  | .video i =>
      match (s.videoThreads[i]?).bind (·.step s.mFrameToRecordQueue) with
      | none => none
      | some (t, queue) => some { s with
          videoThreads := s.videoThreads.set i t
          mFrameToRecordQueue := queue }
  | .wake i =>
      match (s.videoThreads[i]?).bind (·.wake s.mFrameToRecordQueue) with
      | none => none
      | some t => some { s with videoThreads := s.videoThreads.set i t }

end RecordThreads

/-! ## Deadlock -/

/-- In its loop, with nothing to end it. -/
def AudioRecordThread.running (t : AudioRecordThread) : Bool :=
  (t.pc = .testing ∨ t.pc = .reading) && t.isRunning

def VideoRecordThread.running (t : VideoRecordThread) : Bool :=
  (t.pc ≠ .created ∧ t.pc ≠ .starting ∧ t.pc ≠ .finished) && t.isRunning

/-- Blocked in `take`, with neither a frame nor an interrupt for it. -/
def VideoRecordThread.starved (t : VideoRecordThread) (queue : ℕ) : Bool :=
  t.pc = .blocked && queue = 0 && !t.interrupted

/-- The call waits in `join` for a thread that does not come to its end. -/
def RecordThreads.stuck (s : RecordThreads) : Call → Bool
  | .joiningAudio i => s.audioThreads[i]?.any (·.running)
  | .joiningVideo i =>
      s.videoThreads[i]?.any (fun t => t.running || t.starved s.mFrameToRecordQueue)
  | _ => false

end MyDemo.Javacv

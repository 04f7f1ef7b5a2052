import Mathlib.Data.Int.Notation
import Mathlib.Data.Nat.Notation

/-!
# The frames between the camera and the recorder

The queues of `FFmpegRecordActivity.java`: `onPreviewFrame` fills frames and offers them, and the loop of
`VideoRecordThread` takes them, records them and gives them back. An action is one access to a queue or to
a frame by one of the two threads. A frame object is named by its order of creation; `δ` is pixel data.
-/

namespace MyDemo.Javacv

variable {δ : Type*}

/-- A new frame has no image yet. -/
structure FrameToRecord (δ : Type*) where
  timestamp : ℤ
  image : Option δ
  deriving DecidableEq, Repr

/-- The place in `onPreviewFrame`: before `poll`, `setTimestamp`, `put` or `offer`. -/
inductive ProducerPc (δ : Type*) where
  | waiting
  | polling (timestamp : ℤ) (data : δ)
  | stamping (frame : ℕ) (timestamp : ℤ) (data : δ)
  | putting (frame : ℕ) (data : δ)
  | offering (frame : ℕ)
  deriving DecidableEq, Repr

/-- The place in the loop of `VideoRecordThread.run`: before `take`, `getTimestamp`, `record` or `offer`. -/
inductive ConsumerPc where
  | taking
  | reading (frame : ℕ)
  | recording (frame : ℕ) (timestamp : ℤ)
  | recycling (frame : ℕ)
  deriving DecidableEq, Repr

def ProducerPc.hand : ProducerPc δ → List ℕ
  | .waiting | .polling _ _ => []
  | .stamping i _ _ | .putting i _ | .offering i => [i]

def ConsumerPc.hand : ConsumerPc → List ℕ
  | .taking => []
  | .reading i | .recording i _ | .recycling i => [i]

/-- `frames` is every frame object there is. The last three fields record what has happened: the calls of
`onPreviewFrame`, the frames that the queue has accepted, and those given to the recorder. -/
structure FrameQueues (δ : Type*) where
  frames : List (FrameToRecord δ)
  mFrameToRecordQueue : List ℕ
  mRecycledFrameQueue : List ℕ
  producer : ProducerPc δ
  consumer : ConsumerPc
  callbacks : List (FrameToRecord δ)
  accepted : List (FrameToRecord δ)
  recorded : List (FrameToRecord δ)
  deriving DecidableEq, Repr

namespace FrameQueues

def new : FrameQueues δ := ⟨[], [], [], .waiting, .taking, [], [], []⟩

/-! ## onPreviewFrame -/

def onPreviewFrame (s : FrameQueues δ) (timestamp : ℤ) (data : δ) : FrameQueues δ :=
  { s with producer := .polling timestamp data, callbacks := s.callbacks ++ [⟨timestamp, some data⟩] }

def poll (s : FrameQueues δ) (timestamp : ℤ) (data : δ) : FrameQueues δ :=
  match s.mRecycledFrameQueue with
  | [] => { s with
      frames := s.frames ++ [⟨timestamp, none⟩]
      producer := .putting s.frames.length data }
  | i :: rest => { s with mRecycledFrameQueue := rest, producer := .stamping i timestamp data }

def setTimestamp (s : FrameQueues δ) (i : ℕ) (timestamp : ℤ) (data : δ) : FrameQueues δ :=
  { s with
    frames := s.frames.modify i fun f => { f with timestamp := timestamp }
    producer := .putting i data }

def put (s : FrameQueues δ) (i : ℕ) (data : δ) : FrameQueues δ :=
  { s with
    frames := s.frames.modify i fun f => { f with image := some data }
    producer := .offering i }

/-- The queue holds ten frames at most. -/
def offer (s : FrameQueues δ) (i : ℕ) : FrameQueues δ :=
  if s.mFrameToRecordQueue.length < 10 then
    { s with
      mFrameToRecordQueue := s.mFrameToRecordQueue ++ [i]
      producer := .waiting
      accepted := s.accepted ++ s.frames[i]?.toList }
  else { s with producer := .waiting }

/-! ## VideoRecordThread -/

def getTimestamp (s : FrameQueues δ) (i : ℕ) (hasRecorder : Bool) : FrameQueues δ :=
  match s.frames[i]? with
  | none => s
  | some f => { s with consumer := if hasRecorder then .recording i f.timestamp else .recycling i }

/-- The recorder gets what `frameFilter` makes of the image. -/
def record (s : FrameQueues δ) (i : ℕ) (timestamp : ℤ) : FrameQueues δ :=
  match s.frames[i]? with
  | none => s
  | some f => { s with consumer := .recycling i, recorded := s.recorded ++ [⟨timestamp, f.image⟩] }

/-- At most two frames are kept for the camera. -/
def recycle (s : FrameQueues δ) (i : ℕ) : FrameQueues δ :=
  if s.mRecycledFrameQueue.length < 2 then
    { s with mRecycledFrameQueue := s.mRecycledFrameQueue ++ [i], consumer := .taking }
  else { s with consumer := .taking }

/-! ## What can happen -/

/-- The next access of the camera's thread, or of the recorder's, which blocks in `take` while the queue is
empty. The recorder itself may be null. -/
inductive Action (δ : Type*) where
  | onPreviewFrame (timestamp : ℤ) (data : δ)
  | produce
  | consume (hasRecorder : Bool)
  deriving DecidableEq, Repr

def step (s : FrameQueues δ) : Action δ → Option (FrameQueues δ)
  | .onPreviewFrame timestamp data =>
      match s.producer with
      | .waiting => some (s.onPreviewFrame timestamp data)
      | _ => none
  | .produce =>
      match s.producer with
      | .waiting => none
      | .polling timestamp data => some (s.poll timestamp data)
      | .stamping i timestamp data => some (s.setTimestamp i timestamp data)
      | .putting i data => some (s.put i data)
      | .offering i => some (s.offer i)
  | .consume hasRecorder =>
      match s.consumer with
      | .taking =>
          match s.mFrameToRecordQueue with
          | [] => none
          | i :: rest => some { s with mFrameToRecordQueue := rest, consumer := .reading i }
      | .reading i => some (s.getTimestamp i hasRecorder)
      | .recording i timestamp => some (s.record i timestamp)
      | .recycling i => some (s.recycle i)

/-! ## Who holds a frame -/

def held (s : FrameQueues δ) : List ℕ :=
  s.mFrameToRecordQueue ++ s.mRecycledFrameQueue ++ s.producer.hand ++ s.consumer.hand

end FrameQueues

end MyDemo.Javacv

import MyDemo.Lib.Ring
import Mathlib.Data.Int.Notation

/-!
# The frame queue

`FrameQueue` of `ff_ffplay.c`, with one thread that writes frames and one that shows them. Only the size is changed
under the lock: the writer fills its slot and moves `windex`, and the reader clears its slot and moves `rindex`, while
the other one runs. `α` is the type of the frames, and an unreferenced slot is `none`.
-/

namespace MyDemo.Ijkmedia

def FRAME_QUEUE_SIZE : ℕ := 16

structure FrameQueue (α : Type*) where
  queue : List (Option α)
  rindex : ℕ
  windex : ℕ
  size : ℤ
  max_size : ℕ
  keep_last : Bool
  rindex_shown : ℕ
  deriving DecidableEq, Repr

variable {α : Type*}

namespace FrameQueue

def frame_queue_init (max_size : ℕ) (keep_last : Bool) : FrameQueue α :=
  let n := min max_size FRAME_QUEUE_SIZE
  ⟨List.replicate n none, 0, 0, 0, n, keep_last, 0⟩

def frame_queue_peek (f : FrameQueue α) : Option α := f.queue[(f.rindex + f.rindex_shown) % f.max_size]?.join

def frame_queue_peek_next (f : FrameQueue α) : Option α :=
  f.queue[(f.rindex + f.rindex_shown + 1) % f.max_size]?.join

def frame_queue_peek_last (f : FrameQueue α) : Option α := f.queue[f.rindex]?.join

def frame_queue_nb_remaining (f : FrameQueue α) : ℤ := f.size - f.rindex_shown

/-- The writer fills the slot that `frame_queue_peek_writable` gave. -/
def write (f : FrameQueue α) (v : Option α) : FrameQueue α := { f with queue := f.queue.set f.windex v }

/-- `frame_queue_push` before the lock. -/
def pushIndex (f : FrameQueue α) : FrameQueue α := { f with windex := Ring.next f.max_size f.windex }

/-- `frame_queue_push` in the lock. -/
def pushSize (f : FrameQueue α) : FrameQueue α := { f with size := f.size + 1 }

def frame_queue_unref_item (f : FrameQueue α) : FrameQueue α := { f with queue := f.queue.set f.rindex none }

/-- `frame_queue_next` before the lock. -/
def nextIndex (f : FrameQueue α) : FrameQueue α := { f with rindex := Ring.next f.max_size f.rindex }

/-- `frame_queue_next` in the lock. -/
def nextSize (f : FrameQueue α) : FrameQueue α := { f with size := f.size - 1 }

end FrameQueue

/-! ## The two threads -/

inductive WriterPc (α : Type*) where
  | idle
  /-- It has a slot from `frame_queue_peek_writable`. -/
  | writing
  /-- `frame_queue_push` has moved `windex` past the frame. -/
  | pushing (v : Option α)
  deriving DecidableEq, Repr

/-- Where `frame_queue_next` is. -/
inductive ReaderPc where
  | idle
  | cleared
  | moved
  deriving DecidableEq, Repr

/-- `pushed` are the frames that the writer has pushed, and `taken` is how often the reader has gone on to the next
one. -/
structure Display (α : Type*) where
  f : FrameQueue α
  abort_request : Bool
  writer : WriterPc α
  reader : ReaderPc
  pushed : List (Option α)
  taken : ℕ
  deriving DecidableEq, Repr

namespace Display

def start (max_size : ℕ) (keep_last : Bool) : Display α :=
  ⟨.frame_queue_init max_size keep_last, false, .idle, .idle, [], 0⟩

inductive Event (α : Type*) where
  | peek_writable
  | write (v : Option α)
  /-- The writer gives its slot up. -/
  | give_up
  | push
  | next
  | abort
  deriving DecidableEq, Repr

def writeStep (s : Display α) : Event α → Option (Display α)
  | .peek_writable =>
      match s.writer with
      | .idle => if !s.abort_request ∧ s.f.size < s.f.max_size then some { s with writer := .writing } else some s
      | _ => none
  | .write v =>
      match s.writer with
      | .writing => some { s with f := s.f.write v }
      | _ => none
  | .give_up =>
      match s.writer with
      | .writing => some { s with writer := .idle }
      | _ => none
  | .push =>
      match s.writer with
      | .writing => some { s with f := s.f.pushIndex, writer := .pushing s.f.queue[s.f.windex]?.join }
      | .pushing v => some { s with f := s.f.pushSize, writer := .idle, pushed := s.pushed ++ [v] }
      | .idle => none
  | _ => none

/-- The next step of `frame_queue_next`, which is called where a frame remains. -/
def nextStep (s : Display α) : Option (Display α) :=
  match s.reader with
  | .idle =>
      if s.f.frame_queue_nb_remaining > 0 then
        if s.f.keep_last ∧ s.f.rindex_shown = 0 then
          some { s with f := { s.f with rindex_shown := 1 }, taken := s.taken + 1 }
        else some { s with f := s.f.frame_queue_unref_item, reader := .cleared }
      else none
  | .cleared => some { s with f := s.f.nextIndex, reader := .moved }
  | .moved => some { s with f := s.f.nextSize, reader := .idle, taken := s.taken + 1 }

def step (s : Display α) : Event α → Option (Display α)
  | .next => s.nextStep
  | .abort => some { s with abort_request := true }
  | e => s.writeStep e

end Display

end MyDemo.Ijkmedia

import MyDemo.Lib.Pieces
import Mathlib.Algebra.Order.Ring.Int
import Mathlib.Algebra.Ring.Nat

/-!
# Reading ahead in the background

`ijkasync.c`. The ring is what its FIFO is for: a queue of bytes, of which those in front of `read_pos` were read
already. The ring over the FIFO itself refines it (`FifoRing.Refines`). `β` is the type of the bytes.
-/

namespace MyDemo.Ijkmedia.Async

variable {β : Type*}

def SHORT_SEEK_THRESHOLD : ℤ := 256 * 1024

def AVERROR_EXIT : ℤ := -0x54495845

def AVERROR_EOF : ℤ := -0x20464F45

def EINVAL : ℤ := 22

structure RingBuffer (β : Type*) where
  fifo : List β
  capacity : ℕ
  read_back_capacity : ℕ
  read_pos : ℕ
  deriving DecidableEq, Repr

namespace RingBuffer

def ring_init (capacity read_back_capacity : ℕ) : RingBuffer β :=
  ⟨[], capacity + read_back_capacity, read_back_capacity, 0⟩

def ring_reset (ring : RingBuffer β) : RingBuffer β := { ring with fifo := [], read_pos := 0 }

def ring_size (ring : RingBuffer β) : ℤ := ring.fifo.length - ring.read_pos

def ring_space (ring : RingBuffer β) : ℤ := ring.capacity - ring.fifo.length

def ring_generic_read (ring : RingBuffer β) (buf_size : ℕ) : RingBuffer β × List β :=
  let bytes := ring.fifo.piece ring.read_pos buf_size
  let read_pos := ring.read_pos + buf_size
  if read_pos > ring.read_back_capacity then
    ({ ring with
      fifo := ring.fifo.drop (read_pos - ring.read_back_capacity)
      read_pos := ring.read_back_capacity }, bytes)
  else ({ ring with read_pos := read_pos }, bytes)

def ring_size_of_read_back (ring : RingBuffer β) : ℕ := ring.read_pos

def ring_drain (ring : RingBuffer β) (offset : ℤ) : RingBuffer β :=
  { ring with read_pos := (ring.read_pos + offset).toNat }

end RingBuffer

structure Context (β : Type*) where
  seek_request : Bool
  seek_pos : ℕ
  seek_completed : Bool
  seek_ret : ℤ
  inner_io_error : ℤ
  io_error : ℤ
  io_eof_reached : Bool
  logical_pos : ℕ
  logical_size : ℤ
  ring : RingBuffer β
  abort_request : Bool
  deriving DecidableEq, Repr

/-! ## The two threads -/

/-- Where `async_buffer_task` is. -/
inductive BufferPc (β : Type*) where
  /-- Before the lock at the begin of its loop. -/
  | loop
  | waits
  /-- In `ring_generic_write`, with the bytes that it has put into the ring but not yet counted. -/
  | writes (left : ℕ) (written : List β)
  | wrote (ret : ℕ)
  | ended
  deriving DecidableEq, Repr

/-- The variables of `async_read_internal`. A call for a seek is `read_complete` and copies nothing. -/
structure ReadCall (β : Type*) where
  size : ℕ
  to_read : ℕ
  ret : ℤ
  read_complete : Bool
  dest : List β
  deriving DecidableEq, Repr

inductive MainPc (β : Type*) where
  | idle
  | reads (r : ReadCall β)
  | readWaits (r : ReadCall β)
  | seeks
  | seekWaits
  deriving DecidableEq, Repr

/-- What a call has returned. `size` is how many bytes were asked for. -/
inductive Returned (β : Type*) where
  | read (size : ℕ) (ret : ℤ) (dest : List β)
  | seek (ret : ℤ)
  | size (ret : ℤ)
  deriving DecidableEq, Repr

/-- `pos` is where the inner stream is. -/
structure Threads (β : Type*) where
  c : Context β
  pos : ℕ
  buffer : BufferPc β
  main : MainPc β
  returned : List (Returned β)
  deriving DecidableEq, Repr

inductive Whence where
  | SEEK_SET
  | SEEK_CUR
  | AVSEEK_SIZE
  | other
  deriving DecidableEq, Repr

/-- The answer of `ffurl_read` to the inner stream: so many of its bytes, or an error. -/
inductive ReadAnswer where
  | bytes (n : ℕ)
  | error (ret : ℤ)
  deriving DecidableEq, Repr

/-- What `ffurl_seek` answers: a position, or an error code, which is an `int`. -/
abbrev SeekRet := {seek_ret : ℤ // -2147483648 ≤ seek_ret}

instance : Inhabited SeekRet := ⟨⟨0, by decide⟩⟩

namespace Threads

/-- `async_open`. -/
def async_open (forwards_capacity backwards_capacity : ℕ) (logical_size : ℤ) : Threads β where
  c := ⟨false, 0, false, 0, 0, 0, false, 0, logical_size, .ring_init forwards_capacity backwards_capacity, false⟩
  pos := 0
  buffer := .loop
  main := .idle
  returned := []

def signalBuffer (s : Threads β) : Threads β :=
  match s.buffer with
  | .waits => { s with buffer := .loop }
  | _ => s

def signalMain (s : Threads β) : Threads β :=
  match s.main with
  | .readWaits r => { s with main := .reads r }
  | .seekWaits => { s with main := .seeks }
  | _ => s

/-! ## The thread in the background -/

/-- The section under the lock at the begin of the loop. `seek_ret` is the answer of `ffurl_seek` if there is a
request, which leaves the inner stream anywhere if it fails. -/
def loopStep (s : Threads β) (interrupted : Bool) (seek_ret : SeekRet) (left_at : ℕ) : Threads β :=
  if s.c.abort_request ∨ interrupted then
    signalMain { s with
      c := { s.c with abort_request := true, io_eof_reached := true, io_error := AVERROR_EXIT }
      buffer := .ended }
  else if s.c.seek_request then
    signalMain { s with
      c := { s.c with
        io_eof_reached := seek_ret.1 < 0
        io_error := if seek_ret.1 < 0 then seek_ret.1.bmod (2 ^ 32) else 0
        seek_completed := true
        seek_ret := seek_ret
        seek_request := false
        ring := s.c.ring.ring_reset }
      pos := if seek_ret.1 < 0 then left_at else seek_ret.1.toNat }
  else if s.c.io_eof_reached ∨ s.c.ring.ring_space ≤ 0 then signalMain { s with buffer := .waits }
  else { s with buffer := .writes (min 4096 s.c.ring.ring_space).toNat [] }

/-- `wrapped_url_read` for what is left to write. -/
def writeStep (data : List β) (s : Threads β) (left : ℕ) (written : List β) : ReadAnswer → Threads β
  | .bytes n =>
      let bytes := data.piece s.pos (min n left)
      { s with
        c := { s.c with inner_io_error := 0 }
        pos := s.pos + bytes.length
        buffer := .writes (if bytes.length = 0 then 0 else left - bytes.length) (written ++ bytes) }
  | .error ret =>
      { s with
        c := { s.c with inner_io_error := if ret < 0 then ret else 0 }
        buffer := .writes 0 written }

/-- The section under the lock after a write. -/
def wroteStep (s : Threads β) (ret : ℕ) : Threads β :=
  signalMain { s with
    c := if ret ≤ 0 then
        { s.c with
          io_eof_reached := true
          io_error := if s.c.inner_io_error < 0 then s.c.inner_io_error else s.c.io_error }
      else s.c
    buffer := .loop }

/-! ## The calls -/

/-- The end of `async_read_internal`, for `async_read` or for `async_seek`. -/
def readReturns (s : Threads β) (r : ReadCall β) : Threads β :=
  signalBuffer { s with
    main := .idle
    returned := s.returned ++ [if r.read_complete then .seek s.c.logical_pos else .read r.size r.ret r.dest] }

def readLoop (s : Threads β) (r : ReadCall β) (interrupted : Bool) : Threads β :=
  if r.to_read = 0 then s.readReturns r
  else if s.c.abort_request ∨ interrupted then
    readReturns { s with c := { s.c with abort_request := true } } { r with ret := AVERROR_EXIT }
  else
    let to_copy := (min (r.to_read : ℤ) s.c.ring.ring_size).toNat
    if to_copy > 0 then
      let read := s.c.ring.ring_generic_read to_copy
      let s := { s with c := { s.c with ring := read.1, logical_pos := s.c.logical_pos + to_copy } }
      let r := { r with
        dest := if r.read_complete then r.dest else r.dest ++ read.2
        to_read := r.to_read - to_copy
        ret := r.size - (r.to_read - to_copy : ℕ) }
      if r.to_read = 0 ∨ !r.read_complete then s.readReturns r
      else signalBuffer { s with main := .readWaits r }
    else if s.c.io_eof_reached then
      s.readReturns { r with
        ret := if r.ret ≤ 0 then (if s.c.io_error ≠ 0 then s.c.io_error else AVERROR_EOF) else r.ret }
    else signalBuffer { s with main := .readWaits r }

def returns (s : Threads β) (r : Returned β) : Threads β := { s with main := .idle, returned := s.returned ++ [r] }

/-- `async_seek` from its test of the position on. -/
def seekTo (s : Threads β) (new_logical_pos : ℤ) : Threads β :=
  let pos_delta := new_logical_pos - s.c.logical_pos
  if new_logical_pos < 0 then s.returns (.seek (-EINVAL))
  else if new_logical_pos = s.c.logical_pos then s.returns (.seek s.c.logical_pos)
  else if new_logical_pos ≥ s.c.logical_pos - s.c.ring.ring_size_of_read_back ∧
      new_logical_pos < s.c.logical_pos + s.c.ring.ring_size + SHORT_SEEK_THRESHOLD then
    if pos_delta > 0 then { s with main := .reads ⟨pos_delta.toNat, pos_delta.toNat, 0, true, []⟩ }
    else
      returns { s with
        c := { s.c with ring := s.c.ring.ring_drain pos_delta, logical_pos := new_logical_pos.toNat } }
        (.seek new_logical_pos)
  else if s.c.logical_size ≤ 0 then s.returns (.seek (-EINVAL))
  else if new_logical_pos > s.c.logical_size then s.returns (.seek (-EINVAL))
  else
    { s with
      c := { s.c with
        seek_request := true
        seek_pos := new_logical_pos.toNat
        seek_completed := false
        seek_ret := 0 }
      main := .seeks }

def async_seek (s : Threads β) (pos : ℤ) : Whence → Threads β
  | .AVSEEK_SIZE => s.returns (.size s.c.logical_size)
  | .SEEK_CUR => s.seekTo (pos + s.c.logical_pos)
  | .SEEK_SET => s.seekTo pos
  | .other => s.returns (.seek (-EINVAL))

/-- The loop of `async_seek` that waits for the thread in the background. -/
def seekLoop (s : Threads β) (interrupted : Bool) : Threads β :=
  if s.c.abort_request ∨ interrupted then
    returns { s with c := { s.c with abort_request := true } } (.seek AVERROR_EXIT)
  else if s.c.seek_completed then
    returns { s with
      c := { s.c with logical_pos := if s.c.seek_ret ≥ 0 then s.c.seek_ret.toNat else s.c.logical_pos } }
      (.seek s.c.seek_ret)
  else signalBuffer { s with main := .seekWaits }

/-! ## The steps -/

inductive Event where
  | read (size : ℕ)
  | seek (pos : ℤ) (whence : Whence)
  /-- The thread of the calls goes on, up to its next wait or its return. -/
  | main (interrupted : Bool)
  | buffer (interrupted : Bool) (seek_ret : SeekRet) (left_at : ℕ) (answer : ReadAnswer)
  /-- A thread wakes up without a signal. -/
  | wakeMain
  | wakeBuffer
  deriving DecidableEq, Repr

def mainStep (s : Threads β) (interrupted : Bool) : Option (Threads β) :=
  match s.main with
  | .reads r => some (s.readLoop r interrupted)
  | .seeks => some (s.seekLoop interrupted)
  | _ => none

def bufferStep (data : List β) (s : Threads β) (interrupted : Bool) (seek_ret : SeekRet) (left_at : ℕ)
    (answer : ReadAnswer) : Option (Threads β) :=
  match s.buffer with
  | .loop => some (s.loopStep interrupted seek_ret left_at)
  | .writes 0 written =>
      some { s with
        c := { s.c with ring := { s.c.ring with fifo := s.c.ring.fifo ++ written } }
        buffer := .wrote written.length }
  | .writes left written => some (s.writeStep data left written answer)
  | .wrote ret => some (s.wroteStep ret)
  | _ => none

/-- `async_close` is not called while another call is going on, and it ends both. -/
def step (data : List β) (s : Threads β) : Event → Option (Threads β)
  | .read size =>
      match s.main with
      | .idle => some { s with main := .reads ⟨size, size, 0, false, []⟩ }
      | _ => none
  | .seek pos whence =>
      match s.main with
      | .idle => some (s.async_seek pos whence)
      | _ => none
  | .main interrupted => s.mainStep interrupted
  | .buffer interrupted seek_ret left_at answer => s.bufferStep data interrupted seek_ret left_at answer
  | .wakeMain => some s.signalMain
  | .wakeBuffer => some s.signalBuffer

end Threads

end MyDemo.Ijkmedia.Async

import MyDemo.Ijkmedia.Async

/-!
# The FIFO

`ijkfifo.c`, and the ring of `ijkasync.c` over it. `ijkasync.c` uses the FIFO of `libavutil`, of which `ijkfifo.c` is a
port with the same functions. Pointers are offsets into `buffer`, and `end` is its length. The indices `rndx` and
`wndx` have 64 bits, but `ijk_av_fifo_generic_write` counts with 32.
-/

namespace MyDemo.Ijkmedia

variable {β : Type*}

structure IjkFifoBuffer (β : Type*) where
  buffer : List β
  rptr : ℕ
  wptr : ℕ
  rndx : UInt64
  wndx : UInt64
  deriving DecidableEq

namespace IjkFifoBuffer

def ijk_av_fifo_reset (f : IjkFifoBuffer β) : IjkFifoBuffer β := { f with rptr := 0, wptr := 0, rndx := 0, wndx := 0 }

/-- `buffer` is what `malloc` has given. -/
def ijk_av_fifo_alloc (buffer : List β) : IjkFifoBuffer β := ijk_av_fifo_reset ⟨buffer, 0, 0, 0, 0⟩

def ijk_av_fifo_size (f : IjkFifoBuffer β) : ℕ := (f.wndx - f.rndx).toUInt32.toNat

def ijk_av_fifo_space (f : IjkFifoBuffer β) : ℤ := f.buffer.length - f.ijk_av_fifo_size

def ijk_av_fifo_drain (f : IjkFifoBuffer β) (size : ℕ) : IjkFifoBuffer β :=
  let rptr := f.rptr + size
  { f with
    rptr := if rptr ≥ f.buffer.length then rptr - f.buffer.length else rptr
    rndx := f.rndx + UInt64.ofNat size }

/-! ## ijk_av_fifo_generic_peek_at -/

/-- The loop. A pass that copies nothing would come again and again. -/
def peekLoop (buffer : List β) (rptr buf_size : ℕ) : Option (List β) :=
  if buf_size = 0 then some []
  else
    let rptr := if rptr ≥ buffer.length then rptr - buffer.length else rptr
    let len := min (buffer.length - rptr) buf_size
    if len = 0 then none else (peekLoop buffer (rptr + len) (buf_size - len)).map (buffer.piece rptr len ++ ·)
termination_by buf_size
decreasing_by omega

def ijk_av_fifo_generic_peek_at (f : IjkFifoBuffer β) (offset buf_size : ℕ) : Option (List β) :=
  peekLoop f.buffer
    (if offset ≥ f.buffer.length - f.rptr then f.rptr + offset - f.buffer.length else f.rptr + offset) buf_size

/-! ## ijk_av_fifo_generic_write -/

/-- The variables of a call. -/
structure Write where
  wndx : UInt32
  wptr : ℕ
  size : ℕ
  deriving DecidableEq, Repr

def beginWrite (f : IjkFifoBuffer β) (size : ℕ) : Write := ⟨f.wndx.toUInt32, f.wptr, size⟩

/-- What `func` is asked for. -/
def Write.len (w : Write) (f : IjkFifoBuffer β) : ℕ := min (f.buffer.length - w.wptr) w.size

/-- A pass of the loop in which `func` has given `bytes`. Without any the loop is left. -/
def writePass (f : IjkFifoBuffer β) (w : Write) (bytes : List β) : IjkFifoBuffer β × Write :=
  let wptr := w.wptr + bytes.length
  ({ f with buffer := f.buffer.overwrite w.wptr bytes },
    { wndx := w.wndx + UInt32.ofNat bytes.length
      wptr := if wptr ≥ f.buffer.length then 0 else wptr
      size := w.size - bytes.length })

def endWrite (f : IjkFifoBuffer β) (w : Write) : IjkFifoBuffer β := { f with wndx := w.wndx.toUInt64, wptr := w.wptr }

end IjkFifoBuffer

/-! ## The ring of ijkasync.c -/

namespace Async

open IjkFifoBuffer

structure FifoRing (β : Type*) where
  fifo : IjkFifoBuffer β
  read_back_capacity : ℕ
  read_pos : ℕ
  deriving DecidableEq

namespace FifoRing

/-- `buffer` has the size `capacity + read_back_capacity`. -/
def ring_init (buffer : List β) (read_back_capacity : ℕ) : FifoRing β :=
  ⟨ijk_av_fifo_alloc buffer, read_back_capacity, 0⟩

def ring_reset (ring : FifoRing β) : FifoRing β := { ring with fifo := ring.fifo.ijk_av_fifo_reset, read_pos := 0 }

def ring_size (ring : FifoRing β) : ℤ := ring.fifo.ijk_av_fifo_size - ring.read_pos

def ring_space (ring : FifoRing β) : ℤ := ring.fifo.ijk_av_fifo_space

def ring_generic_read (ring : FifoRing β) (buf_size : ℕ) : Option (FifoRing β × List β) := do
  let bytes ← ring.fifo.ijk_av_fifo_generic_peek_at ring.read_pos buf_size
  let read_pos := ring.read_pos + buf_size
  return if read_pos > ring.read_back_capacity then
    ({ ring with
      fifo := ring.fifo.ijk_av_fifo_drain (read_pos - ring.read_back_capacity)
      read_pos := ring.read_back_capacity }, bytes)
  else ({ ring with read_pos := read_pos }, bytes)

def ring_drain (ring : FifoRing β) (offset : ℤ) : FifoRing β :=
  { ring with read_pos := (ring.read_pos + offset).toNat }

end FifoRing

end Async

end MyDemo.Ijkmedia

import MyDemo.Ijkmedia.AsyncTheorems
import MyDemo.Ijkmedia.Fifo
import MyDemo.Lib.Ring

/-!
# The FIFO is a queue
-/

namespace MyDemo.Ijkmedia

variable {β : Type*} {f : IjkFifoBuffer β} {l written bytes : List β} {n : ℕ}

namespace IjkFifoBuffer

/-- The bytes `l` are in the FIFO. -/
structure Queued (f : IjkFifoBuffer β) (l : List β) : Prop where
  holds : Ring.Holds f.buffer f.rptr l
  length_le : l.length ≤ f.buffer.length
  rptr_lt : f.rptr < f.buffer.length
  wptr : f.wptr = (f.rptr + l.length) % f.buffer.length
  wndx : f.wndx.toUInt32 = f.rndx.toUInt32 + UInt32.ofNat l.length
  small : f.buffer.length < 2 ^ 31

theorem Queued.reset {buffer : List β} (hpos : 0 < buffer.length) (hsmall : buffer.length < 2 ^ 31) :
    (ijk_av_fifo_alloc buffer).Queued [] where
  holds := .nil
  length_le := Nat.zero_le _
  rptr_lt := hpos
  wptr := (Nat.zero_mod _).symm
  wndx := rfl
  small := hsmall

/-- Also where the indices have wrapped around. -/
theorem Queued.size (h : f.Queued l) : f.ijk_av_fifo_size = l.length := by
  have hle := h.length_le
  have hsmall := h.small
  rw [ijk_av_fifo_size, UInt64.toUInt32_sub, h.wndx, UInt32.add_comm, UInt32.add_sub_cancel, UInt32.toNat_ofNat',
    Nat.mod_eq_of_lt (by omega)]

theorem Queued.space (h : f.Queued l) : f.ijk_av_fifo_space = f.buffer.length - l.length := by
  rw [ijk_av_fifo_space, h.size]

theorem Queued.rptr_drain (h : f.Queued l) (hn : n ≤ l.length) :
    (f.ijk_av_fifo_drain n).rptr = (f.rptr + n) % f.buffer.length := by
  have hlt := h.rptr_lt
  have hle := h.length_le
  change (if f.rptr + n ≥ f.buffer.length then f.rptr + n - f.buffer.length else f.rptr + n) = _
  split
  · rw [Nat.mod_eq_sub_mod (by omega), Nat.mod_eq_of_lt (by omega)]
  · exact (Nat.mod_eq_of_lt (by omega)).symm

theorem Queued.drain (h : f.Queued l) (hn : n ≤ l.length) : (f.ijk_av_fifo_drain n).Queued (l.drop n) := by
  have hrptr := h.rptr_drain hn
  refine ⟨?_, ?_, ?_, ?_, ?_, h.small⟩
  · rw [hrptr]
    exact (h.holds.drop n).mod_start
  · rw [List.length_drop]
    exact (Nat.sub_le _ _).trans h.length_le
  · rw [hrptr]
    exact Nat.mod_lt _ (Nat.zero_lt_of_lt h.rptr_lt)
  · change f.wptr = _
    rw [hrptr, h.wptr, List.length_drop]
    change _ = _ % f.buffer.length
    rw [Nat.mod_add_mod, Nat.add_assoc, Nat.add_sub_cancel' hn]
  · change f.wndx.toUInt32 = (f.rndx + UInt64.ofNat n).toUInt32 + _
    rw [h.wndx, UInt64.toUInt32_add, UInt64.toUInt32_ofNat', List.length_drop, UInt32.add_assoc, ← UInt32.ofNat_add,
      Nat.add_sub_cancel' hn]

/-! ## Reading -/

theorem peekLoop_eq {buffer : List β} {start rptr : ℕ} (h : Ring.Holds buffer start l) (hpos : 0 < buffer.length)
    (hrptr : rptr ≤ buffer.length) (hstart : rptr % buffer.length = start % buffer.length) :
    peekLoop buffer rptr l.length = some l := by
  induction hn : l.length using Nat.strongRecOn generalizing l start rptr with
  | ind n ih =>
  subst hn
  rw [peekLoop]
  split
  · next hzero => rw [List.eq_nil_of_length_eq_zero hzero]
  · next hne =>
      have hslot : (if rptr ≥ buffer.length then rptr - buffer.length else rptr) = start % buffer.length := by
        split
        · rw [← hstart, show rptr = buffer.length by omega, Nat.mod_self, Nat.sub_self]
        · rw [← hstart, Nat.mod_eq_of_lt (by omega)]
      have hlt : start % buffer.length < buffer.length := Nat.mod_lt _ hpos
      dsimp only
      rw [hslot, if_neg (by omega), h.piece_eq (Nat.min_le_right _ _) (by omega)]
      set len := min (buffer.length - start % buffer.length) l.length with hlen
      have hrest : peekLoop buffer (start % buffer.length + len) (l.drop len).length = some (l.drop len) :=
        ih _ (by rw [List.length_drop]; omega) (h.drop len) (by omega) (Nat.mod_add_mod _ _ _) rfl
      rw [List.length_drop] at hrest
      rw [hrest, Option.map_some, List.take_append_drop]

theorem Queued.peek_at (h : f.Queued l) {offset : ℕ} (hle : offset + n ≤ l.length) :
    f.ijk_av_fifo_generic_peek_at offset n = some (l.piece offset n) := by
  have hlt := h.rptr_lt
  have hlength := h.length_le
  have hpiece : (l.piece offset n).length = n := by rw [List.length_piece]; omega
  rw [ijk_av_fifo_generic_peek_at]
  set rptr := if offset ≥ f.buffer.length - f.rptr then f.rptr + offset - f.buffer.length else f.rptr + offset
    with hrptr
  have hbounds : rptr ≤ f.buffer.length ∧ rptr % f.buffer.length = (f.rptr + offset) % f.buffer.length := by
    rw [hrptr]
    split
    · exact ⟨by omega, (Nat.mod_eq_sub_mod (by omega)).symm⟩
    · exact ⟨by omega, rfl⟩
  have hpeek := peekLoop_eq ((h.holds.drop offset).take n) (by omega) hbounds.1 hbounds.2
  rw [← List.piece, hpiece] at hpeek
  exact hpeek

/-! ## Writing -/

/-- A call of `ijk_av_fifo_generic_write` has put `written` behind the bytes. -/
structure Writing (f : IjkFifoBuffer β) (w : Write) (l written : List β) : Prop where
  queued : f.Queued l
  holds : Ring.Holds f.buffer f.rptr (l ++ written)
  wptr : w.wptr = (f.rptr + (l ++ written).length) % f.buffer.length
  wndx : w.wndx = f.wndx.toUInt32 + UInt32.ofNat written.length
  room : (l ++ written).length + w.size ≤ f.buffer.length

theorem Writing.begin (h : f.Queued l) (hn : l.length + n ≤ f.buffer.length) :
    f.Writing (f.beginWrite n) l [] where
  queued := h
  holds := by rw [List.append_nil]; exact h.holds
  wptr := by rw [List.append_nil]; exact h.wptr
  wndx := (UInt32.add_zero _).symm
  room := by rw [List.append_nil]; exact hn

theorem Writing.wptr_lt {w : Write} (h : f.Writing w l written) : w.wptr < f.buffer.length :=
  h.wptr ▸ Nat.mod_lt _ (Nat.zero_lt_of_lt h.queued.rptr_lt)

theorem Writing.length_overwrite {w : Write} (h : f.Writing w l written) (hlen : bytes.length ≤ w.len f) :
    (f.buffer.overwrite w.wptr bytes).length = f.buffer.length := by
  have hwptr := h.wptr_lt
  rw [Write.len] at hlen
  rw [List.length_overwrite hwptr.le]
  omega

/-- The reader does not see the bytes of a pass, nor is what it sees written over. -/
theorem Writing.pass {w : Write} (h : f.Writing w l written) (hlen : bytes.length ≤ w.len f) :
    (f.writePass w bytes).1.Writing (f.writePass w bytes).2 l (written ++ bytes) := by
  have hroom := h.room
  have hpos : 0 < f.buffer.length := Nat.zero_lt_of_lt h.queued.rptr_lt
  have hwptr := h.wptr_lt
  have hlength := h.length_overwrite hlen
  rw [Write.len] at hlen
  have hholds : Ring.Holds (f.buffer.overwrite w.wptr bytes) f.rptr (l ++ written ++ bytes) := by
    rw [h.wptr]
    exact h.holds.overwrite hpos (by rw [← h.wptr]; omega) (by omega)
  have hcount : (l ++ written ++ bytes).length = (l ++ written).length + bytes.length := List.length_append
  refine ⟨⟨?_, ?_, ?_, ?_, h.queued.wndx, ?_⟩, ?_, ?_, ?_, ?_⟩
  · have htake := hholds.take l.length
    rwa [List.append_assoc, List.take_left] at htake
  · change _ ≤ (f.buffer.overwrite w.wptr bytes).length
    rw [hlength]
    exact h.queued.length_le
  · change _ < (f.buffer.overwrite w.wptr bytes).length
    rw [hlength]
    exact h.queued.rptr_lt
  · change f.wptr = _ % (f.buffer.overwrite w.wptr bytes).length
    rw [hlength]
    exact h.queued.wptr
  · change (f.buffer.overwrite w.wptr bytes).length < _
    rw [hlength]
    exact h.queued.small
  · rw [← List.append_assoc]
    exact hholds
  · change (if w.wptr + bytes.length ≥ f.buffer.length then 0 else w.wptr + bytes.length) =
      (f.rptr + _) % (f.buffer.overwrite w.wptr bytes).length
    rw [hlength, ← List.append_assoc, hcount, ← Nat.add_assoc, ← Nat.mod_add_mod, ← h.wptr]
    split
    · rw [show w.wptr + bytes.length = f.buffer.length by omega, Nat.mod_self]
    · exact (Nat.mod_eq_of_lt (by omega)).symm
  · change w.wndx + UInt32.ofNat bytes.length = f.wndx.toUInt32 + _
    rw [h.wndx, List.length_append, UInt32.ofNat_add, UInt32.add_assoc]
  · change _ + (w.size - bytes.length) ≤ (f.buffer.overwrite w.wptr bytes).length
    rw [hlength, ← List.append_assoc, hcount]
    omega

theorem Writing.drain {w : Write} (h : f.Writing w l written) (hn : n ≤ l.length) :
    (f.ijk_av_fifo_drain n).Writing w (l.drop n) written := by
  have hqueued := h.queued.drain hn
  have hdrop : l.drop n ++ written = (l ++ written).drop n := (List.drop_append_of_le_length hn).symm
  have hrptr := h.queued.rptr_drain hn
  have hcount : n ≤ (l ++ written).length := by
    rw [List.length_append]
    omega
  refine ⟨hqueued, ?_, ?_, h.wndx, ?_⟩
  · rw [hrptr, hdrop]
    exact (h.holds.drop n).mod_start
  · rw [hrptr, hdrop, h.wptr, List.length_drop]
    change _ = _ % f.buffer.length
    rw [Nat.mod_add_mod, Nat.add_assoc, Nat.add_sub_cancel' hcount]
  · rw [hdrop, List.length_drop]
    exact (Nat.add_le_add_right (Nat.sub_le _ _) _).trans h.room

theorem Writing.finish {w : Write} (h : f.Writing w l written) : (f.endWrite w).Queued (l ++ written) where
  holds := h.holds
  length_le := (Nat.le_add_right _ _).trans h.room
  rptr_lt := h.queued.rptr_lt
  wptr := h.wptr
  wndx := by
    change w.wndx.toUInt64.toUInt32 = _
    rw [UInt32.toUInt32_toUInt64, h.wndx, h.queued.wndx, UInt32.add_assoc, ← UInt32.ofNat_add, ← List.length_append]
    rfl
  small := h.queued.small

end IjkFifoBuffer

/-! ## The ring over the FIFO -/

namespace Async

open IjkFifoBuffer

/-- The two rings hold the same bytes. -/
structure FifoRing.Refines (r : FifoRing β) (ring : RingBuffer β) : Prop where
  queued : r.fifo.Queued ring.fifo
  capacity : r.fifo.buffer.length = ring.capacity
  read_back_capacity : r.read_back_capacity = ring.read_back_capacity
  read_pos : r.read_pos = ring.read_pos

namespace FifoRing.Refines

variable {r : FifoRing β} {ring : RingBuffer β}

theorem init {buffer : List β} {capacity read_back_capacity : ℕ}
    (hlength : buffer.length = capacity + read_back_capacity) (hpos : 0 < buffer.length)
    (hsmall : buffer.length < 2 ^ 31) :
    (ring_init buffer read_back_capacity).Refines (.ring_init capacity read_back_capacity) :=
  ⟨.reset hpos hsmall, hlength, rfl, rfl⟩

theorem reset (h : r.Refines ring) : r.ring_reset.Refines ring.ring_reset :=
  ⟨.reset (Nat.zero_lt_of_lt h.queued.rptr_lt) h.queued.small, h.capacity, h.read_back_capacity, rfl⟩

theorem size (h : r.Refines ring) : r.ring_size = ring.ring_size := by
  rw [FifoRing.ring_size, RingBuffer.ring_size, h.queued.size, h.read_pos]

theorem space (h : r.Refines ring) : r.ring_space = ring.ring_space := by
  rw [FifoRing.ring_space, RingBuffer.ring_space, h.queued.space, h.capacity]

theorem drain (h : r.Refines ring) (offset : ℤ) : (r.ring_drain offset).Refines (ring.ring_drain offset) := by
  refine ⟨h.queued, h.capacity, h.read_back_capacity, ?_⟩
  rw [FifoRing.ring_drain, RingBuffer.ring_drain, h.read_pos]

/-- A read copies the same bytes, and it does not disturb a write that is going on. -/
theorem read (h : r.Refines ring) (hn : (n : ℤ) ≤ ring.ring_size) :
    ∃ r', r.ring_generic_read n = some (r', (ring.ring_generic_read n).2) ∧
      r'.Refines (ring.ring_generic_read n).1 ∧ ∀ w written, r.fifo.Writing w ring.fifo written →
        r'.fifo.Writing w (ring.ring_generic_read n).1.fifo written := by
  rw [RingBuffer.ring_size] at hn
  have hpeek : r.fifo.ijk_av_fifo_generic_peek_at ring.read_pos n = some (ring.fifo.piece ring.read_pos n) :=
    h.queued.peek_at (by omega)
  rw [FifoRing.ring_generic_read, h.read_pos, hpeek, h.read_back_capacity, RingBuffer.ring_generic_read]
  split
  · next hback =>
      refine ⟨_, congrArg some (if_pos hback), ?_⟩
      exact ⟨⟨h.queued.drain (by omega), h.capacity, rfl, rfl⟩, fun w written hw => hw.drain (by omega)⟩
  · next hback =>
      refine ⟨_, congrArg some (if_neg hback), ?_⟩
      exact ⟨⟨h.queued, h.capacity, rfl, rfl⟩, fun w written hw => hw⟩

theorem begin (h : r.Refines ring) (hn : (n : ℤ) ≤ ring.ring_space) :
    r.fifo.Writing (r.fifo.beginWrite n) ring.fifo [] := by
  rw [RingBuffer.ring_space, ← h.capacity] at hn
  exact .begin h.queued (by omega)

/-- Before the end of a write nothing is seen of it. -/
theorem pass (h : r.Refines ring) {w : Write} (hw : r.fifo.Writing w ring.fifo written)
    (hlen : bytes.length ≤ w.len r.fifo) :
    { r with fifo := (r.fifo.writePass w bytes).1 }.Refines ring := by
  refine ⟨(hw.pass hlen).queued, ?_, h.read_back_capacity, h.read_pos⟩
  rw [← h.capacity]
  exact hw.length_overwrite hlen

/-- A write puts its bytes behind the others when it ends. -/
theorem write (h : r.Refines ring) {w : Write} (hw : r.fifo.Writing w ring.fifo written) :
    { r with fifo := r.fifo.endWrite w }.Refines { ring with fifo := ring.fifo ++ written } :=
  ⟨hw.finish, h.capacity, h.read_back_capacity, h.read_pos⟩

end FifoRing.Refines

end Async

end MyDemo.Ijkmedia

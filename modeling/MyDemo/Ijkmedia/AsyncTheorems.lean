import MyDemo.Ijkmedia.Async
import MyDemo.Lib.Transition

/-!
# What `ijkasync.c` delivers
-/

namespace MyDemo.Ijkmedia.Async

open Transition

variable {β : Type*} {data : List β}

/-! ## The calls as one sees them -/

namespace Returned

/-- The position in the stream after a call. -/
def next (pos : ℕ) : Returned β → ℕ
  | .read _ _ dest => pos + dest.length
  | .seek ret => if 0 ≤ ret then ret.toNat else pos
  | .size _ => pos

/-- A read gives bytes of the stream from its position on, one at least if any were asked for, and not more than
that; or an error and no bytes. -/
def Right (data : List β) (pos : ℕ) : Returned β → Prop
  | .read n ret dest => dest = data.piece pos dest.length ∧
      (ret = dest.length ∧ dest.length ≤ n ∧ (0 < n → 0 < dest.length) ∨ dest = [] ∧ ret < 0)
  | _ => True

end Returned

def position (returned : List (Returned β)) : ℕ := returned.foldl Returned.next 0

def Delivers (data : List β) (returned : List (Returned β)) : Prop :=
  ∀ before r, before ++ [r] <+: returned → r.Right data (position before)

theorem position_concat (returned : List (Returned β)) (r : Returned β) :
    position (returned ++ [r]) = r.next (position returned) := by
  rw [position, List.foldl_append]
  rfl

theorem Delivers.concat {returned : List (Returned β)} (h : Delivers data returned) {r : Returned β}
    (hr : r.Right data (position returned)) : Delivers data (returned ++ [r]) := by
  intro before r' hprefix
  rcases List.prefix_concat_iff.mp hprefix with heq | hle
  · obtain ⟨rfl, hlast⟩ := List.append_inj' heq rfl
    cases hlast
    exact hr
  · exact h before r' hle

/-! ## The ring -/

namespace RingBuffer

variable {ring : RingBuffer β}

structure Room (ring : RingBuffer β) (more : ℕ) : Prop where
  read_pos_le : ring.read_pos ≤ ring.fifo.length
  read_back : ring.read_pos ≤ ring.read_back_capacity
  capacity : ring.fifo.length + more ≤ ring.capacity

/-- The ring has the bytes of the stream up to `stop`, of which those from `pos` on are still to be read. `more` are
behind them already. -/
def Ahead (data : List β) (ring : RingBuffer β) (more : List β) (pos stop : ℕ) : Prop :=
  ∃ base, ring.fifo ++ more = data.piece base (ring.fifo ++ more).length ∧ base + ring.read_pos = pos ∧
    base + (ring.fifo ++ more).length = stop

theorem drop_piece_append {l more : List β} {base k : ℕ} (h : l ++ more = data.piece base (l ++ more).length)
    (hk : k ≤ l.length) :
    l.drop k ++ more = data.piece (base + k) (l.drop k ++ more).length := by
  have hdrop : l.drop k ++ more = (l ++ more).drop k := (List.drop_append_of_le_length hk).symm
  rw [hdrop, List.length_drop]
  conv_lhs => rw [h]
  rw [List.piece, List.piece, List.drop_take, List.drop_drop]

theorem Room.read {more n : ℕ} (h : ring.Room more) (hn : (n : ℤ) ≤ ring.ring_size) :
    (ring.ring_generic_read n).1.Room more := by
  obtain ⟨hpos, hback, hcapacity⟩ := h
  rw [ring_size] at hn
  rw [ring_generic_read]
  split
  · refine ⟨?_, le_refl _, ?_⟩
    · simp only [List.length_drop]
      omega
    · simp only [List.length_drop]
      omega
  · exact ⟨by simp only; omega, by simp only; omega, hcapacity⟩

/-- What is read are the bytes of the stream at the position. -/
theorem Ahead.read {more : List β} {k n pos stop : ℕ} (h : ring.Ahead data more pos stop) (hroom : ring.Room k)
    (hn : (n : ℤ) ≤ ring.ring_size) :
    (ring.ring_generic_read n).2 = data.piece pos n ∧ (ring.ring_generic_read n).2.length = n ∧
      (ring.ring_generic_read n).1.Ahead data more (pos + n) stop := by
  obtain ⟨base, hbytes, rfl, rfl⟩ := h
  have hle := hroom.read_pos_le
  rw [ring_size] at hn
  have hread : ring.fifo.piece ring.read_pos n = data.piece (base + ring.read_pos) n := by
    have hfifo : ring.fifo = data.piece base ring.fifo.length := by
      have htake := congrArg (List.take ring.fifo.length) hbytes
      rw [List.take_left, List.take_piece, List.length_append, min_eq_left (Nat.le_add_right _ _)] at htake
      exact htake
    conv_lhs => rw [hfifo]
    rw [List.piece, List.piece, List.piece, List.drop_take, List.drop_drop, List.take_take, min_eq_left (by omega)]
  refine ⟨?_, ?_, ?_⟩
  · rw [ring_generic_read]
    split
    · exact hread
    · exact hread
  · have hlength : (ring.fifo.piece ring.read_pos n).length = n := by
      rw [List.length_piece]
      omega
    rw [ring_generic_read]
    split
    · exact hlength
    · exact hlength
  · rw [ring_generic_read]
    split
    case isTrue hdrain =>
        have hk : ring.read_pos + n - ring.read_back_capacity ≤ ring.fifo.length := by omega
        have hback := hroom.read_back
        refine ⟨base + (ring.read_pos + n - ring.read_back_capacity), drop_piece_append hbytes hk, ?_, ?_⟩
        · simp only
          omega
        · simp only [List.length_append, List.length_drop]
          omega
    case isFalse =>
        refine ⟨base, hbytes, ?_, rfl⟩
        simp only
        omega

end RingBuffer

/-! ## The invariant -/

namespace BufferPc

def written : BufferPc β → List β
  | .writes _ written => written
  | _ => []

def left : BufferPc β → ℕ
  | .writes left _ => left
  | _ => 0

def writing : BufferPc β → Bool
  | .writes _ _ => true
  | _ => false

def waiting : BufferPc β → Bool
  | .waits => true
  | _ => false

def hasEnded : BufferPc β → Bool
  | .ended => true
  | _ => false

end BufferPc

namespace MainPc

def seeking : MainPc β → Bool
  | .seeks => true
  | .seekWaits => true
  | _ => false

/-- A seek that reads without copying is going on. -/
def skipping : MainPc β → Bool
  | .reads r => r.read_complete
  | .readWaits r => r.read_complete
  | _ => false

def waiting : MainPc β → Bool
  | .readWaits _ => true
  | .seekWaits => true
  | _ => false

/-- A call of `async_read` that has not returned has read nothing. -/
def Fresh : MainPc β → Prop
  | .reads r => r.read_complete = false → r.dest = [] ∧ r.ret = 0 ∧ r.size = r.to_read
  | .readWaits r => r.read_complete = false → r.dest = [] ∧ r.ret = 0 ∧ r.size = r.to_read
  | _ => True

end MainPc

namespace Threads

variable {s s' : Threads β}

/-- The position that the ring is at: after a seek it is there before the call knows of it. -/
def ringPos (s : Threads β) : ℕ :=
  if s.main.seeking = true ∧ s.c.seek_completed = true ∧ 0 ≤ s.c.seek_ret then s.c.seek_ret.toNat else s.c.logical_pos

def Aligned (data : List β) (s : Threads β) : Prop := s.c.ring.Ahead data s.buffer.written s.ringPos s.pos

/-- A seek has failed, so that nothing is read until the next one. -/
def Lost (s : Threads β) : Prop :=
  s.c.ring.fifo = [] ∧ s.c.ring.read_pos = 0 ∧ s.c.io_eof_reached = true ∧ s.buffer.writing = false

structure Inv (data : List β) (s : Threads β) : Prop where
  room : s.c.ring.Room (s.buffer.written.length + s.buffer.left)
  error : s.c.io_error ≤ 0
  aligned : s.c.abort_request = false → s.Aligned data ∨ s.Lost
  request : s.c.abort_request = false → s.c.seek_request = true → s.main.seeking = true ∧ s.c.seek_completed = false
  fresh : s.main.Fresh
  logical : s.main.skipping = false → s.c.logical_pos = position s.returned
  ended : s.buffer.hasEnded = true → s.c.abort_request = true
  delivers : Delivers data s.returned

theorem inv_open (forwards_capacity backwards_capacity : ℕ) (logical_size : ℤ) :
    Inv data (async_open forwards_capacity backwards_capacity logical_size) where
  room := ⟨le_refl _, Nat.zero_le _, Nat.zero_le _⟩
  error := Int.le_refl _
  aligned := fun _ => .inl ⟨0, rfl, rfl, rfl⟩
  request := nofun
  fresh := trivial
  logical := fun _ => rfl
  ended := nofun
  delivers := fun before r hprefix => by
    have hlength := hprefix.length_le
    rw [List.length_append, List.length_singleton] at hlength
    exact absurd hlength (Nat.not_succ_le_zero _)

theorem Inv.signalMain (h : Inv data s) : Inv data s.signalMain := by
  obtain ⟨c, pos, buffer, main, returned⟩ := s
  cases main with
  | idle => exact h
  | reads r => exact h
  | seeks => exact h
  | readWaits r => exact ⟨h.room, h.error, h.aligned, h.request, h.fresh, h.logical, h.ended, h.delivers⟩
  | seekWaits => exact ⟨h.room, h.error, h.aligned, h.request, h.fresh, h.logical, h.ended, h.delivers⟩

theorem Inv.signalBuffer (h : Inv data s) : Inv data s.signalBuffer := by
  obtain ⟨c, pos, buffer, main, returned⟩ := s
  cases buffer with
  | loop => exact h
  | writes left written => exact h
  | wrote ret => exact h
  | ended => exact h
  | waits => exact ⟨h.room, h.error, h.aligned, h.request, h.fresh, h.logical, nofun, h.delivers⟩

/-! ## The thread in the background -/

theorem Inv.loopStep (h : Inv data s) (hbuffer : s.buffer = .loop) (interrupted : Bool) (seek_ret : SeekRet)
    (left_at : ℕ) :
    Inv data (s.loopStep interrupted seek_ret left_at) := by
  obtain ⟨c, pos, buffer, main, returned⟩ := s
  cases hbuffer
  rw [Threads.loopStep]
  split
  case isTrue =>
      refine Inv.signalMain ⟨h.room, ?_, nofun, nofun, h.fresh, h.logical, fun _ => rfl, h.delivers⟩
      change AVERROR_EXIT ≤ 0
      decide
  case isFalse habort =>
      have hlive : c.abort_request = false := Bool.eq_false_iff.mpr fun h => habort (.inl h)
      split
      case isTrue hrequest =>
          obtain ⟨hseeking, hcompleted⟩ := h.request hlive hrequest
          refine Inv.signalMain ⟨⟨le_refl _, Nat.zero_le _, Nat.zero_le _⟩, ?_, fun _ => ?_, nofun, h.fresh, h.logical,
            nofun, h.delivers⟩
          · simp only
            split
            · next hret =>
                rw [Int.bmod_eq_of_le (by have hint := seek_ret.2; omega) (by omega)]
                omega
            · exact Int.le_refl _
          · by_cases hret : seek_ret.1 < 0
            · exact .inr ⟨rfl, rfl, decide_eq_true hret, rfl⟩
            · refine .inl ⟨seek_ret.1.toNat, rfl, ?_, ?_⟩
              · change seek_ret.1.toNat =
                  if main.seeking = true ∧ true = true ∧ 0 ≤ seek_ret.1 then seek_ret.1.toNat else c.logical_pos
                exact (if_pos ⟨hseeking, rfl, not_lt.mp hret⟩).symm
              · exact (if_neg hret).symm
      case isFalse =>
          split
          · refine Inv.signalMain ⟨h.room, h.error, h.aligned, h.request, h.fresh, h.logical, nofun, h.delivers⟩
          case isFalse hwaits =>
              rw [not_or] at hwaits
              obtain ⟨hpos, hback, _⟩ := h.room
              have hspace : 0 < c.ring.ring_space := not_le.mp hwaits.2
              rw [RingBuffer.ring_space] at hspace
              refine ⟨⟨hpos, hback, ?_⟩, h.error, fun hlive => .inl ?_, h.request, h.fresh, h.logical, nofun,
                h.delivers⟩
              · change c.ring.fifo.length + (0 + (min 4096 c.ring.ring_space).toNat) ≤ c.ring.capacity
                rw [RingBuffer.ring_space]
                omega
              · exact (h.aligned hlive).resolve_right fun hlost => hwaits.1 hlost.2.2.1

theorem Inv.writeStep {left : ℕ} {written : List β} (h : Inv data s) (hbuffer : s.buffer = .writes left written)
    (answer : ReadAnswer) : Inv data (s.writeStep data left written answer) := by
  obtain ⟨c, pos, buffer, main, returned⟩ := s
  cases hbuffer
  obtain ⟨hpos, hback, hcapacity⟩ := h.room
  change c.ring.fifo.length + (written.length + left) ≤ c.ring.capacity at hcapacity
  cases answer with
  | error ret =>
      refine ⟨⟨hpos, hback, ?_⟩, h.error, h.aligned, h.request, h.fresh, h.logical, nofun, h.delivers⟩
      change c.ring.fifo.length + (written.length + 0) ≤ c.ring.capacity
      omega
  | bytes n =>
      have hle : (data.piece pos (min n left)).length ≤ left := by
        rw [List.length_piece]
        omega
      refine ⟨⟨hpos, hback, ?_⟩, h.error, fun hlive => ?_, h.request, h.fresh, h.logical, nofun, h.delivers⟩
      · change c.ring.fifo.length + ((written ++ data.piece pos (min n left)).length +
          if (data.piece pos (min n left)).length = 0 then 0 else left - (data.piece pos (min n left)).length) ≤
            c.ring.capacity
        rw [List.length_append]
        split
        · omega
        · omega
      · rcases h.aligned hlive with ⟨base, hbytes, hat, hstop⟩ | hlost
        · refine .inl ⟨base, ?_, hat, ?_⟩
          · change c.ring.fifo ++ (written ++ _) = data.piece base (c.ring.fifo ++ (written ++ _)).length
            change c.ring.fifo ++ written = data.piece base (c.ring.fifo ++ written).length at hbytes
            change base + (c.ring.fifo ++ written).length = pos at hstop
            rw [← List.append_assoc, List.length_append, List.piece_add, ← hbytes, hstop, List.piece_length_self]
          · change base + (c.ring.fifo ++ (written ++ _)).length = pos + _
            change base + (c.ring.fifo ++ written).length = pos at hstop
            rw [← List.append_assoc, List.length_append, ← Nat.add_assoc, hstop]
        · exact absurd hlost.2.2.2 nofun

theorem Inv.publish {written : List β} (h : Inv data s) (hbuffer : s.buffer = .writes 0 written) :
    Inv data { s with
      c := { s.c with ring := { s.c.ring with fifo := s.c.ring.fifo ++ written } }
      buffer := .wrote written.length } := by
  obtain ⟨c, pos, buffer, main, returned⟩ := s
  cases hbuffer
  obtain ⟨hpos, hback, hcapacity⟩ := h.room
  change c.ring.fifo.length + (written.length + 0) ≤ c.ring.capacity at hcapacity
  refine ⟨⟨?_, hback, ?_⟩, h.error, fun hlive => ?_, h.request, h.fresh, h.logical, nofun, h.delivers⟩
  · rw [List.length_append]
    exact hpos.trans (Nat.le_add_right _ _)
  · rw [List.length_append]
    exact hcapacity
  · rcases h.aligned hlive with ⟨base, hbytes, hat, hstop⟩ | hlost
    · change c.ring.fifo ++ written = data.piece base (c.ring.fifo ++ written).length at hbytes
      refine .inl ⟨base, ?_, hat, ?_⟩
      · change (c.ring.fifo ++ written) ++ [] = data.piece base ((c.ring.fifo ++ written) ++ []).length
        rw [List.append_nil]
        exact hbytes
      · change base + ((c.ring.fifo ++ written) ++ []).length = pos
        rw [List.append_nil]
        exact hstop
    · exact absurd hlost.2.2.2 nofun

theorem Inv.wroteStep {ret : ℕ} (h : Inv data s) (hbuffer : s.buffer = .wrote ret) : Inv data (s.wroteStep ret) := by
  obtain ⟨c, pos, buffer, main, returned⟩ := s
  cases hbuffer
  rw [Threads.wroteStep]
  apply Inv.signalMain
  have herror := h.error
  change c.io_error ≤ 0 at herror
  split
  · refine ⟨h.room, ?_, fun hlive => ?_, h.request, h.fresh, h.logical, nofun, h.delivers⟩
    · change (if c.inner_io_error < 0 then c.inner_io_error else c.io_error) ≤ 0
      split
      · omega
      · exact herror
    · exact (h.aligned hlive).imp id fun hlost => ⟨hlost.1, hlost.2.1, rfl, rfl⟩
  · exact ⟨h.room, h.error, h.aligned, h.request, h.fresh, h.logical, nofun, h.delivers⟩

theorem Inv.bufferStep (h : Inv data s) {interrupted : Bool} {seek_ret : SeekRet} {left_at : ℕ} {answer : ReadAnswer}
    (hstep : s.bufferStep data interrupted seek_ret left_at answer = some s') : Inv data s' := by
  rw [Threads.bufferStep] at hstep
  split at hstep
  case h_1 hbuffer =>
      cases hstep
      exact h.loopStep hbuffer interrupted seek_ret left_at
  case h_2 written hbuffer =>
      cases hstep
      exact h.publish hbuffer
  case h_3 left written _ hbuffer =>
      cases hstep
      exact h.writeStep hbuffer answer
  case h_4 ret hbuffer =>
      cases hstep
      exact h.wroteStep hbuffer
  case h_5 => cases hstep

/-! ## The calls -/

/-- What does not depend on the thread of the calls, for a ring that is at `pos`. -/
structure Based (data : List β) (s : Threads β) (pos : ℕ) : Prop where
  room : s.c.ring.Room (s.buffer.written.length + s.buffer.left)
  error : s.c.io_error ≤ 0
  aligned : s.c.abort_request = false → s.c.ring.Ahead data s.buffer.written pos s.pos ∨ s.Lost
  ended : s.buffer.hasEnded = true → s.c.abort_request = true
  delivers : Delivers data s.returned

theorem ringPos_of_not (h : s.main.seeking = false) : s.ringPos = s.c.logical_pos :=
  if_neg fun hseeking => Bool.false_ne_true (h.symm.trans hseeking.1)

theorem Inv.based (h : Inv data s) : Based data s s.ringPos := ⟨h.room, h.error, h.aligned, h.ended, h.delivers⟩

theorem Inv.based_of_not (h : Inv data s) (hseeking : s.main.seeking = false) :
    Based data s s.c.logical_pos ∧ (s.c.abort_request = false → s.c.seek_request = false) := by
  refine ⟨ringPos_of_not hseeking ▸ h.based, fun hlive => ?_⟩
  by_contra hrequest
  have hmain := (h.request hlive (Bool.eq_true_of_not_eq_false hrequest)).1
  exact Bool.false_ne_true (hseeking.symm.trans hmain)

/-- A call returns. -/
theorem Based.returns (h : Based data s s.c.logical_pos)
    (hrequest : s.c.abort_request = false → s.c.seek_request = false) {r : Returned β}
    (hright : r.Right data (position s.returned)) (hnext : s.c.logical_pos = r.next (position s.returned)) :
    Inv data (s.returns r) where
  room := h.room
  error := h.error
  aligned := h.aligned
  request := fun hlive hreq => absurd ((hrequest hlive).symm.trans hreq) Bool.false_ne_true
  fresh := trivial
  logical := fun _ => hnext.trans (position_concat _ _).symm
  ended := h.ended
  delivers := h.delivers.concat hright

theorem next_seek (pos stop : ℕ) : stop = Returned.next (β := β) pos (.seek stop) := by
  rw [Returned.next, if_pos (Int.natCast_nonneg stop), Int.toNat_natCast]

theorem Based.readReturns (h : Based data s s.c.logical_pos)
    (hrequest : s.c.abort_request = false → s.c.seek_request = false) {r : ReadCall β}
    (hread : r.read_complete = false →
      Returned.Right data (position s.returned) (.read r.size r.ret r.dest) ∧
        s.c.logical_pos = position s.returned + r.dest.length) : Inv data (s.readReturns r) := by
  rw [Threads.readReturns]
  apply Inv.signalBuffer
  split
  case isTrue => exact h.returns hrequest trivial (next_seek _ _)
  case isFalse hcomplete =>
      obtain ⟨hright, hnext⟩ := hread (Bool.eq_false_iff.mpr hcomplete)
      exact h.returns hrequest hright hnext

theorem Based.readWaits (h : Based data s s.c.logical_pos)
    (hrequest : s.c.abort_request = false → s.c.seek_request = false) {r : ReadCall β}
    (hfresh : r.read_complete = false → r.dest = [] ∧ r.ret = 0 ∧ r.size = r.to_read)
    (hlogical : r.read_complete = false → s.c.logical_pos = position s.returned) :
    Inv data (signalBuffer { s with main := .readWaits r }) := by
  apply Inv.signalBuffer
  exact ⟨h.room, h.error, h.aligned, fun hlive hreq => absurd ((hrequest hlive).symm.trans hreq) Bool.false_ne_true,
    hfresh, hlogical, h.ended, h.delivers⟩

/-- What is copied are the next bytes of the stream. -/
theorem Based.copies (h : Based data s s.c.logical_pos)
    (hrequest : s.c.abort_request = false → s.c.seek_request = false)
    (hlive : s.c.abort_request = false) {r : ReadCall β}
    (hfresh : r.read_complete = false → r.dest = [] ∧ r.ret = 0 ∧ r.size = r.to_read)
    (hlogical : r.read_complete = false → s.c.logical_pos = position s.returned)
    {n : ℕ} (hn : n = (min (r.to_read : ℤ) s.c.ring.ring_size).toNat) (hpos : n > 0) :
    let read := s.c.ring.ring_generic_read n
    let s' := { s with c := { s.c with ring := read.1, logical_pos := s.c.logical_pos + n } }
    let r' := { r with
      dest := if r.read_complete then r.dest else r.dest ++ read.2
      to_read := r.to_read - n
      ret := r.size - (r.to_read - n : ℕ) }
    Inv data (if r'.to_read = 0 ∨ !r'.read_complete then s'.readReturns r'
      else signalBuffer { s' with main := .readWaits r' }) := by
  intro read s' r'
  have hsize : (n : ℤ) ≤ s.c.ring.ring_size := by omega
  have hle : n ≤ r.to_read := by omega
  have hroom := h.room
  have hahead : s.c.ring.Ahead data s.buffer.written s.c.logical_pos s.pos := by
    refine (h.aligned hlive).resolve_right fun hlost => ?_
    rw [RingBuffer.ring_size, hlost.1, hlost.2.1, List.length_nil] at hsize
    omega
  obtain ⟨hbytes, hlength, hahead'⟩ := hahead.read hroom hsize
  have hbased : Based data s' (s.c.logical_pos + n) :=
    ⟨hroom.read hsize, h.error, fun _ => .inl hahead', h.ended, h.delivers⟩
  split
  case isTrue =>
      refine hbased.readReturns hrequest fun hcomplete => ?_
      change r.read_complete = false at hcomplete
      obtain ⟨hdest, _, hall⟩ := hfresh hcomplete
      have hread : r'.dest = read.2 := by
        change (if r.read_complete then r.dest else r.dest ++ read.2) = read.2
        rw [if_neg (Bool.eq_false_iff.mp hcomplete), hdest, List.nil_append]
      have hret : r'.ret = n := by
        change (r.size : ℤ) - (r.to_read - n : ℕ) = n
        omega
      rw [hread, hret, hlength]
      refine ⟨⟨?_, .inl ⟨?_, ?_, fun _ => ?_⟩⟩, congrArg (· + n) (hlogical hcomplete)⟩
      · rw [hlength, ← show s.c.logical_pos = position s'.returned from hlogical hcomplete]
        exact hbytes
      · rw [hlength]
      · change read.2.length ≤ r.size
        rw [hlength, hall]
        exact hle
      · rw [hlength]
        exact hpos
  case isFalse hwaits =>
      have hcomplete : r.read_complete = true := by
        by_contra hnot
        exact hwaits (.inr (by rw [show r'.read_complete = r.read_complete from rfl, Bool.eq_false_iff.mpr hnot]; rfl))
      refine hbased.readWaits hrequest (fun hnot => ?_) fun hnot => ?_
      · exact absurd (hnot.symm.trans hcomplete) Bool.false_ne_true
      · exact absurd (hnot.symm.trans hcomplete) Bool.false_ne_true

theorem Based.backwards (h : Based data s s.c.logical_pos)
    (hrequest : s.c.abort_request = false → s.c.seek_request = false) {p : ℤ}
    (hback : p ≥ s.c.logical_pos - s.c.ring.ring_size_of_read_back) (hle : p ≤ s.c.logical_pos) (hpos : 0 ≤ p) :
    Inv data (Threads.returns { s with
      c := { s.c with ring := s.c.ring.ring_drain (p - s.c.logical_pos), logical_pos := p.toNat } } (.seek p)) := by
  obtain ⟨hread, hcapacity, hroom⟩ := h.room
  rw [RingBuffer.ring_size_of_read_back] at hback
  have hring : (s.c.ring.ring_drain (p - s.c.logical_pos)).Room (s.buffer.written.length + s.buffer.left) := by
    refine ⟨?_, ?_, hroom⟩
    · change ((s.c.ring.read_pos : ℤ) + (p - s.c.logical_pos)).toNat ≤ s.c.ring.fifo.length
      omega
    · change ((s.c.ring.read_pos : ℤ) + (p - s.c.logical_pos)).toNat ≤ s.c.ring.read_back_capacity
      omega
  have hbased : Based data { s with
      c := { s.c with ring := s.c.ring.ring_drain (p - s.c.logical_pos), logical_pos := p.toNat } } p.toNat := by
    refine ⟨hring, h.error, fun hlive => ?_, h.ended, h.delivers⟩
    rcases h.aligned hlive with ⟨base, hbytes, hat, hstop⟩ | ⟨hfifo, hzero, heof, hwriting⟩
    · refine .inl ⟨base, hbytes, ?_, hstop⟩
      change base + ((s.c.ring.read_pos : ℤ) + (p - s.c.logical_pos)).toNat = p.toNat
      omega
    · refine .inr ⟨hfifo, ?_, heof, hwriting⟩
      change ((s.c.ring.read_pos : ℤ) + (p - s.c.logical_pos)).toNat = 0
      omega
  exact hbased.returns hrequest (r := .seek p) trivial (if_pos hpos).symm

/-- The loop of a read takes what is there, and otherwise returns an error or waits. -/
theorem Inv.readLoop {r : ReadCall β} (h : Inv data s) (hmain : s.main = .reads r) (interrupted : Bool) :
    Inv data (s.readLoop r interrupted) := by
  have hseeking : s.main.seeking = false := by rw [hmain]; rfl
  obtain ⟨hbased, hrequest⟩ := h.based_of_not hseeking
  have hfresh : r.read_complete = false → r.dest = [] ∧ r.ret = 0 ∧ r.size = r.to_read := by
    have hmainFresh := h.fresh
    rw [hmain] at hmainFresh
    exact hmainFresh
  have hlogical : r.read_complete = false → s.c.logical_pos = position s.returned := by
    intro hcomplete
    exact h.logical (by rw [hmain]; exact hcomplete)
  -- Nothing was read by a call that returns an error, or that was asked for nothing.
  have hnothing : ∀ ret : ℤ, r.read_complete = false → (ret = 0 ∧ r.to_read = 0 ∨ ret < 0) →
      Returned.Right data (position s.returned) (.read r.size ret r.dest) ∧
        s.c.logical_pos = position s.returned + r.dest.length := by
    intro ret hcomplete hret
    obtain ⟨hdest, _, hsize⟩ := hfresh hcomplete
    rw [hdest, hsize]
    refine ⟨⟨rfl, hret.imp (fun hzero => ?_) fun hlt => ⟨rfl, hlt⟩⟩, hlogical hcomplete⟩
    exact ⟨hzero.1, Nat.zero_le _, fun hpos => absurd hzero.2 hpos.ne'⟩
  rw [Threads.readLoop]
  split
  case isTrue hzero =>
      exact hbased.readReturns hrequest fun hcomplete => hnothing r.ret hcomplete (.inl ⟨(hfresh hcomplete).2.1, hzero⟩)
  case isFalse hleft =>
      split
      case isTrue habort =>
          have haborted : Based data { s with c := { s.c with abort_request := true } } s.c.logical_pos :=
            ⟨hbased.room, hbased.error, fun hlive => absurd hlive.symm Bool.false_ne_true, fun _ => rfl,
              hbased.delivers⟩
          refine haborted.readReturns (fun hlive => absurd hlive.symm Bool.false_ne_true) fun hcomplete => ?_
          exact hnothing AVERROR_EXIT hcomplete (.inr (by decide))
      case isFalse habort =>
          have hlive : s.c.abort_request = false := Bool.eq_false_iff.mpr fun habort' => habort (.inl habort')
          dsimp only
          split
          case isTrue hcopy =>
              exact hbased.copies hrequest hlive hfresh hlogical rfl hcopy
          case isFalse hcopy =>
              split
              case isTrue heof =>
                  refine hbased.readReturns hrequest fun hcomplete => ?_
                  have herror := hbased.error
                  have hret :
                      (if r.ret ≤ 0 then (if s.c.io_error ≠ 0 then s.c.io_error else AVERROR_EOF) else r.ret) < 0 := by
                    rw [(hfresh hcomplete).2.1, if_pos (Int.le_refl 0)]
                    split
                    · omega
                    · decide
                  exact hnothing _ hcomplete (.inr hret)
              case isFalse heof => exact hbased.readWaits hrequest hfresh hlogical

theorem Inv.seekTo (h : Inv data s) (hmain : s.main = .idle) (new_logical_pos : ℤ) :
    Inv data (s.seekTo new_logical_pos) := by
  have hseeking : s.main.seeking = false := by rw [hmain]; rfl
  obtain ⟨hbased, hrequest⟩ := h.based_of_not hseeking
  have hlogical : s.c.logical_pos = position s.returned := h.logical (by rw [hmain]; rfl)
  have hinvalid : Inv data (s.returns (.seek (-EINVAL))) := hbased.returns hrequest trivial hlogical
  rw [Threads.seekTo]
  dsimp only
  split
  · exact hinvalid
  · split
    case isTrue => exact hbased.returns hrequest trivial (next_seek _ _)
    case isFalse hother =>
        split
        case isTrue hfast =>
            split
            case isTrue hforwards =>
                exact ⟨h.room, h.error, hbased.aligned, fun hlive hreq => absurd ((hrequest hlive).symm.trans hreq)
                  Bool.false_ne_true, nofun, nofun, h.ended, h.delivers⟩
            case isFalse hforwards => exact hbased.backwards hrequest hfast.1 (by omega) (by omega)
        case isFalse =>
            split
            · exact hinvalid
            · split
              · exact hinvalid
              · refine ⟨h.room, h.error, fun hlive => ?_, fun _ _ => ⟨rfl, rfl⟩, trivial, fun _ => hlogical, h.ended,
                  h.delivers⟩
                exact hbased.aligned hlive

theorem Inv.async_seek (h : Inv data s) (hmain : s.main = .idle) (pos : ℤ) (whence : Whence) :
    Inv data (s.async_seek pos whence) := by
  have hseeking : s.main.seeking = false := by rw [hmain]; rfl
  obtain ⟨hbased, hrequest⟩ := h.based_of_not hseeking
  have hlogical : s.c.logical_pos = position s.returned := h.logical (by rw [hmain]; rfl)
  cases whence with
  | AVSEEK_SIZE => exact hbased.returns hrequest trivial hlogical
  | SEEK_CUR => exact h.seekTo hmain _
  | SEEK_SET => exact h.seekTo hmain _
  | other => exact hbased.returns hrequest trivial hlogical

/-- After a seek in the background the calls go on at the position that the inner stream has answered. -/
theorem Inv.seekLoop (h : Inv data s) (hmain : s.main = .seeks) (interrupted : Bool) :
    Inv data (s.seekLoop interrupted) := by
  have hlogical : s.c.logical_pos = position s.returned := h.logical (by rw [hmain]; rfl)
  have hbased := h.based
  rw [Threads.seekLoop]
  split
  case isTrue =>
      have haborted : Based data { s with c := { s.c with abort_request := true } } s.c.logical_pos :=
        ⟨hbased.room, hbased.error, fun hlive => absurd hlive.symm Bool.false_ne_true, fun _ => rfl, hbased.delivers⟩
      exact haborted.returns (fun hlive => absurd hlive.symm Bool.false_ne_true) trivial hlogical
  case isFalse habort =>
      have hlive : s.c.abort_request = false := Bool.eq_false_iff.mpr fun habort' => habort (.inl habort')
      split
      case isTrue hcompleted =>
          have hrequest : s.c.seek_request = false := by
            by_contra hrequest
            have hnot := (h.request hlive (Bool.eq_true_of_not_eq_false hrequest)).2
            exact Bool.false_ne_true (hnot.symm.trans hcompleted)
          have hpos : s.ringPos = if s.c.seek_ret ≥ 0 then s.c.seek_ret.toNat else s.c.logical_pos := by
            rw [ringPos]
            exact if_congr ⟨fun h => h.2.2, fun hret => ⟨by rw [hmain]; rfl, hcompleted, hret⟩⟩ rfl rfl
          rw [hpos] at hbased
          have hthere : Based data { s with
              c := { s.c with
                logical_pos := if s.c.seek_ret ≥ 0 then s.c.seek_ret.toNat else s.c.logical_pos } }
              (if s.c.seek_ret ≥ 0 then s.c.seek_ret.toNat else s.c.logical_pos) :=
            ⟨hbased.room, hbased.error, hbased.aligned, hbased.ended, hbased.delivers⟩
          refine hthere.returns (fun _ => hrequest) (r := .seek s.c.seek_ret) trivial ?_
          rw [Returned.next, ← hlogical]
      case isFalse =>
          apply Inv.signalBuffer
          have hseeking : s.main.seeking = true := by rw [hmain]; rfl
          refine ⟨h.room, h.error, fun hlive => ?_, fun hlive hreq => ⟨rfl, (h.request hlive hreq).2⟩, trivial,
            fun _ => hlogical, h.ended, h.delivers⟩
          have haligned := h.aligned hlive
          rw [Aligned, ringPos, hseeking] at haligned
          exact haligned

theorem Inv.step (h : Inv data s) {e : Event} (hstep : s.step data e = some s') : Inv data s' := by
  cases e with
  | read size =>
      simp only [Threads.step] at hstep
      split at hstep
      case h_1 hmain =>
          cases hstep
          have hseeking : s.main.seeking = false := by rw [hmain]; rfl
          obtain ⟨hbased, hrequest⟩ := h.based_of_not hseeking
          refine ⟨h.room, h.error, hbased.aligned, fun hlive hreq => absurd ((hrequest hlive).symm.trans hreq)
            Bool.false_ne_true, fun _ => ⟨rfl, rfl, rfl⟩, fun _ => h.logical (by rw [hmain]; rfl), h.ended, h.delivers⟩
      case h_2 => cases hstep
  | seek pos whence =>
      simp only [Threads.step] at hstep
      split at hstep
      case h_1 hmain =>
          cases hstep
          exact h.async_seek hmain pos whence
      case h_2 => cases hstep
  | main interrupted =>
      simp only [Threads.step, mainStep] at hstep
      split at hstep
      case h_1 r hmain =>
          cases hstep
          exact h.readLoop hmain interrupted
      case h_2 hmain =>
          cases hstep
          exact h.seekLoop hmain interrupted
      case h_3 => cases hstep
  | buffer interrupted seek_ret left_at answer => exact h.bufferStep hstep
  | wakeMain =>
      cases hstep
      exact h.signalMain
  | wakeBuffer =>
      cases hstep
      exact h.signalBuffer

/-- In every interleaving of the two threads each read that returns gives the next bytes of the stream, from the
position that the calls before it have led to, one at least if it was asked for any; or an error and no bytes. The ring
is never written over. -/
theorem bytes_in_order (data : List β) (forwards_capacity backwards_capacity : ℕ) (logical_size : ℤ)
    (events : List Event) :
    Always (step data) (fun s => Delivers data s.returned ∧ s.c.ring.Room (s.buffer.written.length + s.buffer.left))
      (async_open forwards_capacity backwards_capacity logical_size) events :=
  always_of_invariant (fun _ _ _ h hstep => Inv.step h hstep) (fun _ h => ⟨h.delivers, h.room⟩)
    (inv_open forwards_capacity backwards_capacity logical_size) events

/-! ## The waits -/

/-- A call that waits does so for a thread that goes on. -/
def Awaited (s : Threads β) : Prop :=
  s.main.waiting = true → s.buffer.waiting = false ∧ s.buffer.hasEnded = false

theorem awaited_of_not (h : s.main.waiting = false) : s.Awaited :=
  fun hwaits => absurd (h.symm.trans hwaits) Bool.false_ne_true

theorem awaited_signalMain (s : Threads β) : s.signalMain.Awaited := by
  apply awaited_of_not
  rw [Threads.signalMain]
  split
  · rfl
  · rfl
  case h_3 hread hseek =>
      cases hmain : s.main with
      | idle => rfl
      | reads r => rfl
      | seeks => rfl
      | readWaits r => exact absurd hmain (hread r)
      | seekWaits => exact absurd hmain hseek

theorem awaited_signalBuffer (h : s.buffer.hasEnded = false) : s.signalBuffer.Awaited := by
  intro _
  rw [Threads.signalBuffer]
  split
  · exact ⟨rfl, rfl⟩
  case h_2 hwaits =>
      refine ⟨?_, h⟩
      cases hbuffer : s.buffer with
      | waits => exact absurd hbuffer hwaits
      | loop => rfl
      | writes left written => rfl
      | wrote ret => rfl
      | ended => rfl

theorem awaited_readReturns (s : Threads β) (r : ReadCall β) : (s.readReturns r).Awaited := by
  apply awaited_of_not
  rw [Threads.readReturns, Threads.signalBuffer]
  split
  · rfl
  · rfl

theorem awaited_readLoop (h : Inv data s) (r : ReadCall β) (interrupted : Bool) :
    (s.readLoop r interrupted).Awaited := by
  rw [Threads.readLoop]
  split
  · exact awaited_readReturns _ _
  · split
    · exact awaited_readReturns _ _
    case isFalse habort =>
        have hended : s.buffer.hasEnded = false :=
          Bool.eq_false_iff.mpr fun hended => habort (.inl (h.ended hended))
        dsimp only
        split
        · split
          · exact awaited_readReturns _ _
          · exact awaited_signalBuffer hended
        · split
          · exact awaited_readReturns _ _
          · exact awaited_signalBuffer hended

theorem awaited_seekLoop (h : Inv data s) (interrupted : Bool) : (s.seekLoop interrupted).Awaited := by
  rw [Threads.seekLoop]
  split
  · exact awaited_of_not rfl
  case isFalse habort =>
      have hended : s.buffer.hasEnded = false :=
        Bool.eq_false_iff.mpr fun hended => habort (.inl (h.ended hended))
      split
      · exact awaited_of_not rfl
      · exact awaited_signalBuffer hended

theorem awaited_async_seek (s : Threads β) (pos : ℤ) (whence : Whence) : (s.async_seek pos whence).Awaited := by
  have hseekTo : ∀ p, (s.seekTo p).Awaited := by
    intro p
    apply awaited_of_not
    rw [Threads.seekTo]
    dsimp only
    repeat' split
    all_goals rfl
  cases whence with
  | AVSEEK_SIZE => exact awaited_of_not rfl
  | SEEK_CUR => exact hseekTo _
  | SEEK_SET => exact hseekTo _
  | other => exact awaited_of_not rfl

theorem awaited_bufferStep {interrupted : Bool} {seek_ret : SeekRet} {left_at : ℕ} {answer : ReadAnswer}
    (hstep : s.bufferStep data interrupted seek_ret left_at answer = some s') : s'.Awaited := by
  rw [Threads.bufferStep] at hstep
  split at hstep
  case h_1 hbuffer =>
      cases hstep
      rw [Threads.loopStep]
      split
      · exact awaited_signalMain _
      · split
        · exact awaited_signalMain _
        · split
          · exact awaited_signalMain _
          · exact fun _ => ⟨rfl, rfl⟩
  case h_2 =>
      cases hstep
      exact fun _ => ⟨rfl, rfl⟩
  case h_3 =>
      cases hstep
      cases answer with
      | bytes n => exact fun _ => ⟨rfl, rfl⟩
      | error ret => exact fun _ => ⟨rfl, rfl⟩
  case h_4 =>
      cases hstep
      exact awaited_signalMain _
  case h_5 => cases hstep

theorem awaited_step (h : Inv data s) (hawaited : s.Awaited) {e : Event} (hstep : s.step data e = some s') :
    s'.Awaited := by
  cases e with
  | read size =>
      simp only [Threads.step] at hstep
      split at hstep
      · cases hstep
        exact awaited_of_not rfl
      · cases hstep
  | seek pos whence =>
      simp only [Threads.step] at hstep
      split at hstep
      · cases hstep
        exact awaited_async_seek s pos whence
      · cases hstep
  | main interrupted =>
      simp only [Threads.step, mainStep] at hstep
      split at hstep
      · cases hstep
        exact awaited_readLoop h _ interrupted
      · cases hstep
        exact awaited_seekLoop h interrupted
      · cases hstep
  | buffer interrupted seek_ret left_at answer => exact awaited_bufferStep hstep
  | wakeMain =>
      cases hstep
      exact awaited_signalMain s
  | wakeBuffer =>
      cases hstep
      cases hbuffer : s.buffer with
      | ended =>
          rw [Threads.signalBuffer, hbuffer]
          exact hawaited
      | loop => exact awaited_signalBuffer (by rw [hbuffer]; rfl)
      | waits => exact awaited_signalBuffer (by rw [hbuffer]; rfl)
      | writes left written => exact awaited_signalBuffer (by rw [hbuffer]; rfl)
      | wrote ret => exact awaited_signalBuffer (by rw [hbuffer]; rfl)

end Threads

end MyDemo.Ijkmedia.Async

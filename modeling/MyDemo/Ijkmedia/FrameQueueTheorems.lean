import MyDemo.Ijkmedia.FrameQueue
import MyDemo.Lib.Transition

/-!
# The writer and the reader of the frame queue
-/

namespace MyDemo.Ijkmedia

open Transition

variable {α : Type*}

namespace Display

/-! ## The frames in the ring -/

def WriterPc.frame : WriterPc α → List (Option α)
  | .pushing v => [v]
  | _ => []

/-- The slots that the writer is at. -/
def WriterPc.claims : WriterPc α → ℕ
  | .idle => 0
  | _ => 1

def ReaderPc.steps : ReaderPc → ℕ
  | .moved => 1
  | _ => 0

def ReaderPc.gone : ReaderPc → ℕ
  | .cleared => 1
  | _ => 0

/-- How often `rindex` has been moved. -/
def moves (s : Display α) : ℕ := s.taken - s.f.rindex_shown + ReaderPc.steps s.reader

/-- The frames from `rindex` to `windex`. -/
def live (s : Display α) : List (Option α) := s.pushed.drop s.moves ++ WriterPc.frame s.writer

/-- The frames are in the ring, without the one that the reader has cleared. -/
def InSlots (s : Display α) : Prop :=
  Ring.Holds s.f.queue (s.moves + ReaderPc.gone s.reader) (s.live.drop (ReaderPc.gone s.reader))

structure Inv (n : ℕ) (keep : Bool) (s : Display α) : Prop where
  max_size : s.f.max_size = n
  keep_last : s.f.keep_last = keep
  length : s.f.queue.length = n
  shown_le : s.f.rindex_shown ≤ s.taken
  shown : s.f.rindex_shown = if keep ∧ 0 < s.taken then 1 else 0
  going : s.reader ≠ .idle → keep = true → 0 < s.taken
  taken : s.taken + ReaderPc.steps s.reader + ReaderPc.gone s.reader ≤ s.pushed.length
  size : s.f.size = s.pushed.length - s.moves + ReaderPc.steps s.reader
  rindex : s.f.rindex = s.moves % n
  windex : s.f.windex = (s.moves + s.live.length) % n
  room : s.f.size + WriterPc.claims s.writer ≤ n
  slots : s.InSlots

variable {n : ℕ} {keep : Bool} {s s' : Display α}

theorem inv_start (n : ℕ) (keep : Bool) : Inv (min n FRAME_QUEUE_SIZE) keep (start n keep : Display α) := by
  refine ⟨rfl, rfl, List.length_replicate, le_refl _, ?_, fun h => absurd rfl h, le_refl _, rfl, ?_, ?_,
    Int.natCast_nonneg _, .nil⟩
  · exact (if_neg fun h => absurd h.2 (lt_irrefl _)).symm
  · exact (Nat.zero_mod _).symm
  · exact (Nat.zero_mod _).symm

theorem Inv.moved (h : Inv n keep s) : s.moves + ReaderPc.gone s.reader ≤ s.pushed.length := by
  have htaken := h.taken
  rw [moves]
  omega

theorem Inv.length_live (h : Inv n keep s) :
    (s.live.length : ℤ) + ReaderPc.steps s.reader = s.f.size + (WriterPc.frame s.writer).length := by
  have hmoved := h.moved
  have hsize := h.size
  rw [live, List.length_append, List.length_drop]
  omega

theorem gone_le_length (h : Inv n keep s) : ReaderPc.gone s.reader ≤ s.live.length := by
  have hmoved := h.moved
  rw [live, List.length_append, List.length_drop]
  omega

/-! ## The writer -/

/-- A write to the slot of the writer leaves the frames. -/
theorem Inv.write (h : Inv n keep s) (hw : s.writer = .writing) (v : Option α) :
    Inv n keep { s with f := s.f.write v } := by
  have hlen := h.length_live
  have hgone := gone_le_length h
  have hroom := h.room
  have hframe : WriterPc.frame s.writer = [] := by rw [hw]; rfl
  rw [hw] at hroom
  simp only [WriterPc.claims] at hroom
  rw [hframe, List.length_nil] at hlen
  refine ⟨h.max_size, h.keep_last, by rw [FrameQueue.write, List.length_set, h.length], h.shown_le, h.shown, h.going,
    h.taken, h.size, h.rindex, h.windex, h.room, ?_⟩
  have hindex : s.f.windex =
      (s.moves + ReaderPc.gone s.reader + (s.live.length - ReaderPc.gone s.reader)) % s.f.queue.length := by
    rw [h.windex, h.length, Nat.add_assoc, Nat.add_sub_cancel' hgone]
  change Ring.Holds (s.f.queue.set s.f.windex v) _ (s.live.drop _)
  rw [hindex]
  refine Ring.Holds.set h.slots ?_ ?_ v
  · rw [List.length_drop]
  · rw [h.length]
    omega

theorem Inv.push (h : Inv n keep s) (hw : s.writer = .writing) :
    Inv n keep { s with f := s.f.pushIndex, writer := .pushing s.f.queue[s.f.windex]?.join } := by
  have hlen := h.length_live
  have hgone := gone_le_length h
  have hroom := h.room
  have hframe : WriterPc.frame s.writer = [] := by rw [hw]; rfl
  rw [hw] at hroom
  simp only [WriterPc.claims] at hroom
  rw [hframe, List.length_nil] at hlen
  have hn : 0 < n := by omega
  have hlt : s.f.windex < s.f.queue.length := by
    rw [h.windex, h.length]
    exact Nat.mod_lt _ hn
  have hnew : live { s with f := s.f.pushIndex, writer := .pushing s.f.queue[s.f.windex]?.join } =
      s.live ++ [s.f.queue[s.f.windex]?.join] := by
    rw [live, live, hframe, List.append_nil]
    rfl
  refine ⟨h.max_size, h.keep_last, h.length, h.shown_le, h.shown, h.going, h.taken, h.size, h.rindex, ?_, hroom, ?_⟩
  · rw [hnew, List.length_append, List.length_singleton, ← Nat.add_assoc, ← Ring.next_mod hn]
    change Ring.next s.f.max_size s.f.windex = Ring.next n ((s.moves + s.live.length) % n)
    rw [h.max_size, h.windex]
  · rw [InSlots, hnew, List.drop_append_of_le_length hgone]
    refine Ring.Holds.append h.slots fun i hi => ?_
    rw [List.length_singleton, Nat.lt_one_iff] at hi
    rw [hi, List.length_drop, Nat.add_zero, Nat.add_assoc, Nat.add_sub_cancel' hgone]
    change s.f.queue[(s.moves + s.live.length) % s.f.queue.length]? = some s.f.queue[s.f.windex]?.join
    rw [h.length, ← h.windex, List.getElem?_eq_getElem hlt]
    rfl

theorem Inv.pushed (h : Inv n keep s) {v : Option α} (hw : s.writer = .pushing v) :
    Inv n keep { s with f := s.f.pushSize, writer := .idle, pushed := s.pushed ++ [v] } := by
  have hmoved := h.moved
  have hroom := h.room
  rw [hw] at hroom
  simp only [WriterPc.claims] at hroom
  have hlive : live { s with f := s.f.pushSize, writer := .idle, pushed := s.pushed ++ [v] } = s.live := by
    have hdrop : (s.pushed ++ [v]).drop s.moves = s.pushed.drop s.moves ++ [v] :=
      List.drop_append_of_le_length (by omega)
    rw [live, live, hw]
    exact (List.append_nil _).trans hdrop
  have hlength : (s.pushed ++ [v]).length = s.pushed.length + 1 := by rw [List.length_append, List.length_singleton]
  refine ⟨h.max_size, h.keep_last, h.length, h.shown_le, h.shown, h.going, ?_, ?_, h.rindex, ?_, ?_, ?_⟩
  · have htaken := h.taken
    change s.taken + ReaderPc.steps s.reader + ReaderPc.gone s.reader ≤ (s.pushed ++ [v]).length
    omega
  · have hsize := h.size
    change s.f.size + 1 = ((s.pushed ++ [v]).length : ℤ) - s.moves + ReaderPc.steps s.reader
    omega
  · rw [hlive]
    exact h.windex
  · change s.f.size + 1 + 0 ≤ n
    omega
  · rw [InSlots, hlive]
    exact h.slots

/-! ## The reader -/

theorem Inv.taken_lt (h : Inv n keep s) (hidle : s.reader = .idle) (hremain : s.f.frame_queue_nb_remaining > 0) :
    s.taken < s.pushed.length := by
  have hle := h.shown_le
  have hsize := h.size
  rw [moves, hidle] at hsize
  simp only [ReaderPc.steps] at hsize
  rw [FrameQueue.frame_queue_nb_remaining] at hremain
  omega

/-- The first frame is shown, and stays. -/
theorem Inv.show (h : Inv n keep s) (hidle : s.reader = .idle) (hremain : s.f.frame_queue_nb_remaining > 0)
    (hkeep : keep = true) (hshown : s.f.rindex_shown = 0) :
    Inv n keep { s with f := { s.f with rindex_shown := 1 }, taken := s.taken + 1 } := by
  have htaken : s.taken = 0 := by
    have heq := h.shown
    rw [hshown] at heq
    split at heq
    case isTrue => cases heq
    case isFalse hnot => exact Nat.eq_zero_of_not_pos fun hpos => hnot ⟨hkeep, hpos⟩
  have hmoves : moves { s with f := { s.f with rindex_shown := 1 }, taken := s.taken + 1 } = s.moves := by
    rw [moves, moves, hshown, htaken]
    rfl
  have hlive : live { s with f := { s.f with rindex_shown := 1 }, taken := s.taken + 1 } = s.live := by
    rw [live, live, hmoves]
  refine ⟨h.max_size, h.keep_last, h.length, Nat.le_add_left 1 _, ?_, fun hne => absurd hidle hne, ?_, ?_, ?_, ?_,
    h.room, ?_⟩
  · exact (if_pos ⟨hkeep, Nat.succ_pos _⟩).symm
  · change s.taken + 1 + ReaderPc.steps s.reader + ReaderPc.gone s.reader ≤ s.pushed.length
    have hlt := h.taken_lt hidle hremain
    rw [hidle]
    exact hlt
  · rw [hmoves]
    exact h.size
  · rw [hmoves]
    exact h.rindex
  · rw [hmoves, hlive]
    exact h.windex
  · rw [InSlots, hmoves, hlive]
    exact h.slots

theorem Inv.clear (h : Inv n keep s) (hidle : s.reader = .idle) (hremain : s.f.frame_queue_nb_remaining > 0)
    (hkeep : keep = true → s.f.rindex_shown ≠ 0) :
    Inv n keep { s with f := s.f.frame_queue_unref_item, reader := .cleared } := by
  have hsize := h.size
  have hslots := h.slots
  have hlen := h.length_live
  have hclaims : (WriterPc.frame s.writer).length ≤ WriterPc.claims s.writer := by
    cases s.writer with
    | idle => exact le_refl _
    | writing => exact Nat.zero_le _
    | pushing v => exact le_refl _
  have hroom := h.room
  have hn : 0 < n := by
    have hlt := h.taken_lt hidle hremain
    have hshown := h.shown_le
    rw [FrameQueue.frame_queue_nb_remaining] at hremain
    omega
  rw [hidle] at hlen
  simp only [ReaderPc.steps] at hlen
  rw [hidle] at hsize
  have hmoves : moves { s with f := s.f.frame_queue_unref_item, reader := .cleared } = s.moves := by
    rw [moves, moves, hidle]
    rfl
  have hlive : live { s with f := s.f.frame_queue_unref_item, reader := .cleared } = s.live := by
    rw [live, live, hmoves]
  have hlt := h.taken_lt hidle hremain
  refine ⟨h.max_size, h.keep_last, by rw [FrameQueue.frame_queue_unref_item, List.length_set, h.length], h.shown_le,
    h.shown, fun _ hk => ?_, ?_, ?_, ?_, ?_, h.room, ?_⟩
  · exact Nat.pos_of_ne_zero fun hzero => hkeep hk (Nat.le_zero.mp (hzero ▸ h.shown_le))
  · exact hlt
  · rw [hmoves]
    exact hsize
  · rw [hmoves]
    exact h.rindex
  · rw [hmoves, hlive]
    exact h.windex
  · rw [InSlots, hmoves, hlive]
    rw [InSlots, hidle] at hslots
    change Ring.Holds s.f.queue s.moves s.live at hslots
    -- the slot of `rindex` is the last one of the ring after the next frame
    have hindex : s.f.rindex = (s.moves + 1 + (n - 1)) % s.f.queue.length := by
      rw [h.rindex, h.length, Nat.add_assoc, Nat.add_sub_cancel' hn, Nat.add_mod_right]
    change Ring.Holds (s.f.queue.set s.f.rindex none) (s.moves + 1) (s.live.drop 1)
    rw [hindex]
    refine Ring.Holds.set (hslots.drop 1) ?_ ?_ none
    · rw [List.length_drop]
      omega
    · rw [h.length]
      omega

theorem Inv.move (h : Inv n keep s) (hcleared : s.reader = .cleared) :
    Inv n keep { s with f := s.f.nextIndex, reader := .moved } := by
  have hmoved := h.moved
  have hsize := h.size
  have hslots := h.slots
  have hlen := h.length_live
  rw [hcleared] at hmoved hsize hlen
  simp only [ReaderPc.gone, ReaderPc.steps] at hmoved hsize hlen
  have hroom := h.room
  have hn : 0 < n := by omega
  have hmoves : moves { s with f := s.f.nextIndex, reader := .moved } = s.moves + 1 := by
    rw [moves, moves, hcleared]
    rfl
  have hlive : live { s with f := s.f.nextIndex, reader := .moved } = s.live.drop 1 := by
    rw [live, live, hmoves, List.drop_append_of_le_length (by rw [List.length_drop]; omega), List.drop_drop]
  refine ⟨h.max_size, h.keep_last, h.length, h.shown_le, h.shown, fun _ => h.going (by rw [hcleared]; nofun), ?_, ?_,
    ?_, ?_, h.room, ?_⟩
  · have htaken := h.taken
    rw [hcleared] at htaken
    exact htaken
  · rw [hmoves]
    change s.f.size = (s.pushed.length : ℤ) - (s.moves + 1 : ℕ) + 1
    omega
  · rw [hmoves, ← Ring.next_mod hn, ← h.rindex, ← h.max_size]
    rfl
  · rw [hmoves, hlive, List.length_drop, Nat.add_assoc, Nat.add_sub_cancel' (by omega)]
    exact h.windex
  · rw [InSlots, hmoves, hlive]
    rw [InSlots, hcleared] at hslots
    exact hslots

theorem Inv.next (h : Inv n keep s) (hmoved : s.reader = .moved) :
    Inv n keep { s with f := s.f.nextSize, reader := .idle, taken := s.taken + 1 } := by
  have hle := h.shown_le
  have hsize := h.size
  have hslots := h.slots
  rw [hmoved] at hsize
  have hmoves : moves { s with f := s.f.nextSize, reader := .idle, taken := s.taken + 1 } = s.moves := by
    rw [moves, moves, hmoved]
    change s.taken + 1 - s.f.rindex_shown + 0 = s.taken - s.f.rindex_shown + 1
    omega
  have hlive : live { s with f := s.f.nextSize, reader := .idle, taken := s.taken + 1 } = s.live := by
    rw [live, live, hmoves]
  refine ⟨h.max_size, h.keep_last, h.length, hle.trans (Nat.le_succ _), ?_, fun hne => absurd rfl hne, ?_, ?_, ?_, ?_,
    ?_, ?_⟩
  · change s.f.rindex_shown = if keep = true ∧ 0 < s.taken + 1 then 1 else 0
    rw [h.shown]
    by_cases hkeep : keep = true
    · rw [if_pos ⟨hkeep, h.going (by rw [hmoved]; nofun) hkeep⟩, if_pos ⟨hkeep, Nat.succ_pos _⟩]
    · rw [if_neg fun hk => hkeep hk.1, if_neg fun hk => hkeep hk.1]
  · have htaken := h.taken
    rw [hmoved] at htaken
    exact htaken
  · rw [hmoves]
    change s.f.size - 1 = s.pushed.length - s.moves + 0
    change s.f.size = s.pushed.length - s.moves + 1 at hsize
    omega
  · rw [hmoves]
    exact h.rindex
  · rw [hmoves, hlive]
    exact h.windex
  · have hroom := h.room
    change s.f.size - 1 + WriterPc.claims s.writer ≤ n
    omega
  · rw [InSlots, hmoves, hlive]
    rw [InSlots, hmoved] at hslots
    exact hslots

/-! ## Runs -/

/-- The writer has a slot, or gives it up. -/
theorem Inv.withWriter (h : Inv n keep s) {writer : WriterPc α}
    (hframe : WriterPc.frame writer = WriterPc.frame s.writer)
    (hroom : s.f.size + WriterPc.claims writer ≤ n) : Inv n keep { s with writer := writer } := by
  have hlive : live { s with writer := writer } = s.live := congrArg (s.pushed.drop s.moves ++ ·) hframe
  refine ⟨h.max_size, h.keep_last, h.length, h.shown_le, h.shown, h.going, h.taken, h.size, h.rindex, ?_, hroom, ?_⟩
  · rw [hlive]
    exact h.windex
  · rw [InSlots, hlive]
    exact h.slots

theorem inv_step {e : Event α} (h : Inv n keep s) (hstep : s.step e = some s') : Inv n keep s' := by
  cases e with
  | peek_writable =>
      simp only [step, writeStep] at hstep
      split at hstep
      case h_1 hw =>
          split at hstep
          case isTrue hfree =>
              cases hstep
              rw [h.max_size] at hfree
              exact h.withWriter (by rw [hw]; rfl) (by simp only [WriterPc.claims]; omega)
          case isFalse =>
              cases hstep
              exact h
      case h_2 => cases hstep
  | write v =>
      simp only [step, writeStep] at hstep
      split at hstep
      case h_1 hw =>
          cases hstep
          exact h.write hw v
      case h_2 => cases hstep
  | give_up =>
      simp only [step, writeStep] at hstep
      split at hstep
      case h_1 hw =>
          cases hstep
          have hroom := h.room
          rw [hw] at hroom
          simp only [WriterPc.claims] at hroom
          exact h.withWriter (by rw [hw]; rfl) (by simp only [WriterPc.claims]; omega)
      case h_2 => cases hstep
  | push =>
      simp only [step, writeStep] at hstep
      split at hstep
      case h_1 hw =>
          cases hstep
          exact h.push hw
      case h_2 v hw =>
          cases hstep
          exact h.pushed hw
      case h_3 => cases hstep
  | next =>
      simp only [step, nextStep] at hstep
      split at hstep
      case h_1 hidle =>
          split at hstep
          case isTrue hremain =>
              split at hstep
              case isTrue hshow =>
                  cases hstep
                  rw [h.keep_last] at hshow
                  exact h.show hidle hremain hshow.1 hshow.2
              case isFalse hshow =>
                  cases hstep
                  rw [h.keep_last] at hshow
                  exact h.clear hidle hremain fun hk hzero => hshow ⟨hk, hzero⟩
          case isFalse => cases hstep
      case h_2 hcleared =>
          cases hstep
          exact h.move hcleared
      case h_3 hmoved =>
          cases hstep
          exact h.next hmoved
  | abort =>
      cases hstep
      exact ⟨h.max_size, h.keep_last, h.length, h.shown_le, h.shown, h.going, h.taken, h.size, h.rindex, h.windex,
        h.room, h.slots⟩

/-- What the reader sees between two calls of `frame_queue_next`: the frames in the order in which they were pushed,
from the one that it has come to, and before that one the last one that it was shown. -/
structure Shows (s : Display α) : Prop where
  nb_remaining : s.f.frame_queue_nb_remaining = s.pushed.length - s.taken
  peek : s.f.frame_queue_nb_remaining > 0 → s.f.frame_queue_peek = s.pushed[s.taken]?.join
  peek_next : s.f.frame_queue_nb_remaining > 1 → s.f.frame_queue_peek_next = s.pushed[s.taken + 1]?.join
  peek_last : s.f.keep_last = true → 0 < s.taken → s.f.frame_queue_peek_last = s.pushed[s.taken - 1]?.join

theorem Inv.slot (h : Inv n keep s) (hidle : s.reader = .idle) {i : ℕ} (hi : s.moves + i < s.pushed.length) :
    s.f.queue[(s.f.rindex + i) % n]? = s.pushed[s.moves + i]? := by
  have hslots := h.slots
  rw [InSlots, hidle] at hslots
  have hlt : i < (s.pushed.drop s.moves).length := by
    rw [List.length_drop]
    omega
  have hget := hslots i (by
    rw [List.length_drop, live, List.length_append]
    exact Nat.lt_add_right _ hlt)
  change s.f.queue[(s.moves + i) % s.f.queue.length]? = s.live[i]? at hget
  rw [h.length, live, List.getElem?_append_left hlt, List.getElem?_drop] at hget
  rw [h.rindex, Nat.mod_add_mod]
  exact hget

theorem Inv.shows (h : Inv n keep s) (hidle : s.reader = .idle) : s.Shows := by
  have hle := h.shown_le
  have hsize := h.size
  have hmoves : s.moves = s.taken - s.f.rindex_shown := by rw [moves, hidle]; rfl
  rw [hidle] at hsize
  change s.f.size = s.pushed.length - s.moves + 0 at hsize
  have hremaining : s.f.frame_queue_nb_remaining = s.pushed.length - s.taken := by
    rw [FrameQueue.frame_queue_nb_remaining]
    omega
  refine ⟨hremaining, fun hpos => ?_, fun hpos => ?_, fun hkeep htaken => ?_⟩
  · have hslot := h.slot hidle (i := s.f.rindex_shown) (by omega)
    rw [FrameQueue.frame_queue_peek, h.max_size, hslot, hmoves, Nat.sub_add_cancel hle]
  · have hslot := h.slot hidle (i := s.f.rindex_shown + 1) (by omega)
    rw [FrameQueue.frame_queue_peek_next, h.max_size, Nat.add_assoc, hslot, hmoves, ← Nat.add_assoc,
      Nat.sub_add_cancel hle]
  · have hshown : s.f.rindex_shown = 1 := by
      rw [h.keep_last] at hkeep
      rw [h.shown, if_pos ⟨hkeep, htaken⟩]
    have hpushed := h.taken
    have hslot := h.slot hidle (i := 0) (by omega)
    rw [Nat.add_zero, h.rindex, Nat.mod_mod, ← h.rindex, Nat.add_zero, hmoves, hshown] at hslot
    rw [FrameQueue.frame_queue_peek_last, hslot]

/-- In every interleaving the reader sees the frames in the order in which they were pushed, and none of those that it
may look at is written over. -/
theorem frames_in_order (max_size : ℕ) (keep_last : Bool) (events : List (Event α)) :
    Always step (fun s : Display α => s.reader = .idle → s.Shows) (start max_size keep_last) events :=
  always_of_invariant (fun _ _ _ => inv_step) (fun _ h => h.shows) (inv_start max_size keep_last) events

/-- The writer waits for a slot and the reader for a frame. -/
def BothWait (s : Display α) : Prop :=
  s.writer = .idle ∧ s.reader = .idle ∧ ¬s.f.size < s.f.max_size ∧ ¬s.f.frame_queue_nb_remaining > 0

theorem Inv.bothWait_iff (h : Inv n keep s) (hw : s.writer = .idle) (hr : s.reader = .idle) :
    s.BothWait ↔ n = 0 ∨ keep = true ∧ n = 1 ∧ 0 < s.taken := by
  have hle := h.shown_le
  have hsize := h.size
  have htaken := h.taken
  have hroom := h.room
  have hshown := h.shown
  rw [hw] at hroom
  rw [moves, hr] at hsize
  rw [hr] at htaken
  simp only [WriterPc.claims, ReaderPc.steps, ReaderPc.gone] at hroom hsize htaken
  rw [BothWait, h.max_size, FrameQueue.frame_queue_nb_remaining]
  constructor
  · rintro ⟨-, -, hfull, hnone⟩
    split at hshown
    case isTrue hk =>
        rcases Nat.eq_zero_or_pos n with hn | hn
        · exact .inl hn
        · exact .inr ⟨hk.1, by omega, hk.2⟩
    case isFalse => exact .inl (by omega)
  · rintro (hn | ⟨hk, hn, hpos⟩)
    · exact ⟨hw, hr, by omega, by omega⟩
    · rw [if_pos ⟨hk, hpos⟩] at hshown
      exact ⟨hw, hr, by omega, by omega⟩

/-- The writer and the reader wait for each other only where a queue of one slot keeps the frame that is shown. -/
theorem both_wait_iff (max_size : ℕ) (keep_last : Bool) (events : List (Event α)) :
    Always step (fun s : Display α => s.writer = .idle → s.reader = .idle →
      (s.BothWait ↔ max_size = 0 ∨ keep_last = true ∧ max_size = 1 ∧ 0 < s.taken))
      (start max_size keep_last) events := by
  refine always_of_invariant (fun _ _ _ => inv_step) (fun s h hw hr => ?_) (inv_start max_size keep_last) events
  rw [h.bothWait_iff hw hr]
  have hmin : (min max_size FRAME_QUEUE_SIZE = 0 ↔ max_size = 0) ∧
      (min max_size FRAME_QUEUE_SIZE = 1 ↔ max_size = 1) := by
    rw [FRAME_QUEUE_SIZE]
    omega
  rw [hmin.1, hmin.2]

end Display

end MyDemo.Ijkmedia

import MyDemo.Ijkmedia.AsyncTheorems

/-!
# The calls of `ijkasync.c` return

The weight of the call tells how often it can still wait. It becomes less with each step of the call, and the thread in
the background does not make it more. Between two steps of the call the thread comes to a wait.
-/

namespace MyDemo.Ijkmedia.Async

open Transition

variable {β : Type*} {data : List β}

namespace Threads

variable {s s' : Threads β}

@[simp] theorem signalMain_c (s : Threads β) : s.signalMain.c = s.c := by
  rw [signalMain]
  split <;> rfl

@[simp] theorem signalMain_buffer (s : Threads β) : s.signalMain.buffer = s.buffer := by
  rw [signalMain]
  split <;> rfl

@[simp] theorem signalBuffer_c (s : Threads β) : s.signalBuffer.c = s.c := by
  rw [signalBuffer]
  split <;> rfl

@[simp] theorem signalBuffer_main (s : Threads β) : s.signalBuffer.main = s.main := by
  rw [signalBuffer]
  split <;> rfl

/-! ## What the steps leave alone -/

/-- `asked` is about a seek that has not been answered. -/
structure Sized (forwards_capacity backwards_capacity : ℕ) (s : Threads β) : Prop where
  capacity : s.c.ring.capacity = forwards_capacity + backwards_capacity ∧
    s.c.ring.read_back_capacity = backwards_capacity
  asked : s.main.seeking = true → s.c.seek_completed = false → s.c.seek_request = true

variable {forwards_capacity backwards_capacity : ℕ}

theorem Sized.of_not_seeking (h : s.c.ring.capacity = forwards_capacity + backwards_capacity ∧
    s.c.ring.read_back_capacity = backwards_capacity) (hmain : s.main.seeking = false) :
    Sized forwards_capacity backwards_capacity s :=
  ⟨h, fun hseeking => absurd (hmain.symm.trans hseeking) Bool.false_ne_true⟩

theorem Sized.signalMain (h : Sized forwards_capacity backwards_capacity s) :
    Sized forwards_capacity backwards_capacity s.signalMain := by
  obtain ⟨c, pos, buffer, main, returned⟩ := s
  cases main with
  | idle => exact h
  | reads r => exact h
  | seeks => exact h
  | readWaits r => exact ⟨h.capacity, h.asked⟩
  | seekWaits => exact ⟨h.capacity, h.asked⟩

theorem Sized.signalBuffer (h : Sized forwards_capacity backwards_capacity s) :
    Sized forwards_capacity backwards_capacity s.signalBuffer :=
  ⟨by simpa using h.capacity, by simpa using h.asked⟩

theorem Sized.returns (h : Sized forwards_capacity backwards_capacity s) (r : Returned β) :
    Sized forwards_capacity backwards_capacity (s.returns r) :=
  .of_not_seeking h.capacity rfl

theorem Sized.readReturns (h : Sized forwards_capacity backwards_capacity s) (r : ReadCall β) :
    Sized forwards_capacity backwards_capacity (s.readReturns r) :=
  Sized.signalBuffer (s := s.returns _) (h.returns _)

theorem Sized.readWaits (h : Sized forwards_capacity backwards_capacity s) (r : ReadCall β) :
    Sized forwards_capacity backwards_capacity (Threads.signalBuffer { s with main := .readWaits r }) :=
  Sized.signalBuffer (s := { s with main := .readWaits r }) (.of_not_seeking h.capacity rfl)

theorem capacity_read (ring : RingBuffer β) (n : ℕ) :
    (ring.ring_generic_read n).1.capacity = ring.capacity ∧
      (ring.ring_generic_read n).1.read_back_capacity = ring.read_back_capacity := by
  rw [RingBuffer.ring_generic_read]
  split
  · exact ⟨rfl, rfl⟩
  · exact ⟨rfl, rfl⟩

theorem Sized.readLoop (h : Sized forwards_capacity backwards_capacity s) (r : ReadCall β) (interrupted : Bool) :
    Sized forwards_capacity backwards_capacity (s.readLoop r interrupted) := by
  rw [Threads.readLoop]
  split
  · exact h.readReturns r
  · split
    · exact Sized.readReturns (s := { s with c := { s.c with abort_request := true } }) ⟨h.capacity, h.asked⟩ _
    · dsimp only
      split
      · generalize (min (r.to_read : ℤ) s.c.ring.ring_size).toNat = n
        obtain ⟨hcapacity, hback⟩ := capacity_read s.c.ring n
        have hread : Sized forwards_capacity backwards_capacity { s with
            c := { s.c with ring := (s.c.ring.ring_generic_read n).1, logical_pos := s.c.logical_pos + n } } :=
          ⟨⟨hcapacity.trans h.capacity.1, hback.trans h.capacity.2⟩, h.asked⟩
        split
        · exact hread.readReturns _
        · exact hread.readWaits _
      · split
        · exact h.readReturns _
        · exact h.readWaits r

theorem Sized.seekLoop (h : Sized forwards_capacity backwards_capacity s) (hmain : s.main = .seeks)
    (interrupted : Bool) :
    Sized forwards_capacity backwards_capacity (s.seekLoop interrupted) := by
  have hseeking : s.main.seeking = true := by rw [hmain]; rfl
  rw [Threads.seekLoop]
  split
  · exact .of_not_seeking h.capacity rfl
  · split
    · exact .of_not_seeking h.capacity rfl
    · exact Sized.signalBuffer ⟨h.capacity, fun _ => h.asked hseeking⟩

theorem Sized.async_seek (h : Sized forwards_capacity backwards_capacity s) (pos : ℤ) (whence : Whence) :
    Sized forwards_capacity backwards_capacity (s.async_seek pos whence) := by
  have hseekTo : ∀ p, Sized forwards_capacity backwards_capacity (s.seekTo p) := by
    intro p
    rw [Threads.seekTo]
    dsimp only
    split
    · exact h.returns _
    · split
      · exact h.returns _
      · split
        · split
          · exact .of_not_seeking h.capacity rfl
          · exact .of_not_seeking h.capacity rfl
        · split
          · exact h.returns _
          · split
            · exact h.returns _
            · exact ⟨h.capacity, fun _ _ => rfl⟩
  cases whence with
  | AVSEEK_SIZE => exact h.returns _
  | SEEK_CUR => exact hseekTo _
  | SEEK_SET => exact hseekTo _
  | other => exact h.returns _

theorem Sized.bufferStep (h : Sized forwards_capacity backwards_capacity s) {interrupted : Bool} {seek_ret : SeekRet}
    {left_at : ℕ} {answer : ReadAnswer} (hstep : s.bufferStep data interrupted seek_ret left_at answer = some s') :
    Sized forwards_capacity backwards_capacity s' := by
  rw [Threads.bufferStep] at hstep
  split at hstep
  case h_1 =>
      cases hstep
      rw [Threads.loopStep]
      split
      · exact Sized.signalMain ⟨h.capacity, h.asked⟩
      · split
        · exact Sized.signalMain ⟨h.capacity, fun _ hcompleted => absurd hcompleted.symm Bool.false_ne_true⟩
        · split
          · exact Sized.signalMain ⟨h.capacity, h.asked⟩
          · exact ⟨h.capacity, h.asked⟩
  case h_2 =>
      cases hstep
      exact ⟨h.capacity, h.asked⟩
  case h_3 =>
      cases hstep
      cases answer with
      | bytes n => exact ⟨h.capacity, h.asked⟩
      | error ret => exact ⟨h.capacity, h.asked⟩
  case h_4 =>
      cases hstep
      rw [Threads.wroteStep]
      apply Sized.signalMain
      split
      · exact ⟨h.capacity, h.asked⟩
      · exact ⟨h.capacity, h.asked⟩
  case h_5 => cases hstep

theorem Sized.step (h : Sized forwards_capacity backwards_capacity s) {e : Event} (hstep : s.step data e = some s') :
    Sized forwards_capacity backwards_capacity s' := by
  cases e with
  | read size =>
      simp only [Threads.step] at hstep
      split at hstep
      · cases hstep
        exact .of_not_seeking h.capacity rfl
      · cases hstep
  | seek pos whence =>
      simp only [Threads.step] at hstep
      split at hstep
      · cases hstep
        exact h.async_seek pos whence
      · cases hstep
  | main interrupted =>
      simp only [Threads.step, mainStep] at hstep
      split at hstep
      case h_1 r _ =>
          cases hstep
          exact h.readLoop r interrupted
      case h_2 hmain =>
          cases hstep
          exact h.seekLoop hmain interrupted
      case h_3 => cases hstep
  | buffer interrupted seek_ret left_at answer => exact h.bufferStep hstep
  | wakeMain =>
      cases hstep
      exact h.signalMain
  | wakeBuffer =>
      cases hstep
      exact h.signalBuffer

end Threads

/-! ## The weight of a call -/

namespace BufferPc

/-- Bytes were added to the ring, and the signal is still to come. -/
def published : BufferPc β → Bool
  | .wrote ret => ret ≠ 0
  | _ => false

def busy : BufferPc β → Bool
  | .writes _ _ => true
  | .wrote _ => true
  | _ => false

end BufferPc

/-- `fruitful` tells that a read would not wait, and `answered` that a seek would not. -/
def MainPc.weight (fruitful answered published busy : Bool) : MainPc β → ℕ
  | .idle => 0
  | .reads r => 4 * r.to_read + if fruitful then 1 else if published then 4 else 2
  | .readWaits r => 4 * r.to_read + if fruitful then 1 else if published then 3 else 1
  | .seeks => if answered then 1 else if busy then 5 else 3
  | .seekWaits => if answered then 1 else if busy then 4 else 2

namespace MainPc

def wake : MainPc β → MainPc β
  | .readWaits r => .reads r
  | .seekWaits => .seeks
  | main => main

variable {main : MainPc β} {fruitful answered published busy fruitful' answered' published' busy' : Bool}

/-- A signal for a call that will not wait again. -/
theorem weight_wake_of_ready (hfruitful : fruitful' = true) (hanswered : main.seeking = true → answered' = true) :
    main.wake.weight fruitful' answered' published' busy' ≤ main.weight fruitful answered published busy := by
  cases main with
  | idle => exact Nat.zero_le _
  | reads r =>
      simp only [wake, weight, hfruitful, if_true]
      split
      · exact le_refl _
      · split <;> omega
  | readWaits r =>
      simp only [wake, weight, hfruitful, if_true]
      split
      · exact le_refl _
      · split <;> omega
  | seeks =>
      simp only [wake, weight, hanswered rfl, if_true]
      split
      · exact le_refl _
      · split <;> omega
  | seekWaits =>
      simp only [wake, weight, hanswered rfl, if_true]
      split
      · exact le_refl _
      · split <;> omega

/-- The signal after bytes were added to the ring, which the call may have taken already. -/
theorem weight_wake_of_published :
    main.wake.weight fruitful answered false false ≤ main.weight fruitful answered true true := by
  cases main with
  | idle => exact Nat.zero_le _
  | reads r =>
      simp only [wake, weight]
      cases fruitful <;> simp
  | readWaits r =>
      simp only [wake, weight]
      cases fruitful <;> simp
  | seeks =>
      simp only [wake, weight]
      cases answered <;> simp
  | seekWaits =>
      simp only [wake, weight]
      cases answered <;> simp

theorem weight_readWaits_le (r : ReadCall β) :
    (MainPc.readWaits r).weight fruitful answered published busy ≤ 4 * r.to_read + 3 := by
  rw [weight]
  split
  · omega
  · split <;> omega

/-- The signal after a seek. -/
theorem weight_wake_answered (h : main.seeking = true) (fruitful published busy : Bool) :
    main.wake.weight fruitful true published busy = 1 := by
  cases main with
  | seeks => rfl
  | seekWaits => rfl
  | idle => cases h
  | reads r => cases h
  | readWaits r => cases h

theorem two_le_weight (h : main.seeking = true) (fruitful published busy : Bool) :
    2 ≤ main.weight fruitful false published busy := by
  cases main with
  | seeks =>
      cases busy with
      | true => exact Nat.le_add_left 2 3
      | false => exact Nat.le_add_left 2 1
  | seekWaits =>
      cases busy with
      | true => exact Nat.le_add_left 2 2
      | false => exact Nat.le_refl 2
  | idle => cases h
  | reads r => cases h
  | readWaits r => cases h

/-- The signal after the end of the inner stream. -/
theorem weight_wake_of_end :
    main.wake.weight true answered false false ≤ main.weight fruitful answered published true := by
  cases main with
  | idle => exact Nat.zero_le _
  | reads r =>
      simp only [wake, weight, if_true]
      split
      · exact le_refl _
      · split <;> omega
  | readWaits r =>
      simp only [wake, weight, if_true]
      split
      · exact le_refl _
      · split <;> omega
  | seeks =>
      simp only [wake, weight]
      cases answered <;> simp
  | seekWaits =>
      simp only [wake, weight]
      cases answered <;> simp

/-- What the thread does between its signals. -/
theorem weight_le (hfruitful : fruitful = true → fruitful' = true)
    (hpublished : fruitful' = false → published' = published)
    (hbusy : main.seeking = true → answered = true ∨ busy' = busy) :
    main.weight fruitful' answered published' busy' ≤ main.weight fruitful answered published busy := by
  cases main with
  | idle => exact Nat.zero_le _
  | reads r =>
      simp only [weight]
      cases fruitful' with
      | true =>
          simp only [if_true]
          split
          · exact le_refl _
          · split <;> omega
      | false =>
          rw [hpublished rfl, Bool.eq_false_iff.mpr fun h => Bool.false_ne_true (hfruitful h)]
  | readWaits r =>
      simp only [weight]
      cases fruitful' with
      | true =>
          simp only [if_true]
          split
          · exact le_refl _
          · split <;> omega
      | false =>
          rw [hpublished rfl, Bool.eq_false_iff.mpr fun h => Bool.false_ne_true (hfruitful h)]
  | seeks =>
      rcases hbusy rfl with hanswered | hbusy
      · simp only [weight, hanswered, if_true, le_refl]
      · rw [hbusy]
        exact le_refl _
  | seekWaits =>
      rcases hbusy rfl with hanswered | hbusy
      · simp only [weight, hanswered, if_true, le_refl]
      · rw [hbusy]
        exact le_refl _

end MainPc

namespace Threads

variable {s s' : Threads β} {forwards_capacity backwards_capacity : ℕ}

def fruitful (s : Threads β) : Bool := decide (0 < s.c.ring.ring_size) || s.c.io_eof_reached || s.c.abort_request

def answered (s : Threads β) : Bool := s.c.seek_completed || s.c.abort_request

def weight (s : Threads β) : ℕ := s.main.weight s.fruitful s.answered s.buffer.published s.buffer.busy

/-- The room that is left in the ring. -/
def space (s : Threads β) : ℕ := s.c.ring.capacity - (s.c.ring.fifo.length + s.buffer.written.length)

def rank (s : Threads β) : ℕ :=
  match s.buffer with
  | .ended => 0
  | .waits => 0
  | .loop => if s.c.io_eof_reached then 1 else 5
  | .wrote ret => if ret = 0 then 2 else 6
  | .writes left written => (if written.length = 0 then 3 else 7) + if left = 0 then 0 else 1

/-- What the thread in the background can do before it waits. -/
def ahead (s : Threads β) : ℕ := 5 * s.space + s.rank

theorem rank_le (s : Threads β) : s.rank ≤ 8 := by
  rw [rank]
  split
  · omega
  · omega
  · split <;> omega
  · split <;> omega
  · split <;> split <;> omega

theorem ahead_le (s : Threads β) : s.ahead ≤ 5 * s.c.ring.capacity + 8 := by
  have hrank := s.rank_le
  rw [ahead, space]
  omega

/-- The step of the thread makes less of what it can do, or of the weight of the call, and neither more of the
latter. -/
def Descends (s s' : Threads β) : Prop := s'.weight < s.weight ∨ s'.weight ≤ s.weight ∧ s'.ahead < s.ahead

theorem weight_signalMain (s : Threads β) :
    s.signalMain.weight = s.main.wake.weight s.fruitful s.answered s.buffer.published s.buffer.busy := by
  obtain ⟨c, pos, buffer, main, returned⟩ := s
  cases main with
  | idle => rfl
  | reads r => rfl
  | seeks => rfl
  | readWaits r => rfl
  | seekWaits => rfl

theorem ahead_signalMain (s : Threads β) : s.signalMain.ahead = s.ahead := by
  obtain ⟨c, pos, buffer, main, returned⟩ := s
  cases main with
  | idle => rfl
  | reads r => rfl
  | seeks => rfl
  | readWaits r => rfl
  | seekWaits => rfl

theorem descends_signalMain
    (h : s'.main.wake.weight s'.fruitful s'.answered s'.buffer.published s'.buffer.busy ≤ s.weight)
    (hahead : s'.ahead < s.ahead) : Descends s s'.signalMain := by
  refine .inr ⟨?_, ?_⟩
  · rw [weight_signalMain]
    exact h
  · rw [ahead_signalMain]
    exact hahead

theorem rank_pos_of_loop (hbuffer : s.buffer = .loop) : 0 < s.rank := by
  rw [rank, hbuffer]
  simp only
  split <;> omega

/-! ## The thread in the background -/

theorem answered_of_seeking (h : Sized forwards_capacity backwards_capacity s) (hrequest : ¬s.c.seek_request = true)
    (hseeking : s.main.seeking = true) : s.answered = true := by
  rw [answered]
  cases hcompleted : s.c.seek_completed with
  | true => rfl
  | false => exact absurd (h.asked hseeking hcompleted) hrequest

/-- A ring without room has bytes to read. -/
theorem fruitful_of_full (h : Inv data s) (hsized : Sized forwards_capacity backwards_capacity s)
    (hforwards : 0 < forwards_capacity)
    (hspace : s.c.io_eof_reached = true ∨ s.c.ring.ring_space ≤ 0) : s.fruitful = true := by
  rw [fruitful]
  rcases hspace with heof | hspace
  · rw [heof, Bool.or_true, Bool.true_or]
  · have hcapacity := hsized.capacity
    have hback := h.room.read_back
    rw [RingBuffer.ring_space] at hspace
    have hsize : 0 < s.c.ring.ring_size := by
      rw [RingBuffer.ring_size]
      omega
    rw [decide_eq_true hsize, Bool.true_or, Bool.true_or]

theorem descends_loopStep (h : Inv data s) (hsized : Sized forwards_capacity backwards_capacity s)
    (hforwards : 0 < forwards_capacity)
    (hbuffer : s.buffer = .loop) (interrupted : Bool) (seek_ret : SeekRet) (left_at : ℕ) :
    Descends s (s.loopStep interrupted seek_ret left_at) := by
  have hrank := rank_pos_of_loop hbuffer
  have hspace : s.space = s.c.ring.capacity - s.c.ring.fifo.length := by rw [space, hbuffer]; rfl
  rw [Threads.loopStep]
  split
  case isTrue =>
      apply descends_signalMain
      · refine MainPc.weight_wake_of_ready ?_ fun _ => ?_
        · rw [fruitful, Bool.or_true]
        · rw [answered, Bool.or_true]
      · change 5 * (s.c.ring.capacity - s.c.ring.fifo.length) + 0 < 5 * s.space + s.rank
        omega
  case isFalse habort =>
      have hlive : s.c.abort_request = false := Bool.eq_false_iff.mpr fun habort' => habort (.inl habort')
      split
      case isTrue hrequest =>
          obtain ⟨hseeking, hcompleted⟩ := h.request hlive hrequest
          have hnot : s.answered = false := by rw [answered, hcompleted, hlive]; rfl
          have htwo := MainPc.two_le_weight hseeking s.fruitful s.buffer.published s.buffer.busy
          rw [← hnot] at htwo
          refine .inl ?_
          rw [weight_signalMain]
          exact (MainPc.weight_wake_answered hseeking _ _ _).trans_lt htwo
      case isFalse hrequest =>
          have hanswered := answered_of_seeking hsized hrequest
          split
          case isTrue hwaits =>
              have hfruitful : s.fruitful = true := fruitful_of_full h hsized hforwards hwaits
              apply descends_signalMain
              · exact MainPc.weight_wake_of_ready hfruitful hanswered
              · change 5 * (s.c.ring.capacity - s.c.ring.fifo.length) + 0 < 5 * s.space + s.rank
                omega
          case isFalse hwaits =>
              rw [not_or] at hwaits
              have hroom : 0 < s.c.ring.ring_space := not_le.mp hwaits.2
              refine .inr ⟨?_, ?_⟩
              · exact MainPc.weight_le id (fun _ => by rw [hbuffer]; rfl) fun hseeking => .inl (hanswered hseeking)
              · have hfive : s.rank = 5 := by rw [rank, hbuffer]; exact if_neg hwaits.1
                have hleft : (min 4096 s.c.ring.ring_space).toNat ≠ 0 := by omega
                change 5 * (s.c.ring.capacity - s.c.ring.fifo.length) + (3 + if _ then 0 else 1) < 5 * s.space + s.rank
                rw [if_neg hleft]
                omega

theorem descends_writeStep {left : ℕ} {written : List β} (h : Inv data s) (hbuffer : s.buffer = .writes left written)
    (hleft : left ≠ 0) (answer : ReadAnswer) : Descends s (s.writeStep data left written answer) := by
  obtain ⟨c, pos, buffer, main, returned⟩ := s
  cases hbuffer
  obtain ⟨_, _, hcapacity⟩ := h.room
  change c.ring.fifo.length + (written.length + left) ≤ c.ring.capacity at hcapacity
  refine .inr ?_
  cases answer with
  | error ret =>
      refine ⟨le_refl _, ?_⟩
      change 5 * (c.ring.capacity - (c.ring.fifo.length + written.length)) + (_ + 0) <
        5 * (c.ring.capacity - (c.ring.fifo.length + written.length)) + (_ + if left = 0 then 0 else 1)
      rw [if_neg hleft]
      omega
  | bytes n =>
      refine ⟨le_refl _, ?_⟩
      have hle : (data.piece pos (min n left)).length ≤ left := by
        rw [List.length_piece]
        omega
      change 5 * (c.ring.capacity - (c.ring.fifo.length + (written ++ data.piece pos (min n left)).length)) +
          ((if (written ++ data.piece pos (min n left)).length = 0 then 3 else 7) +
            if (if (data.piece pos (min n left)).length = 0 then 0 else left - (data.piece pos (min n left)).length) = 0
              then 0 else 1) <
        5 * (c.ring.capacity - (c.ring.fifo.length + written.length)) +
          ((if written.length = 0 then 3 else 7) + if left = 0 then 0 else 1)
      rw [List.length_append, if_neg hleft]
      generalize (data.piece pos (min n left)).length = k at hle ⊢
      rcases Nat.eq_zero_or_pos k with rfl | hpos
      · rw [if_pos rfl, if_pos rfl, Nat.add_zero]
        omega
      · rw [if_neg hpos.ne', if_neg (Nat.add_pos_right _ hpos).ne']
        split <;> split <;> omega

theorem descends_publish {written : List β} (h : Inv data s) (hbuffer : s.buffer = .writes 0 written) :
    Descends s { s with
      c := { s.c with ring := { s.c.ring with fifo := s.c.ring.fifo ++ written } }
      buffer := .wrote written.length } := by
  obtain ⟨c, pos, buffer, main, returned⟩ := s
  cases hbuffer
  have hread := h.room.read_pos_le
  change c.ring.read_pos ≤ c.ring.fifo.length at hread
  refine .inr ⟨?_, ?_⟩
  · refine MainPc.weight_le (fun hfruitful => ?_) (fun hnot => ?_) fun _ => .inr rfl
    · simp only [fruitful, RingBuffer.ring_size, List.length_append, Bool.or_eq_true, decide_eq_true_eq] at hfruitful ⊢
      rcases hfruitful with (hsize | heof) | habort
      · have hlt := of_decide_eq_true hsize
        exact .inl (.inl (by omega))
      · exact .inl (.inr heof)
      · exact .inr habort
    · simp only [fruitful, RingBuffer.ring_size, List.length_append, Bool.or_eq_false_iff,
        decide_eq_false_iff_not] at hnot
      have hsize := hnot.1.1
      change decide (written.length ≠ 0) = false
      rw [decide_eq_false_iff_not]
      omega
  · change 5 * (c.ring.capacity - ((c.ring.fifo ++ written).length + 0)) + (if written.length = 0 then 2 else 6) <
      5 * (c.ring.capacity - (c.ring.fifo.length + written.length)) + ((if written.length = 0 then 3 else 7) + 0)
    rw [List.length_append]
    split <;> omega

theorem descends_wroteStep {ret : ℕ} (hbuffer : s.buffer = .wrote ret) : Descends s (s.wroteStep ret) := by
  obtain ⟨c, pos, buffer, main, returned⟩ := s
  cases hbuffer
  rw [Threads.wroteStep]
  by_cases hzero : ret = 0
  · rw [if_pos (Nat.le_zero.mpr hzero)]
    apply descends_signalMain
    · have hfruitful : (decide (0 < c.ring.ring_size) || true || c.abort_request) = true := by
        rw [Bool.or_true, Bool.true_or]
      change main.wake.weight (decide (0 < c.ring.ring_size) || true || c.abort_request) _ false false ≤
        main.weight _ _ (BufferPc.wrote ret : BufferPc β).published true
      rw [hfruitful]
      exact MainPc.weight_wake_of_end
    · change 5 * (c.ring.capacity - (c.ring.fifo.length + 0)) + 1 <
        5 * (c.ring.capacity - (c.ring.fifo.length + 0)) + if ret = 0 then 2 else 6
      rw [if_pos hzero]
      omega
  · rw [if_neg fun hle => hzero (Nat.le_zero.mp hle)]
    apply descends_signalMain
    · have hpublished : (BufferPc.wrote ret : BufferPc β).published = true := decide_eq_true hzero
      change main.wake.weight _ _ false false ≤ main.weight _ _ (BufferPc.wrote ret : BufferPc β).published true
      rw [hpublished]
      exact MainPc.weight_wake_of_published
    · change 5 * (c.ring.capacity - (c.ring.fifo.length + 0)) + (if c.io_eof_reached = true then 1 else 5) <
        5 * (c.ring.capacity - (c.ring.fifo.length + 0)) + if ret = 0 then 2 else 6
      rw [if_neg hzero]
      split <;> omega

theorem descends_bufferStep (h : Inv data s) (hsized : Sized forwards_capacity backwards_capacity s)
    (hforwards : 0 < forwards_capacity)
    {interrupted : Bool} {seek_ret : SeekRet} {left_at : ℕ} {answer : ReadAnswer}
    (hstep : s.bufferStep data interrupted seek_ret left_at answer = some s') : Descends s s' := by
  rw [Threads.bufferStep] at hstep
  split at hstep
  case h_1 hbuffer =>
      cases hstep
      exact descends_loopStep h hsized hforwards hbuffer interrupted seek_ret left_at
  case h_2 written hbuffer =>
      cases hstep
      exact descends_publish h hbuffer
  case h_3 left written hleft hbuffer =>
      cases hstep
      exact descends_writeStep h hbuffer hleft answer
  case h_4 ret hbuffer =>
      cases hstep
      exact descends_wroteStep hbuffer
  case h_5 => cases hstep

/-! ## The call -/

theorem weight_readReturns (s : Threads β) (r : ReadCall β) : (s.readReturns r).weight = 0 := by
  rw [weight, Threads.readReturns, signalBuffer_main]
  rfl

theorem published_signalBuffer (s : Threads β) :
    s.signalBuffer.buffer.published = s.buffer.published ∧ s.signalBuffer.buffer.busy = s.buffer.busy := by
  obtain ⟨c, pos, buffer, main, returned⟩ := s
  cases buffer with
  | loop => exact ⟨rfl, rfl⟩
  | waits => exact ⟨rfl, rfl⟩
  | writes left written => exact ⟨rfl, rfl⟩
  | wrote ret => exact ⟨rfl, rfl⟩
  | ended => exact ⟨rfl, rfl⟩

theorem weight_signalBuffer (s : Threads β) : s.signalBuffer.weight = s.weight := by
  obtain ⟨hpublished, hbusy⟩ := published_signalBuffer s
  rw [weight, weight, hpublished, hbusy, signalBuffer_main, fruitful, answered, signalBuffer_c]
  rfl

theorem weight_readLoop {r : ReadCall β} (hmain : s.main = .reads r) (interrupted : Bool) :
    (s.readLoop r interrupted).weight < s.weight := by
  have hweight : s.weight = 4 * r.to_read + if s.fruitful then 1 else if s.buffer.published then 4 else 2 := by
    rw [weight, hmain]
    rfl
  have hpos : 4 * r.to_read < s.weight := by
    rw [hweight]
    split
    · omega
    · split <;> omega
  rw [Threads.readLoop]
  split
  · rw [weight_readReturns]
    exact Nat.zero_lt_of_lt hpos
  case isFalse hleft =>
      split
      · rw [weight_readReturns]
        exact Nat.zero_lt_of_lt hpos
      case isFalse habort =>
          dsimp only
          split
          case isTrue hcopy =>
              split
              · rw [weight_readReturns]
                exact Nat.zero_lt_of_lt hpos
              · rw [weight_signalBuffer]
                have hle : (min (r.to_read : ℤ) s.c.ring.ring_size).toNat ≤ r.to_read := by omega
                generalize (min (r.to_read : ℤ) s.c.ring.ring_size).toNat = n at hcopy hle ⊢
                refine lt_of_le_of_lt (MainPc.weight_readWaits_le _) ?_
                change 4 * (r.to_read - n) + 3 < s.weight
                omega
          case isFalse hcopy =>
              split
              · rw [weight_readReturns]
                exact Nat.zero_lt_of_lt hpos
              case isFalse heof =>
                  have hnot : s.fruitful = false := by
                    have hsize : ¬0 < s.c.ring.ring_size := by omega
                    rw [fruitful, decide_eq_false hsize, Bool.eq_false_iff.mpr heof,
                      Bool.eq_false_iff.mpr fun habort' => habort (.inl habort')]
                    rfl
                  rw [weight_signalBuffer, hweight, hnot]
                  change 4 * r.to_read +
                    (if s.fruitful = true then 1 else if s.buffer.published = true then 3 else 1) < _
                  rw [hnot]
                  simp only [Bool.false_eq_true, if_false]
                  split <;> omega

theorem weight_seekLoop (hmain : s.main = .seeks) (interrupted : Bool) :
    (s.seekLoop interrupted).weight < s.weight := by
  have hweight : s.weight = if s.answered then 1 else if s.buffer.busy then 5 else 3 := by
    rw [weight, hmain]
    rfl
  have hpos : 0 < s.weight := by
    rw [hweight]
    split
    · omega
    · split <;> omega
  rw [Threads.seekLoop]
  split
  · exact hpos
  case isFalse habort =>
      split
      · exact hpos
      case isFalse hcompleted =>
          have hnot : s.answered = false := by
            rw [answered, Bool.eq_false_iff.mpr hcompleted, Bool.eq_false_iff.mpr fun habort' => habort (.inl habort')]
            rfl
          rw [weight_signalBuffer, hweight, hnot]
          change (if s.answered = true then 1 else if s.buffer.busy = true then 4 else 2) < _
          rw [hnot]
          simp only [Bool.false_eq_true, if_false]
          split <;> omega

/-! ## Every call returns -/

/-- A step of one of the two threads that is not a new call and not a wake-up without a signal. -/
def Event.Internal : Event → Prop
  | .main _ => True
  | .buffer _ _ _ _ => True
  | _ => False

/-- As many steps the two threads can take at most. -/
def bound (s : Threads β) : ℕ := (5 * s.c.ring.capacity + 9) * s.weight + s.ahead

theorem descends_step (h : Inv data s) (hsized : Sized forwards_capacity backwards_capacity s)
    (hforwards : 0 < forwards_capacity)
    {e : Event} (he : Event.Internal e) (hstep : s.step data e = some s') : Descends s s' := by
  cases e with
  | main interrupted =>
      simp only [Threads.step, mainStep] at hstep
      split at hstep
      case h_1 hmain =>
          cases hstep
          exact .inl (weight_readLoop hmain interrupted)
      case h_2 hmain =>
          cases hstep
          exact .inl (weight_seekLoop hmain interrupted)
      case h_3 => cases hstep
  | buffer interrupted seek_ret left_at answer => exact descends_bufferStep h hsized hforwards hstep
  | read size => exact he.elim
  | seek pos whence => exact he.elim
  | wakeMain => exact he.elim
  | wakeBuffer => exact he.elim

theorem Descends.bound_lt (h : Descends s s') (hcapacity : s'.c.ring.capacity = s.c.ring.capacity) :
    s'.bound < s.bound := by
  have hahead := s'.ahead_le
  rw [hcapacity] at hahead
  rw [bound, bound, hcapacity]
  rcases h with hlt | ⟨hle, hlt⟩
  · calc (5 * s.c.ring.capacity + 9) * s'.weight + s'.ahead
        < (5 * s.c.ring.capacity + 9) * s'.weight + (5 * s.c.ring.capacity + 9) := by omega
      _ = (5 * s.c.ring.capacity + 9) * (s'.weight + 1) := (Nat.mul_succ _ _).symm
      _ ≤ (5 * s.c.ring.capacity + 9) * s.weight := Nat.mul_le_mul_left _ hlt
      _ ≤ _ := Nat.le_add_right _ _
  · exact Nat.add_lt_add_of_le_of_lt (Nat.mul_le_mul_left _ hle) hlt

structure Reached (data : List β) (forwards_capacity backwards_capacity : ℕ) (s : Threads β) : Prop where
  inv : Inv data s
  sized : Sized forwards_capacity backwards_capacity s
  awaited : s.Awaited

theorem Reached.step (h : Reached data forwards_capacity backwards_capacity s) {e : Event}
    (hstep : s.step data e = some s') : Reached data forwards_capacity backwards_capacity s' :=
  ⟨h.inv.step hstep, h.sized.step hstep, awaited_step h.inv h.awaited hstep⟩

theorem Reached.of_run {logical_size : ℤ} {events : List Event}
    (hrun : run (Threads.step data) (async_open forwards_capacity backwards_capacity logical_size) events = some s) :
    Reached data forwards_capacity backwards_capacity s :=
  run_keeps (fun _ _ _ h hstep => Reached.step h hstep)
    ⟨inv_open forwards_capacity backwards_capacity logical_size, .of_not_seeking ⟨rfl, rfl⟩ rfl,
      awaited_of_not rfl⟩ hrun

/-- Where neither thread can go on there is no call. -/
theorem Awaited.idle_of_stuck (h : s.Awaited) (hstuck : ∀ e, Event.Internal e → s.step data e = none) :
    s.main = .idle := by
  have hbuffer : s.main.waiting = true → False := by
    intro hwaits
    obtain ⟨hnot, hended⟩ := h hwaits
    have hnone := hstuck (.buffer false default 0 (.bytes 0)) trivial
    simp only [Threads.step, Threads.bufferStep] at hnone
    cases hbuffer : s.buffer with
    | waits => rw [hbuffer] at hnot; cases hnot
    | ended => rw [hbuffer] at hended; cases hended
    | loop => rw [hbuffer] at hnone; cases hnone
    | wrote ret => rw [hbuffer] at hnone; cases hnone
    | writes left written =>
        rw [hbuffer] at hnone
        cases left with
        | zero => cases hnone
        | succ left => cases hnone
  have hmain := hstuck (.main false) trivial
  simp only [Threads.step, mainStep] at hmain
  cases hcase : s.main with
  | idle => rfl
  | reads r => rw [hcase] at hmain; cases hmain
  | seeks => rw [hcase] at hmain; cases hmain
  | readWaits r => exact (hbuffer (by rw [hcase]; rfl)).elim
  | seekWaits => exact (hbuffer (by rw [hcase]; rfl)).elim

/-- From every state that a run reaches, the steps of the two threads come to an end, whatever the inner stream answers;
and where they have come to their end the call has returned. -/
theorem calls_return (hforwards : 0 < forwards_capacity) {logical_size : ℤ} {events : List Event}
    (hrun : run (Threads.step data) (async_open forwards_capacity backwards_capacity logical_size) events = some s)
    (es : List Event) (hes : ∀ e ∈ es, Event.Internal e) (hrun' : run (Threads.step data) s es = some s') :
    es.length ≤ s.bound ∧ ((∀ e, Event.Internal e → s'.step data e = none) → s'.main = .idle) := by
  have hreached := Reached.of_run hrun
  constructor
  · have hle := length_add_le bound (A := Event.Internal)
      (I := Reached data forwards_capacity backwards_capacity) (fun t e t' he ht hstep => by
        have ht' := ht.step hstep
        have hcapacity : t'.c.ring.capacity = t.c.ring.capacity := ht'.sized.capacity.1.trans ht.sized.capacity.1.symm
        exact ⟨ht', (descends_step ht.inv ht.sized hforwards he hstep).bound_lt hcapacity⟩) hes hreached hrun'
    exact (Nat.le_add_right _ _).trans hle
  · exact (run_keeps (fun _ _ _ h hstep => Reached.step h hstep) hreached hrun').awaited.idle_of_stuck

/-- A read of one byte. -/
theorem calls_return_one : ∃ s s' : Threads ℕ,
    run (Threads.step [7]) (async_open 1 0 1) [.read 1] = some s ∧
      run (Threads.step [7]) s [.main false, .buffer false default 0 (.bytes 1), .buffer false default 0 (.bytes 1),
        .buffer false default 0 (.bytes 1), .buffer false default 0 (.bytes 1), .main false] = some s' ∧
      6 ≤ s.bound := by
  have hrun : run (Threads.step [7]) (async_open 1 0 1) [.read 1] = some _ := rfl
  refine ⟨_, _, hrun, rfl, ?_⟩
  refine (calls_return Nat.one_pos hrun
    [.main false, .buffer false default 0 (.bytes 1), .buffer false default 0 (.bytes 1),
    .buffer false default 0 (.bytes 1), .buffer false default 0 (.bytes 1), .main false] (fun e he => ?_) rfl).1
  simp only [List.mem_cons, List.not_mem_nil, or_false] at he
  rcases he with rfl | rfl | rfl | rfl | rfl | rfl <;> trivial

end Threads

end MyDemo.Ijkmedia.Async

import MyDemo.Javacv.RecordThreads
import MyDemo.Lib.ListEntries

/-!
# How far the threads and the calls have come
-/

namespace MyDemo.Javacv

open List

/-! ## One thread -/

namespace AudioRecordThread

/-- It has set `isRunning`, which it does once. -/
def Begun (t : AudioRecordThread) : Prop := t.pc ≠ .created ∧ t.pc ≠ .starting

instance : DecidablePred Begun := fun t => inferInstanceAs (Decidable (t.pc ≠ .created ∧ t.pc ≠ .starting))

/-- It leaves the loop at the next test. -/
def Told (t : AudioRecordThread) : Prop := t.pc = .finished ∨ t.Begun ∧ t.isRunning = false

structure Advances (t t' : AudioRecordThread) : Prop where
  begun : t.Begun → t'.Begun
  told : t.Told → t'.Told
  finished : t.pc = .finished → t'.pc = .finished

variable {t t' : AudioRecordThread}

theorem Advances.refl (t : AudioRecordThread) : t.Advances t := ⟨id, id, id⟩

theorem Told.begun (h : t.Told) : t.Begun := by
  rcases h with h | h
  · simp [Begun, h]
  · exact h.1

theorem Told.not_running (h : t.Told) : t.running = false := by
  rcases h with h | ⟨_, h⟩ <;> simp [running, h]

theorem advances_stopRunning (t : AudioRecordThread) : t.Advances t.stopRunning where
  begun := id
  told h := h.imp id (fun h => ⟨h.1, rfl⟩)
  finished := id

theorem told_stopRunning (h : t.Begun) : t.stopRunning.Told := .inr ⟨h, rfl⟩

theorem advances_step (h : t.step = some t') : t.Advances t' := by
  obtain ⟨pc, isRunning⟩ := t
  cases pc with
  | created | finished => cases h
  | starting => cases h; exact ⟨by simp [Begun], by simp [Told, Begun], nofun⟩
  | testing =>
      cases h
      exact ⟨by cases isRunning <;> simp [Begun], by cases isRunning <;> simp [Told, Begun], nofun⟩
  | reading => cases h; exact ⟨by simp [Begun], by simp [Told, Begun], nofun⟩

theorem finished_of_not_alive (h : t.Begun) (ha : t.alive = false) : t.pc = .finished := by
  simp only [alive, Bool.and_eq_false_iff, bne_eq_false_iff_eq] at ha
  exact ha.resolve_left h.1

end AudioRecordThread

namespace VideoRecordThread

def Begun (t : VideoRecordThread) : Prop := t.pc ≠ .created ∧ t.pc ≠ .starting

instance : DecidablePred Begun := fun t => inferInstanceAs (Decidable (t.pc ≠ .created ∧ t.pc ≠ .starting))

def Told (t : VideoRecordThread) : Prop := t.pc = .finished ∨ t.Begun ∧ t.isRunning = false

/-- It is about to block in `take`, and nothing will wake it. -/
def Blocks (t : VideoRecordThread) (queue : ℕ) : Prop :=
  (t.pc = .taking ∨ t.pc = .woken) ∧ queue = 0 ∧ t.interrupted = false

instance (t : VideoRecordThread) (queue : ℕ) : Decidable (t.Blocks queue) :=
  inferInstanceAs (Decidable ((t.pc = .taking ∨ t.pc = .woken) ∧ queue = 0 ∧ t.interrupted = false))

/-- It will come to its end without help. -/
structure Safe (t : VideoRecordThread) (queue : ℕ) : Prop where
  told : t.Told
  not_blocks : ¬ t.Blocks queue
  not_starved : t.starved queue = false

structure Advances (t t' : VideoRecordThread) : Prop where
  begun : t.Begun → t'.Begun
  told : t.Told → t'.Told
  finished : t.pc = .finished → t'.pc = .finished

variable {t t' : VideoRecordThread} {queue queue' : ℕ}

theorem Advances.refl (t : VideoRecordThread) : t.Advances t := ⟨id, id, id⟩

theorem Told.begun (h : t.Told) : t.Begun := by
  rcases h with h | h
  · simp [Begun, h]
  · exact h.1

theorem Told.not_running (h : t.Told) : t.running = false := by
  rcases h with h | ⟨_, h⟩ <;> simp [running, h]

theorem safe_of_finished (h : t.pc = .finished) (queue : ℕ) : t.Safe queue :=
  ⟨.inl h, by simp [Blocks, h], by simp [starved, h]⟩

theorem advances_stopRunning (t : VideoRecordThread) : t.Advances t.stopRunning where
  begun := id
  told h := h.imp id (fun h => ⟨h.1, rfl⟩)
  finished := id

theorem told_stopRunning (h : t.Begun) : t.stopRunning.Told := .inr ⟨h, rfl⟩

theorem Safe.stopRunning (h : t.Safe queue) : t.stopRunning.Safe queue :=
  ⟨(advances_stopRunning t).told h.told, h.not_blocks, h.not_starved⟩

theorem advances_interrupt (t : VideoRecordThread) : t.Advances t.interrupt := ⟨id, id, id⟩

theorem safe_interrupt (h : t.Told) (queue : ℕ) : t.interrupt.Safe queue :=
  ⟨h, by simp [Blocks, interrupt], by simp [starved, interrupt]⟩

theorem finished_of_not_alive (h : t.Begun) (ha : t.alive = false) : t.pc = .finished := by
  simp only [alive, Bool.and_eq_false_iff, bne_eq_false_iff_eq] at ha
  exact ha.resolve_left h.1

/-- A thread that has begun ends, or goes on to another place: to `take` only while told to run or where a
frame waits, and to block only where nothing will wake it. -/
theorem step_cases (hb : t.Begun) (h : t.step queue = some (t', queue')) :
    t'.pc = .finished ∨ ∃ p, t' = { t with pc := p } ∧ p ≠ .created ∧ p ≠ .starting ∧ p ≠ .woken ∧
      (p = .taking → t.isRunning = true ∨ queue' ≠ 0) ∧ (p = .blocked → t.Blocks queue) := by
  simp only [step] at h
  split at h
  · cases h
  · cases h
  · next hpc => exact absurd hpc hb.2
  · next hpc =>
      cases h
      refine .inr ⟨_, rfl, ?_⟩
      cases t.isRunning <;> simp
  · next hpc =>
      cases h
      split
      · exact .inl rfl
      · next hq => exact .inr ⟨_, rfl, nofun, nofun, nofun, fun _ => .inr hq, nofun⟩
  · next hpc =>
      split at h
      · cases h; exact .inl rfl
      · next hi =>
          split at h
          · next hq =>
              cases h
              exact .inr ⟨_, rfl, nofun, nofun, nofun, nofun, fun _ => ⟨.inl hpc, hq, by simpa using hi⟩⟩
          · cases h; exact .inr ⟨_, rfl, nofun, nofun, nofun, nofun, nofun⟩
  · split at h
    · cases h; exact .inl rfl
    · cases h
  · next hpc =>
      split at h
      · cases h; exact .inr ⟨_, rfl, nofun, nofun, nofun, nofun, nofun⟩
      · next hq =>
          split at h
          · cases h; exact .inl rfl
          · next hi =>
              cases h
              exact .inr ⟨_, rfl, nofun, nofun, nofun, nofun,
                fun _ => ⟨.inr hpc, by simpa using hq, by simpa using hi⟩⟩
  · cases h; exact .inr ⟨_, rfl, nofun, nofun, nofun, nofun, nofun⟩

theorem step_of_finished (h : t.pc = .finished) (queue : ℕ) : t.step queue = none := by
  rw [step, h]

theorem advances_step (h : t.step queue = some (t', queue')) : t.Advances t' := by
  have hbegun : t.Begun → t'.Begun := by
    intro hb
    obtain hpc | ⟨p, rfl, hcreated, hstarting, _⟩ := step_cases hb h
    · simp [Begun, hpc]
    · exact ⟨hcreated, hstarting⟩
  refine ⟨hbegun, fun htold => ?_, fun hpc => ?_⟩
  · obtain hpc | ⟨p, rfl, _⟩ := step_cases htold.begun h
    · exact .inl hpc
    · obtain hpc | hstop := htold
      · rw [step_of_finished hpc] at h; cases h
      · exact .inr ⟨hbegun hstop.1, hstop.2⟩
  · rw [step_of_finished hpc] at h; cases h

/-- A thread that was safe finds a frame or an interrupt each time it takes. -/
theorem Safe.step (hsafe : t.Safe queue) (h : t.step queue = some (t', queue')) : t'.Safe queue' := by
  have htold := (advances_step h).told hsafe.told
  obtain hpc | ⟨p, rfl, _, _, hwoken, htaking, hblocked⟩ := step_cases hsafe.told.begun h
  · exact safe_of_finished hpc queue'
  · have hnot : p ≠ .blocked := fun hp => hsafe.not_blocks (hblocked hp)
    refine ⟨htold, fun ⟨hp, hq, _⟩ => ?_, by simp [starved, hnot]⟩
    obtain hpc | hstop := hsafe.told
    · rw [step_of_finished hpc] at h; cases h
    · rcases htaking (hp.resolve_right hwoken) with hrun | hframe
      · simp [hstop.2] at hrun
      · exact hframe hq

theorem wake_eq_some :
    t.wake queue = some t' ↔ t.pc = .blocked ∧ queue ≠ 0 ∧ t' = { t with pc := .woken } := by
  rw [wake]
  split
  · next h => simp [h, eq_comm]
  · next h => simp only [reduceCtorEq, false_iff]; rintro ⟨h₁, h₂, _⟩; exact h ⟨h₁, h₂⟩

theorem advances_wake (h : t.wake queue = some t') : t.Advances t' := by
  obtain ⟨hpc, _, rfl⟩ := wake_eq_some.mp h
  exact ⟨by simp [Begun], by simp [Told, Begun, hpc], by simp [hpc]⟩

theorem Safe.wake (hsafe : t.Safe queue) (h : t.wake queue = some t') : t'.Safe queue := by
  have htold := (advances_wake h).told hsafe.told
  obtain ⟨_, hqueue, rfl⟩ := wake_eq_some.mp h
  exact ⟨htold, by simp [Blocks, hqueue], by simp [starved]⟩

/-- More frames do no harm. -/
theorem Safe.mono (h : t.Safe queue) (hle : queue ≤ queue') : t.Safe queue' where
  told := h.told
  not_blocks := fun ⟨hpc, hq, hi⟩ => h.not_blocks ⟨hpc, by omega, hi⟩
  not_starved := by
    have hs := h.not_starved
    simp only [starved, Bool.and_eq_false_iff, decide_eq_false_iff_not, Bool.not_eq_false'] at hs ⊢
    rcases hs with (hs | hs) | hs
    · exact .inl (.inl hs)
    · exact .inl (.inr (by omega))
    · exact .inr hs

end VideoRecordThread

end MyDemo.Javacv

import MyDemo.Ijk.IjkPlayView
import MyDemo.Lib.Transition

/-!
# One timer at a time
-/

namespace MyDemo.Ijk

open Transition

namespace IjkPlayView

variable {s s' : IjkPlayView}

def OneTimer (s : IjkPlayView) : Prop := s.queue.length ≤ 1

/-- The handlers that post `progressRun`: a tap does when the player does not play. -/
def Posts (s : IjkPlayView) : Action → Prop
  | .prepared _ _ | .stopTrackingTouch _ _ => True
  | .click => s.isPlaying = false
  | _ => False

/-- A handler posts `progressRun` only if, since it was posted last, a drag has started or it has run
while the player was paused or dragged. -/
def TimerOff (s : IjkPlayView) (a : Action) : Prop := s.Posts a → s.log.head? ≠ some .posted

/-- A copy is pending if and only if nothing has ended the last one posted. -/
def Tracked (s : IjkPlayView) : Prop := s.queue ≠ [] ↔ s.log.head? = some .posted

/-! ## What the handlers do to the queue -/

@[simp] theorem queue_setProgress (position duration : Int64) :
    (s.setProgress position duration).1.queue = s.queue := by
  rw [setProgress]
  split <;> rfl

@[simp] theorem log_setProgress (position duration : Int64) :
    (s.setProgress position duration).1.log = s.log := by
  rw [setProgress]
  split <;> rfl

theorem progressRun_cases (s : IjkPlayView) (position duration : Int64) :
    (∃ delay, (s.progressRun position duration).queue = s.queue ++ [delay] ∧
      (s.progressRun position duration).log = s.log) ∨
    (s.progressRun position duration).queue = s.queue ∧
      (s.progressRun position duration).log = .ended :: s.log := by
  rw [progressRun]
  dsimp only
  split
  · exact .inl ⟨_, by rw [queue_setProgress], log_setProgress position duration⟩
  · exact .inr ⟨queue_setProgress position duration, by rw [log_setProgress]⟩

/-- A step posts a copy, removes them all, lets one run, or leaves the queue alone. -/
theorem step_cases {a : Action} (h : s.step a = some s') :
    (s.Posts a ∧ s'.queue = s.queue ++ [0] ∧ s'.log = .posted :: s.log) ∨
    (¬ s.Posts a ∧ s'.queue = [] ∧ s'.log = .removed :: s.log) ∨
    (¬ s.Posts a ∧ ∃ i position duration, i < s.queue.length ∧
      s' = { s with queue := s.queue.eraseIdx i }.progressRun position duration) ∨
    (¬ s.Posts a ∧ s'.queue = s.queue ∧ s'.log = s.log) := by
  cases a with
  | prepared autoStart duration => cases h; exact .inl ⟨trivial, rfl, rfl⟩
  | click =>
      simp only [step] at h
      split at h
      · cases h
        rw [onClick]
        split
        · next hplaying => exact .inr (.inr (.inr ⟨Bool.not_eq_false _ |>.mpr hplaying, rfl, rfl⟩))
        · next hplaying => exact .inl ⟨Bool.eq_false_iff.mpr hplaying, rfl, rfl⟩
      · cases h
  | startTrackingTouch =>
      simp only [step] at h
      split at h
      · cases h; exact .inr (.inl ⟨id, rfl, rfl⟩)
      · cases h
  | stopTrackingTouch position duration =>
      simp only [step] at h
      split at h
      · cases h
        refine .inl ⟨trivial, ?_, ?_⟩
        · simp only [onStopTrackingTouch, post, queue_setProgress]
        · simp only [onStopTrackingTouch, post, log_setProgress]
      · cases h
  | completion => cases h; exact .inr (.inr (.inr ⟨id, rfl, rfl⟩))
  | bufferingUpdate percent => cases h; exact .inr (.inr (.inr ⟨id, rfl, rfl⟩))
  | fire i position duration =>
      simp only [step] at h
      split at h
      · cases h
      · next hi =>
          cases h
          have hlt : i < s.queue.length := (List.getElem?_eq_some_iff.mp hi).choose
          exact .inr (.inr (.inl ⟨id, i, position, duration, hlt, rfl⟩))

/-! ## One timer -/

theorem eraseIdx_of_oneTimer {i : ℕ} (h : OneTimer s) (hi : i < s.queue.length) :
    s.queue.eraseIdx i = [] := by
  rw [List.eq_nil_iff_length_eq_zero, List.length_eraseIdx_of_lt hi]
  have hone : s.queue.length ≤ 1 := h
  omega

theorem Tracked.step {a : Action} (h : Tracked s) (hs : OneTimer s) (hstep : s.step a = some s') :
    Tracked s' := by
  obtain ⟨-, hqueue, hlog⟩ | ⟨-, hqueue, hlog⟩ | ⟨-, i, position, duration, hi, rfl⟩ | ⟨-, hqueue, hlog⟩ :=
    step_cases hstep
  · rw [Tracked, hqueue, hlog]
    exact iff_of_true (by simp) rfl
  · rw [Tracked, hqueue, hlog]
    exact iff_of_false (fun hne => hne rfl) nofun
  · have hpending : s.log.head? = some .posted := h.mp (List.ne_nil_of_length_pos (by omega))
    rcases progressRun_cases { s with queue := s.queue.eraseIdx i } position duration with
      ⟨delay, hqueue, hlog⟩ | ⟨hqueue, hlog⟩
    · rw [Tracked, hqueue, hlog]
      exact iff_of_true (by simp) hpending
    · rw [Tracked, hqueue, hlog]
      exact iff_of_false (fun hne => hne (eraseIdx_of_oneTimer hs hi)) nofun
  · rw [Tracked, hqueue, hlog]
    exact h

theorem oneTimer_step {a : Action} (h : Tracked s) (hs : OneTimer s) (hstep : s.step a = some s') :
    OneTimer s' ↔ s.TimerOff a := by
  obtain ⟨hpost, hqueue, -⟩ | ⟨hpost, hqueue, -⟩ | ⟨hpost, i, position, duration, hi, rfl⟩ |
    ⟨hpost, hqueue, -⟩ := step_cases hstep
  · have hempty : OneTimer s' ↔ s.queue = [] := by simp [OneTimer, hqueue]
    have hoff : s.TimerOff a ↔ s.log.head? ≠ some .posted := ⟨fun hoff => hoff hpost, fun hne _ => hne⟩
    rw [hempty, hoff, ← not_ne_iff]
    exact not_congr h
  · exact iff_of_true (by simp [OneTimer, hqueue]) fun hp => absurd hp hpost
  · refine iff_of_true ?_ fun hp => absurd hp hpost
    rcases progressRun_cases { s with queue := s.queue.eraseIdx i } position duration with
      ⟨delay, hqueue, -⟩ | ⟨hqueue, -⟩
    · rw [OneTimer, hqueue]
      simp [eraseIdx_of_oneTimer hs hi]
    · rw [OneTimer, hqueue]
      simp [eraseIdx_of_oneTimer hs hi]
  · refine iff_of_true ?_ fun hp => absurd hp hpost
    rw [OneTimer, hqueue]
    exact hs

/-- There is one timer in the runs whose handlers all post when it is off, and in no others. -/
theorem one_timer_iff (as : List Action) : Always step OneTimer new as ↔ Each step TimerOff new as :=
  always_iff_each_within (A := fun _ => True) (I := Tracked) (P := OneTimer) (C := TimerOff)
    (fun _ _ _ _ h hs hstep _ => h.step hs hstep) (fun _ _ _ _ h hs hstep => oneTimer_step h hs hstep)
    (fun _ _ => trivial) (by simp [Tracked, new]) (Nat.zero_le 1)

/-- The video is paused and resumed before the copy that is pending has run. -/
theorem pause_and_resume_two_timers :
    ¬ Always step OneTimer new [.prepared true 60000, .click, .click] := by
  intro h
  have htwo : OneTimer _ := always_iff.mp h _ _ (List.prefix_refl _) rfl
  exact absurd htwo (by simp [OneTimer, onClick, pause, start, post, initPs, onPrepared, initSeekBar, new])

end IjkPlayView

end MyDemo.Ijk

import MyDemo.Javacv.RecordFragments
import MyDemo.Lib.Transition

/-!
# Timestamps follow the clock
-/

namespace MyDemo.Javacv

open Transition

namespace FFmpegRecordActivity

variable {s s' : FFmpegRecordActivity}

/-- `offers` has the newest offer first. -/
structure Timed (s : FFmpegRecordActivity) : Prop where
  nonempty : s.mRecording = true → s.mRecordFragments ≠ []
  ordered : s.offers.Pairwise fun newer older => older.timestamp ≤ newer.timestamp
  bounded : ∀ o ∈ s.offers, o.timestamp ≤ 1000 * MAX_VIDEO_LENGTH
  exact : ∀ o ∈ s.offers, o.timestamp = 1000 * (calculateTotalRecordedTime o.closed + (o.time - o.start))

/-- The audio thread does not stop while a fragment is recorded. -/
def Steady (s : FFmpegRecordActivity) : Action → Prop
  | .audio false => s.mRecording = true → s.audioRunning = false
  | _ => True

instance : (a : Action) → Decidable (s.Steady a)
  | .audio false => inferInstanceAs (Decidable (s.mRecording = true → s.audioRunning = false))
  | .audio true | .resume _ | .pause _ | .previewFrame _ _ | .stopRecorder => isTrue trivial

/-! ## The invariant -/

/-- No frame has been offered past this time of the recording. -/
def Within (s : FFmpegRecordActivity) (time : ℤ) : Prop := ∀ o ∈ s.offers, o.timestamp ≤ 1000 * time

/-- How far the current fragment has got: it does not count before the audio thread runs. -/
def current (s : FFmpegRecordActivity) (f : RecordFragment) : ℤ :=
  if s.audioRunning then s.now - f.startTimestamp else 0

/-- The stack is the fragments that have been ended, below the current one. -/
structure Inv (s : FFmpegRecordActivity) : Prop where
  paused : s.mRecording = false →
    s.mRecordFragments = s.closed ∧ s.Within (calculateTotalRecordedTime s.closed)
  recording : s.mRecording = true → ∃ f, s.mRecordFragments = f :: s.closed ∧ f.startTimestamp ≤ s.now ∧
    s.Within (calculateTotalRecordedTime s.closed + s.current f)
  ordered : s.offers.Pairwise fun newer older => older.timestamp ≤ newer.timestamp
  bounded : ∀ o ∈ s.offers, o.timestamp ≤ 1000 * MAX_VIDEO_LENGTH
  exact : ∀ o ∈ s.offers, o.timestamp = 1000 * (calculateTotalRecordedTime o.closed + (o.time - o.start))

theorem Inv.timed (h : Inv s) : Timed s where
  nonempty hrec := by
    obtain ⟨f, hstack, -⟩ := h.recording hrec
    rw [hstack]
    exact List.cons_ne_nil _ _
  ordered := h.ordered
  bounded := h.bounded
  exact := h.exact

theorem Inv.new : Inv new where
  paused _ := ⟨rfl, fun _ ho => by cases ho⟩
  recording h := by cases h
  ordered := List.Pairwise.nil
  bounded _ ho := by cases ho
  exact _ ho := by cases ho

theorem Within.mono {time time' : ℤ} (h : s.Within time) (hle : time ≤ time') : s.Within time' :=
  fun o ho => by have hle' := h o ho; omega

theorem Inv.tick (h : Inv s) {time : ℤ} (hle : s.now ≤ time) : Inv { s with now := time } where
  paused := h.paused
  recording hrec := by
    obtain ⟨f, hstack, hf, hwithin⟩ := h.recording hrec
    refine ⟨f, hstack, Int.le_trans hf hle, Within.mono hwithin ?_⟩
    simp only [current]
    split <;> omega
  ordered := h.ordered
  bounded := h.bounded
  exact := h.exact

theorem Inv.resumeRecording (h : Inv s) : Inv (s.resumeRecording s.now) := by
  rw [FFmpegRecordActivity.resumeRecording]
  split
  · next hrec =>
      obtain ⟨hstack, hwithin⟩ := h.paused (by simpa using hrec)
      refine ⟨nofun, fun _ => ⟨_, by rw [hstack], Int.le_refl _, ?_⟩, h.ordered, h.bounded, h.exact⟩
      exact Within.mono hwithin (by simp [current])
  · exact h

theorem Inv.pauseRecording (h : Inv s) (hs : s.pauseRecording s.now = some s') : Inv s' := by
  rw [FFmpegRecordActivity.pauseRecording] at hs
  split at hs
  · next hrec =>
      obtain ⟨f, hstack, hf, hwithin⟩ := h.recording hrec
      rw [hstack] at hs
      cases hs
      refine ⟨fun _ => ⟨rfl, Within.mono hwithin ?_⟩, nofun, h.ordered, h.bounded, h.exact⟩
      simp only [current, calculateTotalRecordedTime, List.map_cons, List.sum_cons,
        RecordFragment.getDuration]
      split <;> omega
  · cases hs; exact h

theorem Inv.setAudio (h : Inv s) {running : Bool} (hsteady : s.Steady (.audio running)) :
    Inv (s.setAudio running) where
  paused := h.paused
  recording hrec := by
    obtain ⟨f, hstack, hf, hwithin⟩ := h.recording hrec
    refine ⟨f, hstack, hf, Within.mono hwithin ?_⟩
    cases running with
    | true =>
        simp only [current, FFmpegRecordActivity.setAudio, if_true]
        split <;> omega
    | false =>
        simp [current, FFmpegRecordActivity.setAudio, show s.audioRunning = false from hsteady hrec]
  ordered := h.ordered
  bounded := h.bounded
  exact := h.exact

/-- A frame is offered at the time the recording has got to, which no earlier frame has passed. -/
theorem Inv.onPreviewFrame (h : Inv s) {time pauseTime : ℤ} (htime : s.now ≤ time) (hpause : time ≤ pauseTime)
    (hs : { s with now := pauseTime }.onPreviewFrame time pauseTime = some s') : Inv s' := by
  have htick : Inv { s with now := pauseTime } := h.tick (Int.le_trans htime hpause)
  rw [FFmpegRecordActivity.onPreviewFrame] at hs
  split at hs
  · next hrec =>
      obtain ⟨f, hstack, hf, hwithin⟩ := h.recording hrec
      simp only [hstack] at hs
      split at hs
      · next haudio =>
          have haudio' : s.audioRunning = false := by simpa using haudio
          cases hs
          refine ⟨fun hnot => ?_, fun _ => ⟨_, rfl, hpause, Within.mono hwithin ?_⟩, h.ordered, h.bounded,
            h.exact⟩
          · rw [show s.mRecording = true from hrec] at hnot; cases hnot
          · simp [current, haudio']
      · next haudio =>
          have haudio' : s.audioRunning = true := by simpa using haudio
          split at hs
          · rw [← hstack] at hs
            exact htick.pauseRecording hs
          · next hlimit =>
              have hcurrent : s.current f = s.now - f.startTimestamp := by rw [current, if_pos haudio']
              rw [hcurrent] at hwithin
              cases hs
              refine ⟨fun hnot => ?_, fun _ => ⟨f, rfl, ?_, ?_⟩, List.pairwise_cons.mpr ⟨?_, h.ordered⟩,
                List.forall_mem_cons.mpr ⟨?_, h.bounded⟩, List.forall_mem_cons.mpr ⟨?_, h.exact⟩⟩
              · rw [show s.mRecording = true from hrec] at hnot; cases hnot
              · exact Int.le_trans hf (Int.le_trans htime hpause)
              · simp only [Within, current, haudio', if_true, List.forall_mem_cons]
                refine ⟨by omega, fun o ho => ?_⟩
                have hle := hwithin o ho
                omega
              · intro o ho
                have hle := hwithin o ho
                dsimp only
                omega
              · dsimp only
                omega
              · dsimp only
                omega
  · cases hs; exact htick

theorem Inv.step {a : Action} (h : Inv s) (hsteady : s.Steady a) (hs : s.step a = some s') : Inv s' := by
  cases a with
  | resume time =>
      simp only [FFmpegRecordActivity.step] at hs
      split at hs
      · next hle => cases hs; exact (h.tick hle).resumeRecording
      · cases hs
  | pause time =>
      simp only [FFmpegRecordActivity.step] at hs
      split at hs
      · next hle => exact (h.tick hle).pauseRecording hs
      · cases hs
  | previewFrame time pauseTime =>
      simp only [FFmpegRecordActivity.step] at hs
      split at hs
      · next hle => exact h.onPreviewFrame hle.1 hle.2 hs
      · cases hs
  | stopRecorder =>
      simp only [FFmpegRecordActivity.step] at hs
      split at hs
      · cases hs
      · next hrec =>
          cases hs
          exact ⟨fun _ => ⟨rfl, fun _ ho => by cases ho⟩, fun hnot => absurd hnot hrec, List.Pairwise.nil,
            fun _ ho => (by cases ho), fun _ ho => (by cases ho)⟩
  | audio running => cases hs; exact h.setAudio hsteady

/-- While the audio thread, once it runs, runs to the end of its fragment. -/
theorem timestamps_follow_clock {as : List Action} (h : Each step Steady new as) : Always step Timed new as :=
  always_of_each (fun _ _ _ hinv hsteady hs => hinv.step hsteady hs) (fun _ hinv => hinv.timed) Inv.new h

theorem timestamps_follow_clock_two_fragments : Always step Timed new
    [.audio true, .resume 0, .previewFrame 10 10, .pause 20, .resume 50, .previewFrame 55 55] :=
  timestamps_follow_clock (by decide)

/-- The audio thread starts once in the fragment, but it was running before: the start of the fragment is
pushed forward past a frame that has been offered. -/
theorem audio_break_turns_back :
    Always step (fun s => s.rises ≤ 1) new [.audio true, .resume 0, .previewFrame 10 10, .audio false,
      .previewFrame 20 20, .audio true, .previewFrame 25 25] ∧
    ¬ Always step Timed new [.audio true, .resume 0, .previewFrame 10 10, .audio false,
      .previewFrame 20 20, .audio true, .previewFrame 25 25] := by
  refine ⟨by decide, fun h => ?_⟩
  have htimed := always_iff.mp h _ _ (List.prefix_refl _) rfl
  exact absurd htimed.ordered (by decide)

end FFmpegRecordActivity

end MyDemo.Javacv

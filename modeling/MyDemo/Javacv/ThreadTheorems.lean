import MyDemo.Javacv.Lemmas.Calls
import MyDemo.Lib.Transition

/-!
# When the recorder can be stopped
-/

namespace MyDemo.Javacv

open List Transition

namespace RecordThreads

variable {s s' : RecordThreads}

/-- No call waits in `join` for a thread that does not come to its end. -/
def NoDeadlock (s : RecordThreads) : Prop := ∀ c ∈ s.calls, s.stuck c = false

instance : DecidablePred NoDeadlock := fun s => inferInstanceAs (Decidable (∀ c ∈ s.calls, s.stuck c = false))

/-- `startRecording` is called only while no other call is in progress and once the earlier threads have
finished, `stopRecording` only while no `startRecording` is in progress, and its tests come when the thread
tested is ready for them. -/
def Timely (s : RecordThreads) : Action → Prop
  | .startRecording => s.calls = [] ∧ (∀ t ∈ s.audioThreads, t.pc = .finished) ∧
      ∀ t ∈ s.videoThreads, t.pc = .finished
  | .stopRecording => ∀ c ∈ s.calls, c.starts = false
  | .call j => ∀ c ∈ s.calls[j]?, s.TimelyCall c
  | _ => True

instance (s : RecordThreads) : ∀ c, Decidable (s.TimelyCall c)
  | .testAudio => inferInstanceAs (Decidable (∀ t ∈ s.mAudioRecordThread.bind (s.audioThreads[·]?), t.Begun))
  | .testVideo => inferInstanceAs (Decidable (∀ t ∈ s.mVideoRecordThread.bind (s.videoThreads[·]?),
      t.Begun ∧ (t.isRunning = false → ¬ t.Blocks s.mFrameToRecordQueue ∧
        t.starved s.mFrameToRecordQueue = false)))
  | .testWaiting i => inferInstanceAs (Decidable (∀ t ∈ s.videoThreads[i]?, ¬ t.Blocks s.mFrameToRecordQueue))
  | .newAudio | .startAudio | .newVideo | .startVideo | .clearAudio | .clearVideo | .interruptVideo _
  | .joinAudio | .joiningAudio _ | .joinVideo | .joiningVideo _ | .forgetAudio | .forgetVideo
  | .clear => inferInstanceAs (Decidable True)

instance (s : RecordThreads) : ∀ a, Decidable (s.Timely a)
  | .startRecording => inferInstanceAs (Decidable
      (s.calls = [] ∧ (∀ t ∈ s.audioThreads, t.pc = .finished) ∧ ∀ t ∈ s.videoThreads, t.pc = .finished))
  | .stopRecording => inferInstanceAs (Decidable (∀ c ∈ s.calls, c.starts = false))
  | .call j => inferInstanceAs (Decidable (∀ c ∈ s.calls[j]?, s.TimelyCall c))
  | .resumeRecording | .pauseRecording | .offer | .audio _ | .video _
  | .wake _ => inferInstanceAs (Decidable True)

structure Inv (s : RecordThreads) : Prop where
  audio : s.AudioBut s.mAudioRecordThread
  video : s.VideoBut s.mVideoRecordThread
  ok : ∀ c ∈ s.calls, s.Ok c
  alone : ∀ c ∈ s.calls, c.starts = true → s.calls = [c]

theorem Inv.new : Inv new := ⟨nofun, nofun, nofun, nofun⟩

/-- A step that no call takes. -/
theorem Inv.of_keeps (h : Inv s) (hk : Keeps s s') (haudio : s'.mAudioRecordThread = s.mAudioRecordThread)
    (hvideo : s'.mVideoRecordThread = s.mVideoRecordThread) (hcalls : s'.calls = s.calls) : Inv s' where
  audio := haudio ▸ hk.audioBut h.audio
  video := hvideo ▸ hk.videoBut h.video
  ok c hc := by
    rw [hcalls] at hc
    exact hk.ok (h.ok c hc)
  alone := hcalls ▸ h.alone

theorem Inv.startRecording (h : Inv s) (ht : s.Timely .startRecording) :
    Inv { s with calls := s.calls ++ [.newAudio] } := by
  obtain ⟨hcalls, haudio, hvideo⟩ := ht
  rw [hcalls]
  refine ⟨h.audio, h.video, fun c hc => ?_, fun c hc _ => ?_⟩
  · cases List.mem_singleton.mp hc; exact ⟨allBut_none.mpr haudio, allBut_none.mpr hvideo⟩
  · cases List.mem_singleton.mp hc; rfl

theorem Inv.stopRecording (h : Inv s) (ht : s.Timely .stopRecording) :
    Inv { s with calls := s.calls ++ [.testAudio] } := by
  refine ⟨h.audio, h.video, fun c hc => ?_, fun c hc hstart => ?_⟩
  · rcases List.mem_append.mp hc with hc | hc
    · exact h.ok c hc
    · cases List.mem_singleton.mp hc; trivial
  · rcases List.mem_append.mp hc with hc | hc
    · rw [ht c hc] at hstart; cases hstart
    · cases List.mem_singleton.mp hc; cases hstart

/-- The calls after an access at place `j`. -/
theorem advance_eq_some {j : ℕ} (h : s.advance j = some s') :
    ∃ c t o, s.calls[j]? = some c ∧ s.access c = some (t, o) ∧
      (o = none ∧ s' = { t with calls := s.calls.eraseIdx j } ∨
        ∃ c', o = some c' ∧ s' = { t with calls := s.calls.set j c' }) := by
  rw [advance] at h
  split at h
  · cases h
  · next c hc =>
      split at h
      · cases h
      · next t c' hacc => cases h; exact ⟨c, t, _, hc, hacc, .inr ⟨c', rfl, rfl⟩⟩
      · next t hacc => cases h; exact ⟨c, t, _, hc, hacc, .inl ⟨rfl, rfl⟩⟩

theorem Inv.of_started {t : RecordThreads} {o : Option Call} (h : Started s t o)
    {calls : List Call} (hcalls : calls = o.toList) :
    Inv { t with calls := calls } where
  audio := h.audio
  video := h.video
  ok d hd := h.next d (by simpa [hcalls] using hd)
  alone d hd _ := by
    subst hcalls
    cases o with
    | none => cases hd
    | some c' => cases List.mem_singleton.mp hd; rfl

theorem Inv.not_starts (h : Inv s) {c d : Call} (hc : c ∈ s.calls) (hstop : c.starts = false)
    (hd : d ∈ s.calls) : d.starts = false := by
  cases hstart : d.starts with
  | false => rfl
  | true =>
      rw [h.alone d hd hstart, List.mem_singleton] at hc
      rw [← hc, hstop] at hstart
      cases hstart

theorem Inv.of_outcome (h : Inv s) {c : Call} (hc : c ∈ s.calls) (hstop : c.starts = false)
    {t : RecordThreads} {o : Option Call} (hout : Outcome s t o) {calls : List Call}
    (hcalls : ∀ d ∈ calls, d ∈ s.calls ∨ d ∈ o) : Inv { t with calls := calls } where
  audio := hout.audio
  video := hout.video
  ok d hd := by
    rcases hcalls d hd with hd | hd
    · exact hout.keeps.ok (h.ok d hd)
    · exact (hout.next d hd).1
  alone d hd hstart := by
    rcases hcalls d hd with hd | hd
    · rw [h.not_starts hc hstop hd] at hstart; cases hstart
    · rw [(hout.next d hd).2] at hstart; cases hstart

theorem Inv.advance (h : Inv s) {j : ℕ} (ht : s.Timely (.call j)) (hs : s.advance j = some s') :
    Inv s' := by
  obtain ⟨c, t, o, hj, hacc, hcases⟩ := advance_eq_some hs
  have hc : c ∈ s.calls := List.mem_of_getElem? hj
  cases hstart : c.starts with
  | true =>
      have halone : s.calls = [c] := h.alone c hc hstart
      have hzero : j = 0 := by
        rw [halone, List.getElem?_singleton] at hj
        by_contra hne
        simp [hne] at hj
      have hout := started_of_start hstart h.audio h.video (h.ok c hc) hacc
      rcases hcases with ⟨rfl, rfl⟩ | ⟨c', rfl, rfl⟩
      · exact .of_started hout (by rw [halone, hzero]; rfl)
      · exact .of_started hout (by rw [halone, hzero]; rfl)
  | false =>
      have hout := outcome_of_stop hstart h.audio h.video (h.ok c hc) (ht c hj) hacc
      rcases hcases with ⟨rfl, rfl⟩ | ⟨c', rfl, rfl⟩
      · exact h.of_outcome hc hstart hout fun d hd => .inl (List.mem_of_mem_eraseIdx hd)
      · exact h.of_outcome hc hstart hout fun d hd => (List.mem_or_eq_of_mem_set hd).imp id (by rintro rfl; rfl)

/-! ## Every run -/

theorem inv_step {a : Action} (h : Inv s) (ht : s.Timely a) (hs : s.step a = some s') : Inv s' := by
  cases a with
  | resumeRecording => cases hs; exact h.of_keeps ⟨.refl .refl _, .refl .refl _, id⟩ rfl rfl rfl
  | pauseRecording => cases hs; exact h.of_keeps ⟨.refl .refl _, .refl .refl _, id⟩ rfl rfl rfl
  | offer =>
      simp only [step] at hs
      split at hs
      · cases hs; exact h.of_keeps (keeps_queue (Nat.le_succ _)) rfl rfl rfl
      · cases hs
  | startRecording => cases hs; exact h.startRecording ht
  | stopRecording => cases hs; exact h.stopRecording ht
  | call j => exact h.advance ht hs
  | audio i =>
      simp only [step] at hs
      split at hs
      · cases hs
      · next t' hbind =>
          cases hs
          obtain ⟨t, hmem, hstep⟩ := Option.bind_eq_some_iff.mp hbind
          exact h.of_keeps (keeps_set_audio hmem (AudioRecordThread.advances_step hstep)) rfl rfl rfl
  | video i =>
      simp only [step] at hs
      split at hs
      · cases hs
      · next t' queue hbind =>
          cases hs
          obtain ⟨t, hmem, hstep⟩ := Option.bind_eq_some_iff.mp hbind
          refine h.of_keeps (keeps_set_video hmem h.video (fun hpc => ?_)
            (VideoRecordThread.advances_step hstep) (fun hsafe => hsafe.step hstep)) rfl rfl rfl
          rw [VideoRecordThread.step_of_finished hpc] at hstep
          cases hstep
  | wake i =>
      simp only [step] at hs
      split at hs
      · cases hs
      · next t' hbind =>
          cases hs
          obtain ⟨t, hmem, hwake⟩ := Option.bind_eq_some_iff.mp hbind
          refine h.of_keeps (keeps_set_video hmem h.video (fun hpc => ?_)
            (VideoRecordThread.advances_wake hwake) (fun hsafe => hsafe.wake hwake)) rfl rfl rfl
          rw [(VideoRecordThread.wake_eq_some.mp hwake).1] at hpc
          cases hpc

theorem Inv.noDeadlock (h : Inv s) : NoDeadlock s := by
  intro c hc
  have hok := h.ok c hc
  cases c with
  | joiningAudio i =>
      cases hmem : s.audioThreads[i]? with
      | none => simp [stuck, hmem]
      | some t => simp [stuck, hmem, (hok.1 t (List.mem_of_getElem? hmem)).not_running]
  | joiningVideo i =>
      cases hmem : s.videoThreads[i]? with
      | none => simp [stuck, hmem]
      | some t =>
          have hsafe := hok.2.1 t (List.mem_of_getElem? hmem)
          simp [stuck, hmem, hsafe.told.not_running, hsafe.not_starved]
  | _ => rfl

/-- However the threads take turns. -/
theorem never_deadlocks (as : List Action) (h : Each step Timely new as) : Always step NoDeadlock new as :=
  always_of_each (fun _ _ _ hinv ht hs => inv_step hinv ht hs) (fun _ hinv => hinv.noDeadlock) Inv.new h

/-- The accesses of a call of `startRecording`. -/
def started : List Action := [.startRecording, .call 0, .call 0, .call 0, .call 0]

/-- The thread waits for a frame when `stopRecording` comes, and a second call comes after the interrupt. -/
theorem never_deadlocks_interrupted : Always step NoDeadlock new (started ++
    [.audio 0, .video 0, .video 0, .video 0, .stopRecording, .call 0, .call 0, .call 0, .call 0, .call 0, .call 0,
      .stopRecording, .call 1, .call 1, .call 0, .call 1, .audio 0, .call 0, .call 0, .call 1, .video 0, .call 0]) :=
  never_deadlocks _ (by decide)

/-- `stopRecording` finds `isRunning` false, and then the thread sets it. -/
theorem early_stop_deadlocks : ¬ Always step NoDeadlock new (started ++
    [.stopRecording, .call 0, .call 0, .call 0, .audio 0]) := by
  decide

/-- The thread has passed the test of the loop, is not waiting yet when tested, and then blocks. -/
theorem lost_interrupt_deadlocks : ¬ Always step NoDeadlock new (started ++
    [.audio 0, .video 0, .video 0, .stopRecording, .call 0, .call 0, .call 0, .call 0, .call 0, .call 0, .audio 0,
      .call 0, .call 0, .video 0]) := by
  decide

end RecordThreads

end MyDemo.Javacv

import MyDemo.Javacv.Lemmas.Threads

/-!
# What a call may rely on
-/

namespace MyDemo.Javacv

open List

/-- The calls of `startRecording`. -/
def Call.starts : Call → Bool
  | .newAudio | .startAudio | .newVideo | .startVideo => true
  | _ => false

namespace RecordThreads

variable {s s' : RecordThreads} {c c' : Call} {o : Option Call}

abbrev AudioBut (s : RecordThreads) (place : Option ℕ) : Prop := AllBut (·.pc = .finished) s.audioThreads place

abbrev VideoBut (s : RecordThreads) (place : Option ℕ) : Prop := AllBut (·.pc = .finished) s.videoThreads place

def AudioTold (s : RecordThreads) : Prop := ∀ t ∈ s.audioThreads, t.Told

def VideoTold (s : RecordThreads) : Prop := ∀ t ∈ s.videoThreads, t.Told

def VideoSafe (s : RecordThreads) : Prop := ∀ t ∈ s.videoThreads, t.Safe s.mFrameToRecordQueue

/-- What holds at each place of a call. -/
def Ok (s : RecordThreads) : Call → Prop
  | .newAudio => s.AudioBut none ∧ s.VideoBut none
  | .startAudio | .newVideo => s.VideoBut none
  | .startVideo | .testAudio => True
  | .clearAudio => ∀ t ∈ s.audioThreads, t.Begun
  | .testVideo => s.AudioTold
  | .clearVideo => s.AudioTold ∧ ∀ t ∈ s.videoThreads, t.Begun
  | .testWaiting i | .interruptVideo i => s.AudioTold ∧ s.VideoTold ∧ s.VideoBut (some i)
  | .joinAudio => s.AudioTold ∧ s.VideoSafe
  | .joiningAudio i => s.AudioTold ∧ s.VideoSafe ∧ s.AudioBut (some i)
  | .joinVideo => s.AudioBut none ∧ s.VideoSafe
  | .joiningVideo i => s.AudioBut none ∧ s.VideoSafe ∧ s.VideoBut (some i)
  | .forgetAudio | .forgetVideo | .clear => s.AudioBut none ∧ s.VideoBut none

/-- What a step leaves to the calls that do not take it. -/
structure Keeps (s s' : RecordThreads) : Prop where
  audio : Follows AudioRecordThread.Advances s.audioThreads s'.audioThreads
  video : Follows VideoRecordThread.Advances s.videoThreads s'.videoThreads
  safe : s.VideoSafe → s'.VideoSafe

namespace Keeps

theorem refl (s : RecordThreads) : Keeps s s := ⟨.refl .refl _, .refl .refl _, id⟩

theorem audioBut (h : Keeps s s') {place : Option ℕ} (hs : s.AudioBut place) : s'.AudioBut place :=
  hs.follows (fun _ _ ha => ha.finished) h.audio

theorem videoBut (h : Keeps s s') {place : Option ℕ} (hs : s.VideoBut place) : s'.VideoBut place :=
  hs.follows (fun _ _ ha => ha.finished) h.video

theorem audioTold (h : Keeps s s') (hs : s.AudioTold) : s'.AudioTold :=
  h.audio.forall_mem (fun _ _ ha => ha.told) hs

theorem videoTold (h : Keeps s s') (hs : s.VideoTold) : s'.VideoTold :=
  h.video.forall_mem (fun _ _ ha => ha.told) hs

/-- A call relies on no more than that. -/
theorem ok (h : Keeps s s') (hok : s.Ok c) : s'.Ok c := by
  cases c with
  | newAudio => exact ⟨h.audioBut hok.1, h.videoBut hok.2⟩
  | startAudio => exact h.videoBut hok
  | newVideo => exact h.videoBut hok
  | startVideo => trivial
  | testAudio => trivial
  | clearAudio => exact h.audio.forall_mem (fun _ _ ha => ha.begun) hok
  | testVideo => exact h.audioTold hok
  | clearVideo => exact ⟨h.audioTold hok.1, h.video.forall_mem (fun _ _ ha => ha.begun) hok.2⟩
  | testWaiting i => exact ⟨h.audioTold hok.1, h.videoTold hok.2.1, h.videoBut hok.2.2⟩
  | interruptVideo i => exact ⟨h.audioTold hok.1, h.videoTold hok.2.1, h.videoBut hok.2.2⟩
  | joinAudio => exact ⟨h.audioTold hok.1, h.safe hok.2⟩
  | joiningAudio i => exact ⟨h.audioTold hok.1, h.safe hok.2.1, h.audioBut hok.2.2⟩
  | joinVideo => exact ⟨h.audioBut hok.1, h.safe hok.2⟩
  | joiningVideo i => exact ⟨h.audioBut hok.1, h.safe hok.2.1, h.videoBut hok.2.2⟩
  | forgetAudio => exact ⟨h.audioBut hok.1, h.videoBut hok.2⟩
  | forgetVideo => exact ⟨h.audioBut hok.1, h.videoBut hok.2⟩
  | clear => exact ⟨h.audioBut hok.1, h.videoBut hok.2⟩

end Keeps

/-! ## Steps of the threads and of the queue -/

theorem VideoSafe.of_but {i : ℕ} (h : s.VideoBut (some i)) {queue : ℕ}
    (hi : ∀ t, s.videoThreads[i]? = some t → t.Safe queue) : ∀ t ∈ s.videoThreads, t.Safe queue :=
  h.forall_mem (fun _ ht => VideoRecordThread.safe_of_finished ht queue)
    (fun _ t hj ht => hi t (by cases hj; exact ht))

theorem keeps_set_audio {i : ℕ} {t t' : AudioRecordThread} (ht : s.audioThreads[i]? = some t)
    (h : t.Advances t') : Keeps s { s with audioThreads := s.audioThreads.set i t' } where
  audio := .set .refl ht h
  video := .refl .refl _
  safe := id

/-- The queue changes for the one thread only that has not finished. -/
theorem keeps_set_video {i queue : ℕ} {t t' : VideoRecordThread} (ht : s.videoThreads[i]? = some t)
    (hbut : s.VideoBut s.mVideoRecordThread) (hunfinished : t.pc ≠ .finished) (h : t.Advances t')
    (hsafe : t.Safe s.mFrameToRecordQueue → t'.Safe queue) :
    Keeps s { s with videoThreads := s.videoThreads.set i t', mFrameToRecordQueue := queue } where
  audio := .refl .refl _
  video := .set .refl ht h
  safe := by
    intro hs u hu
    obtain ⟨j, hj⟩ := List.mem_iff_getElem?.mp hu
    obtain ⟨v, hv, _⟩ := Follows.set VideoRecordThread.Advances.refl ht h j u hj
    rw [List.getElem?_set] at hj
    split at hj
    · split at hj
      · cases hj; exact hsafe (hs t (List.mem_of_getElem? ht))
      · cases hj
    · next hij =>
        obtain hfinished | hfield := hbut j u hj
        · exact VideoRecordThread.safe_of_finished hfinished queue
        · have hi := (hbut i t ht).resolve_left hunfinished
          rw [hfield] at hi
          exact absurd (Option.some.inj hi).symm hij

theorem keeps_queue {queue : ℕ} (h : s.mFrameToRecordQueue ≤ queue) :
    Keeps s { s with mFrameToRecordQueue := queue } where
  audio := .refl .refl _
  video := .refl .refl _
  safe hs t ht := (hs t ht).mono h

/-! ## Steps of the calls -/

theorem keeps_modifyAudio {i : ℕ} {f : AudioRecordThread → AudioRecordThread}
    (hf : ∀ t : AudioRecordThread, t.Advances (f t)) : Keeps s (s.modifyAudio i f) where
  audio := .modify .refl fun t _ => hf t
  video := .refl .refl _
  safe := id

theorem keeps_modifyVideo {i : ℕ} {f : VideoRecordThread → VideoRecordThread}
    (hf : ∀ t : VideoRecordThread, t.Advances (f t))
    (hsafe : ∀ (t : VideoRecordThread) queue, t.Safe queue → (f t).Safe queue) : Keeps s (s.modifyVideo i f) where
  audio := .refl .refl _
  video := .modify .refl fun t _ => hf t
  safe := List.forall_mem_modify fun t ht => hsafe t _ ht

/-- What an access of `stopRecording` comes to. -/
structure Outcome (s s' : RecordThreads) (o : Option Call) : Prop where
  audio : s'.AudioBut s'.mAudioRecordThread
  video : s'.VideoBut s'.mVideoRecordThread
  keeps : Keeps s s'
  next : ∀ c' ∈ o, s'.Ok c' ∧ c'.starts = false
  calls : s'.calls = s.calls

/-- The condition on the tests: the thread tested has set `isRunning`, and one that has been told already is
safe; and a thread tested for `WAITING` is not about to block. -/
def TimelyCall (s : RecordThreads) : Call → Prop
  | .testAudio => ∀ t ∈ s.mAudioRecordThread.bind (s.audioThreads[·]?), t.Begun
  | .testVideo => ∀ t ∈ s.mVideoRecordThread.bind (s.videoThreads[·]?), t.Begun ∧
      (t.isRunning = false → ¬ t.Blocks s.mFrameToRecordQueue ∧ t.starved s.mFrameToRecordQueue = false)
  | .testWaiting i => ∀ t ∈ s.videoThreads[i]?, ¬ t.Blocks s.mFrameToRecordQueue
  | _ => True

theorem Outcome.throws (ha : s.AudioBut s.mAudioRecordThread) (hv : s.VideoBut s.mVideoRecordThread) :
    Outcome s s none :=
  ⟨ha, hv, .refl s, nofun, rfl⟩

theorem Outcome.goto (ha : s.AudioBut s.mAudioRecordThread) (hv : s.VideoBut s.mVideoRecordThread)
    (hok : s.Ok c) (hstop : c.starts = false) : Outcome s s (some c) :=
  ⟨ha, hv, .refl s, fun c' hc' => by cases hc'; exact ⟨hok, hstop⟩, rfl⟩

theorem Outcome.modifyAudio (ha : s.AudioBut s.mAudioRecordThread) (hv : s.VideoBut s.mVideoRecordThread)
    {i : ℕ} {f : AudioRecordThread → AudioRecordThread} (hf : ∀ t : AudioRecordThread, t.Advances (f t))
    (hok : (s.modifyAudio i f).Ok c) (hstop : c.starts = false) : Outcome s (s.modifyAudio i f) (some c) where
  audio := (keeps_modifyAudio hf).audioBut ha
  video := hv
  keeps := keeps_modifyAudio hf
  next c' hc' := by cases hc'; exact ⟨hok, hstop⟩
  calls := rfl

theorem Outcome.modifyVideo (ha : s.AudioBut s.mAudioRecordThread) (hv : s.VideoBut s.mVideoRecordThread)
    {i : ℕ} {f : VideoRecordThread → VideoRecordThread} (hf : ∀ t : VideoRecordThread, t.Advances (f t))
    (hsafe : ∀ (t : VideoRecordThread) queue, t.Safe queue → (f t).Safe queue)
    (hok : (s.modifyVideo i f).Ok c) (hstop : c.starts = false) : Outcome s (s.modifyVideo i f) (some c) where
  audio := ha
  video := (keeps_modifyVideo hf hsafe).videoBut hv
  keeps := keeps_modifyVideo hf hsafe
  next c' hc' := by cases hc'; exact ⟨hok, hstop⟩
  calls := rfl

theorem outcome_testAudio (ha : s.AudioBut s.mAudioRecordThread) (hv : s.VideoBut s.mVideoRecordThread)
    (ht : s.TimelyCall .testAudio) (h : s.access .testAudio = some (s', o)) : Outcome s s' o := by
  have hbegun : ∀ t ∈ s.audioThreads, t.Begun := ha.forall_mem
    (fun t hpc => AudioRecordThread.Told.begun (.inl hpc))
    (fun j t hj hmem => ht t (by rw [hj]; exact hmem))
  simp only [access] at h
  split at h
  · next hfield =>
      cases h
      have hfinished := allBut_none.mp (hfield ▸ ha)
      exact .goto ha hv (fun t hmem => .inl (hfinished t hmem)) rfl
  · next i hfield =>
      split at h
      · cases h; exact .goto ha hv hbegun rfl
      · next hrunning =>
          cases h
          have htold : s.AudioTold := ha.forall_mem (fun t hpc => .inl hpc) fun j t hj hmem => by
            rw [hfield] at hj
            cases hj
            rw [hmem] at hrunning
            exact .inr ⟨hbegun t (List.mem_of_getElem? hmem), by simpa using hrunning⟩
          exact .goto ha hv htold rfl

theorem outcome_testVideo (ha : s.AudioBut s.mAudioRecordThread) (hv : s.VideoBut s.mVideoRecordThread)
    (hok : s.Ok .testVideo) (ht : s.TimelyCall .testVideo) (h : s.access .testVideo = some (s', o)) :
    Outcome s s' o := by
  simp only [access] at h
  split at h
  · next hfield =>
      cases h
      have hfinished := allBut_none.mp (hfield ▸ hv)
      exact .goto ha hv ⟨hok, fun t hmem => VideoRecordThread.safe_of_finished (hfinished t hmem) _⟩ rfl
  · next i hfield =>
      split at h
      · cases h
        have hbegun : ∀ t ∈ s.videoThreads, t.Begun := hv.forall_mem
          (fun t hpc => VideoRecordThread.Told.begun (.inl hpc))
          (fun j t hj hmem => (ht t (by rw [hj]; exact hmem)).1)
        exact .goto ha hv ⟨hok, hbegun⟩ rfl
      · next hrunning =>
          cases h
          have hsafe : s.VideoSafe := VideoSafe.of_but (hfield ▸ hv) fun t hmem => by
            have hstopped : t.isRunning = false := by
              rw [hmem] at hrunning
              simpa using hrunning
            obtain ⟨hbegun, hready⟩ := ht t (by rw [hfield]; exact hmem)
            exact ⟨.inr ⟨hbegun, hstopped⟩, (hready hstopped).1, (hready hstopped).2⟩
          exact .goto ha hv ⟨hok, hsafe⟩ rfl

theorem outcome_clearAudio (ha : s.AudioBut s.mAudioRecordThread) (hv : s.VideoBut s.mVideoRecordThread)
    (hok : s.Ok .clearAudio) (h : s.access .clearAudio = some (s', o)) : Outcome s s' o := by
  simp only [access] at h
  split at h
  · cases h; exact .throws ha hv
  · next i hfield =>
      cases h
      have htold : (s.modifyAudio i .stopRunning).AudioTold :=
        AllBut.modify (hfield ▸ ha) (fun t hpc => .inl hpc) fun t hmem =>
          AudioRecordThread.told_stopRunning (hok t (List.mem_of_getElem? hmem))
      exact .modifyAudio ha hv AudioRecordThread.advances_stopRunning htold rfl

theorem outcome_clearVideo (ha : s.AudioBut s.mAudioRecordThread) (hv : s.VideoBut s.mVideoRecordThread)
    (hok : s.Ok .clearVideo) (h : s.access .clearVideo = some (s', o)) : Outcome s s' o := by
  simp only [access] at h
  split at h
  · cases h; exact .throws ha hv
  · next i hfield =>
      cases h
      have htold : (s.modifyVideo i .stopRunning).VideoTold :=
        AllBut.modify (hfield ▸ hv) (fun t hpc => .inl hpc) fun t hmem =>
          VideoRecordThread.told_stopRunning (hok.2 t (List.mem_of_getElem? hmem))
      have hbut : (s.modifyVideo i .stopRunning).VideoBut (some i) :=
        (keeps_modifyVideo VideoRecordThread.advances_stopRunning fun _ _ hs => hs.stopRunning).videoBut
          (hfield ▸ hv)
      exact .modifyVideo ha hv VideoRecordThread.advances_stopRunning (fun _ _ hs => hs.stopRunning)
        ⟨hok.1, htold, hbut⟩ rfl

theorem outcome_testWaiting (ha : s.AudioBut s.mAudioRecordThread) (hv : s.VideoBut s.mVideoRecordThread)
    {i : ℕ} (hok : s.Ok (.testWaiting i)) (ht : s.TimelyCall (.testWaiting i))
    (h : s.access (.testWaiting i) = some (s', o)) : Outcome s s' o := by
  simp only [access] at h
  split at h
  · cases h; exact .goto ha hv hok rfl
  · next hwaiting =>
      cases h
      have hsafe : s.VideoSafe := VideoSafe.of_but hok.2.2 fun t hmem => by
        rw [hmem] at hwaiting
        have hpc : t.pc ≠ .blocked := by simpa [VideoRecordThread.waiting] using hwaiting
        exact ⟨hok.2.1 t (List.mem_of_getElem? hmem), ht t hmem, by simp [VideoRecordThread.starved, hpc]⟩
      exact .goto ha hv ⟨hok.1, hsafe⟩ rfl

theorem outcome_interruptVideo (ha : s.AudioBut s.mAudioRecordThread)
    (hv : s.VideoBut s.mVideoRecordThread) {i : ℕ} (hok : s.Ok (.interruptVideo i))
    (h : s.access (.interruptVideo i) = some (s', o)) : Outcome s s' o := by
  cases h
  have hsafe : (s.modifyVideo i .interrupt).VideoSafe :=
    hok.2.2.modify (fun t hpc => VideoRecordThread.safe_of_finished hpc _) fun t hmem =>
      VideoRecordThread.safe_interrupt (hok.2.1 t (List.mem_of_getElem? hmem)) _
  exact .modifyVideo ha hv VideoRecordThread.advances_interrupt
    (fun _ _ hs => VideoRecordThread.safe_interrupt hs.told _) ⟨hok.1, hsafe⟩ rfl

theorem outcome_joinAudio (ha : s.AudioBut s.mAudioRecordThread) (hv : s.VideoBut s.mVideoRecordThread)
    (hok : s.Ok .joinAudio) (h : s.access .joinAudio = some (s', o)) : Outcome s s' o := by
  simp only [access] at h
  split at h
  · next hfield => cases h; exact .goto ha hv ⟨hfield ▸ ha, hok.2⟩ rfl
  · next i hfield => cases h; exact .goto ha hv ⟨hok.1, hok.2, hfield ▸ ha⟩ rfl

theorem outcome_joiningAudio (ha : s.AudioBut s.mAudioRecordThread) (hv : s.VideoBut s.mVideoRecordThread)
    {i : ℕ} (hok : s.Ok (.joiningAudio i)) (h : s.access (.joiningAudio i) = some (s', o)) :
    Outcome s s' o := by
  simp only [access] at h
  split at h
  · cases h
  · next halive =>
      cases h
      have hfinished := hok.2.2.forall_mem (fun _ hpc => hpc) fun j t hj hmem => by
        cases hj
        rw [hmem] at halive
        exact AudioRecordThread.finished_of_not_alive (hok.1 t (List.mem_of_getElem? hmem)).begun
          (by simpa using halive)
      exact .goto ha hv ⟨allBut_none.mpr hfinished, hok.2.1⟩ rfl

theorem outcome_joinVideo (ha : s.AudioBut s.mAudioRecordThread) (hv : s.VideoBut s.mVideoRecordThread)
    (hok : s.Ok .joinVideo) (h : s.access .joinVideo = some (s', o)) : Outcome s s' o := by
  simp only [access] at h
  split at h
  · next hfield => cases h; exact .goto ha hv ⟨hok.1, hfield ▸ hv⟩ rfl
  · next i hfield => cases h; exact .goto ha hv ⟨hok.1, hok.2, hfield ▸ hv⟩ rfl

theorem outcome_joiningVideo (ha : s.AudioBut s.mAudioRecordThread) (hv : s.VideoBut s.mVideoRecordThread)
    {i : ℕ} (hok : s.Ok (.joiningVideo i)) (h : s.access (.joiningVideo i) = some (s', o)) :
    Outcome s s' o := by
  simp only [access] at h
  split at h
  · cases h
  · next halive =>
      cases h
      have hfinished := hok.2.2.forall_mem (fun _ hpc => hpc) fun j t hj hmem => by
        cases hj
        rw [hmem] at halive
        exact VideoRecordThread.finished_of_not_alive (hok.2.1 t (List.mem_of_getElem? hmem)).told.begun
          (by simpa using halive)
      exact .goto ha hv ⟨hok.1, allBut_none.mpr hfinished⟩ rfl

/-- Once both threads have finished, the fields and the queue matter to no thread. -/
theorem keeps_of_finished (hv : s.VideoBut none) (haudio : s'.audioThreads = s.audioThreads)
    (hvideo : s'.videoThreads = s.videoThreads) : Keeps s s' where
  audio := haudio ▸ .refl .refl _
  video := hvideo ▸ .refl .refl _
  safe _ t ht := VideoRecordThread.safe_of_finished (allBut_none.mp hv t (hvideo ▸ ht)) _

theorem outcome_forget (hc : c = .forgetAudio ∨ c = .forgetVideo ∨ c = .clear)
    (ha : s.AudioBut s.mAudioRecordThread) (hv : s.VideoBut s.mVideoRecordThread) (hok : s.Ok c)
    (h : s.access c = some (s', o)) : Outcome s s' o := by
  rcases hc with rfl | rfl | rfl
  · cases h
    exact ⟨hok.1, hv, keeps_of_finished hok.2 rfl rfl, fun c' hc' => by cases hc'; exact ⟨hok, rfl⟩, rfl⟩
  · cases h
    exact ⟨ha, hok.2, keeps_of_finished hok.2 rfl rfl, fun c' hc' => by cases hc'; exact ⟨hok, rfl⟩, rfl⟩
  · cases h
    exact ⟨ha, hv, keeps_of_finished hok.2 rfl rfl, nofun, rfl⟩

theorem outcome_of_stop (hc : c.starts = false) (ha : s.AudioBut s.mAudioRecordThread)
    (hv : s.VideoBut s.mVideoRecordThread) (hok : s.Ok c) (ht : s.TimelyCall c)
    (h : s.access c = some (s', o)) : Outcome s s' o := by
  cases c with
  | newAudio | startAudio | newVideo | startVideo => cases hc
  | testAudio => exact outcome_testAudio ha hv ht h
  | clearAudio => exact outcome_clearAudio ha hv hok h
  | testVideo => exact outcome_testVideo ha hv hok ht h
  | clearVideo => exact outcome_clearVideo ha hv hok h
  | testWaiting i => exact outcome_testWaiting ha hv hok ht h
  | interruptVideo i => exact outcome_interruptVideo ha hv hok h
  | joinAudio => exact outcome_joinAudio ha hv hok h
  | joiningAudio i => exact outcome_joiningAudio ha hv hok h
  | joinVideo => exact outcome_joinVideo ha hv hok h
  | joiningVideo i => exact outcome_joiningVideo ha hv hok h
  | forgetAudio => exact outcome_forget (.inl rfl) ha hv hok h
  | forgetVideo => exact outcome_forget (.inr (.inl rfl)) ha hv hok h
  | clear => exact outcome_forget (.inr (.inr rfl)) ha hv hok h

/-- What an access of `startRecording` comes to, which has the fields for itself. -/
structure Started (s s' : RecordThreads) (o : Option Call) : Prop where
  audio : s'.AudioBut s'.mAudioRecordThread
  video : s'.VideoBut s'.mVideoRecordThread
  next : ∀ c' ∈ o, s'.Ok c'
  calls : s'.calls = s.calls

theorem started_of_start (hc : c.starts = true) (ha : s.AudioBut s.mAudioRecordThread)
    (hv : s.VideoBut s.mVideoRecordThread) (hok : s.Ok c) (h : s.access c = some (s', o)) :
    Started s s' o := by
  cases c with
  | newAudio =>
      cases h
      exact ⟨hok.1.concat _, hv, fun c' hc' => by cases hc'; exact hok.2, rfl⟩
  | startAudio =>
      simp only [access] at h
      split at h
      · cases h; exact ⟨ha, hv, nofun, rfl⟩
      · next i hfield =>
          split at h
          · cases h
            rw [hfield] at ha
            refine ⟨?_, hv, fun c' hc' => by cases hc'; exact hok, rfl⟩
            rw [show (s.modifyAudio i _).mAudioRecordThread = some i from hfield]
            exact ha.modify_place _
          · cases h; exact ⟨ha, hv, nofun, rfl⟩
  | newVideo =>
      cases h
      exact ⟨ha, AllBut.concat hok _, fun c' hc' => by cases hc'; trivial, rfl⟩
  | startVideo =>
      simp only [access] at h
      split at h
      · cases h; exact ⟨ha, hv, nofun, rfl⟩
      · next i hfield =>
          split at h
          · cases h
            rw [hfield] at hv
            refine ⟨ha, ?_, nofun, rfl⟩
            rw [show (s.modifyVideo i _).mVideoRecordThread = some i from hfield]
            exact hv.modify_place _
          · cases h; exact ⟨ha, hv, nofun, rfl⟩
  | _ => cases hc

end RecordThreads

end MyDemo.Javacv

import MyDemo.Javacv.Lemmas.Frames
import MyDemo.Lib.Transition

/-!
# A frame is recorded as it was filled
-/

namespace MyDemo.Javacv

open Transition

namespace FrameQueues

variable {δ : Type*} {s s' : FrameQueues δ}

/-- No frame has two owners; the recorder gets accepted frames, each once and in their order, and the queue
accepts what the camera has called back with, in that order. -/
structure Intact (s : FrameQueues δ) : Prop where
  owned : s.held.Nodup
  recorded : s.recorded.Sublist s.accepted
  accepted : s.accepted.Sublist s.callbacks

theorem Produced.accepted (h : Produced s) : s.accepted.Sublist s.callbacks := by
  rw [Produced] at h
  split at h
  · exact h
  · obtain ⟨earlier, hcallbacks, hsub⟩ := h
    exact hcallbacks ▸ hsub.trans (List.sublist_append_left _ _)
  · obtain ⟨earlier, hcallbacks, hsub⟩ := h
    exact hcallbacks ▸ hsub.trans (List.sublist_append_left _ _)
  · obtain ⟨earlier, f, _, hcallbacks, hsub⟩ := h
    exact hcallbacks ▸ hsub.trans (List.sublist_append_left _ _)
  · obtain ⟨earlier, f, _, hcallbacks, hsub⟩ := h
    exact hcallbacks ▸ hsub.trans (List.sublist_append_left _ _)

theorem Kept.intact (ho : Owned s) (h : Kept s) : Intact s where
  owned := ho.nodup
  recorded := by
    obtain ⟨done, pending, hsplit, _, hsub⟩ := h.queued
    exact hsplit ▸ hsub.trans (List.sublist_append_left _ _)
  accepted := h.produced.accepted

theorem kept_step {a : Action δ} (ho : Owned s) (h : Kept s) (hs : s.step a = some s') :
    Owned s' ∧ Kept s' := by
  cases a with
  | onPreviewFrame timestamp data =>
      simp only [step] at hs
      split at hs
      · next hpc => cases hs; exact ⟨ho.onPreviewFrame hpc _ _, h.onPreviewFrame hpc _ _⟩
      · cases hs
  | produce =>
      simp only [step] at hs
      split at hs
      · cases hs
      · next hpc => cases hs; exact ⟨ho.poll hpc, h.poll ho hpc⟩
      · next hpc => cases hs; exact ⟨ho.setTimestamp hpc, h.setTimestamp ho hpc⟩
      · next hpc => cases hs; exact ⟨ho.put hpc, h.put ho hpc⟩
      · next hpc => cases hs; exact ⟨ho.offer hpc, h.offer hpc⟩
  | consume hasRecorder =>
      simp only [step] at hs
      split at hs
      · next hpc =>
          split at hs
          · cases hs
          · next hq => cases hs; exact ⟨ho.take hpc hq, h.take hpc hq⟩
      · next hpc => cases hs; exact ⟨ho.getTimestamp hpc _, h.getTimestamp hpc _⟩
      · next hpc => cases hs; exact ⟨ho.record hpc, h.record hpc⟩
      · next hpc => cases hs; exact ⟨ho.recycle hpc, h.recycle hpc⟩

/-- However the two threads take turns. -/
theorem frames_intact (as : List (Action δ)) : Always step Intact new as :=
  always_of_invariant (I := fun s => Owned s ∧ Kept s) (fun _ _ _ h hs => kept_step h.1 h.2 hs)
    (fun _ h => h.2.intact h.1) ⟨Owned.new, Kept.new⟩ as

end FrameQueues

end MyDemo.Javacv

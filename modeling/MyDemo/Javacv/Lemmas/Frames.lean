import MyDemo.Javacv.FrameQueues
import Mathlib.Data.List.Nodup
import Mathlib.Order.Nat

/-!
# What is in the frames that are held
-/

namespace MyDemo.Javacv

variable {δ : Type*}

/-- The frame that the recorder's thread has taken and not recorded yet. -/
def ConsumerPc.pending : ConsumerPc → List ℕ
  | .taking | .recycling _ => []
  | .reading i | .recording i _ => [i]

theorem ConsumerPc.pending_subset (pc : ConsumerPc) : pc.pending ⊆ pc.hand := by
  cases pc <;> simp [pending, hand]

namespace FrameQueues

variable {s s' : FrameQueues δ}

/-! ## Owners -/

/-- Each frame has one owner at most. -/
structure Owned (s : FrameQueues δ) : Prop where
  nodup : s.held.Nodup
  alive : ∀ i ∈ s.held, i < s.frames.length

theorem Owned.new : Owned (new : FrameQueues δ) := ⟨List.nodup_nil, fun _ hi => by cases hi⟩

theorem Owned.of_count (h : Owned s) (hle : ∀ i, s'.held.count i ≤ s.held.count i)
    (hlen : s.frames.length ≤ s'.frames.length) : Owned s' where
  nodup := List.nodup_iff_count_le_one.mpr fun i =>
    le_trans (hle i) (List.nodup_iff_count_le_one.mp h.nodup i)
  alive i hi := by
    have hpos : 0 < s.held.count i := lt_of_lt_of_le (List.count_pos_iff.mpr hi) (hle i)
    exact lt_of_lt_of_le (h.alive i (List.count_pos_iff.mp hpos)) hlen

theorem Owned.fresh (h : Owned s) (hheld : s'.held.Perm (s.frames.length :: s.held))
    (hlen : s'.frames.length = s.frames.length + 1) : Owned s' where
  nodup := hheld.nodup_iff.mpr
    (List.nodup_cons.mpr ⟨fun hmem => Nat.lt_irrefl _ (h.alive _ hmem), h.nodup⟩)
  alive i hi := by
    rcases List.mem_cons.mp (hheld.mem_iff.mp hi) with rfl | hi
    · omega
    · exact lt_trans (h.alive i hi) (by omega)

theorem Owned.onPreviewFrame (h : Owned s) (hpc : s.producer = .waiting) (timestamp : ℤ) (data : δ) :
    Owned (s.onPreviewFrame timestamp data) :=
  h.of_count (fun i => by simp [held, FrameQueues.onPreviewFrame, hpc, ProducerPc.hand]) le_rfl

theorem Owned.poll (h : Owned s) {timestamp : ℤ} {data : δ} (hpc : s.producer = .polling timestamp data) :
    Owned (s.poll timestamp data) := by
  rw [FrameQueues.poll]
  split
  · next hq =>
      refine h.fresh (List.perm_iff_count.mpr fun i => ?_) (by simp)
      simp [held, hpc, hq, ProducerPc.hand, List.count_cons]
      omega
  · next i rest hq =>
      refine h.of_count (fun j => ?_) le_rfl
      simp [held, hpc, hq, ProducerPc.hand, List.count_cons]
      omega

theorem Owned.setTimestamp (h : Owned s) {i : ℕ} {timestamp : ℤ} {data : δ}
    (hpc : s.producer = .stamping i timestamp data) : Owned (s.setTimestamp i timestamp data) :=
  h.of_count (fun j => by simp [held, FrameQueues.setTimestamp, hpc, ProducerPc.hand])
    (by simp [FrameQueues.setTimestamp])

theorem Owned.put (h : Owned s) {i : ℕ} {data : δ} (hpc : s.producer = .putting i data) :
    Owned (s.put i data) :=
  h.of_count (fun j => by simp [held, FrameQueues.put, hpc, ProducerPc.hand]) (by simp [FrameQueues.put])

theorem Owned.offer (h : Owned s) {i : ℕ} (hpc : s.producer = .offering i) : Owned (s.offer i) := by
  rw [FrameQueues.offer]
  split
  · refine h.of_count (fun j => ?_) le_rfl
    simp [held, hpc, ProducerPc.hand, List.count_cons]
    omega
  · exact h.of_count (fun j => by simp [held, hpc, ProducerPc.hand, List.count_cons]) le_rfl

theorem Owned.take (h : Owned s) {i : ℕ} {rest : List ℕ} (hpc : s.consumer = .taking)
    (hq : s.mFrameToRecordQueue = i :: rest) :
    Owned { s with mFrameToRecordQueue := rest, consumer := .reading i } := by
  refine h.of_count (fun j => ?_) le_rfl
  simp [held, hpc, hq, ConsumerPc.hand, List.count_cons]
  omega

theorem Owned.getTimestamp (h : Owned s) {i : ℕ} (hpc : s.consumer = .reading i) (hasRecorder : Bool) :
    Owned (s.getTimestamp i hasRecorder) := by
  rw [FrameQueues.getTimestamp]
  split
  · exact h
  · refine h.of_count (fun j => ?_) le_rfl
    cases hasRecorder <;> simp [held, hpc, ConsumerPc.hand]

theorem Owned.record (h : Owned s) {i : ℕ} {timestamp : ℤ} (hpc : s.consumer = .recording i timestamp) :
    Owned (s.record i timestamp) := by
  rw [FrameQueues.record]
  split
  · exact h
  · exact h.of_count (fun j => by simp [held, hpc, ConsumerPc.hand]) le_rfl

theorem Owned.recycle (h : Owned s) {i : ℕ} (hpc : s.consumer = .recycling i) : Owned (s.recycle i) := by
  rw [FrameQueues.recycle]
  split
  · refine h.of_count (fun j => ?_) le_rfl
    simp [held, hpc, ConsumerPc.hand, List.count_cons]
  · exact h.of_count (fun j => by simp [held, hpc, ConsumerPc.hand]) le_rfl

/-- The frames accepted and not recorded yet, in the order in which they will be. -/
def waiting (s : FrameQueues δ) : List ℕ := s.consumer.pending ++ s.mFrameToRecordQueue

theorem waiting_subset : s.waiting ⊆ s.held := by
  intro i hi
  rcases List.mem_append.mp hi with hi | hi
  · exact List.mem_append_right _ (s.consumer.pending_subset hi)
  · exact List.mem_append_left _ (List.mem_append_left _ (List.mem_append_left _ hi))

theorem Owned.frame_of_hand (h : Owned s) {i : ℕ} (hi : i ∈ s.producer.hand) :
    ∃ f, s.frames[i]? = some f :=
  ⟨_, List.getElem?_eq_getElem (h.alive i (List.mem_append_left _ (List.mem_append_right _ hi)))⟩

theorem Owned.not_waiting (h : Owned s) {i : ℕ} (hi : i ∈ s.producer.hand) : i ∉ s.waiting := by
  intro hmem
  have hone := List.nodup_iff_count_le_one.mp h.nodup i
  have hproducer : 0 < s.producer.hand.count i := List.count_pos_iff.mpr hi
  simp only [held, List.count_append] at hone
  rcases List.mem_append.mp hmem with hmem | hmem
  · have hconsumer : 0 < s.consumer.hand.count i :=
      List.count_pos_iff.mpr (s.consumer.pending_subset hmem)
    omega
  · have hqueue : 0 < s.mFrameToRecordQueue.count i := List.count_pos_iff.mpr hmem
    omega

/-! ## Contents -/

/-- What the thread of the camera has filled in so far belongs to its last callback. -/
def Produced (s : FrameQueues δ) : Prop :=
  match s.producer with
  | .waiting => s.accepted.Sublist s.callbacks
  | .polling timestamp data | .stamping _ timestamp data =>
      ∃ earlier, s.callbacks = earlier ++ [⟨timestamp, some data⟩] ∧ s.accepted.Sublist earlier
  | .putting i data =>
      ∃ earlier f, s.frames[i]? = some f ∧ s.callbacks = earlier ++ [⟨f.timestamp, some data⟩] ∧
        s.accepted.Sublist earlier
  | .offering i =>
      ∃ earlier f, s.frames[i]? = some f ∧ s.callbacks = earlier ++ [f] ∧ s.accepted.Sublist earlier

/-- `queued`: the frames that wait hold what was accepted last, and what is recorded was accepted before. -/
structure Kept (s : FrameQueues δ) : Prop where
  queued : ∃ done pending, s.accepted = done ++ pending ∧
    s.waiting.map (s.frames[·]?) = pending.map some ∧ s.recorded.Sublist done
  stamped : ∀ i timestamp, s.consumer = .recording i timestamp →
    ∃ f, s.frames[i]? = some f ∧ f.timestamp = timestamp
  produced : Produced s

theorem Kept.new : Kept (new : FrameQueues δ) where
  queued := ⟨[], [], rfl, rfl, List.Sublist.slnil⟩
  stamped _ _ h := by cases h
  produced := List.Sublist.slnil

/-- A change of frames that do not wait, made by the camera's thread. -/
theorem Kept.of_frames (h : Kept s) (hframes : ∀ i ∈ s.waiting, s'.frames[i]? = s.frames[i]?)
    (hconsumer : s'.consumer = s.consumer) (hqueue : s'.mFrameToRecordQueue = s.mFrameToRecordQueue)
    (haccepted : s'.accepted = s.accepted) (hrecorded : s'.recorded = s.recorded) (hproduced : Produced s') :
    Kept s' where
  queued := by
    obtain ⟨done, pending, hsplit, hmap, hsub⟩ := h.queued
    refine ⟨done, pending, haccepted.trans hsplit, ?_, hrecorded ▸ hsub⟩
    rw [waiting, hconsumer, hqueue]
    exact (List.map_congr_left hframes).trans hmap
  stamped i timestamp hpc := by
    rw [hconsumer] at hpc
    rw [hframes i (List.mem_append_left _ (by simp [hpc, ConsumerPc.pending]))]
    exact h.stamped i timestamp hpc
  produced := hproduced

theorem Kept.onPreviewFrame (h : Kept s) (hpc : s.producer = .waiting) (timestamp : ℤ) (data : δ) :
    Kept (s.onPreviewFrame timestamp data) := by
  have hproduced := h.produced
  rw [Produced, hpc] at hproduced
  exact h.of_frames (fun _ _ => rfl) rfl rfl rfl rfl ⟨s.callbacks, rfl, hproduced⟩

theorem Kept.poll (ho : Owned s) (h : Kept s) {timestamp : ℤ} {data : δ}
    (hpc : s.producer = .polling timestamp data) : Kept (s.poll timestamp data) := by
  have hproduced := h.produced
  rw [Produced, hpc] at hproduced
  obtain ⟨earlier, hcallbacks, hsub⟩ := hproduced
  rw [FrameQueues.poll]
  split
  · refine h.of_frames (fun i hi => ?_) rfl rfl rfl rfl ⟨earlier, ⟨timestamp, none⟩, by simp, hcallbacks, hsub⟩
    exact List.getElem?_append_left (ho.alive i (waiting_subset hi))
  · exact h.of_frames (fun _ _ => rfl) rfl rfl rfl rfl ⟨earlier, hcallbacks, hsub⟩

/-- The frame in the hand of the camera's thread is filled in where it stands. -/
theorem Kept.modify (ho : Owned s) (h : Kept s) {i : ℕ} (hi : i ∈ s.producer.hand)
    (change : FrameToRecord δ → FrameToRecord δ) (pc : ProducerPc δ)
    (hproduced : Produced { s with frames := s.frames.modify i change, producer := pc }) :
    Kept { s with frames := s.frames.modify i change, producer := pc } :=
  h.of_frames (fun _ hj => List.getElem?_modify_ne _ _ (fun hij => ho.not_waiting hi (hij ▸ hj)))
    rfl rfl rfl rfl hproduced

theorem Kept.setTimestamp (ho : Owned s) (h : Kept s) {i : ℕ} {timestamp : ℤ} {data : δ}
    (hpc : s.producer = .stamping i timestamp data) : Kept (s.setTimestamp i timestamp data) := by
  have hproduced := h.produced
  rw [Produced, hpc] at hproduced
  obtain ⟨earlier, hcallbacks, hsub⟩ := hproduced
  have hi : i ∈ s.producer.hand := by simp [hpc, ProducerPc.hand]
  obtain ⟨f, hf⟩ := ho.frame_of_hand hi
  refine h.modify ho hi _ _ ⟨earlier, { f with timestamp := timestamp }, ?_, hcallbacks, hsub⟩
  rw [List.getElem?_modify_eq, hf]
  rfl

theorem Kept.put (ho : Owned s) (h : Kept s) {i : ℕ} {data : δ} (hpc : s.producer = .putting i data) :
    Kept (s.put i data) := by
  have hproduced := h.produced
  rw [Produced, hpc] at hproduced
  obtain ⟨earlier, f, hf, hcallbacks, hsub⟩ := hproduced
  have hi : i ∈ s.producer.hand := by simp [hpc, ProducerPc.hand]
  refine h.modify ho hi _ _ ⟨earlier, { f with image := some data }, ?_, hcallbacks, hsub⟩
  rw [List.getElem?_modify_eq, hf]
  rfl

theorem Kept.offer (h : Kept s) {i : ℕ} (hpc : s.producer = .offering i) : Kept (s.offer i) := by
  have hproduced := h.produced
  rw [Produced, hpc] at hproduced
  obtain ⟨earlier, f, hf, hcallbacks, hsub⟩ := hproduced
  rw [FrameQueues.offer]
  split
  · obtain ⟨done, pending, hsplit, hmap, hrecorded⟩ := h.queued
    refine ⟨⟨done, pending ++ [f], ?_, ?_, hrecorded⟩, h.stamped, ?_⟩
    · simp [hf, hsplit]
    · simp only [waiting, ← List.append_assoc, List.map_append, List.map_singleton, hf] at hmap ⊢
      rw [hmap]
    · simp only [Produced, hf, Option.toList_some, hcallbacks]
      exact hsub.append_right _
  · refine h.of_frames (fun _ _ => rfl) rfl rfl rfl rfl ?_
    simp only [Produced, hcallbacks]
    exact hsub.trans (List.sublist_append_left _ _)

/-- A change of what waits, made by the recorder's thread. -/
theorem Kept.of_consumer (h : Kept s) (hframes : s'.frames = s.frames) (hproducer : s'.producer = s.producer)
    (hcallbacks : s'.callbacks = s.callbacks) (haccepted : s'.accepted = s.accepted)
    (hqueued : ∃ done pending, s.accepted = done ++ pending ∧
      s'.waiting.map (s.frames[·]?) = pending.map some ∧ s'.recorded.Sublist done)
    (hstamped : ∀ i timestamp, s'.consumer = .recording i timestamp →
      ∃ f, s.frames[i]? = some f ∧ f.timestamp = timestamp) : Kept s' where
  queued := by rw [haccepted, hframes]; exact hqueued
  stamped := by rw [hframes]; exact hstamped
  produced := by
    rw [Produced, hframes, hproducer, hcallbacks, haccepted]
    exact h.produced

theorem Kept.take (h : Kept s) {i : ℕ} {rest : List ℕ} (hpc : s.consumer = .taking)
    (hq : s.mFrameToRecordQueue = i :: rest) :
    Kept { s with mFrameToRecordQueue := rest, consumer := .reading i } := by
  refine h.of_consumer rfl rfl rfl rfl ?_ nofun
  have hqueued := h.queued
  rw [waiting, hpc, hq] at hqueued
  exact hqueued

/-- The first frame that waits is the first of those accepted and not done with. -/
theorem Kept.head (h : Kept s) {i : ℕ} (hpc : s.consumer.pending = [i]) :
    ∃ done f pending, s.frames[i]? = some f ∧ s.accepted = done ++ [f] ++ pending ∧
      s.mFrameToRecordQueue.map (s.frames[·]?) = pending.map some ∧ s.recorded.Sublist done := by
  obtain ⟨done, pending, hsplit, hmap, hsub⟩ := h.queued
  rw [waiting, hpc] at hmap
  cases pending with
  | nil => cases hmap
  | cons f pending =>
      obtain ⟨hf, hrest⟩ := List.cons.inj hmap
      exact ⟨done, f, pending, hf, by rw [hsplit, List.append_assoc]; rfl, hrest, hsub⟩

theorem Kept.getTimestamp (h : Kept s) {i : ℕ} (hpc : s.consumer = .reading i) (hasRecorder : Bool) :
    Kept (s.getTimestamp i hasRecorder) := by
  obtain ⟨done, f, pending, hf, hsplit, hmap, hsub⟩ := h.head (by rw [hpc]; rfl)
  rw [FrameQueues.getTimestamp, hf]
  cases hasRecorder with
  | true =>
      refine h.of_consumer rfl rfl rfl rfl ⟨done, f :: pending, ?_, ?_, hsub⟩ ?_
      · rw [hsplit, List.append_assoc]; rfl
      · simpa [waiting, ConsumerPc.pending, hf] using hmap
      · intro j timestamp hj
        cases hj
        exact ⟨f, hf, rfl⟩
  | false =>
      exact h.of_consumer rfl rfl rfl rfl
        ⟨done ++ [f], pending, hsplit, hmap, hsub.trans (List.sublist_append_left _ _)⟩ nofun

theorem Kept.record (h : Kept s) {i : ℕ} {timestamp : ℤ} (hpc : s.consumer = .recording i timestamp) :
    Kept (s.record i timestamp) := by
  obtain ⟨done, f, pending, hf, hsplit, hmap, hsub⟩ := h.head (by rw [hpc]; rfl)
  obtain ⟨f', hf', rfl⟩ := h.stamped i timestamp hpc
  obtain rfl := Option.some.inj (hf.symm.trans hf')
  rw [FrameQueues.record, hf]
  exact h.of_consumer rfl rfl rfl rfl ⟨done ++ [f], pending, hsplit, hmap, hsub.append_right [f]⟩ nofun

theorem Kept.recycle (h : Kept s) {i : ℕ} (hpc : s.consumer = .recycling i) : Kept (s.recycle i) := by
  have hqueued := h.queued
  rw [waiting, hpc] at hqueued
  rw [FrameQueues.recycle]
  split
  · exact h.of_consumer rfl rfl rfl rfl hqueued nofun
  · exact h.of_consumer rfl rfl rfl rfl hqueued nofun

end FrameQueues

end MyDemo.Javacv

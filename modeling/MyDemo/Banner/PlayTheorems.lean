import MyDemo.Banner.Lemmas.Playing
import MyDemo.Lib.Transition

/-!
# When the banner may play
-/

namespace MyDemo.Banner

open Transition

namespace BannerView

variable {α : Type*} {s s' : BannerView}

/-- New images, or what can happen to the ones there are. -/
inductive Event (α : Type*) where
  | setImgsPath (imgsPath : List α)
  | act (a : Action)

def handle (s : BannerView) : Event α → Option BannerView
  | .setImgsPath imgsPath => some (s.setImgsPath imgsPath)
  | .act a => s.step a

/-! ## What is asked of every state -/

def MayPlay (s : BannerView) : Prop :=
  s.pending.length ≤ 1 ∧ (s.pending ≠ [] → s.canScroll = true ∧ s.isStart = true)

instance (s : BannerView) : Decidable s.MayPlay := inferInstanceAs (Decidable (_ ∧ _))

/-- If the task runs twice now, it posts itself with its delay at least once. -/
def Paced (s : BannerView) : Prop :=
  ∀ t t', s.step (.task 0) = some t → t.step (.task 0) = some t' →
    delayTime ∈ t.pending ∨ delayTime ∈ t'.pending

/-- There are two images where a task is pending, and where a touch ends while the banner is playing. -/
def Allowed (s : BannerView) : Event α → Prop
  | .setImgsPath imgsPath => s.pending ≠ [] → 2 ≤ imgsPath.length
  | .act (.touch .up) | .act (.touch .cancel) | .act (.touch .outside) => s.isStart = true → s.canScroll = true
  | .act _ => True

/-! ## One step -/

theorem mayPlay_iff_playing : s.MayPlay ↔ s.playing.2.2.length ≤ 1 ∧
    (s.playing.2.2 ≠ [] → s.playing.1 = true ∧ s.playing.2.1 = true) := Iff.rfl

theorem task_of_step {i : ℕ} (hs : s.step (.task i) = some s') :
    i < s.pending.length ∧ s' = BannerView.task { s with pending := s.pending.eraseIdx i } := by
  simp only [step] at hs
  split at hs
  · next hi => exact ⟨hi, (Option.some.inj hs).symm⟩
  · cases hs

theorem mayPlay_step {e : Event α} (h : s.MayPlay) (hs : s.handle e = some s') :
    s'.MayPlay ↔ s.Allowed e := by
  obtain ⟨hone, hmay⟩ := h
  cases e with
  | setImgsPath imgsPath =>
      cases hs
      rw [mayPlay_iff_playing, playing_setImgsPath]
      simp only [Allowed, decide_eq_true_eq, and_iff_right hone]
      exact ⟨fun h hp => (h hp).1, fun h hp => ⟨h hp, (hmay hp).2⟩⟩
  | act a =>
      rw [mayPlay_iff_playing, playing_step hs]
      cases a with
      | select _ | scrollState _ => exact iff_of_true ⟨hone, hmay⟩ trivial
      | touch action =>
          cases action with
          | other => exact iff_of_true ⟨hone, hmay⟩ trivial
          | down => exact iff_of_true ⟨by simp [played], by simp [played]⟩ trivial
          | up | cancel | outside =>
              simp only [played, Allowed]
              cases hstart : s.isStart with
              | true => simp
              | false => simpa [hstart, hone] using hmay
      | start =>
          refine iff_of_true ?_ trivial
          simp only [played]
          cases hscroll : s.canScroll with
          | true => simp
          | false => simpa [hscroll, hone] using hmay
      | stop => exact iff_of_true ⟨by simp [played], by simp [played]⟩ trivial
      | task i =>
          refine iff_of_true ?_ trivial
          obtain ⟨hi, _⟩ := task_of_step hs
          have hpending : s.pending ≠ [] := List.ne_nil_of_length_pos (by omega)
          have hlength := List.length_eraseIdx_of_lt hi
          refine ⟨?_, fun _ => hmay hpending⟩
          simp only [played, List.length_append, List.length_singleton]
          omega

/-! ## The pages there are -/

def shape (s : BannerView) : ℕ × ℕ := (s.viewSize, s.viewPager.pages.length)

@[simp] theorem shape_turnTo (item : ℕ) : (s.turnTo item).shape = s.shape := by
  simp only [turnTo, onPageSelected, setSelect]
  split_ifs <;> rfl

@[simp] theorem shape_setCurrentItem (item : ℕ) : (s.setCurrentItem item).shape = s.shape := by
  rw [setCurrentItem]
  split
  · rfl
  · exact shape_turnTo _

theorem shape_task (s : BannerView) : s.task.shape = s.shape := by
  simp only [task]
  split
  · exact (shape_setCurrentItem _).trans rfl
  · exact (shape_setCurrentItem _).trans rfl

theorem shape_step {a : Action} (hs : s.step a = some s') : s'.shape = s.shape := by
  cases a with
  | select position =>
      simp only [step] at hs
      split at hs
      · cases hs; exact shape_turnTo position
      · cases hs
  | scrollState state =>
      simp only [step] at hs
      split at hs
      · cases hs
        cases state with
        | idle => simp only [onPageScrollStateChanged]; split_ifs <;> simp
        | dragging => simp only [onPageScrollStateChanged]; split_ifs <;> simp
        | settling => rfl
      · cases hs
  | touch action =>
      cases hs
      cases action with
      | down | other => rfl
      | up | cancel | outside =>
          simp only [dispatchTouchEvent, startAutoPlay]
          split_ifs <;> rfl
  | start =>
      cases hs
      simp only [start, startAutoPlay]
      split_ifs <;> rfl
  | stop => cases hs; rfl
  | task i =>
      obtain ⟨_, rfl⟩ := task_of_step hs
      exact shape_task _

/-- There are pages to turn to where the banner can scroll. -/
def Scrolls (s : BannerView) : Prop := s.canScroll = true → 4 ≤ s.viewSize ∧ 2 ≤ s.viewPager.pages.length

theorem shape_setImgsPath {imgsPath : List α} (h : 2 ≤ imgsPath.length) :
    (s.setImgsPath imgsPath).shape = (imgsPath.length + 2, imgsPath.length + 2) := by
  simp only [setImgsPath, if_neg (show imgsPath.length ≠ 0 by omega), decide_eq_true h, if_pos h, if_true]
  exact (shape_setCurrentItem 1).trans (by simp [shape])

theorem Scrolls.handle {e : Event α} (h : Scrolls s) (hs : s.handle e = some s') : Scrolls s' := by
  cases e with
  | setImgsPath imgsPath =>
      cases hs
      intro hscroll
      have hcan : (s.setImgsPath imgsPath).canScroll = decide (2 ≤ imgsPath.length) :=
        congrArg Prod.fst (playing_setImgsPath imgsPath)
      have htwo : 2 ≤ imgsPath.length := of_decide_eq_true (hcan.symm.trans hscroll)
      obtain ⟨hsize, hpages⟩ := Prod.mk.inj (shape_setImgsPath (s := s) htwo)
      omega
  | act a =>
      intro hscroll
      obtain ⟨hsize, hpages⟩ := Prod.mk.inj (shape_step hs)
      rw [hsize, hpages]
      exact h ((canScroll_step hs).symm.trans hscroll)

/-! ## The pace of the task -/

theorem currentItem_setCurrentItem_one (h : 2 ≤ s.viewPager.pages.length) (hone : s.currentItem = 1) :
    (s.setCurrentItem 1).currentItem = 1 := by
  have hpages : s.viewPager.pages ≠ [] := List.ne_nil_of_length_pos (by omega)
  rw [setCurrentItem, if_neg hpages, show min 1 (s.viewPager.pages.length - 1) = 1 by omega]
  simp only [turnTo, onPageSelected, setSelect]
  split_ifs <;> first | exact hone | rfl

theorem currentItem_task (h : 2 ≤ s.viewPager.pages.length) (hnow : s.nextDelay = 0) : s.task.currentItem = 1 := by
  have hone : s.currentItem % (s.viewSize - 1) + 1 = 1 := by
    by_contra hne
    rw [nextDelay, if_neg hne] at hnow
    cases hnow
  simp only [task, hone, if_true]
  exact currentItem_setCurrentItem_one h rfl

theorem pending_task {i : ℕ} (hs : s.step (.task i) = some s') :
    s'.pending = s.pending.eraseIdx i ++ [s.nextDelay] := congrArg (·.2.2) (playing_step hs)

theorem nextDelay_cases (s : BannerView) : s.nextDelay = 0 ∨ s.nextDelay = delayTime := by
  rw [nextDelay]
  split
  · exact .inl rfl
  · exact .inr rfl

theorem Scrolls.paced (h : Scrolls s) (hmay : s.MayPlay) : s.Paced := by
  intro t t' ht ht'
  obtain ⟨hpending, heq⟩ := task_of_step ht
  obtain ⟨hscroll, _⟩ := hmay.2 (List.ne_nil_of_length_pos hpending)
  obtain ⟨hsize, hpages⟩ := h hscroll
  rw [pending_task ht, pending_task ht']
  rcases s.nextDelay_cases with hnow | hlater
  · have hitem : t.currentItem = 1 := heq ▸ currentItem_task hpages hnow
    have hshape : t.viewSize = s.viewSize := congrArg Prod.fst (shape_step ht)
    have hnext : t.nextDelay = delayTime := by
      rw [nextDelay, hitem, hshape, Nat.mod_eq_of_lt (by omega), if_neg (by omega)]
    exact .inr (hnext ▸ List.mem_append_right _ (List.mem_singleton_self _))
  · exact .inl (hlater ▸ List.mem_append_right _ (List.mem_singleton_self _))

/-! ## Runs -/

theorem plays_step {e : Event α} (hscrolls : Scrolls s) (h : s.MayPlay) (hs : s.handle e = some s') :
    s'.MayPlay ∧ s'.Paced ↔ s.Allowed e := by
  rw [← mayPlay_step h hs]
  exact ⟨And.left, fun hmay => ⟨hmay, (hscrolls.handle hs).paced hmay⟩⟩

/-- In every state there is at most one task, only where the banner may play, and the task waits for its
delay every other time, exactly where images are taken away or a touch ends only as it is allowed. -/
theorem plays_only_when_it_may_iff (events : List (Event α)) :
    Always handle (fun s => s.MayPlay ∧ s.Paced) new events ↔ Each handle Allowed new events := by
  have hscrolls : Scrolls new := fun h => by cases h
  have hmay : new.MayPlay := ⟨by decide, fun h => absurd rfl h⟩
  exact always_iff_each_of_keeps (I := Scrolls) (fun _ _ _ hscrolls hs => hscrolls.handle hs)
    (fun _ _ _ hscrolls hP hs => plays_step hscrolls hP.1 hs) hscrolls ⟨hmay, hscrolls.paced hmay⟩ events

/-- Without images the task posts itself at once whenever it runs. -/
theorem busy_of_empty (hsize : s.viewSize = 2) {delay : ℕ} (hpending : s.pending = [delay]) (k : ℕ) :
    ∃ t, run handle s (List.replicate (k + 1) (.act (.task 0) : Event α)) = some t ∧ t.pending = [0] := by
  have hone : ∀ (s : BannerView) (delay : ℕ), s.viewSize = 2 → s.pending = [delay] →
      ∃ t, handle s (.act (.task 0) : Event α) = some t ∧ t.viewSize = 2 ∧ t.pending = [0] := by
    intro s delay hsize hpending
    have hstep : s.step (.task 0) = some (BannerView.task { s with pending := s.pending.eraseIdx 0 }) := by
      rw [step, if_pos (by rw [hpending]; exact Nat.one_pos)]
    refine ⟨_, hstep, (congrArg Prod.fst (shape_step hstep)).trans hsize, ?_⟩
    rw [pending_task hstep, hpending, nextDelay, hsize, Nat.mod_one]
    rfl
  induction k generalizing s delay with
  | zero =>
      obtain ⟨t, ht, _, hnow⟩ := hone s delay hsize hpending
      exact ⟨t, run_cons_eq_some.mpr ⟨t, ht, rfl⟩, hnow⟩
  | succ k ih =>
      obtain ⟨t, ht, htsize, hnow⟩ := hone s delay hsize hpending
      obtain ⟨t', ht', hnow'⟩ := ih htsize hnow
      exact ⟨t', run_cons_eq_some.mpr ⟨t, ht, ht'⟩, hnow'⟩

/-- All images are taken away while the banner plays. -/
def emptied : List (Event String) := [.setImgsPath ["a", "b"], .act .start, .setImgsPath []]

theorem emptied_banner_plays : ¬ Always handle (fun s => s.MayPlay ∧ s.Paced) new emptied ∧
    ∀ k, ∃ t, run handle new (emptied ++ List.replicate (k + 1) (.act (.task 0))) = some t ∧
      t.pending = [0] := by
  obtain ⟨s, hs, hsize, hpending, hplays⟩ : ∃ s, run handle new emptied = some s ∧ s.viewSize = 2 ∧
      s.pending = [delayTime] ∧ ¬ s.MayPlay := ⟨_, rfl, rfl, rfl, by decide⟩
  constructor
  · exact fun h => hplays (always_iff.mp h _ _ (List.prefix_refl _) hs).1
  · intro k
    obtain ⟨t, ht, hnow⟩ := @busy_of_empty String s hsize delayTime hpending k
    exact ⟨t, run_append.mpr ⟨s, hs, ht⟩, hnow⟩

end BannerView

end MyDemo.Banner

import MyDemo.Banner.Lemmas.Playing
import MyDemo.Banner.PageTheorems

/-!
# The images come round
-/

namespace MyDemo.Banner

open Transition

namespace BannerView

variable {s s' : BannerView} {n : ℕ}

/-! ## What is seen while the handler waits -/

def onScreen (s : BannerView) : Option ℕ := s.viewPager.pages[s.viewPager.currentItem]?

/-- A run of the task: the delay after which it came, and what has been on the screen until then. -/
structure Wait where
  delay : ℕ
  images : List (Option ℕ)
  deriving DecidableEq, Repr

/-- `seen` is what has been on the screen since the last run of the task. -/
def waits (seen : List (Option ℕ)) (s : BannerView) : List Action → List Wait
  | [] => []
  | a :: as =>
      match s.step a with
      | none => []
      | some t =>
          match a with
          | .task i => ⟨s.pending.getD i 0, seen⟩ :: waits [t.onScreen] t as
          | _ => waits (seen ++ [t.onScreen]) t as

/-- The pager has settled or is settling, or the task runs. -/
def Action.Undisturbed : Action → Prop
  | .scrollState .idle | .scrollState .settling | .task _ => True
  | _ => False

theorem Inv.onScreen (h : Inv n s) : s.onScreen = some (image n s.currentItem) := by
  rw [BannerView.onScreen, h.pages, h.item]
  exact getElem?_imgViews h.bound

/-! ## One step -/

theorem item_turnTo (item : ℕ) : (s.turnTo item).viewPager.currentItem = item := by
  simp only [turnTo, onPageSelected, setSelect]
  split_ifs with h <;> first | exact h.symm | rfl

/-- The task waits for its delay, or is due at once on the first page. -/
structure Plays (n : ℕ) (s : BannerView) : Prop extends Inv n s where
  page : 1 ≤ s.currentItem
  pending : s.pending = [delayTime] ∨ s.pending = [0] ∧ s.currentItem = 1

theorem image_first (hn : 2 ≤ n) : image n 1 = 0 := by
  rw [image, if_neg (by omega), if_neg (by omega)]

theorem image_last (n : ℕ) : image n (n + 1) = 0 := by
  rw [image, if_neg (by omega), if_pos rfl]

theorem image_succ {p : ℕ} (hp : 1 ≤ p) (hpn : p ≤ n) : image n (p + 1) = (image n p + 1) % n := by
  have hp' : image n p = p - 1 := by rw [image, if_neg (by omega), if_neg (by omega)]
  rw [hp', Nat.sub_add_cancel hp, image, if_neg (by omega)]
  split
  · next hlast => rw [show p = n by omega, Nat.mod_self]
  · next hnext => rw [Nat.mod_eq_of_lt (by omega), Nat.add_sub_cancel]

theorem Plays.scrollState (h : Plays n s) {state : ScrollState} (hstate : state ≠ .dragging) :
    Plays n (s.onPageScrollStateChanged state) ∧
      image n (s.onPageScrollStateChanged state).currentItem = image n s.currentItem ∧
      (s.onPageScrollStateChanged state).pending = s.pending := by
  have hpage := h.page
  cases state with
  | dragging => exact absurd rfl hstate
  | settling => exact ⟨h, rfl, rfl⟩
  | idle =>
      rw [onPageScrollStateChanged, if_neg (by omega)]
      split
      · next hlast =>
          have hbound : 1 ≤ n + 1 := by omega
          have hinv : Inv n (s.setCurrentItem 1) := h.toInv.setCurrentItem hbound
          have hitem : (s.setCurrentItem 1).currentItem = 1 := by
            rw [← hinv.item, h.toBuilt.setCurrentItem_eq hbound, item_turnTo]
          have hcurrent : s.currentItem = n + 1 := by
            rw [h.viewSize] at hlast
            omega
          refine ⟨⟨hinv, hitem.ge, ?_⟩, ?_, pending_setCurrentItem 1⟩
          · rw [pending_setCurrentItem, hitem]
            exact h.pending.imp_right (fun hdue => ⟨hdue.1, rfl⟩)
          · rw [hitem, hcurrent, image_first h.two, image_last]
      · exact ⟨h, rfl, rfl⟩

theorem task_eq (h : Inv n s) (hpending : s.pending = []) :
    s.task.currentItem = s.currentItem % (n + 1) + 1 ∧
      s.task.pending = [if s.currentItem % (n + 1) + 1 = 1 then 0 else delayTime] := by
  obtain ⟨hbound, _⟩ := next_item_ne h.two h.bound
  have hsize : s.viewSize - 1 = n + 1 := by rw [h.viewSize]; omega
  have hbuilt : Built n { s with currentItem := s.currentItem % (n + 1) + 1 } := { h with }
  constructor
  · rw [← h.task.item]
    simp only [task, hsize]
    split <;> (dsimp only; rw [hbuilt.setCurrentItem_eq hbound, item_turnTo])
  · have hposted : s.task.pending = s.pending ++ [s.nextDelay] := congrArg (·.2.2) (playing_task s)
    rw [hposted, hpending, nextDelay, hsize]
    rfl

/-- `last` is the image of the last full delay: it is still there if the task is due at once, and the next
image is there if the task waits. -/
def Due (n last : ℕ) (s : BannerView) : Prop :=
  s.pending = [delayTime] ∧ image n s.currentItem = (last + 1) % n ∨
    s.pending = [0] ∧ image n s.currentItem = last

theorem Plays.task (h : Plays n s) : Plays n (BannerView.task { s with pending := [] }) ∧
    Due n (image n s.currentItem) (BannerView.task { s with pending := [] }) ∧
    (s.pending = [0] → (BannerView.task { s with pending := [] }).pending = [delayTime]) := by
  have hempty : Inv n { s with pending := [] } := h.toInv.of_pending s.isStart []
  obtain ⟨hitem, hpending⟩ := task_eq hempty rfl
  have hpage := h.page
  have hbound := h.bound
  have htwo := h.two
  rcases Nat.lt_or_eq_of_le hbound with hlt | hlast
  · rw [show s.currentItem % (n + 1) = s.currentItem from Nat.mod_eq_of_lt hlt] at hitem hpending
    rw [if_neg (by omega)] at hpending
    refine ⟨⟨hempty.task, by omega, .inl hpending⟩, .inl ⟨hpending, ?_⟩, fun _ => hpending⟩
    rw [hitem, image_succ hpage (by omega)]
  · rw [show s.currentItem % (n + 1) = 0 by rw [hlast, Nat.mod_self]] at hitem hpending
    have hdue : (BannerView.task { s with pending := [] }).pending = [0] := hpending
    refine ⟨⟨hempty.task, by omega, .inr ⟨hdue, hitem⟩⟩, .inr ⟨hdue, ?_⟩, fun hnow => ?_⟩
    · rw [hitem, hlast, image_first htwo, image_last]
    · obtain hwait | ⟨_, hone⟩ := h.pending
      · rw [hwait] at hnow
        cases hnow
      · omega

/-! ## Runs -/

theorem Plays.step (h : Plays n s) {a : Action} (ha : a.Undisturbed) (hs : s.step a = some s') :
    (∃ state, a = .scrollState state ∧ state ≠ .dragging ∧ s' = s.onPageScrollStateChanged state) ∨
      (∃ delay, a = .task 0 ∧ s.pending = [delay] ∧ s' = BannerView.task { s with pending := [] }) := by
  cases a with
  | scrollState state =>
      simp only [BannerView.step, h.listening, if_true, Option.some.injEq] at hs
      refine .inl ⟨state, rfl, ?_, hs.symm⟩
      rintro rfl
      exact ha
  | task i =>
      obtain ⟨delay, hdelay⟩ : ∃ delay, s.pending = [delay] :=
        h.pending.elim (fun hp => ⟨_, hp⟩) (fun hp => ⟨_, hp.1⟩)
      simp only [BannerView.step, hdelay, List.length_singleton, Nat.lt_one_iff] at hs
      split at hs
      · next hi =>
          subst hi
          exact .inr ⟨delay, rfl, hdelay, (Option.some.inj hs).symm⟩
      · cases hs
  | select position => cases ha
  | touch action => cases ha
  | start => cases ha
  | stop => cases ha

theorem Plays.run {as : List Action} (has : ∀ a ∈ as, a.Undisturbed) (h : Plays n s)
    (hrun : Transition.run BannerView.step s as = some s') : Plays n s' := by
  refine run_invariant (fun t a t' ha ht hstep => ?_) has h hrun
  rcases ht.step ha hstep with ⟨state, rfl, hstate, rfl⟩ | ⟨delay, rfl, _, rfl⟩
  · exact (ht.scrollState hstate).1
  · exact ht.task.1

theorem waits_rounds {as : List Action} (has : ∀ a ∈ as, a.Undisturbed) {last : ℕ} {seen : List (Option ℕ)}
    (h : Plays n s) (hdue : Due n last s) (hseen : ∀ x ∈ seen, x = some (image n s.currentItem)) :
    ∃ images : List ℕ, List.Forall₂ (fun w i => ∀ x ∈ w.images, x = some i)
        ((waits seen s as).filter (·.delay = delayTime)) images ∧
      (last :: images).IsChain (fun i j => j = (i + 1) % n) := by
  induction as generalizing s last seen with
  | nil => exact ⟨[], .nil, .singleton last⟩
  | cons a as ih =>
      have has' : ∀ b ∈ as, b.Undisturbed := fun b hb => has b (List.mem_cons_of_mem _ hb)
      cases hstep : s.step a with
      | none => exact ⟨[], by simp [waits, hstep], .singleton last⟩
      | some t =>
          rcases h.step (has a List.mem_cons_self) hstep with ⟨state, rfl, hstate, rfl⟩ | ⟨delay, rfl, hdelay, rfl⟩
          · obtain ⟨hplays, himage, hpending⟩ := h.scrollState hstate
            have hdue' : Due n last (s.onPageScrollStateChanged state) := by
              rw [Due, himage, hpending]
              exact hdue
            simp only [waits, hstep]
            refine ih has' hplays hdue' (fun x hx => ?_)
            rcases List.mem_append.mp hx with hx | hx
            · rw [himage]
              exact hseen x hx
            · rw [List.mem_singleton.mp hx, hplays.toInv.onScreen]
          · obtain ⟨hplays, hnext, _⟩ := h.task
            have hshown : ∀ x ∈ [onScreen _], x = some (image n _) :=
              fun x hx => by rw [List.mem_singleton.mp hx, hplays.toInv.onScreen]
            obtain ⟨images, hall, hchain⟩ := ih has' hplays hnext hshown
            simp only [waits, hstep, hdelay]
            obtain ⟨hwait, himage⟩ | ⟨hnow, himage⟩ := hdue
            · obtain rfl : delay = delayTime := by simpa [hdelay] using hwait
              refine ⟨image n s.currentItem :: images, ?_, hchain.cons_cons himage⟩
              rw [List.filter_cons_of_pos (by simp)]
              exact .cons hseen hall
            · obtain rfl : delay = 0 := by simpa [hdelay] using hnow
              refine ⟨images, ?_, himage ▸ hchain⟩
              rw [List.filter_cons_of_neg (by simp [delayTime])]
              exact hall

theorem waits_delays {as : List Action} (has : ∀ a ∈ as, a.Undisturbed) {w : Wait}
    {seen : List (Option ℕ)} (h : Plays n s) (hw : w.delay = 0 → s.pending = [delayTime]) :
    (w :: waits seen s as).IsChain (fun w w' => ¬ (w.delay = 0 ∧ w'.delay = 0)) := by
  induction as generalizing s w seen with
  | nil => exact .singleton w
  | cons a as ih =>
      have has' : ∀ b ∈ as, b.Undisturbed := fun b hb => has b (List.mem_cons_of_mem _ hb)
      cases hstep : s.step a with
      | none => simp [waits, hstep]
      | some t =>
          rcases h.step (has a List.mem_cons_self) hstep with ⟨state, rfl, hstate, rfl⟩ | ⟨delay, rfl, hdelay, rfl⟩
          · obtain ⟨hplays, _, hpending⟩ := h.scrollState hstate
            simp only [waits, hstep]
            exact ih has' hplays (fun hzero => hpending.trans (hw hzero))
          · obtain ⟨hplays, _, hnow⟩ := h.task
            simp only [waits, hstep, hdelay]
            refine (ih has' hplays (fun hzero => hnow ?_)).cons_cons ?_
            · rw [hdelay]
              exact congrArg ([·]) hzero
            · rintro ⟨hzero, hzero'⟩
              rw [hw hzero] at hdelay
              cases hdelay
              cases hzero'

/-! ## From any page with the start button -/

/-- Every image comes after another one. -/
theorem exists_before (hn : 2 ≤ n) {p : ℕ} (hp : p ≤ n + 1) : ∃ last, image n p = (last + 1) % n := by
  have hlt : image n p < n := by
    rw [image]
    split_ifs <;> omega
  refine ⟨image n p + (n - 1), ?_⟩
  rw [Nat.add_assoc, Nat.sub_add_cancel (by omega), Nat.add_mod_right, Nat.mod_eq_of_lt hlt]

theorem canScroll_setImgsPath {α : Type*} (imgsPath : List α) (h : 2 ≤ imgsPath.length) :
    (new.setImgsPath imgsPath).canScroll = true :=
  (congrArg Prod.fst (playing_setImgsPath imgsPath)).trans (decide_eq_true h)

/-- From any page but the copy of the last image, whatever has happened before: the task is always posted once, the
images on the screen for a full delay follow each other round, and the task is not due at once twice in a row. -/
theorem images_come_round {α : Type*} (imgsPath : List α) (h : 2 ≤ imgsPath.length) {history as : List Action}
    (hs : run step (new.setImgsPath imgsPath) history = some s) (hpage : 1 ≤ s.currentItem)
    (has : ∀ a ∈ as, a.Undisturbed) :
    (∀ t, run step s.start as = some t → t.pending = [delayTime] ∨ t.pending = [0]) ∧
    (∃ images : List ℕ, List.Forall₂ (fun w i => ∀ x ∈ w.images, x = some i)
        ((waits [s.onScreen] s.start as).filter (·.delay = delayTime)) images ∧
      (∀ i ∈ images.head?, s.onScreen = some i) ∧
      images.IsChain (fun i j => j = (i + 1) % imgsPath.length)) ∧
    (waits [s.onScreen] s.start as).IsChain (fun w w' => ¬ (w.delay = 0 ∧ w'.delay = 0)) := by
  generalize hn : imgsPath.length = n at h
  have hinv : Inv n s := run_keeps (fun _ _ _ hinv ht => inv_step hinv ht)
    (hn ▸ inv_setImgsPath imgsPath (hn.symm ▸ h)) hs
  have hscroll : s.canScroll = true := run_keeps (I := fun t => t.canScroll = true)
    (fun _ _ _ hscroll ht => (canScroll_step ht).trans hscroll) (canScroll_setImgsPath imgsPath (hn.symm ▸ h)) hs
  have hstart : s.start = { s with pending := [delayTime], isStart := true } := by
    rw [start, if_pos hscroll]
    rfl
  have hplays : Plays n s.start := by
    rw [hstart]
    exact ⟨hinv.of_pending _ _, hpage, .inl rfl⟩
  obtain ⟨last, hlast⟩ := exists_before h hinv.bound
  have hdue : Due n last s.start := by
    rw [hstart]
    exact .inl ⟨rfl, hlast⟩
  have hscreen : s.onScreen = some (image n s.start.currentItem) := by
    rw [hstart]
    exact hinv.onScreen
  have hseen : ∀ x ∈ [s.onScreen], x = some (image n s.start.currentItem) :=
    fun x hx => (List.mem_singleton.mp hx).trans hscreen
  obtain ⟨images, hall, hchain⟩ := waits_rounds has hplays hdue hseen
  obtain ⟨hhead, hrounds⟩ := List.isChain_cons.mp hchain
  refine ⟨fun t ht => (hplays.run has ht).pending.imp_right And.left, ⟨images, hall, fun i hi => ?_, hrounds⟩, ?_⟩
  · rw [hhead i hi, ← hlast]
    exact hinv.onScreen
  · have hfirst : ((⟨delayTime, []⟩ : Wait) :: waits [s.onScreen] s.start as).IsChain
        (fun w w' => ¬ (w.delay = 0 ∧ w'.delay = 0)) := waits_delays has hplays (fun hzero => by cases hzero)
    exact (List.isChain_cons.mp hfirst).2

theorem images_come_round_two : ∃ s, run step (new.setImgsPath ["a", "b"]) [.select 3] = some s ∧
    (∀ t, run step s.start [.task 0, .task 0, .task 0, .scrollState .idle, .task 0] = some t →
      t.pending = [delayTime] ∨ t.pending = [0]) ∧
    (∃ images : List ℕ, List.Forall₂ (fun w i => ∀ x ∈ w.images, x = some i)
        ((waits [s.onScreen] s.start [.task 0, .task 0, .task 0, .scrollState .idle, .task 0]).filter
          (·.delay = delayTime)) images ∧
      (∀ i ∈ images.head?, s.onScreen = some i) ∧ images.IsChain (fun i j => j = (i + 1) % 2)) ∧
    (waits [s.onScreen] s.start [.task 0, .task 0, .task 0, .scrollState .idle, .task 0]).IsChain
      (fun w w' => ¬ (w.delay = 0 ∧ w'.delay = 0)) := by
  have hpage : (run step (new.setImgsPath ["a", "b"]) [.select 3]).map BannerView.currentItem = some 3 := by
    decide
  obtain ⟨s, hs, hpage⟩ := Option.map_eq_some_iff.mp hpage
  exact ⟨s, hs, images_come_round ["a", "b"] (by decide) hs (by omega) (by simp [Action.Undisturbed])⟩

end BannerView

end MyDemo.Banner

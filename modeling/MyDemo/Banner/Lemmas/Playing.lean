import MyDemo.Banner.BannerView
import Mathlib.Tactic.SplitIfs

/-!
# What decides whether the banner plays
-/

namespace MyDemo.Banner

namespace BannerView

variable {s s' : BannerView}

/-- `canScroll`, `isStart` and `pending`. -/
def playing (s : BannerView) : Bool × Bool × List ℕ := (s.canScroll, s.isStart, s.pending)

/-! ## Turning a page is no part of it -/

@[simp] theorem playing_turnTo (item : ℕ) : (s.turnTo item).playing = s.playing := by
  simp only [turnTo, onPageSelected, setSelect]
  split_ifs <;> rfl

@[simp] theorem playing_setCurrentItem (item : ℕ) : (s.setCurrentItem item).playing = s.playing := by
  rw [setCurrentItem]
  split
  · rfl
  · exact playing_turnTo _

@[simp] theorem pending_setCurrentItem (item : ℕ) : (s.setCurrentItem item).pending = s.pending :=
  congrArg (·.2.2) (playing_setCurrentItem item)

@[simp] theorem playing_onPageScrollStateChanged (state : ScrollState) :
    (s.onPageScrollStateChanged state).playing = s.playing := by
  cases state with
  | idle => simp only [onPageScrollStateChanged]; split_ifs <;> simp
  | dragging => simp only [onPageScrollStateChanged]; split_ifs <;> simp
  | settling => rfl

/-! ## What is -/

/-- The delay with which the task posts itself again. -/
def nextDelay (s : BannerView) : ℕ := if s.currentItem % (s.viewSize - 1) + 1 = 1 then 0 else delayTime

theorem playing_task (s : BannerView) :
    s.task.playing = (s.canScroll, s.isStart, s.pending ++ [s.nextDelay]) := by
  have hturn := playing_setCurrentItem (s := { s with currentItem := s.currentItem % (s.viewSize - 1) + 1 })
    (s.currentItem % (s.viewSize - 1) + 1)
  obtain ⟨hscroll, hrest⟩ := Prod.mk.inj hturn
  obtain ⟨hstart, hpending⟩ := Prod.mk.inj hrest
  simp only [task, playing, nextDelay]
  split
  · exact Prod.ext hscroll (Prod.ext hstart (congrArg (· ++ [0]) hpending))
  · exact Prod.ext hscroll (Prod.ext hstart (congrArg (· ++ [delayTime]) hpending))

theorem playing_setImgsPath {α : Type*} (imgsPath : List α) :
    (s.setImgsPath imgsPath).playing = (decide (2 ≤ imgsPath.length), s.isStart, s.pending) := by
  simp only [setImgsPath]
  split
  · next hempty => simp [playing, hempty]
  · split
    · next hscroll => exact (playing_setCurrentItem 1).trans rfl
    · rfl

def played (s : BannerView) : Action → Bool × Bool × List ℕ
  | .select _ | .scrollState _ | .touch .other => s.playing
  | .touch .down => (s.canScroll, s.isStart, [])
  | .touch .up | .touch .cancel | .touch .outside =>
      (s.canScroll, s.isStart, if s.isStart then [delayTime] else s.pending)
  | .start => (s.canScroll, s.isStart || s.canScroll, if s.canScroll then [delayTime] else s.pending)
  | .stop => (s.canScroll, false, [])
  | .task i => (s.canScroll, s.isStart, s.pending.eraseIdx i ++ [s.nextDelay])

theorem playing_step {a : Action} (hs : s.step a = some s') : s'.playing = s.played a := by
  cases a with
  | select position =>
      simp only [step] at hs
      split at hs
      · cases hs; exact playing_turnTo position
      · cases hs
  | scrollState state =>
      simp only [step] at hs
      split at hs
      · cases hs; exact playing_onPageScrollStateChanged state
      · cases hs
  | touch action =>
      cases hs
      cases action with
      | down | other => rfl
      | up | cancel | outside =>
          simp only [dispatchTouchEvent, startAutoPlay, played, playing]
          split_ifs <;> rfl
  | start =>
      cases hs
      simp only [start, startAutoPlay, played, playing]
      split_ifs with hscroll
      · simp [hscroll]
      · simp [hscroll]
  | stop => cases hs; rfl
  | task i =>
      simp only [step] at hs
      split at hs
      · cases hs; exact playing_task _
      · cases hs

theorem canScroll_step {a : Action} (hs : s.step a = some s') : s'.canScroll = s.canScroll := by
  have hplayed : s'.canScroll = (s.played a).1 := congrArg Prod.fst (playing_step hs)
  rw [hplayed]
  cases a with
  | touch action => cases action <;> rfl
  | select _ | scrollState _ | start | stop | task _ => rfl

end BannerView

end MyDemo.Banner

import MyDemo.Banner.BannerView
import MyDemo.Lib.Transition
import Mathlib.Data.List.Nodup

/-!
# The page, its image and the dots
-/

namespace MyDemo.Banner

open Transition

/-! ## The dots -/

theorem MarkView.selected_setSelect (m : MarkView) {k : ℕ} (h : k < m.markNumber) :
    (m.setSelect k).selected = [k] := by
  have hfilter : (m.setSelect k).selected = (List.range m.markNumber).filter (· == k) := by
    simp only [selected, setSelect, List.length_map, List.length_range]
    refine List.filter_congr fun i hi => ?_
    have hcast : ((i : ℤ) == (k : ℤ)) = (i == k) := by
      rw [Bool.eq_iff_iff, beq_iff_eq, beq_iff_eq, Int.natCast_inj]
    rw [List.getElem?_map, List.getElem?_range (List.mem_range.mp hi), Option.map_some, hcast]
    cases i == k <;> rfl
  have hcount : (List.range m.markNumber).count k = 1 :=
    List.count_eq_one_of_mem List.nodup_range (List.mem_range.mpr h)
  rw [hfilter, List.filter_beq, hcount]
  rfl

namespace BannerView

variable {s s' : BannerView} {n : ℕ}

/-- The page in `currentItem` exists, and the one dot highlighted has the index of the image on it. -/
def Agrees (s : BannerView) : Prop :=
  s.currentItem ≤ s.imgsPathSize + 1 ∧ ∃ mark image, s.markView = some mark ∧
    s.views[s.currentItem]? = some image ∧ mark.selected = [image]

/-- The image on a page, where the first page is a copy of the last image and the last one of the first. -/
def image (n p : ℕ) : ℕ := if p = 0 then n - 1 else if p = n + 1 then 0 else p - 1

def imgViews (n : ℕ) : List ℕ := (n - 1) :: List.range n ++ [0]

theorem getElem?_imgViews {p : ℕ} (h : p ≤ n + 1) : (imgViews n)[p]? = some (image n p) := by
  rw [imgViews, image]
  rcases p with _ | p
  · rfl
  · rw [List.cons_append, List.getElem?_cons_succ, if_neg (Nat.succ_ne_zero p), Nat.add_sub_cancel]
    split
    · next hp =>
        rw [List.getElem?_append_right (by simp; omega)]
        simp [show p = n by omega]
    · next hp =>
        rw [List.getElem?_append_left (by simp; omega), List.getElem?_range (by omega)]

@[simp] theorem length_imgViews : (imgViews n).length = n + 2 := by simp [imgViews]

/-- What `setImgsPath` has made for `n` images. -/
structure Built (n : ℕ) (s : BannerView) : Prop where
  two : 2 ≤ n
  imgsPathSize : s.imgsPathSize = n
  viewSize : s.viewSize = n + 2
  views : s.views = imgViews n
  pages : s.viewPager.pages = imgViews n
  listening : s.viewPager.listening = true
  markNumber : ∃ m, s.markView = some m ∧ m.markNumber = n

structure Inv (n : ℕ) (s : BannerView) : Prop extends Built n s where
  bound : s.currentItem ≤ n + 1
  item : s.viewPager.currentItem = s.currentItem
  selected : s.markView.map (·.selected) = some [image n s.currentItem]

theorem Inv.agrees (h : Inv n s) : Agrees s := by
  obtain ⟨m, hm, hselected⟩ := Option.map_eq_some_iff.mp h.selected
  refine ⟨h.imgsPathSize.symm ▸ h.bound, m, _, hm, ?_, hselected⟩
  rw [h.views]
  exact getElem?_imgViews h.bound

/-! ## Turning to a page -/

theorem Built.inv_onPageSelected (h : Built n s) {position : ℕ} (hp : position ≤ n + 1)
    (hitem : s.viewPager.currentItem = position) : Inv n (s.onPageSelected position) := by
  obtain ⟨m, hm, hn⟩ := h.markNumber
  have htwo := h.two
  have hselect : s.onPageSelected position =
      { s with currentItem := position, markView := some (m.setSelect (image n position)) } := by
    simp only [onPageSelected, setSelect, hm, h.viewSize, Option.map_some, image]
    by_cases hzero : position = 0
    · simp only [hzero, if_true]
      congr 3
      omega
    · by_cases hlast : position = n + 1
      · rw [if_neg hzero, if_neg hzero, if_pos hlast, if_pos (by omega)]
        rfl
      · rw [if_neg hzero, if_neg hzero, if_neg hlast, if_neg (by omega)]
        congr 3
        omega
  have hlt : image n position < m.markNumber := by
    rw [hn, image]
    split_ifs <;> omega
  rw [hselect]
  exact {
    two := h.two
    imgsPathSize := h.imgsPathSize
    viewSize := h.viewSize
    views := h.views
    pages := h.pages
    listening := h.listening
    markNumber := ⟨_, rfl, hn⟩
    bound := hp
    item := hitem
    selected := congrArg some (m.selected_setSelect hlt) }

theorem Built.inv_turnTo (h : Built n s) {item : ℕ} (hitem : item ≤ n + 1)
    (hne : item ≠ s.viewPager.currentItem) : Inv n (s.turnTo item) := by
  have hbuilt : Built n { s with viewPager := { s.viewPager with currentItem := item } } := { h with }
  rw [turnTo, if_neg hne]
  dsimp only
  rw [if_pos h.listening]
  exact hbuilt.inv_onPageSelected hitem rfl

theorem Inv.turnTo (h : Inv n s) {item : ℕ} (hitem : item ≤ n + 1) : Inv n (s.turnTo item) := by
  by_cases heq : item = s.viewPager.currentItem
  · rw [BannerView.turnTo, if_pos heq]
    exact h
  · exact h.inv_turnTo hitem heq

theorem Built.setCurrentItem_eq (h : Built n s) {item : ℕ} (hitem : item ≤ n + 1) :
    s.setCurrentItem item = s.turnTo item := by
  rw [setCurrentItem, if_neg (by simp [h.pages, imgViews]), h.pages, length_imgViews]
  congr 1
  omega

theorem Inv.setCurrentItem (h : Inv n s) {item : ℕ} (hitem : item ≤ n + 1) : Inv n (s.setCurrentItem item) := by
  rw [h.setCurrentItem_eq hitem]
  exact h.turnTo hitem

/-! ## What the callbacks do -/

theorem Inv.onPageScrollStateChanged (h : Inv n s) (state : ScrollState) :
    Inv n (s.onPageScrollStateChanged state) := by
  have hfirst : Inv n (s.setCurrentItem 1) := h.setCurrentItem (by omega)
  have hlast : Inv n (s.setCurrentItem (s.viewSize - 2)) := h.setCurrentItem (by rw [h.viewSize]; omega)
  cases state with
  | idle =>
      simp only [BannerView.onPageScrollStateChanged]
      split_ifs
      · exact hlast
      · exact hfirst
      · exact h
  | dragging =>
      simp only [BannerView.onPageScrollStateChanged]
      split_ifs
      · exact hlast
      · exact hfirst
      · exact h
      · exact h
  | settling => exact h

/-- The handler and the flag are not read by what is shown. -/
theorem Inv.of_pending (h : Inv n s) (isStart : Bool) (pending : List ℕ) :
    Inv n { s with isStart := isStart, pending := pending } := { h with }

theorem next_item_ne {n c : ℕ} (hn : 2 ≤ n) (hc : c ≤ n + 1) :
    c % (n + 1) + 1 ≤ n + 1 ∧ c % (n + 1) + 1 ≠ c := by
  have hlt : c % (n + 1) < n + 1 := Nat.mod_lt _ (by omega)
  refine ⟨by omega, ?_⟩
  rcases Nat.lt_or_eq_of_le hc with hc | rfl
  · rw [Nat.mod_eq_of_lt hc]; omega
  · rw [Nat.mod_self]; omega

theorem Inv.task (h : Inv n s) : Inv n s.task := by
  obtain ⟨hbound, hne⟩ := next_item_ne h.two h.bound
  have hsize : s.viewSize - 1 = n + 1 := by rw [h.viewSize]; omega
  have hbuilt : Built n { s with currentItem := s.currentItem % (n + 1) + 1 } := { h with }
  have hturn : Inv n (BannerView.setCurrentItem { s with currentItem := s.currentItem % (n + 1) + 1 }
      (s.currentItem % (n + 1) + 1)) := by
    rw [hbuilt.setCurrentItem_eq hbound]
    exact hbuilt.inv_turnTo hbound (h.item ▸ hne)
  simp only [BannerView.task, hsize]
  split
  · exact hturn.of_pending _ _
  · exact hturn.of_pending _ _

theorem inv_step {a : Action} (h : Inv n s) (hs : s.step a = some s') : Inv n s' := by
  cases a with
  | select position =>
      simp only [step] at hs
      split at hs
      · next hp =>
          cases hs
          rw [h.pages, length_imgViews] at hp
          exact h.turnTo (by omega)
      · cases hs
  | scrollState state =>
      simp only [step] at hs
      split at hs
      · cases hs; exact h.onPageScrollStateChanged state
      · cases hs
  | touch action =>
      cases hs
      cases action with
      | up | cancel | outside =>
          simp only [dispatchTouchEvent]
          split
          · exact h.of_pending _ _
          · exact h
      | down => exact h.of_pending _ _
      | other => exact h
  | start =>
      cases hs
      rw [start]
      split
      · exact h.of_pending _ _
      · exact h
  | stop => cases hs; exact h.of_pending _ _
  | task i =>
      simp only [step] at hs
      split at hs
      · cases hs; exact (h.of_pending _ _).task
      · cases hs

theorem inv_setImgsPath {α : Type*} (imgsPath : List α) (h : 2 ≤ imgsPath.length) :
    Inv imgsPath.length (new.setImgsPath imgsPath) := by
  generalize hn : imgsPath.length = n at h
  have hview : new.setImgsPath imgsPath = { new with
      views := imgViews n
      imgsPathSize := n
      viewSize := n + 2
      canScroll := true
      currentItem := 1
      viewPager := ⟨imgViews n, 1, true⟩
      markView := some ((MarkView.new.setMarks n).setSelect 0) } := by
    simp [setImgsPath, hn, h, show n ≠ 0 by omega, setCurrentItem, turnTo, setSelect, imgViews]
  rw [hview]
  exact {
    two := h
    imgsPathSize := rfl
    viewSize := rfl
    views := rfl
    pages := rfl
    listening := rfl
    markNumber := ⟨_, rfl, rfl⟩
    bound := by simp
    item := rfl
    selected := by
      have himage : image n 1 = 0 := by rw [image, if_neg (Nat.succ_ne_zero 0), if_neg (by omega)]
      have hlt : 0 < (MarkView.new.setMarks n).markNumber := by
        change 0 < n
        omega
      rw [himage]
      exact congrArg some (MarkView.selected_setSelect _ hlt) }

/-- Whatever the user and the handler do. -/
theorem page_and_dots_agree {α : Type*} (imgsPath : List α) (h : 2 ≤ imgsPath.length) (as : List Action) :
    Always step Agrees (new.setImgsPath imgsPath) as :=
  always_of_invariant (fun _ _ _ => inv_step) (fun _ => Inv.agrees) (inv_setImgsPath imgsPath h) as

/-- Past the last page by itself, and back by the user's hand. -/
theorem page_and_dots_agree_three : Always step Agrees (new.setImgsPath ["a", "b", "c"])
    [.start, .task 0, .task 0, .task 0, .scrollState .idle, .scrollState .dragging, .select 0, .task 0] :=
  page_and_dots_agree ["a", "b", "c"] (by decide) _

end BannerView

end MyDemo.Banner

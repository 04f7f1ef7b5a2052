import MyDemo.Lib.Transition
import MyDemo.Nested.MyNestedView

/-!
# What becomes of a scroll
-/

namespace MyDemo.Nested

open Transition
open MyDemo.Sort (wrap wrap_eq)

namespace MyNestedView

variable {s s' : MyNestedView} {p : PreScroll}

/-! ## Positions -/

structure InRange (s : MyNestedView) : Prop where
  nonneg : 0 ≤ s.scrollY
  le : s.scrollY ≤ s.mTopViewHeight
  isInt : s.mTopViewHeight < 2 ^ 31

theorem scrollY_scrollTo (s : MyNestedView) (x y : ℤ) :
    (s.scrollTo x y).scrollY = min (max y 0) s.mTopViewHeight := by
  have hclamp : (if (if y < 0 then 0 else y) > s.mTopViewHeight then s.mTopViewHeight else if y < 0 then 0 else y) =
      min (max y 0) s.mTopViewHeight := by
    split_ifs <;> omega
  simp only [scrollTo, hclamp]
  split
  · rfl
  · next hsame => exact (Decidable.not_not.mp hsame).symm

theorem mTopViewHeight_scrollTo (s : MyNestedView) (x y : ℤ) :
    (s.scrollTo x y).mTopViewHeight = s.mTopViewHeight := by
  simp only [scrollTo]
  split_ifs <;> rfl

theorem InRange.scrollTo (h : s.InRange) (x y : ℤ) : (s.scrollTo x y).InRange := by
  have htop := Int.le_trans h.nonneg h.le
  constructor
  · rw [scrollY_scrollTo]
    omega
  · rw [scrollY_scrollTo, mTopViewHeight_scrollTo]
    omega
  · rw [mTopViewHeight_scrollTo]
    exact h.isInt

/-! ## One scroll -/

/-- The header is to be scrolled. -/
def Takes (s : MyNestedView) (p : PreScroll) : Prop :=
  0 < p.dy ∧ s.scrollY < s.mTopViewHeight ∨ p.dy < 0 ∧ 0 ≤ s.scrollY ∧ p.canScrollVertically = false

theorem preScroll_of_takes (h : s.Takes p) : s.preScroll p = (s.scrollBy 0 p.dy, (0, p.dy)) := by
  rw [preScroll, onNestedPreScroll]
  exact if_pos (by simpa [Takes] using h)

theorem preScroll_of_not (h : ¬ s.Takes p) : s.preScroll p = (s, (0, 0)) := by
  rw [preScroll, onNestedPreScroll]
  exact if_neg (by simpa [Takes] using h)

theorem preScroll_cases (s : MyNestedView) (p : PreScroll) :
    (s.preScroll p).1 = s ∨ ∃ x y, (s.preScroll p).1 = s.scrollTo x y := by
  by_cases htakes : s.Takes p
  · rw [preScroll_of_takes htakes]
    exact .inr ⟨_, _, rfl⟩
  · rw [preScroll_of_not htakes]
    exact .inl rfl

theorem InRange.preScroll (h : s.InRange) (p : PreScroll) : (s.preScroll p).1.InRange := by
  obtain hsame | ⟨x, y, hscrolled⟩ := s.preScroll_cases p
  · rwa [hsame]
  · rw [hscrolled]
    exact h.scrollTo x y

/-- `consumed[1]` is the change of the scroll position. -/
def Reports (s : MyNestedView) (p : PreScroll) : Prop :=
  (s.preScroll p).2.2 = (s.preScroll p).1.scrollY - s.scrollY

instance (s : MyNestedView) (p : PreScroll) : Decidable (s.Reports p) := inferInstanceAs (Decidable (_ = _))

/-- No end of the header is crossed. -/
def StaysWithin (s : MyNestedView) (p : PreScroll) : Prop :=
  s.Takes p → 0 ≤ s.scrollY + p.dy ∧ s.scrollY + p.dy ≤ s.mTopViewHeight

theorem reports_iff (h : s.InRange) : s.Reports p ↔ s.StaysWithin p := by
  have htop := Int.le_trans h.nonneg h.le
  have hint := h.isInt
  by_cases htakes : s.Takes p
  · rw [Reports, StaysWithin, preScroll_of_takes htakes, imp_iff_right htakes]
    simp only [scrollBy, scrollY_scrollTo]
    constructor
    · intro hmoved
      omega
    · rintro ⟨hlow, hhigh⟩
      rw [wrap_eq (by omega) (by omega)]
      omega
  · rw [Reports, preScroll_of_not htakes]
    exact iff_of_true (Int.sub_self _).symm (fun hnow => absurd hnow htakes)

/-! ## Runs -/

/-- What the header did not report is left to the child. -/
def leftToChild : MyNestedView → List PreScroll → ℤ
  | _, [] => 0
  | s, p :: ps => p.dy - (s.preScroll p).2.2 + leftToChild (s.preScroll p).1 ps

/-- All that was asked for is the movement of the header and what was left to the child. -/
def Accounts (s : MyNestedView) (ps : List PreScroll) : Prop :=
  ∀ s', run handle s ps = some s' → (ps.map PreScroll.dy).sum = s'.scrollY - s.scrollY + s.leftToChild ps

theorem accounts_of_reports {ps : List PreScroll} (h : Each handle Reports s ps) : s.Accounts ps := by
  induction ps generalizing s with
  | nil =>
      intro s' hs'
      obtain rfl := Option.some.inj hs'
      simp [leftToChild]
  | cons p ps ih =>
      intro s' hs'
      obtain ⟨hreports, hrest⟩ := h _ rfl
      have hsum := ih hrest s' hs'
      rw [Reports] at hreports
      rw [List.map_cons, List.sum_cons, hsum, leftToChild]
      omega

/-- From any position in range: each scroll is reported as it was made, and none gets lost, exactly where
the header is never scrolled past one of its ends. -/
theorem scrolls_accounted_iff (h : s.InRange) (ps : List PreScroll) :
    Each handle Reports s ps ∧ s.Accounts ps ↔ Each handle StaysWithin s ps := by
  have hinv (s : MyNestedView) (p : PreScroll) (s' : MyNestedView) (_ : True) (hs : s.InRange)
      (hs' : s.handle p = some s') : s'.InRange := Option.some.inj hs' ▸ hs.preScroll p
  rw [and_iff_left_of_imp accounts_of_reports]
  exact each_congr hinv (fun _ _ _ hs => reports_iff hs) (fun _ _ => trivial) h

theorem scrolls_accounted_iff_hidden :
    Each handle Reports ⟨0, 5, 10⟩ [⟨false, 5⟩, ⟨false, 3⟩] ∧ Accounts ⟨0, 5, 10⟩ [⟨false, 5⟩, ⟨false, 3⟩] ↔
      Each handle StaysWithin ⟨0, 5, 10⟩ [⟨false, 5⟩, ⟨false, 3⟩] :=
  scrolls_accounted_iff ⟨by decide, by decide, by decide⟩ _

/-- The header moves by five of the eight it reports. -/
theorem crossing_overreported : InRange ⟨0, 5, 10⟩ ∧ ¬ Each handle Reports ⟨0, 5, 10⟩ [⟨false, 8⟩] ∧
    ¬ Accounts ⟨0, 5, 10⟩ [⟨false, 8⟩] := by
  refine ⟨⟨by decide, by decide, by decide⟩, by decide, fun h => ?_⟩
  exact absurd (h _ rfl) (by decide)

end MyNestedView

end MyDemo.Nested

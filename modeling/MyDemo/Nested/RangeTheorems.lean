import MyDemo.Nested.ScrollTheorems

/-!
# How far the header is scrolled
-/

namespace MyDemo.Nested

open Transition

namespace MyNestedView

variable {s s' : MyNestedView}

/-- The view is scrolled over the header at most. -/
def OverHeader (s : MyNestedView) : Prop := 0 ≤ s.scrollY ∧ s.scrollY ≤ s.mTopViewHeight

instance (s : MyNestedView) : Decidable s.OverHeader := inferInstanceAs (Decidable (_ ∧ _))

/-- The header does not get smaller than it is scrolled. -/
def KeepsHeight (s : MyNestedView) : Event → Prop
  | .sizeChanged measuredHeight => s.scrollY ≤ measuredHeight
  | .nestedPreScroll _ | .animationUpdate _ | .computeScroll _ => True

theorem OverHeader.scrollTo (h : s.OverHeader) (x y : ℤ) : (s.scrollTo x y).OverHeader := by
  obtain ⟨hlow, hhigh⟩ := h
  simp only [OverHeader, scrollY_scrollTo, mTopViewHeight_scrollTo]
  omega

theorem OverHeader.preScroll (h : s.OverHeader) (p : PreScroll) : (s.preScroll p).1.OverHeader := by
  obtain hsame | ⟨x, y, hscrolled⟩ := s.preScroll_cases p
  · rwa [hsame]
  · rw [hscrolled]
    exact h.scrollTo x y

theorem overHeader_step {e : Event} (h : s.OverHeader) (hs : s.step e = some s') :
    s'.OverHeader ↔ s.KeepsHeight e := by
  cases e with
  | nestedPreScroll p => cases hs; exact iff_of_true (h.preScroll p) trivial
  | animationUpdate animatedValue => cases hs; exact iff_of_true (h.scrollTo 0 animatedValue) trivial
  | computeScroll currY =>
      cases hs
      cases currY with
      | none => exact iff_of_true h trivial
      | some y => exact iff_of_true (h.scrollTo 0 y) trivial
  | sizeChanged measuredHeight =>
      cases hs
      exact and_iff_right h.1

/-- The view is scrolled over the header at most in the runs in which the header never gets smaller than
it is scrolled, and in no others. -/
theorem over_header_iff (events : List Event) :
    Always step OverHeader new events ↔ Each step KeepsHeight new events :=
  always_iff_each_of_keeps (I := fun _ => True) (fun _ _ _ _ _ => trivial)
    (fun _ _ _ _ h hs => overHeader_step h hs) trivial (by decide) events

/-- The header is scrolled away and then measured at half its height. -/
theorem shrunk_header_overscrolled : ¬ Always step OverHeader new
    [.sizeChanged 200, .animationUpdate 200, .sizeChanged 100] := by
  decide

end MyNestedView

end MyDemo.Nested

import MyDemo.Loadmore.Lemmas.Listener
import MyDemo.Lib.Transition

/-!
# The list can always ask for more
-/

namespace MyDemo.Loadmore

open Transition

namespace LRecyclerView

variable {s s' : LRecyclerView}

/-- When the list may ask for more, its gate is open and the next scroll at the end asks. -/
def NotStuck (s : LRecyclerView) : Prop :=
  Ready s.log → s.loadmoreFinish = false ∧
    ∀ calls, ∃ newer, (s.onScrolledBy false (some calls)).log = newer ++ .onLoadmore false :: s.log

theorem notStuck_iff : NotStuck s ↔ (Ready s.log → s.loadmoreFinish = false) := by
  constructor
  · exact fun h hready => (h hready).1
  · refine fun h hready => ⟨h hready, fun calls => ?_⟩
    obtain ⟨newer, hlog⟩ := log_foldl_complete { s with log := .onLoadmore false :: s.log } calls
    exact ⟨newer, by simpa [onScrolledBy, h hready, callListener] using hlog⟩

theorem NotStuck.congr (h : NotStuck s) (hview : s'.loadmoreFinish = s.loadmoreFinish)
    (hlog : s'.log = s.log) : NotStuck s' := by
  rw [notStuck_iff, hview, hlog]
  exact notStuck_iff.mp h

/-- A scroll at the end that finds the gate open calls a listener which completes nothing before it
returns, or calls `setNomoreData` last; and if there is no listener, the list may not ask for more. -/
def Answered (s : LRecyclerView) : Event → Prop
  | .onScrolled canScrollVertically listener =>
      canScrollVertically = true ∨ s.loadmoreFinish = true ∨
        match listener with
        | none => ¬ Ready s.log
        | some calls => calls = [] ∨ calls.getLast? = some .setNomoreData
  | _ => True

theorem notStuck_onScrolledBy (hs : NotStuck s) (canScrollVertically : Bool)
    (listener : Option (List Completion)) :
    NotStuck (s.onScrolledBy canScrollVertically listener) ↔
      s.Answered (.onScrolled canScrollVertically listener) := by
  rw [onScrolledBy]
  split
  · next hscroll => exact iff_of_true hs (.inl hscroll)
  · next hscroll =>
      split
      · next hfinish => exact iff_of_true hs (.inr (.inl hfinish))
      · next hfinish =>
          rw [notStuck_iff]
          simp only [Answered, hscroll, hfinish, Bool.false_eq_true, false_or, Bool.true_eq_false,
            imp_false]
          cases listener with
          | none => rfl
          | some calls =>
              rcases callListener_cases s false calls with ⟨rfl, heq⟩ | ⟨t, c, hc, heq⟩
              · simp [heq]
              · have hne : calls ≠ [] := by rintro rfl; cases hc
                simp [heq, hc, hne]

theorem notStuck_callListener (retry : Bool) (hopen : s.loadmoreFinish = false)
    (listener : Option (List Completion)) : NotStuck (s.callListener retry listener) := by
  rw [notStuck_iff]
  cases listener with
  | none => exact fun _ => hopen
  | some calls =>
      rcases callListener_cases s retry calls with ⟨_, heq⟩ | ⟨t, c, _, heq⟩
      · simp [heq]
      · simp [heq, loadmoreFinish_complete_eq]

theorem notStuck_handle {e : Event} (hinf : Informed s) (hs : NotStuck s) (hstep : s.handle e = some s') :
    NotStuck s' ↔ s.Answered e := by
  cases e with
  | onScrolled canScrollVertically listener =>
      cases hstep
      exact notStuck_onScrolledBy hs canScrollVertically listener
  | createFooter => cases hstep; exact iff_of_true (hs.congr rfl rfl) trivial
  | bindFooter j =>
      simp only [handle, step] at hstep
      split at hstep
      · cases hstep
        refine iff_of_true (notStuck_iff.mpr fun hready => ?_) trivial
        rw [log_bindFooter, ready_footerBound] at hready
        rw [loadmoreFinish_bindFooter]
        exact Bool.eq_false_iff.mpr fun h => hready.2 (hinf h)
      · cases hstep
  | bindRow => cases hstep; exact iff_of_true (hs.congr rfl rfl) trivial
  | tapFail j listener =>
      simp only [handle] at hstep
      split at hstep
      · cases hstep
      · split at hstep
        · cases hstep
          refine iff_of_true ?_ trivial
          split
          · exact notStuck_callListener true rfl listener
          · exact hs
        · cases hstep
  | complete c =>
      cases hstep
      refine iff_of_true (notStuck_iff.mpr fun hready => ?_) trivial
      rw [log_complete, ready_completed] at hready
      simpa [loadmoreFinish_complete_eq] using hready

/-- The list never gets stuck in the runs whose scrolls are all answered, and in no others. -/
theorem never_stuck_iff (es : List Event) : Always handle NotStuck new es ↔ Each handle Answered new es :=
  always_iff_each_of_keeps (I := Informed) (P := NotStuck) (C := Answered)
    (fun _ _ _ hinf hstep => hinf.handle hstep) (fun _ _ _ hinf hs hstep => notStuck_handle hinf hs hstep)
    Informed.new (notStuck_iff.mpr fun _ => rfl) es

/-- The listener completes at once: the gate that the completion has opened is closed after it. -/
theorem synchronous_success_sticks : ¬ Always handle NotStuck new
    [.createFooter, .bindFooter 0, .onScrolled false (some [.loadmoreSuccess])] := by
  intro h
  have hopen := notStuck_iff.mp (always_iff.mp h _ _ (List.prefix_refl _) rfl)
    (ready_completed.mpr (by decide))
  cases hopen

end LRecyclerView

end MyDemo.Loadmore

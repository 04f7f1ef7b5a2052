import MyDemo.Loadmore.Lemmas.Gate
import MyDemo.Lib.Transition

/-!
# One request for more at a time
-/

namespace MyDemo.Loadmore

open Transition

namespace LRecyclerView

/-- While a request is outstanding, no fail view with a listener is tapped, and the list is not scrolled
at its end if the request came from a tap or a footer row has been bound since. -/
def Allowed (s : LRecyclerView) : Action → Prop
  | .onScrolled canScrollVertically _ => canScrollVertically = true ∨ ¬ Reopened s.log
  | .tapFail j _ => (∃ f, s.footers[j]? = some f ∧ f.failClick = true) → ¬ Outstanding s.log
  | _ => True

theorem Gate.outstanding_iff {s : LRecyclerView} (h : Gate s) (hopen : s.loadmoreFinish = false) :
    Outstanding s.log ↔ Reopened s.log := by
  constructor
  · intro hout
    by_contra hre
    rw [h.closed hout hre] at hopen
    cases hopen
  · exact Reopened.outstanding

theorem noDuplicate_onScrolled {s : LRecyclerView} (hgate : Gate s) (hs : NoDuplicate s.log)
    (canScrollVertically : Bool) :
    NoDuplicate (s.onScrolled canScrollVertically none).log ↔
      canScrollVertically = true ∨ ¬ Reopened s.log := by
  rw [onScrolled_none]
  cases canScrollVertically with
  | true => simpa using hs
  | false =>
      cases hopen : s.loadmoreFinish with
      | true =>
          have hre : ¬ Reopened s.log := fun hre => by rw [hgate.opened hre] at hopen; cases hopen
          simpa [hre] using hs
      | false => simp [noDuplicate_request, hs, hgate.outstanding_iff hopen]

theorem noDuplicate_step {s s' : LRecyclerView} {a : Action} (ha : a.Later) (hgate : Gate s)
    (hs : NoDuplicate s.log) (hstep : s.step a = some s') : NoDuplicate s'.log ↔ s.Allowed a := by
  cases a with
  | onScrolled canScrollVertically reply =>
      cases ha; cases hstep
      exact noDuplicate_onScrolled hgate hs canScrollVertically
  | createFooter => cases hstep; exact iff_of_true hs trivial
  | bindFooter j =>
      rw [step] at hstep
      split at hstep
      · cases hstep
        rw [log_bindFooter, noDuplicate_footerBound]
        exact iff_of_true hs trivial
      · cases hstep
  | bindRow => cases hstep; exact iff_of_true hs trivial
  | tapFail j reply =>
      cases ha
      rw [step] at hstep
      split at hstep
      · cases hstep
      · next f hf =>
          split at hstep
          · cases hstep
            simp only [Allowed, hf, Option.some.injEq, exists_eq_left']
            split
            · next hclick => simp [onFailClick_none, noDuplicate_request, hs, hclick]
            · next hclick => simp [hs, hclick]
          · cases hstep
  | complete c =>
      cases hstep
      rw [log_complete, noDuplicate_completed]
      exact iff_of_true hs trivial

/-- The listener is called once at a time in the runs whose steps are all allowed, and in no others. -/
theorem no_duplicate_iff {as : List Action} (has : ∀ a ∈ as, a.Later) :
    Always step (fun s => NoDuplicate s.log) new as ↔ Each step Allowed new as :=
  always_iff_each (A := Action.Later) (I := Gate) (P := fun s => NoDuplicate s.log) (C := Allowed)
    (fun _ _ _ ha hgate hstep => hgate.step ha hstep)
    (fun _ _ _ ha hgate hs hstep => noDuplicate_step ha hgate hs hstep) has Gate.new
    (fun newer _ _ _ _ heq => by cases newer <;> cases heq)

theorem no_duplicate_iff_one_request :
    Always step (fun s => NoDuplicate s.log) new [.createFooter, .bindFooter 0, .onScrolled false none] ↔
      Each step Allowed new [.createFooter, .bindFooter 0, .onScrolled false none] :=
  no_duplicate_iff (by simp [Action.Later])

theorem rebound_footer_duplicates : ¬ Always step (fun s => NoDuplicate s.log) new
    [.createFooter, .bindFooter 0, .onScrolled false none, .bindFooter 0, .onScrolled false none] := by
  intro h
  have hlog := always_iff.mp h _ _ (List.prefix_refl _) rfl
  obtain ⟨c, hc, hcompletion⟩ := hlog [] (.onLoadmore false) [.footerBound] (.onLoadmore false)
    [.footerBound] rfl trivial trivial
  rw [List.mem_singleton.mp hc] at hcompletion
  exact hcompletion

end LRecyclerView

end MyDemo.Loadmore

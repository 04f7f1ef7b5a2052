import MyDemo.Loadmore.Listener
import MyDemo.Loadmore.Lemmas.Gate

/-!
# What a listener leaves behind
-/

namespace MyDemo.Loadmore

def lastCompletion : List Entry → Option Completion
  | [] => none
  | .completed c :: _ => some c
  | _ :: log => lastCompletion log

/-- No request is outstanding, and the list has not been told that there is no more. -/
def Ready (log : List Entry) : Prop := ¬ Outstanding log ∧ lastCompletion log ≠ some .setNomoreData

variable {log : List Entry}

@[simp] theorem not_ready_request {retry : Bool} : ¬ Ready (.onLoadmore retry :: log) :=
  fun h => h.1 outstanding_request

@[simp] theorem ready_completed {c : Completion} : Ready (.completed c :: log) ↔ c ≠ .setNomoreData := by
  simp [Ready, lastCompletion]

@[simp] theorem ready_footerBound : Ready (.footerBound :: log) ↔ Ready log := by
  simp [Ready, lastCompletion]

namespace LRecyclerView

variable {s : LRecyclerView}

/-! ## The calls of a listener -/

theorem log_foldl_complete (s : LRecyclerView) (calls : List Completion) :
    ∃ newer, (calls.foldl complete s).log = newer ++ s.log := by
  induction calls generalizing s with
  | nil => exact ⟨[], rfl⟩
  | cons c calls ih =>
      obtain ⟨newer, h⟩ := ih (s.complete c)
      exact ⟨newer ++ [.completed c], by rw [List.foldl_cons, h, log_complete, List.append_assoc]; rfl⟩

/-- Only the last call counts. -/
theorem callListener_cases (s : LRecyclerView) (retry : Bool) (calls : List Completion) :
    calls = [] ∧ s.callListener retry (some calls) = { s with log := .onLoadmore retry :: s.log } ∨
      ∃ (t : LRecyclerView) (c : Completion),
        calls.getLast? = some c ∧ s.callListener retry (some calls) = t.complete c := by
  rcases List.eq_nil_or_concat calls with rfl | ⟨earlier, c, rfl⟩
  · exact .inl ⟨rfl, rfl⟩
  · exact .inr ⟨_, c, by simp, by rw [callListener, List.concat_eq_append, List.foldl_concat]⟩

@[simp] theorem adapterFinish_complete {c : Completion} :
    (s.complete c).adapterFinish = decide (c = .setNomoreData) := by
  cases c <;> rfl

theorem loadmoreFinish_complete_eq {c : Completion} :
    (s.complete c).loadmoreFinish = decide (c = .setNomoreData) :=
  loadmoreFinish_complete.trans adapterFinish_complete

/-! ## The adapter knows when there is no more -/

/-- The adapter's flag is up only after `setNomoreData`. -/
def Informed (s : LRecyclerView) : Prop :=
  s.adapterFinish = true → lastCompletion s.log = some .setNomoreData

theorem Informed.new : Informed new := fun h => by cases h

theorem Informed.complete (s : LRecyclerView) (c : Completion) : Informed (s.complete c) := by
  intro h
  rw [adapterFinish_complete, decide_eq_true_eq] at h
  rw [log_complete, h]
  rfl

theorem Informed.callListener (h : Informed s) (retry : Bool) (listener : Option (List Completion)) :
    Informed (s.callListener retry listener) := by
  cases listener with
  | none => exact h
  | some calls =>
      rcases callListener_cases s retry calls with ⟨_, heq⟩ | ⟨t, c, _, heq⟩
      · rw [heq]; exact h
      · rw [heq]; exact Informed.complete t c

theorem Informed.onScrolledBy (h : Informed s) (canScrollVertically : Bool)
    (listener : Option (List Completion)) : Informed (s.onScrolledBy canScrollVertically listener) := by
  rw [LRecyclerView.onScrolledBy]
  split
  · exact h
  · split
    · exact h
    · exact h.callListener false listener

theorem Informed.bindFooter (h : Informed s) : Informed s.bindFooter := by
  intro hfinish
  rw [adapterFinish_bindFooter] at hfinish
  rw [log_bindFooter]
  exact h hfinish

theorem Informed.progress : Informed s.progress := fun h => by cases h

theorem Informed.handle {s' : LRecyclerView} {e : Event} (h : Informed s) (hs : s.handle e = some s') :
    Informed s' := by
  cases e with
  | onScrolled canScrollVertically listener => cases hs; exact h.onScrolledBy canScrollVertically listener
  | createFooter => cases hs; exact h
  | bindFooter j =>
      simp only [LRecyclerView.handle, step] at hs
      split at hs
      · cases hs; exact h.bindFooter
      · cases hs
  | bindRow => cases hs; exact h
  | tapFail j listener =>
      simp only [LRecyclerView.handle] at hs
      split at hs
      · cases hs
      · split at hs
        · cases hs
          split
          · exact Informed.progress.callListener true listener
          · exact h
        · cases hs
  | complete c => cases hs; exact Informed.complete s c

end LRecyclerView

end MyDemo.Loadmore

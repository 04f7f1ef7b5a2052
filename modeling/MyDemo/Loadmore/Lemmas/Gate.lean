import MyDemo.Loadmore.LRecyclerView
import MyDemo.Lib.Requests

/-!
# The gate in front of the listener

`loadmoreFinish` of the list is the gate; it is closed when a request comes from a scroll, and opened
again by whatever shows the progress view.
-/

namespace MyDemo.Loadmore

namespace Entry

def IsRequest : Entry → Prop
  | .onLoadmore _ => True
  | _ => False

def IsCompletion : Entry → Prop
  | .completed _ => True
  | _ => False

end Entry

def Outstanding (log : List Entry) : Prop := Requests.Outstanding Entry.IsRequest Entry.IsCompletion log

def NoDuplicate (log : List Entry) : Prop := Requests.OneAtATime Entry.IsRequest Entry.IsCompletion log

/-- There is an outstanding request that came from a tap, or with a footer row bound since. -/
def Reopened : List Entry → Prop
  | [] => False
  | .onLoadmore retry :: _ => retry = true
  | .completed _ :: _ => False
  | .footerBound :: log => Outstanding log

/-! ## Logs -/

variable {log : List Entry}

@[simp] theorem outstanding_request {retry : Bool} : Outstanding (.onLoadmore retry :: log) :=
  .inl trivial

@[simp] theorem not_outstanding_completed {c : Completion} : ¬ Outstanding (.completed c :: log) := by
  simp [Outstanding, Requests.Outstanding, Entry.IsRequest, Entry.IsCompletion]

@[simp] theorem outstanding_footerBound : Outstanding (.footerBound :: log) ↔ Outstanding log := by
  simp [Outstanding, Requests.Outstanding, Entry.IsRequest, Entry.IsCompletion]

theorem Reopened.outstanding (h : Reopened log) : Outstanding log := by
  cases log with
  | nil => cases h
  | cons e log =>
      cases e with
      | onLoadmore retry => exact outstanding_request
      | completed c => cases h
      | footerBound => exact outstanding_footerBound.mpr h

theorem noDuplicate_request {retry : Bool} :
    NoDuplicate (.onLoadmore retry :: log) ↔ NoDuplicate log ∧ ¬ Outstanding log := by
  simp [NoDuplicate, Outstanding, Requests.oneAtATime_cons, Entry.IsRequest]

theorem noDuplicate_completed {c : Completion} : NoDuplicate (.completed c :: log) ↔ NoDuplicate log := by
  simp [NoDuplicate, Requests.oneAtATime_cons, Entry.IsRequest]

theorem noDuplicate_footerBound : NoDuplicate (.footerBound :: log) ↔ NoDuplicate log := by
  simp [NoDuplicate, Requests.oneAtATime_cons, Entry.IsRequest]

/-! ## What the operations do to the gate -/

namespace LRecyclerView

variable {s s' : LRecyclerView}

@[simp] theorem log_bindFooter : s.bindFooter.log = .footerBound :: s.log := by
  rw [bindFooter]
  split <;> rfl

@[simp] theorem loadmoreFinish_bindFooter : s.bindFooter.loadmoreFinish = s.adapterFinish := by
  rw [bindFooter]
  split
  · next h => exact h.symm
  · next h => exact (Bool.eq_false_iff.mpr h).symm

@[simp] theorem adapterFinish_bindFooter : s.bindFooter.adapterFinish = s.adapterFinish := by
  rw [bindFooter]
  split
  · next h => exact h.symm
  · next h => exact (Bool.eq_false_iff.mpr h).symm

@[simp] theorem log_complete {c : Completion} : (s.complete c).log = .completed c :: s.log := by
  cases c <;> rfl

theorem loadmoreFinish_complete {c : Completion} :
    (s.complete c).loadmoreFinish = (s.complete c).adapterFinish := by
  cases c <;> rfl

theorem onFailClick_none : s.onFailClick none = { s.progress with log := .onLoadmore true :: s.log } := rfl

theorem onScrolled_none (canScrollVertically : Bool) : s.onScrolled canScrollVertically none =
    if canScrollVertically || s.loadmoreFinish then s
    else { s with loadmoreFinish := true, log := .onLoadmore false :: s.log } := by
  cases canScrollVertically with
  | true => rfl
  | false => rfl

/-! ## The invariant of the gate -/

/-- The gate is closed while a request is outstanding, until a tap or a footer row opens it again. -/
structure Gate (s : LRecyclerView) : Prop where
  adapter : s.adapterFinish = true → s.loadmoreFinish = true
  progress : Outstanding s.log → s.adapterFinish = false
  closed : Outstanding s.log → ¬ Reopened s.log → s.loadmoreFinish = true
  opened : Reopened s.log → s.loadmoreFinish = false

theorem Gate.new : Gate new where
  adapter h := by cases h
  progress h := by cases h
  closed h := by cases h
  opened h := by cases h

theorem Gate.congr (h : Gate s) (hview : s'.loadmoreFinish = s.loadmoreFinish)
    (hadapter : s'.adapterFinish = s.adapterFinish) (hlog : s'.log = s.log) : Gate s' where
  adapter := by rw [hview, hadapter]; exact h.adapter
  progress := by rw [hadapter, hlog]; exact h.progress
  closed := by rw [hview, hlog]; exact h.closed
  opened := by rw [hview, hlog]; exact h.opened

theorem Gate.complete (s : LRecyclerView) (c : Completion) : Gate (s.complete c) where
  adapter h := loadmoreFinish_complete.trans h
  progress h := by simp at h
  closed h := by simp at h
  opened h := by rw [log_complete] at h; cases h

theorem Gate.bindFooter (h : Gate s) : Gate s.bindFooter where
  adapter := by rw [loadmoreFinish_bindFooter, adapterFinish_bindFooter]; exact id
  progress hout := by
    rw [log_bindFooter, outstanding_footerBound] at hout
    rw [adapterFinish_bindFooter, h.progress hout]
  closed hout hre := by
    rw [log_bindFooter] at hout hre
    exact absurd (outstanding_footerBound.mp hout) hre
  opened hre := by
    rw [log_bindFooter] at hre
    rw [loadmoreFinish_bindFooter, h.progress hre]

theorem Gate.onFailClick (s : LRecyclerView) : Gate (s.onFailClick none) where
  adapter h := h
  progress _ := rfl
  closed _ hre := absurd rfl hre
  opened _ := rfl

theorem Gate.onScrolled (h : Gate s) (canScrollVertically : Bool) :
    Gate (s.onScrolled canScrollVertically none) := by
  rw [onScrolled_none]
  split
  · exact h
  · next hopen =>
      obtain ⟨_, hview⟩ := Bool.or_eq_false_iff.mp (Bool.eq_false_iff.mpr hopen)
      refine ⟨fun _ => rfl, fun _ => ?_, fun _ _ => rfl, fun hre => by cases hre⟩
      exact Bool.eq_false_iff.mpr (fun hadapter => by rw [h.adapter hadapter] at hview; cases hview)

/-- No listener completes a request from inside of `onLoadmore`. -/
def Action.Later : Action → Prop
  | .onScrolled _ reply | .tapFail _ reply => reply = none
  | _ => True

theorem Gate.step {a : Action} (ha : a.Later) (h : Gate s) (hs : s.step a = some s') : Gate s' := by
  cases a with
  | onScrolled canScrollVertically reply =>
      cases ha; cases hs
      exact h.onScrolled canScrollVertically
  | createFooter => cases hs; exact h.congr rfl rfl rfl
  | bindFooter j =>
      rw [LRecyclerView.step] at hs
      split at hs
      · cases hs; exact h.bindFooter
      · cases hs
  | bindRow => cases hs; exact h.congr rfl rfl rfl
  | tapFail j reply =>
      cases ha
      rw [LRecyclerView.step] at hs
      split at hs
      · cases hs
      · split at hs
        · cases hs
          split
          · exact Gate.onFailClick s
          · exact h
        · cases hs
  | complete c => cases hs; exact Gate.complete s c

end LRecyclerView

end MyDemo.Loadmore

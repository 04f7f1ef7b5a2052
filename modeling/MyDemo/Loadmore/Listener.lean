import MyDemo.Loadmore.LRecyclerView

/-!
# A list with any listener

The listener may be null, and it may make any number of calls into the list before `onLoadmore` returns.
-/

namespace MyDemo.Loadmore

namespace LRecyclerView

/-- `onLoadMoreListener?.onLoadmore()`, where `none` is null and `some calls` is a listener that makes
these calls before it returns. -/
def callListener (s : LRecyclerView) (retry : Bool) : Option (List Completion) → LRecyclerView
  | none => s
  | some calls => calls.foldl complete { s with log := .onLoadmore retry :: s.log }

def onScrolledBy (s : LRecyclerView) (canScrollVertically : Bool) (listener : Option (List Completion)) :
    LRecyclerView :=
  if canScrollVertically then s
  else if s.loadmoreFinish then s
  else { s.callListener false listener with loadmoreFinish := true }

def onFailClickBy (s : LRecyclerView) (listener : Option (List Completion)) : LRecyclerView :=
  s.progress.callListener true listener

inductive Event where
  | onScrolled (canScrollVertically : Bool) (listener : Option (List Completion))
  | createFooter
  | bindFooter (j : ℕ)
  | bindRow
  | tapFail (j : ℕ) (listener : Option (List Completion))
  | complete (c : Completion)
  deriving DecidableEq, Repr

def handle (s : LRecyclerView) : Event → Option LRecyclerView
  | .onScrolled canScrollVertically listener => some (s.onScrolledBy canScrollVertically listener)
  | .createFooter => s.step .createFooter
  | .bindFooter j => s.step (.bindFooter j)
  | .bindRow => s.step .bindRow
  | .tapFail j listener =>
      match s.footers[j]? with
      | none => none
      | some f =>
          if f.footView = .visible ∧ f.failView = .visible then
            some (if f.failClick then s.onFailClickBy listener else s)
          else none
  | .complete c => s.step (.complete c)

/-! ## A listener that is set and completes at most once -/

def Action.event : Action → Event
  | .onScrolled canScrollVertically reply => .onScrolled canScrollVertically (some reply.toList)
  | .createFooter => .createFooter
  | .bindFooter j => .bindFooter j
  | .bindRow => .bindRow
  | .tapFail j reply => .tapFail j (some reply.toList)
  | .complete c => .complete c

theorem callListener_toList (s : LRecyclerView) (retry : Bool) (reply : Option Completion) :
    s.callListener retry (some reply.toList) = s.onLoadmore retry reply := by
  cases reply with
  | none => rfl
  | some c => rfl

theorem handle_event (s : LRecyclerView) (a : Action) : s.handle a.event = s.step a := by
  cases a with
  | onScrolled canScrollVertically reply =>
      simp only [Action.event, handle, step, onScrolledBy, onScrolled, callListener_toList]
  | createFooter => rfl
  | bindFooter j => rfl
  | bindRow => rfl
  | tapFail j reply =>
      have hclick : s.onFailClickBy (some reply.toList) = s.onFailClick reply :=
        callListener_toList s.progress true reply
      rw [Action.event, handle, hclick]
      rfl
  | complete c => rfl

end LRecyclerView

end MyDemo.Loadmore

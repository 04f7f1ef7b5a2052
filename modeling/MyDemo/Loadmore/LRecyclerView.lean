import Mathlib.Data.Nat.Notation

/-!
# A list that loads more at its end

`LRecyclerView.kt` and `LoadmoreAdapter.kt`: the list, the adapter around the adapter of the app, and the
footer rows. The adapter is set, and so is the listener, which may complete a request from inside of
`onLoadmore`.
-/

namespace MyDemo.Loadmore

inductive Visibility where
  | visible
  | invisible
  | gone
  deriving DecidableEq, Repr

/-- A footer row. `failClick` tells whether its fail view has got its click listener. -/
structure ItemFooterBinding where
  footView : Visibility
  progressView : Visibility
  nomoreView : Visibility
  failView : Visibility
  failClick : Bool
  deriving DecidableEq, Repr

def ItemFooterBinding.inflate : ItemFooterBinding := ⟨.visible, .visible, .visible, .visible, false⟩

inductive Completion where
  | loadmoreSuccess
  | loadmoreFail
  | setNomoreData
  | reset
  deriving DecidableEq, Repr

/-- What is logged: the calls between the list and its listener, and the bindings of a footer row. -/
inductive Entry where
  | onLoadmore (retry : Bool)
  | completed (c : Completion)
  | footerBound
  deriving DecidableEq, Repr

/-- `adapterFinish` is the adapter's own `loadmoreFinish`; the last of `footers` is its
`itemFooterBinding`; the log has the newest entry first. -/
structure LRecyclerView where
  loadmoreFinish : Bool
  adapterFinish : Bool
  footers : List ItemFooterBinding
  log : List Entry
  deriving DecidableEq, Repr

namespace LRecyclerView

def new : LRecyclerView := ⟨false, false, [], []⟩

/-! ## LoadmoreAdapter -/

def withFooter (s : LRecyclerView) (f : ItemFooterBinding → ItemFooterBinding) : LRecyclerView :=
  { s with footers := s.footers.modify (s.footers.length - 1) f }

def setFooter (s : LRecyclerView) (finish : Bool) (progressView nomoreView failView : Visibility) :
    LRecyclerView :=
  { s with loadmoreFinish := finish, adapterFinish := finish }.withFooter (fun f =>
    { f with footView := .visible, progressView, nomoreView, failView })

def progress (s : LRecyclerView) : LRecyclerView := s.setFooter false .visible .invisible .invisible

def nomore (s : LRecyclerView) : LRecyclerView := s.setFooter true .invisible .visible .invisible

def success (s : LRecyclerView) : LRecyclerView := s.setFooter false .invisible .invisible .invisible

def fail (s : LRecyclerView) : LRecyclerView := s.setFooter false .invisible .invisible .visible

def adapterReset (s : LRecyclerView) : LRecyclerView :=
  { s with loadmoreFinish := false, adapterFinish := false }.withFooter (fun f =>
    { f with footView := .gone })

def setOnClickListener (s : LRecyclerView) : LRecyclerView :=
  s.withFooter (fun f => { f with failClick := true })

def createFooter (s : LRecyclerView) : LRecyclerView :=
  { s with footers := s.footers ++ [.inflate] }

/-- `onBindViewHolder` for a footer: it is the last one created that changes, whichever is bound. -/
def bindFooter (s : LRecyclerView) : LRecyclerView :=
  let t := (if s.adapterFinish then s.nomore else s.progress).setOnClickListener
  { t with log := .footerBound :: t.log }

/-! ## LRecyclerView -/

def complete (s : LRecyclerView) (c : Completion) : LRecyclerView :=
  let t := match c with
    | .loadmoreSuccess => { s with loadmoreFinish := false }.success
    | .loadmoreFail => { s with loadmoreFinish := false }.fail
    | .setNomoreData => { s with loadmoreFinish := true }.nomore
    | .reset => { s with loadmoreFinish := false }.adapterReset
  { t with log := .completed c :: t.log }

/-- The listener is called, and completes the request before it returns if `reply` says so. -/
def onLoadmore (s : LRecyclerView) (retry : Bool) (reply : Option Completion) : LRecyclerView :=
  let t := { s with log := .onLoadmore retry :: s.log }
  reply.elim t t.complete

def onScrolled (s : LRecyclerView) (canScrollVertically : Bool) (reply : Option Completion) :
    LRecyclerView :=
  if canScrollVertically then s
  else if s.loadmoreFinish then s
  else { s.onLoadmore false reply with loadmoreFinish := true }

def onFailClick (s : LRecyclerView) (reply : Option Completion) : LRecyclerView :=
  s.progress.onLoadmore true reply

/-! ## What can happen -/

/-- `bindFooter j` binds the `j`-th footer created and `bindRow` a row of another type; `tapFail j` is a
tap on the fail view of the `j`-th footer. -/
inductive Action where
  | onScrolled (canScrollVertically : Bool) (reply : Option Completion)
  | createFooter
  | bindFooter (j : ℕ)
  | bindRow
  | tapFail (j : ℕ) (reply : Option Completion)
  | complete (c : Completion)
  deriving DecidableEq, Repr

def step (s : LRecyclerView) : Action → Option LRecyclerView
  | .onScrolled canScrollVertically reply => some (s.onScrolled canScrollVertically reply)
  | .createFooter => some s.createFooter
  | .bindFooter j => if j < s.footers.length then some s.bindFooter else none
  | .bindRow => some s.setOnClickListener
  | .tapFail j reply =>
      match s.footers[j]? with
      | none => none
      | some f =>
          if f.footView = .visible ∧ f.failView = .visible then
            some (if f.failClick then s.onFailClick reply else s)
          else none
  | .complete c => some (s.complete c)

end LRecyclerView

end MyDemo.Loadmore

import MyDemo.Loadmore.Lemmas.Listener

/-!
# The footer row on the screen

It is the footer that was bound last, which need not be the one created last. All of its views can be
tapped, and only the fail view may have a click listener.
-/

namespace MyDemo.Loadmore

inductive FooterView where
  | progressView
  | nomoreView
  | failView
  deriving DecidableEq, Repr

def ItemFooterBinding.visibility (f : ItemFooterBinding) : FooterView → Visibility
  | .progressView => f.progressView
  | .nomoreView => f.nomoreView
  | .failView => f.failView

structure FooterRow where
  list : LRecyclerView
  bound : Option ℕ
  deriving DecidableEq, Repr

namespace FooterRow

def new : FooterRow := ⟨.new, none⟩

def setNomoreData (s : FooterRow) : FooterRow := { s with list := s.list.complete .setNomoreData }

inductive Event where
  | onScrolled (canScrollVertically : Bool) (listener : Option (List Completion))
  | createFooter
  | bindFooter (j : ℕ)
  | bindRow
  | notifyDataSetChanged
  | tap (view : FooterView) (listener : Option (List Completion))
  | complete (c : Completion)
  deriving DecidableEq, Repr

def withList (s : FooterRow) (e : LRecyclerView.Event) : Option FooterRow :=
  (s.list.handle e).map (fun list => { s with list })

/-- `notifyDataSetChanged` runs no code of the adapter: the creations and bindings that it brings about
are events of their own. -/
def handle (s : FooterRow) : Event → Option FooterRow
  | .onScrolled canScrollVertically listener => s.withList (.onScrolled canScrollVertically listener)
  | .createFooter => s.withList .createFooter
  | .bindFooter j => (s.withList (.bindFooter j)).map (fun t => { t with bound := some j })
  | .bindRow => s.withList .bindRow
  | .notifyDataSetChanged => some s
  | .tap view listener => do
      let j ← s.bound
      let f ← s.list.footers[j]?
      if f.footView = .visible ∧ f.visibility view = .visible then
        match view with
        | .failView => s.withList (.tapFail j listener)
        | _ => return s
      else none
  | .complete c => s.withList (.complete c)

end FooterRow

end MyDemo.Loadmore

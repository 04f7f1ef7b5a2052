import MyDemo.Java
import MyDemo.Loadmore.LRecyclerView
import MyDemo.Sort.IntArray

/-!
# The adapter around the adapter of the app

`LoadmoreAdapter.kt` as a `RecyclerView` uses it: it asks for the type of a row, has a holder of that type
created, and has it bound.
-/

namespace MyDemo.Loadmore

open MyDemo.Sort (wrap)

def VIEWTYPE_HEADER : ℤ := 0

def VIEWTYPE_FOOTER : ℤ := 1

def VIEWTYPE_NORMAL : ℤ := 2

/-- The adapter of the app. -/
structure Adapter where
  itemCount : ℕ
  itemCount_lt : itemCount < 2 ^ 31
  getItemViewType : ℤ → ℤ

/-- A holder of the app's adapter is told by the type it was created for. -/
inductive ViewHolder (View : Type) where
  | header (headerView : View)
  | footer
  | item (viewType : ℤ)

/-- What the app's adapter is asked to do. -/
inductive Call (View : Type) where
  | onCreateViewHolder (viewType : ℤ)
  | onBindViewHolder (holder : ViewHolder View) (position : ℤ)

/-- The list, the rows that have been made, and the calls that the app's adapter has had for them. -/
structure Walk (View : Type) where
  list : LRecyclerView
  rows : List (ViewHolder View)
  calls : List (Call View)

variable {View : Type}

/-! ## The adapter of the app by itself -/

namespace Adapter

def onCreateViewHolder (w : Walk View) (viewType : ℤ) : ViewHolder View × Walk View :=
  (.item viewType, { w with calls := w.calls ++ [.onCreateViewHolder viewType] })

def onBindViewHolder (w : Walk View) (holder : ViewHolder View) (position : ℤ) : Walk View :=
  { w with calls := w.calls ++ [.onBindViewHolder holder position] }

def row (m : Adapter) (w : Walk View) (position : ℤ) : Walk View :=
  let (holder, w) := onCreateViewHolder w (m.getItemViewType position)
  let w := onBindViewHolder w holder position
  { w with rows := w.rows ++ [holder] }

def walk (m : Adapter) (w : Walk View) : Walk View :=
  (List.range m.itemCount).foldl (fun w (position : ℕ) => m.row w position) w

end Adapter

/-! ## The adapter around it -/

structure LoadmoreAdapter (View : Type) where
  mAdapter : Adapter
  hasHeaderView : Bool
  headerView : Option View

namespace LoadmoreAdapter

def new (mAdapter : Adapter) : LoadmoreAdapter View := ⟨mAdapter, false, none⟩

def addHeaderView (a : LoadmoreAdapter View) (headerView : View) : LoadmoreAdapter View :=
  { a with headerView := some headerView, hasHeaderView := true }

def getItemCount (a : LoadmoreAdapter View) : ℤ :=
  if a.hasHeaderView then wrap (a.mAdapter.itemCount + 2) else wrap (a.mAdapter.itemCount + 1)

def getItemViewType (a : LoadmoreAdapter View) (position : ℤ) : ℤ :=
  if a.hasHeaderView then
    if position = 0 then VIEWTYPE_HEADER
    else if position = wrap (a.mAdapter.itemCount + 1) then VIEWTYPE_FOOTER
    else VIEWTYPE_NORMAL
  else
    if position < a.mAdapter.itemCount then VIEWTYPE_NORMAL else VIEWTYPE_FOOTER

def onCreateViewHolder (a : LoadmoreAdapter View) (w : Walk View) (viewType : ℤ) :
    Except Exn (ViewHolder View × Walk View) :=
  if a.hasHeaderView then
    if viewType = VIEWTYPE_FOOTER then .ok (.footer, { w with list := w.list.createFooter })
    else if viewType = VIEWTYPE_HEADER then
      match a.headerView with
      | none => .error .nullPointer
      | some headerView => .ok (.header headerView, w)
    else .ok (Adapter.onCreateViewHolder w viewType)
  else
    if viewType = VIEWTYPE_FOOTER then .ok (.footer, { w with list := w.list.createFooter })
    else .ok (Adapter.onCreateViewHolder w viewType)

def onBindViewHolder (a : LoadmoreAdapter View) (w : Walk View) (holder : ViewHolder View) (position : ℤ) :
    Walk View :=
  match holder with
  | .footer => { w with list := w.list.bindFooter }
  | .header _ =>
      let w := if a.hasHeaderView then w else Adapter.onBindViewHolder w holder position
      { w with list := w.list.setOnClickListener }
  | .item _ =>
      let w := Adapter.onBindViewHolder w holder (if a.hasHeaderView then position - 1 else position)
      { w with list := w.list.setOnClickListener }

def row (a : LoadmoreAdapter View) (w : Walk View) (position : ℤ) : Except Exn (Walk View) := do
  let (holder, w) ← a.onCreateViewHolder w (a.getItemViewType position)
  let w := a.onBindViewHolder w holder position
  return { w with rows := w.rows ++ [holder] }

def walk (a : LoadmoreAdapter View) (w : Walk View) : Except Exn (Walk View) :=
  (List.range a.getItemCount.toNat).foldlM (fun w (position : ℕ) => a.row w position) w

end LoadmoreAdapter

end MyDemo.Loadmore

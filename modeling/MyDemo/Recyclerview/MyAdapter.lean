import MyDemo.Java
import Mathlib.Logic.Function.Basic

/-!
# The list with editable rows

`MyAdapter.kt`, with the rows that the list has laid out. The objects of class `Data` are told by numbers,
since `datas` may hold one of them twice; `str` is what they contain.
-/

namespace MyDemo.Recyclerview

abbrev DataId := ℕ

/-- A bound row. Its position is that of its binding; `entry` is where its entry is now, if it still is. -/
structure Row where
  entry : Option ℕ
  text : JString
  isFocusable : Bool
  deriving DecidableEq

namespace Row

/-- Where an entry is after the one at `position` has been removed. -/
def afterRemoval (position i : ℕ) : Option ℕ :=
  if i = position then none else if position < i then some (i - 1) else some i

def remove (position : ℕ) (row : Row) : Row := { row with entry := row.entry.bind (afterRemoval position) }

end Row

/-- `changed` after `notifyDataSetChanged`, until the list is laid out again; `focused` is the position of the
row whose edit field has the focus; `crashed` once an exception has not been caught. -/
structure MyAdapter where
  str : DataId → JString
  datas : List DataId
  strList : List JString
  checkPos : ℤ
  isModify : Bool
  rows : List Row
  changed : Bool
  focused : Option ℕ
  crashed : Bool

namespace MyAdapter

def new (str : DataId → JString) (datas : List DataId) : MyAdapter where
  str := str
  datas := datas
  strList := datas.foldl (fun strList data => strList ++ [str data]) []
  checkPos := -1
  isModify := false
  rows := []
  changed := true
  focused := none
  crashed := false

def notifyDataSetChanged (s : MyAdapter) : MyAdapter := { s with changed := true }

def setModify (s : MyAdapter) (value : Bool) : MyAdapter := { s with isModify := value }.notifyDataSetChanged

def addData (s : MyAdapter) (data : DataId) : MyAdapter :=
  ({ s with datas := s.datas ++ [data], strList := s.strList ++ [[]] }.setModify true).notifyDataSetChanged

/-- `removeData` of a valid position. -/
def removeData (s : MyAdapter) (position : ℕ) : MyAdapter :=
  { s with
    datas := s.datas.eraseIdx position
    strList := s.strList.eraseIdx position
    rows := s.rows.map (Row.remove position) }.notifyDataSetChanged

def afterTextChanged (s : MyAdapter) (text : JString) : Except Exn MyAdapter := do
  let strList ← JArray.set s.strList s.checkPos text
  let data ← JArray.get s.datas s.checkPos
  return { s with strList, str := Function.update s.str data text }

def onBindViewHolder (s : MyAdapter) (p1 : ℕ) : Except Exn Row := do
  return ⟨some p1, ← JArray.get s.strList p1, s.isModify⟩

/-- `onFocusChange` of the row at `p1`. -/
def onFocusChange (s : MyAdapter) (p1 : ℕ) : MyAdapter := { s with checkPos := p1, focused := some p1 }

/-! ## What can happen -/

/-- The rows are laid out again some time after a change; this takes the focus from all of them. -/
inductive Event where
  | addData (data : DataId)
  | removeData (position : ℕ)
  | setModify (value : Bool)
  | layout
  | focus (p1 : ℕ)
  | edit (text : JString)
  deriving DecidableEq

/-- What the user does to the edit field at `p1`. -/
def setText (s : MyAdapter) (p1 : ℕ) (text : JString) : MyAdapter :=
  { s with rows := s.rows.modify p1 (fun row => { row with text }) }

def orCrash (s : MyAdapter) : Except Exn MyAdapter → MyAdapter
  | .ok t => t
  | .error _ => { s with crashed := true }

def layout (s : MyAdapter) : Except Exn MyAdapter := do
  let rows ← (List.range s.datas.length).mapM s.onBindViewHolder
  return { s with rows, changed := false, focused := none }

def step (s : MyAdapter) (e : Event) : Option MyAdapter :=
  if s.crashed then none
  else match e with
    | .addData data => some (s.addData data)
    | .removeData position => if position < s.datas.length then some (s.removeData position) else none
    | .setModify value => some (s.setModify value)
    | .layout => if s.changed then some (s.orCrash s.layout) else none
    | .focus p1 =>
        match s.rows[p1]? with
        | some row => if row.isFocusable then some (s.onFocusChange p1) else none
        | none => none
    | .edit text => s.focused.map (fun p1 => s.orCrash ((s.setText p1 text).afterTextChanged text))

/-! ## What the lists say -/

/-- The strings of `datas`. -/
def strs (s : MyAdapter) : List JString := s.datas.map s.str

/-- Both lists have the same strings, and nothing has gone wrong. -/
def Mirrors (s : MyAdapter) : Prop :=
  s.crashed = false ∧ s.strList.length = s.datas.length ∧ ∀ i : ℕ, s.strList[i]? = (s.datas[i]?).map s.str

/-- The entry of the row that has the focus. -/
def focusedEntry (s : MyAdapter) : Option ℕ := (s.focused.bind (fun p1 => s.rows[p1]?)).bind Row.entry

/-- An edit changes the entry of the focused row only, in both lists. -/
def EditsFocused (s : MyAdapter) (e : Event) : Prop :=
  ∀ text, e = .edit text → ∀ t, s.step e = some t → ∀ i : ℕ, s.focusedEntry ≠ some i →
    t.strList[i]? = s.strList[i]? ∧ t.strs[i]? = s.strs[i]?

end MyAdapter

end MyDemo.Recyclerview

import MyDemo.Files.FileUtils

/-!
# The rows of the directory browser

`DirItemAdaper.kt`. The click listener of a row reads the record anew when it is called.
-/

namespace MyDemo.Files

open JArray

inductive Icon where
  | icon_dir
  | icon_file
  deriving DecidableEq, Repr

/-- A call of the adapter's `OnClickListener`. -/
inductive Callback where
  | onBack (path : JString)
  | onClick (path : JString)
  | onFileClick (name path : JString)
  deriving DecidableEq, Repr

/-- What binding a row sets. -/
structure ItemDir where
  img : Icon
  name : JString
  listener : CarDirectory → Except Exn Callback

namespace DirItemAdaper

def getItemCount (data : CarDirectory) : ℤ :=
  if data.root then data.directorys.length + data.files.length
  else data.directorys.length + data.files.length + 1

/-- `Log.d`, which is given a string. -/
def log (_ : JString) : Except Exn Unit := .ok ()

def onBindViewHolder (data : CarDirectory) (p1 : ℤ) : Except Exn ItemDir := do
  if data.root then
    if p1 ≤ data.directorys.length - 1 then
      return {
        img := .icon_dir
        name := (← get data.directorys p1).name
        listener := fun data => do
          log (← get data.directorys p1).name
          return .onClick (← get data.directorys p1).path }
    else
      return {
        img := .icon_file
        name := (← get data.files (p1 - data.directorys.length)).name
        listener := fun data => do
          return .onFileClick (← get data.files (p1 - data.directorys.length)).name
            (← get data.files (p1 - 1 - data.directorys.length)).path }
  else
    if p1 = 0 then
      return {
        img := .icon_dir
        name := jstring ".."
        listener := fun data => return .onBack data.dirPath }
    else if p1 > 0 ∧ p1 - 1 ≤ data.directorys.length - 1 then
      return {
        img := .icon_dir
        name := (← get data.directorys (p1 - 1)).name
        listener := fun data => do
          log (← get data.directorys (p1 - 1)).dirName
          return .onClick (← get data.directorys (p1 - 1)).path }
    else
      return {
        img := .icon_file
        name := (← get data.files (p1 - 1 - data.directorys.length)).name
        listener := fun data => do
          return .onFileClick (← get data.files (p1 - 1 - data.directorys.length)).name
            (← get data.files (p1 - 1 - data.directorys.length)).path }

/-! ## What a row stands for -/

inductive Entry where
  | up (path : JString)
  | directory (directory : CarDirectory)
  | file (file : CarFile)

namespace Entry

def icon : Entry → Icon
  | up _ | directory _ => .icon_dir
  | file _ => .icon_file

def label : Entry → JString
  | up _ => jstring ".."
  | directory d => d.name
  | file f => f.name

def callback : Entry → Callback
  | up path => .onBack path
  | directory d => .onClick d.path
  | file f => .onFileClick f.name f.path

end Entry

/-- All that a directory has to offer, in the order of the list. -/
def entries (data : CarDirectory) : List Entry :=
  (if data.root then [] else [.up data.dirPath]) ++ data.directorys.map .directory ++ data.files.map .file

/-- The row at `p1` shows the entry, and a click hands it on. -/
def Row (data : CarDirectory) (p1 : ℤ) (entry : Entry) : Prop :=
  ∃ item, onBindViewHolder data p1 = .ok item ∧ item.img = entry.icon ∧ item.name = entry.label ∧
    item.listener data = .ok entry.callback

end DirItemAdaper

end MyDemo.Files

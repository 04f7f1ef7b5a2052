import MyDemo.Files.DirItemAdaper
import MyDemo.Lib.Transition

/-!
# Walks through the directory browser

The listener that `setUI` of `DirActivity.kt` gives to the adapter. A walk is a list of the rows that are
clicked, each after the scan for the one before has come to its end.
-/

namespace MyDemo.Files

/-- What `getFileByDir` has found, for the list to show. -/
abbrev Shown := Except Exn (Option CarDirectory)

namespace DirActivity

open DirItemAdaper

/-- A file opens the player, and the list stays behind. -/
def listener (tree : FileTree) : Callback → Option Shown
  | .onBack path => some (getFileByDir tree path)
  | .onClick path => some (getFileByDir tree path)
  | .onFileClick _ _ => none

/-- A click on the row at `p1`. -/
def click (tree : FileTree) (shown : Shown) (p1 : ℕ) : Option Shown :=
  match shown with
  | .ok (some data) =>
      match onBindViewHolder data p1 >>= fun item => item.listener data with
      | .ok callback => listener tree callback
      | .error _ => none
  | _ => none

/-- The walk begins where `onCreate` does. -/
def walk (tree : FileTree) (rows : List ℕ) : Option Shown :=
  Transition.run (click tree) (getFileByDir tree (jstring "/")) rows

end DirActivity

/-! ## Positions in the tree -/

namespace FileTree

def subdirectories (tree : FileTree) (f : File) : List File :=
  match tree.lookup f with
  | some (.dir true entries) => (entries.map (fun e => f ++ [e.1])).filter tree.isDirectory
  | _ => []

/-- Where a walk may go on from `f`: up first, where there is something above. -/
def neighbours (tree : FileTree) (f : File) : List File := f.parentFile.toList ++ tree.subdirectories f

def visit (tree : FileTree) (f : File) (p1 : ℕ) : Option File := (tree.neighbours f)[p1]?

end FileTree

/-- The record is about `f` and about the directory above. -/
structure CarDirectory.Describes (data : CarDirectory) (f : File) : Prop where
  root_iff : data.root = true ↔ f = []
  name_eq : data.name = f.name
  path_eq : data.path = f.absolutePath
  parent : ∀ parent, f.parentFile = some parent → data.dirPath = parent.absolutePath ∧ data.dirName = parent.name

/-- Two records of one directory, but for its contents. -/
structure CarDirectory.SameHead (data data' : CarDirectory) : Prop where
  root_eq : data.root = data'.root
  dirPath_eq : data.dirPath = data'.dirPath
  dirName_eq : data.dirName = data'.dirName
  name_eq : data.name = data'.name
  path_eq : data.path = data'.path

end MyDemo.Files

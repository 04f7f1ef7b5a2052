import MyDemo.Files.Lemmas.Lookup
import MyDemo.Lib.TaskPool

/-!
# FileUtils

The scans of `FileUtils.kt`: one directory for the browser, and all files below a directory, by recursion,
by a queue and by a pool of threads. The listener that `scanFiles` also calls is set by
`FileActivity` before the scan and only logs.
-/

namespace MyDemo.Files

open TaskPool

structure CarFile where
  dirName : JString
  name : JString
  path : JString

structure CarDirectory where
  root : Bool
  dirPath : JString
  dirName : JString
  name : JString
  path : JString
  directorys : List CarDirectory
  files : List CarFile
  status : JString

def FILE_EMPTY : JString := jstring "empty"

/-! ## One directory -/

def scanDir (tree : FileTree) (carDir : CarDirectory) : CarDirectory :=
  match tree.listFiles carDir.path with
  | none => carDir
  | some list =>
      let dirs := list.filter tree.isDirectory
      let files := list.filter (fun f => !tree.isDirectory f && tree.isFile f)
      { carDir with
        directorys := dirs.map (fun subDirFile =>
          { root := false, dirPath := carDir.path, dirName := carDir.name, name := subDirFile.name,
            path := subDirFile.absolutePath, directorys := [], files := [], status := FILE_EMPTY })
        files := files.map (fun subDirFile =>
          { dirName := subDirFile.parentFile.elim [] File.name, name := subDirFile.name,
            path := subDirFile.absolutePath }) }

/-- `none` is null: the path does not exist. -/
def getFileByDir (tree : FileTree) (path : JString) : Except Exn (Option CarDirectory) :=
  match File.ofPath path with
  | none => .ok none
  | some rootDir =>
      if !tree.fileExists path then .ok none
      else do
        let (dirName, dirPath, isRoot) ←
          if path = [slash] then .ok ([], [], true)
          else match rootDir.parentFile with
            | none => .error .nullPointer
            | some parent => .ok (parent.name, parent.absolutePath, false)
        let carDir : CarDirectory :=
          { root := isRoot, dirPath := dirPath, dirName := dirName, name := rootDir.name,
            path := rootDir.absolutePath, directorys := [], files := [], status := FILE_EMPTY }
        return some (scanDir tree carDir)

/-! ## All files, by recursion -/

def scanFile (tree : FileTree) (path : JString) (arrayList : List JString) : List JString :=
  match _ : tree.listFiles path with
  | none => arrayList
  | some list => list.attach.foldl (fun arrayList ⟨subDirFile, _⟩ =>
      if tree.isDirectory subDirFile then scanFile tree subDirFile.absolutePath arrayList
      else arrayList ++ [subDirFile.name]) arrayList
  termination_by sizeOf (tree.node? path)
  decreasing_by exact FileTree.sizeOf_listFiles (by assumption) (by assumption)

/-! ## All files and directories, by a queue -/

structure Traversal where
  list : List File
  folderNum : ℕ
  fileNum : ℕ
  out : List JString

namespace Traversal

def println (t : Traversal) (line : JString) : Traversal := { t with out := t.out ++ [line] }

/-- The body of both `for` loops. -/
def visit (tree : FileTree) (t : Traversal) (file2 : File) : Traversal :=
  if tree.isDirectory file2 then
    { t.println (jstring "文件夹:" ++ file2.absolutePath) with
      list := t.list ++ [file2], folderNum := t.folderNum + 1 }
  else { t.println (jstring "文件:" ++ file2.absolutePath) with fileNum := t.fileNum + 1 }

theorem list_foldl_visit (tree : FileTree) (files : List File) (t : Traversal) :
    (files.foldl (visit tree) t).list = t.list ++ files.filter tree.isDirectory := by
  induction files generalizing t with
  | nil => simp
  | cons f files ih =>
      rw [List.foldl_cons, ih, List.filter_cons, visit]
      split
      · simp
      · rfl

/-- `while (!list.isEmpty())` -/
def loop (tree : FileTree) (t : Traversal) : Except Exn Traversal :=
  match _ : t.list with
  | [] => .ok t
  | temp_file :: list =>
      match _ : tree.listFiles temp_file.absolutePath with
      | none => .error .nullPointer
      | some files => loop tree (files.foldl (visit tree) { t with list := list })
  termination_by (t.list.map (fun f => sizeOf (tree.node? f.absolutePath))).sum
  decreasing_by
    have hlist : t.list = temp_file :: list := by assumption
    have hlt := FileTree.sum_sizeOf_listFiles (by assumption) (List.filter_sublist (p := tree.isDirectory))
    rw [list_foldl_visit, hlist, List.map_append, List.sum_append, List.map_cons, List.sum_cons]
    dsimp only
    omega

end Traversal

def traverseFolder1 (tree : FileTree) (path : JString) : Except Exn Traversal := do
  let t : Traversal := { list := [], folderNum := 0, fileNum := 0, out := [] }
  let t ←
    if tree.fileExists path then
      match tree.listFiles path with
      | none => .error .nullPointer
      | some files => (files.foldl (Traversal.visit tree) t).loop tree
    else .ok (t.println (jstring "文件不存在!"))
  return t.println (jstring s!"文件夹共有:{t.folderNum},文件共有:{t.fileNum}")

/-! ## All files, by a pool of threads -/

/-- The effects of `run()`, in order. What a file emits is its name; the file is kept to tell files of
the same name apart. -/
def DirRunnable.run (tree : FileTree) (path : JString) : List (Effect JString File) :=
  match tree.listFiles path with
  | none => []
  | some list => list.map (fun subDirFile =>
      if tree.isDirectory subDirFile && subDirFile.name ≠ jstring "sys" then
        .execute subDirFile.absolutePath
      else .emit subDirFile)

def scanFiles (tree : FileTree) (path : JString) : TaskPool.State JString File :=
  if !tree.fileExists path then .start [] else .start [path]

def scanStep (tree : FileTree) (poolSize : ℕ) :
    TaskPool.State JString File → TaskPool.Action → Option (TaskPool.State JString File) :=
  TaskPool.step poolSize (DirRunnable.run tree)

end MyDemo.Files

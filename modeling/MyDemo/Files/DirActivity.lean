import MyDemo.Files.FileUtils

/-!
# The directory browser

`DirActivity.kt`: each call of `scanDirectory` starts a thread of its own, and the main thread takes the
result whenever it comes. A thread looks at the tree as it is when it runs.
-/

namespace MyDemo.Files

/-- `emitted` and `thrown` wait for the main thread, which calls `onNext` (`shown`) or `onError`
(`reported`) of the observer. -/
inductive ScanStatus where
  | running
  | emitted (carDirectory : CarDirectory)
  | thrown (e : Exn)
  | shown
  | reported

structure Scan where
  path : JString
  status : ScanStatus

/-- `data` is the record behind the adapter of the list, once there is one; `onNexts` tells which scans
have called `onNext`, in order. -/
structure DirActivity where
  progressBar : Bool
  data : Option CarDirectory
  scans : List Scan
  onNexts : List ℕ

namespace DirActivity

def scanDirectory (s : DirActivity) (path : JString) : DirActivity :=
  { s with progressBar := true, scans := s.scans ++ [⟨path, .running⟩] }

def onCreate : DirActivity :=
  scanDirectory { progressBar := true, data := none, scans := [], onNexts := [] } (jstring "/")

/-- What becomes of `emitter.onNext(FileUtils.getFileByDir(path)!!)`. -/
def subscribe (tree : FileTree) (path : JString) : ScanStatus :=
  match getFileByDir tree path with
  | .ok (some carDirectory) => .emitted carDirectory
  | .ok none => .thrown .nullPointer
  | .error e => .thrown e

def setUI (s : DirActivity) (carDirectory : CarDirectory) : DirActivity :=
  { s with progressBar := false, data := some carDirectory }

def onNext (s : DirActivity) (k : ℕ) (carDirectory : CarDirectory) : DirActivity :=
  { s.setUI carDirectory with onNexts := s.onNexts ++ [k] }

def setStatus (s : DirActivity) (k : ℕ) (scan : Scan) (status : ScanStatus) : DirActivity :=
  { s with scans := s.scans.set k { scan with status := status } }

/-- A tap on a listed subdirectory or on the row `..`, or a step of the `k`-th scan. -/
inductive Action where
  | onClick (i : ℕ)
  | onBack
  | subscribe (k : ℕ) (tree : FileTree)
  | deliver (k : ℕ)

def step (s : DirActivity) : Action → Option DirActivity
  | .onClick i => do
      let data ← s.data
      let directory ← data.directorys[i]?
      return s.scanDirectory directory.path
  | .onBack => do
      let data ← s.data
      if data.root then none else return s.scanDirectory data.dirPath
  | .subscribe k tree => do
      let scan ← s.scans[k]?
      match scan.status with
      | .running => return s.setStatus k scan (subscribe tree scan.path)
      | _ => none
  | .deliver k => do
      let scan ← s.scans[k]?
      match scan.status with
      | .emitted carDirectory => return (s.setStatus k scan .shown).onNext k carDirectory
      | .thrown _ => return s.setStatus k scan .reported
      | _ => none

end DirActivity

end MyDemo.Files

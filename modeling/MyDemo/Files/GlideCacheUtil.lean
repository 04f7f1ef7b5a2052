import MyDemo.Files.Lemmas.Lookup

/-!
# GlideCacheUtil

How `GlideCacheUtil.java` deletes a cache. The tree is the one before the deletion, and a disk knows which of
its files are gone; `fails` tells which of them cannot be deleted.
-/

namespace MyDemo.Files

variable {tree : FileTree}

/-- A directory is gone only if its entries are. -/
structure Disk (tree : FileTree) where
  deleted : List File
  emptied : ∀ f ∈ deleted, ∀ name, (tree.lookup (f ++ [name])).isSome → f ++ [name] ∈ deleted

namespace Disk

def whole (tree : FileTree) : Disk tree := ⟨[], by simp⟩

def contains (disk : Disk tree) (f : File) : Bool := (tree.lookup f).isSome && f ∉ disk.deleted

def isDirectory (disk : Disk tree) (f : File) : Bool := tree.isDirectory f && f ∉ disk.deleted

def entryFiles (f : File) (entries : List (JString × Node)) : List File := entries.map (fun e => f ++ [e.1])

/-- Null for what is not a directory or cannot be read. -/
def listFiles (disk : Disk tree) (f : File) : Option (List File) :=
  match tree.lookup f with
  | some (.dir true entries) =>
      if f ∈ disk.deleted then none else some ((entryFiles f entries).filter (· ∉ disk.deleted))
  | _ => none

theorem listFiles_eq_some {disk : Disk tree} {f : File} {files : List File} (h : disk.listFiles f = some files) :
    ∃ entries, tree.lookup f = some (.dir true entries) ∧
      files = (entryFiles f entries).filter (· ∉ disk.deleted) := by
  rw [listFiles] at h
  split at h
  · next entries hnode =>
      split at h
      · cases h
      · exact ⟨entries, hnode, (Option.some.inj h).symm⟩
  · cases h

theorem sizeOf_listFiles {disk : Disk tree} {path : JString} {f : File} {files : List File}
    (hpath : File.ofPath path = some f) (h : disk.listFiles f = some files) {g : File} (hg : g ∈ files) :
    sizeOf (tree.node? g.absolutePath) < sizeOf (tree.node? path) := by
  obtain ⟨entries, hnode, rfl⟩ := listFiles_eq_some h
  exact FileTree.sizeOf_listFiles (FileTree.listFiles_eq_some.mpr ⟨f, entries, hpath, hnode, rfl⟩)
    (List.mem_of_mem_filter hg)

/-- There is nothing below it, be it readable or not. -/
def isEmpty (disk : Disk tree) (f : File) : Bool :=
  match tree.lookup f with
  | some (.dir _ entries) => (entryFiles f entries).all (· ∈ disk.deleted)
  | _ => true

theorem mem_deleted_of_isEmpty {disk : Disk tree} {f : File} (h : disk.isEmpty f) {name : JString}
    (hname : (tree.lookup (f ++ [name])).isSome) : f ++ [name] ∈ disk.deleted := by
  obtain ⟨c, hc⟩ := Option.isSome_iff_exists.mp hname
  rw [FileTree.lookup_append] at hc
  obtain ⟨node, hnode, hchild⟩ := Option.bind_eq_some_iff.mp hc
  obtain ⟨readable, entries, rfl, hmem⟩ := Node.child_eq_some hchild
  rw [isEmpty, hnode] at h
  simpa using List.all_eq_true.mp h _ (List.mem_map.mpr ⟨_, hmem, rfl⟩)

/-- It does nothing where it fails, and where the file is not there or not empty. -/
def delete (fails : File → Bool) (disk : Disk tree) (f : File) : Disk tree :=
  if h : disk.contains f ∧ disk.isEmpty f ∧ ¬ fails f then
    { deleted := f :: disk.deleted
      emptied := by
        intro g hg name hname
        rcases List.mem_cons.mp hg with rfl | hg
        · exact List.mem_cons_of_mem _ (mem_deleted_of_isEmpty h.2.1 hname)
        · exact List.mem_cons_of_mem _ (disk.emptied g hg name hname) }
  else disk

end Disk

namespace GlideCacheUtil

/-- `if (deleteThisPath)`. -/
def deleteFile (fails : File → Bool) (file : File) : EStateM Exn (Disk tree) Unit := do
  let disk ← get
  if !disk.isDirectory file then set (disk.delete fails file)
  else
    match disk.listFiles file with
    | none => throw .nullPointer
    | some files => if files.length = 0 then set (disk.delete fails file)

/-- `File(filePath)` of a path that is not empty is some file. A pass that throws leaves the disk as it is
then. -/
def deleteFolderFile (fails : File → Bool) (filePath : JString) (deleteThisPath : Bool) :
    EStateM Exn (Disk tree) Unit := do
  match _ : File.ofPath filePath with
  | none => pure ()
  | some file =>
      let deleteFiles : EStateM Exn (Disk tree) Unit := do
        let disk ← get
        if disk.isDirectory file then
          match _ : disk.listFiles file with
          | none => throw .nullPointer
          | some files => files.attach.forM (fun ⟨file1, _⟩ => deleteFolderFile fails file1.absolutePath true)
      try
        deleteFiles
        if deleteThisPath then deleteFile fails file
      catch _ => pure ()
  termination_by sizeOf (tree.node? filePath)
  decreasing_by exact Disk.sizeOf_listFiles (by assumption) (by assumption) (by assumption)

end GlideCacheUtil

end MyDemo.Files

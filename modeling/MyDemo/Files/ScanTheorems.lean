import MyDemo.Files.Lemmas.Scan

/-!
# The two scans agree
-/

namespace MyDemo.Files

open Transition TaskPool

variable {tree : FileTree}

/-! ## What a task finds in the end -/

/-- `sys` is the name of a directory that the pool takes for a file. -/
def NoSys (tree : FileTree) : Prop := ∀ f, tree.isDirectory f = true → f.name ≠ jstring "sys"

theorem totalOf_run (hsys : NoSys tree) (path : JString) :
    (filesBelow tree path : Multiset File) =
      totalOf (fun p => (filesBelow tree p : Multiset File)) (DirRunnable.run tree path) := by
  cases h : tree.listFiles path with
  | none => simp [DirRunnable.run, filesBelow_none, h]
  | some list =>
      rw [filesBelow_some h]
      simp only [DirRunnable.run, h]
      clear h
      induction list with
      | nil => rfl
      | cons f list ih =>
          rw [List.flatMap_cons, ← Multiset.coe_add, ih, List.map_cons, totalOf_cons, filesAt]
          congr 1
          cases hdir : tree.isDirectory f with
          | false => rfl
          | true => simp [hsys f hdir, Effect.total]

theorem listFiles_of_not_exists {path : JString} (h : (!tree.fileExists path) = true) :
    tree.listFiles path = none := by
  rw [Option.eq_none_iff_forall_ne_some]
  intro list hlist
  obtain ⟨p, entries, hp, hnode, _⟩ := FileTree.listFiles_eq_some.mp hlist
  simp [FileTree.fileExists, FileTree.node?, hp, hnode] at h

/-! ## Runs of the pool -/

/-- However many threads there are and however they take turns: once the pool is idle, the names emitted
are those that `scanFile` collects, and each file below the directory has been emitted once. -/
theorem scanFiles_agrees (hsys : NoSys tree) (path : JString) (poolSize : ℕ)
    {actions : List TaskPool.Action} {s : TaskPool.State JString File}
    (hrun : run (scanStep tree poolSize) (scanFiles tree path) actions = some s) (hidle : s.Idle) :
    ((s.output.map File.name : List JString) : Multiset JString) = scanFile tree path [] ∧
      s.output.Nodup ∧ ∀ f, f ∈ s.output ↔ Listed tree path f ∧ tree.isDirectory f = false := by
  have hperm : s.output.Perm (filesBelow tree path) := by
    rw [← Multiset.coe_eq_coe]
    rw [scanFiles] at hrun
    split at hrun
    · next hexists =>
        rw [output_of_idle (totalOf_run hsys) hrun hidle, filesBelow_none (listFiles_of_not_exists hexists)]
        rfl
    · rw [output_of_idle (totalOf_run hsys) hrun hidle]
      simp
  refine ⟨?_, hperm.nodup_iff.mpr (nodup_filesBelow path), fun f => ?_⟩
  · rw [scanFile_eq, List.nil_append]
    exact Multiset.coe_eq_coe.mpr (hperm.map File.name)
  · rw [hperm.mem_iff, mem_filesBelow]

def twoFiles : FileTree where
  root := .dir true [(jstring "a", .file), (jstring "d", .dir true [(jstring "b", .file)])]
  valid := by
    have hd : (Node.dir true [(jstring "b", .file)]).Valid := by
      refine .dir (by decide) (by decide) (fun e he => ?_)
      rw [List.mem_singleton.mp he]
      exact .file
    refine .dir (by decide) (by decide) (fun e he => ?_)
    rcases List.mem_pair.mp he with rfl | rfl
    · exact .file
    · exact hd

theorem noSys_twoFiles : NoSys twoFiles := by
  intro f hf hname
  rcases f with _ | ⟨n, _ | ⟨m, f⟩⟩
  · exact absurd hname (by decide)
  · rw [show n = jstring "sys" from hname] at hf
    exact absurd hf (by decide)
  · obtain ⟨_, _, hlookup⟩ := FileTree.isDirectory_iff.mp hf
    simp only [FileTree.lookup, List.foldlM_cons] at hlookup
    obtain ⟨c, hc, htail⟩ := Option.bind_eq_some_iff.mp hlookup
    obtain ⟨c', hc', hrest⟩ := Option.bind_eq_some_iff.mp htail
    obtain ⟨_, _, rfl, hmem'⟩ := Node.child_eq_some hc'
    obtain ⟨_, _, hroot, hmem⟩ := Node.child_eq_some hc
    obtain ⟨-, rfl⟩ := Node.dir.inj hroot
    have hfile : c' = .file := by
      rcases List.mem_pair.mp hmem with h | h
      · cases h
      · cases h; cases List.mem_singleton.mp hmem'; rfl
    cases f with
    | nil => rw [hfile] at hrest; cases hrest
    | cons k f => rw [hfile] at hrest; cases hrest

theorem scanFiles_agrees_two_threads : ∃ s, run (scanStep twoFiles 2) (scanFiles twoFiles [slash])
      [.take 0, .proceed 0, .proceed 0, .take 0, .proceed 1, .proceed 0, .proceed 0] = some s ∧
    ((s.output.map File.name : List JString) : Multiset JString) = scanFile twoFiles [slash] [] ∧
      s.output.Nodup ∧ ∀ f, f ∈ s.output ↔ Listed twoFiles [slash] f ∧ twoFiles.isDirectory f = false := by
  have hrun : run (scanStep twoFiles 2) (scanFiles twoFiles [slash])
      [.take 0, .proceed 0, .proceed 0, .take 0, .proceed 1, .proceed 0, .proceed 0] =
        some ⟨[], [], [[jstring "a"], [jstring "d", jstring "b"]]⟩ := by decide
  exact ⟨_, hrun, scanFiles_agrees noSys_twoFiles [slash] 2 hrun ⟨rfl, rfl⟩⟩

end MyDemo.Files

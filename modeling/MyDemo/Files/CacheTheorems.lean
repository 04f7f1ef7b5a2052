import MyDemo.Files.Lemmas.Disk

/-!
# What is left of a cache

Each call cleans what is at and below its path, whatever becomes of the calls for the files beside it.
-/

namespace MyDemo.Files

variable {tree : FileTree} {fails : File → Bool} {path : JString} {p f : File} {disk disk' : Disk tree}
  {files : List File}

/-! ## One call -/

structure Cleans (fails : File → Bool) (disk disk' : Disk tree) (p : File) : Prop where
  outside : ∀ f, ¬ p <+: f → disk'.contains f = disk.contains f
  survivors : Survivors fails disk' p

theorem Cleans.leave (h : Survivors fails disk p) : Cleans fails disk disk p := ⟨fun _ _ => rfl, h⟩

theorem Untouched.of_outside {c : File} (h : Untouched disk c) (hp : Cleans fails disk disk' p)
    (hdisjoint : ∀ f, p <+: f → ¬ c <+: f) : Untouched disk' c :=
  h.congr (fun f hf => hp.outside f (fun hpf => hdisjoint f hpf hf))

/-- What is no directory, or has been one with nothing left. -/
theorem cleans_delete (hsurvivors : Survivors fails (disk.delete fails p) p) :
    Cleans fails disk (disk.delete fails p) p := by
  refine ⟨?_, hsurvivors⟩
  intro f hf
  exact Disk.contains_delete_of_ne fun hfp => hf (hfp ▸ List.prefix_rfl)

namespace GlideCacheUtil

/-! ## The loop and the deletion, one by one -/

/-- The loop of `deleteFolderFile`. -/
def deleteFiles (fails : File → Bool) (file : File) : EStateM Exn (Disk tree) Unit := do
  let disk ← get
  if disk.isDirectory file then
    match disk.listFiles file with
    | none => throw .nullPointer
    | some files => forM files (fun file1 => deleteFolderFile fails file1.absolutePath true)

theorem forM_attach {α : Type} {m : Type → Type} [Monad m] [LawfulMonad m] (l : List α) (g : α → m PUnit) :
    forM l.attach (fun x => g x.1) = forM l g := by
  rw [← List.forM_map, List.attach_map_subtype_val]

theorem deleteFolderFile_eq (h : File.ofPath path = some f) (b : Bool) :
    (deleteFolderFile fails path b : EStateM Exn (Disk tree) Unit) =
      tryCatch (do deleteFiles fails f; if b then deleteFile fails f) (fun _ => pure ()) := by
  rw [deleteFolderFile]
  split
  · next hnone => rw [h] at hnone; cases hnone
  · next file hfile =>
    cases h.symm.trans hfile
    dsimp only
    congr 2
    simp only [deleteFiles]
    congr 1
    funext disk
    split
    · split
      · next hfiles => rw [hfiles]
      · next files hfiles =>
        rw [hfiles]
        exact forM_attach (m := EStateM Exn (Disk tree)) files
          (fun file1 => deleteFolderFile fails file1.absolutePath true)
    · rfl

theorem deleteFolderFile_eq_pure (h : File.ofPath path = none) (b : Bool) :
    (deleteFolderFile fails path b : EStateM Exn (Disk tree) Unit) = pure () := by
  rw [deleteFolderFile]
  split
  · rfl
  · next hsome => rw [h] at hsome; cases hsome

theorem run_of_ok {disk₁ disk₂ : Disk tree} (h : File.ofPath path = some f)
    (hfiles : deleteFiles fails f disk = .ok () disk₁)
    (hfile : deleteFile fails f disk₁ = .ok () disk₂) : deleteFolderFile fails path true disk = .ok () disk₂ := by
  rw [deleteFolderFile_eq h]
  simp only [bind, EStateM.bind, tryCatch, tryCatchThe, MonadExceptOf.tryCatch, EStateM.tryCatch, if_true, hfiles,
    hfile]

theorem run_of_error {e : Exn} (h : File.ofPath path = some f) (hfiles : deleteFiles fails f disk = .error e disk') :
    deleteFolderFile fails path true disk = .ok () disk' := by
  rw [deleteFolderFile_eq h]
  simp only [bind, EStateM.bind, tryCatch, tryCatchThe, MonadExceptOf.tryCatch, EStateM.tryCatch, hfiles]
  rfl

theorem deleteFiles_of_file (hdir : disk.isDirectory f = false) : deleteFiles fails f disk = .ok () disk := by
  show (if disk.isDirectory f = true then _ else pure () : EStateM Exn (Disk tree) Unit) disk = _
  rw [hdir]
  rfl

theorem deleteFiles_of_unreadable (hdir : disk.isDirectory f = true) (hfiles : disk.listFiles f = none) :
    deleteFiles fails f disk = .error .nullPointer disk := by
  show (if disk.isDirectory f = true then _ else pure () : EStateM Exn (Disk tree) Unit) disk = _
  rw [if_pos hdir, hfiles]
  rfl

theorem deleteFiles_of_files (hdir : disk.isDirectory f = true) (hfiles : disk.listFiles f = some files) :
    deleteFiles fails f disk = forM (m := EStateM Exn (Disk tree)) files
      (fun file1 => deleteFolderFile fails file1.absolutePath true) disk := by
  show (if disk.isDirectory f = true then _ else pure () : EStateM Exn (Disk tree) Unit) disk = _
  rw [if_pos hdir, hfiles]

theorem deleteFile_of_file (hdir : disk.isDirectory f = false) :
    deleteFile fails f disk = .ok () (disk.delete fails f) := by
  show (if (!disk.isDirectory f) = true then set (disk.delete fails f) else _ :
    EStateM Exn (Disk tree) Unit) disk = _
  rw [hdir]
  rfl

/-- A directory that is not empty would not be deleted either. -/
theorem deleteFile_of_files (hdir : disk.isDirectory f = true) (hfiles : disk.listFiles f = some files)
    (hempty : files ≠ [] → ¬ disk.isEmpty f) : deleteFile fails f disk = .ok () (disk.delete fails f) := by
  show (if (!disk.isDirectory f) = true then _ else match disk.listFiles f with
    | none => throw .nullPointer
    | some files => if files.length = 0 then set (disk.delete fails f) else pure () :
    EStateM Exn (Disk tree) Unit) disk = _
  rw [hdir, hfiles]
  dsimp only
  split
  · rfl
  · split
    · rfl
    · next h =>
        have hleft : disk.delete fails f = disk :=
          dif_neg (fun hdelete => hempty (fun hnil => h (by rw [hnil]; rfl)) hdelete.2.1)
        rw [hleft]
        rfl

/-- By induction on the files, of which no two have anything below them in common. -/
theorem deleteFiles_cleans (hcall : ∀ c ∈ files, ∀ disk : Disk tree, Untouched disk c →
      ∃ disk', deleteFolderFile fails c.absolutePath true disk = .ok () disk' ∧ Cleans fails disk disk' c)
    (hdisjoint : files.Pairwise (fun c c' => ∀ f, c <+: f → ¬ c' <+: f)) (huntouched : ∀ c ∈ files, Untouched disk c) :
    ∃ disk', forM (m := EStateM Exn (Disk tree)) files
        (fun file1 => deleteFolderFile fails file1.absolutePath true) disk = .ok () disk' ∧
      (∀ f, (∀ c ∈ files, ¬ c <+: f) → disk'.contains f = disk.contains f) ∧
      ∀ c ∈ files, Survivors fails disk' c := by
  induction files generalizing disk with
  | nil => exact ⟨disk, rfl, fun _ _ => rfl, by simp⟩
  | cons c files ih =>
      obtain ⟨hc, hfiles⟩ := List.pairwise_cons.mp hdisjoint
      obtain ⟨disk₁, hrun, hcleans⟩ := hcall c List.mem_cons_self disk (huntouched c List.mem_cons_self)
      obtain ⟨disk₂, hruns, houtside, hsurvivors⟩ := ih
        (fun c' hc' => hcall c' (List.mem_cons_of_mem _ hc')) hfiles
        (fun c' hc' => (huntouched c' (List.mem_cons_of_mem _ hc')).of_outside hcleans (hc c' hc'))
      refine ⟨disk₂, ?_, ?_, ?_⟩
      · rw [List.forM_cons]
        simp only [bind, EStateM.bind, hrun, hruns]
      · intro f hf
        rw [houtside f (fun c' hc' => hf c' (List.mem_cons_of_mem _ hc')),
          hcleans.outside f (hf c List.mem_cons_self)]
      · intro c' hc'
        rcases List.mem_cons.mp hc' with rfl | hc'
        · exact hcleans.survivors.congr (fun f hf => houtside f (fun c hc' => hc c hc' f hf))
        · exact hsurvivors c' hc'

theorem pairwise_entryFiles {readable : Bool} {entries : List (JString × Node)}
    (hnode : tree.lookup p = some (.dir readable entries)) :
    (Disk.entryFiles p entries).Pairwise (fun c c' => ∀ f, c <+: f → ¬ c' <+: f) := by
  have distinct : (entries.map Prod.fst).Nodup := by
    cases (FileTree.lookup_valid hnode).1 with
    | dir distinct _ _ => exact distinct
  refine List.pairwise_map.mpr ((List.pairwise_map.mp distinct).imp ?_)
  intro e e' hne f hf hf'
  have hsame : p ++ [e.1] = p ++ [e'.1] :=
    (List.prefix_of_prefix_length_le hf hf' (by simp)).eq_of_length (by simp)
  exact hne (List.singleton_inj.mp (List.append_cancel_left hsame))

/-- A readable directory is deleted if nothing is left in it. -/
theorem cleans_dir {entries : List (JString × Node)} (hpath : File.ofPath path = some p)
    (hnode : tree.lookup p = some (.dir true entries)) (h : Untouched disk p)
    (hcall : ∀ c ∈ Disk.entryFiles p entries, ∀ disk : Disk tree, Untouched disk c →
      ∃ disk', deleteFolderFile fails c.absolutePath true disk = .ok () disk' ∧ Cleans fails disk disk' c) :
    ∃ disk', deleteFolderFile fails path true disk = .ok () disk' ∧ Cleans fails disk disk' p := by
  have hdir : tree.isDirectory p = true := FileTree.isDirectory_iff.mpr ⟨true, entries, hnode⟩
  have hbelow : ∀ c ∈ Disk.entryFiles p entries, p <+: c ∧ ¬ c <+: p := fun _ => Disk.below_of_mem_entries
  have hcontains : disk.contains p := by rw [h p List.prefix_rfl, hnode]; rfl
  have hfiles := Disk.listFiles_of_contains hnode hcontains
  rw [if_pos rfl, h.filter_entries hnode] at hfiles
  obtain ⟨disk₁, hloop, houtside, hsurvivors⟩ := deleteFiles_cleans hcall (pairwise_entryFiles hnode)
    (fun c hc => h.below (hbelow c hc).1)
  have hcontains₁ : disk₁.contains p := by rwa [houtside p (fun c hc => (hbelow c hc).2)]
  have hfiles₁ := Disk.listFiles_of_contains hnode hcontains₁
  rw [if_pos rfl] at hfiles₁
  refine ⟨disk₁.delete fails p, run_of_ok hpath
    ((deleteFiles_of_files ((Disk.isDirectory_of_contains hcontains).trans hdir) hfiles).trans hloop)
    (deleteFile_of_files ((Disk.isDirectory_of_contains hcontains₁).trans hdir) hfiles₁
      (Disk.not_isEmpty_of_left hnode)), ?_, ?_⟩
  · intro f hf
    have hne : f ≠ p := fun hfp => hf (hfp ▸ List.prefix_rfl)
    rw [Disk.contains_delete_of_ne hne, houtside f (fun c hc hcf => hf ((hbelow c hc).1.trans hcf))]
  · have hsame : ∀ c ∈ Disk.entryFiles p entries, ∀ f, c <+: f →
        (disk₁.delete fails p).contains f = disk₁.contains f := by
      intro c hc f hf
      exact Disk.contains_delete_of_ne fun hfp => (hbelow c hc).2 (hfp ▸ hf)
    refine .of_entries hnode (fun c hc => (hsurvivors c hc).congr (hsame c hc)) ?_
    have hleft : (∃ c ∈ Disk.entryFiles p entries, (disk₁.delete fails p).contains c) ↔
        ∃ c ∈ Disk.entryFiles p entries, disk₁.contains c :=
      exists_congr (fun c => and_congr_right (fun hc => by rw [hsame c hc c List.prefix_rfl]))
    rw [hleft, Disk.contains_delete, and_iff_right hcontains₁, and_iff_right rfl, Disk.isEmpty_iff hnode, not_and_or,
      not_not, not_not, or_comm]

/-- By recursion on the size of what is there. -/
theorem deleteFolderFile_cleans {path : JString} {p : File} (hpath : File.ofPath path = some p) (disk : Disk tree)
    (h : Untouched disk p) :
    ∃ disk', deleteFolderFile fails path true disk = .ok () disk' ∧ Cleans fails disk disk' p := by
  rcases Bool.eq_false_or_eq_true (tree.isDirectory p) with hdir | hdir
  · obtain ⟨readable, entries, hnode⟩ := FileTree.isDirectory_iff.mp hdir
    cases readable with
    | false =>
        have hcontains : disk.contains p := by rw [h p List.prefix_rfl, hnode]; rfl
        refine ⟨disk, run_of_error hpath (deleteFiles_of_unreadable
          ((Disk.isDirectory_of_contains hcontains).trans hdir) (Disk.listFiles_of_contains hnode hcontains)),
        .leave ?_⟩
        intro f hf hsome
        exact iff_of_true ((h f hf).trans hsome) (.inl ⟨p, List.prefix_rfl, hf, entries, hnode⟩)
    | true =>
        refine cleans_dir hpath hnode h (fun c hc => ?_)
        have hlist := FileTree.listFiles_eq_some.mpr ⟨p, entries, hpath, hnode, rfl⟩
        exact deleteFolderFile_cleans (FileTree.mem_listFiles hlist hc).1
  · have hdisk : disk.isDirectory p = false := by rw [Disk.isDirectory, hdir, Bool.false_and]
    exact ⟨disk.delete fails p, run_of_ok hpath (deleteFiles_of_file hdisk) (deleteFile_of_file hdisk),
      cleans_delete (.of_file hdir h)⟩
  termination_by sizeOf (tree.node? path)
  decreasing_by exact FileTree.sizeOf_listFiles (by assumption) (by assumption)

/-- Whatever can be deleted is deleted: no exception comes out, nothing outside of the path changes, and at
and below it a file survives exactly where an unreadable directory is or is above, where its own deletion
fails, or where something below it survives. -/
theorem deleteFolderFile_removes (tree : FileTree) (fails : File → Bool) (path : JString) :
    ∃ disk, deleteFolderFile fails path true (Disk.whole tree) = .ok () disk ∧
      (∀ f, (∀ p, File.ofPath path = some p → ¬ p <+: f) → disk.contains f = (tree.lookup f).isSome) ∧
      ∀ p, File.ofPath path = some p → ∀ f, p <+: f → (tree.lookup f).isSome →
        (disk.contains f ↔ Blocked tree p f ∨ fails f ∨ ∃ g, f <+: g ∧ g ≠ f ∧ disk.contains g) := by
  have hwhole : ∀ f, (Disk.whole tree).contains f = (tree.lookup f).isSome := by
    intro f
    simp [Disk.contains, Disk.whole]
  cases hpath : File.ofPath path with
  | none =>
      refine ⟨Disk.whole tree, ?_, fun f _ => hwhole f, by simp⟩
      rw [deleteFolderFile_eq_pure hpath]
      rfl
  | some p =>
      have hcleans : ∃ disk, deleteFolderFile fails path true (Disk.whole tree) = .ok () disk ∧
          Cleans fails (Disk.whole tree) disk p :=
        deleteFolderFile_cleans hpath (Disk.whole tree) (fun f _ => hwhole f)
      obtain ⟨disk, hrun, houtside, hsurvivors⟩ := hcleans
      refine ⟨disk, hrun, fun f hf => (houtside f (hf p rfl)).trans (hwhole f), ?_⟩
      rintro _ ⟨⟩
      exact hsurvivors

end GlideCacheUtil

end MyDemo.Files

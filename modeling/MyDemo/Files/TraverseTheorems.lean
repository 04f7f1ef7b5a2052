import MyDemo.Files.ScanTheorems
import Mathlib.Data.Set.Card

/-!
# The traversal by a queue and the one by recursion
-/

namespace MyDemo.Files

variable {tree : FileTree} {path : JString}

/-! ## What can be read -/

/-- The directory can be read, and so can each directory that is reached through it. -/
def Readable (tree : FileTree) (path : JString) : Prop :=
  (∃ entries, tree.node? path = some (.dir true entries)) ∧
    ∀ d, Listed tree path d → tree.isDirectory d = true → ∃ entries, tree.lookup d = some (.dir true entries)

theorem exists_listFiles :
    (∃ list, tree.listFiles path = some list) ↔ ∃ entries, tree.node? path = some (.dir true entries) := by
  constructor
  · rintro ⟨list, h⟩
    obtain ⟨f, entries, hf, hnode, _⟩ := FileTree.listFiles_eq_some.mp h
    exact ⟨entries, by rw [FileTree.node?, hf, Option.bind_some, hnode]⟩
  · rintro ⟨entries, h⟩
    obtain ⟨f, hf, hnode⟩ := Option.bind_eq_some_iff.mp h
    exact ⟨_, FileTree.listFiles_eq_some.mpr ⟨f, entries, hf, hnode, rfl⟩⟩

theorem readable_iff : Readable tree path ↔ ∃ list, tree.listFiles path = some list ∧
    ∀ d ∈ list, tree.isDirectory d = true → Readable tree d.absolutePath := by
  constructor
  · rintro ⟨hroot, hbelow⟩
    obtain ⟨list, h⟩ := exists_listFiles.mpr hroot
    refine ⟨list, h, fun d hd hdir => ⟨?_, fun f hf => hbelow f (.further h hd hf)⟩⟩
    rw [FileTree.node?_absolutePath h hd]
    exact hbelow d (.here h hd) hdir
  · rintro ⟨list, h, hlist⟩
    refine ⟨exists_listFiles.mp ⟨list, h⟩, fun f hf hdir => ?_⟩
    cases hf with
    | here h' hf =>
        obtain rfl := Option.some.inj (h.symm.trans h')
        rw [← FileTree.node?_absolutePath h hf]
        exact (hlist f hf hdir).1
    | @further _ _ d _ h' hd hf =>
        obtain rfl := Option.some.inj (h.symm.trans h')
        cases hd' : tree.isDirectory d with
        | true => exact (hlist d hd hd').2 f hf hdir
        | false => exact absurd hf (not_listed_of_none (listFiles_of_not_directory h hd hd') f)

/-! ## One directory after the other -/

theorem countP_entriesBelow {list : List File} (h : tree.listFiles path = some list) (p : File → Bool) :
    (entriesBelow tree path).countP p = list.countP p +
      ((list.filter tree.isDirectory).map (fun d => (entriesBelow tree d.absolutePath).countP p)).sum := by
  have hnone : ∀ f ∈ list, tree.isDirectory f = false → entriesBelow tree f.absolutePath = [] :=
    fun f hf hdir => entriesBelow_none (listFiles_of_not_directory h hf hdir)
  rw [entriesBelow_some h]
  clear h
  induction list with
  | nil => rfl
  | cons f list ih =>
      have hrest := ih (fun g hg => hnone g (List.mem_cons_of_mem _ hg))
      rw [List.flatMap_cons, List.countP_append, hrest, List.countP_cons, List.countP_cons, List.filter_cons]
      cases hdir : tree.isDirectory f with
      | true =>
          simp only [if_true, List.map_cons, List.sum_cons]
          omega
      | false =>
          rw [hnone f List.mem_cons_self hdir, List.countP_nil, if_neg Bool.false_ne_true]
          omega

namespace Traversal

variable {t : Traversal}

theorem folderNum_foldl_visit (files : List File) :
    (files.foldl (visit tree) t).folderNum = t.folderNum + files.countP tree.isDirectory := by
  induction files generalizing t with
  | nil => rfl
  | cons f files ih =>
      rw [List.foldl_cons, ih, List.countP_cons, visit]
      split
      · dsimp only
        omega
      · rfl

theorem fileNum_foldl_visit (files : List File) :
    (files.foldl (visit tree) t).fileNum = t.fileNum + files.countP (fun f => !tree.isDirectory f) := by
  induction files generalizing t with
  | nil => rfl
  | cons f files ih =>
      rw [List.foldl_cons, ih, List.countP_cons, visit]
      split
      · next h => simp [h, println]
      · next h =>
          simp only [h, Bool.not_false, if_true]
          omega

theorem loop_nil (h : t.list = []) : t.loop tree = .ok t := by
  rw [loop]
  split
  · rfl
  · next h' => rw [h] at h'; cases h'

theorem loop_cons {temp_file : File} {list : List File} (h : t.list = temp_file :: list) :
    t.loop tree = match tree.listFiles temp_file.absolutePath with
      | none => .error .nullPointer
      | some files => (files.foldl (visit tree) { t with list := list }).loop tree := by
  rw [loop]
  split
  · next h' => rw [h] at h'; cases h'
  · next h' =>
      rw [h] at h'
      cases h'
      split
      · next hfiles => rw [hfiles]
      · next hfiles => rw [hfiles]

/-- The loop as a whole, by what is left in the queue when a turn of it begins. -/
theorem loop_rec (tree : FileTree) {M : Traversal → Prop} (done : ∀ t, t.list = [] → M t)
    (turn : ∀ t temp_file list, t.list = temp_file :: list →
      (∀ files, tree.listFiles temp_file.absolutePath = some files →
        M (files.foldl (visit tree) { t with list := list })) → M t) (t : Traversal) : M t := by
  induction t using loop.induct tree with
  | case1 t h => exact done t h
  | case2 t temp_file list h hnone =>
      exact turn t temp_file list h (fun files hfiles => by rw [hnone] at hfiles; cases hfiles)
  | case3 t temp_file list h files hfiles ih =>
      refine turn t temp_file list h (fun files' hfiles' => ?_)
      obtain rfl := Option.some.inj (hfiles.symm.trans hfiles')
      exact ih

/-- What the queue still has to give, of the entries that `p` selects. -/
def due (tree : FileTree) (p : File → Bool) (t : Traversal) : ℕ :=
  (t.list.map (fun d => (entriesBelow tree d.absolutePath).countP p)).sum

theorem due_turn {temp_file : File} {list files : List File} (hlist : t.list = temp_file :: list)
    (hfiles : tree.listFiles temp_file.absolutePath = some files) (p : File → Bool) :
    files.countP p + due tree p (files.foldl (visit tree) { t with list := list }) = due tree p t := by
  rw [due, due, hlist, list_foldl_visit, List.map_append, List.sum_append, List.map_cons, List.sum_cons,
    countP_entriesBelow hfiles]
  dsimp only
  omega

theorem loop_of_readable (h : ∀ d ∈ t.list, Readable tree d.absolutePath) :
    ∃ t', t.loop tree = .ok t' ∧ t'.folderNum = t.folderNum + due tree tree.isDirectory t ∧
      t'.fileNum = t.fileNum + due tree (fun f => !tree.isDirectory f) t := by
  induction t using loop_rec tree with
  | done t hnil => exact ⟨t, loop_nil hnil, by simp [due, hnil], by simp [due, hnil]⟩
  | turn t temp_file list hlist ih =>
      obtain ⟨files, hfiles, hsub⟩ := readable_iff.mp (h temp_file (hlist ▸ List.mem_cons_self))
      have hqueue : ∀ d ∈ (files.foldl (visit tree) { t with list := list }).list,
          Readable tree d.absolutePath := by
        intro d hd
        rw [list_foldl_visit] at hd
        rcases List.mem_append.mp hd with hd | hd
        · exact h d (hlist ▸ List.mem_cons_of_mem _ hd)
        · exact hsub d (List.mem_filter.mp hd).1 (List.mem_filter.mp hd).2
      obtain ⟨t', hloop, hfolder, hfile⟩ := ih files hfiles hqueue
      refine ⟨t', by rw [loop_cons hlist, hfiles]; exact hloop, ?_, ?_⟩
      · rw [hfolder, folderNum_foldl_visit, Nat.add_assoc, due_turn hlist hfiles]
      · rw [hfile, fileNum_foldl_visit, Nat.add_assoc, due_turn hlist hfiles]

theorem loop_of_not_readable (h : ∃ d ∈ t.list, ¬ Readable tree d.absolutePath) :
    t.loop tree = .error .nullPointer := by
  induction t using loop_rec tree with
  | done t hnil =>
      obtain ⟨d, hd, _⟩ := h
      rw [hnil] at hd
      cases hd
  | turn t temp_file list hlist ih =>
      rw [loop_cons hlist]
      cases hfiles : tree.listFiles temp_file.absolutePath with
      | none => rfl
      | some files =>
          refine ih files hfiles ?_
          simp only [list_foldl_visit]
          obtain ⟨d, hd, hread⟩ := h
          rw [hlist] at hd
          rcases List.mem_cons.mp hd with rfl | hd
          · -- what cannot be read is further down, so it has been queued
            rw [readable_iff] at hread
            push Not at hread
            obtain ⟨f, hf, hdir, hread⟩ := hread files hfiles
            exact ⟨f, List.mem_append_right _ (List.mem_filter.mpr ⟨hf, hdir⟩), hread⟩
          · exact ⟨d, List.mem_append_left _ hd, hread⟩

end Traversal

/-! ## The whole traversal -/

theorem exists_of_listFiles {list : List File} (h : tree.listFiles path = some list) :
    tree.fileExists path = true := by
  obtain ⟨entries, hnode⟩ := exists_listFiles.mp ⟨list, h⟩
  rw [FileTree.fileExists, hnode]
  rfl

theorem traverseFolder1_of_readable (h : Readable tree path) :
    ∃ t, traverseFolder1 tree path = .ok t ∧
      t.folderNum = (entriesBelow tree path).countP tree.isDirectory ∧
      t.fileNum = (entriesBelow tree path).countP (fun f => !tree.isDirectory f) := by
  obtain ⟨files, hfiles, hsub⟩ := readable_iff.mp h
  let t : Traversal := { list := [], folderNum := 0, fileNum := 0, out := [] }
  have hlist : (files.foldl (Traversal.visit tree) t).list = files.filter tree.isDirectory :=
    Traversal.list_foldl_visit tree files t
  have hqueue : ∀ d ∈ (files.foldl (Traversal.visit tree) t).list, Readable tree d.absolutePath :=
    fun d hd => hsub d (List.mem_filter.mp (hlist ▸ hd)).1 (List.mem_filter.mp (hlist ▸ hd)).2
  obtain ⟨last, hloop, hfolder, hfile⟩ := Traversal.loop_of_readable hqueue
  refine ⟨last.println (jstring s!"文件夹共有:{last.folderNum},文件共有:{last.fileNum}"), ?_, ?_, ?_⟩
  · simp only [traverseFolder1, exists_of_listFiles hfiles, if_true, hfiles]
    rw [hloop]
    rfl
  · rw [countP_entriesBelow hfiles, ← hlist]
    exact hfolder.trans (by rw [Traversal.folderNum_foldl_visit, Traversal.due, Nat.zero_add])
  · rw [countP_entriesBelow hfiles, ← hlist]
    exact hfile.trans (by rw [Traversal.fileNum_foldl_visit, Traversal.due, Nat.zero_add])

theorem traverseFolder1_of_not_readable (hexists : tree.fileExists path = true) (h : ¬ Readable tree path) :
    traverseFolder1 tree path = .error .nullPointer := by
  simp only [traverseFolder1, hexists, if_true]
  cases hfiles : tree.listFiles path with
  | none => rfl
  | some files =>
      rw [readable_iff] at h
      push Not at h
      obtain ⟨d, hd, hdir, hread⟩ := h files hfiles
      dsimp only
      rw [Traversal.loop_of_not_readable]
      · rfl
      · rw [Traversal.list_foldl_visit]
        exact ⟨d, List.mem_append_right _ (List.mem_filter.mpr ⟨hd, hdir⟩), hread⟩

/-! ## Both count the same -/

def TraversalsAgree (tree : FileTree) (path : JString) : Prop :=
  ∃ t, traverseFolder1 tree path = .ok t ∧ t.fileNum = (scanFile tree path []).length ∧
    t.folderNum = {d | Listed tree path d ∧ tree.isDirectory d = true}.ncard

theorem length_scanFile (tree : FileTree) (path : JString) :
    (scanFile tree path []).length = (entriesBelow tree path).countP (fun f => !tree.isDirectory f) := by
  rw [scanFile_eq, List.nil_append, List.length_map, filesBelow_eq, List.countP_eq_length_filter]

theorem ncard_directories (tree : FileTree) (path : JString) :
    {d | Listed tree path d ∧ tree.isDirectory d = true}.ncard =
      (entriesBelow tree path).countP tree.isDirectory := by
  have hset : {d | Listed tree path d ∧ tree.isDirectory d = true} =
      ((entriesBelow tree path).filter tree.isDirectory).toFinset := by
    ext d
    rw [List.coe_toFinset, Set.mem_ofPred_eq, Set.mem_ofPred_eq, List.mem_filter, mem_entriesBelow]
  rw [hset, Set.ncard_coe_finset, List.toFinset_card_of_nodup ((nodup_entriesBelow path).filter _),
    List.countP_eq_length_filter]

/-- Where `scanFile` passes over a directory that it cannot read, `traverseFolder1` throws. -/
theorem traversals_agree_iff_readable
    (hdir : ∃ readable entries, tree.node? path = some (.dir readable entries)) :
    TraversalsAgree tree path ↔ Readable tree path := by
  constructor
  · rintro ⟨t, ht, _⟩
    by_contra hread
    obtain ⟨_, _, hnode⟩ := hdir
    have hexists : tree.fileExists path = true := by rw [FileTree.fileExists, hnode]; rfl
    rw [traverseFolder1_of_not_readable hexists hread] at ht
    cases ht
  · intro hread
    obtain ⟨t, ht, hfolder, hfile⟩ := traverseFolder1_of_readable hread
    exact ⟨t, ht, hfile.trans (length_scanFile tree path).symm,
      hfolder.trans (ncard_directories tree path).symm⟩

theorem traversals_agree_iff_readable_root :
    TraversalsAgree twoFiles [slash] ↔ Readable twoFiles [slash] :=
  traversals_agree_iff_readable ⟨true, _, rfl⟩

def lockedDirectory : FileTree where
  root := .dir true [(jstring "a", .file), (jstring "d", .dir false [(jstring "b", .file)])]
  valid := by
    have hd : (Node.dir false [(jstring "b", .file)]).Valid := by
      refine .dir (by decide) (by decide) (fun e he => ?_)
      rw [List.mem_singleton.mp he]
      exact .file
    refine .dir (by decide) (by decide) (fun e he => ?_)
    rcases List.mem_pair.mp he with rfl | rfl
    · exact .file
    · exact hd

theorem traversals_disagree_locked :
    (∃ readable entries, lockedDirectory.node? [slash] = some (.dir readable entries)) ∧
      traverseFolder1 lockedDirectory [slash] = .error .nullPointer ∧
      ¬ TraversalsAgree lockedDirectory [slash] := by
  have hread : ¬ Readable lockedDirectory [slash] := by
    rintro ⟨_, hbelow⟩
    have hlist : lockedDirectory.listFiles [slash] = some [[jstring "a"], [jstring "d"]] := rfl
    obtain ⟨entries, hd⟩ := hbelow [jstring "d"] (.here hlist (by decide)) rfl
    cases hd
  have hexists : lockedDirectory.fileExists [slash] = true := rfl
  have hthrow := traverseFolder1_of_not_readable hexists hread
  refine ⟨⟨true, _, rfl⟩, hthrow, ?_⟩
  rintro ⟨t, ht, _⟩
  rw [hthrow] at ht
  cases ht

end MyDemo.Files

import MyDemo.Files.FileUtils

/-!
# What is below a directory
-/

namespace MyDemo.Files

variable {tree : FileTree}

theorem descent (tree : FileTree) {M : JString → Prop}
    (step : ∀ path, (∀ list, tree.listFiles path = some list → ∀ f ∈ list, M f.absolutePath) → M path)
    (path : JString) : M path := by
  induction h : sizeOf (tree.node? path) using Nat.strong_induction_on generalizing path with
  | _ n ih => exact step path (fun list hl f hf => ih _ (h ▸ FileTree.sizeOf_listFiles hl hf) _ rfl)

/-- The entries met on the way down from a directory through those that can be listed. -/
inductive Listed (tree : FileTree) : JString → File → Prop
  | here {path : JString} {list : List File} {f : File} (h : tree.listFiles path = some list)
      (hf : f ∈ list) : Listed tree path f
  | further {path : JString} {list : List File} {d f : File} (h : tree.listFiles path = some list)
      (hd : d ∈ list) (hf : Listed tree d.absolutePath f) : Listed tree path f

def entriesBelow (tree : FileTree) (path : JString) : List File :=
  match _ : tree.listFiles path with
  | none => []
  | some list => list.attach.flatMap (fun ⟨f, _⟩ => f :: entriesBelow tree f.absolutePath)
  termination_by sizeOf (tree.node? path)
  decreasing_by exact FileTree.sizeOf_listFiles (by assumption) (by assumption)

theorem entriesBelow_none {path : JString} (h : tree.listFiles path = none) : entriesBelow tree path = [] := by
  rw [entriesBelow]
  split
  · rfl
  · next h' => rw [h] at h'; cases h'

theorem entriesBelow_some {path : JString} {list : List File} (h : tree.listFiles path = some list) :
    entriesBelow tree path = list.flatMap (fun f => f :: entriesBelow tree f.absolutePath) := by
  rw [entriesBelow]
  split
  · next h' => rw [h] at h'; cases h'
  · next list' h' =>
      obtain rfl := Option.some.inj (h.symm.trans h')
      conv_rhs => rw [← List.attach_map_subtype_val list, List.flatMap_map]

theorem mem_entriesBelow {path : JString} {f : File} : f ∈ entriesBelow tree path ↔ Listed tree path f := by
  induction path using descent tree with
  | step path ih =>
      constructor
      · intro hf
        cases h : tree.listFiles path with
        | none => rw [entriesBelow_none h] at hf; cases hf
        | some list =>
            rw [entriesBelow_some h] at hf
            obtain ⟨d, hd, hf⟩ := List.mem_flatMap.mp hf
            rcases List.mem_cons.mp hf with rfl | hf
            · exact .here h hd
            · exact .further h hd ((ih list h d hd).mp hf)
      · intro hf
        cases hf with
        | @here _ list _ h hf =>
            rw [entriesBelow_some h]
            exact List.mem_flatMap.mpr ⟨f, hf, List.mem_cons_self⟩
        | @further _ list d _ h hd hf =>
            rw [entriesBelow_some h]
            exact List.mem_flatMap.mpr ⟨d, hd, List.mem_cons_of_mem _ ((ih list h d hd).mpr hf)⟩

theorem not_listed_of_none {path : JString} (h : tree.listFiles path = none) (f : File) :
    ¬ Listed tree path f := by
  rw [← mem_entriesBelow, entriesBelow_none h]
  exact List.not_mem_nil

/-! ## The files among them -/

def filesBelow (tree : FileTree) (path : JString) : List File :=
  match _ : tree.listFiles path with
  | none => []
  | some list => list.attach.flatMap (fun ⟨f, _⟩ =>
      if tree.isDirectory f then filesBelow tree f.absolutePath else [f])
  termination_by sizeOf (tree.node? path)
  decreasing_by exact FileTree.sizeOf_listFiles (by assumption) (by assumption)

def filesAt (tree : FileTree) (f : File) : List File :=
  if tree.isDirectory f then filesBelow tree f.absolutePath else [f]

theorem filesBelow_none {path : JString} (h : tree.listFiles path = none) : filesBelow tree path = [] := by
  rw [filesBelow]
  split
  · rfl
  · next h' => rw [h] at h'; cases h'

theorem filesBelow_some {path : JString} {list : List File} (h : tree.listFiles path = some list) :
    filesBelow tree path = list.flatMap (filesAt tree) := by
  rw [filesBelow]
  split
  · next h' => rw [h] at h'; cases h'
  · next list' h' =>
      obtain rfl := Option.some.inj (h.symm.trans h')
      conv_rhs => rw [← List.attach_map_subtype_val list, List.flatMap_map]
      rfl

/-! ## The recursion finds them -/

theorem scanFile_none {path : JString} (h : tree.listFiles path = none) (arrayList : List JString) :
    scanFile tree path arrayList = arrayList := by
  rw [scanFile]
  split
  · rfl
  · next h' => rw [h] at h'; cases h'

theorem scanFile_some {path : JString} {list : List File} (h : tree.listFiles path = some list)
    (arrayList : List JString) :
    scanFile tree path arrayList = list.foldl (fun arrayList f =>
      if tree.isDirectory f then scanFile tree f.absolutePath arrayList else arrayList ++ [f.name])
      arrayList := by
  rw [scanFile]
  split
  · next h' => rw [h] at h'; cases h'
  · next list' h' =>
      obtain rfl := Option.some.inj (h.symm.trans h')
      conv_rhs => rw [← List.attach_map_subtype_val list, List.foldl_map]

theorem scanFile_eq (path : JString) (arrayList : List JString) :
    scanFile tree path arrayList = arrayList ++ (filesBelow tree path).map File.name := by
  induction path using descent tree generalizing arrayList with
  | step path ih =>
      cases h : tree.listFiles path with
      | none => rw [scanFile_none h, filesBelow_none h, List.map_nil, List.append_nil]
      | some list =>
          rw [scanFile_some h, filesBelow_some h]
          have hsub := ih list h
          clear ih h
          induction list generalizing arrayList with
          | nil => simp
          | cons f list ihl =>
              rw [List.foldl_cons, ihl _ (fun f hf => hsub f (List.mem_cons_of_mem _ hf)),
                List.flatMap_cons, List.map_append, ← List.append_assoc]
              congr 1
              rw [filesAt]
              split
              · exact hsub f (by simp) arrayList
              · rfl

/-! ## Each is below once -/

theorem listFiles_of_not_directory {path : JString} {list : List File} (h : tree.listFiles path = some list)
    {f : File} (hf : f ∈ list) (hdir : tree.isDirectory f = false) :
    tree.listFiles f.absolutePath = none := by
  rw [Option.eq_none_iff_forall_ne_some]
  intro list' h'
  obtain ⟨p, entries, hp, hnode, _⟩ := FileTree.listFiles_eq_some.mp h'
  obtain rfl := Option.some.inj ((FileTree.mem_listFiles h hf).1.symm.trans hp)
  rw [FileTree.isDirectory, hnode] at hdir
  cases hdir

theorem filesBelow_eq (path : JString) :
    filesBelow tree path = (entriesBelow tree path).filter (fun f => !tree.isDirectory f) := by
  induction path using descent tree with
  | step path ih =>
      cases h : tree.listFiles path with
      | none => rw [filesBelow_none h, entriesBelow_none h, List.filter_nil]
      | some list =>
          rw [filesBelow_some h, entriesBelow_some h, List.filter_flatMap]
          refine List.flatMap_congr (fun f hf => ?_)
          rw [filesAt, List.filter_cons]
          cases hdir : tree.isDirectory f with
          | true => exact ih list h f hf
          | false =>
              rw [entriesBelow_none (listFiles_of_not_directory h hf hdir)]
              rfl

theorem mem_filesBelow {path : JString} {f : File} :
    f ∈ filesBelow tree path ↔ Listed tree path f ∧ tree.isDirectory f = false := by
  rw [filesBelow_eq, List.mem_filter, mem_entriesBelow, Bool.not_eq_true']

theorem longer_of_listed {path : JString} {p f : File} (hf : Listed tree path f)
    (hp : File.ofPath path = some p) : p <+: f ∧ p.length < f.length := by
  induction hf generalizing p with
  | here h hf =>
      obtain ⟨_, q, _, hq, _, e, _, rfl, _⟩ := FileTree.mem_listFiles h hf
      obtain rfl := Option.some.inj (hp.symm.trans hq)
      exact ⟨List.prefix_append p [e.1], by simp⟩
  | further h hd _ ih =>
      obtain ⟨hpath, q, _, hq, _, e, _, rfl, _⟩ := FileTree.mem_listFiles h hd
      obtain rfl := Option.some.inj (hp.symm.trans hq)
      obtain ⟨hpre, hlen⟩ := ih hpath
      exact ⟨(List.prefix_append p [e.1]).trans hpre, lt_trans (by simp) hlen⟩

theorem nodup_listFiles {path : JString} {list : List File} (h : tree.listFiles path = some list) :
    list.Nodup := by
  obtain ⟨p, entries, _, hnode, rfl⟩ := FileTree.listFiles_eq_some.mp h
  cases (FileTree.lookup_valid hnode).1 with
  | dir distinct _ _ =>
      have hmap : entries.map (fun e => p ++ [e.1]) = (entries.map Prod.fst).map (fun n => p ++ [n]) := by
        rw [List.map_map]; rfl
      rw [hmap]
      exact distinct.map (fun n m hnm => by simpa using hnm)

theorem length_listFiles {path : JString} {list : List File} (h : tree.listFiles path = some list) {f g : File}
    (hf : f ∈ list) (hg : g ∈ list) : f.length = g.length := by
  obtain ⟨p, entries, _, _, rfl⟩ := FileTree.listFiles_eq_some.mp h
  obtain ⟨_, _, rfl⟩ := List.mem_map.mp hf
  obtain ⟨_, _, rfl⟩ := List.mem_map.mp hg
  simp

theorem nodup_entriesBelow (path : JString) : (entriesBelow tree path).Nodup := by
  induction path using descent tree with
  | step path ih =>
      cases h : tree.listFiles path with
      | none => rw [entriesBelow_none h]; exact List.nodup_nil
      | some list =>
          have hlonger : ∀ d ∈ list, ∀ f ∈ entriesBelow tree d.absolutePath, d <+: f ∧ d.length < f.length :=
            fun d hd f hf => longer_of_listed (mem_entriesBelow.mp hf) (FileTree.mem_listFiles h hd).1
          have hlead : ∀ d ∈ list, ∀ f ∈ d :: entriesBelow tree d.absolutePath, d <+: f := by
            intro d hd f hf
            rcases List.mem_cons.mp hf with rfl | hf
            · exact List.prefix_refl f
            · exact (hlonger d hd f hf).1
          rw [entriesBelow_some h, List.nodup_flatMap]
          constructor
          · intro d hd
            exact List.nodup_cons.mpr ⟨fun hmem => absurd (hlonger d hd d hmem).2 (lt_irrefl _), ih list h d hd⟩
          · refine (nodup_listFiles h).pairwise_of_forall_ne (fun d hd d' hd' hne f hf hf' => hne ?_)
            -- two entries of one directory that lead to the same file are the same entry
            have hdd := List.prefix_of_prefix_length_le (hlead d hd f hf) (hlead d' hd' f hf')
              (length_listFiles h hd hd').le
            exact hdd.eq_of_length (length_listFiles h hd hd')

theorem nodup_filesBelow (path : JString) : (filesBelow tree path).Nodup := by
  rw [filesBelow_eq]
  exact (nodup_entriesBelow path).filter _

end MyDemo.Files

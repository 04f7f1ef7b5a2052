import MyDemo.Files.Browse
import MyDemo.Files.DirTheorems
import MyDemo.Files.RowTheorems

/-!
# A walk through the directory browser goes where the rows say
-/

namespace MyDemo.Files

open Transition

variable {tree : FileTree} {f : File} {node : Node} {data : CarDirectory}

/-! ## The record of a position -/

theorem File.absolutePath_eq_slash (h : ∀ n ∈ f, ValidName n) : f.absolutePath = [slash] ↔ f = [] := by
  constructor
  · intro hslash
    have hf := File.ofPath_absolutePath h
    rw [hslash] at hf
    exact (Option.some.inj hf).symm
  · rintro rfl
    rfl

theorem FileTree.ofPath_of_lookup (hf : tree.lookup f = some node) : File.ofPath f.absolutePath = some f :=
  File.ofPath_absolutePath (lookup_valid hf).2

theorem FileTree.node?_of_lookup (hf : tree.lookup f = some node) : tree.node? f.absolutePath = some node := by
  rw [node?, ofPath_of_lookup hf, Option.bind_some, hf]

/-- The record of a subdirectory in the listing of `f`. -/
def listed (f g : File) : CarDirectory where
  root := false
  dirPath := f.absolutePath
  dirName := f.name
  name := g.name
  path := g.absolutePath
  directorys := []
  files := []
  status := FILE_EMPTY

theorem scanDir_head (tree : FileTree) (data : CarDirectory) : (scanDir tree data).SameHead data := by
  rw [scanDir]
  split
  · exact ⟨rfl, rfl, rfl, rfl, rfl⟩
  · exact ⟨rfl, rfl, rfl, rfl, rfl⟩

theorem CarDirectory.Describes.of_sameHead {data' : CarDirectory} (hhead : data.SameHead data')
    (h : data'.Describes f) : data.Describes f where
  root_iff := by rw [hhead.root_eq, h.root_iff]
  name_eq := hhead.name_eq.trans h.name_eq
  path_eq := hhead.path_eq.trans h.path_eq
  parent g hg := ⟨hhead.dirPath_eq.trans (h.parent g hg).1, hhead.dirName_eq.trans (h.parent g hg).2⟩

theorem CarDirectory.Describes.root_eq_false (h : data.Describes f) (hne : f ≠ []) : data.root = false := by
  rw [← Bool.not_eq_true, h.root_iff]
  exact hne

theorem scanDir_directorys (hf : tree.lookup f = some node) (hpath : data.path = f.absolutePath)
    (hname : data.name = f.name) (hempty : data.directorys = []) :
    (scanDir tree data).directorys = (tree.subdirectories f).map (listed f) := by
  simp only [scanDir, FileTree.listFiles, FileTree.subdirectories, hpath, hname, FileTree.ofPath_of_lookup hf,
    FileTree.node?_of_lookup hf, hf]
  cases node with
  | file => exact hempty
  | other => exact hempty
  | dir readable entries =>
      cases readable with
      | false => exact hempty
      | true => rfl

theorem getFileByDir_absolutePath (hf : tree.lookup f = some node) :
    ∃ data, getFileByDir tree f.absolutePath = .ok (some data) ∧ data.Describes f ∧
      data.directorys = (tree.subdirectories f).map (listed f) := by
  have hexists : tree.fileExists f.absolutePath = true := by
    rw [FileTree.fileExists, FileTree.node?_of_lookup hf]
    rfl
  simp only [getFileByDir, FileTree.ofPath_of_lookup hf, hexists, Bool.not_true, Bool.false_eq_true, if_false,
    File.absolutePath_eq_slash (FileTree.lookup_valid hf).2]
  by_cases hnil : f = []
  · subst hnil
    refine ⟨_, rfl, .of_sameHead (scanDir_head tree _) ?_, scanDir_directorys hf rfl rfl rfl⟩
    exact ⟨iff_of_true rfl rfl, rfl, rfl, nofun⟩
  · have hparent : f.parentFile = some f.dropLast := if_neg hnil
    rw [if_neg hnil, hparent]
    refine ⟨_, rfl, .of_sameHead (scanDir_head tree _) ?_, scanDir_directorys hf rfl rfl rfl⟩
    refine ⟨iff_of_false Bool.false_ne_true hnil, rfl, rfl, fun g hg => ?_⟩
    cases hparent.symm.trans hg
    exact ⟨rfl, rfl⟩

/-! ## Neighbours -/

theorem FileTree.mem_subdirectories {g : File} (h : g ∈ tree.subdirectories f) :
    (∃ node, tree.lookup g = some node) ∧ g ≠ [] ∧ g.parentFile = some f := by
  rw [subdirectories] at h
  split at h
  · next entries hf =>
      obtain ⟨hmem, hdir⟩ := List.mem_filter.mp h
      obtain ⟨e, -, rfl⟩ := List.mem_map.mp hmem
      obtain ⟨readable, entries', hg⟩ := isDirectory_iff.mp hdir
      have hne : f ++ [e.1] ≠ [] := by simp
      refine ⟨⟨_, hg⟩, hne, ?_⟩
      rw [File.parentFile, if_neg hne, List.dropLast_concat]
  · cases h

theorem FileTree.lookup_parentFile {g : File} (hf : tree.lookup f = some node) (hg : f.parentFile = some g) :
    ∃ node, tree.lookup g = some node := by
  rw [File.parentFile] at hg
  split at hg
  · cases hg
  · next hne =>
      cases hg
      rw [← List.dropLast_append_getLast hne, lookup_append] at hf
      obtain ⟨parent, hparent, -⟩ := Option.bind_eq_some_iff.mp hf
      exact ⟨parent, hparent⟩

theorem FileTree.lookup_visit {g : File} {p : ℕ} (hf : ∃ node, tree.lookup f = some node)
    (h : tree.visit f p = some g) : ∃ node, tree.lookup g = some node := by
  obtain ⟨node, hf⟩ := hf
  rcases List.mem_append.mp (List.mem_of_getElem? h) with hg | hg
  · exact lookup_parentFile hf (Option.mem_toList.mp hg)
  · exact (mem_subdirectories hg).1

/-! ## A click goes to a neighbour -/

namespace DirActivity

open DirItemAdaper

variable {p : ℕ}

theorem click_of_row {e : Entry} (h : Row data p e) : click tree (.ok (some data)) p = listener tree e.callback := by
  obtain ⟨item, hbind, -, -, hclick⟩ := h
  simp only [click, hbind, Exn.ok_bind, hclick]

/-- Below the subdirectories there are only files. -/
theorem click_of_le (h : data.directorys.length + (if data.root then 0 else 1) ≤ p) :
    click tree (.ok (some data)) p = none := by
  rw [click]
  split
  · next callback hcallback =>
      rcases callback_cases hcallback with ⟨hzero, hroot, -⟩ | ⟨i, d, hd, hp, -⟩ | ⟨name, path, rfl⟩
      · rw [hroot, if_neg Bool.false_ne_true] at h
        omega
      · have hi := (List.getElem?_eq_some_iff.mp hd).1
        omega
      · rfl
  · rfl

theorem click_eq (hf : tree.lookup f = some node) (p : ℕ) :
    click tree (getFileByDir tree f.absolutePath) p =
      (tree.visit f p).map fun g => getFileByDir tree g.absolutePath := by
  obtain ⟨data, hdata, hdescribes, hdirectorys⟩ := getFileByDir_absolutePath hf
  have hlength : data.directorys.length = (tree.subdirectories f).length := by rw [hdirectorys, List.length_map]
  rw [hdata, FileTree.visit, FileTree.neighbours]
  by_cases hnil : f = []
  · have hroot := hdescribes.root_iff.mpr hnil
    have hup : f.parentFile = none := if_pos hnil
    rw [hup, Option.toList_none, List.nil_append]
    cases hg : (tree.subdirectories f)[p]? with
    | none =>
        have hle := List.getElem?_eq_none_iff.mp hg
        exact click_of_le (by rw [hroot, if_pos rfl]; omega)
    | some g =>
        have hd : data.directorys[p]? = some (listed f g) := by rw [hdirectorys, List.getElem?_map, hg]; rfl
        exact click_of_row (row_directory_root hroot hd)
  · have hroot := hdescribes.root_eq_false hnil
    have hup : f.parentFile = some f.dropLast := if_neg hnil
    rw [hup, Option.toList_some, List.singleton_append]
    cases p with
    | zero =>
        have hback : click tree (.ok (some data)) 0 = listener tree (.onBack data.dirPath) :=
          click_of_row (row_up hroot)
        rw [(hdescribes.parent _ hup).1] at hback
        exact hback
    | succ q =>
        rw [List.getElem?_cons_succ]
        cases hg : (tree.subdirectories f)[q]? with
        | none =>
            have hle := List.getElem?_eq_none_iff.mp hg
            exact click_of_le (by rw [hroot, if_neg Bool.false_ne_true]; omega)
        | some g =>
            have hd : data.directorys[q]? = some (listed f g) := by rw [hdirectorys, List.getElem?_map, hg]; rfl
            exact click_of_row (row_directory hroot hd)

/-! ## Walks -/

theorem walk_eq (tree : FileTree) (rows : List ℕ) :
    walk tree rows = (run tree.visit [] rows).map fun f => getFileByDir tree f.absolutePath := by
  have hstart : jstring "/" = File.absolutePath [] := by decide
  rw [walk, hstart]
  exact run_map (I := fun f => ∃ node, tree.lookup f = some node) (m := fun f => getFileByDir tree f.absolutePath)
    (fun _ p ⟨_, hf⟩ => click_eq hf p) (fun _ _ _ => FileTree.lookup_visit) ⟨tree.root, rfl⟩ rows

theorem lookup_run {rows : List ℕ} (h : run tree.visit [] rows = some f) : ∃ node, tree.lookup f = some node :=
  run_keeps (I := fun f => ∃ node, tree.lookup f = some node) (fun _ _ _ hf hg => FileTree.lookup_visit hf hg)
    ⟨tree.root, rfl⟩ h

theorem exists_row {d : CarDirectory} (h : d ∈ data.directorys) : ∃ p : ℕ, Row data p (.directory d) := by
  obtain ⟨i, h⟩ := List.mem_iff_getElem?.mp h
  cases hroot : data.root with
  | true => exact ⟨i, row_directory_root hroot h⟩
  | false => exact ⟨i + 1, row_directory hroot h⟩

/-- The record is that of the position in the tree, and from each subdirectory the row `..` leads back. -/
theorem walk_agrees {rows : List ℕ} {shown : Shown} (h : walk tree rows = some shown) : ∃ f data,
    run tree.visit [] rows = some f ∧ shown = .ok (some data) ∧ data.Describes f ∧
      ∀ d ∈ data.directorys, ∃ (p : ℕ) (data' : CarDirectory), Row data p (.directory d) ∧
        getFileByDir tree d.path = .ok (some data') ∧ d.SameHead data' ∧ Row data' 0 (.up data'.dirPath) ∧
        walk tree (rows ++ [p]) = some (.ok (some data')) ∧ walk tree (rows ++ [p, 0]) = some shown := by
  obtain ⟨f, hrun, hshown⟩ := Option.map_eq_some_iff.mp ((walk_eq tree rows).symm.trans h)
  obtain ⟨node, hf⟩ := lookup_run hrun
  obtain ⟨data, hdata, hdescribes, hdirectorys⟩ := getFileByDir_absolutePath hf
  refine ⟨f, data, hrun, hshown.symm.trans hdata, hdescribes, fun d hd => ?_⟩
  obtain ⟨p, hrow⟩ := exists_row hd
  rw [hdirectorys] at hd
  obtain ⟨g, hg, rfl⟩ := List.mem_map.mp hd
  obtain ⟨⟨node', hlookup⟩, hne, hparent⟩ := FileTree.mem_subdirectories hg
  obtain ⟨data', hdata', hdescribes', -⟩ := getFileByDir_absolutePath hlookup
  have hroot := hdescribes'.root_eq_false hne
  obtain ⟨hdirPath, hdirName⟩ := hdescribes'.parent f hparent
  have hclick : click tree shown p = some (.ok (some data')) := by
    rw [← hshown, hdata, click_of_row hrow]
    exact congrArg some hdata'
  have hback : click tree (.ok (some data')) 0 = some shown := by
    have hup : click tree (.ok (some data')) 0 = listener tree (.onBack data'.dirPath) :=
      click_of_row (row_up hroot)
    rw [hdirPath] at hup
    exact hup.trans (congrArg some hshown)
  refine ⟨p, data', hrow, hdata', ⟨hroot.symm, hdirPath.symm, hdirName.symm, hdescribes'.name_eq.symm,
    hdescribes'.path_eq.symm⟩, row_up hroot, ?_, ?_⟩
  · exact run_append.mpr ⟨shown, h, run_cons_eq_some.mpr ⟨_, hclick, run_nil _⟩⟩
  · exact run_append.mpr ⟨shown, h, run_cons_eq_some.mpr ⟨_, hclick, run_cons_eq_some.mpr ⟨_, hback, run_nil _⟩⟩⟩

theorem walk_agrees_up_again : ∃ shown f data, walk twoDirs [1, 0] = some shown ∧
    run twoDirs.visit [] [1, 0] = some f ∧ shown = .ok (some data) ∧ data.Describes f ∧
      ∀ d ∈ data.directorys, ∃ (p : ℕ) (data' : CarDirectory), Row data p (.directory d) ∧
        getFileByDir twoDirs d.path = .ok (some data') ∧ d.SameHead data' ∧ Row data' 0 (.up data'.dirPath) ∧
        walk twoDirs [1, 0, p] = some (.ok (some data')) ∧ walk twoDirs [1, 0, p, 0] = some shown := by
  have hwalk : (walk twoDirs [1, 0]).isSome = true := by decide
  obtain ⟨shown, hshown⟩ := Option.isSome_iff_exists.mp hwalk
  obtain ⟨f, data, h⟩ := walk_agrees hshown
  exact ⟨shown, f, data, hshown, h⟩

/-! ## A walk is a run of the activity -/

/-- A scan that nothing comes in between. -/
theorem run_scan (s : DirActivity) {path : JString} (h : getFileByDir tree path = .ok (some data)) :
    ∃ t, run DirActivity.step (s.scanDirectory path) [.subscribe s.scans.length tree, .deliver s.scans.length] =
      some t ∧ t.data = some data := by
  have hscan : (s.scanDirectory path).scans[s.scans.length]? = some ⟨path, .running⟩ := List.getElem?_concat_length
  have hfound : subscribe tree path = .emitted data := by rw [subscribe, h]
  have hlt : s.scans.length < (s.scanDirectory path).scans.length := (List.getElem?_eq_some_iff.mp hscan).1
  have hsubscribe : DirActivity.step (s.scanDirectory path) (.subscribe s.scans.length tree) =
      some ((s.scanDirectory path).setStatus s.scans.length ⟨path, .running⟩ (.emitted data)) := by
    simp [DirActivity.step, hscan, hfound]
  have hemitted : ((s.scanDirectory path).setStatus s.scans.length ⟨path, .running⟩
      (.emitted data)).scans[s.scans.length]? = some ⟨path, .emitted data⟩ := List.getElem?_set_self hlt
  have hdeliver : ∃ t, DirActivity.step ((s.scanDirectory path).setStatus s.scans.length ⟨path, .running⟩
      (.emitted data)) (.deliver s.scans.length) = some t ∧ t.data = some data := by
    simp only [DirActivity.step, hemitted]
    exact ⟨_, rfl, rfl⟩
  obtain ⟨t, ht, hdata⟩ := hdeliver
  exact ⟨t, run_cons_eq_some.mpr ⟨_, hsubscribe, run_cons_eq_some.mpr ⟨t, ht, run_nil t⟩⟩, hdata⟩

theorem run_click {s : DirActivity} {data' : CarDirectory} {p : ℕ} (hs : s.data = some data)
    (h : click tree (.ok (some data)) p = some (.ok (some data'))) :
    ∃ as t, run DirActivity.step s as = some t ∧ t.data = some data' := by
  rw [click] at h
  split at h
  · next callback hcallback =>
      rcases callback_cases hcallback with ⟨-, hroot, rfl⟩ | ⟨i, d, hd, -, rfl⟩ | ⟨name, path, rfl⟩
      · obtain ⟨t, hrun, ht⟩ := run_scan s (Option.some.inj h)
        refine ⟨.onBack :: _, t, run_cons_eq_some.mpr ⟨_, ?_, hrun⟩, ht⟩
        rw [DirActivity.step, hs]
        simp [hroot]
      · obtain ⟨t, hrun, ht⟩ := run_scan s (Option.some.inj h)
        refine ⟨.onClick i :: _, t, run_cons_eq_some.mpr ⟨_, ?_, hrun⟩, ht⟩
        rw [DirActivity.step, hs]
        simp [hd]
      · cases h
  · cases h

theorem shown_of_click {shown shown' : Shown} {p : ℕ} (h : click tree shown p = some shown') :
    ∃ data, shown = .ok (some data) := by
  match shown with
  | .ok (some data) => exact ⟨data, rfl⟩

/-- What a walk comes to see, the activity shows after some run. -/
theorem exists_run_of_walk {rows : List ℕ} (h : walk tree rows = some (.ok (some data))) :
    ∃ as s, run DirActivity.step onCreate as = some s ∧ s.data = some data := by
  induction rows using List.reverseRecOn generalizing data with
  | nil =>
      obtain ⟨t, hrun, ht⟩ := run_scan { progressBar := true, data := none, scans := [], onNexts := [] }
        (Option.some.inj h)
      exact ⟨_, t, hrun, ht⟩
  | append_singleton rows p ih =>
      obtain ⟨shown, hwalk, hclick⟩ := run_append.mp h
      obtain ⟨shown', hclick, hnil⟩ := run_cons_eq_some.mp hclick
      cases hnil
      obtain ⟨data', rfl⟩ := shown_of_click hclick
      obtain ⟨as, s, hrun, hs⟩ := ih hwalk
      obtain ⟨bs, t, hrun', ht⟩ := run_click hs hclick
      exact ⟨as ++ bs, t, run_append.mpr ⟨s, hrun, hrun'⟩, ht⟩

end DirActivity

end MyDemo.Files

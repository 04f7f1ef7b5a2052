import MyDemo.Files.FileTree
import Mathlib.Algebra.Order.BigOperators.Group.List
import Mathlib.Algebra.Order.Group.Nat
import Mathlib.Algebra.Ring.Nat
import Mathlib.Data.List.Nodup

/-!
# What a valid tree answers
-/

namespace MyDemo.Files

/-! ## Paths name their files -/

theorem intercalate_cons {α : Type*} (c : α) (l : List α) (ls : List (List α)) :
    [c].intercalate (l :: ls) = l ++ ls.flatMap (c :: ·) := by
  induction ls generalizing l with
  | nil => simp
  | cons m ms ih => simp [List.intercalate_cons_cons, ih]

theorem File.ofPath_absolutePath {f : File} (h : ∀ n ∈ f, ValidName n) :
    File.ofPath f.absolutePath = some f := by
  cases f with
  | nil => rfl
  | cons n ns =>
      have hpath : File.absolutePath (n :: ns) = [slash].intercalate ([] :: n :: ns) :=
        (intercalate_cons slash [] (n :: ns)).symm
      have hslash : ∀ l ∈ [] :: n :: ns, slash ∉ l := by
        intro l hl
        rcases List.mem_cons.mp hl with rfl | hl
        · exact List.not_mem_nil
        · exact (h l hl).2
      rw [ofPath, if_neg (by simp [absolutePath]), hpath, List.splitOn_intercalate _ hslash (by simp)]
      have hfilter : (n :: ns).filter (· ≠ []) = n :: ns :=
        List.filter_eq_self.mpr (fun l hl => by simpa using (h l hl).1)
      rw [List.filter_cons_of_neg (by simp), hfilter]

/-! ## Going down one name -/

theorem Node.child_eq_some {node c : Node} {name : JString} (h : node.child name = some c) :
    ∃ readable entries, node = .dir readable entries ∧ (name, c) ∈ entries := by
  cases node with
  | file => cases h
  | other => cases h
  | dir readable entries =>
      obtain ⟨e, he, rfl⟩ := Option.map_eq_some_iff.mp h
      have hname : e.1 = name := by simpa using List.find?_some he
      exact ⟨readable, entries, rfl, hname ▸ List.mem_of_find?_eq_some he⟩

theorem Node.Valid.child {node c : Node} {name : JString} (hv : node.Valid)
    (h : node.child name = some c) : c.Valid ∧ ValidName name := by
  obtain ⟨readable, entries, rfl, hmem⟩ := Node.child_eq_some h
  cases hv with
  | dir _ names nodes => exact ⟨nodes _ hmem, names _ hmem⟩

theorem Node.child_of_mem {readable : Bool} {entries : List (JString × Node)}
    (hv : (Node.dir readable entries).Valid) {e : JString × Node} (he : e ∈ entries) :
    (Node.dir readable entries).child e.1 = some e.2 := by
  cases hv with
  | dir distinct _ _ =>
      obtain ⟨x, hx⟩ : ∃ x, entries.find? (fun x => decide (x.1 = e.1)) = some x :=
        Option.isSome_iff_exists.mp (List.find?_isSome.mpr ⟨e, he, by simp⟩)
      have hname : x.1 = e.1 := by simpa using List.find?_some hx
      have hsame := List.inj_on_of_nodup_map distinct (List.mem_of_find?_eq_some hx) he hname
      rw [Node.child, hx, hsame, Option.map_some]

namespace FileTree

variable {tree : FileTree}

theorem lookup_append (f : File) (n : JString) :
    tree.lookup (f ++ [n]) = (tree.lookup f).bind (fun node => node.child n) := by
  simp [lookup, List.foldlM_append]

theorem lookup_valid {f : File} {node : Node} (h : tree.lookup f = some node) :
    node.Valid ∧ ∀ n ∈ f, ValidName n := by
  induction f using List.reverseRecOn generalizing node with
  | nil => cases h; exact ⟨tree.valid, by simp⟩
  | append_singleton f n ih =>
      rw [lookup_append] at h
      obtain ⟨parent, hp, hc⟩ := Option.bind_eq_some_iff.mp h
      obtain ⟨hvalid, hnames⟩ := ih hp
      obtain ⟨hv, hn⟩ := hvalid.child hc
      refine ⟨hv, fun m hm => ?_⟩
      rcases List.mem_append.mp hm with hm | hm
      · exact hnames m hm
      · exact List.mem_singleton.mp hm ▸ hn

theorem isDirectory_iff {f : File} :
    tree.isDirectory f = true ↔ ∃ readable entries, tree.lookup f = some (.dir readable entries) := by
  rw [isDirectory]
  split
  · next readable entries h => simp [h]
  · next h => simpa using h

theorem listFiles_eq_some {path : JString} {files : List File} :
    tree.listFiles path = some files ↔ ∃ f entries, File.ofPath path = some f ∧
      tree.lookup f = some (.dir true entries) ∧ files = entries.map (fun e => f ++ [e.1]) := by
  rw [listFiles]
  constructor
  · intro h
    split at h
    · next f entries hf hnode =>
        rw [node?, hf, Option.bind_some] at hnode
        exact ⟨f, entries, hf, hnode, (Option.some.inj h).symm⟩
    · cases h
  · rintro ⟨f, entries, hf, hnode, rfl⟩
    simp only [node?, hf, Option.bind_some, hnode]

theorem mem_listFiles {path : JString} {files : List File} (h : tree.listFiles path = some files) {f : File}
    (hf : f ∈ files) : File.ofPath f.absolutePath = some f ∧ ∃ p entries, File.ofPath path = some p ∧
      tree.lookup p = some (.dir true entries) ∧
      ∃ e ∈ entries, f = p ++ [e.1] ∧ tree.lookup f = some e.2 := by
  obtain ⟨p, entries, hp, hnode, rfl⟩ := listFiles_eq_some.mp h
  obtain ⟨e, he, rfl⟩ := List.mem_map.mp hf
  have hlookup : tree.lookup (p ++ [e.1]) = some e.2 := by
    rw [lookup_append, hnode, Option.bind_some, Node.child_of_mem (lookup_valid hnode).1 he]
  exact ⟨File.ofPath_absolutePath (lookup_valid hlookup).2, p, entries, hp, hnode, e, he, rfl, hlookup⟩

theorem node?_absolutePath {path : JString} {files : List File} (h : tree.listFiles path = some files)
    {f : File} (hf : f ∈ files) : tree.node? f.absolutePath = tree.lookup f := by
  rw [node?, (mem_listFiles h hf).1, Option.bind_some]

theorem sizeOf_listFiles {path : JString} {files : List File} (h : tree.listFiles path = some files) {f : File}
    (hf : f ∈ files) : sizeOf (tree.node? f.absolutePath) < sizeOf (tree.node? path) := by
  obtain ⟨_, p, entries, hp, hnode, e, he, rfl, hlookup⟩ := mem_listFiles h hf
  rw [node?_absolutePath h hf, hlookup, node?, hp, Option.bind_some, hnode]
  have hlt := List.sizeOf_lt_of_mem he
  simp only [Option.some.sizeOf_spec, Node.dir.sizeOf_spec]
  have hsnd : sizeOf e = 1 + sizeOf e.1 + sizeOf e.2 := rfl
  omega

/-- Entries of one directory, all taken together, are smaller than the directory. -/
theorem sum_sizeOf_listFiles {path : JString} {files sub : List File}
    (h : tree.listFiles path = some files) (hsub : sub.Sublist files) :
    (sub.map (fun f => sizeOf (tree.node? f.absolutePath))).sum < sizeOf (tree.node? path) := by
  refine lt_of_le_of_lt ((hsub.map _).sum_le_sum (fun _ _ => Nat.zero_le _)) ?_
  obtain ⟨p, entries, hp, hnode, hfiles⟩ := listFiles_eq_some.mp h
  have hentry : ∀ e ∈ entries, sizeOf (tree.node? (File.absolutePath (p ++ [e.1]))) ≤ sizeOf e := by
    intro e he
    have hmem : p ++ [e.1] ∈ files := hfiles ▸ List.mem_map.mpr ⟨e, he, rfl⟩
    rw [node?_absolutePath h hmem, lookup_append, hnode, Option.bind_some,
      Node.child_of_mem (lookup_valid hnode).1 he]
    have hsnd : sizeOf e = 1 + sizeOf e.1 + sizeOf e.2 := rfl
    simp only [Option.some.sizeOf_spec]
    omega
  have hsum : ∀ es : List (JString × Node), (∀ e ∈ es, e ∈ entries) →
      (es.map (fun e => sizeOf (tree.node? (File.absolutePath (p ++ [e.1]))))).sum ≤ sizeOf es := by
    intro es hes
    induction es with
    | nil => simp
    | cons e es ih =>
        have he := hentry e (hes e List.mem_cons_self)
        have hrest := ih (fun x hx => hes x (List.mem_cons_of_mem _ hx))
        simp only [List.map_cons, List.sum_cons, List.cons.sizeOf_spec]
        omega
  have hall := hsum entries (fun _ h => h)
  rw [hfiles, List.map_map, node?, hp, Option.bind_some, hnode]
  simp only [Option.some.sizeOf_spec, Node.dir.sizeOf_spec, Function.comp_def]
  omega

end FileTree

end MyDemo.Files

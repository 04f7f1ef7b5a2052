import MyDemo.Files.GlideCacheUtil

/-!
# What is left on a disk
-/

namespace MyDemo.Files

variable {tree : FileTree} {fails : File → Bool} {path : JString} {p f g : File} {disk disk' : Disk tree}

namespace FileTree

theorem isSome_above (h : p <+: f) (hf : (tree.lookup f).isSome) : (tree.lookup p).isSome := by
  obtain ⟨names, rfl⟩ := h
  rw [lookup, List.foldlM_append] at hf
  exact Option.isSome_of_isSome_bind hf

/-- The entry of a directory that leads to a file below it. -/
theorem exists_entry (h : p <+: f) (hne : f ≠ p) (hf : (tree.lookup f).isSome) :
    ∃ name, p ++ [name] <+: f ∧ ∃ readable entries, tree.lookup p = some (.dir readable entries) ∧
      p ++ [name] ∈ Disk.entryFiles p entries := by
  obtain ⟨_ | ⟨name, names⟩, rfl⟩ := h
  · exact absurd (List.append_nil p) hne
  · have hprefix : p ++ [name] <+: p ++ name :: names := ⟨names, by rw [List.append_assoc]; rfl⟩
    obtain ⟨c, hc⟩ := Option.isSome_iff_exists.mp (isSome_above hprefix hf)
    rw [lookup_append] at hc
    obtain ⟨node, hnode, hchild⟩ := Option.bind_eq_some_iff.mp hc
    obtain ⟨readable, entries, rfl, hmem⟩ := Node.child_eq_some hchild
    exact ⟨name, hprefix, readable, entries, hnode, List.mem_map.mpr ⟨_, hmem, rfl⟩⟩

end FileTree

namespace Disk

theorem contains_iff : disk.contains f ↔ (tree.lookup f).isSome ∧ f ∉ disk.deleted := by
  rw [contains, Bool.and_eq_true, decide_eq_true_iff]

theorem contains_above (h : p <+: f) (hf : disk.contains f) : disk.contains p := by
  obtain ⟨names, rfl⟩ := h
  induction names using List.reverseRecOn with
  | nil => rwa [List.append_nil] at hf
  | append_singleton names name ih =>
      obtain ⟨hsome, hmem⟩ := contains_iff.mp hf
      rw [← List.append_assoc] at hsome hmem
      refine ih (contains_iff.mpr ⟨FileTree.isSome_above (List.prefix_append _ _) hsome, ?_⟩)
      exact fun hgone => hmem (disk.emptied _ hgone name hsome)

theorem contains_delete : (disk.delete fails p).contains f ↔
    disk.contains f ∧ ¬ (f = p ∧ disk.isEmpty p ∧ ¬ fails p) := by
  rw [delete]
  split
  · next h =>
      have hgone : (f = p ∧ disk.isEmpty p ∧ ¬ fails p) ↔ f = p := and_iff_left h.2
      rw [hgone, contains_iff, contains_iff]
      simp only [List.mem_cons, not_or]
      exact ⟨fun ⟨hf, hne, hmem⟩ => ⟨⟨hf, hmem⟩, hne⟩, fun ⟨⟨hf, hmem⟩, hne⟩ => ⟨hf, hne, hmem⟩⟩
  · next h =>
      refine (and_iff_left_of_imp ?_).symm
      rintro hf ⟨rfl, hempty, hfails⟩
      exact h ⟨hf, hempty, hfails⟩

theorem contains_delete_of_ne (hne : f ≠ p) : (disk.delete fails p).contains f = disk.contains f := by
  rw [Bool.eq_iff_iff, contains_delete]
  exact and_iff_left fun hdelete => hne hdelete.1

theorem isDirectory_of_contains (h : disk.contains f) : disk.isDirectory f = tree.isDirectory f := by
  rw [isDirectory, decide_eq_true (contains_iff.mp h).2, Bool.and_true]

theorem listFiles_of_contains {readable : Bool} {entries : List (JString × Node)}
    (hnode : tree.lookup f = some (.dir readable entries)) (h : disk.contains f) : disk.listFiles f =
      if readable then some ((entryFiles f entries).filter (· ∉ disk.deleted)) else none := by
  rw [listFiles, hnode]
  cases readable with
  | false => rfl
  | true => exact if_neg (contains_iff.mp h).2

theorem isSome_of_mem_entries {readable : Bool} {entries : List (JString × Node)}
    (hnode : tree.lookup p = some (.dir readable entries)) (hf : f ∈ Disk.entryFiles p entries) :
    (tree.lookup f).isSome := by
  obtain ⟨e, he, rfl⟩ := List.mem_map.mp hf
  rw [FileTree.lookup_append, hnode, Option.bind_some, Node.child_of_mem (FileTree.lookup_valid hnode).1 he]
  rfl

theorem below_of_mem_entries {entries : List (JString × Node)} (hf : f ∈ Disk.entryFiles p entries) :
    p <+: f ∧ ¬ f <+: p := by
  obtain ⟨e, _, rfl⟩ := List.mem_map.mp hf
  refine ⟨List.prefix_append _ _, fun hle => ?_⟩
  have hlength := hle.length_le
  simp at hlength

theorem isEmpty_iff {readable : Bool} {entries : List (JString × Node)}
    (hnode : tree.lookup p = some (.dir readable entries)) :
    disk.isEmpty p ↔ ¬ ∃ c ∈ Disk.entryFiles p entries, disk.contains c := by
  simp only [isEmpty, hnode, List.all_eq_true, decide_eq_true_iff]
  constructor
  · rintro h ⟨c, hc, hcontains⟩
    exact (contains_iff.mp hcontains).2 (h c hc)
  · intro h c hc
    by_contra hmem
    exact h ⟨c, hc, contains_iff.mpr ⟨isSome_of_mem_entries hnode hc, hmem⟩⟩

theorem not_isEmpty_of_left {readable : Bool} {entries : List (JString × Node)}
    (hnode : tree.lookup p = some (.dir readable entries))
    (hleft : (entryFiles p entries).filter (· ∉ disk.deleted) ≠ []) : ¬ disk.isEmpty p := by
  obtain ⟨c, hc⟩ := List.exists_mem_of_ne_nil _ hleft
  obtain ⟨hmem, hdeleted⟩ := List.mem_filter.mp hc
  rw [isEmpty_iff hnode, not_not]
  exact ⟨c, hmem, contains_iff.mpr ⟨isSome_of_mem_entries hnode hmem, of_decide_eq_true hdeleted⟩⟩

end Disk

/-! ## What survives -/

/-- An unreadable directory from `p` on leads to `f`, or is `f` itself. -/
def Blocked (tree : FileTree) (p f : File) : Prop :=
  ∃ h, p <+: h ∧ h <+: f ∧ ∃ entries, tree.lookup h = some (.dir false entries)

/-- What the disk still has at and below `p`. -/
def Survivors (fails : File → Bool) (disk : Disk tree) (p : File) : Prop :=
  ∀ f, p <+: f → (tree.lookup f).isSome →
    (disk.contains f ↔ Blocked tree p f ∨ fails f ∨ ∃ g, f <+: g ∧ g ≠ f ∧ disk.contains g)

/-- Nothing is gone at and below `p`. -/
def Untouched (disk : Disk tree) (p : File) : Prop := ∀ f, p <+: f → disk.contains f = (tree.lookup f).isSome

theorem Untouched.below (h : Untouched disk p) (hf : p <+: f) : Untouched disk f := fun g hg => h g (hf.trans hg)

theorem Untouched.filter_entries {readable : Bool} {entries : List (JString × Node)} (h : Untouched disk p)
    (hnode : tree.lookup p = some (.dir readable entries)) :
    (Disk.entryFiles p entries).filter (· ∉ disk.deleted) = Disk.entryFiles p entries := by
  refine List.filter_eq_self.mpr fun c hc => decide_eq_true ?_
  have hcontains := (h c (Disk.below_of_mem_entries hc).1).trans (Disk.isSome_of_mem_entries hnode hc)
  exact (Disk.contains_iff.mp hcontains).2

theorem Untouched.congr (h : Untouched disk p) (hsame : ∀ f, p <+: f → disk'.contains f = disk.contains f) :
    Untouched disk' p := fun f hf => (hsame f hf).trans (h f hf)

theorem Survivors.congr (h : Survivors fails disk p) (hsame : ∀ f, p <+: f → disk'.contains f = disk.contains f) :
    Survivors fails disk' p := by
  intro f hf hsome
  rw [hsame f hf, h f hf hsome]
  have hbelow : ∀ g, (f <+: g ∧ g ≠ f ∧ disk.contains g) ↔ (f <+: g ∧ g ≠ f ∧ disk'.contains g) := by
    intro g
    refine and_congr_right ?_
    intro hg
    rw [hsame g (hf.trans hg)]
  simp only [hbelow]

/-- The entries of a readable directory that is no longer touched. -/
theorem Survivors.of_entries {entries : List (JString × Node)} (hnode : tree.lookup p = some (.dir true entries))
    (h : ∀ c ∈ Disk.entryFiles p entries, Survivors fails disk c)
    (hp : disk.contains p ↔ fails p ∨ ∃ c ∈ Disk.entryFiles p entries, disk.contains c) :
    Survivors fails disk p := by
  intro f hf hsome
  by_cases hfp : f = p
  · subst hfp
    have hblocked : ¬ Blocked tree f f := by
      rintro ⟨h, hle, hge, entries', hdir⟩
      rw [hge.eq_of_length_le hle.length_le, hnode] at hdir
      cases hdir
    rw [hp, or_iff_right hblocked]
    refine or_congr_right ⟨?_, ?_⟩
    · rintro ⟨c, hc, hcontains⟩
      obtain ⟨e, _, rfl⟩ := List.mem_map.mp hc
      exact ⟨_, List.prefix_append _ _, by simp, hcontains⟩
    · rintro ⟨g, hg, hne, hcontains⟩
      obtain ⟨name, hname, readable, entries', hnode', hmem⟩ :=
        FileTree.exists_entry hg hne (Disk.contains_iff.mp hcontains).1
      cases hnode.symm.trans hnode'
      exact ⟨_, hmem, Disk.contains_above hname hcontains⟩
  · obtain ⟨name, hname, readable, entries', hnode', hmem⟩ := FileTree.exists_entry hf hfp hsome
    cases hnode.symm.trans hnode'
    rw [h _ hmem f hname hsome]
    refine or_congr_left ⟨?_, ?_⟩
    · rintro ⟨g, hle, hge, hdir⟩
      exact ⟨g, (List.prefix_append _ _).trans hle, hge, hdir⟩
    · rintro ⟨g, hle, hge, entries', hdir⟩
      have hne : g ≠ p := by
        rintro rfl
        cases hnode.symm.trans hdir
      obtain ⟨_, hname', _⟩ := FileTree.exists_entry hle hne (by rw [hdir]; rfl)
      have hlength := hname'.length_le
      rw [List.length_append, List.length_singleton] at hlength
      refine ⟨g, List.prefix_of_prefix_length_le hname hge ?_, hge, entries', hdir⟩
      rwa [List.length_append, List.length_singleton]

theorem Survivors.of_file (hdir : tree.isDirectory p = false) (h : Untouched disk p) :
    Survivors fails (disk.delete fails p) p := by
  have hdir' : ∀ readable entries, tree.lookup p ≠ some (.dir readable entries) := by
    intro readable entries hnode
    rw [FileTree.isDirectory_iff.mpr ⟨readable, entries, hnode⟩] at hdir
    cases hdir
  have hleaf : ∀ f, p <+: f → (tree.lookup f).isSome → f = p := by
    intro f hf hsome
    by_contra hne
    obtain ⟨_, _, readable, entries, hnode, _⟩ := FileTree.exists_entry hf hne hsome
    exact hdir' readable entries hnode
  intro f hf hsome
  obtain rfl := hleaf f hf hsome
  have hcontains : disk.contains f := (h f hf).trans hsome
  have hempty : disk.isEmpty f := by
    rw [Disk.isEmpty]
    split
    · next readable entries hnode => exact absurd hnode (hdir' readable entries)
    · rfl
  rw [Disk.contains_delete, and_iff_right hcontains, and_iff_right rfl, and_iff_right hempty, not_not]
  constructor
  · exact fun hfails => .inr (.inl hfails)
  · rintro (⟨g, hle, hge, entries, hnode⟩ | hfails | ⟨g, hg, hne, hcontains⟩)
    · exact absurd (hge.eq_of_length_le hle.length_le ▸ hnode) (hdir' false entries)
    · exact hfails
    · exact absurd (hleaf g hg (Disk.contains_iff.mp (Disk.contains_delete.mp hcontains).1).1) hne

end MyDemo.Files

import MyDemo.Files.DirItemAdaper

/-!
# Which rows the directory browser shows
-/

namespace MyDemo.Files

open JArray

namespace DirItemAdaper

variable {data : CarDirectory} {p : ℕ}

theorem length_entries (data : CarDirectory) : ((entries data).length : ℤ) = getItemCount data := by
  rw [entries, getItemCount]
  split
  · rw [List.nil_append, List.length_append, List.length_map, List.length_map]
    omega
  · rw [List.length_append, List.length_append, List.length_singleton, List.length_map, List.length_map]
    omega

/-! ## The rows -/

theorem row_up (hroot : data.root = false) : Row data 0 (.up data.dirPath) := by
  rw [Row, onBindViewHolder, if_neg (by simp [hroot]), if_pos rfl]
  exact ⟨_, rfl, rfl, rfl, rfl⟩

theorem row_directory_root {d : CarDirectory} (hroot : data.root = true) (h : data.directorys[p]? = some d) :
    Row data p (.directory d) := by
  have hp := (List.getElem?_eq_some_iff.mp h).1
  have hget : get data.directorys p = .ok d := get_of_getElem? h rfl
  rw [Row, onBindViewHolder, if_pos hroot, if_pos (by omega), hget, Exn.ok_bind]
  refine ⟨_, rfl, rfl, rfl, ?_⟩
  dsimp only
  rw [hget, Exn.ok_bind, log, Exn.ok_bind, Exn.ok_bind]
  rfl

theorem row_directory {d : CarDirectory} (hroot : data.root = false) (h : data.directorys[p]? = some d) :
    Row data (p + 1) (.directory d) := by
  have hp := (List.getElem?_eq_some_iff.mp h).1
  have hget : get data.directorys (p + 1 - 1) = .ok d := get_of_getElem? h (by omega)
  rw [Row, onBindViewHolder, if_neg (by simp [hroot]), if_neg (by omega), if_pos (by omega), hget, Exn.ok_bind]
  refine ⟨_, rfl, rfl, rfl, ?_⟩
  dsimp only
  rw [hget, Exn.ok_bind, log, Exn.ok_bind, Exn.ok_bind]
  rfl

theorem row_file {f : CarFile} (hroot : data.root = false) (h : data.files[p]? = some f) :
    Row data (p + data.directorys.length + 1) (.file f) := by
  have hget : get data.files (p + data.directorys.length + 1 - 1 - data.directorys.length) = .ok f :=
    get_of_getElem? h (by omega)
  rw [Row, onBindViewHolder, if_neg (by simp [hroot]), if_neg (by omega), if_neg (by omega), hget, Exn.ok_bind]
  refine ⟨_, rfl, rfl, rfl, ?_⟩
  dsimp only
  rw [hget, Exn.ok_bind, Exn.ok_bind]
  rfl

/-! ## The clicks -/

section

variable {callback : Callback} {q q' : ℤ}

theorem callback_of_directory {text : CarDirectory → JString} {d : CarDirectory} (hd : get data.directorys q = .ok d)
    (h : (do
      log (text (← get data.directorys q))
      return Callback.onClick (← get data.directorys q).path) = .ok callback) : callback = .onClick d.path := by
  rw [hd, Exn.ok_bind, log, Exn.ok_bind, Exn.ok_bind] at h
  exact (Except.ok.inj h).symm

theorem callback_of_file
    (h : (do return Callback.onFileClick (← get data.files q).name (← get data.files q').path) = .ok callback) :
    ∃ name path, callback = .onFileClick name path := by
  obtain ⟨f, -, h⟩ := Exn.bind_eq_ok.mp h
  obtain ⟨f', -, h⟩ := Exn.bind_eq_ok.mp h
  exact ⟨_, _, (Except.ok.inj h).symm⟩

/-- What a click on the row `p` can call, and for which rows. -/
theorem callback_cases (h : (onBindViewHolder data p >>= fun item => item.listener data) = .ok callback) :
    (p = 0 ∧ data.root = false ∧ callback = .onBack data.dirPath) ∨
      (∃ i d, data.directorys[i]? = some d ∧ p = i + (if data.root then 0 else 1) ∧ callback = .onClick d.path) ∨
      ∃ name path, callback = .onFileClick name path := by
  obtain ⟨item, hbind, hclick⟩ := Exn.bind_eq_ok.mp h
  rw [onBindViewHolder] at hbind
  split at hbind
  · next hroot =>
      split at hbind
      · obtain ⟨d, hd, hitem⟩ := Exn.bind_eq_ok.mp hbind
        cases hitem
        refine .inr (.inl ⟨p, d, (getElem?_of_get hd).2, ?_, callback_of_directory hd hclick⟩)
        rw [hroot, if_pos rfl, Nat.add_zero]
      · obtain ⟨f, -, hitem⟩ := Exn.bind_eq_ok.mp hbind
        cases hitem
        exact .inr (.inr (callback_of_file hclick))
  · next hroot =>
      split at hbind
      · next hzero =>
          cases hbind
          cases hclick
          exact .inl ⟨by omega, Bool.not_eq_true _ ▸ hroot, rfl⟩
      · split at hbind
        · obtain ⟨d, hd, hitem⟩ := Exn.bind_eq_ok.mp hbind
          cases hitem
          refine .inr (.inl ⟨_, d, (getElem?_of_get hd).2, ?_, callback_of_directory hd hclick⟩)
          rw [if_neg hroot]
          omega
        · obtain ⟨f, -, hitem⟩ := Exn.bind_eq_ok.mp hbind
          cases hitem
          exact .inr (.inr (callback_of_file hclick))

end

/-- Below the subdirectories of the root, a click does not find the path of its own file. -/
theorem listener_of_root {item : ItemDir} {f : CarFile} (hroot : data.root = true) (h : data.files[0]? = some f)
    (hbind : onBindViewHolder data data.directorys.length = .ok item) :
    item.listener data = .error .indexOutOfBounds := by
  have hget : get data.files (data.directorys.length - data.directorys.length) = .ok f :=
    get_of_getElem? h (by omega)
  have hpath : get data.files (data.directorys.length - 1 - data.directorys.length) = .error .indexOutOfBounds :=
    get_of_neg (by omega)
  rw [onBindViewHolder, if_pos hroot, if_neg (by omega), hget, Exn.ok_bind] at hbind
  cases hbind
  dsimp only
  rw [hget, Exn.ok_bind, hpath]
  rfl

theorem row_entries (hfiles : data.root = false ∨ data.files = []) {e : Entry} (h : (entries data)[p]? = some e) :
    Row data p e := by
  cases hroot : data.root with
  | true =>
      have hnil : data.files = [] := hfiles.resolve_left (by simp [hroot])
      rw [entries, hroot, hnil, if_pos rfl, List.nil_append, List.map_nil, List.append_nil, List.getElem?_map] at h
      obtain ⟨d, hd, rfl⟩ := Option.map_eq_some_iff.mp h
      exact row_directory_root hroot hd
  | false =>
      rw [entries, hroot, if_neg (by simp), List.append_assoc, List.singleton_append] at h
      cases p with
      | zero =>
          cases h
          exact row_up hroot
      | succ q =>
          rw [List.getElem?_cons_succ, List.getElem?_append, List.length_map] at h
          split at h
          · rw [List.getElem?_map] at h
            obtain ⟨d, hd, rfl⟩ := Option.map_eq_some_iff.mp h
            exact row_directory hroot hd
          · rw [List.getElem?_map] at h
            obtain ⟨f, hf, rfl⟩ := Option.map_eq_some_iff.mp h
            have hrow := row_file hroot hf
            rwa [show ((q - data.directorys.length : ℕ) : ℤ) + data.directorys.length + 1 = ((q + 1 : ℕ) : ℤ) by
              omega] at hrow

/-- So the first file of the root has no row. -/
theorem not_rows_of_root {rows : List Entry} (hroot : data.root = true) (hfiles : data.files ≠ [])
    (hlength : rows.length = getItemCount data) : ¬ ∀ (p : ℕ) (e : Entry), rows[p]? = some e → Row data p e := by
  intro hrows
  obtain ⟨f, files, hcons⟩ := List.exists_cons_of_ne_nil hfiles
  rw [getItemCount, if_pos hroot, hcons, List.length_cons] at hlength
  have hlt : data.directorys.length < rows.length := by omega
  obtain ⟨item, hbind, -, -, hclick⟩ := hrows _ _ (List.getElem?_eq_getElem hlt)
  rw [listener_of_root hroot (by rw [hcons]; rfl) hbind] at hclick
  cases hclick

/-- The rows are the entries, each once, just if the root has no files. -/
theorem rows_consistent_iff (data : CarDirectory) :
    (∃ rows : List Entry, rows.length = getItemCount data ∧ rows.Perm (entries data) ∧
      ∀ (p : ℕ) (e : Entry), rows[p]? = some e → Row data p e) ↔
    data.root = false ∨ data.files = [] := by
  constructor
  · rintro ⟨rows, hlength, -, hrows⟩
    by_contra hbug
    obtain ⟨hroot, hfiles⟩ := not_or.mp hbug
    rw [Bool.not_eq_false] at hroot
    exact not_rows_of_root hroot hfiles hlength hrows
  · intro hfiles
    exact ⟨entries data, length_entries data, .refl _, fun p e => row_entries hfiles⟩

def rootWithFile : CarDirectory where
  root := true
  dirPath := []
  dirName := []
  name := []
  path := jstring "/"
  directorys := []
  files := [⟨[], jstring "a", jstring "/a"⟩]
  status := FILE_EMPTY

theorem rootWithFile_not_consistent :
    ¬ ∃ rows : List Entry, rows.length = getItemCount rootWithFile ∧ rows.Perm (entries rootWithFile) ∧
      ∀ (p : ℕ) (e : Entry), rows[p]? = some e → Row rootWithFile p e := by
  rintro ⟨rows, hlength, -, hrows⟩
  exact not_rows_of_root rfl (List.cons_ne_nil _ _) hlength hrows

end DirItemAdaper

end MyDemo.Files

import MyDemo.Ijkmedia.IoManager
import MyDemo.Ijkmedia.Lemmas.IoCache
import Mathlib.Data.List.Forall2
import Mathlib.Data.List.Induction

/-!
# The index is read back

The text of a map is a list of lines, each of which is parsed on its own.
-/

namespace MyDemo.Ijkmedia

/-! ## Lines -/

/-- A line with its end that fits into the buffer. -/
def IsLine (l : List Char) : Prop := ∃ body, l = body ++ ['\n'] ∧ '\n' ∉ body ∧ body.length + 1 < CONFIG_MAX_LINE

theorem fgets_line {body : List Char} (h : '\n' ∉ body) (s : List Char) {n : ℕ} (hn : body.length < n) :
    fgets n (body ++ '\n' :: s) = (body ++ ['\n'], s) := by
  induction body generalizing n with
  | nil =>
      obtain ⟨n, rfl⟩ := Nat.exists_eq_add_one_of_ne_zero (Nat.ne_zero_of_lt hn)
      simp [fgets]
  | cons c body ih =>
      obtain ⟨n, rfl⟩ := Nat.exists_eq_add_one_of_ne_zero (Nat.ne_zero_of_lt hn)
      simp only [List.mem_cons, not_or] at h
      simp only [List.length_cons] at hn
      simp [fgets, Ne.symm h.1, ih h.2 (by omega : body.length < n)]

theorem fileLines_flatten {ls : List (List Char)} (h : ∀ l ∈ ls, IsLine l) {n : ℕ} (hn : ls.flatten.length ≤ n) :
    fileLines n ls.flatten = ls := by
  induction ls generalizing n with
  | nil => cases n <;> rfl
  | cons l ls ih =>
      obtain ⟨⟨body, rfl, hbody, hlen⟩, hls⟩ := List.forall_mem_cons.mp h
      simp only [List.flatten_cons, List.length_append, List.length_singleton] at hn
      obtain ⟨n, rfl⟩ := Nat.exists_eq_add_one_of_ne_zero (by omega : n ≠ 0)
      have hne : body ++ ['\n'] ++ ls.flatten ≠ [] := by simp
      have hget := fgets_line hbody ls.flatten (by omega : body.length < CONFIG_MAX_LINE - 1)
      rw [List.flatten_cons, fileLines, List.append_assoc, List.singleton_append]
      · rw [hget, ih hls (by omega)]
      · simp

/-! ## Numbers -/

theorem mem_decimal {v : ℤ} {c : Char} (h : c ∈ decimal v) : c ≠ '\n' := by
  have hdigit : ∀ n, c ∈ Nat.toDigits 10 n → c ≠ '\n' := by
    intro n hc heq
    have := Nat.isDigit_of_mem_toDigits (by decide) (by decide) hc
    rw [heq] at this
    cases this
  cases v with
  | ofNat n => exact hdigit n h
  | negSucc n =>
      rcases List.mem_cons.mp h with rfl | hc
      · decide
      · exact hdigit (n + 1) hc

theorem length_decimal {v : ℤ} (hlo : -(2 ^ 63) ≤ v) (hhi : v ≤ LLONG_MAX) : (decimal v).length ≤ 20 := by
  have hlen : ∀ n : ℕ, n ≤ 2 ^ 63 → (Nat.toDigits 10 n).length ≤ 19 := fun n hn =>
    (Nat.length_toDigits_le_iff (by decide) (by decide)).mpr (by omega)
  rw [LLONG_MAX] at hhi
  cases v with
  | ofNat n => exact (hlen n (by rw [Int.ofNat_eq_natCast] at hhi; omega)).trans (by decide)
  | negSucc n => exact Nat.succ_le_succ (hlen (n + 1) (by omega))

theorem isLine_line {name : String} (hname : '\n' ∉ name.toList) (hlen : name.toList.length ≤ 100) {v : ℤ}
    (hlo : -(2 ^ 63) ≤ v) (hhi : v ≤ LLONG_MAX) : IsLine (line name v) := by
  refine ⟨name.toList ++ decimal v, rfl, ?_, ?_⟩
  · rw [List.mem_append, not_or]
    exact ⟨hname, fun h => mem_decimal h rfl⟩
  · have := length_decimal hlo hhi
    rw [List.length_append, CONFIG_MAX_LINE]
    omega

theorem strtoll_decimal {max n : ℕ} (h : n ≤ max) : strtoll max (decimal n ++ ['\n']) = n := by
  have hdigits : (Nat.toDigits 10 n ++ ['\n']).takeWhile Char.isDigit = Nat.toDigits 10 n := by
    rw [List.takeWhile_append_of_pos fun c hc => Nat.isDigit_of_mem_toDigits (by decide) (by decide) hc]
    simp
  change min max (Nat.ofDigitChars 10 ((Nat.toDigits 10 n ++ ['\n']).takeWhile Char.isDigit) 0) = n
  rw [hdigits, Nat.ofDigitChars_ten_toDigits, min_eq_right h]

theorem strtoll_decimal_neg {max : ℕ} {v : ℤ} (h : v < 0) : strtoll max (decimal v ++ ['\n']) = 0 := by
  obtain ⟨n, rfl⟩ := Int.eq_negSucc_of_lt_zero h
  simp [strtoll, decimal]

theorem strtoll_decimal_int {max : ℕ} {v : ℤ} (h : v ≤ max) : strtoll max (decimal v ++ ['\n']) = v.toNat := by
  rcases Int.lt_or_le v 0 with hneg | hpos
  · rw [strtoll_decimal_neg hneg, Int.toNat_of_nonpos hneg.le]
  · obtain ⟨n, rfl⟩ := Int.eq_ofNat_of_zero_le hpos
    exact strtoll_decimal (by exact_mod_cast h)

/-! ## The lines of a map -/

def entryLines (e : IjkCacheEntry) : List (List Char) :=
  [line "entry_logical_pos:" e.logical_pos, line "entry_physical_pos:" e.physical_pos, line "entry_size:" e.size,
    "entry-info-flush\n".toList]

def headLines (elem : ℤ × IjkCacheTreeInfo) : List (List Char) :=
  [line "tree_index:" elem.1, line "tree_physical_init_pos:" elem.2.physical_init_pos,
    line "tree_physical_size:" elem.2.physical_size, line "tree_file_size:" elem.2.file_size,
    "tree-info-flush\n".toList]

def treeLines (elem : ℤ × IjkCacheTreeInfo) : List (List Char) :=
  headLines elem ++ elem.2.root.toList.flatMap entryLines

theorem foldl_enu_save (es : List IjkCacheEntry) (fp : List Char) :
    es.foldl enu_save fp = fp ++ (es.flatMap entryLines).flatten := by
  induction es generalizing fp with
  | nil => simp
  | cons e es ih => simp [ih, enu_save, entryLines]

theorem save_tree (fp : List Char) (elem : ℤ × IjkCacheTreeInfo) :
    ijkio_manager_save_tree_to_file fp elem = fp ++ if elem.1 ≥ 0 then (treeLines elem).flatten else [] := by
  rw [ijkio_manager_save_tree_to_file]
  split
  · simp [IjkAVTreeNode.enumerate_null, foldl_enu_save, treeLines, headLines]
  · simp

/-- The trees that are written. -/
def saved (m : IjkMap) : IjkMap := m.filter (0 ≤ ·.1)

theorem saveMap_eq (m : IjkMap) : saveMap m = ((saved m).flatMap treeLines).flatten := by
  have hfold : ∀ (m : IjkMap) (fp : List Char), m.foldl ijkio_manager_save_tree_to_file fp =
      fp ++ ((saved m).flatMap treeLines).flatten := by
    intro m
    induction m with
    | nil => simp [saved]
    | cons elem m ih =>
        intro fp
        rw [List.foldl_cons, ih, save_tree]
        simp only [saved, List.filter_cons]
        split
        · next h => rw [if_pos (by simpa using h), List.flatMap_cons, List.flatten_append, List.append_assoc]
        · next h => rw [if_neg (by simpa using h), List.append_nil]
  exact hfold m []

/-! ## Reading the lines -/

theorem ijk_map_put_last {done : IjkMap} {k : ℤ} (h : ∀ a ∈ done, a.1 < k) (info info' : IjkCacheTreeInfo) :
    ijk_map_put (done ++ [(k, info)]) k info' = done ++ [(k, info')] :=
  List.insertKey_append h fun a ha => by rw [List.mem_singleton.mp ha]

theorem ijk_map_put_new {done : IjkMap} {k : ℤ} (h : ∀ a ∈ done, a.1 < k) (info : IjkCacheTreeInfo) :
    ijk_map_put done k info = done ++ [(k, info)] := by
  have hput := List.insertKey_append (e := (k, info)) (r := []) h nofun
  rwa [List.append_nil] at hput

theorem ijk_map_get_last {done : IjkMap} {k : ℤ} (h : ∀ a ∈ done, a.1 < k) (info : IjkCacheTreeInfo) :
    ijk_map_get (done ++ [(k, info)]) k = some info := by
  rw [ijk_map_get, List.atKey_middle h, if_pos rfl]
  rfl

/-- The numbers of a tree are numbers of their types in C. -/
structure Fits (elem : ℤ × IjkCacheTreeInfo) : Prop where
  key : elem.1 ≤ LONG_MAX
  physical_init_pos : elem.2.physical_init_pos ≤ LLONG_MAX
  physical_size : elem.2.physical_size ≤ LLONG_MAX
  file_size_ge : -(2 ^ 63) ≤ elem.2.file_size
  file_size_le : elem.2.file_size ≤ LLONG_MAX
  entries : ∀ e ∈ elem.2.root.toList, e.logical_pos ≤ LLONG_MAX ∧ e.physical_pos ≤ LLONG_MAX ∧ e.size ≤ LLONG_MAX

/-- A restored tree has the same entries. A negative `file_size` is lost. -/
structure Restores (elem elem' : ℤ × IjkCacheTreeInfo) : Prop where
  key : elem'.1 = elem.1
  physical_init_pos : elem'.2.physical_init_pos = elem.2.physical_init_pos
  physical_size : elem'.2.physical_size = elem.2.physical_size
  file_size : elem'.2.file_size = max 0 elem.2.file_size
  entries : elem'.2.root.toList = elem.2.root.toList
  stated : elem'.2.root.Stated

theorem map_fst_eq {m m' : IjkMap} (h : List.Forall₂ Restores m m') : m'.map Prod.fst = m.map Prod.fst := by
  induction h with
  | nil => rfl
  | cons hr _ ih => rw [List.map_cons, List.map_cons, hr.key, ih]

theorem exists_restored {m m' : IjkMap} (h : List.Forall₂ Restores m m') {elem : ℤ × IjkCacheTreeInfo}
    (hmem : elem ∈ m) : ∃ elem' ∈ m', Restores elem elem' := by
  induction h with
  | nil => cases hmem
  | cons hr _ ih =>
      rcases List.mem_cons.mp hmem with rfl | hmem
      · exact ⟨_, List.mem_cons_self, hr⟩
      · obtain ⟨elem', hmem', hr'⟩ := ih hmem
        exact ⟨elem', List.mem_cons_of_mem _ hmem', hr'⟩

theorem increasing_restored {m m' : IjkMap} (h : List.Forall₂ Restores m m') (hinc : m.Increasing Prod.fst) :
    m'.Increasing Prod.fst := by
  have hkeys : (m.map Prod.fst).Pairwise (· < ·) := List.pairwise_map.mpr hinc
  rw [← map_fst_eq h] at hkeys
  exact List.pairwise_map.mp hkeys

namespace Parser

theorem foldl_headLines {p : Parser} (hp : p.stopped = false) {key : ℕ} {info : IjkCacheTreeInfo}
    (hfit : Fits (key, info)) :
    (headLines (key, info)).foldl parseLine p = flushTree { p with
      tree_index := key
      tree_physical_init_pos := info.physical_init_pos
      tree_physical_size := info.physical_size
      last_physical_pos := (p.last_physical_pos + info.physical_size).bmod (2 ^ 64)
      tree_file_size := info.file_size.toNat } := by
  simp [headLines, parseLine, hp, line, ijk_av_strstart, strtoll_decimal (Int.ofNat_le.mp hfit.key),
    strtoll_decimal hfit.physical_init_pos, strtoll_decimal hfit.physical_size, strtoll_decimal_int hfit.file_size_le]

theorem foldl_entryLines {p : Parser} (hp : p.stopped = false) {e : IjkCacheEntry}
    (hfit : e.logical_pos ≤ LLONG_MAX ∧ e.physical_pos ≤ LLONG_MAX ∧ e.size ≤ LLONG_MAX) :
    (entryLines e).foldl parseLine p = flushEntry { p with
      entry_logical_pos := e.logical_pos, entry_physical_pos := e.physical_pos, entry_size := e.size } := by
  simp [entryLines, parseLine, hp, line, ijk_av_strstart, strtoll_decimal hfit.1, strtoll_decimal hfit.2.1,
    strtoll_decimal hfit.2.2]

/-- The tree `elem` is being read; the trees before it are `done`. -/
structure Reading (p : Parser) (done : IjkMap) (elem : ℤ × IjkCacheTreeInfo) : Prop where
  going : p.stopped = false
  current : p.cur_tree_info = some elem.1
  map : p.cache_info_map = done ++ [elem]
  last : ∀ a ∈ done, a.1 < elem.1
  stated : elem.2.root.Stated

theorem Reading.entry {p : Parser} {done : IjkMap} {k : ℤ} {info : IjkCacheTreeInfo}
    (h : p.Reading done (k, info)) {e : IjkCacheEntry}
    (he : (info.root.toList ++ [e]).Increasing IjkCacheEntry.key)
    (hfit : e.logical_pos ≤ LLONG_MAX ∧ e.physical_pos ≤ LLONG_MAX ∧ e.size ≤ LLONG_MAX) :
    ∃ root, root.toList = info.root.toList ++ [e] ∧
      ((entryLines e).foldl parseLine p).Reading done (k, { info with root := root }) ∧
      ((entryLines e).foldl parseLine p).last_physical_pos = p.last_physical_pos := by
  have hread := foldl_entryLines h.going hfit
  obtain ⟨hinc, _, hlast, _⟩ := List.increasing_middle.mp he
  have habsent : info.root.toList.atKey IjkCacheEntry.key e.key = none := List.atKey_none_of_lt hlast
  obtain ⟨root, ret, hins, hst, hlist, hch⟩ :=
    IjkAVTreeNode.insert_absent compares_cmpEntry h.stated hinc habsent e
  have hget := ijk_map_get_last h.last info
  have hput := ijk_map_put_last h.last info { info with root := root }
  have hflush : (entryLines e).foldl parseLine p = { p with
      entry_logical_pos := e.logical_pos, entry_physical_pos := e.physical_pos, entry_size := e.size
      cache_info_map := done ++ [(k, { info with root := root })] } := by
    rw [hread, flushEntry]
    simp only [h.current, h.map, hget, hins, hput]
    simp [h.going, IjkAVTreeNode.isNode]
  rw [hflush]
  refine ⟨root, ?_, ⟨h.going, h.current, rfl, h.last, hst⟩, rfl⟩
  have hkey := List.insertKey_append (r := []) hlast fun _ hmem => absurd hmem List.not_mem_nil
  rw [List.append_nil] at hkey
  rw [hlist, hkey]

theorem Reading.entries {p : Parser} {done : IjkMap} {k : ℤ} {info : IjkCacheTreeInfo}
    (h : p.Reading done (k, info)) (es : List IjkCacheEntry)
    (hes : (info.root.toList ++ es).Increasing IjkCacheEntry.key)
    (hfit : ∀ e ∈ es, e.logical_pos ≤ LLONG_MAX ∧ e.physical_pos ≤ LLONG_MAX ∧ e.size ≤ LLONG_MAX) :
    ∃ root, root.toList = info.root.toList ++ es ∧
      ((es.flatMap entryLines).foldl parseLine p).Reading done (k, { info with root := root }) ∧
      ((es.flatMap entryLines).foldl parseLine p).last_physical_pos = p.last_physical_pos := by
  induction es generalizing p info with
  | nil => exact ⟨info.root, by simp, h, rfl⟩
  | cons e es ih =>
      have hfirst : (info.root.toList ++ [e]).Increasing IjkCacheEntry.key :=
        List.Pairwise.sublist (List.Sublist.append_left (by simp) _) hes
      obtain ⟨root, hroot, hreading, hlast⟩ := h.entry hfirst (hfit e (by simp))
      obtain ⟨root', hroot', hreading', hlast'⟩ := ih hreading (by simpa [hroot] using hes)
        fun e he => hfit e (by simp [he])
      refine ⟨root', by simp [hroot', hroot], ?_, ?_⟩
      · simpa using hreading'
      · simpa [hlast] using hlast'

/-- The trees `done` have been read. -/
structure Done (p : Parser) (done : IjkMap) : Prop where
  going : p.stopped = false
  map : List.Forall₂ Restores done p.cache_info_map
  last_physical_pos : p.last_physical_pos = Int.bmod (done.map (·.2.physical_size)).sum (2 ^ 64)

theorem Done.start : start.Done [] := ⟨rfl, .nil, rfl⟩

theorem Done.tree {p : Parser} {done : IjkMap} (h : p.Done done) {elem : ℤ × IjkCacheTreeInfo} (hfit : Fits elem)
    (hpos : 0 ≤ elem.1) (hinc : (done ++ [elem]).Increasing Prod.fst)
    (hroot : elem.2.root.toList.Increasing IjkCacheEntry.key) :
    ((treeLines elem).foldl parseLine p).Done (done ++ [elem]) := by
  obtain ⟨k, info⟩ := elem
  obtain ⟨key, rfl⟩ := Int.eq_ofNat_of_zero_le hpos
  have hbefore : ∀ a ∈ p.cache_info_map, a.1 < (key : ℤ) := by
    intro a ha
    have hmem : a.1 ∈ done.map Prod.fst := map_fst_eq h.map ▸ List.mem_map_of_mem ha
    obtain ⟨b, hb, hab⟩ := List.mem_map.mp hmem
    rw [← hab]
    exact (List.increasing_middle.mp hinc).2.2.1 b hb
  set header : Parser := { p with
    last_physical_pos := (p.last_physical_pos + info.physical_size).bmod (2 ^ 64)
    cur_tree_info := some (key : ℤ)
    cache_info_map := p.cache_info_map ++
      [((key : ℤ), ⟨.null, info.physical_init_pos, info.physical_size, info.file_size.toNat⟩)]
    tree_index := 0
    tree_physical_init_pos := 0
    tree_physical_size := 0
    tree_file_size := 0 } with hheader
  have hread : (treeLines (key, info)).foldl parseLine p =
      (info.root.toList.flatMap entryLines).foldl parseLine header := by
    rw [treeLines, List.foldl_append, foldl_headLines h.going hfit, flushTree]
    simp only [ijk_map_put_new hbefore]
    rfl
  have hreading : header.Reading p.cache_info_map
      (key, ⟨.null, info.physical_init_pos, info.physical_size, info.file_size.toNat⟩) :=
    ⟨h.going, rfl, rfl, hbefore, trivial⟩
  obtain ⟨root, hlist, hreading', hlast⟩ := hreading.entries info.root.toList (by simpa using hroot)
    hfit.entries
  rw [hread]
  refine ⟨hreading'.going, ?_, ?_⟩
  · rw [hreading'.map]
    refine List.rel_append h.map (.cons ⟨rfl, rfl, rfl, ?_, by simpa using hlist, hreading'.stated⟩ .nil)
    exact (Int.toNat_eq_max _).trans (max_comm _ _)
  · rw [hlast, hheader, List.map_append, List.sum_append, List.map_singleton, List.sum_singleton]
    change (p.last_physical_pos + info.physical_size).bmod (2 ^ 64) = _
    rw [h.last_physical_pos, Int.bmod_add_bmod]

theorem done_trees {m : IjkMap} (hfit : ∀ elem ∈ m, Fits elem) (hpos : ∀ elem ∈ m, 0 ≤ elem.1)
    (hinc : m.Increasing Prod.fst) (hroot : ∀ elem ∈ m, elem.2.root.toList.Increasing IjkCacheEntry.key) :
    ((m.flatMap treeLines).foldl parseLine start).Done m := by
  induction m using List.reverseRecOn with
  | nil => exact .start
  | append_singleton m elem ih =>
      rw [List.flatMap_append, List.foldl_append, List.flatMap_singleton]
      have hbefore := ih (fun a ha => hfit a (by simp [ha])) (fun a ha => hpos a (by simp [ha]))
        (List.increasing_middle.mp hinc).1 fun a ha => hroot a (by simp [ha])
      exact hbefore.tree (hfit elem (by simp)) (hpos elem (by simp)) hinc (hroot elem (by simp))

end Parser

theorem isLine_of_mem_treeLines {elem : ℤ × IjkCacheTreeInfo} (hfit : Fits elem) (hpos : 0 ≤ elem.1)
    {l : List Char} (h : l ∈ treeLines elem) : IsLine l := by
  have hnat : ∀ {name : String} {n : ℕ}, '\n' ∉ name.toList → name.toList.length ≤ 100 → n ≤ LLONG_MAX →
      IsLine (line name n) := fun hname hlen hn => isLine_line hname hlen (by omega) (by omega)
  have hword : ∀ body : List Char, '\n' ∉ body → body.length ≤ 100 → IsLine (body ++ ['\n']) :=
    fun body hbody hlen => ⟨body, rfl, hbody, by rw [CONFIG_MAX_LINE]; omega⟩
  rcases List.mem_append.mp h with h | h
  · simp only [headLines, List.mem_cons, List.not_mem_nil, or_false] at h
    rcases h with rfl | rfl | rfl | rfl | rfl
    · exact isLine_line (by decide) (by decide) (by omega) (hfit.key.trans (by decide))
    · exact hnat (by decide) (by decide) hfit.physical_init_pos
    · exact hnat (by decide) (by decide) hfit.physical_size
    · exact isLine_line (by decide) (by decide) hfit.file_size_ge hfit.file_size_le
    · exact hword "tree-info-flush".toList (by decide) (by decide)
  · obtain ⟨e, he, h⟩ := List.mem_flatMap.mp h
    obtain ⟨hlogical, hphysical, hsize⟩ := hfit.entries e he
    simp only [entryLines, List.mem_cons, List.not_mem_nil, or_false] at h
    rcases h with rfl | rfl | rfl | rfl
    · exact hnat (by decide) (by decide) hlogical
    · exact hnat (by decide) (by decide) hphysical
    · exact hnat (by decide) (by decide) hsize
    · exact hword "entry-info-flush".toList (by decide) (by decide)

/-- What the parser makes of the text of a map. -/
theorem parse_saveMap {m : IjkMap} (hfit : ∀ elem ∈ m, Fits elem) (hinc : m.Increasing Prod.fst)
    (hroot : ∀ elem ∈ m, elem.2.root.toList.Increasing IjkCacheEntry.key) :
    (ijkio_manager_parse_cache_info (saveMap m)).Done (saved m) := by
  have hmem : ∀ elem ∈ saved m, elem ∈ m ∧ 0 ≤ elem.1 := fun elem h => by simpa [saved] using h
  have hlines : ∀ l ∈ (saved m).flatMap treeLines, IsLine l := by
    intro l hl
    obtain ⟨elem, helem, hl⟩ := List.mem_flatMap.mp hl
    exact isLine_of_mem_treeLines (hfit elem (hmem elem helem).1) (hmem elem helem).2 hl
  rw [ijkio_manager_parse_cache_info, saveMap_eq, fileLines_flatten hlines le_rfl]
  exact Parser.done_trees (fun elem h => hfit elem (hmem elem h).1) (fun elem h => (hmem elem h).2) (hinc.filter _)
    fun elem h => hroot elem (hmem elem h).1

end MyDemo.Ijkmedia

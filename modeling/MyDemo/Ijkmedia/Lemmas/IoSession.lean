import MyDemo.Ijkmedia.Lemmas.IoManager

/-!
# What the index needs

The numbers that are saved belong to their types in C, and the file in use is as long as the index says.
-/

namespace MyDemo.Ijkmedia

namespace IjkIOCacheContext

variable {β : Type*} {stream : List β} {c c' : IjkIOCacheContext β}

/-- An `int64_t`. -/
def Int64 (v : ℤ) : Prop := -(2 ^ 63) ≤ v ∧ v ≤ LLONG_MAX

/-- A tree that accounts for the first `last` bytes of the file. -/
structure SizedTree (last : ℕ) (info : IjkCacheTreeInfo) : Prop where
  physical_init_pos : info.physical_init_pos ≤ LLONG_MAX
  physical_size : info.physical_size = last
  file_size : Int64 info.file_size
  entries : ∀ e ∈ info.root.toList, e.logical_pos ≤ LLONG_MAX

/-- The invariant of the index. -/
structure Sized (c : IjkIOCacheContext β) : Prop where
  cache_max_capacity : c.cache_max_capacity ≤ LLONG_MAX
  logical_size : Int64 c.logical_size
  last : c.last_physical_pos ≤ LLONG_MAX
  closed : c.fd = none → c.tree_info = none
  tree : ∀ info, c.tree_info = some info → SizedTree c.last_physical_pos info

theorem SizedTree.null : SizedTree 0 ⟨.null, 0, 0, 0⟩ := ⟨Nat.zero_le _, rfl, ⟨by decide, by decide⟩, nofun⟩

theorem mem_of_insert {root : IjkAVTreeNode IjkCacheEntry} {entry : IjkCacheEntry} {r : Inserted IjkCacheEntry}
    (hst : root.Stated) (hinc : root.toList.Increasing IjkCacheEntry.key)
    (h : IjkAVTreeNode.ijk_av_tree_insert cmpEntry root entry (.alloc entry) = some r) {e : IjkCacheEntry}
    (he : e ∈ r.tree.toList) : e ∈ root.toList ∨ e = entry := by
  obtain ⟨r', hr', _, _, hmem⟩ := exists_insert hst hinc entry
  rw [h, Option.some.injEq] at hr'
  exact hmem e (hr' ▸ he)

/-- The logical positions of the entries are old ones, or that of the new bytes. -/
theorem addToTree_entries {info : IjkCacheTreeInfo} {pos ret : ℕ} {allocated : Bool} {r : IjkIOCacheContext β × ℤ}
    (hinfo : c.tree_info = some info) (hst : info.root.Stated)
    (hinc : info.root.toList.Increasing IjkCacheEntry.key) (h : c.addToTree info pos ret allocated = some r) :
    ∃ root, r.1 = { c with tree_info := some { info with root := root } } ∧ ∀ e ∈ root.toList,
      e.logical_pos = c.read_logical_pos ∨ ∃ e' ∈ info.root.toList, e.logical_pos = e'.logical_pos := by
  rw [addToTree] at h
  split at h
  · next e he =>
      cases h
      refine ⟨_, rfl, fun e₁ he₁ => .inr ?_⟩
      rw [IjkAVTreeNode.toList_map] at he₁
      obtain ⟨e', he', rfl⟩ := List.mem_map.mp he₁
      refine ⟨e', he', ?_⟩
      split
      · next heq => rw [heq]
      · rfl
  · split at h
    · cases h
      exact ⟨info.root, by rw [← hinfo], fun e he => .inr ⟨e, he, rfl⟩⟩
    · simp only at h
      split at h
      · cases h
      · next inserted hins =>
          have hmem : ∀ e ∈ inserted.tree.toList,
              e.logical_pos = c.read_logical_pos ∨ ∃ e' ∈ info.root.toList, e.logical_pos = e'.logical_pos := by
            intro e he
            rcases mem_of_insert hst hinc hins he with he | rfl
            · exact .inr ⟨e, he, rfl⟩
            · exact .inl rfl
          split at h
          · cases h
            exact ⟨_, rfl, hmem⟩
          · cases h
            exact ⟨_, rfl, hmem⟩

/-! ## sync_add_entry -/

theorem Sized.lseek (h : Sized c) (pos : ℕ) : Sized (c.lseek pos) :=
  ⟨h.cache_max_capacity, h.logical_size, h.last, fun hf => h.closed (by simpa [IjkIOCacheContext.lseek] using hf),
    h.tree⟩

theorem Sized.at (h : Sized c) (pos : ℕ) : Sized { c with cache_physical_pos := pos } :=
  ⟨h.cache_max_capacity, h.logical_size, h.last, h.closed, h.tree⟩

theorem Sized.seekLast (h : Sized c) : Sized c.seekLast := by
  rw [IjkIOCacheContext.seekLast]
  split
  · exact (h.lseek _).at _
  · exact h

theorem Sized.overrang (h : Sized c) {f : CacheFile β} {info : IjkCacheTreeInfo} {pos : ℕ}
    (hend : AtEnd stream c f info pos) :
    Sized (c.ijkio_cache_file_overrang pos).1 ∧
      ((c.ijkio_cache_file_overrang pos).2.1 < 0 ∨
        (c.ijkio_cache_file_overrang pos).2 = (c.cache_max_capacity, 0)) := by
  rw [ijkio_cache_file_overrang]
  split
  · exact ⟨h, .inl (show FILE_RW_ERROR < 0 by decide)⟩
  · refine ⟨⟨h.cache_max_capacity, h.logical_size, Nat.zero_le _, fun hf => ?_, fun info' hinfo => ?_⟩, .inr rfl⟩
    · simp [IjkIOCacheContext.lseek, hend.fd] at hf
    · simp only [IjkIOCacheContext.lseek, hend.tree_info, Option.map_some, Option.some.injEq] at hinfo
      subst hinfo
      exact .null

theorem Sized.writeEntry (h : Sized c) {f : CacheFile β} {info : IjkCacheTreeInfo} {pos : ℕ}
    (hend : AtEnd stream c f info pos) (hpos : c.read_logical_pos ≤ LLONG_MAX) {buf : List β}
    (hbuf : pos + buf.length ≤ LLONG_MAX) {a : Answers} {r : IjkIOCacheContext β × ℤ}
    (hr : c.writeEntry pos buf a = some r) : Sized r.1 := by
  rw [IjkIOCacheContext.writeEntry, hend.fd, hend.tree_info] at hr
  cases hw : a.write with
  | none =>
      rw [hw] at hr
      cases hr
      exact h
  | some n =>
      rw [hw] at hr
      simp only at hr
      have htree := h.tree info hend.tree_info
      have hlast := hend.last
      have hlen : (buf.take n).length ≤ buf.length := by simp
      obtain ⟨root, hroot, hentries⟩ := addToTree_entries rfl (by exact hend.indexed.stated)
        (by exact hend.indexed.increasing) hr
      rw [hroot]
      refine ⟨h.cache_max_capacity, h.logical_size, ?_, fun hf => (by cases hf), fun info' hinfo' => ?_⟩
      · change c.last_physical_pos + (buf.take n).length ≤ LLONG_MAX
        omega
      · cases hinfo'
        refine ⟨htree.physical_init_pos, ?_, htree.file_size, fun e he => ?_⟩
        · change info.physical_size + _ = c.last_physical_pos + _
          rw [htree.physical_size]
        · rcases hentries e he with heq | ⟨e', he', heq⟩
          · rw [heq]
            exact hpos
          · rw [heq]
            exact htree.entries e' he'

theorem Sized.sync_add_entry (h : Sized c) (hc : Cached stream c) (hf : c.fd.isSome) (hinfo : c.tree_info.isSome)
    (hpos : c.read_logical_pos ≤ LLONG_MAX) {buf : List β} {a : Answers} {r : IjkIOCacheContext β × ℤ}
    (hr : c.sync_add_entry buf a = some r) : Sized r.1 := by
  obtain ⟨f, hf⟩ := Option.isSome_iff_exists.mp hf
  obtain ⟨info, hinfo⟩ := Option.isSome_iff_exists.mp hinfo
  obtain ⟨hend, hsame⟩ := hc.seekLast hf hinfo
  have hseek := h.seekLast
  have hcap := hseek.cache_max_capacity
  have hpos' : c.seekLast.read_logical_pos ≤ LLONG_MAX := hsame.read_logical_pos ▸ hpos
  rw [IjkIOCacheContext.sync_add_entry] at hr
  simp only [hend.last] at hr
  split at hr
  · obtain ⟨⟨f', info', hend'⟩, hsame'⟩ := hend.overrang
    obtain ⟨hsized, hfree⟩ := hseek.overrang hend
    generalize c.seekLast.ijkio_cache_file_overrang c.last_physical_pos = o at hr hend' hsized hfree hsame'
    obtain ⟨c₁, free_space, pos⟩ := o
    simp only at hr hend' hsized hfree hsame'
    split at hr
    · cases hr
      exact hsized
    · next hle =>
        rcases hfree with hneg | hfree
        · omega
        · cases hfree
          exact hsized.writeEntry hend' (hsame'.read_logical_pos ▸ hpos') (by omega) hr
  · exact hseek.writeEntry hend hpos' (by omega) hr

/-! ## ijkio_cache_sync_read -/

theorem Sized.recreate (h : Sized c) (a : Answers) : Sized (c.recreate a) := by
  refine ⟨h.cache_max_capacity, h.logical_size, Nat.zero_le _, fun hf => ?_, fun info hinfo => ?_⟩
  · simp only [IjkIOCacheContext.recreate] at hf ⊢
    split at hf
    · cases hf
    · next hreopened => simp [hreopened]
  · simp only [IjkIOCacheContext.recreate] at hinfo
    split at hinfo
    · cases hinfo
      exact .null
    · cases hinfo

theorem Sized.seekBlock (h : Sized c) (pos : ℕ) : Sized (c.seekBlock pos) := by
  rw [IjkIOCacheContext.seekBlock]
  split
  · exact (h.lseek pos).at pos
  · exact h.at pos

theorem Sized.readBlock (h : Sized c) (e : IjkCacheEntry) (size : ℕ) (read : Option ℕ) :
    Sized (c.readBlock e size read).1 := by
  have hseek := h.seekBlock (e.physical_pos + (c.read_logical_pos - e.logical_pos))
  simp only [IjkIOCacheContext.readBlock]
  split
  · exact ⟨hseek.cache_max_capacity, hseek.logical_size, hseek.last, fun hf => (by cases hf), hseek.tree⟩
  · exact hseek

theorem Sized.openInner (h : Sized c) {url_size : ℤ} (hsize : Int64 url_size) : Sized (c.openInner url_size) := by
  rw [IjkIOCacheContext.openInner]
  split
  · refine ⟨h.cache_max_capacity, hsize, h.last, fun hf => by rw [h.closed hf]; rfl, fun info hinfo => ?_⟩
    obtain ⟨info', hinfo', rfl⟩ := Option.map_eq_some_iff.mp hinfo
    have htree := h.tree info' hinfo'
    exact ⟨htree.physical_init_pos, htree.physical_size, hsize, htree.entries⟩
  · exact h

theorem Sized.seekInner (h : Sized c) : Sized c.seekInner := by
  rw [IjkIOCacheContext.seekInner]
  split
  · exact ⟨h.cache_max_capacity, h.logical_size, h.last, h.closed, h.tree⟩
  · exact h

theorem Sized.wrapped_url_read (h : Sized c) (stream : List β) (size : ℕ) (url_read : ℤ) :
    Sized (c.wrapped_url_read stream size url_read).1 := by
  rw [IjkIOCacheContext.wrapped_url_read]
  split
  · exact ⟨h.cache_max_capacity, h.logical_size, h.last, h.closed, h.tree⟩
  · exact ⟨h.cache_max_capacity, h.logical_size, h.last, h.closed, h.tree⟩

theorem Sized.fetch (h : Sized c) (hc : Cached stream c) (hopen : c.async_open = false)
    (hinner : c.inner_pos = c.read_logical_pos) (hstream : stream.length ≤ LLONG_MAX) {size : ℕ}
    {next_entry : Option IjkCacheEntry} {a : Answers} {r : IjkIOCacheContext β × List β × ℤ}
    (hr : c.fetch stream size next_entry a = some r) : Sized r.1 := by
  obtain ⟨c', buf, ret, hread, hzero, hcached, hpos, hle, hbytes, hret⟩ :=
    hc.wrapped_url_read hopen hinner (c.toCopy size next_entry) a.url_read
  have hsized : Sized c' := by
    have hsized := h.wrapped_url_read stream (c.toCopy size next_entry) a.url_read
    rwa [hread] at hsized
  simp only [IjkIOCacheContext.fetch, hread] at hr
  split at hr
  · cases hr
    exact hsized
  · next hneg =>
      have hlen : ret = buf.length := hret (by omega)
      have hin : c.read_logical_pos < stream.length := by
        have hpiece := congrArg List.length hbytes
        rw [List.length_piece] at hpiece
        omega
      have hmoved : Sized { c' with read_inner_pos := c'.read_inner_pos + buf.length } :=
        ⟨hsized.cache_max_capacity, hsized.logical_size, hsized.last, hsized.closed, hsized.tree⟩
      split at hr
      · next hcache =>
          obtain ⟨added, hadd, rfl⟩ := Option.map_eq_some_iff.mp hr
          exact hmoved.sync_add_entry hcached hcache.1 hcache.2.1 (by rw [hpos]; omega) hadd
      · cases hr
        exact hmoved

theorem Sized.readInner (h : Sized c) (hc : Cached stream c) (hstream : stream.length ≤ LLONG_MAX) {size : ℕ}
    {next_entry : Option IjkCacheEntry} {freed : Bool} {a : Answers} (hsize : Int64 a.url_size)
    {r : IjkIOCacheContext β × List β × ℤ} (hr : c.readInner stream size next_entry freed a = some r) :
    Sized r.1 := by
  obtain ⟨hpos, hinner, hopen⟩ := openInner_frame c a.url_size
  rw [IjkIOCacheContext.readInner] at hr
  split at hr
  · cases hr
    exact ⟨h.cache_max_capacity, h.logical_size, h.last, h.closed, h.tree⟩
  · split at hr
    · cases hr
      exact h
    · simp only at hr
      split at hr
      · cases hr
        exact h.openInner hsize
      · split at hr
        · cases hr
        · obtain ⟨hcached, hat, _, hlog, hopen'⟩ := (hc.openInner a.url_size).seekInner hopen
          exact (h.openInner hsize).seekInner.fetch hcached hopen' (hat.trans hlog.symm) hstream hr

theorem Sized.sync_read (h : Sized c) (hc : Cached stream c) (hstream : stream.length ≤ LLONG_MAX) {size : ℕ}
    {a : Answers} (hsize : Int64 a.url_size) {r : IjkIOCacheContext β × List β × ℤ}
    (hr : c.ijkio_cache_sync_read stream size a = some r) : Sized r.1 := by
  rw [ijkio_cache_sync_read] at hr
  split at hr
  · cases hr
    exact h
  · simp only at hr
    split at hr
    · next e he =>
        obtain ⟨he, hblock⟩ := Option.filter_eq_some_iff.mp he
        simp only [decide_eq_true_eq] at hblock
        have hsized := h.readBlock e size a.read
        rcases hc.readBlock he hblock.1 hblock.2 size a.read with ⟨_, hread⟩ | ⟨_, c', bytes, hread, _⟩
        · rw [hread] at hr hsized
          exact (hsized.recreate a).readInner ((hc.seekBlock _).recreate a) hstream hsize hr
        · rw [hread] at hr hsized
          cases hr
          exact hsized
    · exact h.readInner hc hstream hsize hr

/-! ## ijkio_cache_open -/

/-- The opened file and the index agree with the stream. -/
structure Opens (stream : List β) (cur_file_no : ℤ) (content : List β) (cache_info_map : IjkMap) (last : ℕ) : Prop where
  le : last ≤ content.length
  last_le : last ≤ LLONG_MAX
  fresh : ijk_map_get cache_info_map cur_file_no = none → last = 0
  tree : ∀ info, ijk_map_get cache_info_map cur_file_no = some info →
    Indexed stream content last info.root ∧ SizedTree last info

theorem Opens.new {cur_file_no : ℤ} (content : List β) : Opens stream cur_file_no content [] 0 :=
  ⟨Nat.zero_le _, Nat.zero_le _, fun _ => rfl, nofun⟩

theorem Opens.openTree {cur_file_no : ℤ} {content : List β} {cache_info_map : IjkMap} {last : ℕ}
    (h : Opens stream cur_file_no content cache_info_map last) (existing : Bool) :
    Indexed stream content last (openTree cache_info_map last cur_file_no existing).1.root ∧
      SizedTree last (openTree cache_info_map last cur_file_no existing).1 ∧
      Int64 (openTree cache_info_map last cur_file_no existing).2.1 := by
  have hzero : Int64 0 := ⟨by decide, by decide⟩
  rw [IjkIOCacheContext.openTree]
  split
  · next hnone =>
      obtain rfl := h.fresh hnone
      exact ⟨.null, .null, hzero⟩
  · next info hsome =>
      obtain ⟨hindexed, hsized⟩ := h.tree info hsome
      split
      · exact ⟨hindexed, hsized, hsized.file_size⟩
      · exact ⟨hindexed, hsized, hzero⟩

theorem Opens.ijkio_cache_open {cur_file_no : ℤ} {content : List β} {p : Parser}
    (h : Opens stream cur_file_no (openFile p.cache_info_map p.last_physical_pos content).1
      (openFile p.cache_info_map p.last_physical_pos content).2.1
      (openFile p.cache_info_map p.last_physical_pos content).2.2.toNat)
    {cache_max_capacity url_size : ℤ} (hcap : cache_max_capacity ≤ LLONG_MAX) (hsize : Int64 url_size)
    (only_read_file : Bool) :
    Cached stream (ijkio_cache_open p content cur_file_no cache_max_capacity url_size only_read_file) ∧
      Sized (ijkio_cache_open p content cur_file_no cache_max_capacity url_size only_read_file) := by
  obtain ⟨hindexed, hsized, hlogical⟩ := h.openTree (decide (p.cache_info_map.length > 0))
  simp only [IjkIOCacheContext.ijkio_cache_open]
  generalize openFile p.cache_info_map p.last_physical_pos content = o at *
  obtain ⟨content, cache_info_map, last⟩ := o
  generalize last.toNat = last at *
  generalize IjkIOCacheContext.openTree cache_info_map last cur_file_no _ = o at *
  obtain ⟨info, logical_size, async_open⟩ := o
  have hfile : Int64 (if (!(decide (logical_size ≤ 0) || !async_open)) = true then logical_size else url_size) := by
    split
    · exact hlogical
    · exact hsize
  refine ⟨AtEnd.cached ⟨rfl, rfl, rfl, rfl, rfl, h.le, hindexed⟩ ?_,
    hcap, hfile, h.last_le, nofun, fun info' hinfo' => ?_⟩
  · simp
  · cases hinfo'
    exact ⟨hsized.physical_init_pos, hsized.physical_size, hfile, hsized.entries⟩

/-! ## Reopening -/

theorem Indexed.take {content : List β} {last n : ℕ} {root : IjkAVTreeNode IjkCacheEntry}
    (h : Indexed stream content last root) (hlast : last ≤ (content.take n).length) :
    Indexed stream (content.take n) last root :=
  ⟨h.stated, h.increasing, fun e he => ⟨(h.holds e he).1.take ((h.holds e he).2.trans hlast), (h.holds e he).2⟩⟩

theorem Sized.fits (h : Sized c) (hc : Cached stream c) {cur_file_no : ℤ} (hno : cur_file_no ≤ LONG_MAX)
    {f : CacheFile β} (hf : c.fd = some f) {info : IjkCacheTreeInfo} (hinfo : c.tree_info = some info) :
    Fits (cur_file_no, info) := by
  have htree := h.tree info hinfo
  have hlast := h.last
  have hsize := htree.physical_size
  refine ⟨hno, htree.physical_init_pos, ?_, htree.file_size.1, htree.file_size.2, fun e he => ?_⟩
  · change info.physical_size ≤ LLONG_MAX
    omega
  · have hle := ((hc.indexed f info hf hinfo).holds e he).2
    exact ⟨htree.entries e he, by omega, by omega⟩

theorem Restores.opens {content : List β} {last length : ℕ} {cur_file_no : ℤ} {info : IjkCacheTreeInfo}
    {elem : ℤ × IjkCacheTreeInfo} (h : Restores (cur_file_no, info) elem)
    (hindexed : Indexed stream content last info.root) (htree : SizedTree last info) (hlast : last ≤ LLONG_MAX)
    (hlong : last ≤ (content.take length).length) : Opens stream cur_file_no (content.take length) [elem] last := by
  obtain ⟨key, restored⟩ := elem
  obtain rfl : key = cur_file_no := h.key
  have hget : ijk_map_get [(key, restored)] key = some restored := by
    have hnone : ∀ a ∈ ([] : IjkMap), a.1 < key := by simp
    exact ijk_map_get_last hnone restored
  refine ⟨hlong, hlast, fun hnone => ?_, fun info' hinfo' => ?_⟩
  · rw [hget] at hnone
    cases hnone
  rw [hget, Option.some.injEq] at hinfo'
  subst hinfo'
  have hentries : restored.root.toList = info.root.toList := h.entries
  have hkept := hindexed.take hlong
  refine ⟨⟨h.stated, hentries ▸ hkept.increasing, hentries ▸ hkept.holds⟩, ?_, ?_, ?_, hentries ▸ htree.entries⟩
  · exact h.physical_init_pos ▸ htree.physical_init_pos
  · exact h.physical_size.trans htree.physical_size
  · have hfile : restored.file_size = max 0 info.file_size := h.file_size
    have hrange := htree.file_size
    rw [hfile]
    rw [Int64] at hrange ⊢
    omega

/-- What the parser reads is what the file agrees with. -/
theorem Sized.opens (h : Sized c) (hc : Cached stream c) {cur_file_no : ℤ} (hno : cur_file_no ≤ LONG_MAX)
    (length : ℕ) :
    let p := ijkio_manager_parse_cache_info (saveMap (c.tree_info.toList.map fun info => (cur_file_no, info)))
    let content := (c.fd.map (·.content.take length)).getD []
    Opens stream cur_file_no (openFile p.cache_info_map p.last_physical_pos content).1
      (openFile p.cache_info_map p.last_physical_pos content).2.1
      (openFile p.cache_info_map p.last_physical_pos content).2.2.toNat := by
  intro p content
  have hempty : p.cache_info_map = [] → p.last_physical_pos = 0 → Opens stream cur_file_no
      (openFile p.cache_info_map p.last_physical_pos content).1
      (openFile p.cache_info_map p.last_physical_pos content).2.1
      (openFile p.cache_info_map p.last_physical_pos content).2.2.toNat := by
    intro hmap hlast
    rw [hmap, hlast]
    exact .new []
  cases hinfo : c.tree_info with
  | none =>
      have hp : p = ijkio_manager_parse_cache_info (saveMap []) := by simp only [p, hinfo]; rfl
      exact hempty (by rw [hp]; rfl) (by rw [hp]; rfl)
  | some info =>
      obtain ⟨f, hf⟩ : ∃ f, c.fd = some f := by
        cases hf : c.fd with
        | none => rw [h.closed hf] at hinfo; cases hinfo
        | some f => exact ⟨f, rfl⟩
      have hindexed := hc.indexed f info hf hinfo
      have htree := h.tree info hinfo
      have hdone : p.Done (saved [(cur_file_no, info)]) := by
        have hp : p = ijkio_manager_parse_cache_info (saveMap [(cur_file_no, info)]) := by simp only [p, hinfo]; rfl
        rw [hp]
        exact parse_saveMap (by simpa using h.fits hc hno hf hinfo) (List.pairwise_singleton _ _)
          (by simpa using hindexed.increasing)
      rcases Int.lt_or_le cur_file_no 0 with hneg | hpos
      · rw [saved, List.filter_cons_of_neg (by simpa using hneg)] at hdone
        exact hempty (List.forall₂_nil_left_iff.mp hdone.map) hdone.last_physical_pos
      · rw [saved, List.filter_cons_of_pos (by simpa using hpos), List.filter_nil] at hdone
        obtain ⟨elem, _, hrestores, hnil, hmap⟩ := List.forall₂_cons_left_iff.mp hdone.map
        rw [List.forall₂_nil_left_iff.mp hnil] at hmap
        have hlast : p.last_physical_pos = c.last_physical_pos := by
          rw [hdone.last_physical_pos, ← htree.physical_size, List.map_singleton, List.sum_singleton]
          change (info.physical_size : ℤ).bmod (2 ^ 64) = info.physical_size
          have hsize := htree.physical_size
          have hle := h.last
          simp only [LLONG_MAX] at hle
          exact Int.bmod_eq_of_le (by omega) (by omega)
        have hcontent : content = f.content.take length := by simp [content, hf]
        rw [openFile, hmap, hlast, hcontent]
        split
        · split
          · exact .new _
          · next hlong =>
              exact Restores.opens hrestores hindexed htree h.last (Int.ofNat_le.mp (Int.not_lt.mp hlong))
        · next hshort => simp at hshort

end IjkIOCacheContext

end MyDemo.Ijkmedia

import MyDemo.Ijkmedia.IoCache
import MyDemo.Ijkmedia.Lemmas.Tree

/-!
# The cache agrees with the stream
-/

namespace MyDemo.Ijkmedia

open List (Agree)

/-- The key of an entry. -/
def IjkCacheEntry.key (e : IjkCacheEntry) : ℤ := e.logical_pos

theorem compares_cmpPos : Compares cmpPos (fun k : ℕ => (k : ℤ)) IjkCacheEntry.key := compares_FFDIFFSIGN _ _

theorem compares_cmpEntry : Compares cmpEntry IjkCacheEntry.key IjkCacheEntry.key := compares_FFDIFFSIGN _ _

namespace IjkIOCacheContext

variable {β : Type*} {stream : List β} {c c' : IjkIOCacheContext β}

/-- The entry is in the file up to `last`, and its bytes are those of the stream. -/
def Holds (stream content : List β) (last : ℕ) (e : IjkCacheEntry) : Prop :=
  Agree content e.physical_pos stream e.logical_pos e.size ∧ e.physical_pos + e.size ≤ last

/-- A tree in order, with entries that hold. -/
structure Indexed (stream content : List β) (last : ℕ) (root : IjkAVTreeNode IjkCacheEntry) : Prop where
  stated : root.Stated
  increasing : root.toList.Increasing IjkCacheEntry.key
  holds : ∀ e ∈ root.toList, Holds stream content last e

/-- The invariant of the cache. -/
structure Cached (stream : List β) (c : IjkIOCacheContext β) : Prop where
  offset : ∀ f, c.fd = some f → f.offset = c.cache_physical_pos
  last : ∀ f, c.fd = some f → c.last_physical_pos ≤ f.content.length
  indexed : ∀ f info, c.fd = some f → c.tree_info = some info →
    Indexed stream f.content c.last_physical_pos info.root
  increasing : ∀ info, c.tree_info = some info → info.root.toList.Increasing IjkCacheEntry.key
  inner : c.read_inner_pos = if c.async_open then 0 else c.inner_pos

theorem Indexed.null {content : List β} {last : ℕ} : Indexed stream content last .null := ⟨trivial, .nil, nofun⟩

theorem Indexed.overwrite {content new : List β} {last : ℕ} {root : IjkAVTreeNode IjkCacheEntry}
    (h : Indexed stream content last root) (hlast : last ≤ content.length) :
    ∀ e ∈ root.toList, Holds stream (content.overwrite last new) last e := fun e he =>
  ⟨(h.holds e he).1.overwrite hlast (h.holds e he).2, (h.holds e he).2⟩

theorem Holds.mono {content : List β} {last last' : ℕ} {e : IjkCacheEntry} (h : Holds stream content last e)
    (hle : last ≤ last') : Holds stream content last' e := ⟨h.1, h.2.trans hle⟩

/-! ## The search -/

theorem mem_of_find {info : IjkCacheTreeInfo} (hinfo : c.tree_info = some info)
    (hinc : info.root.toList.Increasing IjkCacheEntry.key) {e : IjkCacheEntry} (he : c.find.1 = some e) :
    e ∈ info.root.toList := by
  simp only [find, hinfo, IjkAVTreeNode.find_spec compares_cmpPos c.read_logical_pos hinc, Option.map_some,
    Option.getD_some, Option.or_none] at he
  rcases Option.or_eq_some_iff.mp he with hat | ⟨_, hbelow⟩
  · exact (List.mem_of_atKey hat).1
  · exact (hinc.keyBelow_eq_some hbelow).1

/-! ## sync_add_entry -/

theorem exists_insert {root : IjkAVTreeNode IjkCacheEntry} (hst : root.Stated)
    (hinc : root.toList.Increasing IjkCacheEntry.key) (entry : IjkCacheEntry) :
    ∃ r, IjkAVTreeNode.ijk_av_tree_insert cmpEntry root entry (.alloc entry) = some r ∧ r.tree.Stated ∧
      r.tree.toList.Increasing IjkCacheEntry.key ∧ ∀ e ∈ r.tree.toList, e ∈ root.toList ∨ e = entry := by
  cases hat : root.toList.atKey IjkCacheEntry.key entry.key with
  | some d =>
      exact ⟨_, IjkAVTreeNode.insert_present compares_cmpEntry hinc hat rfl, hst, hinc, fun e he => .inl he⟩
  | none =>
      obtain ⟨t, ret, hins, hst', hlist, _⟩ := IjkAVTreeNode.insert_absent compares_cmpEntry hst hinc hat entry
      refine ⟨_, hins, hst', hlist ▸ hinc.insertKey _, fun e he => ?_⟩
      simp only [hlist, List.insertKey, List.mem_append, List.mem_cons, List.mem_filter] at he
      rcases he with he | he | he
      · exact .inl he.1
      · exact .inr he
      · exact .inl he.1

/-- Bytes that agree with the stream at the position have been written at the end of what is in use. -/
theorem Indexed.addToTree {f : CacheFile β} {info : IjkCacheTreeInfo} {pos ret : ℕ}
    (hinfo : c.tree_info = some info) (hst : info.root.Stated)
    (hinc : info.root.toList.Increasing IjkCacheEntry.key)
    (hholds : ∀ e ∈ info.root.toList, Holds stream f.content pos e)
    (hnew : Agree f.content pos stream c.read_logical_pos ret) (allocated : Bool) :
    ∃ info' r, c.addToTree info pos ret allocated = some ({ c with tree_info := some info' }, r) ∧
      Indexed stream f.content (pos + ret) info'.root := by
  rw [IjkIOCacheContext.addToTree]
  split
  · next e he =>
      obtain ⟨he, hadj⟩ := Option.filter_eq_some_iff.mp he
      simp only [decide_eq_true_eq] at hadj
      have hmem := mem_of_find hinfo hinc he
      refine ⟨_, _, rfl, hst.map _, ?_, fun e' he' => ?_⟩
      · rw [IjkAVTreeNode.toList_map]
        refine hinc.map fun a _ => ?_
        split
        · next ha => rw [ha]; rfl
        · rfl
      · rw [IjkAVTreeNode.toList_map] at he'
        obtain ⟨a, ha, rfl⟩ := List.mem_map.mp he'
        split
        · next hae =>
            refine ⟨(hholds e hmem).1.append ?_, ?_⟩
            · rw [hadj.1, hadj.2]
              exact hnew
            · change e.physical_pos + (e.size + ret) ≤ pos + ret
              omega
        · exact (hholds a ha).mono (by omega)
  · split
    · exact ⟨info, _, by rw [← hinfo], hst, hinc, fun e he => (hholds e he).mono (by omega)⟩
    · obtain ⟨r, hins, hst', hinc', hmem⟩ := exists_insert hst hinc ⟨c.read_logical_pos, pos, ret⟩
      have hkeep : Indexed stream f.content (pos + ret) r.tree := by
        refine ⟨hst', hinc', fun e he => ?_⟩
        rcases hmem e he with he | rfl
        · exact (hholds e he).mono (by omega)
        · exact ⟨hnew, le_rfl⟩
      simp only [hins]
      split
      · exact ⟨_, _, rfl, hkeep⟩
      · exact ⟨_, _, rfl, hkeep⟩

/-- Only the part of the context that is about the cache file differs. -/
structure SameStream (c c' : IjkIOCacheContext β) : Prop where
  read_logical_pos : c'.read_logical_pos = c.read_logical_pos
  read_inner_pos : c'.read_inner_pos = c.read_inner_pos
  inner_pos : c'.inner_pos = c.inner_pos
  async_open : c'.async_open = c.async_open

/-- The descriptor stands at `pos`, where the next bytes go. -/
structure AtEnd (stream : List β) (c : IjkIOCacheContext β) (f : CacheFile β) (info : IjkCacheTreeInfo) (pos : ℕ) :
    Prop where
  fd : c.fd = some f
  tree_info : c.tree_info = some info
  offset : f.offset = pos
  cache : c.cache_physical_pos = pos
  last : c.last_physical_pos = pos
  le : pos ≤ f.content.length
  indexed : Indexed stream f.content pos info.root

theorem AtEnd.cached {f : CacheFile β} {info : IjkCacheTreeInfo} {pos : ℕ} (h : AtEnd stream c f info pos)
    (hinner : c.read_inner_pos = if c.async_open then 0 else c.inner_pos) : Cached stream c where
  offset f' hf := by rw [h.fd] at hf; cases hf; rw [h.offset, h.cache]
  last f' hf := by rw [h.fd] at hf; cases hf; rw [h.last]; exact h.le
  indexed f' info' hf hinfo := by
    rw [h.fd] at hf
    rw [h.tree_info] at hinfo
    cases hf
    cases hinfo
    rw [h.last]
    exact h.indexed
  increasing info' hinfo := by rw [h.tree_info] at hinfo; cases hinfo; exact h.indexed.increasing
  inner := hinner

theorem Cached.seekLast {f : CacheFile β} {info : IjkCacheTreeInfo} (h : Cached stream c) (hf : c.fd = some f)
    (hinfo : c.tree_info = some info) :
    AtEnd stream c.seekLast ⟨f.content, c.last_physical_pos⟩ info c.last_physical_pos ∧ SameStream c c.seekLast := by
  have hlast := h.last f hf
  have hindexed := h.indexed f info hf hinfo
  rw [IjkIOCacheContext.seekLast]
  split
  · exact ⟨⟨by simp [lseek, hf], hinfo, rfl, rfl, rfl, hlast, hindexed⟩, rfl, rfl, rfl, rfl⟩
  · next heq =>
      have hoff := h.offset f hf
      simp only [ne_eq, not_not] at heq
      refine ⟨⟨?_, hinfo, rfl, heq.symm, rfl, hlast, hindexed⟩, rfl, rfl, rfl, rfl⟩
      rw [hf, heq, ← hoff]

theorem AtEnd.overrang {f : CacheFile β} {info : IjkCacheTreeInfo} {pos : ℕ} (h : AtEnd stream c f info pos) :
    (∃ f' info', AtEnd stream (c.ijkio_cache_file_overrang pos).1 f' info' (c.ijkio_cache_file_overrang pos).2.2) ∧
      SameStream c (c.ijkio_cache_file_overrang pos).1 := by
  rw [ijkio_cache_file_overrang]
  split
  · exact ⟨⟨f, info, h⟩, rfl, rfl, rfl, rfl⟩
  · exact ⟨⟨⟨f.content, 0⟩, ⟨.null, 0, 0, 0⟩, by simp [lseek, h.fd], by simp [lseek, h.tree_info], rfl, rfl, rfl,
      Nat.zero_le _, .null⟩, rfl, rfl, rfl, rfl⟩

theorem AtEnd.writeEntry {f : CacheFile β} {info : IjkCacheTreeInfo} {pos : ℕ} (h : AtEnd stream c f info pos)
    (hinner : c.read_inner_pos = if c.async_open then 0 else c.inner_pos) {buf : List β}
    (hbuf : buf = stream.piece c.read_logical_pos buf.length) (a : Answers) :
    ∃ c' r, c.writeEntry pos buf a = some (c', r) ∧ Cached stream c' ∧ SameStream c c' := by
  rw [IjkIOCacheContext.writeEntry, h.fd, h.tree_info]
  cases a.write with
  | none => exact ⟨c, _, rfl, h.cached hinner, rfl, rfl, rfl, rfl⟩
  | some n =>
      have hwritten : buf.take n = stream.piece c.read_logical_pos (buf.take n).length := by
        rw [List.length_take, ← List.take_piece, ← hbuf, List.take_eq_take_min]
      obtain ⟨hfd, hinfo, rfl, hcache, hlast, hle, hindexed⟩ := h
      obtain ⟨info', r, hadd, hindexed'⟩ := Indexed.addToTree
        (f := ⟨f.content.overwrite f.offset (buf.take n), f.offset + (buf.take n).length⟩)
        (c := { c with
          fd := some ⟨f.content.overwrite f.offset (buf.take n), f.offset + (buf.take n).length⟩
          cache_physical_pos := c.cache_physical_pos + (buf.take n).length
          last_physical_pos := c.last_physical_pos + (buf.take n).length
          tree_info := some { info with physical_size := info.physical_size + (buf.take n).length } })
        rfl hindexed.stated hindexed.increasing (hindexed.overwrite hle) (Agree.of_overwrite hle hwritten) a.allocated
      refine ⟨_, r, hadd, AtEnd.cached ⟨rfl, rfl, rfl, ?_, ?_, ?_, hindexed'⟩ hinner, rfl, rfl, rfl, rfl⟩
      · rw [hcache]
      · rw [hlast]
      · rw [List.length_overwrite hle]
        exact le_max_right _ _

theorem SameStream.trans {c₁ c₂ c₃ : IjkIOCacheContext β} (h : SameStream c₁ c₂) (h' : SameStream c₂ c₃) :
    SameStream c₁ c₃ where
  read_logical_pos := h'.read_logical_pos.trans h.read_logical_pos
  read_inner_pos := h'.read_inner_pos.trans h.read_inner_pos
  inner_pos := h'.inner_pos.trans h.inner_pos
  async_open := h'.async_open.trans h.async_open

theorem SameStream.inner (h : SameStream c c')
    (hinner : c.read_inner_pos = if c.async_open then 0 else c.inner_pos) :
    c'.read_inner_pos = if c'.async_open then 0 else c'.inner_pos := by
  rw [h.read_inner_pos, h.async_open, h.inner_pos, hinner]

theorem Cached.sync_add_entry (h : Cached stream c) (hf : c.fd.isSome) (hinfo : c.tree_info.isSome) {buf : List β}
    (hbuf : buf = stream.piece c.read_logical_pos buf.length) (a : Answers) :
    ∃ c' r, c.sync_add_entry buf a = some (c', r) ∧ Cached stream c' ∧ SameStream c c' := by
  obtain ⟨f, hf⟩ := Option.isSome_iff_exists.mp hf
  obtain ⟨info, hinfo⟩ := Option.isSome_iff_exists.mp hinfo
  obtain ⟨hend, hsame⟩ := h.seekLast hf hinfo
  rw [IjkIOCacheContext.sync_add_entry]
  simp only [hend.last]
  split
  · obtain ⟨⟨f', info', hend'⟩, hsame'⟩ := hend.overrang
    have hboth := hsame.trans hsame'
    split
    · exact ⟨_, _, rfl, hend'.cached (hboth.inner h.inner), hboth⟩
    · obtain ⟨c', r, hwrite, hcached, hsame''⟩ := hend'.writeEntry (hboth.inner h.inner)
        (hboth.read_logical_pos ▸ hbuf) a
      exact ⟨c', r, hwrite, hcached, hboth.trans hsame''⟩
  · obtain ⟨c', r, hwrite, hcached, hsame'⟩ := hend.writeEntry (hsame.inner h.inner)
      (hsame.read_logical_pos ▸ hbuf) a
    exact ⟨c', r, hwrite, hcached, hsame.trans hsame'⟩

/-! ## ijkio_cache_sync_read -/

/-- What a read at `pos` gives: bytes of the stream, or an error. -/
structure Reads (stream : List β) (pos size : ℕ) (r : IjkIOCacheContext β × List β × ℤ) : Prop where
  cached : Cached stream r.1
  stays : r.1.read_logical_pos = pos
  le : r.2.1.length ≤ size
  bytes : r.2.1 = stream.piece pos r.2.1.length
  ret : r.2.2 = r.2.1.length ∨ r.2.2 < 0 ∧ r.2.1 = []

theorem Reads.nothing {pos size : ℕ} {ret : ℤ} (h : Cached stream c) (hpos : c.read_logical_pos = pos)
    (hret : ret ≤ 0) : Reads stream pos size (c, [], ret) where
  cached := h
  stays := hpos
  le := Nat.zero_le _
  bytes := rfl
  ret := by
    rcases hret.lt_or_eq with hlt | heq
    · exact .inr ⟨hlt, rfl⟩
    · exact .inl heq

theorem Cached.recreate (h : Cached stream c) (a : Answers) : Cached stream (c.recreate a) where
  offset f hf := by
    simp only [IjkIOCacheContext.recreate] at hf
    split at hf
    · cases hf; rfl
    · cases hf
  last f hf := Nat.zero_le _
  indexed f info hf hinfo := by
    simp only [IjkIOCacheContext.recreate] at hinfo
    split at hinfo
    · cases hinfo; exact .null
    · cases hinfo
  increasing info hinfo := by
    simp only [IjkIOCacheContext.recreate] at hinfo
    split at hinfo
    · cases hinfo; exact .nil
    · cases hinfo
  inner := h.inner

theorem Cached.seekBlock_eq (h : Cached stream c) (pos : ℕ) :
    c.seekBlock pos = { c with fd := c.fd.map fun f => { f with offset := pos }, cache_physical_pos := pos } := by
  rw [seekBlock]
  split
  · rfl
  · next heq =>
      simp only [ne_eq, not_not] at heq
      subst heq
      have hfd : c.fd.map (fun f => { f with offset := c.cache_physical_pos }) = c.fd := by
        cases hf : c.fd with
        | none => rfl
        | some f => rw [Option.map_some, ← h.offset f hf]
      rw [hfd]

theorem Cached.seekBlock (h : Cached stream c) (pos : ℕ) : Cached stream (c.seekBlock pos) := by
  rw [h.seekBlock_eq]
  refine ⟨fun f hf => ?_, fun f hf => ?_, fun f info hf hinfo => ?_, h.increasing, h.inner⟩
  · obtain ⟨f', _, rfl⟩ := Option.map_eq_some_iff.mp hf
    rfl
  · obtain ⟨f', hf', rfl⟩ := Option.map_eq_some_iff.mp hf
    exact h.last f' hf'
  · obtain ⟨f', hf', rfl⟩ := Option.map_eq_some_iff.mp hf
    exact h.indexed f' info hf' hinfo

/-- The bytes of a block that contains the position. -/
theorem Cached.readBlock (h : Cached stream c) {e : IjkCacheEntry} (he : c.find.1 = some e)
    (hlt : c.read_logical_pos - e.logical_pos < e.size) (hle : e.logical_pos ≤ c.read_logical_pos) (size : ℕ)
    (read : Option ℕ) :
    (read = none ∨ c.fd = none) ∧
        c.readBlock e size read = (c.seekBlock (e.physical_pos + (c.read_logical_pos - e.logical_pos)), none) ∨
      ¬(read = none ∨ c.fd = none) ∧ ∃ c' bytes, c.readBlock e size read = (c', some bytes) ∧
        Reads stream c.read_logical_pos size (c', bytes, bytes.length) := by
  have hseek := h.seekBlock (e.physical_pos + (c.read_logical_pos - e.logical_pos))
  have heq := h.seekBlock_eq (e.physical_pos + (c.read_logical_pos - e.logical_pos))
  cases read with
  | none => exact .inl ⟨.inl rfl, rfl⟩
  | some n =>
      cases hf : c.fd with
      | none => exact .inl ⟨.inr rfl, by simp [IjkIOCacheContext.readBlock, heq, hf]⟩
      | some f =>
          obtain ⟨info, hinfo⟩ : ∃ info, c.tree_info = some info := by
            cases hinfo : c.tree_info with
            | none => simp [find, hinfo] at he
            | some info => exact ⟨info, rfl⟩
          have hindexed := h.indexed f info hf hinfo
          have hagree := (hindexed.holds e (mem_of_find hinfo hindexed.increasing he)).1
          rw [hf, Option.map_some] at heq
          rw [heq] at hseek
          refine .inr ⟨by simp, _, _, by simp only [IjkIOCacheContext.readBlock, heq]; rfl, ?_⟩
          refine ⟨?_, rfl, ?_, ?_, .inl rfl⟩
          · refine ⟨fun f' hf' => ?_, fun f' hf' => ?_, fun f' info' hf' hinfo' => ?_, h.increasing, h.inner⟩
            · cases hf'; rfl
            · cases hf'; exact h.last f hf
            · cases hf'; exact h.indexed f info' hf hinfo'
          · rw [List.length_piece]
            omega
          · have hsub := hagree.sub (k := c.read_logical_pos - e.logical_pos)
              (j := min n (min size (e.size - (c.read_logical_pos - e.logical_pos)))) (by omega)
            rw [show e.logical_pos + (c.read_logical_pos - e.logical_pos) = c.read_logical_pos by omega] at hsub
            have hlen := hsub.le
            rw [List.length_piece, Nat.min_eq_left (by omega)]
            exact hsub.eq

theorem Cached.openInner (h : Cached stream c) (url_size : ℤ) : Cached stream (c.openInner url_size) := by
  rw [IjkIOCacheContext.openInner]
  split
  · next hopen =>
      refine ⟨h.offset, h.last, fun f info hf hinfo => ?_, fun info hinfo => ?_, ?_⟩
      · obtain ⟨info', hinfo', rfl⟩ := Option.map_eq_some_iff.mp hinfo
        exact h.indexed f info' hf hinfo'
      · obtain ⟨info', hinfo', rfl⟩ := Option.map_eq_some_iff.mp hinfo
        exact h.increasing info' hinfo'
      · simpa [hopen] using h.inner
  · exact h

theorem openInner_frame (c : IjkIOCacheContext β) (url_size : ℤ) :
    (c.openInner url_size).read_logical_pos = c.read_logical_pos ∧
      (c.openInner url_size).read_inner_pos = c.read_inner_pos ∧ (c.openInner url_size).async_open = false := by
  rw [openInner]
  split
  · exact ⟨rfl, rfl, rfl⟩
  · next hopen => exact ⟨rfl, rfl, by simpa using hopen⟩

theorem Cached.seekInner (h : Cached stream c) (hopen : c.async_open = false) :
    Cached stream c.seekInner ∧ c.seekInner.inner_pos = c.read_logical_pos ∧
      c.seekInner.read_inner_pos = c.read_logical_pos ∧ c.seekInner.read_logical_pos = c.read_logical_pos ∧
      c.seekInner.async_open = false := by
  have hinner := h.inner
  rw [hopen] at hinner
  rw [IjkIOCacheContext.seekInner]
  split
  · exact ⟨⟨h.offset, h.last, h.indexed, h.increasing, by simp [hopen]⟩, rfl, rfl, rfl, hopen⟩
  · next heq =>
      simp only [ne_eq, not_not] at heq
      exact ⟨h, by rw [← heq, hinner]; rfl, heq, rfl, hopen⟩

theorem toCopy_le (c : IjkIOCacheContext β) (size : ℕ) (next_entry : Option IjkCacheEntry) :
    c.toCopy size next_entry ≤ size := by
  rw [toCopy.eq_def]
  split
  · split <;> omega
  · exact le_rfl

/-- The inner protocol stands at the position. -/
theorem Cached.wrapped_url_read (h : Cached stream c) (hopen : c.async_open = false)
    (hinner : c.inner_pos = c.read_logical_pos) (size : ℕ) (url_read : ℤ) :
    ∃ c' buf ret, c.wrapped_url_read stream size url_read = (c', buf, ret) ∧ (ret ≤ 0 → Cached stream c') ∧
      Cached stream { c' with read_inner_pos := c'.read_inner_pos + buf.length } ∧
      c'.read_logical_pos = c.read_logical_pos ∧ buf.length ≤ size ∧
      buf = stream.piece c.read_logical_pos buf.length ∧ (0 < ret → ret = buf.length) := by
  have hread : c.read_inner_pos = c.inner_pos := by rw [h.inner, hopen]; rfl
  rw [IjkIOCacheContext.wrapped_url_read]
  split
  · next hneg =>
      have hcached : Cached stream { c with inner_io_error := url_read } :=
        ⟨h.offset, h.last, h.indexed, h.increasing, h.inner⟩
      exact ⟨_, _, _, rfl, fun _ => hcached, hcached, rfl, Nat.zero_le _, rfl, fun hpos => absurd hpos hneg.not_gt⟩
  · refine ⟨_, _, _, rfl, fun hzero => ⟨h.offset, h.last, h.indexed, h.increasing, ?_⟩,
      ⟨h.offset, h.last, h.indexed, h.increasing, ?_⟩, rfl, ?_, ?_, fun _ => rfl⟩
    · simp only [hopen, Bool.false_eq_true, if_false]
      omega
    · simp only [hopen, Bool.false_eq_true, if_false]
      omega
    · rw [List.length_piece]
      omega
    · rw [← hinner, List.piece_length_self]

theorem Cached.fetch (h : Cached stream c) (hopen : c.async_open = false) (hinner : c.inner_pos = c.read_logical_pos)
    (size : ℕ) (next_entry : Option IjkCacheEntry) (a : Answers) :
    ∃ r, c.fetch stream size next_entry a = some r ∧ Reads stream c.read_logical_pos size r := by
  obtain ⟨c', buf, ret, hread, hzero, hcached, hpos, hle, hbytes, hret⟩ :=
    h.wrapped_url_read hopen hinner (c.toCopy size next_entry) a.url_read
  have hsize := hle.trans (toCopy_le c size next_entry)
  simp only [IjkIOCacheContext.fetch, hread]
  split
  · next hneg => exact ⟨_, rfl, .nothing (hzero hneg) hpos hneg⟩
  · next hneg =>
      have hlen := hret (by omega)
      split
      · next hcache =>
          obtain ⟨c'', r, hadd, hcached', hsame⟩ := hcached.sync_add_entry hcache.1 hcache.2.1 (hpos ▸ hbytes) a
          rw [hadd]
          exact ⟨_, rfl, hcached', hsame.read_logical_pos.trans hpos, hsize, hbytes, .inl hlen⟩
      · exact ⟨_, rfl, hcached, hpos, hsize, hbytes, .inl hlen⟩

/-- The call comes as far as the comparison with `next_entry`. -/
def Compared (c : IjkIOCacheContext β) (a : Answers) : Prop :=
  (c.read_logical_pos : ℤ) < c.logical_size ∧ ¬(c.async_open ∧ a.url_open2 ≠ 0) ∧
    ¬(c.read_inner_pos ≠ c.read_logical_pos ∧ a.url_seek < 0)

theorem Cached.readInner (h : Cached stream c) (size : ℕ) (next_entry : Option IjkCacheEntry) (freed : Bool)
    (a : Answers) :
    (c.readInner stream size next_entry freed a = none ∧ freed = true ∧ next_entry.isSome ∧ c.Compared a) ∨
      (∃ r, c.readInner stream size next_entry freed a = some r ∧ Reads stream c.read_logical_pos size r ∧
        ¬(freed = true ∧ next_entry.isSome ∧ c.Compared a)) := by
  obtain ⟨hpos, hinner, hopen⟩ := openInner_frame c a.url_size
  rw [IjkIOCacheContext.readInner]
  split
  · next hge =>
      refine .inr ⟨_, rfl, .nothing ⟨h.offset, h.last, h.indexed, h.increasing, h.inner⟩ rfl le_rfl, ?_⟩
      rintro ⟨_, _, hlt, _⟩
      omega
  · next hlt =>
      split
      · next hfail =>
          exact .inr ⟨_, rfl, .nothing h rfl a.url_open2_le, fun hc => hc.2.2.2.1 hfail⟩
      · next hopened =>
          simp only [hpos, hinner]
          split
          · next hfail =>
              exact .inr ⟨_, rfl, .nothing (h.openInner _) hpos hfail.2.le, fun hc => hc.2.2.2.2 hfail⟩
          · next hseek =>
              split
              · next hfreed => exact .inl ⟨rfl, hfreed.1, hfreed.2, by omega, hopened, hseek⟩
              · next hfreed =>
                  obtain ⟨hcached, hat, _, hlog, hopen'⟩ := (h.openInner a.url_size).seekInner hopen
                  obtain ⟨r, hr, hreads⟩ := hcached.fetch hopen' (hat.trans hlog.symm) size next_entry a
                  rw [hlog, hpos] at hreads
                  exact .inr ⟨r, hr, hreads, fun hc => hfreed ⟨hc.1, hc.2.1⟩⟩

/-- A block cannot be read, the entry after it is gone with the tree, and is compared with all the same. -/
def ReadsFreed (c : IjkIOCacheContext β) (size : ℕ) (a : Answers) : Prop :=
  size ≠ 0 ∧ (∃ e, c.find.1 = some e ∧ c.read_logical_pos - e.logical_pos < e.size ∧
    e.logical_pos ≤ c.read_logical_pos) ∧ (a.read = none ∨ c.fd = none) ∧ c.find.2.next.isSome ∧ c.Compared a

theorem Cached.sync_read (h : Cached stream c) (size : ℕ) (a : Answers) :
    (c.ijkio_cache_sync_read stream size a = none ∧ c.ReadsFreed size a) ∨
      (∃ r, c.ijkio_cache_sync_read stream size a = some r ∧ Reads stream c.read_logical_pos size r ∧
        ¬c.ReadsFreed size a) := by
  rw [ijkio_cache_sync_read]
  split
  · next hsize => exact .inr ⟨_, rfl, .nothing h rfl le_rfl, fun hf => hf.1 hsize⟩
  · next hsize =>
      simp only
      split
      · next e he =>
          obtain ⟨he, hblock⟩ := Option.filter_eq_some_iff.mp he
          simp only [decide_eq_true_eq] at hblock
          rcases h.readBlock he hblock.1 hblock.2 size a.read with
            ⟨hfail, hread⟩ | ⟨hnot, c', bytes, hread, hreads⟩
          · simp only [hread]
            have hcompared :
                ((c.seekBlock (e.physical_pos + (c.read_logical_pos - e.logical_pos))).recreate a).Compared a ↔
                c.Compared a := by
              rw [h.seekBlock_eq]
              rfl
            have hpos : ((c.seekBlock (e.physical_pos + (c.read_logical_pos - e.logical_pos))).recreate
                a).read_logical_pos = c.read_logical_pos := by
              rw [h.seekBlock_eq]
              rfl
            rcases ((h.seekBlock _).recreate a).readInner size c.find.2.next true a with
              ⟨hnone, _, hnext, hcmp⟩ | ⟨r, hr, hreads, hnot⟩
            · exact .inl ⟨hnone, hsize, ⟨e, he, hblock⟩, hfail, hnext, hcompared.mp hcmp⟩
            · exact .inr ⟨r, hr, hpos ▸ hreads, fun hf => hnot ⟨rfl, hf.2.2.2.1, hcompared.mpr hf.2.2.2.2⟩⟩
          · simp only [hread]
            exact .inr ⟨_, rfl, hreads, fun hf => hnot hf.2.2.1⟩
      · next hnone =>
          rcases h.readInner size c.find.2.next false a with ⟨_, hfreed, _⟩ | ⟨r, hr, hreads, _⟩
          · cases hfreed
          · refine .inr ⟨r, hr, hreads, fun hf => ?_⟩
            obtain ⟨e, he, hblock⟩ := hf.2.1
            rw [he, Option.filter_some, if_pos (by simpa using hblock)] at hnone
            cases hnone

end IjkIOCacheContext

end MyDemo.Ijkmedia

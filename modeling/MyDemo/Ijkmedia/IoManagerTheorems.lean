import MyDemo.Ijkmedia.IoCacheTheorems
import MyDemo.Ijkmedia.Lemmas.IoSession

/-!
# The cache over many sessions
-/

namespace MyDemo.Ijkmedia

open Transition

/-! ## The index file -/

/-- Every tree with a number that is not negative comes back from the text of the map with the same sizes, and finds
the same entries; `file_size` is not negative afterwards. No other tree comes back. -/
theorem index_read_back {m : IjkMap} (hfit : ∀ elem ∈ m, Fits elem) (hinc : m.Increasing Prod.fst)
    (hroot : ∀ elem ∈ m, elem.2.root.toList.Increasing IjkCacheEntry.key) :
    let p := ijkio_manager_parse_cache_info (saveMap m)
    p.stopped = false ∧ p.last_physical_pos = Int.bmod ((saved m).map (·.2.physical_size)).sum (2 ^ 64) ∧
      p.cache_info_map.map Prod.fst = (saved m).map Prod.fst ∧
      ∀ k info, (k, info) ∈ saved m → ∃ info', ijk_map_get p.cache_info_map k = some info' ∧
        info'.physical_init_pos = info.physical_init_pos ∧ info'.physical_size = info.physical_size ∧
        info'.file_size = max 0 info.file_size ∧ info'.root.Stated ∧
        ∀ pos next, IjkAVTreeNode.ijk_av_tree_find cmpPos pos info'.root next =
          IjkAVTreeNode.ijk_av_tree_find cmpPos pos info.root next := by
  intro p
  have hdone : p.Done (saved m) := parse_saveMap hfit hinc hroot
  refine ⟨hdone.going, hdone.last_physical_pos, map_fst_eq hdone.map, fun k info hmem => ?_⟩
  have hrootk := hroot (k, info) (List.mem_filter.mp hmem).1
  obtain ⟨⟨k', info'⟩, hmem', hrestores⟩ := exists_restored hdone.map hmem
  obtain rfl : k' = k := hrestores.key
  have hkeys : p.cache_info_map.Increasing Prod.fst := increasing_restored hdone.map (hinc.filter _)
  have hentries : info'.root.toList = info.root.toList := hrestores.entries
  have hget : p.cache_info_map.atKey Prod.fst k' = some (k', info') := hkeys.atKey_of_mem hmem'
  refine ⟨info', ?_, hrestores.physical_init_pos, hrestores.physical_size, hrestores.file_size, hrestores.stated,
    fun pos next => ?_⟩
  · rw [ijk_map_get, hget]
    rfl
  · rw [IjkAVTreeNode.find_spec compares_cmpPos pos (hentries ▸ hrootk),
      IjkAVTreeNode.find_spec compares_cmpPos pos hrootk, hentries]

/-- The index of two trees, one of which has a negative number. -/
def twoTrees : IjkMap :=
  [(-1, ⟨.null, 0, 3, 5⟩), (7, ⟨.node .null ⟨0, 0, 2⟩ 1 (.alloc ⟨4, 2, 2⟩), 3, 4, -38⟩)]

theorem twoTrees_read_back : ∃ info', ijk_map_get (ijkio_manager_parse_cache_info (saveMap twoTrees)).cache_info_map 7 =
    some info' ∧ info'.file_size = 0 := by
  have hback := index_read_back (m := twoTrees) (by
    intro elem helem
    simp only [twoTrees, List.mem_cons, List.not_mem_nil, or_false] at helem
    rcases helem with rfl | rfl
    · exact ⟨by decide, by decide, by decide, by decide, by decide, by decide⟩
    · exact ⟨by decide, by decide, by decide, by decide, by decide, by decide⟩) (by decide) (by decide)
  obtain ⟨_, _, _, hget⟩ := hback
  obtain ⟨info', hinfo', _, _, hfile, _⟩ := hget 7 _
    (List.mem_filter.mpr ⟨List.mem_cons_of_mem _ List.mem_cons_self, rfl⟩)
  exact ⟨info', hinfo', hfile⟩

namespace IjkIOCacheContext

variable {β : Type*} {stream : List β} {c c' : IjkIOCacheContext β}

/-! ## Sessions -/

inductive Event where
  | call (call : Call)
  | reopen (length : ℕ) (cache_max_capacity url_size : ℤ) (only_read_file : Bool)
  deriving DecidableEq, Repr

def sessionStep (stream : List β) (cur_file_no : ℤ) (c : IjkIOCacheContext β) : Event → Option (IjkIOCacheContext β)
  | .call call => c.step stream call
  | .reopen length cache_max_capacity url_size only_read_file =>
      some (c.reopen cur_file_no length cache_max_capacity url_size only_read_file)

/-- The sizes that come with the event are of the type `int64_t`. -/
def Event.InRange : Event → Prop
  | .call (.ijkio_cache_read _ a) => Int64 a.url_size
  | .call _ => True
  | .reopen _ cache_max_capacity url_size _ => cache_max_capacity ≤ LLONG_MAX ∧ Int64 url_size

def Event.Delivers (stream : List β) (c : IjkIOCacheContext β) : Event → Prop
  | .call op => IjkIOCacheContext.Delivers stream c op
  | .reopen .. => True

theorem Sized.opened {logical_size cache_max_capacity : ℤ} (hcap : cache_max_capacity ≤ LLONG_MAX)
    (hsize : Int64 logical_size) (only_read_file shared : Bool) :
    Sized (opened logical_size cache_max_capacity only_read_file shared : IjkIOCacheContext β) := by
  refine ⟨hcap, hsize, Nat.zero_le _, nofun, fun info hinfo => ?_⟩
  cases hinfo
  exact ⟨Nat.zero_le _, rfl, hsize, nofun⟩

theorem Sized.seek (h : Sized c) (pos : ℤ) (whence : Whence) : Sized (c.ijkio_cache_seek pos whence).1 := by
  have hto : ∀ n : ℤ, Sized
      (if n < 0 then (c, IJKAVERROR_EINVAL) else ({ c with read_logical_pos := n.toNat }, n)).1 := by
    intro n
    split
    · exact h
    · exact ⟨h.cache_max_capacity, h.logical_size, h.last, h.closed, h.tree⟩
  cases whence with
  | IJKAVSEEK_SIZE => exact h
  | SEEK_CUR => exact hto _
  | SEEK_SET => exact hto _
  | other => exact h

theorem sized_step (h : Sized c) (hc : Cached stream c) (hstream : stream.length ≤ LLONG_MAX) {call : Call}
    (hrange : Event.InRange (.call call)) (hs : c.step stream call = some c') : Sized c' := by
  cases call with
  | ijkio_cache_read size a =>
      obtain ⟨r, hr, rfl⟩ := Option.map_eq_some_iff.mp hs
      rw [IjkIOCacheContext.ijkio_cache_read] at hr
      obtain ⟨r', hr', rfl⟩ := Option.map_eq_some_iff.mp hr
      have hsync := h.sync_read hc hstream hrange hr'
      exact ⟨hsync.cache_max_capacity, hsync.logical_size, hsync.last, hsync.closed, hsync.tree⟩
  | ijkio_cache_seek pos whence =>
      cases hs
      exact h.seek pos whence
  | share shared =>
      cases hs
      exact ⟨h.cache_max_capacity, h.logical_size, h.last, h.closed, h.tree⟩

theorem Sized.reopen (h : Sized c) (hc : Cached stream c) {cur_file_no : ℤ} (hno : cur_file_no ≤ LONG_MAX)
    (length : ℕ) {cache_max_capacity url_size : ℤ} (hcap : cache_max_capacity ≤ LLONG_MAX) (hsize : Int64 url_size)
    (only_read_file : Bool) :
    Cached stream (c.reopen cur_file_no length cache_max_capacity url_size only_read_file) ∧
      Sized (c.reopen cur_file_no length cache_max_capacity url_size only_read_file) :=
  Opens.ijkio_cache_open (h.opens hc hno length) hcap hsize only_read_file

theorem kept_step {cur_file_no : ℤ} (hno : cur_file_no ≤ LONG_MAX) (hstream : stream.length ≤ LLONG_MAX)
    {e : Event} (hrange : e.InRange) (h : Cached stream c ∧ Sized c)
    (hs : c.sessionStep stream cur_file_no e = some c') : Cached stream c' ∧ Sized c' := by
  cases e with
  | call call => exact ⟨cached_step h.1 hs, sized_step h.2 h.1 hstream hrange hs⟩
  | reopen length cache_max_capacity url_size only_read_file =>
      cases hs
      exact h.2.reopen h.1 hno length hrange.1 hrange.2 only_read_file

end IjkIOCacheContext

end MyDemo.Ijkmedia

import MyDemo.Ijkmedia.Lemmas.IoCache
import MyDemo.Lib.Transition

/-!
# Reading through the cache is reading the stream
-/

namespace MyDemo.Ijkmedia

open Transition

namespace IjkIOCacheContext

variable {β : Type*} {stream : List β} {c c' : IjkIOCacheContext β}

/-- A cache with a new file. -/
def opened (logical_size cache_max_capacity : ℤ) (only_read_file shared : Bool) : IjkIOCacheContext β where
  fd := some ⟨[], 0⟩
  tree_info := some ⟨.null, 0, 0, logical_size⟩
  logical_size := logical_size
  read_logical_pos := 0
  read_inner_pos := 0
  cache_physical_pos := 0
  last_physical_pos := 0
  cache_max_capacity := cache_max_capacity
  cache_count_bytes := 0
  io_eof_reached := false
  inner_io_error := 0
  async_open := false
  only_read_file := only_read_file
  shared := shared
  inner_pos := 0

inductive Call where
  | ijkio_cache_read (size : ℕ) (a : Answers)
  | ijkio_cache_seek (pos : ℤ) (whence : Whence)
  | share (shared : Bool)
  deriving DecidableEq, Repr

/-- The caches of other players may begin and cease to share the file between two calls. -/
def step (stream : List β) (c : IjkIOCacheContext β) : Call → Option (IjkIOCacheContext β)
  | .ijkio_cache_read size a => (c.ijkio_cache_read stream size a).map (·.1)
  | .ijkio_cache_seek pos whence => some (c.ijkio_cache_seek pos whence).1
  | .share shared => some { c with shared := shared }

theorem Cached.opened (logical_size cache_max_capacity : ℤ) (only_read_file shared : Bool) :
    Cached stream (opened logical_size cache_max_capacity only_read_file shared) where
  offset f hf := by cases hf; rfl
  last f hf := Nat.zero_le _
  indexed f info hf hinfo := by cases hinfo; exact .null
  increasing info hinfo := by cases hinfo; exact .nil
  inner := rfl

theorem Cached.move (h : Cached stream c) (pos : ℕ) : Cached stream { c with read_logical_pos := pos } :=
  ⟨h.offset, h.last, h.indexed, h.increasing, h.inner⟩

theorem Cached.seek (h : Cached stream c) (pos : ℤ) (whence : Whence) :
    Cached stream (c.ijkio_cache_seek pos whence).1 := by
  have hto : ∀ n : ℤ, Cached stream
      (if n < 0 then (c, IJKAVERROR_EINVAL) else ({ c with read_logical_pos := n.toNat }, n)).1 := by
    intro n
    split
    · exact h
    · exact h.move _
  cases whence with
  | IJKAVSEEK_SIZE => exact h
  | SEEK_CUR => exact hto _
  | SEEK_SET => exact hto _
  | other => exact h

theorem Cached.read (h : Cached stream c) {size : ℕ} {a : Answers} {r : IjkIOCacheContext β × List β × ℤ}
    (hr : c.ijkio_cache_read stream size a = some r) :
    Cached stream r.1 ∧ r.2.1.length ≤ size ∧ r.2.1 = stream.piece c.read_logical_pos r.2.1.length ∧
      r.1.read_logical_pos = c.read_logical_pos + r.2.1.length ∧ (r.2.2 = r.2.1.length ∨ r.2.2 < 0 ∧ r.2.1 = []) := by
  rw [ijkio_cache_read] at hr
  obtain ⟨r', hr', rfl⟩ := Option.map_eq_some_iff.mp hr
  rcases h.sync_read size a with ⟨hnone, _⟩ | ⟨r'', hr'', hreads, _⟩
  · rw [hr'] at hnone
    cases hnone
  · rw [hr', Option.some.injEq] at hr''
    subst hr''
    refine ⟨hreads.cached.move _, hreads.le, hreads.bytes, ?_, hreads.ret⟩
    change r'.1.read_logical_pos + r'.2.2.toNat = _
    rw [hreads.stays]
    rcases hreads.ret with hret | ⟨hret, hnil⟩
    · rw [hret, Int.toNat_natCast]
    · rw [hnil, Int.toNat_of_nonpos hret.le]
      rfl

theorem cached_step {call : Call} (h : Cached stream c) (hs : c.step stream call = some c') : Cached stream c' := by
  cases call with
  | ijkio_cache_read size a =>
      obtain ⟨r, hr, rfl⟩ := Option.map_eq_some_iff.mp hs
      exact (h.read hr).1
  | ijkio_cache_seek pos whence =>
      cases hs
      exact h.seek pos whence
  | share shared =>
      cases hs
      exact ⟨h.offset, h.last, h.indexed, h.increasing, h.inner⟩

/-! ## What a read gives -/

/-- A read gives bytes of the stream from the position on and moves the position by as many, or an error and no bytes
and leaves it. There is no result where it uses a freed tree. -/
def Delivers (stream : List β) (c : IjkIOCacheContext β) : Call → Prop
  | .ijkio_cache_read size a =>
      (c.ijkio_cache_read stream size a = none ↔ c.ReadsFreed size a) ∧
      ∀ c' buf ret, c.ijkio_cache_read stream size a = some (c', buf, ret) →
        buf.length ≤ size ∧ buf = stream.piece c.read_logical_pos buf.length ∧
          c'.read_logical_pos = c.read_logical_pos + buf.length ∧ (ret = buf.length ∨ ret < 0 ∧ buf = [])
  | _ => True

theorem Cached.read_eq_none_iff (h : Cached stream c) (size : ℕ) (a : Answers) :
    c.ijkio_cache_read stream size a = none ↔ c.ReadsFreed size a := by
  rw [ijkio_cache_read, Option.map_eq_none_iff]
  rcases h.sync_read size a with ⟨hnone, hf⟩ | ⟨r, hr, _, hf⟩
  · exact iff_of_true hnone hf
  · exact iff_of_false (by rw [hr]; exact Option.some_ne_none r) hf

theorem Cached.delivers (h : Cached stream c) (size : ℕ) (a : Answers) :
    Delivers stream c (.ijkio_cache_read size a) := by
  refine ⟨h.read_eq_none_iff size a, fun c' buf ret hr => ?_⟩
  obtain ⟨_, hdelivered⟩ := h.read hr
  exact hdelivered

/-- A read uses the entries of a freed tree exactly where `read` fails on a block that has an entry after it, and
neither the end of the stream nor an error of the inner protocol ends the call before. -/
theorem reads_freed_iff {logical_size cache_max_capacity : ℤ} {only_read_file shared : Bool} {calls : List Call}
    (h : run (step stream) (opened logical_size cache_max_capacity only_read_file shared) calls = some c)
    (size : ℕ) (a : Answers) : c.ijkio_cache_read stream size a = none ↔ c.ReadsFreed size a := by
  have hcached : Cached stream c := run_keeps (fun _ _ _ hc hs => cached_step hc hs)
    (Cached.opened logical_size cache_max_capacity only_read_file shared) h
  exact hcached.read_eq_none_iff size a

/-- Everything works. -/
def fine : Answers := ⟨some 4096, true, some 4096, true, 0, 8, 0, 4096, le_rfl⟩

/-- Two blocks of the stream are in the file, with a gap between them. -/
def twoBlocks : IjkIOCacheContext ℕ :=
  { (opened 8 100 false false : IjkIOCacheContext ℕ) with
    fd := some ⟨[10, 11, 14, 15], 4⟩
    tree_info := some ⟨.node .null ⟨0, 0, 2⟩ 1 (.alloc ⟨4, 2, 2⟩), 0, 4, 8⟩
    read_inner_pos := 6
    cache_physical_pos := 4
    last_physical_pos := 4
    cache_count_bytes := 4
    inner_pos := 6 }

theorem run_twoBlocks : run (step [10, 11, 12, 13, 14, 15, 16, 17]) (opened 8 100 false false)
    [.ijkio_cache_read 2 fine, .ijkio_cache_seek 4 .SEEK_SET, .ijkio_cache_read 2 fine,
      .ijkio_cache_seek 0 .SEEK_SET] = some twoBlocks := by
  decide

theorem twoBlocks_reads_freed :
    twoBlocks.ijkio_cache_read [10, 11, 12, 13, 14, 15, 16, 17] 2 { fine with read := none } = none :=
  (reads_freed_iff run_twoBlocks 2 { fine with read := none }).mpr
    ⟨by decide, ⟨⟨0, 0, 2⟩, by decide, by decide, by decide⟩, .inl rfl, by decide, by decide, by decide, by decide⟩

end IjkIOCacheContext

end MyDemo.Ijkmedia

import MyDemo.Ijkmedia.Tree
import MyDemo.Lib.Pieces

/-!
# The file cache of a stream

`ijkiocache.c` without the background task, that is with `cache_file_forwards_capacity` 0 and `cache_file_close` 0.
`β` is the type of a byte. Positions and sizes are `int64_t` that are never negative. An entry of the tree is
named by its `logical_pos`, and what the file, the allocator and the inner protocol answer comes with the call.
-/

namespace MyDemo.Ijkmedia

structure IjkCacheEntry where
  logical_pos : ℕ
  physical_pos : ℕ
  size : ℕ
  deriving DecidableEq, Repr

structure IjkCacheTreeInfo where
  root : IjkAVTreeNode IjkCacheEntry
  physical_init_pos : ℕ
  physical_size : ℕ
  file_size : ℤ
  deriving DecidableEq, Repr

/-- The cache file of an open descriptor. -/
structure CacheFile (β : Type*) where
  content : List β
  offset : ℕ
  deriving DecidableEq, Repr

/-- `fd` is `none` for -1, and `tree_info` for a null pointer. The last field is the position of the inner
protocol. -/
structure IjkIOCacheContext (β : Type*) where
  fd : Option (CacheFile β)
  tree_info : Option IjkCacheTreeInfo
  logical_size : ℤ
  read_logical_pos : ℕ
  read_inner_pos : ℕ
  cache_physical_pos : ℕ
  last_physical_pos : ℕ
  cache_max_capacity : ℤ
  cache_count_bytes : ℕ
  io_eof_reached : Bool
  inner_io_error : ℤ
  async_open : Bool
  only_read_file : Bool
  shared : Bool
  inner_pos : ℕ
  deriving DecidableEq, Repr

/-- `read` and `write` fail (`none`) or get so many bytes; `url_open2`, the size it finds, `url_seek` and
`url_read` give what they return: to have opened is 0, and errors are negative. -/
structure Answers where
  read : Option ℕ
  reopened : Bool
  write : Option ℕ
  allocated : Bool
  url_open2 : ℤ
  url_size : ℤ
  url_seek : ℤ
  url_read : ℤ
  url_open2_le : url_open2 ≤ 0
  deriving DecidableEq, Repr

def FILE_RW_ERROR : ℤ := -100

def IJKAVERROR_ENOMEM : ℤ := -12

def IJKAVERROR_EINVAL : ℤ := -22

inductive Whence where
  | IJKAVSEEK_SIZE
  | SEEK_CUR
  | SEEK_SET
  | other
  deriving DecidableEq, Repr

def cmpPos (key : ℕ) (node : IjkCacheEntry) : ℤ := FFDIFFSIGN key node.logical_pos

/-- An entry begins with its `logical_pos`. -/
def cmpEntry (key node : IjkCacheEntry) : ℤ := cmpPos key.logical_pos node

namespace IjkIOCacheContext

variable {β : Type*}

/-- The entry at the position or before it, and the array `next`. -/
def find (c : IjkIOCacheContext β) : Option IjkCacheEntry × Next IjkCacheEntry :=
  match c.tree_info with
  | none => (none, ⟨none, none⟩)
  | some info =>
      let (entry, next) := IjkAVTreeNode.ijk_av_tree_find cmpPos c.read_logical_pos info.root (some ⟨none, none⟩)
      let next := next.getD ⟨none, none⟩
      (entry.or next.prev, next)

/-- `lseek` with `SEEK_SET`. -/
def lseek (c : IjkIOCacheContext β) (pos : ℕ) : IjkIOCacheContext β :=
  { c with fd := c.fd.map fun f => { f with offset := pos } }

/-! ## sync_add_entry -/

/-- The free space, or an error, and the new `*cur_pos`. The other trees of the file are given up as well. -/
def ijkio_cache_file_overrang (c : IjkIOCacheContext β) (cur_pos : ℕ) : IjkIOCacheContext β × ℤ × ℕ :=
  if c.shared then (c, FILE_RW_ERROR, cur_pos)
  else
    let c := { c with
      tree_info := c.tree_info.map fun _ => ⟨.null, 0, 0, 0⟩
      last_physical_pos := 0
      cache_physical_pos := 0
      io_eof_reached := false }
    (c.lseek 0, c.cache_max_capacity, 0)

/-- The entry for the bytes that have been written at `pos`. -/
def addToTree (c : IjkIOCacheContext β) (info : IjkCacheTreeInfo) (pos ret : ℕ) (allocated : Bool) :
    Option (IjkIOCacheContext β × ℤ) :=
  let entry := c.find.1
  match entry.filter fun e => e.logical_pos + e.size = c.read_logical_pos ∧ e.physical_pos + e.size = pos with
  | some e =>
      let root := info.root.map fun e' => if e' = e then { e with size := e.size + ret } else e'
      some ({ c with tree_info := some { info with root := root } }, ret)
  | none =>
      if !allocated then some (c, IJKAVERROR_ENOMEM)
      else
        let entry : IjkCacheEntry := ⟨c.read_logical_pos, pos, ret⟩
        match IjkAVTreeNode.ijk_av_tree_insert cmpEntry info.root entry (.alloc entry) with
        | none => none
        | some inserted =>
            let c := { c with tree_info := some { info with root := inserted.tree } }
            -- another element comes back where the node has not been used
            if inserted.ret.isSome ∧ inserted.next.isNode then some (c, -1) else some (c, ret)

def seekLast (c : IjkIOCacheContext β) : IjkIOCacheContext β :=
  if c.last_physical_pos ≠ c.cache_physical_pos then
    { c.lseek c.last_physical_pos with cache_physical_pos := c.last_physical_pos }
  else c

/-- The rest of the function, at the place for the bytes. -/
def writeEntry (c : IjkIOCacheContext β) (pos : ℕ) (buf : List β) (a : Answers) :
    Option (IjkIOCacheContext β × ℤ) :=
  match a.write, c.fd, c.tree_info with
  | some n, some f, some info =>
      let written := buf.take n
      let ret := written.length
      let info := { info with physical_size := info.physical_size + ret }
      let c := { c with
        fd := some ⟨f.content.overwrite f.offset written, f.offset + ret⟩
        cache_physical_pos := c.cache_physical_pos + ret
        last_physical_pos := c.last_physical_pos + ret
        tree_info := some info }
      c.addToTree info pos ret a.allocated
  | _, _, _ => some (c, FILE_RW_ERROR)

/-- `c->fd` is open and `c->tree_info` is not null. -/
def sync_add_entry (c : IjkIOCacheContext β) (buf : List β) (a : Answers) : Option (IjkIOCacheContext β × ℤ) :=
  let c := c.seekLast
  let pos := c.last_physical_pos
  if (c.last_physical_pos : ℤ) + buf.length ≥ c.cache_max_capacity then
    let (c, free_space, pos) := c.ijkio_cache_file_overrang pos
    if free_space < buf.length then some (c, FILE_RW_ERROR) else c.writeEntry pos buf a
  else c.writeEntry pos buf a

/-! ## ijkio_cache_sync_read -/

/-- The descriptor is moved where it does not stand at `pos` already. -/
def seekBlock (c : IjkIOCacheContext β) (pos : ℕ) : IjkIOCacheContext β :=
  { if c.cache_physical_pos ≠ pos then c.lseek pos else c with cache_physical_pos := pos }

/-- The bytes of the block that are in the file; `none` where they cannot be read. -/
def readBlock (c : IjkIOCacheContext β) (e : IjkCacheEntry) (size : ℕ) (read : Option ℕ) :
    IjkIOCacheContext β × Option (List β) :=
  let in_block_pos := c.read_logical_pos - e.logical_pos
  let c := c.seekBlock (e.physical_pos + in_block_pos)
  match read, c.fd with
  | some n, some f =>
      let bytes := f.content.piece f.offset (min n (min size (e.size - in_block_pos)))
      ({ c with
          fd := some { f with offset := f.offset + bytes.length }
          cache_physical_pos := c.cache_physical_pos + bytes.length }, some bytes)
  | _, _ => (c, none)

/-- The cache file is bad: the trees are freed and a new file is begun. -/
def recreate (c : IjkIOCacheContext β) (a : Answers) : IjkIOCacheContext β :=
  { c with
    last_physical_pos := 0
    cache_physical_pos := 0
    io_eof_reached := false
    fd := if a.reopened then some ⟨[], 0⟩ else none
    tree_info := if a.reopened && a.allocated then some ⟨.null, 0, 0, 0⟩ else none }

def wrapped_url_read (stream : List β) (c : IjkIOCacheContext β) (size : ℕ) (url_read : ℤ) :
    IjkIOCacheContext β × List β × ℤ :=
  if url_read < 0 then ({ c with inner_io_error := url_read }, [], url_read)
  else
    let bytes := stream.piece c.inner_pos (min url_read.toNat size)
    ({ c with
        cache_count_bytes := c.cache_count_bytes + bytes.length
        inner_io_error := 0
        inner_pos := c.inner_pos + bytes.length }, bytes, bytes.length)

/-- `ijkio_cache_io_open`, where the inner protocol is opened late. -/
def openInner (c : IjkIOCacheContext β) (url_size : ℤ) : IjkIOCacheContext β :=
  if c.async_open then
    { c with
      logical_size := url_size
      tree_info := c.tree_info.map fun info => { info with file_size := url_size }
      inner_pos := 0
      async_open := false }
  else c

def seekInner (c : IjkIOCacheContext β) : IjkIOCacheContext β :=
  if c.read_inner_pos ≠ c.read_logical_pos then
    { c with inner_pos := c.read_logical_pos, read_inner_pos := c.read_logical_pos }
  else c

/-- Not beyond the next entry. -/
def toCopy (c : IjkIOCacheContext β) (size : ℕ) : Option IjkCacheEntry → ℕ
  | some e => if e.logical_pos > c.read_logical_pos then min size (e.logical_pos - c.read_logical_pos) else size
  | none => size

/-- The bytes of the inner protocol, which are put into the cache. -/
def fetch (stream : List β) (c : IjkIOCacheContext β) (size : ℕ) (next_entry : Option IjkCacheEntry) (a : Answers) :
    Option (IjkIOCacheContext β × List β × ℤ) :=
  let (c, buf, ret) := c.wrapped_url_read stream (c.toCopy size next_entry) a.url_read
  if ret ≤ 0 then some (c, [], ret)
  else
    let c := { c with read_inner_pos := c.read_inner_pos + buf.length }
    if c.fd.isSome ∧ c.tree_info.isSome ∧ !c.only_read_file then
      (c.sync_add_entry buf a).map fun added => (added.1, buf, ret)
    else some (c, buf, ret)

/-- The rest of the function, where the position is not in the cache: `next_entry` points into a tree that has been
freed where `freed` says so. -/
def readInner (stream : List β) (c : IjkIOCacheContext β) (size : ℕ) (next_entry : Option IjkCacheEntry)
    (freed : Bool) (a : Answers) : Option (IjkIOCacheContext β × List β × ℤ) :=
  if c.read_logical_pos ≥ c.logical_size then some ({ c with io_eof_reached := true }, [], 0)
  else if c.async_open ∧ a.url_open2 ≠ 0 then some (c, [], a.url_open2)
  else
    let c := c.openInner a.url_size
    if c.read_inner_pos ≠ c.read_logical_pos ∧ a.url_seek < 0 then some (c, [], a.url_seek)
    else if freed ∧ next_entry.isSome then none
    else c.seekInner.fetch stream size next_entry a

/-- What is in `buf` afterwards comes with the returned number; there is no result where memory that has been freed
is read. -/
def ijkio_cache_sync_read (stream : List β) (c : IjkIOCacheContext β) (size : ℕ) (a : Answers) :
    Option (IjkIOCacheContext β × List β × ℤ) :=
  if size = 0 then some (c, [], 0)
  else
    let (entry, next) := c.find
    match entry.filter fun e => c.read_logical_pos - e.logical_pos < e.size ∧ e.logical_pos ≤ c.read_logical_pos with
    | some e =>
        match c.readBlock e size a.read with
        | (c, some bytes) => some (c, bytes, bytes.length)
        | (c, none) => (c.recreate a).readInner stream size next.next true a
    | none => c.readInner stream size next.next false a

/-! ## ijkio_cache_read and ijkio_cache_seek -/

def ijkio_cache_read (stream : List β) (c : IjkIOCacheContext β) (size : ℕ) (a : Answers) :
    Option (IjkIOCacheContext β × List β × ℤ) :=
  (c.ijkio_cache_sync_read stream size a).map fun (c, buf, ret) =>
    ({ c with read_logical_pos := c.read_logical_pos + ret.toNat }, buf, ret)

def ijkio_cache_seek (c : IjkIOCacheContext β) (pos : ℤ) (whence : Whence) : IjkIOCacheContext β × ℤ :=
  let seekTo (new_logical_pos : ℤ) :=
    if new_logical_pos < 0 then (c, IJKAVERROR_EINVAL)
    else ({ c with read_logical_pos := new_logical_pos.toNat }, new_logical_pos)
  match whence with
  | .IJKAVSEEK_SIZE => (c, c.logical_size)
  | .SEEK_CUR => seekTo (pos + c.read_logical_pos)
  | .SEEK_SET => seekTo pos
  | .other => (c, IJKAVERROR_EINVAL)

end IjkIOCacheContext

end MyDemo.Ijkmedia

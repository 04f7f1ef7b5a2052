import MyDemo.Ijkmedia.IoCache
import MyDemo.Lib.SearchTree
import Mathlib.Algebra.Ring.Nat

/-!
# The index of the cache file

`ijkiomanager.c`: the trees are saved as lines of text, and restored from them in a later session. The map of
`ijkstl.cpp` is a list in the order of its keys. `long` has 32 bits, as on armv7a, and `long long` has 64.
-/

namespace MyDemo.Ijkmedia

abbrev IjkMap := List (ℤ × IjkCacheTreeInfo)

def ijk_map_put (m : IjkMap) (key : ℤ) (value : IjkCacheTreeInfo) : IjkMap := m.insertKey Prod.fst (key, value)

def ijk_map_get (m : IjkMap) (key : ℤ) : Option IjkCacheTreeInfo := (m.atKey Prod.fst key).map (·.2)

/-! ## Saving -/

/-- `%lld` -/
def decimal : ℤ → List Char
  | .ofNat n => Nat.toDigits 10 n
  | .negSucc n => '-' :: Nat.toDigits 10 (n + 1)

def line (name : String) (value : ℤ) : List Char := name.toList ++ decimal value ++ ['\n']

def enu_save (fp : List Char) (entry : IjkCacheEntry) : List Char :=
  fp ++ line "entry_logical_pos:" entry.logical_pos ++ line "entry_physical_pos:" entry.physical_pos ++
    line "entry_size:" entry.size ++ "entry-info-flush\n".toList

def ijkio_manager_save_tree_to_file (fp : List Char) (elem : ℤ × IjkCacheTreeInfo) : List Char :=
  if elem.1 ≥ 0 then
    let fp := fp ++ line "tree_index:" elem.1 ++ line "tree_physical_init_pos:" elem.2.physical_init_pos ++
      line "tree_physical_size:" elem.2.physical_size ++ line "tree_file_size:" elem.2.file_size ++
      "tree-info-flush\n".toList
    IjkAVTreeNode.ijk_av_tree_enumerate none enu_save elem.2.root fp
  else fp

/-- What `ijk_map_traversal_handle` writes. -/
def saveMap (m : IjkMap) : List Char := m.foldl ijkio_manager_save_tree_to_file []

/-! ## Parsing -/

def CONFIG_MAX_LINE : ℕ := 1024

/-- A line with its end, or the first `n` characters of it; the rest is read next. -/
def fgets : ℕ → List Char → List Char × List Char
  | 0, s => ([], s)
  | _ + 1, [] => ([], [])
  | n + 1, c :: s => if c = '\n' then ([c], s) else (c :: (fgets n s).1, (fgets n s).2)

/-- What the calls of `fgets` give; a call gets one character at least. -/
def fileLines : ℕ → List Char → List (List Char)
  | 0, _ => []
  | _ + 1, [] => []
  | n + 1, s => (fgets (CONFIG_MAX_LINE - 1) s).1 :: fileLines n (fgets (CONFIG_MAX_LINE - 1) s).2

def ijk_av_strstart : List Char → List Char → Option (List Char)
  | str, [] => some str
  | c :: str, p :: pfx => if c = p then ijk_av_strstart str pfx else none
  | [], _ :: _ => none

/-- `strtol` and `strtoll` of the digits that the text begins with. -/
def strtoll (max : ℕ) (s : List Char) : ℕ := min max (Nat.ofDigitChars 10 (s.takeWhile Char.isDigit) 0)

def LONG_MAX : ℕ := 2 ^ 31 - 1

def LLONG_MAX : ℕ := 2 ^ 63 - 1

/-- The variables of `ijkio_manager_parse_cache_info`. The tree that `cur_tree_info` points to is named by its key in
the map, and `stopped` tells that the loop has been left. -/
structure Parser where
  tree_index : ℕ
  tree_physical_init_pos : ℕ
  tree_physical_size : ℕ
  tree_file_size : ℕ
  entry_logical_pos : ℕ
  entry_physical_pos : ℕ
  entry_size : ℕ
  cur_tree_info : Option ℤ
  cache_info_map : IjkMap
  last_physical_pos : ℤ
  stopped : Bool
  deriving DecidableEq, Repr

namespace Parser

def start : Parser := ⟨0, 0, 0, 0, 0, 0, 0, none, [], 0, false⟩

def flushTree (p : Parser) : Parser :=
  { p with
    cur_tree_info := some p.tree_index
    cache_info_map := ijk_map_put p.cache_info_map p.tree_index
      ⟨.null, p.tree_physical_init_pos, p.tree_physical_size, p.tree_file_size⟩
    tree_index := 0
    tree_physical_init_pos := 0
    tree_physical_size := 0
    tree_file_size := 0 }

/-- An element that is not `cur_entry` comes back where its position is in the tree already, so that the node has not
been used. It ends the loop. -/
def flushEntry (p : Parser) : Parser :=
  match p.cur_tree_info with
  | none => p
  | some key =>
      match ijk_map_get p.cache_info_map key with
      | none => p
      | some info =>
          let entry : IjkCacheEntry := ⟨p.entry_logical_pos, p.entry_physical_pos, p.entry_size⟩
          match IjkAVTreeNode.ijk_av_tree_insert cmpEntry info.root entry (.alloc entry) with
          | none => { p with stopped := true }
          | some r =>
              { p with
                cache_info_map := ijk_map_put p.cache_info_map key { info with root := r.tree }
                stopped := r.ret.isSome ∧ r.next.isNode }

def parseLine (p : Parser) (string_line : List Char) : Parser :=
  let strstart (pfx : String) := ijk_av_strstart string_line pfx.toList
  if p.stopped then p
  else match strstart "tree_index:" with
  | some ptr => { p with tree_index := strtoll LONG_MAX ptr }
  | none => match strstart "tree_physical_init_pos:" with
  | some ptr => { p with tree_physical_init_pos := strtoll LLONG_MAX ptr }
  | none => match strstart "tree_physical_size:" with
  | some ptr =>
      { p with
        tree_physical_size := strtoll LLONG_MAX ptr
        last_physical_pos := (p.last_physical_pos + strtoll LLONG_MAX ptr).bmod (2 ^ 64) }
  | none => match strstart "tree_file_size:" with
  | some ptr => { p with tree_file_size := strtoll LLONG_MAX ptr }
  | none => match strstart "tree-info-flush" with
  | some _ => p.flushTree
  | none => match strstart "entry_logical_pos:" with
  | some ptr => { p with entry_logical_pos := strtoll LLONG_MAX ptr }
  | none => match strstart "entry_physical_pos:" with
  | some ptr => { p with entry_physical_pos := strtoll LLONG_MAX ptr }
  | none => match strstart "entry_size:" with
  | some ptr => { p with entry_size := strtoll LLONG_MAX ptr }
  | none => match strstart "entry-info-flush" with
  | some _ => p.flushEntry
  | none => p

end Parser

/-- The map and the `last_physical_pos` of a new application context, after the file has been read. -/
def ijkio_manager_parse_cache_info (text : List Char) : Parser :=
  (fileLines text.length text).foldl Parser.parseLine .start

/-! ## Opening the cache -/

namespace IjkIOCacheContext

variable {β : Type*}

/-- The cache file is opened, or begun anew where the index is empty. An index that says more than the file has is
given up. -/
def openFile (cache_info_map : IjkMap) (last_physical_pos : ℤ) (content : List β) : List β × IjkMap × ℤ :=
  if cache_info_map.length > 0 then
    if content.length < last_physical_pos then (content, [], 0) else (content, cache_info_map, last_physical_pos)
  else ([], cache_info_map, last_physical_pos)

/-- The tree of the file number, `logical_size` and `async_open`. -/
def openTree (cache_info_map : IjkMap) (last_physical_pos : ℕ) (cur_file_no : ℤ) (existing : Bool) :
    IjkCacheTreeInfo × ℤ × Bool :=
  match ijk_map_get cache_info_map cur_file_no with
  | none => (⟨.null, last_physical_pos, 0, 0⟩, 0, existing)
  | some info =>
      if info.physical_size > 200 * 1024 ∧ info.file_size > 0 then (info, info.file_size, true) else (info, 0, false)

/-- The first context of an application context whose index `p` has been parsed, with a `last_physical_pos` that is not
negative. The file, whose bytes are `content`, can be opened, and so can the inner protocol. -/
def ijkio_cache_open (p : Parser) (content : List β) (cur_file_no : ℤ) (cache_max_capacity url_size : ℤ)
    (only_read_file : Bool) : IjkIOCacheContext β :=
  let (content, cache_info_map, last) := openFile p.cache_info_map p.last_physical_pos content
  let last := last.toNat
  let (info, logical_size, async_open) := openTree cache_info_map last cur_file_no (p.cache_info_map.length > 0)
  let late := !(logical_size ≤ 0 || !async_open)
  let logical_size := if late then logical_size else url_size
  { fd := some ⟨content, last⟩
    tree_info := some { info with file_size := logical_size }
    logical_size := logical_size
    read_logical_pos := 0
    read_inner_pos := 0
    cache_physical_pos := last
    last_physical_pos := last
    cache_max_capacity := cache_max_capacity
    cache_count_bytes := 0
    io_eof_reached := false
    inner_io_error := 0
    async_open := late
    only_read_file := only_read_file
    shared := false
    inner_pos := 0 }

/-- The application context is destroyed with `auto_save_map`, and another one is created with `parse_cache_map`. In
between the file may have lost its end. -/
def reopen (c : IjkIOCacheContext β) (cur_file_no : ℤ) (length : ℕ) (cache_max_capacity url_size : ℤ)
    (only_read_file : Bool) : IjkIOCacheContext β :=
  let cache_info_map : IjkMap := c.tree_info.toList.map fun info => (cur_file_no, info)
  let content := (c.fd.map (·.content.take length)).getD []
  ijkio_cache_open (ijkio_manager_parse_cache_info (saveMap cache_info_map)) content cur_file_no cache_max_capacity
    url_size only_read_file

end IjkIOCacheContext

end MyDemo.Ijkmedia

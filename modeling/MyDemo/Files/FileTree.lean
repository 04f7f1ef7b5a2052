import MyDemo.Java

/-!
# The tree below `/`, and `java.io.File` over it

A `File` is the list of the names that lead to it from `/`. Paths are strings and `File.ofPath` is the
constructor `File(path)`; the tree does not change while it is looked at.
-/

namespace MyDemo.Files

inductive Node where
  | file
  | other
  | dir (readable : Bool) (entries : List (JString × Node))

abbrev File := List JString

def slash : Utf16.CodeUnit := 0x2F

def ValidName (name : JString) : Prop := name ≠ [] ∧ slash ∉ name

instance (name : JString) : Decidable (ValidName name) := inferInstanceAs (Decidable (_ ∧ _))

inductive Node.Valid : Node → Prop
  | file : Node.Valid .file
  | other : Node.Valid .other
  | dir {readable : Bool} {entries : List (JString × Node)} (distinct : (entries.map Prod.fst).Nodup)
      (names : ∀ e ∈ entries, ValidName e.1) (nodes : ∀ e ∈ entries, e.2.Valid) :
      Node.Valid (.dir readable entries)

structure FileTree where
  root : Node
  valid : root.Valid

/-! ## Paths -/

namespace File

/-- `File(path)`. The empty path names nothing, and a relative one starts at `/`, where an app runs. -/
def ofPath (path : JString) : Option File :=
  if path = [] then none else some ((path.splitOn slash).filter (· ≠ []))

def absolutePath : File → JString
  | [] => [slash]
  | names => names.flatMap (slash :: ·)

def name (f : File) : JString := f.getLast?.getD []

def parentFile (f : File) : Option File := if f = [] then none else some f.dropLast

end File

/-! ## Looking into the tree -/

def Node.child (node : Node) (name : JString) : Option Node :=
  match node with
  | .dir _ entries => (entries.find? (fun e => decide (e.1 = name))).map Prod.snd
  | _ => none

namespace FileTree

variable (tree : FileTree)

def lookup (f : File) : Option Node := f.foldlM Node.child tree.root

def node? (path : JString) : Option Node := (File.ofPath path).bind tree.lookup

def fileExists (path : JString) : Bool := (tree.node? path).isSome

def isDirectory (f : File) : Bool :=
  match tree.lookup f with
  | some (.dir _ _) => true
  | _ => false

def isFile (f : File) : Bool :=
  match tree.lookup f with
  | some .file => true
  | _ => false

/-- `File(path).listFiles()`: null for what is not a directory or cannot be read. -/
def listFiles (path : JString) : Option (List File) :=
  match File.ofPath path, tree.node? path with
  | some f, some (.dir true entries) => some (entries.map (fun e => f ++ [e.1]))
  | _, _ => none

end FileTree

end MyDemo.Files

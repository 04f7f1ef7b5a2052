import Mathlib.Algebra.Ring.Int.Defs
import Mathlib.Data.Tree.Basic
import Mathlib.Data.Int.Notation

/-!
# The balanced tree

`ijktree.c`. A comparison returns an `int`, of which the code uses the sign: `v >> 31` of the unsigned `v` is 1
where the result is negative. A `Bool` is an index of `child`. Reading through a null pointer, or a variable that
has not been set, has no result.
-/

namespace MyDemo.Ijkmedia

/-- The comparison of `ijkutils.h` that the users of the tree make theirs of. -/
def FFDIFFSIGN (x y : ℤ) : ℤ := (if x > y then 1 else 0) - (if x < y then 1 else 0)

/-- `null` is the null pointer. -/
inductive IjkAVTreeNode (α : Type*) where
  | null
  | node (child0 : IjkAVTreeNode α) (elem : α) (state : ℤ) (child1 : IjkAVTreeNode α)
  deriving DecidableEq, Repr

/-- The array `next[2]`, with the elements that have been stored in it. -/
structure Next (α : Type*) where
  prev : Option α
  next : Option α
  deriving DecidableEq, Repr

/-- What `ijk_av_tree_insert` leaves in `*tp` and `*next`, and what it returns. -/
structure Inserted (α : Type*) where
  tree : IjkAVTreeNode α
  next : IjkAVTreeNode α
  ret : Option α
  deriving DecidableEq, Repr

namespace Next

variable {α : Type*}

def get (n : Next α) : Bool → Option α
  | false => n.prev
  | true => n.next

def set (n : Next α) (i : Bool) (e : α) : Next α :=
  match i with
  | false => { n with prev := some e }
  | true => { n with next := some e }

end Next

namespace IjkAVTreeNode

variable {α κ σ : Type*}

def isNode : IjkAVTreeNode α → Bool
  | null => false
  | node .. => true

/-- What `ijk_av_tree_node_alloc` gives, whatever element is in it. -/
def alloc (e : α) : IjkAVTreeNode α := node null e 0 null

/-- The node with `a` as its `child[i]` and `b` as its `child[i ^ 1]`. -/
def link (i : Bool) (a : IjkAVTreeNode α) (elem : α) (state : ℤ) (b : IjkAVTreeNode α) : IjkAVTreeNode α :=
  if i then node b elem state a else node a elem state b

/-- `child[i]`, `elem`, `state` and `child[i ^ 1]` of a node. -/
def deref (i : Bool) : IjkAVTreeNode α → Option (IjkAVTreeNode α × α × ℤ × IjkAVTreeNode α)
  | null => none
  | node c0 e s c1 => some (if i then (c1, e, s, c0) else (c0, e, s, c1))

/-! ## ijk_av_tree_find -/

/-- `next` is a null pointer or points to an array. -/
def ijk_av_tree_find (cmp : κ → α → ℤ) (key : κ) :
    IjkAVTreeNode α → Option (Next α) → Option α × Option (Next α)
  | null, next => (none, next)
  | node c0 e _ c1, next =>
      let v := cmp key e
      if v < 0 then ijk_av_tree_find cmp key c0 (next.map (·.set true e))
      else if v ≠ 0 then ijk_av_tree_find cmp key c1 (next.map (·.set false e))
      else if next.isSome then
        let left := (ijk_av_tree_find cmp key c0 next).2
        (some e, (ijk_av_tree_find cmp key c1 left).2)
      else (some e, next)

/-! ## ijk_av_tree_insert -/

/-- The rotations of `t` where `child[i]` has become too high. -/
def rotate (i : Bool) (t : IjkAVTreeNode α) : Option (IjkAVTreeNode α) := do
  let (child, elem, state, other) ← t.deref i
  let (outer, childElem, childState, inner) ← child.deref i
  if childState * 2 = -state then
    let (a, innerElem, innerState, b) ← inner.deref i
    let state0 := if innerState > 0 then -1 else 0
    let state1 := if innerState < 0 then 1 else 0
    pure (link i (link i outer childElem (if i then state1 else state0) a) innerElem 0
      (link i b elem (if i then state0 else state1) other))
  else
    let state : ℤ := if childState ≠ 0 then 0 else state >>> (1 : ℕ)
    pure (link i outer childElem (-state) (link i inner elem state other))

/-- `t` is rotated where the new `state` is 2 or -2. -/
def balance (i : Bool) (state : ℤ) (t : IjkAVTreeNode α) : Option (IjkAVTreeNode α) :=
  if state % 2 = 0 ∧ state ≠ 0 then rotate i t else some t

/-- What is done after the recursive call for `child[j]`: `t` is the node with the new child. Where the call has
returned null, the child has become higher, or lower where an element has been removed. -/
def retrace (j : Bool) (elem : α) (state : ℤ) (other : IjkAVTreeNode α) (key : α) (r : Inserted α) :
    Option (Inserted α) :=
  match r.ret with
  | some _ => some { r with tree := link j r.tree elem state other }
  | none => do
      let i := j ^^ r.next.isNode
      let state := state + (if i then 1 else -1)
      let tp ← balance i state (link j r.tree elem state other)
      let (_, _, state, _) ← tp.deref false
      pure ⟨tp, r.next, if state = 0 ^^ r.next.isNode then some key else none⟩

def ijk_av_tree_insert (cmp : α → α → ℤ) :
    IjkAVTreeNode α → α → IjkAVTreeNode α → Option (Inserted α)
  | null, key, next =>
      match next with
      | null => some ⟨null, null, some key⟩
      | node c0 _ s c1 => some ⟨node c0 key s c1, null, none⟩
  | node c0 e s c1, key, next =>
      let v := cmp e key
      if v = 0 then
        if next.isNode then some ⟨node c0 e s c1, next, some e⟩
        else if c0.isNode || c1.isNode then
          -- the neighbour takes the place of the element, and is removed from the child where it was
          if c0.isNode then do
            let nextElem ← (ijk_av_tree_find cmp key c0 (some ⟨none, none⟩)).2
            let key ← nextElem.get false
            retrace false key s c1 key (← ijk_av_tree_insert cmp c0 key next)
          else do
            let nextElem ← (ijk_av_tree_find cmp key c1 (some ⟨none, none⟩)).2
            let key ← nextElem.get true
            retrace true key s c0 key (← ijk_av_tree_insert cmp c1 key next)
        else some ⟨null, node c0 e s c1, none⟩
      else if v < 0 then do retrace true e s c0 key (← ijk_av_tree_insert cmp c1 key next)
      else do retrace false e s c1 key (← ijk_av_tree_insert cmp c0 key next)

/-! ## ijk_av_tree_enumerate -/

/-- `enu` is called on the elements in turn; `cmp` may be a null pointer. -/
def ijk_av_tree_enumerate (cmp : Option (α → ℤ)) (enu : σ → α → σ) : IjkAVTreeNode α → σ → σ
  | null, s => s
  | node c0 e _ c1, s =>
      let v : ℤ := match cmp with
        | none => 0
        | some cmp => cmp e
      let s := if v ≥ 0 then ijk_av_tree_enumerate cmp enu c0 s else s
      let s := if v = 0 then enu s e else s
      if v ≤ 0 then ijk_av_tree_enumerate cmp enu c1 s else s

/-! ## The tree as a sequence -/

/-- The tree after a write through the pointers to its elements. -/
def map (g : α → α) : IjkAVTreeNode α → IjkAVTreeNode α
  | null => null
  | node c0 e s c1 => node (c0.map g) (g e) s (c1.map g)

def toTree : IjkAVTreeNode α → BinaryTree α
  | null => .nil
  | node c0 e _ c1 => .node e c0.toTree c1.toTree

end IjkAVTreeNode

end MyDemo.Ijkmedia

import Mathlib.Data.List.Basic
import Mathlib.Data.List.Nodup
import Mathlib.Data.List.Perm.Subperm
import Mathlib.Data.Nat.Notation

/-!
# Queues of linked nodes

A queue whose nodes are linked by pointers, and which keeps the nodes that are not in use in a second list. An address
is an index of the memory. Reading a node that has not been allocated, or has been freed, has no result.
-/

namespace Linked

variable {α : Type*}

structure Node (α : Type*) where
  val : α
  next : Option ℕ
  deriving DecidableEq, Repr

/-- A node that has been freed is `none`. -/
abbrev Heap (α : Type*) := List (Option (Node α))

def read (h : Heap α) (a : ℕ) : Option (Node α) := h[a]?.join

structure Queue (α : Type*) where
  heap : Heap α
  first : Option ℕ
  last : Option ℕ
  spare : Option ℕ
  deriving DecidableEq, Repr

namespace Queue

def empty : Queue α := ⟨[], none, none, none⟩

/-- The node at `a` becomes the last one, with the value `v`. -/
def link (q : Queue α) (a : ℕ) (v : α) : Option (Queue α) :=
  let heap := q.heap.set a (some ⟨v, none⟩)
  match q.last with
  | none => some { q with heap := heap, first := some a, last := some a }
  | some l =>
      (read heap l).map fun node =>
        { q with heap := heap.set l (some { node with next := some a }), last := some a }

/-- A spare node is taken where there is one; `false` where none can be allocated. -/
def put (q : Queue α) (v : α) (allocated : Bool) : Option (Queue α × Bool) :=
  match q.spare with
  | some a =>
      match read q.heap a with
      | none => none
      | some node => (Queue.link { q with spare := node.next } a v).map (·, true)
  | none =>
      if allocated then (Queue.link { q with heap := q.heap ++ [none] } q.heap.length v).map (·, true)
      else some (q, false)

/-- The node at `a`, which held `v`, becomes a spare one. -/
def release (q : Queue α) (a : ℕ) (v : α) : Queue α :=
  { q with heap := q.heap.set a (some ⟨v, q.spare⟩), spare := some a }

/-- The first value. Its node becomes a spare one, which keeps `clear` of the value. -/
def pop (clear : α → α) (q : Queue α) : Option (Queue α × Option α) :=
  match q.first with
  | none => some (q, none)
  | some a =>
      (read q.heap a).map fun node =>
        (release { q with first := node.next, last := if node.next.isSome then q.last else none } a (clear node.val),
          some node.val)

def flushLoop (clear : α → α) : ℕ → Option ℕ → Queue α → Option (Queue α × List α)
  | 0, _, _ => none
  | _ + 1, none, q => some (q, [])
  | n + 1, some a, q =>
      match read q.heap a with
      | none => none
      | some node => (flushLoop clear n node.next (q.release a (clear node.val))).map fun r => (r.1, node.val :: r.2)

/-- All nodes become spare ones. The values come with the queue. -/
def flush (clear : α → α) (q : Queue α) : Option (Queue α × List α) :=
  (flushLoop clear (q.heap.length + 1) q.first q).map fun r => ({ r.1 with first := none, last := none }, r.2)

/-- `*p`, where `p` points to `first` or to the `next` of a node. -/
def deref (q : Queue α) : Option ℕ → Option (Option ℕ)
  | none => some q.first
  | some a => (read q.heap a).map (·.next)

/-- `*p = next` -/
def store (q : Queue α) (p next : Option ℕ) : Option (Queue α) :=
  match p with
  | none => some { q with first := next }
  | some a => (read q.heap a).map fun node => { q with heap := q.heap.set a (some { node with next := next }) }

/-- The node at `a`, to which `*p` points, is taken out and becomes a spare one. -/
def unlink (clear : α → α) (q : Queue α) (p : Option ℕ) (a : ℕ) (node : Node α) : Option (Queue α) :=
  (q.store p node.next).map (·.release a (clear node.val))

/-- `last` is the node before `*p`. -/
def removeLoop (clear : α → α) (drop : α → Bool) :
    ℕ → Option ℕ → Option ℕ → Queue α → Option (Queue α × Option ℕ × List α)
  | 0, _, _, _ => none
  | n + 1, p, last, q =>
      match q.deref p with
      | none => none
      | some none => some (q, last, [])
      | some (some a) =>
          match read q.heap a with
          | none => none
          | some node =>
              if drop node.val then
                match q.unlink clear p a node with
                | none => none
                | some q => (removeLoop clear drop n p last q).map fun r => (r.1, r.2.1, node.val :: r.2.2)
              else removeLoop clear drop n (some a) (some a) q

/-- The nodes with a value that `drop` tells become spare ones. -/
def remove (clear : α → α) (drop : α → Bool) (q : Queue α) : Option (Queue α × List α) :=
  if q.first.isSome then
    (removeLoop clear drop (q.heap.length + 1) none q.first q).map fun r =>
      ({ r.1 with last := if r.1.first.isSome then r.2.1 else none }, r.2.2)
  else some (q, [])

def freeLoop : ℕ → Queue α → Option (Queue α × List α)
  | 0, _ => none
  | n + 1, q =>
      match q.spare with
      | none => some (q, [])
      | some a =>
          match read q.heap a with
          | none => none
          | some node =>
              (freeLoop n { q with heap := q.heap.set a none, spare := node.next }).map fun r => (r.1, node.val :: r.2)

/-- The spare nodes are freed. -/
def free (q : Queue α) : Option (Queue α × List α) := freeLoop (q.heap.length + 1) q

end Queue

/-! ## Segments -/

/-- The pointers lead from `p` over the nodes `l`, each with its address and its value, to `q`. -/
def Seg (h : Heap α) : Option ℕ → List (ℕ × α) → Option ℕ → Prop
  | p, [], q => p = q
  | p, (a, v) :: l, q => p = some a ∧ ∃ next, read h a = some ⟨v, next⟩ ∧ Seg h next l q

theorem read_lt {h : Heap α} {a : ℕ} {n : Node α} (hr : read h a = some n) : a < h.length := by
  rw [read] at hr
  cases hget : h[a]? with
  | none => rw [hget] at hr; cases hr
  | some o => exact (List.getElem?_eq_some_iff.mp hget).1

theorem read_set_self {h : Heap α} {a : ℕ} (ha : a < h.length) (n : Option (Node α)) : read (h.set a n) a = n := by
  rw [read, List.getElem?_set_self ha, Option.join_some]

theorem read_set_of_ne {h : Heap α} {a b : ℕ} (hab : a ≠ b) (n : Option (Node α)) : read (h.set a n) b = read h b := by
  rw [read, List.getElem?_set_ne hab, read]

theorem read_append {h : Heap α} {a : ℕ} (ha : a < h.length) (n : Option (Node α)) : read (h ++ [n]) a = read h a := by
  rw [read, List.getElem?_append_left ha, read]

variable {h : Heap α} {p q : Option ℕ} {l r : List (ℕ × α)} {a : ℕ} {v : α}

theorem Seg.lt (hs : Seg h p l q) (ha : a ∈ l.map Prod.fst) : a < h.length := by
  induction l generalizing p with
  | nil => cases ha
  | cons b l ih =>
      obtain ⟨_, next, hr, hl⟩ := hs
      rcases List.mem_cons.mp ha with rfl | ha
      · exact read_lt hr
      · exact ih hl ha

theorem Seg.congr {h' : Heap α} (hs : Seg h p l q) (hread : ∀ a ∈ l.map Prod.fst, read h' a = read h a) :
    Seg h' p l q := by
  induction l generalizing p with
  | nil => exact hs
  | cons b l ih =>
      obtain ⟨hp, next, hr, hl⟩ := hs
      exact ⟨hp, next, (hread _ (by simp)).trans hr, ih hl fun a ha => hread a (by simp [ha])⟩

/-- A write elsewhere does not change the segment. -/
theorem Seg.set (hs : Seg h p l q) (ha : a ∉ l.map Prod.fst) (n : Option (Node α)) : Seg (h.set a n) p l q :=
  hs.congr fun b hb => read_set_of_ne (fun hab => ha (by rw [hab]; exact hb)) n

theorem Seg.append_node (hs : Seg h p l q) (n : Option (Node α)) : Seg (h ++ [n]) p l q :=
  hs.congr fun _ hb => read_append (hs.lt hb) n

theorem seg_append {s : Option ℕ} : Seg h p (l ++ r) s ↔ ∃ q, Seg h p l q ∧ Seg h q r s := by
  induction l generalizing p with
  | nil => exact ⟨fun hr => ⟨p, rfl, hr⟩, fun ⟨_, hp, hr⟩ => hp ▸ hr⟩
  | cons b l ih =>
      constructor
      · rintro ⟨hp, next, hr, hl⟩
        obtain ⟨q, hl, hs⟩ := ih.mp hl
        exact ⟨q, ⟨hp, next, hr, hl⟩, hs⟩
      · rintro ⟨q, ⟨hp, next, hr, hl⟩, hs⟩
        exact ⟨hp, next, hr, ih.mpr ⟨q, hl, hs⟩⟩

/-- The last node is made to point elsewhere. -/
theorem Seg.redirect (hs : Seg h p (l ++ [(a, v)]) q) (hnd : a ∉ l.map Prod.fst) (q' : Option ℕ) :
    Seg (h.set a (some ⟨v, q'⟩)) p (l ++ [(a, v)]) q' := by
  obtain ⟨m, hl, hm, next, hr, _⟩ := seg_append.mp hs
  exact seg_append.mpr ⟨m, hl.set hnd _, hm, q', read_set_self (read_lt hr) _, rfl⟩

namespace Queue

/-- The nodes of the queue are `cells` and the spare ones `spares`, which are all nodes there are. -/
structure Holds (q : Queue α) (cells spares : List (ℕ × α)) : Prop where
  queue : Seg q.heap q.first cells none
  last : q.last = (cells.map Prod.fst).getLast?
  spare : Seg q.heap q.spare spares none
  nodup : ((cells ++ spares).map Prod.fst).Nodup
  all : q.heap.length = (cells ++ spares).length

variable {q q' : Queue α} {cells spares : List (ℕ × α)} {clear : α → α} {drop : α → Bool}

theorem Holds.empty : (empty : Queue α).Holds [] [] := ⟨rfl, rfl, rfl, .nil, rfl⟩

theorem link_spec {h : Heap α} {first last spare : Option ℕ} (hqueue : Seg h first cells none)
    (hlast : last = (cells.map Prod.fst).getLast?) (hspare : Seg h spare spares none)
    (hnd : ((cells ++ (a, v) :: spares).map Prod.fst).Nodup) (ha : a < h.length)
    (hall : h.length = (cells ++ (a, v) :: spares).length) :
    ∃ q', link ⟨h, first, last, spare⟩ a v = some q' ∧ q'.Holds (cells ++ [(a, v)]) spares := by
  have hnotin : a ∉ cells.map Prod.fst ∧ a ∉ spares.map Prod.fst := by
    simp only [List.map_append, List.map_cons, List.nodup_append, List.nodup_cons] at hnd
    exact ⟨fun hmem => hnd.2.2 a hmem a List.mem_cons_self rfl, hnd.2.1.1⟩
  have hnd' : ((cells ++ [(a, v)] ++ spares).map Prod.fst).Nodup := by simpa using hnd
  have hnode : read (h.set a (some ⟨v, none⟩)) a = some ⟨v, none⟩ := read_set_self ha _
  rw [link]
  rcases List.eq_nil_or_concat' cells with rfl | ⟨front, ⟨l, w⟩, rfl⟩
  · obtain rfl : last = none := hlast
    refine ⟨_, rfl, ⟨rfl, none, hnode, rfl⟩, rfl, hspare.set hnotin.2 _, hnd', ?_⟩
    simpa using hall
  · obtain rfl : last = some l := by simpa using hlast
    have hla : a ≠ l := fun hal => hnotin.1 (by simp [hal])
    have hfront : l ∉ front.map Prod.fst ∧ l ∉ spares.map Prod.fst := by
      simp only [List.map_append, List.map_cons, List.append_assoc, List.nodup_append,
        List.nodup_cons, List.cons_append, List.nil_append] at hnd
      exact ⟨fun hmem => hnd.2.2 l hmem l (by simp) rfl, fun hmem => hnd.2.1.1 (by simp [hmem])⟩
    have hset := hqueue.set hnotin.1 (some ⟨v, none⟩)
    have hl : read (h.set a (some ⟨v, none⟩)) l = some ⟨w, none⟩ := by
      obtain ⟨_, _, _, next, hr, rfl⟩ := seg_append.mp hset
      exact hr
    have hlen : a < (h.set a (some ⟨v, none⟩)).length := by rw [List.length_set]; exact ha
    simp only [hl, Option.map_some]
    refine ⟨_, rfl, seg_append.mpr ⟨some a, hset.redirect hfront.1 _, rfl, none, ?_, rfl⟩, by simp, ?_, hnd', ?_⟩
    · exact (read_set_of_ne (Ne.symm hla) _).trans hnode
    · exact (hspare.set hnotin.2 _).set hfront.2 _
    · simpa using hall

theorem Holds.put (hq : q.Holds cells spares) (v : α) (allocated : Bool) :
    (spares = [] ∧ allocated = false ∧ q.put v allocated = some (q, false)) ∨
      ∃ q' a, q.put v allocated = some (q', true) ∧ q'.Holds (cells ++ [(a, v)]) spares.tail ∧
        (spares = [] → allocated = true) := by
  obtain ⟨h, first, last, spare⟩ := q
  obtain ⟨hqueue, hlast, hspare, hnd, hall⟩ := hq
  cases spares with
  | nil =>
      obtain rfl : spare = none := hspare
      cases allocated with
      | false => exact .inl ⟨rfl, rfl, rfl⟩
      | true =>
          have hnd' : ((cells ++ [(h.length, v)]).map Prod.fst).Nodup := by
            rw [List.append_nil] at hnd
            rw [List.map_append, List.nodup_append]
            refine ⟨hnd, List.nodup_singleton _, fun b hb c hc => ?_⟩
            have hlt := hqueue.lt hb
            rw [List.mem_singleton.mp hc]
            exact Nat.ne_of_lt hlt
          have hnone : Seg (h ++ [none]) none ([] : List (ℕ × α)) none := rfl
          obtain ⟨q', hlink, hq'⟩ := link_spec (hqueue.append_node none) hlast hnone hnd'
            (by simp) (by simpa using hall)
          exact .inr ⟨q', h.length, by simp only [Queue.put, hlink]; rfl, hq', fun _ => rfl⟩
  | cons c rest =>
      obtain ⟨rfl, next, hr, hrest⟩ := hspare
      obtain ⟨q', hlink, hq'⟩ := link_spec hqueue hlast hrest (by simpa using hnd) (read_lt hr)
        (by simpa using hall)
      exact .inr ⟨q', c.1, by simp only [Queue.put, hr, hlink]; rfl, hq', nofun⟩

theorem perm_moved (l r : List (ℕ × α)) (a : ℕ) (w : α) :
    (a :: (l ++ r).map Prod.fst).Perm ((l ++ (a, w) :: r).map Prod.fst) := by
  rw [List.map_append, List.map_append, List.map_cons]
  exact List.perm_middle.symm

theorem Holds.pop (hq : q.Holds cells spares) (clear : α → α) :
    (cells = [] ∧ q.pop clear = some (q, none)) ∨
      ∃ a v rest q', cells = (a, v) :: rest ∧ q.pop clear = some (q', some v) ∧
        q'.Holds rest ((a, clear v) :: spares) := by
  obtain ⟨h, first, last, spare⟩ := q
  obtain ⟨hqueue, hlast, hspare, hnd, hall⟩ := hq
  cases cells with
  | nil =>
      obtain rfl : first = none := hqueue
      exact .inl ⟨rfl, rfl⟩
  | cons c rest =>
      obtain ⟨a, v⟩ := c
      obtain ⟨rfl, next, hr, hrest⟩ := hqueue
      simp only [List.cons_append, List.map_cons, List.nodup_cons, List.map_append, List.mem_append, not_or] at hnd
      refine .inr ⟨a, v, rest, _, rfl, by simp only [Queue.pop, hr]; rfl, hrest.set hnd.1.1 _, ?_,
        ⟨rfl, spare, read_set_self (read_lt hr) _, hspare.set hnd.1.2 _⟩, ?_, ?_⟩
      · cases rest with
        | nil =>
            obtain rfl : next = none := hrest
            rfl
        | cons d rest =>
            obtain ⟨rfl, _⟩ := hrest
            change last = _
            simpa using hlast
      · exact (perm_moved rest spares a (clear v)).nodup (by simpa using hnd)
      · rw [release, List.length_set, hall]
        simp only [List.length_append, List.length_cons]
        omega

/-! ## flush -/

/-- The nodes from `p` on become spare ones. -/
theorem flushLoop_spec {n : ℕ} (hn : cells.length < n) (hcells : Seg q.heap p cells none)
    (hspare : Seg q.heap q.spare spares none) (hnd : ((cells ++ spares).map Prod.fst).Nodup) :
    ∃ q', flushLoop clear n p q = some (q', cells.map Prod.snd) ∧ q'.heap.length = q.heap.length ∧
      Seg q'.heap q'.spare ((cells.map fun c => (c.1, clear c.2)).reverse ++ spares) none := by
  induction cells generalizing n p q spares with
  | nil =>
      obtain ⟨n, rfl⟩ := Nat.exists_eq_add_one_of_ne_zero (Nat.ne_zero_of_lt hn)
      obtain rfl : p = none := hcells
      exact ⟨q, rfl, rfl, hspare⟩
  | cons c cells ih =>
      obtain ⟨a, v⟩ := c
      obtain ⟨n, rfl⟩ := Nat.exists_eq_add_one_of_ne_zero (Nat.ne_zero_of_lt hn)
      obtain ⟨rfl, next, hr, hrest⟩ := hcells
      have hnd' : (a :: (cells ++ spares).map Prod.fst).Nodup := hnd
      obtain ⟨hnotin, _⟩ := List.nodup_cons.mp hnd'
      rw [List.map_append, List.mem_append, not_or] at hnotin
      have hreleased : Seg (q.release a (clear v)).heap (q.release a (clear v)).spare ((a, clear v) :: spares) none :=
        ⟨rfl, q.spare, read_set_self (read_lt hr) _, hspare.set hnotin.2 _⟩
      obtain ⟨q', hloop, hlen, hseg⟩ := ih (n := n) (Nat.lt_of_succ_lt_succ hn) (hrest.set hnotin.1 _) hreleased
        ((perm_moved cells spares a (clear v)).nodup hnd')
      refine ⟨q', by simp only [flushLoop, hr, hloop]; rfl, by rw [hlen, release, List.length_set], ?_⟩
      simpa using hseg

theorem Holds.flush (hq : q.Holds cells spares) (clear : α → α) :
    ∃ q', q.flush clear = some (q', cells.map Prod.snd) ∧
      q'.Holds [] ((cells.map fun c => (c.1, clear c.2)).reverse ++ spares) := by
  have hall := hq.all
  rw [List.length_append] at hall
  obtain ⟨q', hloop, hlen, hseg⟩ := flushLoop_spec (by omega : cells.length < q.heap.length + 1) hq.queue hq.spare
    hq.nodup
  refine ⟨{ q' with first := none, last := none }, by rw [Queue.flush, hloop]; rfl, rfl, rfl, hseg, ?_, ?_⟩
  · have hperm : ((cells ++ spares).map Prod.fst).Perm
        ((([] : List (ℕ × α)) ++ ((cells.map fun c => (c.1, clear c.2)).reverse ++ spares)).map Prod.fst) := by
      simp only [List.nil_append, List.map_append, List.map_reverse, List.map_map]
      exact (List.reverse_perm _).symm.append_right _
    exact hperm.nodup hq.nodup
  · change q'.heap.length = _
    simpa [hlen] using hall

/-! ## remove -/

theorem deref_spec {kept : List (ℕ × α)} (hseg : Seg q.heap q.first (kept ++ cells) none) :
    q.deref (kept.map Prod.fst).getLast? = some (cells.head?.map Prod.fst) := by
  have hhead : ∀ p, Seg q.heap p cells none → p = cells.head?.map Prod.fst := by
    intro p hp
    cases cells with
    | nil => exact hp
    | cons c rest => exact hp.1
  rcases List.eq_nil_or_concat' kept with rfl | ⟨front, ⟨b, w⟩, rfl⟩
  · exact congrArg some (hhead _ hseg)
  · obtain ⟨_, hfront, hcells⟩ := seg_append.mp hseg
    obtain ⟨_, _, _, next, hr, rfl⟩ := seg_append.mp hfront
    have hlast : ((front ++ [(b, w)]).map Prod.fst).getLast? = some b := by simp
    rw [hlast, deref, hr, Option.map_some, hhead _ hcells]

/-- A node is taken out of the segment. -/
theorem unlink_spec (clear : α → α) {kept rest : List (ℕ × α)} (hseg : Seg q.heap q.first (kept ++ (a, v) :: rest) none)
    (hspare : Seg q.heap q.spare spares none) (hnd : ((kept ++ (a, v) :: rest ++ spares).map Prod.fst).Nodup) :
    ∃ node q', read q.heap a = some node ∧ node.val = v ∧
      q.unlink clear (kept.map Prod.fst).getLast? a node = some q' ∧ q'.heap.length = q.heap.length ∧
      Seg q'.heap q'.first (kept ++ rest) none ∧ Seg q'.heap q'.spare ((a, clear v) :: spares) none := by
  obtain ⟨m, hkept, rfl, next, hr, hrest⟩ := seg_append.mp hseg
  have hdisj : a ∉ kept.map Prod.fst ∧ a ∉ rest.map Prod.fst ∧ a ∉ spares.map Prod.fst := by
    simp only [List.map_append, List.map_cons, List.append_assoc, List.cons_append, List.nodup_append,
      List.nodup_cons, List.mem_append, not_or] at hnd
    exact ⟨fun hmem => hnd.2.2 a hmem a List.mem_cons_self rfl, hnd.2.1.1⟩
  rcases List.eq_nil_or_concat' kept with rfl | ⟨front, ⟨b, w⟩, rfl⟩
  · exact ⟨_, _, hr, rfl, rfl, List.length_set, hrest.set hdisj.2.1 _, rfl, q.spare, read_set_self (read_lt hr) _,
      hspare.set hdisj.2.2 _⟩
  · have hb : b ∉ front.map Prod.fst ∧ b ∉ rest.map Prod.fst ∧ b ∉ spares.map Prod.fst := by
      simp only [List.map_append, List.map_cons, List.append_assoc, List.cons_append, List.nil_append,
        List.nodup_append, List.nodup_cons, List.mem_cons, List.mem_append, not_or] at hnd
      exact ⟨fun hmem => hnd.2.2 b hmem b (.inl rfl) rfl, hnd.2.1.1.2⟩
    have hba : b ≠ a := fun hab => hdisj.1 (by simp [hab])
    have hlast : ((front ++ [(b, w)]).map Prod.fst).getLast? = some b := by simp
    obtain ⟨_, hfront, hm, next', hr', hm'⟩ := seg_append.mp hkept
    have hlen : a < (q.heap.set b (some ⟨w, next⟩)).length := by rw [List.length_set]; exact read_lt hr
    rw [hlast]
    refine ⟨_, _, hr, rfl, by rw [unlink, store, hr']; rfl, ?_, ?_, rfl, q.spare, read_set_self hlen _, ?_⟩
    · simp [release]
    · exact seg_append.mpr ⟨next, (hkept.redirect hb.1 next).set hdisj.1 _, (hrest.set hb.2.1 _).set hdisj.2.1 _⟩
    · exact (hspare.set hb.2.2 _).set hdisj.2.2 _

/-- The nodes `kept` have been passed, and `cells` are still to come. -/
theorem removeLoop_spec {n : ℕ} (kept : List (ℕ × α)) (last : Option ℕ) (hn : cells.length < n)
    (hseg : Seg q.heap q.first (kept ++ cells) none) (hspare : Seg q.heap q.spare spares none)
    (hnd : ((kept ++ cells ++ spares).map Prod.fst).Nodup)
    (hlast : kept ≠ [] → last = (kept.map Prod.fst).getLast?) :
    ∃ q' last', removeLoop clear drop n (kept.map Prod.fst).getLast? last q =
        some (q', last', (cells.map Prod.snd).filter drop) ∧ q'.heap.length = q.heap.length ∧
      Seg q'.heap q'.first (kept ++ cells.filter fun c => !drop c.2) none ∧
      Seg q'.heap q'.spare
        (((cells.filter fun c => drop c.2).map fun c => (c.1, clear c.2)).reverse ++ spares) none ∧
      (kept ++ cells.filter (fun c => !drop c.2) ≠ [] →
        last' = ((kept ++ cells.filter fun c => !drop c.2).map Prod.fst).getLast?) := by
  induction cells generalizing n kept last q spares with
  | nil =>
      obtain ⟨n, rfl⟩ := Nat.exists_eq_add_one_of_ne_zero (Nat.ne_zero_of_lt hn)
      refine ⟨q, last, by simp only [removeLoop, deref_spec hseg]; rfl, rfl, hseg, hspare, fun hne => ?_⟩
      simpa using hlast (by simpa using hne)
  | cons c cells ih =>
      obtain ⟨a, v⟩ := c
      obtain ⟨n, rfl⟩ := Nat.exists_eq_add_one_of_ne_zero (Nat.ne_zero_of_lt hn)
      have hn' : cells.length < n := Nat.lt_of_succ_lt_succ hn
      obtain ⟨node, q₁, hr, rfl, hunlink, hlen, hkept, hspares⟩ := unlink_spec clear hseg hspare hnd
      have hderef := deref_spec hseg
      rw [List.head?_cons, Option.map_some] at hderef
      cases hdrop : drop node.val with
      | true =>
          have hnd' : ((kept ++ cells ++ (a, clear node.val) :: spares).map Prod.fst).Nodup := by
            refine (perm_moved (kept ++ cells) spares a (clear node.val)).nodup ?_
            have hperm := perm_moved kept (cells ++ spares) a node.val
            rw [← List.append_assoc] at hperm
            exact hperm.symm.nodup (by simpa using hnd)
          obtain ⟨q', last', hloop, hlen', hfirst, hspare', hlast'⟩ := ih kept last hn' hkept hspares hnd' hlast
          refine ⟨q', last', ?_, hlen'.trans hlen, ?_, ?_, ?_⟩
          · simp only [removeLoop, hderef, hr, hdrop, if_true, hunlink, hloop, List.map_cons, List.filter_cons]
            rfl
          · simpa [hdrop] using hfirst
          · simpa [hdrop] using hspare'
          · simpa [hdrop] using hlast'
      | false =>
          have hnext : ((kept ++ [(a, node.val)]).map Prod.fst).getLast? = some a := by simp
          obtain ⟨q', last', hloop, hlen', hfirst, hspare', hlast'⟩ := ih (q := q) (kept ++ [(a, node.val)])
            (some a) hn'
            (by simpa using hseg) hspare (by simpa using hnd) fun _ => hnext.symm
          rw [hnext] at hloop
          refine ⟨q', last', ?_, hlen', ?_, ?_, ?_⟩
          · simp only [removeLoop, hderef, hr, hdrop, hloop, List.map_cons, List.filter_cons]
            rfl
          · simpa [hdrop] using hfirst
          · simpa [hdrop] using hspare'
          · simpa [hdrop] using hlast'

theorem Holds.remove (hq : q.Holds cells spares) (clear : α → α) (drop : α → Bool) :
    ∃ q', q.remove clear drop = some (q', (cells.map Prod.snd).filter drop) ∧
      q'.Holds (cells.filter fun c => !drop c.2)
        (((cells.filter fun c => drop c.2).map fun c => (c.1, clear c.2)).reverse ++ spares) := by
  have hall := hq.all
  have hqueue := hq.queue
  have hperm : (((cells.filter fun c => !drop c.2) ++
      (((cells.filter fun c => drop c.2).map fun c => (c.1, clear c.2)).reverse ++ spares)).map Prod.fst).Perm
        ((cells ++ spares).map Prod.fst) := by
    have hparts := (List.filter_append_perm (fun c : ℕ × α => drop c.2) cells).map Prod.fst
    simp only [List.map_append, List.map_reverse, List.map_map, ← List.append_assoc] at hparts ⊢
    refine List.Perm.append_right _ (List.Perm.trans ?_ hparts)
    exact (List.Perm.append_left _ (List.reverse_perm _)).trans List.perm_append_comm
  rw [Queue.remove]
  cases cells with
  | nil =>
      have hfirst : q.first = none := hqueue
      rw [hfirst]
      exact ⟨q, rfl, hq⟩
  | cons c cells =>
      obtain ⟨hfirst, _⟩ := hqueue
      have hfuel : (c :: cells).length < q.heap.length + 1 := by
        rw [hall, List.length_append]
        omega
      obtain ⟨q', last', hloop, hlen, hfirst', hspare, hlast⟩ := removeLoop_spec [] q.first hfuel hq.queue hq.spare
        hq.nodup nofun
      rw [if_pos (by rw [hfirst]; rfl)]
      refine ⟨{ q' with last := if q'.first.isSome then last' else none }, ?_, hfirst', ?_, hspare,
        hperm.symm.nodup hq.nodup, ?_⟩
      · rw [List.map_nil, List.getLast?_nil] at hloop
        rw [hloop]
        rfl
      · rw [List.nil_append] at hfirst' hlast
        change (if q'.first.isSome then last' else none) = _
        cases hrest : (c :: cells).filter fun c => !drop c.2 with
        | nil =>
            rw [hrest] at hfirst'
            have hnone : q'.first = none := hfirst'
            rw [hnone]
            rfl
        | cons d rest =>
            rw [hrest] at hfirst' hlast
            rw [hfirst'.1, hlast (by simp)]
            rfl
      · have hlength := hperm.length_eq
        rw [List.length_map, List.length_map] at hlength
        exact hlen.trans (hall.trans hlength.symm)

theorem map_snd_filter (p : α → Bool) (l : List (ℕ × α)) :
    (l.filter fun c => p c.2).map Prod.snd = (l.map Prod.snd).filter p := by
  rw [List.filter_map]
  rfl

theorem map_snd_clear (clear : α → α) (l : List (ℕ × α)) :
    (l.map fun c => (c.1, clear c.2)).map Prod.snd = (l.map Prod.snd).map clear := by
  rw [List.map_map, List.map_map]
  rfl

/-! ## free -/

theorem freeLoop_spec {n : ℕ} (hn : spares.length < n) (hspare : Seg q.heap q.spare spares none)
    (hnd : (spares.map Prod.fst).Nodup) :
    ∃ q', freeLoop n q = some (q', spares.map Prod.snd) ∧ q'.spare = none ∧ q'.heap.length = q.heap.length ∧
      (∀ a ∈ spares.map Prod.fst, read q'.heap a = none) ∧
      ∀ a, read q.heap a = none → read q'.heap a = none := by
  induction spares generalizing n q with
  | nil =>
      obtain ⟨n, rfl⟩ := Nat.exists_eq_add_one_of_ne_zero (Nat.ne_zero_of_lt hn)
      have hnone : q.spare = none := hspare
      exact ⟨q, by simp only [freeLoop, hnone]; rfl, hnone, rfl, nofun, fun _ h => h⟩
  | cons c spares ih =>
      obtain ⟨a, v⟩ := c
      obtain ⟨n, rfl⟩ := Nat.exists_eq_add_one_of_ne_zero (Nat.ne_zero_of_lt hn)
      obtain ⟨hsome, next, hr, hrest⟩ := hspare
      obtain ⟨hnotin, hnd'⟩ := List.nodup_cons.mp hnd
      obtain ⟨q', hloop, hnone, hlen, hgone, hstays⟩ := ih (q := { q with heap := q.heap.set a none, spare := next })
        (Nat.lt_of_succ_lt_succ hn) (hrest.set hnotin none) hnd'
      have ha : read q'.heap a = none := hstays a (read_set_self (read_lt hr) none)
      refine ⟨q', by simp only [freeLoop, hsome, hr, hloop]; rfl, hnone, by rw [hlen, List.length_set], ?_, ?_⟩
      · intro b hb
        rcases List.mem_cons.mp hb with rfl | hb
        · exact ha
        · exact hgone b hb
      · intro b hb
        rcases eq_or_ne a b with rfl | hab
        · exact ha
        · exact hstays b ((read_set_of_ne hab none).trans hb)

/-- Where the queue is empty all memory is freed, and no node twice. -/
theorem Holds.free (hq : q.Holds [] spares) :
    ∃ q', q.free = some (q', spares.map Prod.snd) ∧ q'.spare = none ∧ ∀ a, read q'.heap a = none := by
  have hall : q.heap.length = spares.length := hq.all
  have hnd : (spares.map Prod.fst).Nodup := hq.nodup
  obtain ⟨q', hloop, hnone, hlen, hgone, _⟩ := freeLoop_spec (by omega : spares.length < q.heap.length + 1) hq.spare hnd
  refine ⟨q', hloop, hnone, fun a => ?_⟩
  rcases Nat.lt_or_ge a q.heap.length with hlt | hge
  · refine hgone a ?_
    have hsub : spares.map Prod.fst ⊆ List.range q.heap.length := fun b hb => List.mem_range.mpr (hq.spare.lt hb)
    have hperm := (List.subperm_of_subset hnd hsub).perm_of_length_le (by simp [hall])
    exact hperm.symm.subset (List.mem_range.mpr hlt)
  · rw [read, List.getElem?_eq_none (by omega)]
    rfl

end Queue

end Linked

import MyDemo.Ijkmedia.PacketQueue
import MyDemo.Lib.Trace
import Mathlib.Algebra.BigOperators.Group.List.Basic
import Mathlib.Algebra.Ring.Int.Defs

/-!
# The contents of the packet queue
-/

namespace MyDemo.Ijkmedia

variable {β : Type*}

namespace PacketQueue

/-- The nodes with packets, and the number of those that are kept for reuse. -/
structure Contents (β : Type*) where
  nodes : List (MyAVPacketList β)
  spare : ℕ
  abort_request : Bool
  serial : ℕ

namespace Contents

def empty : Contents β := ⟨[], 0, true, 0⟩

def nextSerial (c : Contents β) (pkt : AVPacket β) : ℕ := if pkt.isFlush then c.serial + 1 else c.serial

def Refuses (c : Contents β) (allocated : Bool) : Prop := c.abort_request = true ∨ c.spare = 0 ∧ allocated = false

instance (c : Contents β) (allocated : Bool) : Decidable (c.Refuses allocated) := inferInstanceAs (Decidable (_ ∨ _))

def put (c : Contents β) (pkt : AVPacket β) (allocated : Bool) : Contents β × ℤ :=
  if c.Refuses allocated then (c, -1)
  else
    ({ c with
        nodes := c.nodes ++ [⟨pkt, c.nextSerial pkt⟩]
        spare := c.spare - 1
        serial := c.nextSerial pkt }, 0)

def flush (c : Contents β) : Contents β := { c with nodes := [], spare := c.nodes.length + c.spare }

def get (c : Contents β) (block : Bool) : Contents β × GotPacket β :=
  if c.abort_request then (c, .ret (-1))
  else
    match c.nodes with
    | [] => (c, if block then .wait else .ret 0)
    | node :: nodes => ({ c with nodes := nodes, spare := c.spare + 1 }, .pkt node)

def putOutcome (c : Contents β) (pkt : AVPacket β) (allocated : Bool) : Contents β × Outcome β :=
  ((c.put pkt allocated).1,
    ⟨.ret (c.put pkt allocated).2, if !pkt.isFlush ∧ (c.put pkt allocated).2 < 0 then [pkt] else []⟩)

def call (c : Contents β) : Call β → Contents β × Outcome β
  | .packet_queue_put pkt allocated => c.putOutcome pkt allocated
  | .packet_queue_put_nullpacket allocated => c.putOutcome .blank allocated
  | .packet_queue_flush => (c.flush, ⟨.ret 0, c.nodes.map (·.pkt)⟩)
  | .packet_queue_abort => ({ c with abort_request := true }, ⟨.ret 0, []⟩)
  | .packet_queue_start allocated => putOutcome { c with abort_request := false } .flush_pkt allocated
  | .packet_queue_get block => ((c.get block).1, ⟨(c.get block).2, []⟩)

end Contents

/-- The memory of the queue holds the contents, and the counters tell what is in it. -/
structure Models (sizeof_pkt : ℤ) (q : PacketQueue β) (c : Contents β) : Prop where
  holds : ∃ cells spares, q.list.Holds cells spares ∧ cells.map Prod.snd = c.nodes ∧ spares.length = c.spare
  nb_packets : q.nb_packets = c.nodes.length
  size : q.size = toInt (c.nodes.map (nodeSize sizeof_pkt)).sum
  duration : q.duration = toInt64 (c.nodes.map nodeDuration).sum
  abort_request : q.abort_request = c.abort_request
  serial : q.serial = c.serial

variable {sizeof_pkt : ℤ} {q : PacketQueue β} {c : Contents β}

theorem Models.init : Models sizeof_pkt (packet_queue_init : PacketQueue β) .empty :=
  ⟨⟨[], [], .empty, rfl, rfl⟩, rfl, rfl, rfl, rfl, rfl⟩

theorem toInt_add (a b : ℤ) : toInt (toInt a + b) = toInt (a + b) := Int.bmod_add_bmod

theorem toInt_sub (a b : ℤ) : toInt (toInt a - b) = toInt (a - b) := Int.bmod_sub_bmod

theorem toInt64_add (a b : ℤ) : toInt64 (toInt64 a + b) = toInt64 (a + b) := Int.bmod_add_bmod

theorem toInt64_sub (a b : ℤ) : toInt64 (toInt64 a - b) = toInt64 (a - b) := Int.bmod_sub_bmod

theorem countNode_frame (q : PacketQueue β) :
    q.countNode.nb_packets = q.nb_packets ∧ q.countNode.size = q.size ∧ q.countNode.duration = q.duration ∧
      q.countNode.abort_request = q.abort_request ∧ q.countNode.serial = q.serial := by
  rw [countNode]
  split
  · exact ⟨rfl, rfl, rfl, rfl, rfl⟩
  · exact ⟨rfl, rfl, rfl, rfl, rfl⟩

theorem Models.put_private (h : Models sizeof_pkt q c) (pkt : AVPacket β) (allocated : Bool) :
    ∃ q', q.packet_queue_put_private sizeof_pkt pkt allocated = some (q', (c.put pkt allocated).2) ∧
      Models sizeof_pkt q' (c.put pkt allocated).1 := by
  obtain ⟨⟨cells, spares, hholds, hnodes, hspare⟩, hnb, hsize, hduration, habort, hserial⟩ := id h
  have hnil : spares = [] ↔ c.spare = 0 := by rw [← hspare, List.length_eq_zero_iff]
  rw [packet_queue_put_private, Contents.put]
  by_cases hc : c.abort_request = true
  · rw [if_pos (habort.trans hc), if_pos (.inl hc)]
    exact ⟨q, rfl, h⟩
  · obtain ⟨hnb', hsize', hduration', habort', hserial'⟩ := countNode_frame q
    have hnext : (if pkt.isFlush then q.serial + 1 else q.serial) = c.nextSerial pkt := by
      rw [hserial]
      rfl
    rw [if_neg (habort ▸ hc)]
    simp only [hnext]
    rcases hholds.put (⟨pkt, c.nextSerial pkt⟩ : MyAVPacketList β) allocated with
      ⟨hspares, rfl, hput⟩ | ⟨list, a, hput, hholds', hnew⟩
    · rw [hput, if_pos (.inr ⟨hnil.mp hspares, rfl⟩)]
      exact ⟨_, rfl, ⟨cells, spares, hholds, hnodes, hspare⟩, hnb'.trans hnb, hsize'.trans hsize,
        hduration'.trans hduration, habort'.trans habort, hserial'.trans hserial⟩
    · have hnot : ¬c.Refuses allocated := by
        rintro (hf | ⟨hs, hf⟩)
        · exact hc hf
        · rw [hnew (hnil.mpr hs)] at hf
          cases hf
      rw [hput, if_neg hnot]
      refine ⟨_, rfl, ⟨_, _, hholds', by simp [hnodes], by simp [hspare]⟩, ?_, ?_, ?_, habort'.trans habort, rfl⟩
      · change q.nb_packets + 1 = ((c.nodes ++ [_]).length : ℤ)
        rw [hnb, List.length_append]
        rfl
      · change toInt (q.size + _) = toInt ((c.nodes ++ [_]).map _).sum
        rw [hsize, toInt_add, List.map_append, List.sum_append, List.map_singleton, List.sum_singleton]
      · change toInt64 (q.duration + _) = toInt64 ((c.nodes ++ [_]).map _).sum
        rw [hduration, toInt64_add, List.map_append, List.sum_append, List.map_singleton, List.sum_singleton]

theorem Models.put (h : Models sizeof_pkt q c) (pkt : AVPacket β) (allocated : Bool) :
    ∃ q', (q.packet_queue_put sizeof_pkt pkt allocated).map (fun r => (r.1, (⟨.ret r.2.1, r.2.2⟩ : Outcome β))) =
        some (q', (c.putOutcome pkt allocated).2) ∧ Models sizeof_pkt q' (c.putOutcome pkt allocated).1 := by
  obtain ⟨q', hput, h'⟩ := h.put_private pkt allocated
  exact ⟨q', by rw [packet_queue_put, hput]; rfl, h'⟩

theorem Models.flush (h : Models sizeof_pkt q c) :
    ∃ q', q.packet_queue_flush = some (q', c.nodes.map (·.pkt)) ∧ Models sizeof_pkt q' c.flush := by
  obtain ⟨⟨cells, spares, hholds, hnodes, hspare⟩, _, _, _, habort, hserial⟩ := h
  obtain ⟨list, hflush, hholds'⟩ := hholds.flush fun node => { node with pkt := .blank }
  refine ⟨{ q with list := list, nb_packets := 0, size := 0, duration := 0 }, ?_, ⟨_, _, hholds', rfl, ?_⟩, rfl, rfl,
    rfl, habort, hserial⟩
  · rw [packet_queue_flush, hflush, ← hnodes]
    rfl
  · simp [Contents.flush, ← hnodes, hspare]

theorem Models.get (h : Models sizeof_pkt q c) (block : Bool) :
    ∃ q', q.packet_queue_get sizeof_pkt block = some (q', (c.get block).2) ∧
      Models sizeof_pkt q' (c.get block).1 := by
  obtain ⟨⟨cells, spares, hholds, hnodes, hspare⟩, hnb, hsize, hduration, habort, hserial⟩ := id h
  rw [packet_queue_get, Contents.get]
  by_cases hc : c.abort_request = true
  · rw [if_pos hc, if_pos (habort.trans hc)]
    exact ⟨q, rfl, h⟩
  · rw [if_neg hc, if_neg (habort ▸ hc)]
    rcases hholds.pop id with ⟨rfl, hpop⟩ | ⟨a, node, rest, list, rfl, hpop, hholds'⟩
    · have hnone : c.nodes = [] := hnodes.symm
      rw [hpop, hnone]
      exact ⟨q, rfl, h⟩
    · have hcons : c.nodes = node :: rest.map Prod.snd := hnodes.symm
      rw [hcons] at hnb hsize hduration
      rw [hpop, hcons]
      refine ⟨_, rfl, ⟨_, _, hholds', rfl, by simp [hspare]⟩, ?_, ?_, ?_, habort, hserial⟩
      · change q.nb_packets - 1 = ((rest.map Prod.snd).length : ℤ)
        rw [hnb, List.length_cons]
        omega
      · change toInt (q.size - _) = toInt _
        rw [hsize, toInt_sub, List.map_cons, List.sum_cons, add_sub_cancel_left]
      · change toInt64 (q.duration - _) = toInt64 _
        rw [hduration, toInt64_sub, List.map_cons, List.sum_cons, add_sub_cancel_left]

theorem follows (sizeof_pkt : ℤ) :
    Trace.Follows (call sizeof_pkt : PacketQueue β → _) Contents.call (Models sizeof_pkt) := by
  intro q c a h
  cases a with
  | packet_queue_put pkt allocated => exact h.put pkt allocated
  | packet_queue_put_nullpacket allocated => exact h.put .blank allocated
  | packet_queue_flush =>
      obtain ⟨q', hflush, h'⟩ := h.flush
      exact ⟨q', congrArg (Option.map _) hflush, h'⟩
  | packet_queue_abort =>
      exact ⟨_, rfl, h.holds, h.nb_packets, h.size, h.duration, rfl, h.serial⟩
  | packet_queue_start allocated =>
      have h₀ : Models sizeof_pkt { q with abort_request := false } { c with abort_request := false } :=
        ⟨h.holds, h.nb_packets, h.size, h.duration, rfl, h.serial⟩
      obtain ⟨q', hput, h'⟩ := h₀.put_private .flush_pkt allocated
      exact ⟨q', congrArg (Option.map _) hput, h'⟩
  | packet_queue_get block =>
      obtain ⟨q', hget, h'⟩ := h.get block
      exact ⟨q', congrArg (Option.map _) hget, h'⟩

end PacketQueue

end MyDemo.Ijkmedia

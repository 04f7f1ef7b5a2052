import MyDemo.Lib.LinkedQueue
import Mathlib.Algebra.Ring.Nat
import Mathlib.Data.Int.Notation

/-!
# The packet queue

`PacketQueue` of `ff_ffplay.c`. Each function holds the lock from its begin to its end. `β` is the type of the buffers
that packets point to, and `sizeof_pkt` is the size of a node. A read through a pointer that leads nowhere has no
result.
-/

namespace MyDemo.Ijkmedia

def MIN_PKT_DURATION : ℤ := 15

/-- The pointer `data` of a packet. -/
inductive PacketData (β : Type*) where
  | null
  | flush_pkt
  | buf (b : β)
  deriving DecidableEq, Repr

def PacketData.isNull {β : Type*} : PacketData β → Bool
  | .null => true
  | _ => false

structure AVPacket (β : Type*) where
  data : PacketData β
  size : ℤ
  duration : ℤ
  deriving DecidableEq, Repr

structure MyAVPacketList (β : Type*) where
  pkt : AVPacket β
  serial : ℕ
  deriving DecidableEq, Repr

/-- `first_pkt`, `last_pkt` and `recycle_pkt` are the pointers of `list`. -/
structure PacketQueue (β : Type*) where
  list : Linked.Queue (MyAVPacketList β)
  nb_packets : ℤ
  size : ℤ
  duration : ℤ
  abort_request : Bool
  serial : ℕ
  recycle_count : ℕ
  alloc_count : ℕ
  deriving DecidableEq, Repr

variable {β : Type*}

namespace AVPacket

/-- What `av_init_packet` and `av_packet_unref` leave. -/
def blank : AVPacket β := ⟨.null, 0, 0⟩

def flush_pkt : AVPacket β := ⟨.flush_pkt, 0, 0⟩

/-- No other packet has the data of `flush_pkt`. -/
def isFlush (pkt : AVPacket β) : Bool :=
  match pkt.data with
  | .flush_pkt => true
  | _ => false

end AVPacket

/-- What `packet_queue_get` does before it gives up the lock. -/
inductive GotPacket (β : Type*) where
  | ret (ret : ℤ)
  | pkt (node : MyAVPacketList β)
  | wait
  deriving DecidableEq, Repr

namespace PacketQueue

/-- A sum of unsigned integers that is stored in an `int`. -/
def toInt (n : ℤ) : ℤ := n.bmod (2 ^ 32)

/-- A sum that is stored in an `int64_t`. -/
def toInt64 (n : ℤ) : ℤ := n.bmod (2 ^ 64)

def nodeSize (sizeof_pkt : ℤ) (node : MyAVPacketList β) : ℤ := node.pkt.size + sizeof_pkt

def nodeDuration (node : MyAVPacketList β) : ℤ := max node.pkt.duration MIN_PKT_DURATION

def packet_queue_init : PacketQueue β := ⟨.empty, 0, 0, 0, true, 0, 0, 0⟩

def countNode (q : PacketQueue β) : PacketQueue β :=
  if q.list.spare.isSome then { q with recycle_count := q.recycle_count + 1 }
  else { q with alloc_count := q.alloc_count + 1 }

def packet_queue_put_private (sizeof_pkt : ℤ) (q : PacketQueue β) (pkt : AVPacket β) (allocated : Bool) :
    Option (PacketQueue β × ℤ) :=
  if q.abort_request then some (q, -1)
  else
    let serial := if pkt.isFlush then q.serial + 1 else q.serial
    let node : MyAVPacketList β := ⟨pkt, serial⟩
    match q.list.put node allocated with
    | none => none
    | some (list, false) => some ({ q.countNode with list := list }, -1)
    | some (list, true) =>
        some ({ q.countNode with
                list := list
                serial := serial
                nb_packets := q.nb_packets + 1
                size := toInt (q.size + nodeSize sizeof_pkt node)
                duration := toInt64 (q.duration + nodeDuration node) }, 0)

/-- The packets that are released. -/
def packet_queue_put (sizeof_pkt : ℤ) (q : PacketQueue β) (pkt : AVPacket β) (allocated : Bool) :
    Option (PacketQueue β × ℤ × List (AVPacket β)) :=
  (q.packet_queue_put_private sizeof_pkt pkt allocated).map fun r =>
    (r.1, r.2, if !pkt.isFlush ∧ r.2 < 0 then [pkt] else [])

def packet_queue_put_nullpacket (sizeof_pkt : ℤ) (q : PacketQueue β) (allocated : Bool) :
    Option (PacketQueue β × ℤ × List (AVPacket β)) :=
  q.packet_queue_put sizeof_pkt .blank allocated

/-- The packets that are released. -/
def packet_queue_flush (q : PacketQueue β) : Option (PacketQueue β × List (AVPacket β)) :=
  (q.list.flush fun node => { node with pkt := .blank }).map fun r =>
    ({ q with list := r.1, nb_packets := 0, size := 0, duration := 0 }, r.2.map (·.pkt))

/-- The queue must not be used afterwards. -/
def packet_queue_destroy (q : PacketQueue β) : Option (PacketQueue β × List (AVPacket β)) :=
  match q.packet_queue_flush with
  | none => none
  | some (q, pkts) => q.list.free.map fun r => ({ q with list := r.1 }, pkts)

def packet_queue_abort (q : PacketQueue β) : PacketQueue β := { q with abort_request := true }

def packet_queue_start (sizeof_pkt : ℤ) (q : PacketQueue β) (allocated : Bool) : Option (PacketQueue β × ℤ) :=
  packet_queue_put_private sizeof_pkt { q with abort_request := false } .flush_pkt allocated

/-- One pass of the loop. -/
def packet_queue_get (sizeof_pkt : ℤ) (q : PacketQueue β) (block : Bool) : Option (PacketQueue β × GotPacket β) :=
  if q.abort_request then some (q, .ret (-1))
  else
    match q.list.pop id with
    | none => none
    | some (list, some node) =>
        some ({ q with
                list := list
                nb_packets := q.nb_packets - 1
                size := toInt (q.size - nodeSize sizeof_pkt node)
                duration := toInt64 (q.duration - nodeDuration node) }, .pkt node)
    | some (_, none) => some (q, if block then .wait else .ret 0)

/-! ## Calls -/

inductive Call (β : Type*) where
  | packet_queue_put (pkt : AVPacket β) (allocated : Bool)
  | packet_queue_put_nullpacket (allocated : Bool)
  | packet_queue_flush
  | packet_queue_abort
  | packet_queue_start (allocated : Bool)
  | packet_queue_get (block : Bool)
  deriving DecidableEq, Repr

/-- What a call returns, and the packets that it releases. `packet_queue_start` comes with what
`packet_queue_put_private` returns to it. -/
structure Outcome (β : Type*) where
  got : GotPacket β
  released : List (AVPacket β)
  deriving DecidableEq, Repr

def call (sizeof_pkt : ℤ) (q : PacketQueue β) : Call β → Option (PacketQueue β × Outcome β)
  | .packet_queue_put pkt allocated =>
      (q.packet_queue_put sizeof_pkt pkt allocated).map fun r => (r.1, ⟨.ret r.2.1, r.2.2⟩)
  | .packet_queue_put_nullpacket allocated =>
      (q.packet_queue_put_nullpacket sizeof_pkt allocated).map fun r => (r.1, ⟨.ret r.2.1, r.2.2⟩)
  | .packet_queue_flush => q.packet_queue_flush.map fun r => (r.1, ⟨.ret 0, r.2⟩)
  | .packet_queue_abort => some (q.packet_queue_abort, ⟨.ret 0, []⟩)
  | .packet_queue_start allocated => (q.packet_queue_start sizeof_pkt allocated).map fun r => (r.1, ⟨.ret r.2, []⟩)
  | .packet_queue_get block => (q.packet_queue_get sizeof_pkt block).map fun r => (r.1, ⟨r.2, []⟩)

end PacketQueue

end MyDemo.Ijkmedia

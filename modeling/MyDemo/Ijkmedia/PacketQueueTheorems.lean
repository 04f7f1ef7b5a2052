import MyDemo.Ijkmedia.Lemmas.PacketQueue
import Mathlib.Data.List.Count

/-!
# Calls to the packet queue
-/

namespace MyDemo.Ijkmedia

variable {β : Type*}

def GotPacket.node? : GotPacket β → Option (MyAVPacketList β)
  | .pkt node => some node
  | _ => none

namespace PacketQueue

/-! ## What goes in and out -/

/-- The packet that a call puts. -/
def Call.pkt? : Call β → Option (AVPacket β)
  | .packet_queue_put pkt _ => some pkt
  | .packet_queue_put_nullpacket _ => some .blank
  | .packet_queue_start _ => some .flush_pkt
  | _ => none

def Call.isFlush : Call β → Bool
  | .packet_queue_flush => true
  | _ => false

abbrev Log (β : Type*) := List (Call β × Outcome β)

def returnsZero : GotPacket β → Bool
  | .ret n => n = 0
  | _ => false

namespace Log

def given (log : Log β) : List (AVPacket β) := log.filterMap fun a => a.1.pkt?

def accepted (log : Log β) : List (AVPacket β) :=
  log.filterMap fun a => if returnsZero a.2.got then a.1.pkt? else none

def got (log : Log β) : List (MyAVPacketList β) := log.filterMap fun a => a.2.got.node?

def released (log : Log β) : List (AVPacket β) := log.flatMap fun a => a.2.released

variable (log : Log β) (a : Call β) (out : Outcome β)

@[simp] theorem given_concat : given (log ++ [(a, out)]) = log.given ++ a.pkt?.toList := Trace.filterMap_concat ..

@[simp] theorem accepted_concat :
    accepted (log ++ [(a, out)]) = log.accepted ++ (if returnsZero out.got then a.pkt? else none).toList :=
  Trace.filterMap_concat ..

@[simp] theorem got_concat : got (log ++ [(a, out)]) = log.got ++ out.got.node?.toList := Trace.filterMap_concat ..

@[simp] theorem released_concat : released (log ++ [(a, out)]) = log.released ++ out.released := by
  rw [released, List.flatMap_append, List.flatMap_singleton, released]

end Log

/-- Each packet comes with the number of flush packets up to it, after `serial` ones. -/
def numbered : ℕ → List (AVPacket β) → List (MyAVPacketList β)
  | _, [] => []
  | serial, pkt :: pkts =>
      let serial := if pkt.isFlush then serial + 1 else serial
      ⟨pkt, serial⟩ :: numbered serial pkts

def flushes (pkts : List (AVPacket β)) : ℕ := pkts.countP (·.isFlush)

theorem flushes_concat (pkts : List (AVPacket β)) (pkt : AVPacket β) :
    flushes (pkts ++ [pkt]) = if pkt.isFlush then flushes pkts + 1 else flushes pkts := by
  rw [flushes, flushes, List.countP_append, List.countP_singleton]
  split
  · rfl
  · rfl

theorem numbered_concat (serial : ℕ) (pkts : List (AVPacket β)) (pkt : AVPacket β) :
    numbered serial (pkts ++ [pkt]) = numbered serial pkts ++ [⟨pkt, serial + flushes (pkts ++ [pkt])⟩] := by
  induction pkts generalizing serial with
  | nil =>
      cases h : pkt.isFlush with
      | true => simp [numbered, flushes, h]
      | false => simp [numbered, flushes, h]
  | cons p pkts ih =>
      cases h : p.isFlush with
      | true =>
          have hcount : flushes (p :: (pkts ++ [pkt])) = flushes (pkts ++ [pkt]) + 1 := by simp [flushes, h]
          rw [List.cons_append, hcount]
          simp only [numbered, h, if_true, ih, List.cons_append, Nat.add_assoc, Nat.add_comm 1]
      | false => simp [numbered, flushes, h, ih]

namespace Contents

variable {c : Contents β}

/-- All calls that put a packet go the same way. -/
theorem call_pkt {a : Call β} {pkt : AVPacket β} (ha : a.pkt? = some pkt) (c : Contents β) :
    ∃ allocated abort_request, c.call a = putOutcome { c with abort_request := abort_request } pkt allocated := by
  cases a with
  | packet_queue_put pkt allocated => cases ha; exact ⟨allocated, c.abort_request, rfl⟩
  | packet_queue_put_nullpacket allocated => cases ha; exact ⟨allocated, c.abort_request, rfl⟩
  | packet_queue_start allocated => cases ha; exact ⟨allocated, false, rfl⟩
  | packet_queue_flush => cases ha
  | packet_queue_abort => cases ha
  | packet_queue_get block => cases ha

/-- What a call does to the packets. -/
inductive Moves (c c' : Contents β) (a : Call β) : Outcome β → Prop where
  | refuse (pkt : AVPacket β) (put : a.pkt? = some pkt) (nodes : c'.nodes = c.nodes) (serial : c'.serial = c.serial) :
      Moves c c' a ⟨.ret (-1), if pkt.isFlush then [] else [pkt]⟩
  | put (pkt : AVPacket β) (put : a.pkt? = some pkt) (nodes : c'.nodes = c.nodes ++ [⟨pkt, c'.serial⟩])
      (serial : c'.serial = c.nextSerial pkt) : Moves c c' a ⟨.ret 0, []⟩
  | idle (got : GotPacket β) (put : a.pkt? = none) (node : got.node? = none) (nodes : c'.nodes = c.nodes)
      (serial : c'.serial = c.serial) : Moves c c' a ⟨got, []⟩
  | get (node : MyAVPacketList β) (put : a.pkt? = none) (nodes : c.nodes = node :: c'.nodes)
      (serial : c'.serial = c.serial) : Moves c c' a ⟨.pkt node, []⟩
  | flush (flush : a.isFlush = true) (nodes : c'.nodes = []) (serial : c'.serial = c.serial) :
      Moves c c' a ⟨.ret 0, c.nodes.map (·.pkt)⟩

theorem moves (c : Contents β) (a : Call β) : Moves c (c.call a).1 a (c.call a).2 := by
  cases hpkt : a.pkt? with
  | some pkt =>
      obtain ⟨allocated, abort_request, hcall⟩ := call_pkt hpkt c
      rw [hcall, putOutcome, Contents.put]
      split
      · have hreleased : (if !pkt.isFlush ∧ (-1 : ℤ) < 0 then [pkt] else []) = if pkt.isFlush then [] else [pkt] := by
          cases pkt.isFlush with
          | true => rfl
          | false => rfl
        rw [hreleased]
        exact .refuse pkt hpkt rfl rfl
      · have hreleased : (if !pkt.isFlush ∧ (0 : ℤ) < 0 then [pkt] else []) = [] := if_neg (by simp)
        rw [hreleased]
        exact .put pkt hpkt rfl rfl
  | none =>
      cases a with
      | packet_queue_flush => exact .flush rfl rfl rfl
      | packet_queue_abort => exact .idle _ rfl rfl rfl rfl
      | packet_queue_get block =>
          simp only [call, Contents.get]
          split
          · exact .idle _ rfl rfl rfl rfl
          · split
            · cases block with
              | true => exact .idle _ rfl rfl rfl rfl
              | false => exact .idle _ rfl rfl rfl rfl
            · exact .get _ rfl ‹_› rfl
      | packet_queue_put pkt allocated => cases hpkt
      | packet_queue_put_nullpacket allocated => cases hpkt
      | packet_queue_start allocated => cases hpkt

end Contents

/-! ## Order -/

/-- The packets that have been returned and those that wait are taken ones, in their order and with their numbers, and
all of them where the queue is not flushed. -/
structure InOrder (log : Log β) (c : Contents β) : Prop where
  serial : c.serial = flushes log.accepted
  sublist : (log.got ++ c.nodes).Sublist (numbered 0 log.accepted)
  all : (∀ a ∈ log, a.1.isFlush = false) → log.got ++ c.nodes = numbered 0 log.accepted

theorem isFlush_concat {log : Log β} {a : Call β} {out : Outcome β}
    (h : ∀ b ∈ log ++ [(a, out)], b.1.isFlush = false) : (∀ b ∈ log, b.1.isFlush = false) ∧ a.isFlush = false :=
  ⟨fun b hb => h b (List.mem_append_left _ hb), h (a, out) (by simp)⟩

theorem pkt?_of_isFlush {a : Call β} (h : a.isFlush = true) : a.pkt? = none := by
  cases a with
  | packet_queue_flush => rfl
  | packet_queue_put pkt allocated => cases h
  | packet_queue_put_nullpacket allocated => cases h
  | packet_queue_abort => cases h
  | packet_queue_start allocated => cases h
  | packet_queue_get block => cases h

/-- The calls that take no packet in keep what has been taken. -/
theorem InOrder.keep {log : Log β} {c c' : Contents β} (h : InOrder log c) {a : Call β} {out : Outcome β}
    (haccepted : Log.accepted (log ++ [(a, out)]) = log.accepted) (hserial : c'.serial = c.serial)
    (hnodes : Log.got (log ++ [(a, out)]) ++ c'.nodes = log.got ++ c.nodes) : InOrder (log ++ [(a, out)]) c' := by
  refine ⟨by rw [hserial, haccepted, h.serial], ?_, fun hf => ?_⟩
  · rw [hnodes, haccepted]
    exact h.sublist
  · rw [hnodes, haccepted]
    exact h.all (isFlush_concat hf).1

theorem InOrder.step {log : Log β} {c : Contents β} (h : InOrder log c) (a : Call β) :
    InOrder (log ++ [(a, (c.call a).2)]) (c.call a).1 := by
  have hmoves := c.moves a
  generalize (c.call a).1 = c', (c.call a).2 = out at hmoves ⊢
  cases hmoves with
  | refuse pkt hput hnodes hserial =>
      exact h.keep (by simp [returnsZero]) hserial (by simp [GotPacket.node?, hnodes])
  | put pkt hput hnodes hserial =>
      have hnew : Log.accepted (log ++ [(a, ⟨.ret 0, []⟩)]) = log.accepted ++ [pkt] := by simp [returnsZero, hput]
      have hgot : Log.got (log ++ [(a, ⟨.ret 0, []⟩)]) = log.got := by simp [GotPacket.node?]
      have hflushes : c'.serial = flushes (log.accepted ++ [pkt]) := by
        rw [hserial, flushes_concat, Contents.nextSerial, h.serial]
      have hnumbered : numbered 0 (log.accepted ++ [pkt]) = numbered 0 log.accepted ++ [⟨pkt, c'.serial⟩] := by
        rw [numbered_concat, hflushes, Nat.zero_add]
      refine ⟨by rw [hnew, hflushes], ?_, fun hf => ?_⟩
      · rw [hnew, hgot, hnumbered, hnodes, ← List.append_assoc]
        exact h.sublist.append_right _
      · rw [hnew, hgot, hnumbered, hnodes, ← List.append_assoc, h.all (isFlush_concat hf).1]
  | idle got hput hgot hnodes hserial => exact h.keep (by simp [hput]) hserial (by simp [hgot, hnodes])
  | get node hput hnodes hserial =>
      exact h.keep (by simp [hput]) hserial (by simp [GotPacket.node?, hnodes])
  | flush hflush hnodes hserial =>
      have hput := pkt?_of_isFlush hflush
      refine ⟨by simp [hput, hserial, h.serial], ?_, fun hf => ?_⟩
      · simpa [hput, hnodes, GotPacket.node?] using (List.sublist_append_left _ _).trans h.sublist
      · rw [(isFlush_concat hf).2] at hflush
        cases hflush

/-! ## Release -/

/-- The packets other than `flush_pkt`. -/
def owned (pkts : List (AVPacket β)) : List (AVPacket β) := pkts.filter fun pkt => !pkt.isFlush

theorem owned_nil : owned ([] : List (AVPacket β)) = [] := rfl

theorem owned_append (l r : List (AVPacket β)) : owned (l ++ r) = owned l ++ owned r := List.filter_append ..

/-- Each packet is at one place: returned, released, or in the queue. -/
def Placed (log : Log β) (c : Contents β) : Prop :=
  (owned log.given).Perm (owned (log.got.map (·.pkt)) ++ owned log.released ++ owned (c.nodes.map (·.pkt)))

theorem Placed.step {log : Log β} {c : Contents β} (h : Placed log c) (a : Call β) :
    Placed (log ++ [(a, (c.call a).2)]) (c.call a).1 := by
  classical
  have hmoves := c.moves a
  generalize (c.call a).1 = c', (c.call a).2 = out at hmoves ⊢
  refine List.perm_iff_count.mpr fun pkt => ?_
  have hcount := List.perm_iff_count.mp h pkt
  simp only [List.count_append] at hcount
  simp only [Log.given_concat, Log.got_concat, Log.released_concat, owned_append, List.map_append, List.count_append]
  cases hmoves with
  | refuse p hput hnodes hserial =>
      have howned : owned (if p.isFlush then [] else [p]) = owned [p] := by
        cases hp : p.isFlush with
        | true => simp [owned, hp]
        | false => rfl
      simp only [hput, hnodes, howned, GotPacket.node?, Option.toList, List.map_nil, List.count_nil, owned_nil]
      omega
  | put p hput hnodes hserial =>
      simp only [hput, hnodes, GotPacket.node?, Option.toList, List.map_nil, List.count_nil, owned_nil, List.map_append,
        List.map_singleton, owned_append, List.count_append]
      omega
  | idle got hput hgot hnodes hserial =>
      simp only [hput, hgot, hnodes, Option.toList, List.map_nil, List.count_nil, owned_nil]
      omega
  | get node hput hnodes hserial =>
      have hcons : owned (c.nodes.map (·.pkt)) = owned [node.pkt] ++ owned (c'.nodes.map (·.pkt)) := by
        rw [hnodes, ← owned_append]
        rfl
      rw [hcons, List.count_append] at hcount
      simp only [hput, GotPacket.node?, Option.toList, List.map_singleton, List.count_nil, owned_nil]
      omega
  | flush hflush hnodes hserial =>
      simp only [pkt?_of_isFlush hflush, hnodes, GotPacket.node?, Option.toList, List.map_nil, List.count_nil,
        owned_nil]
      omega

theorem Models.destroy {sizeof_pkt : ℤ} {q : PacketQueue β} {c : Contents β} (h : Models sizeof_pkt q c) :
    ∃ q', q.packet_queue_destroy = some (q', c.nodes.map (·.pkt)) ∧ ∀ a, Linked.read q'.list.heap a = none := by
  obtain ⟨q₁, hflush, ⟨cells, spares, hholds, hnodes, -⟩, -⟩ := h.flush
  obtain rfl : cells = [] := List.map_eq_nil_iff.mp hnodes
  obtain ⟨list, hfree, _, hgone⟩ := hholds.free
  refine ⟨{ q₁ with list := list }, ?_, hgone⟩
  rw [packet_queue_destroy, hflush]
  simp only [hfree]
  rfl

/-- The calls return the packets in the order in which they were put, each with the number of flush packets up to it.
The counters tell the number, the size and the duration of those that wait. -/
theorem packets_in_order (sizeof_pkt : ℤ) (calls : List (Call β)) :
    ∃ q log c, Trace.run (call sizeof_pkt) packet_queue_init calls = some (q, log) ∧ Models sizeof_pkt q c ∧
      (Log.got log ++ c.nodes).Sublist (numbered 0 (Log.accepted log)) ∧
      ((∀ a ∈ calls, a.isFlush = false) → Log.got log ++ c.nodes = numbered 0 (Log.accepted log)) := by
  obtain ⟨q, hrun, hmodels⟩ := (follows sizeof_pkt).run Models.init calls
  have hnil : InOrder [] (.empty : Contents β) := ⟨rfl, .slnil, fun _ => rfl⟩
  have horder := Trace.go_invariant hnil (fun _ _ a h => h.step a) calls
  have hinputs := Trace.inputs_go Contents.call .empty calls
  refine ⟨q, _, _, hrun, hmodels, horder.sublist, fun hf => horder.all fun a ha => hf _ ?_⟩
  rw [← hinputs]
  exact List.mem_map_of_mem ha

/-- Each packet is returned once or released once. Afterwards no node is allocated. -/
theorem packets_once (sizeof_pkt : ℤ) (calls : List (Call β)) :
    ∃ q log q' released, Trace.run (call sizeof_pkt) packet_queue_init calls = some (q, log) ∧
      q.packet_queue_destroy = some (q', released) ∧ (∀ a, Linked.read q'.list.heap a = none) ∧
      (owned (Log.given log)).Perm
        (owned ((Log.got log).map (·.pkt)) ++ owned (Log.released log) ++ owned released) := by
  obtain ⟨q, hrun, hmodels⟩ := (follows sizeof_pkt).run Models.init calls
  obtain ⟨q', hdestroy, hgone⟩ := hmodels.destroy
  have hnil : Placed [] (.empty : Contents β) := .nil
  exact ⟨q, _, q', _, hrun, hdestroy, hgone, Trace.go_invariant hnil (fun _ _ a h => h.step a) calls⟩

end PacketQueue

end MyDemo.Ijkmedia

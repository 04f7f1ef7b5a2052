import MyDemo.Ijkmedia.Decoder
import MyDemo.Ijkmedia.Lemmas.PacketQueue

/-!
# Serials

A flush packet has a greater serial than the packets before it, and each other packet has the serial of the one before.
So the packets of a serial follow its flush packet, unless a seek has dropped that one and the next is still to come.
-/

namespace MyDemo.Ijkmedia

variable {β : Type*}

/-- The packets of `l` follow one with the serial `p`, and `t` is the last serial. A `lossy` list may end too early. -/
def Serials (lossy : Prop) : ℕ → List (MyAVPacketList β) → ℕ → Prop
  | p, [], t => p ≤ t ∧ (p = t ∨ lossy)
  | p, n :: l, t => (if n.pkt.isFlush then p < n.serial else n.serial = p) ∧ Serials lossy n.serial l t

namespace Serials

variable {lossy lossy' : Prop} {l : List (MyAVPacketList β)} {n : MyAVPacketList β} {p t : ℕ}

theorem le (h : Serials lossy p l t) : p ≤ t := by
  induction l generalizing p with
  | nil => exact h.1
  | cons n l ih =>
      have hle := ih h.2
      have hn := h.1
      split at hn
      · omega
      · omega

theorem mono (h : Serials lossy p l t) (hl : lossy → lossy') : Serials lossy' p l t := by
  induction l generalizing p with
  | nil => exact ⟨h.1, h.2.imp_right hl⟩
  | cons n l ih => exact ⟨h.1, ih h.2⟩

theorem concat_flush (h : Serials lossy p l t) (hn : n.pkt.isFlush = true) (ht : t < n.serial) :
    Serials lossy' p (l ++ [n]) n.serial := by
  induction l generalizing p with
  | nil => exact ⟨by rw [if_pos hn]; exact h.1.trans_lt ht, le_refl _, .inl rfl⟩
  | cons m l ih => exact ⟨h.1, ih h.2⟩

theorem concat (h : Serials lossy p l t) (hl : ¬lossy) (hn : n.pkt.isFlush = false) (ht : n.serial = t) :
    Serials lossy' p (l ++ [n]) t := by
  induction l generalizing p with
  | nil =>
      obtain rfl : p = t := h.2.resolve_right hl
      refine ⟨by simpa [hn] using ht, ?_⟩
      rw [ht]
      exact ⟨le_refl _, .inl rfl⟩
  | cons m l ih => exact ⟨h.1, ih h.2⟩

end Serials

def DecodePc.hand : DecodePc β → List (MyAVPacketList β)
  | .check _ pkt => [pkt]
  | .handle _ pkt => [pkt]
  | _ => []

namespace Decoder

def pending (d : Decoder β) : List (MyAVPacketList β) := if d.packet_pending then [d.pkt] else []

/-- The codec has packets of one serial only. -/
def Fresh (d : Decoder β) : Prop := ∀ n ∈ d.avctx, n.serial = d.pkt_serial

/-- What holds at each place of `decoder_decode_frame`, where the serial of the queue is `t`. -/
def At (d : Decoder β) (t : ℕ) : DecodePc β → Prop
  | .receive _ => d.Fresh
  | .poll _ => d.packet_pending = false ∧ (d.Fresh ∨ d.pkt_serial < t)
  | .await _ => d.packet_pending = false ∧ (d.Fresh ∨ d.pkt_serial < t)
  | .check _ n => d.packet_pending = false ∧ (n.pkt.isFlush = true ∨ d.Fresh ∨ d.pkt_serial < t)
  | .handle _ n => d.packet_pending = false ∧ (n.pkt.isFlush = true ∨ d.Fresh)
  | _ => d.Fresh ∨ d.pkt_serial < t

theorem At.mono {d : Decoder β} {t t' : ℕ} {pc : DecodePc β} (h : d.At t pc) (ht : t ≤ t') : d.At t' pc := by
  have hlt : ∀ {P : Prop}, P ∨ d.pkt_serial < t → P ∨ d.pkt_serial < t' := fun h => h.imp_right fun h => h.trans_le ht
  cases pc with
  | returned ret => exact hlt h
  | top ret => exact hlt h
  | receive ret => exact h
  | fetch ret => exact hlt h
  | poll ret => exact ⟨h.1, hlt h.2⟩
  | await ret => exact ⟨h.1, hlt h.2⟩
  | check ret n => exact ⟨h.1, h.2.imp_right hlt⟩
  | handle ret n => exact h

end Decoder

namespace Stream

open PacketQueue (Contents Models)

def hand (s : Stream β) : List (MyAVPacketList β) := s.pc.hand ++ s.d.pending

/-- The packets that the decoder is done with. -/
def done (s : Stream β) : List (MyAVPacketList β) := s.used.map Prod.fst

/-- Only packets of a finished serial are released unread, and 0 is finished from the begin. -/
def Released (used : List (MyAVPacketList β × Fate)) (ended : List ℕ) : Prop :=
  ∀ n, (n, .released) ∈ used → n.serial = 0 ∨ n.serial ∈ ended

/-- The queue has lost packets of the last serial, or will take no more. -/
def Lossy (s : Stream β) (c : Contents β) : Prop := s.seeking = true ∨ c.abort_request = true

/-- The packets with the serial `t`. -/
def ofSerial (t : ℕ) (l : List (MyAVPacketList β)) : List (MyAVPacketList β) := l.filter fun n => n.serial = t

structure Inv (sizeof_pkt : ℤ) (s : Stream β) (c : Contents β) : Prop where
  models : Models sizeof_pkt s.queue c
  finished : s.d.finished ≤ s.d.pkt_serial
  serials : Serials (s.Lossy c) s.d.pkt_serial c.nodes c.serial
  hand : ∀ n ∈ s.hand, n.serial = s.d.pkt_serial
  pending : ∀ n ∈ s.d.pending, n.pkt.isFlush = false
  at_pc : s.d.At c.serial s.pc
  seeking : s.seeking = true → c.nodes = []
  sublist : (s.done ++ s.hand ++ c.nodes).Sublist s.queued
  all : ¬s.Lossy c → ofSerial c.serial (s.done ++ s.hand ++ c.nodes) = ofSerial c.serial s.queued
  le : ∀ n ∈ s.queued, n.serial ≤ c.serial
  node : s.queued = [] ∨ 0 < c.nodes.length + c.spare
  zero : s.queued = [] → c.serial = 0
  ended : s.d.finished = 0 ∨ s.d.finished ∈ s.ended
  released : Released s.used s.ended

variable {sizeof_pkt : ℤ} {s : Stream β} {c : Contents β}

/-! ## The reader -/

/-- A put is refused, and nothing changes, or it adds the packet. -/
theorem putPacket_spec (h : Models sizeof_pkt s.queue c) (pkt : AVPacket β) (allocated : Bool) :
    (c.Refuses allocated ∧ ∃ q, s.putPacket sizeof_pkt pkt allocated = some { s with queue := q } ∧
        Models sizeof_pkt q c) ∨
      (¬c.Refuses allocated ∧ ∃ q, s.putPacket sizeof_pkt pkt allocated =
          some { s with queue := q, queued := s.queued ++ [⟨pkt, c.nextSerial pkt⟩] } ∧
        Models sizeof_pkt q { c with
          nodes := c.nodes ++ [⟨pkt, c.nextSerial pkt⟩]
          spare := c.spare - 1
          serial := c.nextSerial pkt }) := by
  obtain ⟨q, hput, hq⟩ := h.put_private pkt allocated
  rw [putPacket, PacketQueue.packet_queue_put, hput]
  rw [Contents.put] at hq ⊢
  by_cases hr : c.Refuses allocated
  · rw [if_pos hr] at hq ⊢
    exact .inl ⟨hr, q, rfl, hq⟩
  · rw [if_neg hr] at hq ⊢
    refine .inr ⟨hr, q, ?_, hq⟩
    simp only [Option.map_some, hq.serial]
    rfl

theorem ofSerial_append (t : ℕ) (l r : List (MyAVPacketList β)) :
    ofSerial t (l ++ r) = ofSerial t l ++ ofSerial t r := List.filter_append ..

theorem ofSerial_of_lt {t : ℕ} {l : List (MyAVPacketList β)} (h : ∀ n ∈ l, n.serial < t) : ofSerial t l = [] :=
  List.filter_eq_nil_iff.mpr fun n hn => by simpa using (h n hn).ne

/-- The queue takes a packet: any one, or `flush_pkt` after a seek. -/
theorem Inv.queue (h : Inv sizeof_pkt s c) {pkt : AVPacket β} (hpkt : pkt.isFlush = true ∨ s.seeking = false)
    (habort : c.abort_request = false) {q : PacketQueue β} {spare : ℕ}
    (hq : Models sizeof_pkt q { c with
      nodes := c.nodes ++ [⟨pkt, c.nextSerial pkt⟩]
      spare := spare
      serial := c.nextSerial pkt }) :
    Inv sizeof_pkt { s with queue := q, seeking := false, queued := s.queued ++ [⟨pkt, c.nextSerial pkt⟩] } { c with
      nodes := c.nodes ++ [⟨pkt, c.nextSerial pkt⟩]
      spare := spare
      serial := c.nextSerial pkt } := by
  have hnext : c.serial ≤ c.nextSerial pkt := by
    rw [Contents.nextSerial]
    split
    · omega
    · exact le_refl _
  have hsub (n : MyAVPacketList β) : (s.done ++ s.hand ++ (c.nodes ++ [n])).Sublist (s.queued ++ [n]) := by
    rw [← List.append_assoc]
    exact h.sublist.append_right _
  refine ⟨hq, h.finished, ?_, h.hand, h.pending, h.at_pc.mono hnext, nofun, hsub _, fun _ => ?_, fun n hn => ?_,
    .inr (by simp only [List.length_append, List.length_singleton]; omega), fun hnil => absurd hnil (by simp),
    h.ended, h.released⟩
  · cases hflush : pkt.isFlush with
    | true =>
        have hserial : c.nextSerial pkt = c.serial + 1 := if_pos hflush
        exact h.serials.concat_flush hflush (by simp [hserial])
    | false =>
        have hserial : c.nextSerial pkt = c.serial := if_neg (by simp [hflush])
        have hseeking : s.seeking = false := hpkt.resolve_left (by simp [hflush])
        have hlossy : ¬s.Lossy c := by simp [Lossy, hseeking, habort]
        simp only [hserial]
        exact h.serials.concat hlossy hflush rfl
  · change ofSerial _ (s.done ++ s.hand ++ (c.nodes ++ [⟨pkt, c.nextSerial pkt⟩])) = _
    rw [← List.append_assoc, ofSerial_append _ _ [_], ofSerial_append _ _ [_]]
    refine congrArg (· ++ _) ?_
    cases hflush : pkt.isFlush with
    | true =>
        have hlt : ∀ n ∈ s.queued, n.serial < c.nextSerial pkt := fun n hn => by
          have hserial : c.nextSerial pkt = c.serial + 1 := if_pos hflush
          have hle := h.le n hn
          omega
        rw [ofSerial_of_lt hlt]
        exact ofSerial_of_lt fun n hn => hlt n (h.sublist.subset hn)
    | false =>
        have hserial : c.nextSerial pkt = c.serial := if_neg (by simp [hflush])
        have hseeking : s.seeking = false := hpkt.resolve_left (by simp [hflush])
        rw [hserial]
        exact h.all (by simp [Lossy, hseeking, habort])
  · rcases List.mem_append.mp hn with hn | hn
    · exact (h.le n hn).trans hnext
    · rw [List.mem_singleton.mp hn]

/-- The reader does not go on after a seek where `flush_pkt` is refused: then the queue is closed, or has never had a
packet. -/
theorem Inv.refused (h : Inv sizeof_pkt s c) {allocated : Bool} (hr : c.Refuses allocated) :
    Inv sizeof_pkt { s with seeking := false } c := by
  have hlossy : c.abort_request = true ∨ s.queued = [] ∧ c.nodes = [] ∧ c.serial = 0 ∨ s.seeking = false := by
    rcases hr with habort | ⟨hspare, -⟩
    · exact .inl habort
    · by_cases hseeking : s.seeking = true
      · have hnodes := h.seeking hseeking
        have hnil : s.queued = [] := h.node.resolve_right (by simp [hnodes, hspare])
        exact .inr (.inl ⟨hnil, hnodes, h.zero hnil⟩)
      · exact .inr (.inr (by simpa using hseeking))
  refine ⟨h.models, h.finished, ?_, h.hand, h.pending, h.at_pc, nofun, h.sublist, fun hl => ?_, h.le, h.node, h.zero,
    h.ended, h.released⟩
  · rcases hlossy with habort | ⟨_, hnodes, hserial⟩ | hseeking
    · exact h.serials.mono fun _ => .inr habort
    · have hle := h.serials.le
      rw [hnodes]
      exact ⟨hle, .inl (by rw [hserial] at hle ⊢; exact Nat.le_zero.mp hle)⟩
    · exact h.serials.mono fun hl => hl.imp_left fun hs => absurd hs (by simp [hseeking])
  · rcases hlossy with habort | ⟨hnil, _⟩ | hseeking
    · exact absurd (.inr habort) hl
    · have hsub := h.sublist
      rw [hnil] at hsub ⊢
      exact congrArg _ (List.sublist_nil.mp hsub)
    · exact h.all fun hl' => hl (hl'.imp_left fun hs => absurd hs (by simp [hseeking]))

theorem Inv.withQueue (h : Inv sizeof_pkt s c) {q : PacketQueue β} (hq : Models sizeof_pkt q c) :
    Inv sizeof_pkt { s with queue := q } c :=
  ⟨hq, h.finished, h.serials, h.hand, h.pending, h.at_pc, h.seeking, h.sublist, h.all, h.le, h.node, h.zero, h.ended,
    h.released⟩

theorem Inv.read (h : Inv sizeof_pkt s c) (call : ReaderCall β) (allocated : Bool) :
    ∃ s' c', s.readStep sizeof_pkt call allocated = some s' ∧ Inv sizeof_pkt s' c' := by
  by_cases hseeking : s.seeking = true
  · simp only [readStep, hseeking, if_true]
    rcases putPacket_spec h.models .flush_pkt allocated with ⟨hr, q, hput, hq⟩ | ⟨hr, q, hput, hq⟩
    · exact ⟨_, c, by rw [hput]; rfl, (h.withQueue hq).refused hr⟩
    · exact ⟨_, _, by rw [hput]; rfl, h.queue (.inl rfl) (by simpa using fun ha => hr (.inl ha)) hq⟩
  · have hfalse : s.seeking = false := by simpa using hseeking
    simp only [readStep, hseeking]
    cases call with
    | put pkt =>
        rcases putPacket_spec h.models pkt allocated with ⟨hr, q, hput, hq⟩ | ⟨hr, q, hput, hq⟩
        · exact ⟨_, c, hput, h.withQueue hq⟩
        · have hinv := h.queue (.inr hfalse) (by simpa using fun ha => hr (.inl ha)) hq
          rw [← hfalse] at hinv
          exact ⟨_, _, hput, hinv⟩
    | seek =>
        obtain ⟨q, hflush, hq⟩ := h.models.flush
        refine ⟨{ s with queue := q, seeking := true }, c.flush, by rw [hflush]; rfl, hq, h.finished,
          ⟨h.serials.le, .inr (.inl rfl)⟩, h.hand, h.pending, h.at_pc, fun _ => rfl, ?_,
          fun hl => absurd (.inl rfl) hl, h.le, ?_, h.zero, h.ended, h.released⟩
        · change (s.done ++ s.hand ++ []).Sublist s.queued
          rw [List.append_nil]
          exact (List.sublist_append_left _ _).trans h.sublist
        · simpa [Contents.flush] using h.node

/-! ## The decoder -/

/-- A step that keeps the packets in their order, and takes none out of the queue. -/
theorem Inv.move (h : Inv sizeof_pkt s c) {d : Decoder β} {pc : DecodePc β} {used : List (MyAVPacketList β × Fate)}
    {ended : List ℕ}
    (hserial : d.pkt_serial = s.d.pkt_serial) (hfinished : d.finished ≤ d.pkt_serial)
    (hpending : ∀ n ∈ d.pending, n.pkt.isFlush = false) (hat : d.At c.serial pc)
    (hhand : ∀ n ∈ pc.hand ++ d.pending, n ∈ s.hand)
    (hkept : used.map Prod.fst ++ (pc.hand ++ d.pending) = s.done ++ s.hand)
    (hended : d.finished = 0 ∨ d.finished ∈ ended) (hreleased : Released used ended) :
    Inv sizeof_pkt { s with d := d, pc := pc, used := used, ended := ended } c := by
  refine ⟨h.models, hfinished, ?_, fun n hn => (h.hand n (hhand n hn)).trans hserial.symm, hpending, hat, h.seeking, ?_,
    fun hl => ?_, h.le, h.node, h.zero, hended, hreleased⟩
  · change Serials _ d.pkt_serial _ _
    rw [hserial]
    exact h.serials
  · change (used.map Prod.fst ++ (pc.hand ++ d.pending) ++ c.nodes).Sublist s.queued
    rw [hkept]
    exact h.sublist
  · change ofSerial c.serial (used.map Prod.fst ++ (pc.hand ++ d.pending) ++ c.nodes) = _
    rw [hkept]
    exact h.all hl

theorem pending_eq_nil {d : Decoder β} (h : d.packet_pending = false) : d.pending = [] := if_neg (by simp [h])

/-- Only the place changes. -/
theorem Inv.goto (h : Inv sizeof_pkt s c) {pc : DecodePc β} (hhand : pc.hand = s.pc.hand) (hat : s.d.At c.serial pc) :
    Inv sizeof_pkt { s with pc := pc } c :=
  h.move rfl h.finished h.pending hat (fun n hn => by rwa [hhand] at hn) (by rw [hhand]; rfl) h.ended h.released

/-- The packet that comes out of the queue. -/
theorem Inv.fetched (h : Inv sizeof_pkt s c) {n : MyAVPacketList β} {rest : List (MyAVPacketList β)} {q : PacketQueue β}
    {spare : ℕ} (hcons : c.nodes = n :: rest) (hhand : s.pc.hand = []) (hpending : s.d.packet_pending = false)
    (hcodec : s.d.Fresh ∨ s.d.pkt_serial < c.serial) (packet_buffering : Bool) (ret : ℤ)
    (hq : Models sizeof_pkt q { c with nodes := rest, spare := spare }) (hspare : 0 < rest.length + spare) :
    Inv sizeof_pkt (fetched packet_buffering { s with queue := q } ret n) { c with nodes := rest, spare := spare } := by
  have hnil : s.hand = [] := by rw [Stream.hand, pending_eq_nil hpending, hhand, List.append_nil]
  have hserials := h.serials
  rw [hcons] at hserials
  obtain ⟨hn, hrest⟩ := hserials
  have hle : s.d.pkt_serial ≤ n.serial := by
    split at hn
    · exact hn.le
    · exact hn.ge
  -- a flush packet comes with a new serial, so that it is never one of a finished serial
  have hflush : n.pkt.isFlush = true ∧ s.d.finished < n.serial ∨ n.serial = s.d.pkt_serial := by
    split at hn
    · exact .inl ⟨‹_›, h.finished.trans_lt hn⟩
    · exact .inr hn
  have hseeking : s.seeking = true → rest = [] := fun hs => by
    have hnodes := h.seeking hs
    rw [hcons] at hnodes
    cases hnodes
  have hsub := h.sublist
  have hall := h.all
  rw [hnil, List.append_nil, hcons] at hsub hall
  have hcodec' : n.serial = s.d.pkt_serial → ({ s.d with pkt_serial := n.serial }).Fresh ∨ n.serial < c.serial := by
    intro hs
    rw [hs]
    exact hcodec
  simp only [Stream.fetched]
  split
  case isTrue hfinished =>
      have hs : n.serial = s.d.pkt_serial := hflush.resolve_left fun hf => hf.2.ne hfinished.2
      have hused : (s.used ++ [(n, Fate.released)]).map Prod.fst ++ ([] ++ s.d.pending) ++ rest =
          s.done ++ n :: rest := by
        simp [pending_eq_nil hpending, done]
      have hreleased : Released (s.used ++ [(n, .released)]) s.ended := by
        intro m hm
        rcases List.mem_append.mp hm with hm | hm
        · exact h.released m hm
        · rw [(Prod.mk.inj (List.mem_singleton.mp hm)).1]
          exact hfinished.2 ▸ h.ended
      refine ⟨hq, h.finished.trans hle, hrest, ?_, h.pending, ⟨hpending, hcodec' hs⟩, hseeking, ?_, fun hl => ?_, h.le,
        .inr hspare, h.zero, h.ended, hreleased⟩
      · intro m hm
        change m ∈ [] ++ s.d.pending at hm
        rw [pending_eq_nil hpending] at hm
        cases hm
      · exact hused ▸ hsub
      · exact (congrArg _ hused).trans (hall hl)
  case isFalse hfinished =>
      have hhand' : s.done ++ ([n] ++ s.d.pending) ++ rest = s.done ++ n :: rest := by simp [pending_eq_nil hpending]
      refine ⟨hq, h.finished.trans hle, hrest, ?_, h.pending, ⟨hpending, ?_⟩, hseeking, ?_, fun hl => ?_, h.le,
        .inr hspare, h.zero, h.ended, h.released⟩
      · intro m hm
        change m ∈ [n] ++ s.d.pending at hm
        rw [pending_eq_nil hpending, List.append_nil] at hm
        rw [List.mem_singleton.mp hm]
      · exact hflush.imp And.left hcodec'
      · exact hhand' ▸ hsub
      · exact (congrArg _ hhand').trans (hall hl)

theorem Inv.fetchStep (h : Inv sizeof_pkt s c) (hhand : s.pc.hand = []) (hpending : s.d.packet_pending = false)
    (hcodec : s.d.Fresh ∨ s.d.pkt_serial < c.serial) (packet_buffering : Bool) (ret : ℤ) (block : Bool) :
    ∃ s' c', s.fetchStep sizeof_pkt packet_buffering ret block = some s' ∧ Inv sizeof_pkt s' c' := by
  obtain ⟨q, hget, hq⟩ := h.models.get block
  rw [Stream.fetchStep, hget]
  rw [Contents.get] at hq ⊢
  by_cases habort : c.abort_request = true
  · rw [if_pos habort] at hq ⊢
    exact ⟨_, c, rfl, (h.withQueue hq).goto hhand.symm hcodec⟩
  · rw [if_neg habort] at hq ⊢
    cases hnodes : c.nodes with
    | nil =>
        simp only [hnodes] at hq ⊢
        cases block with
        | true => exact ⟨_, c, rfl, h.withQueue hq⟩
        | false => exact ⟨_, c, rfl, (h.withQueue hq).goto hhand.symm ⟨hpending, hcodec⟩⟩
    | cons n rest =>
        simp only [hnodes] at hq ⊢
        exact ⟨_, _, rfl, h.fetched hnodes hhand hpending hcodec packet_buffering ret hq (by omega)⟩

/-- The codec is asked for a frame. -/
theorem Inv.received (h : Inv sizeof_pkt s c) (hhand : s.pc.hand = []) (hfresh : s.d.Fresh) (ret : ℤ) :
    Inv sizeof_pkt (s.received ret) c := by
  have hat : s.d.Fresh ∨ s.d.pkt_serial < c.serial := .inl hfresh
  rw [Stream.received]
  split
  · refine h.move rfl (le_refl _) h.pending (.inl nofun) (fun n hn => by rwa [Stream.hand, hhand]) (by
      rw [Stream.hand, hhand]; rfl) (.inr (List.mem_append_right _ (List.mem_singleton_self _))) fun n hn => ?_
    exact (h.released n hn).imp_right (List.mem_append_left _)
  · split
    · exact h.goto hhand.symm hat
    · split
      · exact h.goto hhand.symm hat
      · exact h.goto hhand.symm hfresh

theorem Inv.hand_eq (h : Inv sizeof_pkt s c) {n : MyAVPacketList β} (hhand : s.pc.hand = [n])
    (hpending : s.d.packet_pending = false) : s.hand = [n] ∧ n.serial = s.d.pkt_serial := by
  have hold : s.hand = [n] := by rw [Stream.hand, hhand, pending_eq_nil hpending, List.append_nil]
  exact ⟨hold, h.hand n (by rw [hold]; exact List.mem_singleton_self n)⟩

theorem Inv.fresh_concat (h : Inv sizeof_pkt s c) {n : MyAVPacketList β} (hhand : s.pc.hand = [n])
    (hpending : s.d.packet_pending = false) (hfresh : s.d.Fresh) :
    Decoder.Fresh { s.d with avctx := s.d.avctx ++ [n] } := by
  intro m hm
  rcases List.mem_append.mp hm with hm | hm
  · exact hfresh m hm
  · rw [List.mem_singleton.mp hm]
    exact (h.hand_eq hhand hpending).2

/-- The packet stays with the decoder, to be sent again. -/
theorem Inv.resend (h : Inv sizeof_pkt s c) {n : MyAVPacketList β} (hhand : s.pc.hand = [n])
    (hpending : s.d.packet_pending = false) (hflush : n.pkt.isFlush = false) {avctx : List (MyAVPacketList β)}
    (havctx : Decoder.Fresh { s.d with avctx := avctx }) (sub : ℕ) (ret : ℤ) :
    Inv sizeof_pkt { s with
      d := { s.d with avctx := avctx, sub := sub, packet_pending := true, pkt := n }
      pc := .top ret } c := by
  have hold := (h.hand_eq hhand hpending).1
  refine h.move rfl h.finished ?_ (.inl havctx) ?_ ?_ h.ended h.released
  · intro m hm
    rw [List.mem_singleton.mp (show m ∈ [n] from hm)]
    exact hflush
  · intro m hm
    rw [hold]
    exact hm
  · rw [hold]
    rfl

theorem Inv.use (h : Inv sizeof_pkt s c) {n : MyAVPacketList β} (hhand : s.pc.hand = [n])
    (hpending : s.d.packet_pending = false) {finished : ℕ} (hfinished : finished ≤ s.d.pkt_serial)
    (hended : finished = 0 ∨ finished ∈ s.ended) {avctx : List (MyAVPacketList β)}
    (havctx : Decoder.Fresh { s.d with avctx := avctx }) (sub : ℕ) (ret : ℤ) :
    Inv sizeof_pkt { s with
      d := { s.d with avctx := avctx, finished := finished, sub := sub }
      pc := .top ret
      used := s.used ++ [(n, .handled)] } c := by
  have hold := (h.hand_eq hhand hpending).1
  have hnil : Decoder.pending { s.d with avctx := avctx, finished := finished, sub := sub } = [] :=
    pending_eq_nil hpending
  refine h.move rfl hfinished ?_ (.inl havctx) ?_ ?_ hended fun m hm => ?_
  · rw [hnil]
    nofun
  · rw [hnil]
    nofun
  · rw [hold, hnil, List.map_append]
    exact List.append_nil _
  · rcases List.mem_append.mp hm with hm | hm
    · exact h.released m hm
    · exact absurd (Prod.mk.inj (List.mem_singleton.mp hm)).2 Fate.noConfusion

/-- What the decoder does with a packet of the serial of the queue. -/
theorem Inv.handle (h : Inv sizeof_pkt s c) {n : MyAVPacketList β} (hhand : s.pc.hand = [n])
    (hpending : s.d.packet_pending = false) (hfresh : s.d.Fresh) (hflush : n.pkt.isFlush = false) (ret : ℤ)
    (a : CodecAnswer) :
    Inv sizeof_pkt (s.handleFrame ret n a) c ∧ Inv sizeof_pkt (s.handleSubtitle n a) c := by
  have hnew := h.fresh_concat hhand hpending hfresh
  constructor
  · rw [handleFrame]
    split
    · exact h.resend hhand hpending hflush hfresh s.d.sub ret
    · exact h.use hhand hpending h.finished h.ended hnew s.d.sub ret
  · rw [handleSubtitle]
    split
    · exact h.use hhand hpending h.finished h.ended hnew _ AVERROR_EAGAIN
    · split
      · exact h.resend hhand hpending hflush hnew _ 0
      · exact h.use hhand hpending h.finished h.ended hnew _ _

theorem Inv.decode (h : Inv sizeof_pkt s c) (codec_type : AVMediaType) (packet_buffering : Bool) (a : CodecAnswer) :
    ∃ s' c', s.decodeStep sizeof_pkt codec_type packet_buffering a = some s' ∧ Inv sizeof_pkt s' c' := by
  have hat := h.at_pc
  cases hpc : s.pc with
  | returned ret =>
      rw [hpc] at hat
      simp only [decodeStep, hpc]
      exact ⟨_, c, rfl, h.goto (by rw [hpc]; rfl) hat⟩
  | top ret =>
      rw [hpc] at hat
      simp only [decodeStep, hpc]
      refine ⟨_, c, rfl, ?_⟩
      split
      case isTrue hserial =>
          have hlt : ¬s.d.pkt_serial < c.serial := by rw [← h.models.serial, hserial]; exact lt_irrefl _
          exact h.goto (by rw [hpc]; rfl) (hat.resolve_right hlt)
      case isFalse => exact h.goto (by rw [hpc]; rfl) hat
  | receive ret =>
      rw [hpc] at hat
      have hhand : s.pc.hand = [] := by rw [hpc]; rfl
      by_cases habort : s.queue.abort_request = true
      · simp only [decodeStep, hpc, habort, if_true]
        exact ⟨_, c, rfl, h.goto hhand.symm (.inl hat)⟩
      · simp only [decodeStep, hpc]
        rw [if_neg habort]
        cases codec_type with
        | AVMEDIA_TYPE_SUBTITLE => exact ⟨_, c, rfl, h.received hhand hat ret⟩
        | AVMEDIA_TYPE_VIDEO => exact ⟨_, c, rfl, h.received hhand hat a.ret⟩
        | AVMEDIA_TYPE_AUDIO => exact ⟨_, c, rfl, h.received hhand hat a.ret⟩
  | fetch ret =>
      rw [hpc] at hat
      have hhand : s.pc.hand = [] := by rw [hpc]; rfl
      by_cases hpending : s.d.packet_pending = true
      · have hold : s.hand = [s.d.pkt] := by rw [Stream.hand, hhand, Decoder.pending, if_pos hpending]; rfl
        have hnone : Decoder.pending { s.d with packet_pending := false } = [] := rfl
        simp only [decodeStep, hpc, hpending, if_true]
        refine ⟨_, c, rfl, h.move rfl h.finished nofun ⟨rfl, .inr hat⟩ ?_ ?_ h.ended h.released⟩
        · rw [hold, hnone]
          exact fun n hn => hn
        · rw [hold, hnone]
          rfl
      · have hfalse : s.d.packet_pending = false := by simpa using hpending
        simp only [decodeStep, hpc]
        rw [if_neg hpending]
        refine ⟨_, c, rfl, ?_⟩
        split
        · exact h.goto hhand.symm ⟨hfalse, hat⟩
        · exact h.goto hhand.symm ⟨hfalse, hat⟩
  | poll ret =>
      rw [hpc] at hat
      simp only [decodeStep, hpc]
      exact h.fetchStep (by rw [hpc]; rfl) hat.1 hat.2 packet_buffering ret false
  | await ret =>
      rw [hpc] at hat
      simp only [decodeStep, hpc]
      exact h.fetchStep (by rw [hpc]; rfl) hat.1 hat.2 packet_buffering ret true
  | check ret n =>
      rw [hpc] at hat
      have hold : s.hand = [n] := by rw [Stream.hand, hpc, pending_eq_nil hat.1]; rfl
      have hserial : n.serial = s.d.pkt_serial := h.hand n (by rw [hold]; exact List.mem_singleton_self n)
      simp only [decodeStep, hpc]
      refine ⟨_, c, rfl, ?_⟩
      split
      case isTrue hne =>
          -- the packet is dropped: the queue has a greater serial
          have hlt : s.d.pkt_serial < c.serial := by
            refine lt_of_le_of_ne h.serials.le fun he => hne ?_
            rw [h.models.serial, he]
          have hnone : Stream.hand { s with pc := .fetch ret } = [] := pending_eq_nil hat.1
          have hsub : (s.done ++ [] ++ c.nodes).Sublist (s.done ++ s.hand ++ c.nodes) :=
            ((List.nil_sublist s.hand).append_left s.done).append_right c.nodes
          refine ⟨h.models, h.finished, h.serials, ?_, h.pending, .inr hlt, h.seeking, ?_, fun hl => ?_, h.le, h.node,
            h.zero, h.ended, h.released⟩
          · rw [hnone]
            nofun
          · rw [hnone]
            exact hsub.trans h.sublist
          · change ofSerial c.serial (s.done ++ Stream.hand { s with pc := .fetch ret } ++ c.nodes) = _
            rw [hnone, List.append_nil, ← h.all hl, hold]
            have hn : ofSerial c.serial [n] = [] :=
              List.filter_eq_nil_iff.mpr fun m hm => by
                rw [List.mem_singleton.mp hm, hserial]
                simpa using hlt.ne
            rw [ofSerial_append, ofSerial_append, ofSerial_append, hn, List.append_nil]
      case isFalse heq =>
          have heq' : c.serial = s.d.pkt_serial := by rw [← h.models.serial]; simpa using heq
          refine h.goto (by rw [hpc]; rfl) ⟨hat.1, hat.2.imp_right fun hf => hf.resolve_right ?_⟩
          rw [heq']
          exact lt_irrefl _
  | handle ret n =>
      rw [hpc] at hat
      have hhand : s.pc.hand = [n] := by rw [hpc]; rfl
      by_cases hflush : n.pkt.isFlush = true
      · have hempty : Decoder.Fresh { s.d with avctx := [] } := nofun
        simp only [decodeStep, hpc, hflush, if_true]
        exact ⟨_, c, rfl, h.use hhand hat.1 (Nat.zero_le _) (.inl rfl) hempty s.d.sub ret⟩
      · have hhandle := h.handle hhand hat.1 (hat.2.resolve_left hflush) (by simpa using hflush) ret a
        simp only [decodeStep, hpc]
        rw [if_neg hflush]
        cases codec_type with
        | AVMEDIA_TYPE_SUBTITLE => exact ⟨_, c, rfl, hhandle.2⟩
        | AVMEDIA_TYPE_VIDEO => exact ⟨_, c, rfl, hhandle.1⟩
        | AVMEDIA_TYPE_AUDIO => exact ⟨_, c, rfl, hhandle.1⟩

theorem Inv.step (h : Inv sizeof_pkt s c) (codec_type : AVMediaType) (packet_buffering : Bool) (e : Event β) :
    ∃ s' c', s.step sizeof_pkt codec_type packet_buffering e = some s' ∧ Inv sizeof_pkt s' c' := by
  cases e with
  | read call allocated => exact h.read call allocated
  | decode a => exact h.decode codec_type packet_buffering a
  | finish =>
      simp only [Stream.step]
      split
      · exact ⟨_, c, rfl, h.models, le_refl _, h.serials, h.hand, h.pending, h.at_pc, h.seeking, h.sublist, h.all, h.le,
          h.node, h.zero, .inr (List.mem_append_right _ (List.mem_singleton_self _)),
          fun n hn => (h.released n hn).imp_right (List.mem_append_left _)⟩
      · exact ⟨s, c, rfl, h⟩
  | abort =>
      have hq : Models sizeof_pkt s.queue.packet_queue_abort { c with abort_request := true } :=
        ⟨h.models.holds, h.models.nb_packets, h.models.size, h.models.duration, rfl, h.models.serial⟩
      exact ⟨_, { c with abort_request := true }, rfl, hq, h.finished, h.serials.mono fun _ => .inr rfl, h.hand,
        h.pending, h.at_pc, h.seeking, h.sublist, fun hl => absurd (.inr rfl) hl, h.le, h.node, h.zero,
        h.ended, h.released⟩

/-- Before `flush_pkt` is put for the first time. -/
def opened : Stream β :=
  ⟨{ PacketQueue.packet_queue_init with abort_request := false }, false, decoder_init, .returned 0, [], [], []⟩

theorem Inv.opened : Inv sizeof_pkt (Stream.opened : Stream β) { Contents.empty with abort_request := false } :=
  ⟨⟨⟨[], [], .empty, rfl, rfl⟩, rfl, rfl, rfl, rfl, rfl⟩, le_refl _, ⟨le_refl _, .inl rfl⟩, nofun, nofun, .inl nofun,
    nofun, .slnil, fun _ => rfl, nofun, .inl rfl, fun _ => rfl, .inl rfl, nofun⟩

theorem decoder_start_eq (sizeof_pkt : ℤ) (allocated : Bool) :
    (decoder_start sizeof_pkt allocated : Option (Stream β)) = opened.putPacket sizeof_pkt .flush_pkt allocated := by
  rw [decoder_start, putPacket, PacketQueue.packet_queue_start, PacketQueue.packet_queue_put, Stream.opened]
  cases PacketQueue.packet_queue_put_private sizeof_pkt
      { (PacketQueue.packet_queue_init : PacketQueue β) with abort_request := false } .flush_pkt allocated with
  | none => rfl
  | some r => rfl

theorem Inv.start (β : Type*) (sizeof_pkt : ℤ) (allocated : Bool) :
    ∃ s c, (decoder_start sizeof_pkt allocated : Option (Stream β)) = some s ∧ Inv sizeof_pkt s c := by
  have h : Inv sizeof_pkt (Stream.opened : Stream β) _ := Inv.opened
  rw [decoder_start_eq]
  rcases putPacket_spec h.models .flush_pkt allocated with ⟨hr, q, hput, hq⟩ | ⟨hr, q, hput, hq⟩
  · exact ⟨_, _, hput, h.withQueue hq⟩
  · exact ⟨_, _, hput, h.queue (.inl rfl) rfl hq⟩

end Stream

end MyDemo.Ijkmedia

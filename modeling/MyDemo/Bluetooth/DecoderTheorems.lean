import MyDemo.Bluetooth.Lemmas.Resync
import Mathlib.Data.List.DropRight
import Mathlib.Tactic.IntervalCases

/-!
# What the packet decoder computes

Every result is about `Reader.run` over any list of passes: any cutting of the stream into reads, with
ends of stream, failed reads and any clock values in between.
-/

namespace MyDemo.Bluetooth

open Framing

def Pass.reading (bytes : List JByte) (h : bytes.length ≤ 1024 := by decide) : Pass :=
  ⟨.accepted bytes h, 0⟩

/-! ## Read boundaries -/

/-- The cutting of the stream does not matter: the queue, the packets and `fData` depend on the bytes
alone. -/
theorem run_cut_independent {ps qs : List Pass} (h : stream ps = stream qs) (now now' : ℤ) :
    ∃ t u, (Reader.new now).run ps = .ok t ∧ (Reader.new now').run qs = .ok u ∧
      t.queueBuffer = u.queueBuffer ∧ t.dispatched = u.dispatched ∧ t.fData = u.fData := by
  obtain ⟨t, ht, hdt⟩ := Reader.run_new now ps
  obtain ⟨u, hu, hdu⟩ := Reader.run_new now' qs
  refine ⟨t, u, ht, hu, ?_, ?_, ?_⟩
  · rw [hdt.queueBuffer, hdu.queueBuffer, h]
  · rw [Reader.dispatched, Reader.dispatched, hdt.trace, hdu.trace, h]
  · rw [hdt.fData, hdu.fData, h]

theorem run_cut_independent_three_bytes :
    ∃ t u, (Reader.new 0).run [.reading [0x55, 0x51], ⟨.endOfStream, 60⟩, .reading [7]] = .ok t ∧
      (Reader.new 5).run [.reading [0x55], .reading [], .reading [0x51, 7]] = .ok u ∧
      t.queueBuffer = u.queueBuffer ∧ t.dispatched = u.dispatched ∧ t.fData = u.fData :=
  run_cut_independent (by decide) 0 5

/-! ## The bytes of the stream -/

/-- What was skipped, what was dispatched and what is still queued is in order what was `received`, and no
packet is waiting. -/
structure Reader.Accounted (received : List JByte) (t : Reader) : Prop where
  length_le : t.queueBuffer.length ≤ 10
  bytes_eq : t.trace.flatMap Event.bytes ++ t.queueBuffer = received

theorem Reader.Decoded.accounted {fData : Vector ℚ 31} {bytes : List JByte} {t : Reader}
    (h : t.Decoded fData bytes) : t.Accounted bytes := by
  have hshort : t.queueBuffer.length < 11 := by
    rw [h.queueBuffer]
    exact frameStep_eq_none.mp (packets.step_drain bytes)
  refine ⟨by omega, ?_⟩
  rw [h.trace, h.queueBuffer]
  exact packets.drain_conserves frameStep_bytes bytes

/-- After any passes: no `poll` of theirs has answered `null`, and each byte is accounted for. -/
theorem run_accounts (now : ℤ) (ps : List Pass) :
    ∃ t, (Reader.new now).run ps = .ok t ∧ t.Accounted (stream ps) := by
  obtain ⟨t, ht, hdec⟩ := Reader.run_new now ps
  exact ⟨t, ht, hdec.accounted⟩

/-! ## Decoding what was encoded -/

/-- Packets behind noise without a `0x55` are decoded as sent, to the last byte, and `fData` holds the
last angular velocity. -/
theorem run_encode {ps : List Packet} (hps : ps ≠ []) {noise : List JByte} (hnoise : 0x55#8 ∉ noise)
    (passes : List Pass) (hs : stream passes = noise ++ encodeAll ps) (now : ℤ) :
    ∃ t, (Reader.new now).run passes = .ok t ∧ t.dispatched = ps ∧ t.queueBuffer = [] ∧
      t.fData.get 3 =
        (lastAngular ps).elim (0 : ℚ) (fun p => le16 (p.payload.get 0) (p.payload.get 1) / 2048) ∧
      t.fData.get 4 =
        (lastAngular ps).elim (0 : ℚ) (fun p => le16 (p.payload.get 2) (p.payload.get 3) / 2048) := by
  obtain ⟨t, ht, hdec⟩ := Reader.run_new now passes
  have hlen : 10 < (encodeAll ps).length := by
    cases ps with
    | nil => exact absurd rfl hps
    | cons p ps => simp; omega
  have hdrain : packets.drain (stream passes) =
      (noise.map .skipped ++ ps.map .dispatched, []) := by
    rw [hs, drain_noise hnoise hlen, drain_encodeAll]
  have hf : t.fData = updates (ps.map .dispatched) (Vector.replicate 31 0) := by
    rw [hdec.fData, hdrain, updates_append, updates_skipped]
  obtain ⟨h3, h4⟩ := updates_dispatched ps (Vector.replicate 31 0)
  refine ⟨t, ht, ?_, by rw [hdec.queueBuffer, hdrain], ?_, ?_⟩
  · show dispatchedOf t.trace = ps
    rw [hdec.trace, hdrain]; simp
  · rw [hf]; exact h3
  · rw [hf]; exact h4

theorem run_encode_one_packet :
    ∃ t, (Reader.new 0).run
        [.reading [0x00, 0x55, 0x51, 0x00, 0xff], .reading [0x01, 0x00, 0x55, 0, 0, 0, 0]] = .ok t ∧
      t.dispatched = [⟨0x51, #v[0x00, 0xff, 0x01, 0x00, 0x55, 0, 0, 0, 0]⟩] ∧ t.queueBuffer = [] ∧
      t.fData.get 3 = ((-256 : ℤ) : ℚ) / 2048 ∧ t.fData.get 4 = ((1 : ℤ) : ℚ) / 2048 :=
  run_encode (List.cons_ne_nil _ _) (show 0x55#8 ∉ [0x00#8] by decide)
    [.reading [0x00, 0x55, 0x51, 0x00, 0xff], .reading [0x01, 0x00, 0x55, 0, 0, 0, 0]] (by decide) 0

/-! ## Resynchronisation -/

def lureAt (n : JByte) : Packet := ⟨0x01, #v[n, 0, 0, 0, 0, 0, 0, 0, 0x55]⟩

/-- The decoder need not recover: behind one stray `0x55`, packets that end in `0x55` are all missed. -/
theorem run_stays_misaligned :
    ¬ ∀ (noise : List JByte) (ps : List Packet) (passes : List Pass), noise.length < 11 →
      stream passes = noise ++ encodeAll ps → ∀ t, (Reader.new 0).run passes = .ok t →
        ∃ a ≤ 2, ∃ b ≤ 1, (ps.drop a).rdrop b <:+ t.dispatched := by
  intro h
  let ps := [lureAt 1, lureAt 2, lureAt 3, lureAt 4, lureAt 5]
  obtain ⟨t, ht, hdec⟩ := Reader.run_new 0 [.reading (0x55 :: encodeAll ps)]
  obtain ⟨a, ha, b, hb, hsuf⟩ := h [0x55] ps _ (by decide) rfl t ht
  have hd : t.dispatched = dispatchedOf (packets.drain (0x55 :: encodeAll ps)).1 := by
    rw [Reader.dispatched, hdec.trace]; rfl
  have hmem : lureAt 4 ∈ (ps.drop a).rdrop b := by
    interval_cases a <;> interval_cases b <;> decide
  exact absurd (hd ▸ hsuf.subset hmem) (by decide)

/-- The decoder recovers at the first packet at whose header it stands: that packet and all later ones
are dispatched, as the last packets. One packet without a `0x55` after its header is enough for that,
so that at most the first two packets are lost when one of them is such a packet. -/
theorem run_resynchronises {noise : List JByte} (hn : noise.length < 11) (ps : List Packet)
    (passes : List Pass) (hs : stream passes = noise ++ encodeAll ps) (now : ℤ) :
    ∃ t, (Reader.new now).run passes = .ok t ∧
      (∀ k, stands noise ps k = 0 → ps.drop k <:+ t.dispatched) ∧
      ∀ p ∈ ps.take 2, 0x55#8 ∉ p.sHead :: p.payload.toList → ps.drop 2 <:+ t.dispatched := by
  obtain ⟨t, ht, hdec⟩ := Reader.run_new now passes
  have hd : t.dispatched = dispatchedOf (packets.drain (noise ++ encodeAll ps)).1 := by
    rw [Reader.dispatched, hdec.trace, hs]; rfl
  have hk : ∀ k, stands noise ps k = 0 → ps.drop k <:+ t.dispatched :=
    fun k hk => hd ▸ dispatched_of_stands (by omega) ps hk
  exact ⟨t, ht, hk, fun p hp hclean => hk 2 (stands_of_clean hp hclean)⟩

theorem run_resynchronises_second_packet :
    ∃ t, (Reader.new 0).run
        [.reading (0x55 :: encodeAll [lureAt 1, ⟨0, #v[0, 0, 0, 0, 0, 0, 0, 0, 0]⟩, lureAt 3])] = .ok t ∧
      (∀ k, stands [0x55] [lureAt 1, ⟨0, #v[0, 0, 0, 0, 0, 0, 0, 0, 0]⟩, lureAt 3] k = 0 →
        [lureAt 1, ⟨0, #v[0, 0, 0, 0, 0, 0, 0, 0, 0]⟩, lureAt 3].drop k <:+ t.dispatched) ∧
      ∀ p ∈ [lureAt 1, ⟨0, #v[0, 0, 0, 0, 0, 0, 0, 0, 0]⟩, lureAt 3].take 2,
        0x55#8 ∉ p.sHead :: p.payload.toList → [lureAt 3] <:+ t.dispatched :=
  run_resynchronises (show [0x55#8].length < 11 by decide) _ _ (by decide) 0

end MyDemo.Bluetooth

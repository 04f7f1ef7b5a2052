import MyDemo.Bluetooth.Lemmas.Packets
import Mathlib.Data.List.Basic

/-!
# Where the decoder stands after a false header

A decoder that joins in the middle of a packet may take a payload byte `0x55` for a header. It then
stands at some byte `o` of the next packet, and `Packet.land` says where that packet leaves it.
`o = 0` is the header: from there on every packet is dispatched as sent.
-/

namespace MyDemo.Bluetooth

open Framing

/-- Where the last bytes of a packet leave the decoder in the next packet: at the place of their first
`0x55`, since eleven bytes are taken from there, and at the header when there is none. -/
def standsAfter (tail : List JByte) : ℕ :=
  if 0x55#8 ∈ tail then 11 - tail.length + tail.idxOf 0x55#8 else 0

def Packet.land (o : ℕ) (p : Packet) : ℕ := standsAfter (p.encode.drop o)

/-- Where the decoder stands after `noise` and the first `k` packets. -/
def stands (noise : List JByte) (ps : List Packet) (k : ℕ) : ℕ :=
  (ps.take k).foldl Packet.land (standsAfter noise)

theorem standsAfter_of_not_mem {tail : List JByte} (h : 0x55#8 ∉ tail) : standsAfter tail = 0 := by
  simp [standsAfter, h]

theorem standsAfter_header {l₁ l₂ : List JByte} (h : 0x55#8 ∉ l₁)
    (hlen : (l₁ ++ 0x55#8 :: l₂).length ≤ 11) :
    standsAfter (l₁ ++ 0x55#8 :: l₂) = 10 - l₂.length := by
  simp only [List.length_append, List.length_cons] at hlen
  simp [standsAfter, List.idxOf_append_of_notMem h]
  omega

@[simp] theorem Packet.land_zero (p : Packet) : p.land 0 = 0 := by
  have h := @standsAfter_header [] (p.sHead :: p.payload.toList) (by simp) (by simp)
  simpa [Packet.land, Packet.encode] using h

theorem Packet.land_clean {p : Packet} (h : 0x55#8 ∉ p.sHead :: p.payload.toList) (o : ℕ) :
    p.land o = 0 := by
  cases o with
  | zero => exact p.land_zero
  | succ o => exact standsAfter_of_not_mem (fun hm => h (List.mem_of_mem_drop hm))

theorem drain_realign {noise : List JByte} (hn : noise.length ≤ 10) (p : Packet) (ps : List Packet) :
    ∃ es, (packets.drain (noise ++ encodeAll (p :: ps))).1 =
      es ++ (packets.drain (p.encode.drop (standsAfter noise) ++ encodeAll ps)).1 := by
  by_cases hm : 0x55#8 ∈ noise
  · obtain ⟨l₁, l₂, rfl, hl₁⟩ := List.eq_append_cons_of_mem hm
    have hlen : l₂.length ≤ 9 := by simp at hn; omega
    obtain ⟨false, hfalse⟩ := step_header (q := l₂ ++ encodeAll (p :: ps)) (by simp; omega)
    have hrest : (l₂ ++ encodeAll (p :: ps)).drop 10 =
        p.encode.drop (10 - l₂.length) ++ encodeAll ps := by
      rw [List.drop_append, List.drop_eq_nil_of_le (by omega), encodeAll_cons, List.nil_append,
        List.drop_append_of_le_length (by simp; omega)]
    refine ⟨l₁.map .skipped ++ [.dispatched false], ?_⟩
    rw [standsAfter_header hl₁ (by omega), List.append_assoc, List.cons_append,
      drain_noise hl₁ (by simp; omega), packets.drain_some hfalse, hrest]
    simp
  · refine ⟨noise.map .skipped, ?_⟩
    rw [drain_noise hm (by simp; omega), standsAfter_of_not_mem hm]
    rfl

/-- The run lemma: from the first packet at whose header the decoder stands, all are dispatched. -/
theorem dispatched_of_stands {noise : List JByte} (hn : noise.length ≤ 10) (ps : List Packet) {k : ℕ}
    (hk : stands noise ps k = 0) :
    ps.drop k <:+ dispatchedOf (packets.drain (noise ++ encodeAll ps)).1 := by
  induction ps generalizing noise k with
  | nil => simp
  | cons p ps ih =>
      obtain ⟨es, hes⟩ := drain_realign hn p ps
      rw [hes, dispatchedOf_append]
      rcases Nat.eq_zero_or_pos (standsAfter noise) with h0 | hpos
      · -- aligned: `p` and everything after it is dispatched
        rw [h0, List.drop_zero, ← encodeAll_cons, drain_encodeAll, dispatchedOf_dispatched]
        exact (List.drop_suffix k _).trans (List.suffix_append _ _)
      · -- inside `p`: its last bytes are the noise before the rest
        cases k with
        | zero => simp only [stands, List.take_zero, List.foldl_nil] at hk; omega
        | succ k =>
            refine (ih (k := k) ?_ hk).trans (List.suffix_append _ _)
            simp; omega

theorem stands_of_clean {noise : List JByte} {ps : List Packet} {k : ℕ} {p : Packet}
    (hp : p ∈ ps.take k) (hclean : 0x55#8 ∉ p.sHead :: p.payload.toList) : stands noise ps k = 0 := by
  obtain ⟨l₁, l₂, he⟩ := List.append_of_mem hp
  have hzero : ∀ qs : List Packet, qs.foldl Packet.land 0 = 0 := by
    intro qs; induction qs with
    | nil => rfl
    | cons q qs ih => simpa using ih
  simp [stands, he, Packet.land_clean hclean, hzero]

end MyDemo.Bluetooth

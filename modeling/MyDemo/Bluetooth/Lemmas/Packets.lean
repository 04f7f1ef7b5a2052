import MyDemo.Bluetooth.Lemmas.Drain
import Mathlib.Data.List.Induction
import Mathlib.Tactic.Ring

/-!
# Encoded packets, and the numbers in them
-/

namespace MyDemo.Bluetooth

open Framing

/-! ## The `short` in two payload bytes -/

/-- The signed 16-bit value of two bytes, the low byte first. -/
def le16 (lo hi : JByte) : ℤ := (hi ++ lo).toInt

theorem short_eq_signExtend (hi lo : JByte) :
    ((hi.signExtend 16).signExtend 32 <<< 8) ||| ((lo.signExtend 16).signExtend 32 &&& 0xff#32) =
      (hi ++ lo : BitVec 16).signExtend 32 := by
  have hmask : ∀ i (h : i < 32), (0xff#32)[i] = decide (i < 8) := by decide
  have hmsb : (hi ++ lo).msb = hi.msb := by rw [BitVec.msb_append]; rfl
  ext i hi'
  simp only [BitVec.getElem_or, BitVec.getElem_shiftLeft, BitVec.getElem_and,
    BitVec.getElem_signExtend, BitVec.getElem_append, hmask]
  -- the bits of `lo`, the bits of `hi`, and the copies of the sign bit above them
  by_cases h8 : i < 8
  · simp [h8, show i < 16 by omega]
  · by_cases h16 : i < 16
    · simp [h8, h16, show i - 8 < 8 by omega, show i - 8 < 16 by omega]
    · simp [h8, h16, hmsb, show ¬ i - 8 < 8 by omega, BitVec.msb_signExtend]

theorem axis_eq (hi lo : JByte) : axis hi lo = (le16 lo hi : ℚ) / 2048 := by
  simp only [axis, short_eq_signExtend, le16]
  rw [BitVec.toInt_signExtend_of_le (by omega)]
  ring

/-! ## Decoding what a sender encoded -/

def encodeAll (ps : List Packet) : List JByte := ps.flatMap Packet.encode

@[simp] theorem encodeAll_nil : encodeAll [] = [] := rfl

@[simp] theorem encodeAll_cons (p : Packet) (ps : List Packet) :
    encodeAll (p :: ps) = p.encode ++ encodeAll ps := rfl

@[simp] theorem Packet.length_encode (p : Packet) : p.encode.length = 11 := by simp [Packet.encode]

theorem step_skip {b : JByte} {q : List JByte} (hb : b ≠ 0x55#8) (hq : 10 ≤ q.length) :
    packets.step (b :: q) = some (.skipped b, q) := by
  obtain ⟨a, s, b₀, b₁, b₂, b₃, b₄, b₅, b₆, b₇, b₈, rest, he⟩ :=
    exists_eleven (q := b :: q) (by simp; omega)
  obtain ⟨rfl, rfl⟩ := List.cons.inj he
  simp [packets, frameStep, hb]

theorem step_header {q : List JByte} (hq : 10 ≤ q.length) :
    ∃ p : Packet, packets.step (0x55#8 :: q) = some (.dispatched p, q.drop 10) := by
  obtain ⟨a, s, b₀, b₁, b₂, b₃, b₄, b₅, b₆, b₇, b₈, rest, he⟩ :=
    exists_eleven (q := 0x55#8 :: q) (by simp; omega)
  obtain ⟨rfl, rfl⟩ := List.cons.inj he
  exact ⟨_, rfl⟩

theorem step_encode (p : Packet) (q : List JByte) :
    packets.step (p.encode ++ q) = some (.dispatched p, q) := by
  obtain ⟨s, v⟩ := p
  match v with
  | ⟨⟨[_, _, _, _, _, _, _, _, _]⟩, _⟩ => rfl

theorem drain_noise {noise q : List JByte} (hn : 0x55#8 ∉ noise) (hq : 10 < q.length) :
    packets.drain (noise ++ q) =
      (noise.map Event.skipped ++ (packets.drain q).1, (packets.drain q).2) := by
  induction noise with
  | nil => simp
  | cons b noise ih =>
      have hb : b ≠ 0x55#8 := fun h => hn (by simp [h])
      have hlen : 10 ≤ (noise ++ q).length := by simp; omega
      rw [List.cons_append, packets.drain_some (step_skip hb hlen), ih (fun h => hn (by simp [h]))]
      rfl

theorem drain_encodeAll (ps : List Packet) :
    packets.drain (encodeAll ps) = (ps.map .dispatched, []) := by
  induction ps with
  | nil => exact packets.drain_none rfl
  | cons p ps ih => rw [encodeAll_cons, packets.drain_some (step_encode p _), ih]; rfl

def dispatchedOf (es : List Event) : List Packet := es.filterMap Event.packet?

@[simp] theorem dispatchedOf_append (es es' : List Event) :
    dispatchedOf (es ++ es') = dispatchedOf es ++ dispatchedOf es' := List.filterMap_append

@[simp] theorem dispatchedOf_skipped (bs : List JByte) : dispatchedOf (bs.map .skipped) = [] := by
  induction bs with
  | nil => rfl
  | cons b bs ih => exact ih

@[simp] theorem dispatchedOf_dispatched (ps : List Packet) :
    dispatchedOf (ps.map .dispatched) = ps := by
  induction ps with
  | nil => rfl
  | cons p ps ih => exact congrArg (p :: ·) ih

/-! ## The last angular velocity -/

def lastAngular (ps : List Packet) : Option Packet := ps.reverse.find? fun p => p.sHead = 0x51#8

theorem updates_append (es es' : List Event) (fData : Vector ℚ 31) :
    updates (es ++ es') fData = updates es' (updates es fData) := List.foldl_append

theorem updates_skipped (bs : List JByte) (fData : Vector ℚ 31) :
    updates (bs.map .skipped) fData = fData := by
  induction bs with
  | nil => rfl
  | cons b bs ih => exact ih

theorem Packet.get_update {p : Packet} (hp : p.sHead = 0x51#8) (fData : Vector ℚ 31) :
    (p.update fData).get 3 = le16 (p.payload.get 0) (p.payload.get 1) / 2048 ∧
      (p.update fData).get 4 = le16 (p.payload.get 2) (p.payload.get 3) / 2048 := by
  rw [← axis_eq, ← axis_eq, update, if_pos hp]
  constructor
  · exact (Vector.getElem_set_ne _ _ (by decide)).trans (Vector.getElem_set_self _)
  · exact Vector.getElem_set_self _

theorem updates_dispatched (ps : List Packet) (fData : Vector ℚ 31) :
    (updates (ps.map .dispatched) fData).get 3 =
        (lastAngular ps).elim (fData.get 3) (fun p => le16 (p.payload.get 0) (p.payload.get 1) / 2048) ∧
      (updates (ps.map .dispatched) fData).get 4 =
        (lastAngular ps).elim (fData.get 4) (fun p => le16 (p.payload.get 2) (p.payload.get 3) / 2048) := by
  induction ps using List.reverseRecOn with
  | nil => exact ⟨rfl, rfl⟩
  | append_singleton ps p ih =>
      have hstep : updates ((ps ++ [p]).map .dispatched) fData =
          p.update (updates (ps.map .dispatched) fData) := by simp [updates, Event.update]
      rw [hstep]
      by_cases hp : p.sHead = 0x51#8
      · have hlast : lastAngular (ps ++ [p]) = some p := by simp [lastAngular, hp]
        rw [hlast]
        exact Packet.get_update hp _
      · have hlast : lastAngular (ps ++ [p]) = lastAngular ps := by simp [lastAngular, hp]
        rw [hlast, Packet.update, if_neg hp]
        exact ih

end MyDemo.Bluetooth

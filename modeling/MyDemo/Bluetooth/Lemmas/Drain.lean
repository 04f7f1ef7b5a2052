import MyDemo.Bluetooth.Decoder
import MyDemo.Lib.Framing

/-!
# The inner loop as a framer

`packets` is what the inner loop is for: a framer over the byte queue, without the Java fields.
`Reader.run_new` says that a whole run computes exactly what `packets` decodes from the whole stream.
-/

namespace MyDemo.Bluetooth

open Framing

/-- Eleven bytes in the queue give an event: a byte other than `0x55` in front is skipped, and after a
`0x55` a packet is taken. -/
def frameStep : List JByte → Option (Event × List JByte)
  | a :: s :: b₀ :: b₁ :: b₂ :: b₃ :: b₄ :: b₅ :: b₆ :: b₇ :: b₈ :: rest =>
      if a ≠ 0x55#8 then
        some (.skipped a, s :: b₀ :: b₁ :: b₂ :: b₃ :: b₄ :: b₅ :: b₆ :: b₇ :: b₈ :: rest)
      else some (.dispatched ⟨s, #v[b₀, b₁, b₂, b₃, b₄, b₅, b₆, b₇, b₈]⟩, rest)
  | _ => none

theorem frameStep_eq_none {q : List JByte} : frameStep q = none ↔ q.length < 11 := by
  constructor
  · intro h
    by_contra hq
    obtain ⟨a, s, b₀, b₁, b₂, b₃, b₄, b₅, b₆, b₇, b₈, rest, rfl⟩ :=
      exists_eleven (Nat.le_of_not_lt hq)
    by_cases ha : a = 0x55#8 <;> simp [frameStep, ha] at h
  · intro h
    unfold frameStep
    split
    · simp only [List.length_cons] at h; omega
    · rfl

def packets : Framer JByte Event where
  step := frameStep
  shrinks {q e r} h := by
    unfold frameStep at h
    split at h
    · split at h
      · cases h; simp
      · cases h; simp only [List.length_cons]; omega
    · cases h
  stable {q e r} h x := by
    unfold frameStep at h
    split at h
    · split at h
      · cases h; simp_all [frameStep]
      · cases h; simp_all [frameStep]
    · cases h

/-- The bytes that were polled for an event. -/
def Event.bytes : Event → List JByte
  | .skipped b => [b]
  | .dispatched p => p.encode

theorem frameStep_bytes {q r : List JByte} {e : Event} (h : packets.step q = some (e, r)) : e.bytes ++ r = q := by
  simp only [packets, frameStep] at h
  split at h
  · split at h
    · cases h; rfl
    · next ha =>
        cases h
        rw [not_ne_iff.mp ha]
        rfl
  · cases h

/-! ## What one event does to the fields -/

def Event.update : Event → Vector ℚ 31 → Vector ℚ 31
  | .skipped _, fData => fData
  | .dispatched p, fData => p.update fData

def updates (es : List Event) (fData : Vector ℚ 31) : Vector ℚ 31 :=
  es.foldl (fun fData e => e.update fData) fData

theorem Reader.loopBody_frame {t : Reader} {e : Event} {r : List JByte}
    (h : packets.step t.queueBuffer = some (e, r)) :
    ∃ t', t.loopBody = .ok t' ∧ t'.queueBuffer = r ∧ t'.trace = t.trace ++ [e] ∧
      t'.fData = e.update t.fData := by
  have hlen : 11 ≤ t.queueBuffer.length := by
    by_contra hq
    rw [show packets.step t.queueBuffer = none from frameStep_eq_none.mpr (by omega)] at h
    cases h
  obtain ⟨a, s, b₀, b₁, b₂, b₃, b₄, b₅, b₆, b₇, b₈, rest, he⟩ := exists_eleven hlen
  refine ⟨_, t.loopBody_eq he, ?_⟩
  by_cases ha : a = 0x55#8
  · simp only [packets, he, frameStep, ha, ne_eq, not_true_eq_false, ↓reduceIte, Option.some.injEq,
      Prod.mk.injEq] at h
    obtain ⟨rfl, rfl⟩ := h
    simp [ha, Event.update, Packet.update, dispatch]
  · simp only [packets, he, frameStep, ha, ne_eq, not_false_eq_true, ↓reduceIte, Option.some.injEq,
      Prod.mk.injEq] at h
    obtain ⟨rfl, rfl⟩ := h
    simp [ha, he, Event.update]

/-! ## Runs -/

/-- `t` is where a thread stands that began with `fData` and an empty queue and has read `bytes`. -/
structure Reader.Decoded (fData : Vector ℚ 31) (bytes : List JByte) (t : Reader) : Prop where
  queueBuffer : t.queueBuffer = (packets.drain bytes).2
  trace : t.trace = (packets.drain bytes).1
  fData : t.fData = updates (packets.drain bytes).1 fData

theorem Reader.drain_eq (t : Reader) :
    ∃ t', t.drain = .ok t' ∧ t'.queueBuffer = (packets.drain t.queueBuffer).2 ∧
      t'.trace = t.trace ++ (packets.drain t.queueBuffer).1 ∧
      t'.fData = updates (packets.drain t.queueBuffer).1 t.fData := by
  induction hq : t.queueBuffer using packets.drain_induction generalizing t with
  | none q h =>
      have hlen : q.length < 11 := frameStep_eq_none.mp h
      refine ⟨t, ?_, ?_⟩
      · rw [Reader.drain]; simp [hq, show ¬ 11 ≤ q.length by omega]
      · simp [packets.drain_none h, hq, updates]
  | some q e r h ih =>
      subst hq
      obtain ⟨u, hu, hur, hut, huf⟩ := Reader.loopBody_frame h
      obtain ⟨t', ht', hq', htr', hf'⟩ := ih u hur
      have hlen : 11 ≤ t.queueBuffer.length := by
        by_contra hq
        rw [show packets.step t.queueBuffer = none from frameStep_eq_none.mpr (by omega)] at h
        cases h
      refine ⟨t', ?_, ?_, ?_, ?_⟩
      · rw [Reader.drain]
        simp only [hlen, ↓reduceDIte]
        split
        · next e' he' => rw [hu] at he'; cases he'
        · next u' hu' => rw [hu] at hu'; cases hu'; exact ht'
      · rw [packets.drain_some h, hq']
      · rw [packets.drain_some h, htr', hut]; simp
      · rw [packets.drain_some h, hf', huf]; rfl

theorem Reader.Decoded.new (now : ℤ) :
    Reader.Decoded (Vector.replicate 31 0) [] (Reader.new now) := by
  have h : packets.drain [] = ([], []) := packets.drain_none rfl
  constructor <;> simp [Reader.new, h, updates]

theorem Reader.Decoded.pass {fData : Vector ℚ 31} {bytes : List JByte} {t : Reader}
    (h : t.Decoded fData bytes) (p : Pass) :
    ∃ t', t.pass p = .ok t' ∧ t'.Decoded fData (bytes ++ p.result.bytes) := by
  obtain ⟨u, hu, hq, htr, hf⟩ :=
    Reader.drain_eq { t with queueBuffer := t.queueBuffer ++ p.result.bytes }
  simp only [h.queueBuffer, h.trace, h.fData] at hq htr hf
  have hdec : u.Decoded fData (bytes ++ p.result.bytes) := by
    constructor
    · rw [packets.drain_append, hq]
    · rw [packets.drain_append, htr]
    · rw [packets.drain_append, hf]; simp [updates]
  have hrep : (u.report p.lTimeNow).Decoded fData (bytes ++ p.result.bytes) := by
    unfold Reader.report
    split
    · exact ⟨hdec.queueBuffer, hdec.trace, hdec.fData⟩
    · exact hdec
  cases hp : p.result with
  | ioException => exact ⟨t, by simp [Reader.pass, hp], by simpa [ReadResult.bytes] using h⟩
  | accepted bytes fits | endOfStream =>
      refine ⟨u.report p.lTimeNow, ?_, hp ▸ hrep⟩
      simp only [Reader.pass, hp, bind, Except.bind] at hu ⊢
      rw [hu]; rfl

theorem Reader.Decoded.run {fData : Vector ℚ 31} {bytes : List JByte} {t : Reader}
    (h : t.Decoded fData bytes) (ps : List Pass) :
    ∃ t', t.run ps = .ok t' ∧ t'.Decoded fData (bytes ++ stream ps) := by
  induction ps generalizing t bytes with
  | nil => exact ⟨t, rfl, by simpa [stream] using h⟩
  | cons p ps ih =>
      obtain ⟨u, hu, hdec⟩ := h.pass p
      obtain ⟨t', ht', hdec'⟩ := ih hdec
      refine ⟨t', ?_, by simpa [stream, List.append_assoc] using hdec'⟩
      simp only [Reader.run, List.foldlM_cons, hu, bind, Except.bind]
      exact ht'

/-- A run never throws, and its result is what `packets` decodes from the stream. -/
theorem Reader.run_new (now : ℤ) (ps : List Pass) :
    ∃ t, (Reader.new now).run ps = .ok t ∧
      t.Decoded (Vector.replicate 31 0) (stream ps) := by
  simpa using (Reader.Decoded.new now).run ps

end MyDemo.Bluetooth

import MyDemo.Java
import Mathlib.Data.Rat.Defs

/-!
# The packet decoder of `BluetoothService.ConnectedThread`

`ConnectedThread.run` reads from the socket in an endless loop, appends what it read to `queueBuffer`
and takes 11-byte packets off the front of it. `float` values are exact rationals: the only operations
on them divide a 16-bit value by a power of two.
-/

namespace MyDemo.Bluetooth

/-- A packet as the sender lays it out: `0x55`, the head byte, nine payload bytes. -/
structure Packet where
  sHead : JByte
  payload : Vector JByte 9
  deriving DecidableEq

def Packet.encode (p : Packet) : List JByte := 0x55#8 :: p.sHead :: p.payload.toList

inductive Event where
  | skipped (b : JByte)
  | dispatched (p : Packet)
  deriving DecidableEq

/-- The fields of a `ConnectedThread` and the locals of its `run`. `trace` records what the inner loop
did, and `plucks` counts the log lines that `run` writes. -/
structure Reader where
  queueBuffer : List JByte
  packBuffer : Vector JByte 11
  fData : Vector ℚ 31
  lLastTime : ℤ
  trace : List Event
  plucks : ℕ

def Reader.new (now : ℤ) : Reader where
  queueBuffer := []
  packBuffer := Vector.replicate 11 0#8
  fData := Vector.replicate 31 0
  lLastTime := now
  trace := []
  plucks := 0

def Event.packet? : Event → Option Packet
  | .skipped _ => none
  | .dispatched p => some p

def Reader.dispatched (t : Reader) : List Packet := t.trace.filterMap Event.packet?

/-! ## The inner loop -/

/-- `queueBuffer.poll()`, unboxed: an empty queue answers `null`, and unboxing that throws. -/
def poll : List JByte → Except Exn (JByte × List JByte)
  | [] => .error .nullPointer
  | b :: q => .ok (b, q)

def fillPack (packBuffer : Vector JByte 11) (q : List JByte) :
    Except Exn (Vector JByte 11 × List JByte) :=
  (List.finRange 9).foldlM (fun (pack, q) (j : Fin 9) => do
    let (b, q) ← poll q
    return (pack.set j b, q)) (packBuffer, q)

/-- `((((short) hi) << 8) | ((short) lo & 0xff)) / 32768.0f * 16`, where `<<`, `|` and `&` are `int`
operations on the promoted operands. -/
def axis (hi lo : JByte) : ℚ :=
  let hi : BitVec 32 := (hi.signExtend 16).signExtend 32
  let lo : BitVec 32 := (lo.signExtend 16).signExtend 32
  ((hi <<< 8) ||| (lo &&& 0xff#32)).toInt / 32768 * 16

def dispatch (sHead : JByte) (packBuffer : Vector JByte 11) (fData : Vector ℚ 31) : Vector ℚ 31 :=
  if sHead = 0x51#8 then
    (fData.set 3 (axis packBuffer[1] packBuffer[0])).set 4 (axis packBuffer[3] packBuffer[2])
  else fData

/-- What `dispatch` does, as one that knows the whole packet. -/
def Packet.update (p : Packet) (fData : Vector ℚ 31) : Vector ℚ 31 :=
  if p.sHead = 0x51#8 then
    (fData.set 3 (axis p.payload[1] p.payload[0])).set 4 (axis p.payload[3] p.payload[2])
  else fData

/-- One pass of `while (queueBuffer.size() >= 11)`. -/
def Reader.loopBody (t : Reader) : Except Exn Reader := do
  let (b, q) ← poll t.queueBuffer
  if b ≠ 0x55#8 then
    return { t with queueBuffer := q, trace := t.trace ++ [.skipped b] }
  let (sHead, q) ← poll q
  let (packBuffer, q) ← fillPack t.packBuffer q
  return { t with
    queueBuffer := q
    packBuffer := packBuffer
    fData := dispatch sHead packBuffer t.fData
    trace := t.trace ++ [.dispatched ⟨sHead, Vector.ofFn fun j => packBuffer[j]⟩] }

theorem exists_eleven {q : List JByte} (h : 11 ≤ q.length) :
    ∃ a s b₀ b₁ b₂ b₃ b₄ b₅ b₆ b₇ b₈ rest,
      q = a :: s :: b₀ :: b₁ :: b₂ :: b₃ :: b₄ :: b₅ :: b₆ :: b₇ :: b₈ :: rest := by
  match q, h with
  | a :: s :: b₀ :: b₁ :: b₂ :: b₃ :: b₄ :: b₅ :: b₆ :: b₇ :: b₈ :: rest, _ =>
      exact ⟨a, s, b₀, b₁, b₂, b₃, b₄, b₅, b₆, b₇, b₈, rest, rfl⟩

theorem fillPack_nine (pack : Vector JByte 11) (b₀ b₁ b₂ b₃ b₄ b₅ b₆ b₇ b₈ : JByte)
    (rest : List JByte) :
    fillPack pack (b₀ :: b₁ :: b₂ :: b₃ :: b₄ :: b₅ :: b₆ :: b₇ :: b₈ :: rest) =
      .ok (#v[b₀, b₁, b₂, b₃, b₄, b₅, b₆, b₇, b₈, pack[9], pack[10]], rest) := by
  match pack with
  | ⟨⟨[_, _, _, _, _, _, _, _, _, _, _]⟩, _⟩ => rfl

theorem Reader.loopBody_eq (t : Reader) {a s b₀ b₁ b₂ b₃ b₄ b₅ b₆ b₇ b₈ : JByte} {rest : List JByte}
    (hq : t.queueBuffer = a :: s :: b₀ :: b₁ :: b₂ :: b₃ :: b₄ :: b₅ :: b₆ :: b₇ :: b₈ :: rest) :
    t.loopBody = .ok (
      if a ≠ 0x55#8 then
        { t with queueBuffer := t.queueBuffer.tail, trace := t.trace ++ [.skipped a] }
      else
        let pack := #v[b₀, b₁, b₂, b₃, b₄, b₅, b₆, b₇, b₈, t.packBuffer[9], t.packBuffer[10]]
        { t with
          queueBuffer := rest
          packBuffer := pack
          fData := dispatch s pack t.fData
          trace := t.trace ++ [.dispatched ⟨s, #v[b₀, b₁, b₂, b₃, b₄, b₅, b₆, b₇, b₈]⟩] }) := by
  by_cases ha : a = 0x55#8
  · simp only [loopBody, hq, poll, bind, Except.bind, ha, fillPack_nine]
    rfl
  · simp only [loopBody, hq, poll, bind, Except.bind, ha, ne_eq, not_false_eq_true, ↓reduceIte]
    rfl

theorem Reader.loopBody_length {t t' : Reader} (hq : 11 ≤ t.queueBuffer.length)
    (h : t.loopBody = .ok t') : t'.queueBuffer.length < t.queueBuffer.length := by
  obtain ⟨a, s, b₀, b₁, b₂, b₃, b₄, b₅, b₆, b₇, b₈, rest, he⟩ := exists_eleven hq
  rw [t.loopBody_eq he, Except.ok.injEq] at h
  subst h
  by_cases ha : a = 0x55#8
  · simp [ha, he]; omega
  · simp [ha, he]

def Reader.drain (t : Reader) : Except Exn Reader :=
  if _hq : 11 ≤ t.queueBuffer.length then
    match _h : t.loopBody with
    | .error e => .error e
    | .ok t' => t'.drain
  else .ok t
termination_by t.queueBuffer.length
decreasing_by exact loopBody_length _hq _h

/-! ## The endless loop -/

/-- What `mmInStream.read(tempInputBuffer)` answers. The buffer holds 1024 bytes. -/
inductive ReadResult where
  | accepted (bytes : List JByte) (fits : bytes.length ≤ 1024)
  | endOfStream
  | ioException

def ReadResult.bytes : ReadResult → List JByte
  | .accepted bytes _ => bytes
  | .endOfStream => []
  | .ioException => []

/-- One pass of `while (true)`: the answer of `read`, and the clock after the packets are handled. -/
structure Pass where
  result : ReadResult
  lTimeNow : ℤ

def Reader.report (t : Reader) (lTimeNow : ℤ) : Reader :=
  if lTimeNow - t.lLastTime > 50 then
    { t with lLastTime := lTimeNow, plucks := if t.fData[3] > 1 then t.plucks + 1 else t.plucks }
  else t

/-- After an `IOException` only `connectionLost` runs, which does not touch the decoder. -/
def Reader.pass (t : Reader) (p : Pass) : Except Exn Reader :=
  match p.result with
  | .ioException => .ok t
  | .accepted .. | .endOfStream => do
      let t ← Reader.drain { t with queueBuffer := t.queueBuffer ++ p.result.bytes }
      return t.report p.lTimeNow

def Reader.run (t : Reader) (ps : List Pass) : Except Exn Reader := ps.foldlM Reader.pass t

def stream (ps : List Pass) : List JByte := ps.flatMap fun p => p.result.bytes

end MyDemo.Bluetooth

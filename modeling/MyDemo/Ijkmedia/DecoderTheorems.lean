import MyDemo.Ijkmedia.Lemmas.Decoder
import MyDemo.Lib.Transition

/-!
# The decoder and the reader
-/

namespace MyDemo.Ijkmedia

open Transition
open PacketQueue (Contents Models)

variable {β : Type*}

namespace Stream

variable {sizeof_pkt : ℤ} {s s' : Stream β} {c : Contents β} {packet_buffering : Bool}

theorem Inv.run (h : Inv sizeof_pkt s c) (codec_type : AVMediaType) (packet_buffering : Bool)
    (events : List (Event β)) :
    ∃ s' c', run (Stream.step sizeof_pkt codec_type packet_buffering) s events = some s' ∧ Inv sizeof_pkt s' c' := by
  induction events generalizing s c with
  | nil => exact ⟨s, c, rfl, h⟩
  | cons e events ih =>
      obtain ⟨s₁, c₁, hstep, h₁⟩ := h.step codec_type packet_buffering e
      obtain ⟨s', c', hrun, h'⟩ := ih h₁
      exact ⟨s', c', run_cons_eq_some.mpr ⟨s₁, hstep, hrun⟩, h'⟩

/-- Where the decoder asks the codec for a frame, the codec has packets of the serial of the decoder only, which is the
one that the frame gets. -/
theorem frames_of_one_serial (sizeof_pkt : ℤ) (codec_type : AVMediaType) (packet_buffering allocated : Bool)
    (events : List (Event β)) :
    ∃ s₀ s, decoder_start sizeof_pkt allocated = some s₀ ∧
      run (step sizeof_pkt codec_type packet_buffering) s₀ events = some s ∧
      ∀ ret, s.pc = .receive ret → ∀ n ∈ s.d.avctx, n.serial = s.d.pkt_serial := by
  obtain ⟨s₀, c₀, hstart, h₀⟩ := Inv.start β sizeof_pkt allocated
  obtain ⟨s, c, hrun, h⟩ := h₀.run codec_type packet_buffering events
  refine ⟨s₀, s, hstart, hrun, fun ret hpc => ?_⟩
  have hat := h.at_pc
  rw [hpc] at hat
  exact hat

/-- The subtitle is of the serial of the decoder, or the codec has been flushed since. -/
def Tagged (d : Decoder β) : Prop := d.sub = d.pkt_serial ∧ d.avctx ≠ [] ∨ d.avctx = [] ∧ d.sub < d.pkt_serial

def SubAt (d : Decoder β) : DecodePc β → Prop
  | .top ret => ret = 0 → Tagged d
  | .receive ret => ret = 0 → Tagged d
  | .check _ n => n.pkt.isFlush = true → d.sub < d.pkt_serial
  | .handle _ n => n.pkt.isFlush = true → d.sub < d.pkt_serial
  | _ => True

structure SubInv (s : Stream β) : Prop where
  le : s.d.sub ≤ s.d.pkt_serial
  at_pc : SubAt s.d s.pc

theorem SubInv.fetchStep (hs : SubInv s) (h : Inv sizeof_pkt s c) {ret : ℤ} {block : Bool}
    (hstep : s.fetchStep sizeof_pkt packet_buffering ret block = some s') : SubInv s' := by
  obtain ⟨q, hget, -⟩ := h.models.get block
  rw [Stream.fetchStep, hget] at hstep
  rw [Contents.get] at hstep
  by_cases habort : c.abort_request = true
  · rw [if_pos habort] at hstep
    cases hstep
    exact ⟨hs.le, trivial⟩
  · rw [if_neg habort] at hstep
    cases hnodes : c.nodes with
    | nil =>
        simp only [hnodes] at hstep
        cases block with
        | true =>
            cases hstep
            exact ⟨hs.le, hs.at_pc⟩
        | false =>
            cases hstep
            exact ⟨hs.le, trivial⟩
    | cons n rest =>
        simp only [hnodes] at hstep
        cases hstep
        have hserials := h.serials
        rw [hnodes] at hserials
        have hn := hserials.1
        have hle := hs.le
        simp only [fetched]
        split
        · refine ⟨?_, trivial⟩
          change s.d.sub ≤ n.serial
          split at hn
          · omega
          · omega
        · refine ⟨?_, fun hflush => ?_⟩
          · change s.d.sub ≤ n.serial
            split at hn
            · omega
            · omega
          · change s.d.sub < n.serial
            rw [if_pos hflush] at hn
            omega

theorem SubInv.received (hs : SubInv s) {ret : ℤ} (hret : ret = 0 → Tagged s.d) : SubInv (s.received ret) := by
  rw [Stream.received]
  split
  · exact ⟨hs.le, trivial⟩
  · split
    · exact ⟨hs.le, trivial⟩
    · split
      · exact ⟨hs.le, trivial⟩
      · exact ⟨hs.le, hret⟩

theorem SubInv.handleSubtitle (hs : SubInv s) {n : MyAVPacketList β} (hn : n.serial = s.d.pkt_serial)
    (a : CodecAnswer) : SubInv (s.handleSubtitle n a) := by
  have hcons : s.d.avctx ++ [n] ≠ [] := by simp
  have hle : (if a.ret ≥ 0 ∧ a.got_frame then n.serial else s.d.sub) ≤ s.d.pkt_serial := by
    split
    · exact hn.le
    · exact hs.le
  rw [Stream.handleSubtitle]
  split
  case isTrue => exact ⟨hle, fun h => by cases h⟩
  case isFalse hret =>
      have hge : a.ret ≥ 0 := by omega
      split
      case isTrue hgot =>
          rw [Bool.and_eq_true] at hgot
          refine ⟨hle, fun _ => .inl ⟨?_, hcons⟩⟩
          change (if a.ret ≥ 0 ∧ a.got_frame then n.serial else s.d.sub) = s.d.pkt_serial
          rw [if_pos ⟨hge, hgot.1⟩, hn]
      case isFalse =>
          refine ⟨hle, fun hzero => .inl ⟨?_, hcons⟩⟩
          change (if a.ret ≥ 0 ∧ a.got_frame then n.serial else s.d.sub) = s.d.pkt_serial
          by_cases hgot : a.got_frame = true
          · rw [if_pos ⟨hge, hgot⟩, hn]
          · rw [if_neg hgot] at hzero
            split at hzero
            · cases hzero
            · cases hzero

theorem SubInv.decode (hs : SubInv s) (h : Inv sizeof_pkt s c) {a : CodecAnswer}
    (hstep : s.decodeStep sizeof_pkt .AVMEDIA_TYPE_SUBTITLE packet_buffering a = some s') : SubInv s' := by
  have hat := hs.at_pc
  cases hpc : s.pc with
  | returned ret =>
      simp only [decodeStep, hpc] at hstep
      cases hstep
      exact ⟨hs.le, fun h => by cases h⟩
  | top ret =>
      rw [hpc] at hat
      simp only [decodeStep, hpc] at hstep
      cases hstep
      split
      · exact ⟨hs.le, hat⟩
      · exact ⟨hs.le, trivial⟩
  | receive ret =>
      rw [hpc] at hat
      simp only [decodeStep, hpc] at hstep
      split at hstep
      · cases hstep
        exact ⟨hs.le, trivial⟩
      · cases hstep
        exact hs.received hat
  | fetch ret =>
      simp only [decodeStep, hpc] at hstep
      split at hstep
      case isTrue hpending =>
          cases hstep
          have hmem : s.d.pkt ∈ s.d.pending := by
            rw [Decoder.pending, if_pos hpending]
            exact List.mem_singleton_self _
          refine ⟨hs.le, fun hflush => ?_⟩
          rw [h.pending _ hmem] at hflush
          cases hflush
      case isFalse =>
          cases hstep
          split
          · exact ⟨hs.le, trivial⟩
          · exact ⟨hs.le, trivial⟩
  | poll ret =>
      simp only [decodeStep, hpc] at hstep
      exact hs.fetchStep h hstep
  | await ret =>
      simp only [decodeStep, hpc] at hstep
      exact hs.fetchStep h hstep
  | check ret n =>
      rw [hpc] at hat
      simp only [decodeStep, hpc] at hstep
      cases hstep
      split
      · exact ⟨hs.le, trivial⟩
      · exact ⟨hs.le, hat⟩
  | handle ret n =>
      rw [hpc] at hat
      have hhand : s.pc.hand = [n] := by rw [hpc]; rfl
      have hplace := h.at_pc
      rw [hpc] at hplace
      simp only [decodeStep, hpc] at hstep
      split at hstep
      case isTrue hflush =>
          cases hstep
          exact ⟨hs.le, fun _ => .inr ⟨rfl, hat hflush⟩⟩
      case isFalse =>
          cases hstep
          exact hs.handleSubtitle (h.hand_eq hhand hplace.1).2 a

theorem putPacket_frame {pkt : AVPacket β} {allocated : Bool} (h : s.putPacket sizeof_pkt pkt allocated = some s') :
    s'.d = s.d ∧ s'.pc = s.pc := by
  rw [putPacket] at h
  split at h
  · cases h
  · cases h
    exact ⟨rfl, rfl⟩

/-- The reader leaves the decoder as it is. -/
theorem readStep_frame {call : ReaderCall β} {allocated : Bool} (h : s.readStep sizeof_pkt call allocated = some s') :
    s'.d = s.d ∧ s'.pc = s.pc := by
  by_cases hseeking : s.seeking = true
  · simp only [readStep, hseeking, if_true] at h
    obtain ⟨s₁, hput, rfl⟩ := Option.map_eq_some_iff.mp h
    have hframe := putPacket_frame hput
    exact hframe
  · cases call with
    | put pkt =>
        simp only [readStep, hseeking] at h
        exact putPacket_frame h
    | seek =>
        simp only [readStep, hseeking] at h
        obtain ⟨r, -, rfl⟩ := Option.map_eq_some_iff.mp h
        exact ⟨rfl, rfl⟩

theorem SubInv.step (hs : SubInv s) (h : Inv sizeof_pkt s c) {e : Event β}
    (hstep : s.step sizeof_pkt .AVMEDIA_TYPE_SUBTITLE packet_buffering e = some s') : SubInv s' := by
  cases e with
  | read call allocated =>
      obtain ⟨hd, hpc⟩ := readStep_frame hstep
      exact ⟨hd ▸ hs.le, by rw [hd, hpc]; exact hs.at_pc⟩
  | decode a => exact hs.decode h hstep
  | finish =>
      simp only [Stream.step] at hstep
      split at hstep
      case h_1 ret hpc =>
          cases hstep
          exact ⟨hs.le, by rw [hpc]; trivial⟩
      case h_2 =>
          cases hstep
          exact hs
  | abort =>
      cases hstep
      exact ⟨hs.le, hs.at_pc⟩

theorem subInv_step {e : Event β} (hs : (∃ c, Inv sizeof_pkt s c) ∧ SubInv s)
    (hstep : s.step sizeof_pkt .AVMEDIA_TYPE_SUBTITLE packet_buffering e = some s') :
    (∃ c, Inv sizeof_pkt s' c) ∧ SubInv s' := by
  obtain ⟨⟨c, h⟩, hs⟩ := hs
  obtain ⟨s₁, c₁, hstep₁, h₁⟩ := h.step .AVMEDIA_TYPE_SUBTITLE packet_buffering e
  obtain rfl : s₁ = s' := Option.some.inj (hstep₁.symm.trans hstep)
  exact ⟨⟨c₁, h₁⟩, hs.step h hstep⟩

/-- A subtitle that is returned is of the serial that it gets exactly where the codec has not been flushed since it was
decoded; else it is of one before. -/
theorem subtitle_of_serial_iff (sizeof_pkt : ℤ) (packet_buffering allocated : Bool) (events : List (Event β)) :
    ∃ s₀ s, decoder_start sizeof_pkt allocated = some s₀ ∧
      run (step sizeof_pkt .AVMEDIA_TYPE_SUBTITLE packet_buffering) s₀ events = some s ∧
      (s.pc = .receive 0 → (s.d.sub = s.d.pkt_serial ↔ s.d.avctx ≠ []) ∧ s.d.sub ≤ s.d.pkt_serial) := by
  obtain ⟨s₀, c₀, hstart, h₀⟩ := Inv.start β sizeof_pkt allocated
  have hs₀ : SubInv s₀ := by
    rw [decoder_start_eq] at hstart
    obtain ⟨hd, hpc⟩ := putPacket_frame hstart
    exact ⟨by rw [hd]; exact le_refl _, by rw [hpc]; trivial⟩
  obtain ⟨s, c, hrun, h⟩ := h₀.run .AVMEDIA_TYPE_SUBTITLE packet_buffering events
  have hsub := (run_keeps (fun _ _ _ => subInv_step) ⟨⟨c₀, h₀⟩, hs₀⟩ hrun).2
  refine ⟨s₀, s, hstart, hrun, fun hpc => ⟨?_, hsub.le⟩⟩
  have htag := hsub.at_pc
  rw [hpc] at htag
  rcases htag rfl with ⟨heq, hne⟩ | ⟨hnil, hlt⟩
  · exact ⟨fun _ => hne, fun _ => heq⟩
  · exact ⟨fun heq => absurd heq hlt.ne, fun hne => absurd hnil hne⟩

/-- A subtitle is decoded, and the stream is sought before it is returned. -/
def soughtSubtitle : List (Event ℕ) :=
  let next := .decode ⟨0, false⟩
  [.read (.put ⟨.buf 5, 1, 1⟩) true, next, next, next, next, next, next, next, next, next, next, next,
    .decode ⟨0, true⟩, .read .seek true, .read .seek true, next, next, next, next, next, next]

example : (((decoder_start 100 true).bind fun s =>
    run (step 100 .AVMEDIA_TYPE_SUBTITLE false) s soughtSubtitle).map fun s => (s.pc, s.d.sub, s.d.pkt_serial)) =
      some (.receive 0, 1, 2) := by decide

end Stream

end MyDemo.Ijkmedia

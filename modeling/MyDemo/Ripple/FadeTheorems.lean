import MyDemo.Lib.Transition
import MyDemo.Ripple.Lemmas.Circles
import Mathlib.Algebra.Order.Field.Rat
import Mathlib.Tactic.FieldSimp
import Mathlib.Tactic.Linarith
import Mathlib.Tactic.Ring

/-!
# How circles fade
-/

namespace MyDemo.Ripple

open Transition

namespace RippleView

variable {s s' : RippleView} {c c' : Circle} {cs : List Circle} {dialWidth : ℕ}

/-! ## The two units -/

theorem maxWidth_pos (h : 0 < s.dialWidth) : 0 < s.maxWidth := by
  have hwidth : (0 : ℚ) < s.dialWidth := by exact_mod_cast h
  rw [maxWidth]
  linarith

theorem diffusionUnit_pos (s : RippleView) : 0 < s.diffusionUnit := by
  rw [diffusionUnit]
  split <;> linarith

/-- The two units keep the proportion of 255 to the largest width, in both regimes. -/
theorem zoomOutUnit_mul_maxWidth (h : 0 < s.maxWidth) : s.zoomOutUnit * s.maxWidth = 255 * s.diffusionUnit := by
  rw [zoomOutUnit, diffusionUnit]
  split
  · ring
  · field_simp

/-! ## One circle -/

/-- The width is a multiple of the diffusion unit within the largest width, and gives the alpha. -/
structure Fades (s : RippleView) (c : Circle) : Prop where
  steps : ∃ k : ℕ, c.width = k * s.diffusionUnit
  width_le : c.width ≤ s.maxWidth
  law : c.alpha * s.maxWidth = 255 * (s.maxWidth - c.width)

theorem fades_congr (h : s'.dialWidth = s.dialWidth) : s'.Fades c ↔ s.Fades c := by
  have hmax : s'.maxWidth = s.maxWidth := by rw [maxWidth, maxWidth, h]
  have hunit : s'.diffusionUnit = s.diffusionUnit := by rw [diffusionUnit, diffusionUnit, hmax]
  constructor
  · rintro ⟨hsteps, hle, hlaw⟩
    rw [hmax] at hle hlaw
    rw [hunit] at hsteps
    exact ⟨hsteps, hle, hlaw⟩
  · rintro ⟨hsteps, hle, hlaw⟩
    rw [← hmax] at hle hlaw
    rw [← hunit] at hsteps
    exact ⟨hsteps, hle, hlaw⟩

theorem fades_first (h : 0 < s.maxWidth) : s.Fades ⟨255, 0⟩ := ⟨⟨0, by simp⟩, h.le, by ring⟩

theorem Fades.width_nonneg (h : s.Fades c) : 0 ≤ c.width := by
  obtain ⟨k, hk⟩ := h.steps
  rw [hk]
  exact mul_nonneg (Nat.cast_nonneg k) s.diffusionUnit_pos.le

theorem alpha_nonneg_of_law {alpha width maxWidth : ℚ} (hmax : 0 < maxWidth) (hle : width ≤ maxWidth)
    (hlaw : alpha * maxWidth = 255 * (maxWidth - width)) : 0 ≤ alpha := by
  refine nonneg_of_mul_nonneg_left ?_ hmax
  rw [hlaw]
  linarith

theorem Fades.alpha_nonneg (h : s.Fades c) (hmax : 0 < s.maxWidth) : 0 ≤ c.alpha :=
  alpha_nonneg_of_law hmax h.width_le h.law

theorem Fades.alpha_le (h : s.Fades c) (hmax : 0 < s.maxWidth) : c.alpha ≤ 255 := by
  have hlaw := h.law
  have hwidth := h.width_nonneg
  by_contra hlt
  have hprod := mul_lt_mul_of_pos_right (not_le.mp hlt) hmax
  linarith

theorem Fades.advance (h : s.Fades c) (hmax : 0 < s.maxWidth) : s.Fades (s.advance c) := by
  rw [RippleView.advance]
  split
  · next hmove =>
      have hle : c.width + s.diffusionUnit * speed ≤ s.maxWidth := by linarith [hmove.2]
      have hunit : s.diffusionUnit * speed = s.diffusionUnit := mul_one _
      have hlaw : (c.alpha - s.zoomOutUnit * speed) * s.maxWidth =
          255 * (s.maxWidth - (c.width + s.diffusionUnit * speed)) := by
        have hproportion := zoomOutUnit_mul_maxWidth hmax
        have hbefore := h.law
        rw [hunit, speed]
        linarith
      refine ⟨?_, hle, ?_⟩
      · obtain ⟨k, hk⟩ := h.steps
        refine ⟨k + 1, ?_⟩
        simp only [hunit, hk]
        push_cast
        ring
      · simp only
        split
        · exact hlaw
        · next hpos =>
            -- the clamp only meets an alpha that is zero already
            have hnonneg : 0 ≤ c.alpha - s.zoomOutUnit * speed := alpha_nonneg_of_law hmax hle hlaw
            have hzero : c.alpha - s.zoomOutUnit * speed = 0 := le_antisymm (not_lt.mp hpos) hnonneg
            rw [← hlaw, hzero]
  · exact h

/-! ## The order of the circles -/

/-- Of two widths the smaller one is a whole unit smaller. -/
theorem Fades.add_le (h : s.Fades c) (h' : s.Fades c') (hlt : c'.width < c.width) :
    c'.width + s.diffusionUnit ≤ c.width := by
  obtain ⟨k, hk⟩ := h.steps
  obtain ⟨k', hk'⟩ := h'.steps
  have hunit := s.diffusionUnit_pos
  rw [hk, hk'] at hlt ⊢
  have hsucc : k' + 1 ≤ k := by
    have hcast : (k' : ℚ) < k := lt_of_mul_lt_mul_right hlt hunit.le
    exact_mod_cast hcast
  have hcast : (k' : ℚ) + 1 ≤ k := by exact_mod_cast hsucc
  calc (k' : ℚ) * s.diffusionUnit + s.diffusionUnit = (k' + 1) * s.diffusionUnit := by ring
    _ ≤ k * s.diffusionUnit := mul_le_mul_of_nonneg_right hcast hunit.le

theorem width_advance (s : RippleView) (c : Circle) : (s.advance c).width =
    if s.isStarting ∧ c.width ≤ s.maxWidth - s.diffusionUnit then c.width + s.diffusionUnit else c.width := by
  rw [advance, show s.diffusionUnit * speed = s.diffusionUnit from mul_one _]
  split <;> rfl

theorem Fades.width_advance_le (h : s.Fades c) (h' : s.Fades c') (hle : c'.width ≤ c.width) :
    (s.advance c').width ≤ (s.advance c).width := by
  have hunit := s.diffusionUnit_pos
  rw [width_advance, width_advance]
  split
  · next hmove' =>
      split
      · linarith
      · next hstay =>
          have hlt : c'.width < c.width := lt_of_not_ge fun hge => hstay ⟨hmove'.1, hge.trans hmove'.2⟩
          exact h.add_le h' hlt
  · split
    · linarith
    · exact hle

/-- The older circles are the wider ones. -/
structure Ordered (s : RippleView) (cs : List Circle) : Prop where
  fades : ∀ c ∈ cs, s.Fades c
  widths : cs.Pairwise fun c c' => c'.width ≤ c.width

theorem Ordered.grown (h : s.Ordered cs) (hmax : 0 < s.maxWidth) (createTime : ℤ) :
    s.Ordered (s.grown createTime cs) := by
  have hfades : ∀ c ∈ cs.map s.advance, s.Fades c := by
    intro c' hc'
    obtain ⟨c, hc, rfl⟩ := List.mem_map.mp hc'
    exact (h.fades c hc).advance hmax
  have hwidths : (cs.map s.advance).Pairwise fun c c' => c'.width ≤ c.width := by
    rw [List.pairwise_map]
    exact h.widths.imp_of_mem fun hc hc' hle => (h.fades _ hc).width_advance_le (h.fades _ hc') hle
  rw [RippleView.grown]
  split
  · refine ⟨fun c hc => ?_, List.pairwise_append.mpr ⟨hwidths, List.pairwise_singleton _ _, fun c hc c' hc' => ?_⟩⟩
    · rcases List.mem_append.mp hc with hold | hnew
      · exact hfades c hold
      · rw [List.mem_singleton.mp hnew]
        exact fades_first hmax
    · rw [List.mem_singleton.mp hc']
      exact (hfades c hc).width_nonneg
  · rw [List.append_nil]
    exact ⟨hfades, hwidths⟩

theorem Ordered.tail (h : s.Ordered cs) : s.Ordered cs.tail :=
  ⟨fun c hc => h.fades c (List.mem_of_mem_tail hc), h.widths.tail⟩

theorem Ordered.circlesAfter (h : s.Ordered cs) (hmax : 0 < s.maxWidth) (e : Event) :
    s.Ordered (s.circlesAfter e cs) := by
  cases e with
  | start | setCircleNumber _ | setNewCircleTime _ => exact h
  | stop =>
      rw [RippleView.circlesAfter]
      split
      · exact ⟨fun c hc => absurd hc List.not_mem_nil, List.Pairwise.nil⟩
      · exact h
  | onDraw createTime =>
      rw [RippleView.circlesAfter]
      split
      · exact (h.grown hmax createTime).tail
      · exact h.grown hmax createTime

theorem ordered_congr (h : s'.dialWidth = s.dialWidth) (hs : s.Ordered cs) : s'.Ordered cs :=
  ⟨fun c hc => (fades_congr h).mpr (hs.fades c hc), hs.widths⟩

/-! ## Runs -/

/-- What is seen of the fading in the two lists. -/
def Fading (maxWidth : ℚ) (s : RippleView) : Prop :=
  s.alphaList.length = s.startWidthList.length ∧
    (∀ (i : ℕ) (alpha width : ℚ), s.alphaList[i]? = some alpha → s.startWidthList[i]? = some width →
      (0 ≤ width ∧ width ≤ maxWidth) ∧ alpha * maxWidth = 255 * (maxWidth - width) ∧ 0 ≤ alpha ∧ alpha ≤ 255) ∧
    s.startWidthList.Pairwise (· ≥ ·)

/-- Where a draw removes a circle, no other one is wider. -/
def RemovesOutermost (s : RippleView) : Event → Prop
  | .onDraw createTime =>
      ∀ drawn s', s.drawCircles createTime = .ok drawn → drawn.removeOutermost = .ok s' →
        s' = drawn ∨ ∃ alpha width, drawn.alphaList = alpha :: s'.alphaList ∧
          drawn.startWidthList = width :: s'.startWidthList ∧ ∀ w ∈ s'.startWidthList, w ≤ width
  | _ => True

theorem Ordered.fading (h : s.Ordered cs) (hcs : s.withCircles cs = s) (hmax : 0 < s.maxWidth) :
    Fading s.maxWidth s := by
  have halpha : s.alphaList = cs.map Circle.alpha := by rw [← hcs]; rfl
  have hwidth : s.startWidthList = cs.map Circle.width := by rw [← hcs]; rfl
  rw [Fading, halpha, hwidth, List.length_map, List.length_map, List.pairwise_map]
  refine ⟨rfl, fun i alpha width hi hi' => ?_, h.widths⟩
  rw [List.getElem?_map, Option.map_eq_some_iff] at hi hi'
  obtain ⟨c, hc, rfl⟩ := hi
  obtain ⟨c', hc', rfl⟩ := hi'
  obtain rfl : c = c' := Option.some.inj (hc.symm.trans hc')
  have hfades := h.fades c (List.mem_of_getElem? hc)
  exact ⟨⟨hfades.width_nonneg, hfades.width_le⟩, hfades.law, hfades.alpha_nonneg hmax, hfades.alpha_le hmax⟩

theorem removeOutermost_cases (hs : s.removeOutermost = .ok s') :
    s' = s ∨ ∃ alpha width, s.alphaList = alpha :: s'.alphaList ∧ s.startWidthList = width :: s'.startWidthList := by
  rw [removeOutermost] at hs
  split at hs
  · right
    cases hw : s.startWidthList with
    | nil => rw [hw] at hs; cases hs
    | cons width widths =>
        cases ha : s.alphaList with
        | nil => rw [hw, ha] at hs; cases hs
        | cons alpha alphas =>
            rw [hw, ha] at hs
            cases hs
            exact ⟨alpha, width, rfl, rfl⟩
  · left
    cases hs
    rfl

theorem Ordered.removesOutermost (h : s.Ordered cs) (hcs : s.withCircles cs = s) (hmax : 0 < s.maxWidth)
    (e : Event) : s.RemovesOutermost e := by
  cases e with
  | start | stop | setCircleNumber _ | setNewCircleTime _ => trivial
  | onDraw createTime =>
      intro drawn s' hdrawn hs'
      have hgrown := drawCircles_withCircles s createTime cs
      rw [hcs, hdrawn] at hgrown
      have hwidths : drawn.startWidthList.Pairwise (· ≥ ·) := by
        rw [Except.ok.inj hgrown]
        exact List.pairwise_map.mpr (h.grown hmax createTime).widths
      rcases removeOutermost_cases hs' with hsame | ⟨alpha, width, halpha, hwidth⟩
      · exact .inl hsame
      · rw [hwidth] at hwidths
        exact .inr ⟨alpha, width, halpha, hwidth, fun w hw => List.rel_of_pairwise_cons hwidths hw⟩

def OfWidth (dialWidth : ℕ) (s : RippleView) : Prop :=
  s.dialWidth = dialWidth ∧ ∃ cs, s.withCircles cs = s ∧ s.Ordered cs

theorem OfWidth.maxWidth_pos (hs : OfWidth dialWidth s) (h : 0 < dialWidth) : 0 < s.maxWidth :=
  RippleView.maxWidth_pos (hs.1.symm ▸ h)

theorem OfWidth.handle {e : Event} (hs : OfWidth dialWidth s) (h : 0 < dialWidth) (he : s.handle e = some s') :
    OfWidth dialWidth s' := by
  have hmax := hs.maxWidth_pos h
  obtain ⟨hwidth, cs, hcs, hordered⟩ := hs
  have hkept : s'.dialWidth = s.dialWidth := by
    rw [(Prod.mk.inj (settings_of_handle hcs he)).1]
    cases e <;> rfl
  exact ⟨hkept.trans hwidth, _, circles_of_handle hcs he, ordered_congr hkept (hordered.circlesAfter hmax e)⟩

theorem ofWidth_new (dialWidth : ℕ) : OfWidth dialWidth (new dialWidth) :=
  ⟨rfl, [], rfl, fun _ hc => absurd hc List.not_mem_nil, List.Pairwise.nil⟩

/-- Whatever is done to the view, all circles lie within it and fade in proportion to their widths, and
where one is removed it is an outermost one. -/
theorem ripples_fade (h : 0 < dialWidth) (events : List Event) :
    Always handle (Fading (dialWidth / 2)) (new dialWidth) events ∧
      Each handle RemovesOutermost (new dialWidth) events := by
  constructor
  · refine always_of_invariant (fun s e s' hs he => OfWidth.handle hs h he) (fun s hs => ?_) (ofWidth_new _) events
    have hmax := hs.maxWidth_pos h
    obtain ⟨hwidth, cs, hcs, hordered⟩ := hs
    rw [← hwidth]
    exact hordered.fading hcs hmax
  · refine each_of_invariant (fun s e s' hs he => OfWidth.handle hs h he) (fun s e hs => ?_) (ofWidth_new _) events
    have hmax := hs.maxWidth_pos h
    obtain ⟨_, cs, hcs, hordered⟩ := hs
    exact hordered.removesOutermost hcs hmax e

theorem ripples_fade_large : Always handle (Fading ((1020 : ℕ) / 2)) (new 1020) [.start, .onDraw 1000, .onDraw 1010] ∧
    Each handle RemovesOutermost (new 1020) [.start, .onDraw 1000, .onDraw 1010] :=
  ripples_fade (by decide) _

end RippleView

end MyDemo.Ripple

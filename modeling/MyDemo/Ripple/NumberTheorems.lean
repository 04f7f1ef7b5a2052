import MyDemo.Lib.Transition
import MyDemo.Ripple.Lemmas.Circles

/-!
# The number of circles
-/

namespace MyDemo.Ripple

open Transition

namespace RippleView

variable {s s' : RippleView} {cs : List Circle} {events : List Event}

def IsCapped (s : RippleView) : Prop :=
  s.alphaList.length = s.startWidthList.length ∧ s.startWidthList.length ≤ s.circleNumber

/-- A draw leaves no more circles than there may be. -/
def DrawsCapped (s : RippleView) : Event → Prop
  | .onDraw createTime => ∀ s', s.onDraw createTime = .ok s' → s'.IsCapped
  | _ => True

/-- At a draw the circles there are, with the one that is due, are not more than there may be. -/
def Fits (s : RippleView) : Event → Prop
  | .onDraw createTime =>
      s.startWidthList.length + (if s.isStarting && s.isDue createTime then 1 else 0) ≤ s.circleNumber
  | _ => True

/-! ## One draw -/

theorem length_grown (s : RippleView) (createTime : ℤ) (cs : List Circle) :
    (s.grown createTime cs).length = cs.length + if s.isStarting && s.isDue createTime then 1 else 0 := by
  rw [grown, List.length_append, List.length_map]
  split <;> rfl

theorem isCapped_withCircles : (s.withCircles cs).IsCapped ↔ cs.length ≤ s.circleNumber := by
  simp [IsCapped, withCircles]

theorem drawsCapped_iff_length {createTime : ℤ} (hcs : s.withCircles cs = s) (hc : s.circleNumber ≠ 0) :
    s.DrawsCapped (.onDraw createTime) ↔ (s.circlesAfter (.onDraw createTime) cs).length ≤ s.circleNumber := by
  constructor
  · intro h
    obtain ⟨t, ht⟩ := exists_onDraw hcs hc
    have hcapped := h t ht
    rw [circles_of_onDraw hcs ht] at hcapped
    exact isCapped_withCircles.mp hcapped
  · intro h t ht
    rw [circles_of_onDraw hcs ht]
    exact isCapped_withCircles.mpr h

theorem length_startWidthList (hcs : s.withCircles cs = s) : s.startWidthList.length = cs.length := by
  rw [← hcs]
  exact List.length_map _

theorem fits_iff_length {createTime : ℤ} (hcs : s.withCircles cs = s) :
    s.Fits (.onDraw createTime) ↔ (s.grown createTime cs).length ≤ s.circleNumber := by
  rw [length_grown, Fits, length_startWidthList hcs]
  split <;> simp

theorem drawsCapped_iff {e : Event} (hcs : s.withCircles cs = s) (hc : s.circleNumber ≠ 0) :
    s.DrawsCapped e ↔ s.Fits e := by
  cases e with
  | start | stop | setCircleNumber _ | setNewCircleTime _ => exact Iff.rfl
  | onDraw createTime =>
      rw [drawsCapped_iff_length hcs hc, fits_iff_length hcs, circlesAfter]
      split
      · next hfull =>
          refine iff_of_true ?_ hfull.2.le
          rw [List.length_tail]
          omega
      · exact Iff.rfl

/-! ## Runs -/

/-- The circle number is at least one. -/
def Event.IsPositive : Event → Prop
  | .setCircleNumber circleNumber => 1 ≤ circleNumber
  | _ => True

instance : ∀ e : Event, Decidable e.IsPositive
  | .setCircleNumber circleNumber => inferInstanceAs (Decidable (1 ≤ circleNumber))
  | .start | .stop | .onDraw _ | .setNewCircleTime _ => isTrue trivial

/-- The lists are those of one list of circles, and a draw will not throw. -/
def Drawable (s : RippleView) : Prop := (∃ cs, s.withCircles cs = s) ∧ 1 ≤ s.circleNumber

theorem drawable_new (dialWidth : ℕ) : (new dialWidth).Drawable := ⟨⟨[], rfl⟩, by simp [new]⟩

theorem Drawable.handle {e : Event} (hs : s.Drawable) (he : e.IsPositive) (h : s.handle e = some s') :
    s'.Drawable := by
  obtain ⟨⟨cs, hcs⟩, hc⟩ := hs
  refine ⟨⟨_, circles_of_handle hcs h⟩, ?_⟩
  rw [(Prod.mk.inj (settings_of_handle hcs h)).2]
  cases e with
  | setCircleNumber circleNumber => exact he
  | start | stop | onDraw _ | setNewCircleTime _ => exact hc

theorem Drawable.exists_handle (hs : s.Drawable) (e : Event) : ∃ s', s.handle e = some s' := by
  obtain ⟨⟨cs, hcs⟩, hc⟩ := hs
  cases e with
  | onDraw createTime =>
      obtain ⟨t, ht⟩ := exists_onDraw hcs (by omega)
      exact ⟨t, handle_onDraw.mpr ht⟩
  | start | stop | setCircleNumber _ | setNewCircleTime _ => exact ⟨_, rfl⟩

theorem eachDraw_iff {events : List Event} (h : ∀ e ∈ events, e.IsPositive) (hs : s.Drawable) :
    Each handle DrawsCapped s events ↔ Each handle Fits s events :=
  each_congr (fun _ _ _ he hs h => hs.handle he h)
    (fun _ _ _ ⟨⟨_, hcs⟩, hc⟩ => drawsCapped_iff hcs (by omega)) h hs

/-- No draw throws, and each leaves no more circles than there may be exactly where this number has not
been set below that of the circles there are, with the one that is due. -/
theorem ripples_capped_iff (dialWidth : ℕ) {events : List Event} (h : ∀ e ∈ events, e.IsPositive) :
    (∃ s, run handle (new dialWidth) events = some s) ∧
      (Each handle DrawsCapped (new dialWidth) events ↔ Each handle Fits (new dialWidth) events) :=
  ⟨exists_run (fun _ _ _ he hs h => hs.handle he h) (fun _ e _ hs => hs.exists_handle e) h (drawable_new _),
    eachDraw_iff h (drawable_new _)⟩

theorem ripples_capped_iff_start : (∃ s, run handle (new 100) [.start, .onDraw 1000] = some s) ∧
    (Each handle DrawsCapped (new 100) [.start, .onDraw 1000] ↔ Each handle Fits (new 100) [.start, .onDraw 1000]) :=
  ripples_capped_iff 100 (by decide)

/-- One circle is all there may be, and a second one is due. -/
theorem lowered_number_exceeded :
    ¬ Each handle DrawsCapped (new 100) [.start, .onDraw 1000, .setCircleNumber 1, .onDraw 2000] := by
  rw [eachDraw_iff (by decide) (drawable_new 100)]
  have hnone : (new 100).start.withCircles [] = (new 100).start := rfl
  have hdraw : (new 100).start.onDraw 1000 = .ok (((new 100).start.tick 1000).withCircles [⟨255, 0⟩]) :=
    onDraw_of_free hnone (by decide)
  intro h
  obtain ⟨_, hstarted⟩ := h _ rfl
  obtain ⟨_, hdrawn⟩ := hstarted _ (handle_onDraw.mpr hdraw)
  obtain ⟨_, hlowered⟩ := hdrawn _ rfl
  have hdrawable : ((((new 100).start.tick 1000).withCircles [⟨255, 0⟩]).setCircleNumber 1).Drawable :=
    ⟨⟨[⟨255, 0⟩], rfl⟩, by decide⟩
  obtain ⟨t, ht⟩ := hdrawable.exists_handle (.onDraw 2000)
  exact absurd (hlowered t ht).1 (by simp only [Fits]; decide)

/-! ## Room for the circles -/

/-- A new circle number is more than the number of circles there are. -/
def LeavesRoom (s : RippleView) : Event → Prop
  | .setCircleNumber circleNumber => s.startWidthList.length < circleNumber
  | _ => True

theorem length_circlesAfter_lt {e : Event} (hcs : s.withCircles cs = s) (hroom : cs.length < s.circleNumber)
    (he : s.LeavesRoom e) (h : s.handle e = some s') : (s.circlesAfter e cs).length < s'.circleNumber := by
  rw [(Prod.mk.inj (settings_of_handle hcs h)).2]
  cases e with
  | start | setNewCircleTime _ => exact hroom
  | stop =>
      rw [circlesAfter]
      split
      · rw [List.length_nil]
        exact lt_of_le_of_lt (by omega) hroom
      · exact hroom
  | onDraw createTime =>
      have hgrown : (s.grown createTime cs).length ≤ s.circleNumber := by
        rw [length_grown]
        split <;> omega
      rw [circlesAfter]
      split
      · next hfull =>
          rw [List.length_tail]
          simp only
          omega
      · next hfree =>
          cases hs : s.isStarting with
          | true => exact lt_of_le_of_ne hgrown (fun he => hfree ⟨hs, he⟩)
          | false =>
              rw [length_grown, hs]
              exact hroom
  | setCircleNumber circleNumber =>
      rw [LeavesRoom, length_startWidthList hcs] at he
      exact he

/-- With room for one more circle whenever the number is set, all states are capped. -/
theorem capped_of_leavesRoom (dialWidth : ℕ) {events : List Event}
    (h : Each handle LeavesRoom (new dialWidth) events) : Always handle IsCapped (new dialWidth) events := by
  have hstep (s : RippleView) (e : Event) (s' : RippleView)
      (hs : ∃ cs, s.withCircles cs = s ∧ cs.length < s.circleNumber) (he : s.LeavesRoom e)
      (h : s.handle e = some s') : ∃ cs, s'.withCircles cs = s' ∧ cs.length < s'.circleNumber := by
    obtain ⟨cs, hcs, hroom⟩ := hs
    exact ⟨_, circles_of_handle hcs h, length_circlesAfter_lt hcs hroom he h⟩
  refine always_of_each hstep (fun s hs => ?_) ⟨[], rfl, by simp [new]⟩ h
  obtain ⟨cs, hcs, hroom⟩ := hs
  rw [← hcs]
  exact isCapped_withCircles.mpr hroom.le

end RippleView

end MyDemo.Ripple

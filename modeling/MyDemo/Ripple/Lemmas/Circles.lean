import MyDemo.Ripple.RippleView
import Mathlib.Data.List.Basic

/-!
# The circles in the two lists
-/

namespace MyDemo.Ripple

open CountingLoop

structure Circle where
  alpha : ℚ
  width : ℚ

namespace RippleView

variable {s s' : RippleView} {cs pre post : List Circle} {c : Circle}

def withCircles (s : RippleView) (cs : List Circle) : RippleView :=
  { s with alphaList := cs.map Circle.alpha, startWidthList := cs.map Circle.width }

@[simp] theorem isStarting_withCircles : (s.withCircles cs).isStarting = s.isStarting := rfl

@[simp] theorem maxWidth_withCircles : (s.withCircles cs).maxWidth = s.maxWidth := rfl

@[simp] theorem diffusionUnit_withCircles : (s.withCircles cs).diffusionUnit = s.diffusionUnit := rfl

@[simp] theorem zoomOutUnit_withCircles : (s.withCircles cs).zoomOutUnit = s.zoomOutUnit := rfl

/-- One round of the loop over the circles. -/
def advance (s : RippleView) (c : Circle) : Circle :=
  if s.isStarting ∧ c.width ≤ s.maxWidth - s.diffusionUnit * speed then
    { alpha := if c.alpha - s.zoomOutUnit * speed > 0 then c.alpha - s.zoomOutUnit * speed else 0
      width := c.width + s.diffusionUnit * speed }
  else c

theorem diffuse_withCircles {i : ℤ} (hi : i = pre.length) :
    (s.withCircles (pre ++ c :: post)).diffuse i = .ok (s.withCircles (pre ++ s.advance c :: post)) := by
  have halpha : i = (pre.map Circle.alpha).length := by rw [List.length_map]; exact hi
  have hwidth : i = (pre.map Circle.width).length := by rw [List.length_map]; exact hi
  have hget : JArray.get (s.withCircles (pre ++ c :: post)).alphaList i = .ok c.alpha := by
    simp only [withCircles, List.map_append, List.map_cons, JArray.get_append halpha]
  have hget' : JArray.get (s.withCircles (pre ++ c :: post)).startWidthList i = .ok c.width := by
    simp only [withCircles, List.map_append, List.map_cons, JArray.get_append hwidth]
  have hset (a : ℚ) : JArray.set (s.withCircles (pre ++ c :: post)).alphaList i a =
      .ok (pre.map Circle.alpha ++ a :: post.map Circle.alpha) := by
    simp only [withCircles, List.map_append, List.map_cons, JArray.set_append halpha]
  have hset' (w : ℚ) : JArray.set (s.withCircles (pre ++ c :: post)).startWidthList i w =
      .ok (pre.map Circle.width ++ w :: post.map Circle.width) := by
    simp only [withCircles, List.map_append, List.map_cons, JArray.set_append hwidth]
  rw [diffuse, hget, hget', Exn.ok_bind, Exn.ok_bind]
  simp only [hset, hset', Exn.ok_bind, isStarting_withCircles, maxWidth_withCircles,
    diffusionUnit_withCircles, zoomOutUnit_withCircles]
  rw [advance]
  split
  · simp only [withCircles, List.map_append, List.map_cons]
    rfl
  · rfl

theorem countUp_diffuse (s : RippleView) (pre post : List Circle) {lo hi : ℤ} (hlo : lo = pre.length)
    (hhi : hi = lo + post.length) :
    countUp lo hi diffuse (s.withCircles (pre ++ post)) =
      .ok (s.withCircles (pre ++ post.map s.advance)) := by
  induction post generalizing pre lo with
  | nil => exact countUp_of_le (by simp [hhi])
  | cons c post ih =>
      rw [List.length_cons] at hhi
      have hlo' : lo + 1 = (pre ++ [s.advance c]).length := by simp [hlo]
      have hnext := ih (pre ++ [s.advance c]) hlo' (by omega)
      rw [countUp_of_lt (by omega), diffuse_withCircles hlo, Exn.ok_bind]
      simpa using hnext

/-! ## A whole draw -/

def isDue (s : RippleView) (createTime : ℤ) : Bool := createTime - s.lastCreateTime ≥ s.newCircleTime

def tick (s : RippleView) (createTime : ℤ) : RippleView :=
  { s with lastCreateTime := if s.isDue createTime then createTime else s.lastCreateTime }

theorem ite_isDue (s : RippleView) (createTime : ℤ) :
    (if s.isDue createTime then { s with lastCreateTime := createTime } else s) = s.tick createTime := by
  rw [tick]
  split <;> rfl

/-- The circles before one of them may be removed. -/
def grown (s : RippleView) (createTime : ℤ) (cs : List Circle) : List Circle :=
  cs.map s.advance ++ if s.isStarting && s.isDue createTime then [⟨255, 0⟩] else []

theorem addCircle_withCircles (add : Bool) : (s.withCircles cs).addCircle add =
    s.withCircles (cs ++ if s.isStarting && add then [⟨255, 0⟩] else []) := by
  rw [addCircle, isStarting_withCircles]
  split
  · simp [withCircles]
  · rw [List.append_nil]

theorem removeOutermost_of_length (hs : s.isStarting = true) (h : (c :: cs).length = s.circleNumber) :
    (s.withCircles (c :: cs)).removeOutermost = .ok (s.withCircles cs) := by
  have hlength : (s.withCircles (c :: cs)).startWidthList.length = (c :: cs).length := List.length_map _
  rw [removeOutermost, hlength, if_pos ⟨hs, h⟩]
  rfl

theorem removeOutermost_of_not (h : ¬ (s.isStarting = true ∧ cs.length = s.circleNumber)) :
    (s.withCircles cs).removeOutermost = .ok (s.withCircles cs) := by
  have hlength : (s.withCircles cs).startWidthList.length = cs.length := List.length_map _
  rw [removeOutermost, hlength]
  exact if_neg h

theorem removeOutermost_nil (hs : s.isStarting = true) (h : s.circleNumber = 0) :
    (s.withCircles []).removeOutermost = .error .indexOutOfBounds := by
  rw [removeOutermost, if_pos ⟨hs, h.symm⟩]
  rfl

theorem drawCircles_withCircles (s : RippleView) (createTime : ℤ) (cs : List Circle) :
    (s.withCircles cs).drawCircles createTime = .ok ((s.tick createTime).withCircles (s.grown createTime cs)) := by
  have hcount : (s.withCircles cs).alphaList.length = cs.length := List.length_map _
  have hloop : countUp 0 cs.length diffuse (s.withCircles cs) = .ok (s.withCircles (cs.map s.advance)) :=
    countUp_diffuse s [] cs rfl (Int.zero_add cs.length).symm
  calc (s.withCircles cs).drawCircles createTime
      = .ok (((s.tick createTime).withCircles (cs.map s.advance)).addCircle (s.isDue createTime)) := by
        rw [drawCircles, hcount, hloop, Exn.ok_bind]
        exact congrArg (fun t => Except.ok (addCircle t (s.isDue createTime)))
          (ite_isDue (s.withCircles (cs.map s.advance)) createTime)
    _ = _ := by rw [addCircle_withCircles]; rfl

/-! ## The circles after an event -/

def circlesAfter (s : RippleView) (e : Event) (cs : List Circle) : List Circle :=
  match e with
  | .stop => if s.isStarting then [] else cs
  | .onDraw createTime =>
      if s.isStarting ∧ (s.grown createTime cs).length = s.circleNumber then (s.grown createTime cs).tail
      else s.grown createTime cs
  | .start | .setCircleNumber _ | .setNewCircleTime _ => cs

theorem onDraw_eq_removeOutermost (hcs : s.withCircles cs = s) (createTime : ℤ) :
    s.onDraw createTime = ((s.tick createTime).withCircles (s.grown createTime cs)).removeOutermost := by
  rw [onDraw]
  nth_rewrite 1 [← hcs]
  rw [drawCircles_withCircles, Exn.ok_bind]

theorem onDraw_of_free {createTime : ℤ} (hcs : s.withCircles cs = s)
    (h : ¬ (s.isStarting = true ∧ (s.grown createTime cs).length = s.circleNumber)) :
    s.onDraw createTime = .ok ((s.tick createTime).withCircles (s.grown createTime cs)) := by
  rw [onDraw_eq_removeOutermost hcs]
  exact removeOutermost_of_not h

theorem onDraw_of_full {createTime : ℤ} {kept : List Circle} (hcs : s.withCircles cs = s) (hs : s.isStarting = true)
    (hg : s.grown createTime cs = c :: kept) (h : (s.grown createTime cs).length = s.circleNumber) :
    s.onDraw createTime = .ok ((s.tick createTime).withCircles kept) := by
  rw [onDraw_eq_removeOutermost hcs]
  rw [hg] at h ⊢
  exact removeOutermost_of_length hs h

theorem onDraw_of_none {createTime : ℤ} (hcs : s.withCircles cs = s) (hs : s.isStarting = true)
    (hg : s.grown createTime cs = []) (h : s.circleNumber = 0) :
    s.onDraw createTime = .error .indexOutOfBounds := by
  rw [onDraw_eq_removeOutermost hcs, hg]
  exact removeOutermost_nil hs h

theorem circles_of_onDraw {createTime : ℤ} (hcs : s.withCircles cs = s) (h : s.onDraw createTime = .ok s') :
    s' = (s.tick createTime).withCircles (s.circlesAfter (.onDraw createTime) cs) := by
  by_cases hfull : s.isStarting = true ∧ (s.grown createTime cs).length = s.circleNumber
  · rw [circlesAfter, if_pos hfull]
    cases hg : s.grown createTime cs with
    | nil =>
        rw [onDraw_of_none hcs hfull.1 hg (by rw [← hfull.2, hg]; rfl)] at h
        cases h
    | cons c kept =>
        rw [onDraw_of_full hcs hfull.1 hg hfull.2] at h
        exact (Except.ok.inj h).symm
  · rw [circlesAfter, if_neg hfull]
    rw [onDraw_of_free hcs hfull] at h
    exact (Except.ok.inj h).symm

theorem exists_onDraw {createTime : ℤ} (hcs : s.withCircles cs = s) (h : s.circleNumber ≠ 0) :
    ∃ s', s.onDraw createTime = .ok s' := by
  by_cases hfull : s.isStarting = true ∧ (s.grown createTime cs).length = s.circleNumber
  · cases hg : s.grown createTime cs with
    | nil =>
        rw [hg] at hfull
        exact absurd hfull.2.symm h
    | cons c kept => exact ⟨_, onDraw_of_full hcs hfull.1 hg hfull.2⟩
  · exact ⟨_, onDraw_of_free hcs hfull⟩

theorem handle_onDraw {createTime : ℤ} : s.handle (.onDraw createTime) = some s' ↔ s.onDraw createTime = .ok s' := by
  rw [handle]
  cases s.onDraw createTime with
  | error x => simp [Except.toOption]
  | ok t => simp [Except.toOption]

theorem circles_of_handle {e : Event} (hcs : s.withCircles cs = s) (h : s.handle e = some s') :
    s'.withCircles (s.circlesAfter e cs) = s' := by
  cases e with
  | start =>
      obtain rfl := Option.some.inj h
      rw [← hcs, start]
      split <;> rfl
  | stop =>
      obtain rfl := Option.some.inj h
      rw [← hcs, stop, circlesAfter]
      split <;> rfl
  | onDraw createTime =>
      rw [circles_of_onDraw hcs (handle_onDraw.mp h)]
      rfl
  | setCircleNumber circleNumber | setNewCircleTime newCircleTime =>
      obtain rfl := Option.some.inj h
      rw [← hcs]
      rfl

/-- The size, and the circle number after the event. -/
def settingsAfter (s : RippleView) : Event → ℕ × ℤ
  | .setCircleNumber circleNumber => (s.dialWidth, circleNumber)
  | _ => (s.dialWidth, s.circleNumber)

theorem settings_of_handle {e : Event} (hcs : s.withCircles cs = s) (h : s.handle e = some s') :
    (s'.dialWidth, s'.circleNumber) = s.settingsAfter e := by
  cases e with
  | start | stop =>
      obtain rfl := Option.some.inj h
      simp only [start, stop]
      split <;> rfl
  | onDraw createTime => rw [circles_of_onDraw hcs (handle_onDraw.mp h)]; rfl
  | setCircleNumber circleNumber | setNewCircleTime newCircleTime => cases h; rfl

end RippleView

end MyDemo.Ripple

import MyDemo.Editimg.Lemmas.Shown

/-!
# Graffiti stays on the picture

A point of the path is normalized once, at the end of its gesture. It then stays on the pixel that lay under
its position at that time, whatever zooms and scrolls follow; this is the pixel it was drawn on, unless the
gesture itself has moved the picture away.
-/

namespace MyDemo.Editimg

open Zooming

namespace MImageView

variable {s : MImageView}

/-! ## What a gesture records -/

def points (s : MImageView) : List (Point ℚ) := s.graffitiPath.map Segment.point

/-- A point of the path: where it was drawn, over which pixel, and what the rest of the gesture does to the
picture. -/
structure Record where
  position : Point ℚ
  pixel : Point ℚ
  after : Zoom ℚ

def record (s : MImageView) (events : List Move) (p : Point ℚ) : Record := ⟨p, s.pixelUnder p, s.motions events⟩

def records : MImageView → List Move → List Record
  | _, [] => []
  | s, event :: events =>
      ((s.actionMove event).points.drop s.points.length).map (s.record (event :: events)) ++
        (s.actionMove event).records events

/-- The records of a gesture that begins at `e`. -/
def gesture (s : MImageView) (e : Point ℚ) (events : List Move) : List Record :=
  (s.actionDown e).points.map ((s.actionDown e).record events) ++ (s.actionDown e).records events

/-! ## What is drawn -/

theorem LaidOut.getMatrixRectF_eq (h : s.LaidOut) : s.getMatrixRectF = ⟨s.mDrawMatrix.trans.x, s.mDrawMatrix.trans.y,
    s.mDrawMatrix.scale * s.bitmapWidth + s.mDrawMatrix.trans.x,
    s.mDrawMatrix.scale * s.bitmapHeight + s.mDrawMatrix.trans.y⟩ := by
  have hscale : 0 ≤ s.mDrawMatrix.scale := by
    rw [h.draw, Matrix.postConcat, Zoom.scale_andThen, h.base]
    exact (mul_pos h.supp h.defalut).le
  exact Matrix.mapRect_bitmap hscale (by exact_mod_cast h.width.le) (by exact_mod_cast h.height.le)

/-- The first placement counts as one. -/
theorem LaidOut.scale_eq (h : s.LaidOut) : s.mDrawMatrix.scale = s.getScale * s.defalutScale := by
  have hwidth : (s.bitmapWidth : ℚ) ≠ 0 := by exact_mod_cast h.width.ne'
  rw [getScale, h.getMatrixRectF_eq, add_sub_cancel_right, mul_div_cancel_right₀ _ hwidth,
    div_mul_cancel₀ _ h.defalut.ne']

/-- A point of the path that has been normalized is drawn over one pixel, whatever the matrices are. -/
theorem LaidOut.pixelAt_canvas (h : s.LaidOut) (p : Point ℚ) :
    s.pixelAt (s.canvas.map p) = ⟨p.x / s.defalutScale, p.y / s.defalutScale⟩ := by
  have hdefalut := h.defalut.ne'
  rw [pixelAt, Zoom.inverse_map_eq_iff h.scale_ne_zero, canvas, h.getMatrixRectF_eq, Zoom.map_andThen]
  ext <;> simp only [Zoom.map, Zoom.scaleAbout, Zoom.translate, h.scale_eq] <;> field_simp <;> ring

/-- This is the pixel that was under it when it was normalized. -/
theorem LaidOut.normalize_map (h : s.LaidOut) (p : Point ℚ) :
    ⟨(s.normalize.map p).x / s.defalutScale, (s.normalize.map p).y / s.defalutScale⟩ = s.pixelUnder p := by
  have hdefalut := h.defalut.ne'
  have hscale : s.getScale ≠ 0 := left_ne_zero_of_mul (h.scale_eq ▸ h.scale_ne_zero)
  symm
  rw [pixelUnder, pixelAt, Zoom.inverse_map_eq_iff h.scale_ne_zero, normalize, h.getMatrixRectF_eq]
  simp only [Matrix.postTranslate, Matrix.postScale, Zoom.map_andThen]
  ext <;> simp only [Zoom.map, Zoom.scaleAbout, Zoom.translate, h.scale_eq] <;> field_simp <;> ring

theorem point_transform (M : Matrix) (segment : Segment) : (segment.transform M).point = M.map segment.point := by
  cases segment <;> rfl

theorem changes_keeps (h : s.LaidOut) (cs : List Change) :
    (s.changes cs).LaidOut ∧ (s.changes cs).graffitiPath = s.graffitiPath ∧
      (s.changes cs).defalutScale = s.defalutScale := by
  induction cs generalizing s with
  | nil => exact ⟨h, rfl, rfl⟩
  | cons c cs ih =>
      obtain ⟨hlaid, hpath, hscale⟩ := ih (h.change c)
      cases c with
      | zoom detector => exact ⟨hlaid, hpath, hscale⟩
      | scrollTo x y => exact ⟨hlaid, hpath, hscale⟩

theorem drawnOver_changes (h : s.LaidOut) (cs : List Change) :
    (s.actionUp.changes cs).drawnOver = s.points.map s.pixelUnder := by
  obtain ⟨hlaid, hpath, hscale⟩ := changes_keeps h.actionUp cs
  have hup : s.actionUp.graffitiPath = s.graffitiPath.map (Segment.transform s.normalize) := rfl
  rw [drawnOver, onDraw, hpath, hup, points, List.map_map, List.map_map, List.map_map]
  refine List.map_congr_left ?_
  intro segment _
  simp only [Function.comp_apply, point_transform, hlaid.pixelAt_canvas, hscale]
  exact h.normalize_map segment.point

/-! ## Each point and its record -/

theorem prefix_detect (s : MImageView) (event : Move) : s.graffitiPath <+: (s.detect event).graffitiPath := by
  obtain ⟨path, heq⟩ := gestureDetector_eq s event
  rw [detect, heq, scaleGestureDetector]
  split <;> exact List.prefix_append _ _

theorem points_actionMove (s : MImageView) (event : Move) :
    s.points ++ (s.actionMove event).points.drop s.points.length = (s.actionMove event).points := by
  refine List.prefix_iff_eq_append.mp (List.IsPrefix.map Segment.point ?_)
  unfold actionMove
  split
  · obtain ⟨path, heq⟩ := onePointer_eq s event.first
    refine List.IsPrefix.trans ?_ (prefix_detect _ event)
    rw [heq]
    exact List.prefix_append _ _
  · split
    · exact List.prefix_rfl
    · exact prefix_detect (s.scrollWith _) event
  · exact prefix_detect s event

theorem points_moves (s : MImageView) (events : List Move) :
    (s.moves events).points = s.points ++ (s.records events).map Record.position := by
  induction events generalizing s with
  | nil => exact (List.append_nil _).symm
  | cons event events ih =>
      rw [records, List.map_append, List.map_map, ← List.append_assoc]
      have hrecord : Record.position ∘ s.record (event :: events) = id := rfl
      rw [hrecord, List.map_id, points_actionMove]
      exact ih (s.actionMove event)

theorem pixelUnder_moves_iff (h : s.LaidOut) (events : List Move) (p : Point ℚ) :
    (s.moves events).pixelUnder p = s.pixelUnder p ↔ (s.motions events).map p = p := by
  obtain ⟨hlaid, hshown⟩ := shown_moves h events
  rw [hlaid.pixelUnder_eq, h.pixelUnder_eq, hshown]
  refine Zoom.inverse_map_andThen_eq_iff ?_ (motions_scale_ne_zero s events)
  simpa [shown, Zoom.translate] using h.scale_ne_zero

theorem records_iff (h : s.LaidOut) (events : List Move) : ∀ r ∈ s.records events,
    (s.moves events).pixelUnder r.position = r.pixel ↔ r.after.map r.position = r.position := by
  induction events generalizing s with
  | nil => intro r hr; cases hr
  | cons event events ih =>
      intro r hr
      rcases List.mem_append.mp hr with hr | hr
      · obtain ⟨p, _, rfl⟩ := List.mem_map.mp hr
        exact pixelUnder_moves_iff h (event :: events) p
      · exact ih (h.actionMove event) r hr

theorem gesture_position (s : MImageView) (e : Point ℚ) (events : List Move) :
    (s.gesture e events).map Record.position = ((s.actionDown e).moves events).points := by
  have hrecord : Record.position ∘ (s.actionDown e).record events = id := rfl
  rw [gesture, List.map_append, List.map_map, hrecord, List.map_id, points_moves]

theorem gesture_iff (h : s.LaidOut) (e : Point ℚ) (events : List Move) : ∀ r ∈ s.gesture e events,
    ((s.actionDown e).moves events).pixelUnder r.position = r.pixel ↔ r.after.map r.position = r.position := by
  intro r hr
  rcases List.mem_append.mp hr with hr | hr
  · obtain ⟨p, _, rfl⟩ := List.mem_map.mp hr
    exact pixelUnder_moves_iff (h.actionDown e) events p
  · exact records_iff (h.actionDown e) events r hr

/-- Whatever zooms and scrolls come later, the points of a gesture are drawn over the pixels that were under
the finger exactly where what the gesture itself did to the picture after each of them keeps its position. -/
theorem graffiti_anchored_iff {measuredWidth measuredHeight width height : ℤ} (hi : 0 < measuredWidth)
    (hi' : 0 < measuredHeight) (hb : 0 < width) (hb' : 0 < height) (before : List Event) (e : Point ℚ)
    (events : List Move) (later : List Change) :
    ((((view measuredWidth measuredHeight width height before).actionDown e).moves events).actionUp.changes
        later).drawnOver =
      ((view measuredWidth measuredHeight width height before).gesture e events).map Record.pixel ↔
    ∀ r ∈ (view measuredWidth measuredHeight width height before).gesture e events,
      r.after.map r.position = r.position := by
  have h := laidOut_view hi hi' hb hb' before
  generalize view measuredWidth measuredHeight width height before = s at h ⊢
  rw [drawnOver_changes (shown_moves (h.actionDown e) events).1, ← gesture_position, List.map_map, List.map_inj_left]
  exact forall₂_congr (gesture_iff h e events)

theorem graffiti_anchored_iff_line :
    ((((view 100 100 50 50 []).actionDown ⟨10, 20⟩).moves [⟨⟨30, 20⟩, [], true, none⟩]).actionUp.changes
        [.scrollTo 7 0]).drawnOver =
      ((view 100 100 50 50 []).gesture ⟨10, 20⟩ [⟨⟨30, 20⟩, [], true, none⟩]).map Record.pixel ↔
    ∀ r ∈ (view 100 100 50 50 []).gesture ⟨10, 20⟩ [⟨⟨30, 20⟩, [], true, none⟩], r.after.map r.position = r.position :=
  graffiti_anchored_iff (by decide) (by decide) (by decide) (by decide) [] ⟨10, 20⟩ [⟨⟨30, 20⟩, [], true, none⟩]
    [.scrollTo 7 0]

/-- Two pointers go down after a dot and drag the picture by ten. -/
theorem dragged_picture_left :
    ((((view 100 100 50 50 []).actionDown ⟨10, 20⟩).moves
        [⟨⟨10, 20⟩, [⟨50, 20⟩], true, none⟩, ⟨⟨20, 20⟩, [⟨60, 20⟩], true, none⟩]).actionUp.changes []).drawnOver ≠
      ((view 100 100 50 50 []).gesture ⟨10, 20⟩
        [⟨⟨10, 20⟩, [⟨50, 20⟩], true, none⟩, ⟨⟨20, 20⟩, [⟨60, 20⟩], true, none⟩]).map Record.pixel := by
  decide +kernel

end MImageView

end MyDemo.Editimg

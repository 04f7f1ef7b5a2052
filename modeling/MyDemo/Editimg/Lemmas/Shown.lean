import MyDemo.Editimg.MImageView

/-!
# The picture on the view

What is seen of the picture is one zoom, and each event does one more to it.
-/

namespace MyDemo.Editimg

open Zooming

/-- The bitmap has been placed, and zoomed by a positive factor. -/
structure ImageView.Placed (s : ImageView) : Prop where
  width : 0 < s.bitmapWidth
  height : 0 < s.bitmapHeight
  base : s.mBaseMatrix.scale = s.defalutScale
  defalut : 0 < s.defalutScale
  supp : 0 < s.mSuppMatrix.scale

namespace MImageView

variable {s : MImageView}

structure LaidOut (s : MImageView) : Prop extends s.toImageView.Placed where
  draw : s.mDrawMatrix = s.mBaseMatrix.postConcat s.mSuppMatrix

/-- The picture on the view. -/
def shown (s : MImageView) : Zoom ℚ := s.mDrawMatrix.andThen (.translate (-s.mScrollX) (-s.mScrollY))

/-! ## What an event does to the picture on the view -/

/-- A pinch zooms it about its focus. -/
def pinch (event : Move) : Zoom ℚ :=
  match event.scales with
  | some detector => .scaleAbout detector.scaleFactor detector.focusX detector.focusY
  | none => .id

/-- Two pointers scroll the content first, from their second event on. -/
def motion (s : MImageView) (event : Move) : Zoom ℚ :=
  match event.others with
  | [second] =>
      let t := s.scrollWith (between event.first second)
      if s.lastx = 0 then .id
      else (Zoom.translate (s.mScrollX - t.mScrollX : ℚ) (s.mScrollY - t.mScrollY)).andThen (pinch event)
  | _ => pinch event

def motions : MImageView → List Move → Zoom ℚ
  | _, [] => .id
  | s, event :: events => (s.motion event).andThen ((s.actionMove event).motions events)

/-! ## Drawing adds to the path only -/

theorem gestureDetector_eq (s : MImageView) (event : Move) :
    ∃ path, s.gestureDetector event = { s with graffitiPath := s.graffitiPath ++ path } := by
  unfold gestureDetector onScroll
  split
  · split
    · exact ⟨_, rfl⟩
    · exact ⟨[], by rw [List.append_nil]⟩
  · exact ⟨[], by rw [List.append_nil]⟩

theorem onePointer_eq (s : MImageView) (e : Point ℚ) :
    ∃ path, s.onePointer e = { s with graffitiPath := s.graffitiPath ++ path, scaling := false } := by
  unfold onePointer
  split
  · exact ⟨_, rfl⟩
  · exact ⟨[], by rw [List.append_nil]⟩

/-! ## The view stays laid out -/

theorem laidOut_setImageViewMatrix (h : s.toImageView.Placed) : s.setImageViewMatrix.LaidOut :=
  ⟨⟨h.width, h.height, h.base, h.defalut, h.supp⟩, rfl⟩

theorem laidOut_onGlobalLayout {measuredWidth measuredHeight width height : ℤ} (hi : 0 < measuredWidth)
    (hi' : 0 < measuredHeight) (hb : 0 < width) (hb' : 0 < height) :
    (s.onGlobalLayout measuredWidth measuredHeight width height).LaidOut where
  width := hb
  height := hb'
  base := ImageView.scale_placeImage
  defalut := ImageView.defalutScale_pos hi hi' hb hb'
  supp := zero_lt_one
  draw := rfl

theorem placed_onScale (h : s.toImageView.Placed) (detector : ScaleGestureDetector) :
    (s.onScale detector).toImageView.Placed :=
  ⟨h.width, h.height, h.base, h.defalut, mul_pos detector.pos h.supp⟩

theorem laidOut_detect (h : s.toImageView.Placed) (event : Move) : (s.detect event).LaidOut := by
  refine laidOut_setImageViewMatrix ?_
  obtain ⟨path, heq⟩ := gestureDetector_eq s event
  rw [heq]
  unfold scaleGestureDetector
  split
  · next detector _ => exact placed_onScale h detector
  · exact h

theorem LaidOut.actionDown (h : s.LaidOut) (e : Point ℚ) : (s.actionDown e).LaidOut := by
  refine laidOut_setImageViewMatrix ?_
  unfold onDown
  split <;> exact h.toPlaced

theorem LaidOut.onePointer (h : s.LaidOut) (e : Point ℚ) : (s.onePointer e).LaidOut := ⟨h.toPlaced, h.draw⟩

theorem LaidOut.scrollWith (h : s.LaidOut) (p : Point ℚ) : (s.scrollWith p).LaidOut := ⟨h.toPlaced, h.draw⟩

theorem LaidOut.actionMove (h : s.LaidOut) (event : Move) : (s.actionMove event).LaidOut := by
  unfold MImageView.actionMove
  split
  · exact laidOut_detect (h.onePointer event.first).toPlaced event
  · split
    · exact ⟨h.toPlaced, h.draw⟩
    · exact laidOut_detect (h.scrollWith _).toPlaced event
  · exact laidOut_detect h.toPlaced event

theorem LaidOut.actionUp (h : s.LaidOut) : s.actionUp.LaidOut := laidOut_setImageViewMatrix h.toPlaced

theorem LaidOut.change (h : s.LaidOut) (c : Change) : (s.change c).LaidOut := by
  cases c with
  | zoom detector => exact laidOut_setImageViewMatrix (placed_onScale h.toPlaced detector)
  | scrollTo x y => exact ⟨h.toPlaced, h.draw⟩

theorem LaidOut.step (h : s.LaidOut) (event : Event) : (s.step event).LaidOut := by
  cases event with
  | down e => exact h.actionDown e
  | move event => exact h.actionMove event
  | up => exact h.actionUp
  | change c => exact h.change c

theorem laidOut_view {measuredWidth measuredHeight width height : ℤ} (hi : 0 < measuredWidth)
    (hi' : 0 < measuredHeight) (hb : 0 < width) (hb' : 0 < height) (events : List Event) :
    (view measuredWidth measuredHeight width height events).LaidOut :=
  List.foldlRecOn events _ (laidOut_onGlobalLayout hi hi' hb hb') (fun _ h event _ => h.step event)

/-! ## What is seen on the view -/

theorem LaidOut.scale_ne_zero (h : s.LaidOut) : s.mDrawMatrix.scale ≠ 0 := by
  rw [h.draw, Matrix.postConcat, Zoom.scale_andThen, h.base]
  exact (mul_pos h.supp h.defalut).ne'

theorem LaidOut.pixelUnder_eq (h : s.LaidOut) (p : Point ℚ) : s.pixelUnder p = s.shown.inverse.map p := by
  symm
  rw [Zoom.inverse_map_eq_iff (by simpa [shown, Zoom.translate] using h.scale_ne_zero), shown, Zoom.map_andThen,
    pixelUnder, pixelAt, Zoom.map_inverse_map h.scale_ne_zero]
  ext <;> simp [Zoom.translate, Zoom.map]

theorem shown_setImageViewMatrix (h : s.LaidOut) : s.setImageViewMatrix.shown = s.shown := by
  rw [shown, shown, h.draw]
  rfl

theorem shown_onScale (h : s.LaidOut) (detector : ScaleGestureDetector) :
    (s.onScale detector).setImageViewMatrix.shown =
      s.shown.andThen (.scaleAbout detector.scaleFactor detector.focusX detector.focusY) := by
  have hdraw : (s.onScale detector).setImageViewMatrix.mDrawMatrix = s.mDrawMatrix.andThen
      (.scaleAbout detector.scaleFactor (detector.focusX + s.mScrollX) (detector.focusY + s.mScrollY)) := by
    rw [h.draw]
    exact (Zoom.andThen_assoc _ _ _).symm
  rw [shown, shown, hdraw, Zoom.andThen_assoc, Zoom.andThen_assoc, ← Zoom.andThen_scaleAbout_translate]
  rfl

theorem shown_detect (h : s.LaidOut) (event : Move) : (s.detect event).shown = s.shown.andThen (pinch event) := by
  obtain ⟨path, heq⟩ := gestureDetector_eq s event
  rw [detect, heq, scaleGestureDetector, pinch]
  have hpath : { s with graffitiPath := s.graffitiPath ++ path }.LaidOut := ⟨h.toPlaced, h.draw⟩
  cases event.scales with
  | some detector => exact shown_onScale hpath detector
  | none =>
      rw [Zoom.andThen_id]
      exact shown_setImageViewMatrix hpath

theorem shown_scrollWith (p : Point ℚ) : (s.scrollWith p).shown = s.shown.andThen
    (.translate (s.mScrollX - (s.scrollWith p).mScrollX) (s.mScrollY - (s.scrollWith p).mScrollY)) := by
  rw [shown, shown, Zoom.andThen_assoc, Zoom.translate_andThen_translate, ← sub_eq_neg_add, ← sub_eq_neg_add,
    sub_sub_cancel_left, sub_sub_cancel_left]
  rfl

theorem shown_actionMove (h : s.LaidOut) (event : Move) :
    (s.actionMove event).shown = s.shown.andThen (s.motion event) := by
  rw [actionMove, motion]
  match event.others with
  | [] => exact shown_detect (h.onePointer event.first) event
  | [second] =>
      dsimp only
      split
      · rw [Zoom.andThen_id]
        rfl
      · rw [shown_detect (h.scrollWith _), shown_scrollWith, Zoom.andThen_assoc]
  | _ :: _ :: _ => exact shown_detect h event

theorem shown_moves (h : s.LaidOut) (events : List Move) :
    (s.moves events).LaidOut ∧ (s.moves events).shown = s.shown.andThen (s.motions events) := by
  induction events generalizing s with
  | nil => exact ⟨h, (Zoom.andThen_id _).symm⟩
  | cons event events ih =>
      obtain ⟨hlaid, hshown⟩ := ih (h.actionMove event)
      refine ⟨hlaid, ?_⟩
      rw [motions, ← Zoom.andThen_assoc, ← shown_actionMove h]
      exact hshown

theorem pinch_scale_ne_zero (event : Move) : (pinch event).scale ≠ 0 := by
  unfold pinch
  split
  · next detector _ => exact detector.pos.ne'
  · exact one_ne_zero

theorem motion_scale_ne_zero (s : MImageView) (event : Move) : (s.motion event).scale ≠ 0 := by
  unfold motion
  split
  · dsimp only
    split
    · exact one_ne_zero
    · exact mul_ne_zero (pinch_scale_ne_zero event) one_ne_zero
  · exact pinch_scale_ne_zero event

theorem motions_scale_ne_zero (s : MImageView) (events : List Move) : (s.motions events).scale ≠ 0 := by
  induction events generalizing s with
  | nil => exact one_ne_zero
  | cons event events ih => exact mul_ne_zero (ih _) (motion_scale_ne_zero s event)

end MImageView

end MyDemo.Editimg

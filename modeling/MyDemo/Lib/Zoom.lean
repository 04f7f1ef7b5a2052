import Mathlib.Algebra.Order.Field.Basic
import Mathlib.Tactic.FieldSimp
import Mathlib.Tactic.Ring

/-!
# Zooms of the plane

Maps that scale uniformly and then translate. They compose, and those with a scale have an inverse, so
that a picture seen through one can be asked which of its points is seen where.
-/

namespace Zooming

variable {K : Type*}

@[ext]
structure Point (K : Type*) where
  x : K
  y : K
  deriving DecidableEq

@[ext]
structure Rect (K : Type*) where
  left : K
  top : K
  right : K
  bottom : K
  deriving DecidableEq

@[ext]
structure Zoom (K : Type*) where
  scale : K
  trans : Point K
  deriving DecidableEq

namespace Zoom

variable [Field K] {z w m : Zoom K} {p : Point K}

def map (z : Zoom K) (p : Point K) : Point K := ⟨z.scale * p.x + z.trans.x, z.scale * p.y + z.trans.y⟩

def id : Zoom K := ⟨1, 0, 0⟩

def translate (dx dy : K) : Zoom K := ⟨1, dx, dy⟩

/-- Scaling that keeps the point `(x, y)` where it is. -/
def scaleAbout (f x y : K) : Zoom K := ⟨f, x - f * x, y - f * y⟩

def andThen (z w : Zoom K) : Zoom K := ⟨w.scale * z.scale, w.map z.trans⟩

def inverse (z : Zoom K) : Zoom K := ⟨z.scale⁻¹, -(z.scale⁻¹ * z.trans.x), -(z.scale⁻¹ * z.trans.y)⟩

/-! ## Composition -/

@[simp] theorem scale_andThen (z w : Zoom K) : (z.andThen w).scale = w.scale * z.scale := rfl

@[simp] theorem map_andThen (z w : Zoom K) (p : Point K) : (z.andThen w).map p = w.map (z.map p) := by
  ext <;> simp only [andThen, map] <;> ring

@[simp] theorem andThen_id (z : Zoom K) : z.andThen id = z := by
  ext <;> simp [andThen, id, map]

theorem andThen_assoc (z w m : Zoom K) : (z.andThen w).andThen m = z.andThen (w.andThen m) := by
  ext
  · exact (mul_assoc _ _ _).symm
  · exact congrArg Point.x (map_andThen w m z.trans).symm
  · exact congrArg Point.y (map_andThen w m z.trans).symm

theorem translate_andThen_translate (dx dy dx' dy' : K) :
    (translate dx dy).andThen (translate dx' dy') = translate (dx + dx') (dy + dy') := by
  ext <;> simp [andThen, translate, map]

/-- Scaling after a translation is scaling about the point that the translation leads there. -/
theorem andThen_scaleAbout_translate (f x y dx dy : K) :
    (scaleAbout f (x + dx) (y + dy)).andThen (translate (-dx) (-dy)) =
      (translate (-dx) (-dy)).andThen (scaleAbout f x y) := by
  ext <;> simp only [andThen, scaleAbout, translate, map] <;> ring

/-! ## The point that is seen -/

theorem map_inverse_map (h : z.scale ≠ 0) (p : Point K) : z.map (z.inverse.map p) = p := by
  ext <;> simp only [inverse, map] <;> field_simp <;> ring

theorem inverse_map_map (h : z.scale ≠ 0) (p : Point K) : z.inverse.map (z.map p) = p := by
  ext <;> simp only [inverse, map] <;> field_simp <;> ring

theorem inverse_map_eq_iff {q : Point K} (h : z.scale ≠ 0) : z.inverse.map p = q ↔ p = z.map q := by
  constructor
  · rintro rfl
    exact (map_inverse_map h p).symm
  · rintro rfl
    exact inverse_map_map h q

/-- After `m`, the same point of the picture is seen at `p` exactly where `m` keeps `p`. -/
theorem inverse_map_andThen_eq_iff (hz : z.scale ≠ 0) (hm : m.scale ≠ 0) :
    (z.andThen m).inverse.map p = z.inverse.map p ↔ m.map p = p := by
  rw [inverse_map_eq_iff (mul_ne_zero hm hz), map_andThen, map_inverse_map hz]
  exact eq_comm

end Zoom

end Zooming

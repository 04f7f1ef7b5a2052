import Mathlib.Data.Rat.Defs
import Mathlib.Algebra.Order.Field.Rat

/-!
# The wave

The fields of `WaveView.java` that `setPercentage` sets, with exact numbers for its floats.
-/

namespace MyDemo.Wave

@[ext]
structure WaveView where
  zhenfu : ℚ
  percentage : ℚ
  deriving DecidableEq

namespace WaveView

def new : WaveView := ⟨20, 50⟩

def setPercentage (s : WaveView) (percentage : ℚ) : WaveView :=
  let s :=
    if percentage ≤ 0 then { s with percentage := 0, zhenfu := 0 }
    else if percentage ≥ 100 then { s with percentage := 100, zhenfu := 0 }
    else { s with percentage }
  if percentage ≤ 40 ∧ percentage > 0 then { s with zhenfu := percentage / 2 } else s

/-- The view after these calls. -/
def setPercentages (percentages : List ℚ) : WaveView := percentages.foldl setPercentage new

end WaveView

end MyDemo.Wave

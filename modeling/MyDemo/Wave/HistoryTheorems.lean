import MyDemo.Wave.WaveView
import Mathlib.Data.List.Induction
import Mathlib.Tactic.NormNum

/-!
# What a wave keeps of earlier calls
-/

namespace MyDemo.Wave

namespace WaveView

variable {s : WaveView} {p : ℚ} {as bs : List ℚ}

/-- The argument gives the wave its height. -/
def GivesHeight (p : ℚ) : Prop := p ≤ 40 ∨ 100 ≤ p

instance (p : ℚ) : Decidable (GivesHeight p) := inferInstanceAs (Decidable (_ ∨ _))

/-- There is no wave when it is empty or full. -/
def height (p : ℚ) : ℚ := if p ≤ 0 ∨ 100 ≤ p then 0 else p

/-- The height given last; the first wave is as high as one of 40 percent. -/
def lastHeight (as : List ℚ) : ℚ := ((as.filter (fun p => GivesHeight p)).getLast?.map height).getD 40

theorem zhenfu_setPercentage : (s.setPercentage p).zhenfu = if GivesHeight p then height p / 2 else s.zhenfu := by
  simp only [setPercentage, GivesHeight, height]
  split_ifs <;> grind

theorem percentage_setPercentage : (s.setPercentage p).percentage = max 0 (min p 100) := by
  simp only [setPercentage]
  split_ifs <;> grind

theorem lastHeight_append_singleton :
    lastHeight (as ++ [p]) = if GivesHeight p then height p else lastHeight as := by
  rw [lastHeight, List.filter_append]
  split
  · next h => simp [h]
  · next h => simp [h, lastHeight]

/-- By induction on the calls, from the last one. -/
theorem zhenfu_setPercentages (as : List ℚ) : (setPercentages as).zhenfu = lastHeight as / 2 := by
  induction as using List.reverseRecOn with
  | nil => norm_num [setPercentages, new, lastHeight]
  | append_singleton as p ih =>
      rw [setPercentages, List.foldl_append, List.foldl_cons, List.foldl_nil, zhenfu_setPercentage,
        lastHeight_append_singleton, ← setPercentages, ih]
      split <;> rfl

theorem percentage_setPercentages (as : List ℚ) (p : ℚ) :
    (setPercentages (as ++ [p])).percentage = max 0 (min p 100) := by
  rw [setPercentages, List.foldl_append]
  exact percentage_setPercentage

/-- Two views that end with the same argument agree exactly where it gives the wave its height, or the
arguments before have given them the same one. -/
theorem history_irrelevant_iff (as bs : List ℚ) (p : ℚ) :
    setPercentages (as ++ [p]) = setPercentages (bs ++ [p]) ↔ GivesHeight p ∨ lastHeight as = lastHeight bs := by
  have hsame : setPercentages (as ++ [p]) = setPercentages (bs ++ [p]) ↔
      (setPercentages (as ++ [p])).zhenfu = (setPercentages (bs ++ [p])).zhenfu := by
    rw [WaveView.ext_iff, percentage_setPercentages, percentage_setPercentages, and_iff_left rfl]
  rw [hsame, zhenfu_setPercentages, zhenfu_setPercentages, lastHeight_append_singleton, lastHeight_append_singleton,
    div_left_inj' (by norm_num)]
  by_cases h : GivesHeight p
  · simp [h]
  · simp [h]

theorem history_seen_at_fifty : setPercentages [50] ≠ setPercentages [10, 50] := by decide +kernel

end WaveView

end MyDemo.Wave

import Mathlib.Data.List.Infix
import Mathlib.Data.Nat.Find

/-!
# The first occurrence of a text in a text
-/

namespace Search

variable {α : Type*} [DecidableEq α]

def indexOf (pat s : List α) : Option ℕ := s.tails.findIdx? (fun t => decide (pat <+: t))

theorem indexOf_eq_some_iff {pat s : List α} {i : ℕ} :
    indexOf pat s = some i ↔ i ≤ s.length ∧ pat <+: s.drop i ∧ ∀ j < i, ¬ pat <+: s.drop j := by
  rw [indexOf, List.findIdx?_eq_some_iff_getElem]
  constructor
  · rintro ⟨hi, hpat, hfirst⟩
    simp only [List.getElem_tails, decide_eq_true_eq] at hpat hfirst
    exact ⟨by simpa [Nat.lt_succ_iff] using hi, hpat, fun j hj => hfirst j hj⟩
  · rintro ⟨hi, hpat, hfirst⟩
    refine ⟨by simpa [Nat.lt_succ_iff] using hi, by simpa using hpat, fun j hj => ?_⟩
    simpa using hfirst j hj

theorem exists_indexOf (u pat v : List α) : ∃ i, indexOf pat (u ++ (pat ++ v)) = some i := by
  have hocc : ∃ i, pat <+: (u ++ (pat ++ v)).drop i := ⟨u.length, by simp⟩
  have hle : Nat.find hocc ≤ u.length := Nat.find_min' hocc (by simp)
  have hin : Nat.find hocc ≤ (u ++ (pat ++ v)).length := hle.trans (by simp)
  exact ⟨_, indexOf_eq_some_iff.mpr ⟨hin, Nat.find_spec hocc, fun _ hj => Nat.find_min hocc hj⟩⟩

theorem indexOf_eq_length_iff {u pat v : List α} :
    indexOf pat (u ++ (pat ++ v)) = some u.length ↔
      ∀ p < u.length, ¬ pat <+: (u ++ (pat ++ v)).drop p := by
  rw [indexOf_eq_some_iff]
  constructor
  · exact fun h => h.2.2
  · exact fun h => ⟨by simp, by simp, h⟩

/-! ## All occurrences -/

/-- Each occurrence of `pat`, from the left and none inside of another, gives way to `new`. The text to be
replaced is not empty. -/
def replaceAll (pat new : List α) : List α → List α
  | [] => []
  | a :: as =>
      if pat <+: a :: as then new ++ replaceAll pat new (as.drop (pat.length - 1))
      else a :: replaceAll pat new as
  termination_by s => s.length

theorem replaceAll_nil (pat new : List α) : replaceAll pat new [] = [] := by rw [replaceAll]

theorem replaceAll_pat (b : α) (pat new s : List α) :
    replaceAll (b :: pat) new (b :: pat ++ s) = new ++ replaceAll (b :: pat) new s := by
  have hpre : b :: pat <+: b :: (pat ++ s) := List.prefix_append (b :: pat) s
  rw [List.cons_append, replaceAll, if_pos hpre, List.length_cons, Nat.add_sub_cancel, List.drop_left]

theorem replaceAll_cons {pat new : List α} {a : α} {s : List α} (h : ¬ pat <+: a :: s) :
    replaceAll pat new (a :: s) = a :: replaceAll pat new s := by
  rw [replaceAll, if_neg h]

/-- A text in which `b` does not occur is passed over. -/
theorem replaceAll_append {b : α} {pat new t s : List α} (h : b ∉ t) :
    replaceAll (b :: pat) new (t ++ s) = t ++ replaceAll (b :: pat) new s := by
  induction t with
  | nil => rfl
  | cons a t ih =>
      obtain ⟨hab, ht⟩ := List.ne_and_not_mem_of_not_mem_cons h
      have hpre : ¬ b :: pat <+: a :: (t ++ s) := fun hpre => hab (List.cons_prefix_cons.mp hpre).1
      rw [List.cons_append, replaceAll_cons hpre, ih ht]
      rfl

end Search

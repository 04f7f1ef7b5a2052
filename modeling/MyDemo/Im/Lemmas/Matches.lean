import MyDemo.Im.MessageUtil

/-!
# Where the matches are
-/

namespace MyDemo.Im

theorem MatchResult.drop_start {str : JString} {m : MatchResult} (h : m.group <+: str.drop m.start) :
    str.drop m.start = m.group ++ str.drop m.stop := by
  obtain ⟨rest, hrest⟩ := h
  rw [MatchResult.stop, ← List.drop_drop, ← hrest, List.drop_left]

/-- `ms` are texts of `str`, each at its place, one after the other and none before `pos`. -/
inductive Located (str : JString) : ℕ → List MatchResult → Prop
  | nil {pos : ℕ} : Located str pos []
  | cons {pos : ℕ} {m : MatchResult} {ms : List MatchResult} (le : pos ≤ m.start)
      (inside : m.start ≤ str.length) (occurs : m.group <+: str.drop m.start)
      (tail : Located str m.stop ms) : Located str pos (m :: ms)

namespace Located

variable {str : JString} {pos : ℕ} {m : MatchResult} {ms : List MatchResult}

theorem mono {pos' : ℕ} (h : Located str pos ms) (hle : pos' ≤ pos) : Located str pos' ms := by
  cases h with
  | nil => exact .nil
  | cons le inside occurs tail => exact .cons (hle.trans le) inside occurs tail

theorem filter (p : MatchResult → Bool) (h : Located str pos ms) : Located str pos (ms.filter p) := by
  induction h with
  | nil => exact .nil
  | cons le inside occurs tail ih =>
      rw [List.filter_cons]
      split
      · exact .cons le inside occurs ih
      · exact ih.mono (le.trans (Nat.le_add_right _ _))

theorem le_of_mem (h : Located str pos ms) (hm : m ∈ ms) : pos ≤ m.start := by
  induction h with
  | nil => cases hm
  | cons le _ _ _ ih =>
      rcases List.mem_cons.mp hm with rfl | hm
      · exact le
      · exact le.trans ((Nat.le_add_right _ _).trans (ih hm))

theorem occurs_of_mem (h : Located str pos ms) (hm : m ∈ ms) : m.group <+: str.drop m.start := by
  induction h with
  | nil => cases hm
  | cons _ _ occurs _ ih =>
      rcases List.mem_cons.mp hm with rfl | hm
      · exact occurs
      · exact ih hm

theorem pairwise (h : Located str pos ms) : ms.Pairwise (fun m m' => m.stop ≤ m'.start) := by
  induction h with
  | nil => exact .nil
  | cons _ _ _ tail ih => exact .cons (fun _ hm => tail.le_of_mem hm) ih

theorem drop_eq (h : Located str pos (m :: ms)) :
    str.drop pos = (str.drop pos).take (m.start - pos) ++ (m.group ++ str.drop m.stop) := by
  cases h with
  | cons le inside occurs tail =>
      have hdrop : (str.drop pos).drop (m.start - pos) = str.drop m.start := by
        rw [List.drop_drop, Nat.add_sub_cancel' le]
      rw [← MatchResult.drop_start occurs, ← hdrop, List.take_append_drop]

end Located

theorem located_results (pattern : Regex ℕ) (str : JString) : Located str 0 (results pattern str) := by
  have hplace : ∀ (as : List ℕ) (pos : ℕ), pos ≤ str.length → str.drop pos = Utf16.encode as →
      Located str pos (MatchResult.place pos (pattern.findAll as)) := by
    intro as
    induction as using Regex.findAll_induction (r := pattern) with
    | none as => exact fun _ _ _ => .nil
    | found f fs ih =>
        intro pos hle hpos
        rw [Utf16.encode_append, Utf16.encode_append] at hpos
        have hstart : str.drop (pos + (Utf16.encode f.skipped).length) =
            Utf16.encode f.group ++ Utf16.encode f.rest := by
          rw [← List.drop_drop, hpos, List.drop_left]
        have hlen := congrArg List.length hpos
        simp only [List.length_drop, List.length_append] at hlen
        have hstop : str.drop (pos + (Utf16.encode f.skipped).length + (Utf16.encode f.group).length) =
            Utf16.encode f.rest := by
          rw [← List.drop_drop, hstart, List.drop_left]
        have hinside : pos + (Utf16.encode f.skipped).length ≤ str.length := by omega
        have hend : pos + (Utf16.encode f.skipped).length + (Utf16.encode f.group).length ≤ str.length := by
          omega
        exact .cons (Nat.le_add_right _ _) hinside (hstart ▸ List.prefix_append _ _) (ih _ hend hstop)
  exact hplace _ 0 (Nat.zero_le _) (by rw [List.drop_zero, Utf16.encode_codePoints])

end MyDemo.Im

import MyDemo.Show.RecyclerViewAdatper
import MyDemo.Lib.ListEntries

/-!
# Rows and their loads
-/

namespace MyDemo.Show

namespace RecyclerViewAdatper

variable {π : Type*} {s s' : RecyclerViewAdatper π}

/-! ## What an action can do -/

/-- The actions that can happen, and what they do to the rows and to the loads. -/
theorem step_cases {a : Action π} (h : s.step a = some s') :
    (a = .create ∧ s' = s.onCreateViewHolder) ∨
    (∃ p0 p1 data, a = .bind p0 p1 ∧ s.datas[p1]? = some data ∧ p0 < s.holders.length ∧
      s' = s.onBindViewHolder p0 p1 data) ∨
    (∃ i load outcome, a = .loaded i outcome ∧ s.loads[i]? = some load ∧ load.outcome = none ∧
      s' = s.onLoaded i load.holder load.position outcome) := by
  cases a with
  | create => exact .inl ⟨rfl, (Option.some.inj h).symm⟩
  | bind p0 p1 =>
      simp only [step] at h
      split at h
      · cases h
      · next data hdata =>
          split at h
          · next hp0 => exact .inr (.inl ⟨p0, p1, data, rfl, hdata, hp0, (Option.some.inj h).symm⟩)
          · cases h
  | loaded i outcome =>
      simp only [step] at h
      split at h
      · cases h
      · next load hload =>
          split at h
          · cases h
          · next hnone =>
              exact .inr (.inr ⟨i, load, outcome, rfl, hload, hnone, (Option.some.inj h).symm⟩)

@[simp] theorem picture_onCreateViewHolder (o : Outcome π) : s.onCreateViewHolder.picture o = s.picture o := by
  cases o <;> rfl

@[simp] theorem picture_onBindViewHolder (p0 p1 : ℕ) (data : ViewType π) (o : Outcome π) :
    (s.onBindViewHolder p0 p1 data).picture o = s.picture o := by
  cases o <;> rfl

@[simp] theorem picture_onLoaded (i p0 p1 : ℕ) (outcome o : Outcome π) :
    (s.onLoaded i p0 p1 outcome).picture o = s.picture o := by
  cases o <;> rfl

theorem setImageTypeVisibility_picture (o : Outcome π) (visible : Bool) :
    setImageTypeVisibility (s.picture o).2 visible = decide ((s.picture o).2 = .longPicture) := by
  cases o with
  | resourceReady resource =>
      simp only [picture]
      split
      · rfl
      · rfl
  | loadFailed => rfl

/-- What the row shows once the load has called back. -/
def shown (s : RecyclerViewAdatper π) (outcome : Outcome π) (row : ViewHolder π) : ViewHolder π :=
  { row with
    typeVisible := decide ((s.picture outcome).2 = .longPicture)
    img := some (s.picture outcome).1 }

theorem holders_onLoaded {i p0 p1 q : ℕ} {outcome : Outcome π} {row : ViewHolder π} :
    (s.onLoaded i p0 p1 outcome).holders[q]? = some row ↔
      ∃ old, s.holders[q]? = some old ∧ (if p0 = q then s.shown outcome old else old) = row := by
  simp only [onLoaded, List.getElem?_modify_eq_some, setImageTypeVisibility_picture]
  rfl

theorem loads_onLoaded {i p0 p1 j : ℕ} {outcome : Outcome π} {load : Load π} :
    (s.onLoaded i p0 p1 outcome).loads[j]? = some load ↔
      ∃ old, s.loads[j]? = some old ∧ (if i = j then { old with outcome := some outcome } else old) = load :=
  List.getElem?_modify_eq_some

/-! ## The load of a row is a load of that row -/

def Own (s : RecyclerViewAdatper π) : Prop :=
  ∀ (p0 : ℕ) (row : ViewHolder π) (i : ℕ), s.holders[p0]? = some row → row.load = some i →
    ∃ load : Load π, s.loads[i]? = some load ∧ load.holder = p0

theorem Own.new (screenWidth screenHeight : ℕ) (datas : List (ViewType π)) :
    Own (new screenWidth screenHeight datas) := by
  intro p0 row i hrow
  cases hrow

theorem Own.step {a : Action π} (h : Own s) (hs : s.step a = some s') : Own s' := by
  obtain ⟨-, rfl⟩ | ⟨p0, p1, data, -, -, -, rfl⟩ | ⟨i, load, outcome, -, hload, -, rfl⟩ := step_cases hs
  · intro q row j hrow hj
    rcases List.getElem?_concat_eq_some.mp hrow with hrow | ⟨_, rfl⟩
    · exact h q row j hrow hj
    · cases hj
  · intro q row j hrow hj
    obtain ⟨old, hold, rfl⟩ := List.getElem?_modify_eq_some.mp hrow
    split at hj
    · next hq =>
        cases hj
        exact ⟨_, List.getElem?_concat_eq_some.mpr (.inr ⟨rfl, rfl⟩), hq⟩
    · obtain ⟨ld, hld, hholder⟩ := h q old j hold hj
      exact ⟨ld, List.getElem?_concat_eq_some.mpr (.inl hld), hholder⟩
  · intro q row j hrow hj
    obtain ⟨old, hold, rfl⟩ := holders_onLoaded.mp hrow
    have hj' : old.load = some j := by split at hj <;> exact hj
    obtain ⟨ld, hld, hholder⟩ := h q old j hold hj'
    refine ⟨_, loads_onLoaded.mpr ⟨ld, hld, rfl⟩, ?_⟩
    split
    · exact hholder
    · exact hholder

end RecyclerViewAdatper

end MyDemo.Show

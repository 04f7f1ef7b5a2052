import MyDemo.Show.Lemmas.Rows
import MyDemo.Lib.Transition

/-!
# A row shows the picture of its own position
-/

namespace MyDemo.Show

open Transition

namespace RecyclerViewAdatper

variable {π : Type*} {s s' : RecyclerViewAdatper π}

/-- A load for the position has brought this bitmap, and this badge with it. -/
def Brought (s : RecyclerViewAdatper π) (position : ℕ) (img : Option (Bitmap π)) (typeVisible : Bool) : Prop :=
  ∃ load ∈ s.loads, load.position = position ∧ ∃ outcome, load.outcome = some outcome ∧
    img = some (s.picture outcome).1 ∧ typeVisible = decide ((s.picture outcome).2 = .longPicture)

/-- Each row whose load has called back shows what was loaded for the position it is bound to. -/
def ShowsOwn (s : RecyclerViewAdatper π) : Prop :=
  ∀ (p0 : ℕ) (row : ViewHolder π) (i : ℕ) (load : Load π), s.holders[p0]? = some row →
    row.load = some i → s.loads[i]? = some load → load.outcome ≠ none →
      s.Brought load.position row.img row.typeVisible

/-- A load that calls back finds its row bound to its position still, or waiting for another load, or
it brings what has been loaded for the position of the row. -/
def Current (s : RecyclerViewAdatper π) : Action π → Prop
  | .loaded i outcome =>
      ∀ (load : Load π) (row : ViewHolder π) (j : ℕ) (now : Load π), s.loads[i]? = some load →
        s.holders[load.holder]? = some row → row.load = some j → s.loads[j]? = some now →
          now.position = load.position ∨ now.outcome = none ∨
            s.Brought now.position (some (s.picture outcome).1)
              (decide ((s.picture outcome).2 = .longPicture))
  | _ => True

theorem Brought.mono {position : ℕ} {img : Option (Bitmap π)} {typeVisible : Bool}
    (h : s.Brought position img typeVisible) (hpicture : ∀ o, s'.picture o = s.picture o)
    (hloads : ∀ load ∈ s.loads, load.outcome ≠ none → load ∈ s'.loads) :
    s'.Brought position img typeVisible := by
  obtain ⟨load, hload, hposition, outcome, houtcome, himg, hvisible⟩ := h
  refine ⟨load, hloads load hload (by rw [houtcome]; exact nofun), hposition, outcome, houtcome, ?_⟩
  rw [hpicture]
  exact ⟨himg, hvisible⟩

theorem mem_loads_onLoaded {i : ℕ} {load : Load π} (hload : s.loads[i]? = some load)
    (hnone : load.outcome = none) (outcome : Outcome π) :
    ∀ ld ∈ s.loads, ld.outcome ≠ none →
      ld ∈ (s.onLoaded i load.holder load.position outcome).loads := by
  intro ld hld hdone
  obtain ⟨j, hj⟩ := List.mem_iff_getElem?.mp hld
  refine List.mem_iff_getElem?.mpr ⟨j, loads_onLoaded.mpr ⟨ld, hj, if_neg ?_⟩⟩
  rintro rfl
  rw [hload] at hj
  exact hdone (Option.some.inj hj ▸ hnone)

theorem brought_onLoaded_iff {i : ℕ} {load : Load π} (hload : s.loads[i]? = some load)
    (hnone : load.outcome = none) (outcome : Outcome π) {position : ℕ} {img : Option (Bitmap π)}
    {typeVisible : Bool} :
    (s.onLoaded i load.holder load.position outcome).Brought position img typeVisible ↔
      s.Brought position img typeVisible ∨ load.position = position ∧
        img = some (s.picture outcome).1 ∧ typeVisible = decide ((s.picture outcome).2 = .longPicture) := by
  constructor
  · rintro ⟨ld, hld, hposition, o, ho, hshown⟩
    rw [picture_onLoaded] at hshown
    obtain ⟨j, hj⟩ := List.mem_iff_getElem?.mp hld
    obtain ⟨old, hold, rfl⟩ := loads_onLoaded.mp hj
    by_cases hij : i = j
    · subst hij
      obtain rfl := Option.some.inj (hload.symm.trans hold)
      rw [if_pos rfl] at ho hposition
      cases ho
      exact .inr ⟨hposition, hshown⟩
    · rw [if_neg hij] at ho hposition
      exact .inl ⟨old, List.mem_of_getElem? hold, hposition, o, ho, hshown⟩
  · rintro (h | ⟨hposition, hshown⟩)
    · exact h.mono (picture_onLoaded _ _ _ _) (mem_loads_onLoaded hload hnone outcome)
    · have hdone : (s.onLoaded i load.holder load.position outcome).loads[i]? =
          some { load with outcome := some outcome } := loads_onLoaded.mpr ⟨load, hload, if_pos rfl⟩
      refine ⟨_, List.mem_of_getElem? hdone, hposition, outcome, rfl, ?_⟩
      rw [picture_onLoaded]
      exact hshown

theorem showsOwn_onCreateViewHolder (h : ShowsOwn s) : ShowsOwn s.onCreateViewHolder := by
  intro p0 row i load hrow hi hload hdone
  rcases List.getElem?_concat_eq_some.mp hrow with hrow | ⟨_, rfl⟩
  · exact (h p0 row i load hrow hi hload hdone).mono (picture_onCreateViewHolder ·) (fun _ hld _ => hld)
  · cases hi

theorem showsOwn_onBindViewHolder (h : ShowsOwn s) (p0 p1 : ℕ) (data : ViewType π) :
    ShowsOwn (s.onBindViewHolder p0 p1 data) := by
  intro q row i load hrow hi hload hdone
  obtain ⟨old, hold, rfl⟩ := List.getElem?_modify_eq_some.mp hrow
  rcases List.getElem?_concat_eq_some.mp hload with hload | ⟨_, rfl⟩
  · split at hi
    · cases hi
      rw [List.getElem?_eq_none (Nat.le_refl _)] at hload
      cases hload
    · next hq =>
        rw [if_neg hq]
        exact (h q old i load hold hi hload hdone).mono (picture_onBindViewHolder _ _ _)
          (fun _ hld _ => List.mem_append_left _ hld)
  · exact absurd rfl hdone

theorem showsOwn_onLoaded (hown : Own s) (h : ShowsOwn s) {i : ℕ} {load : Load π} {outcome : Outcome π}
    (hload : s.loads[i]? = some load) (hnone : load.outcome = none) :
    ShowsOwn (s.onLoaded i load.holder load.position outcome) ↔ s.Current (.loaded i outcome) := by
  constructor
  · intro h' ld row j now hld hrow hj hnow
    obtain rfl := Option.some.inj (hload.symm.trans hld)
    by_cases hji : i = j
    · subst hji
      exact .inl (congrArg Load.position (Option.some.inj (hnow.symm.trans hload)))
    · by_cases hdone : now.outcome = none
      · exact .inr (.inl hdone)
      · have hshown := h' load.holder (s.shown outcome row) j now
          (holders_onLoaded.mpr ⟨row, hrow, if_pos rfl⟩) hj (loads_onLoaded.mpr ⟨now, hnow, if_neg hji⟩)
          hdone
        rcases (brought_onLoaded_iff hload hnone outcome).mp hshown with hb | ⟨hposition, _⟩
        · exact .inr (.inr hb)
        · exact .inl hposition.symm
  · intro hcur q row j ld hrow hj hld hdone
    rw [brought_onLoaded_iff hload hnone]
    obtain ⟨old, hold, rfl⟩ := holders_onLoaded.mp hrow
    obtain ⟨before, hbefore, rfl⟩ := loads_onLoaded.mp hld
    split at hj
    · next hq =>
        subst hq
        rw [if_pos rfl]
        by_cases hij : i = j
        · subst hij
          rw [if_pos rfl, Option.some.inj (hbefore.symm.trans hload)]
          exact .inr ⟨rfl, rfl, rfl⟩
        · rw [if_neg hij] at hdone ⊢
          rcases hcur load old j before hload hold hj hbefore with hposition | hwaiting | hb
          · exact .inr ⟨hposition.symm, rfl, rfl⟩
          · exact absurd hwaiting hdone
          · exact .inl hb
    · next hq =>
        obtain ⟨own, hmine, hholder⟩ := hown q old j hold hj
        have hij : i ≠ j := by
          rintro rfl
          rw [hload] at hmine
          exact hq (Option.some.inj hmine ▸ hholder)
        rw [if_neg hij] at hdone ⊢
        rw [if_neg hq]
        exact .inl (h q old j before hold hj hbefore hdone)

theorem showsOwn_step {a : Action π} (hown : Own s) (h : ShowsOwn s) (hs : s.step a = some s') :
    ShowsOwn s' ↔ s.Current a := by
  obtain ⟨rfl, rfl⟩ | ⟨p0, p1, data, rfl, -, -, rfl⟩ | ⟨i, load, outcome, rfl, hload, hnone, rfl⟩ :=
    step_cases hs
  · exact iff_of_true (showsOwn_onCreateViewHolder h) trivial
  · exact iff_of_true (showsOwn_onBindViewHolder h p0 p1 data) trivial
  · exact showsOwn_onLoaded hown h hload hnone

/-- The rows show their own pictures in the runs whose loads all call back in time, and in no others. -/
theorem shows_own_iff (screenWidth screenHeight : ℕ) (datas : List (ViewType π)) (as : List (Action π)) :
    Always step ShowsOwn (new screenWidth screenHeight datas) as ↔
      Each step Current (new screenWidth screenHeight datas) as :=
  always_iff_each_of_keeps (I := Own) (P := ShowsOwn) (C := Current) (fun _ _ _ hown hstep => hown.step hstep)
    (fun _ _ _ hown h hstep => showsOwn_step hown h hstep) (Own.new screenWidth screenHeight datas)
    (fun _ _ _ _ hrow => by cases hrow) as

def twoPictures : RecyclerViewAdatper ℕ :=
  new 1080 1920 [⟨.normalPicture, none⟩, ⟨.normalPicture, none⟩]

/-- The row is bound to the first picture and then to the second, and the first one comes last. -/
theorem late_load_shows_other_row : ¬ Always step ShowsOwn twoPictures
    [.create, .bind 0 0, .bind 0 1, .loaded 1 (.resourceReady ⟨200, 200, 1⟩),
      .loaded 0 (.resourceReady ⟨200, 200, 0⟩)] := by
  intro h
  have hrun : run step twoPictures [.create, .bind 0 0, .bind 0 1,
      .loaded 1 (.resourceReady ⟨200, 200, 1⟩), .loaded 0 (.resourceReady ⟨200, 200, 0⟩)] = some
        { twoPictures with
          datas := [⟨.normalPicture, some (.whole ⟨200, 200, 0⟩)⟩,
            ⟨.normalPicture, some (.whole ⟨200, 200, 1⟩)⟩]
          holders := [⟨false, some (.whole ⟨200, 200, 0⟩), some 1⟩]
          loads := [⟨0, 0, some (.resourceReady ⟨200, 200, 0⟩)⟩,
            ⟨0, 1, some (.resourceReady ⟨200, 200, 1⟩)⟩] } := by decide +kernel
  obtain ⟨load, hmem, hposition, outcome, houtcome, himg, -⟩ :=
    always_iff.mp h _ _ (List.prefix_refl _) hrun 0 _ 1 _ rfl rfl rfl nofun
  rcases List.mem_pair.mp hmem with rfl | rfl
  · exact absurd hposition (by decide)
  · cases houtcome
    exact absurd himg (by decide +kernel)

end RecyclerViewAdatper

end MyDemo.Show

import MyDemo.Loadmore.FooterRow
import MyDemo.Lib.ListEntries
import MyDemo.Lib.Transition

/-!
# No more data
-/

namespace MyDemo.Loadmore

open Transition

def ItemFooterBinding.ShowsNomore (f : ItemFooterBinding) : Prop :=
  f.footView = .visible ∧ f.nomoreView = .visible ∧ f.progressView ≠ .visible ∧ f.failView ≠ .visible

instance (f : ItemFooterBinding) : Decidable f.ShowsNomore := inferInstanceAs (Decidable (_ ∧ _))

/-! ## What the operations do to the footers -/

namespace LRecyclerView

variable {s s' : LRecyclerView} {j : ℕ}

def NomoreAt (s : LRecyclerView) (j : ℕ) : Prop := ∀ f, s.footers[j]? = some f → f.ShowsNomore

theorem getElem?_withFooter {f : ItemFooterBinding → ItemFooterBinding} {g : ItemFooterBinding} :
    (s.withFooter f).footers[j]? = some g ↔
      ∃ g', s.footers[j]? = some g' ∧ (if j + 1 = s.footers.length then f g' else g') = g := by
  rw [withFooter, List.getElem?_modify_eq_some]
  refine exists_congr fun g' => and_congr_right fun hg' => ?_
  have hj : j < s.footers.length := (List.getElem?_eq_some_iff.mp hg').1
  simp only [show s.footers.length - 1 = j ↔ j + 1 = s.footers.length by omega]

@[simp] theorem length_withFooter (f : ItemFooterBinding → ItemFooterBinding) :
    (s.withFooter f).footers.length = s.footers.length := List.length_modify _ _ _

/-- The footer created last is the one that shows no-more from now on. -/
theorem nomoreAt_nomore : s.nomore.NomoreAt j ↔ j + 1 = s.footers.length ∨ s.NomoreAt j := by
  constructor
  · intro h
    by_cases hlast : j + 1 = s.footers.length
    · exact .inl hlast
    · refine .inr (fun g hg => h g ?_)
      exact getElem?_withFooter.mpr ⟨g, hg, if_neg hlast⟩
  · intro h f hf
    obtain ⟨g, hg, rfl⟩ := getElem?_withFooter.mp hf
    split
    · exact ⟨rfl, rfl, nofun, nofun⟩
    · next hother => exact (h.resolve_left hother) g hg

@[simp] theorem nomoreAt_setOnClickListener : s.setOnClickListener.NomoreAt j ↔ s.NomoreAt j := by
  constructor
  · intro h g hg
    have hf := h _ (getElem?_withFooter.mpr ⟨g, hg, rfl⟩)
    split at hf <;> exact hf
  · intro h f hf
    obtain ⟨g, hg, rfl⟩ := getElem?_withFooter.mp hf
    split <;> exact h g hg

theorem nomoreAt_bindFooter (h : s.adapterFinish = true) :
    s.bindFooter.NomoreAt j ↔ j + 1 = s.footers.length ∨ s.NomoreAt j := by
  rw [bindFooter, if_pos h]
  exact nomoreAt_setOnClickListener.trans nomoreAt_nomore

theorem nomoreAt_createFooter (hj : j < s.footers.length) : s.createFooter.NomoreAt j ↔ s.NomoreAt j := by
  simp only [NomoreAt, createFooter, List.getElem?_append_left hj]

/-! ## No footer goes away -/

@[simp] theorem length_setFooter {finish : Bool} {progressView nomoreView failView : Visibility} :
    (s.setFooter finish progressView nomoreView failView).footers.length = s.footers.length :=
  length_withFooter _

@[simp] theorem length_bindFooter : s.bindFooter.footers.length = s.footers.length := by
  rw [bindFooter]
  split <;> simp [setOnClickListener, nomore, progress]

@[simp] theorem length_complete {c : Completion} : (s.complete c).footers.length = s.footers.length := by
  cases c <;> simp [complete, success, fail, nomore, adapterReset]

theorem length_callListener (retry : Bool) (listener : Option (List Completion)) :
    (s.callListener retry listener).footers.length = s.footers.length := by
  cases listener with
  | none => rfl
  | some calls =>
      rw [callListener]
      generalize hlogged : ({ s with log := .onLoadmore retry :: s.log } : LRecyclerView) = t
      have hlength : t.footers.length = s.footers.length := hlogged ▸ rfl
      clear hlogged
      induction calls generalizing t with
      | nil => exact hlength
      | cons c calls ih => exact ih _ (length_complete.trans hlength)

theorem length_handle {e : Event} (h : s.handle e = some s') : s.footers.length ≤ s'.footers.length := by
  cases e with
  | onScrolled canScrollVertically listener =>
      cases h
      rw [onScrolledBy]
      split
      · exact le_rfl
      · split
        · exact le_rfl
        · exact (length_callListener false listener).ge
  | createFooter => cases h; simp [createFooter]
  | bindFooter j =>
      simp only [handle, step] at h
      split at h
      · cases h; exact length_bindFooter.ge
      · cases h
  | bindRow => cases h; exact (length_withFooter _).ge
  | tapFail j listener =>
      simp only [handle] at h
      split at h
      · cases h
      · split at h
        · cases h
          split
          · exact ((length_callListener true listener).trans length_setFooter).ge
          · exact le_rfl
        · cases h
  | complete c => cases h; exact length_complete.ge

end LRecyclerView

/-! ## The footer row -/

namespace FooterRow

variable {s s' : FooterRow}

def InRange (s : FooterRow) : Prop := ∀ j, s.bound = some j → j < s.list.footers.length

theorem InRange.withList (h : InRange s) {e : LRecyclerView.Event} (hs : s.withList e = some s') :
    InRange s' ∧ s'.bound = s.bound ∧ s.list.handle e = some s'.list := by
  obtain ⟨list, hlist, rfl⟩ := Option.map_eq_some_iff.mp hs
  exact ⟨fun j hj => (h j hj).trans_le (LRecyclerView.length_handle hlist), rfl, hlist⟩

theorem tap_cases {view : FooterView} {listener : Option (List Completion)}
    (hs : s.handle (.tap view listener) = some s') : ∃ j f, s.bound = some j ∧ s.list.footers[j]? = some f ∧
      f.visibility view = .visible ∧
      (s' = s ∨ view = .failView ∧ s.withList (.tapFail j listener) = some s') := by
  simp only [handle, Option.bind_eq_bind, Option.bind_eq_some_iff] at hs
  obtain ⟨j, hj, f, hf, hs⟩ := hs
  split at hs
  · next hview =>
      refine ⟨j, f, hj, hf, hview.2, ?_⟩
      cases view with
      | failView => exact .inr ⟨rfl, hs⟩
      | progressView => exact .inl (Option.some.inj hs).symm
      | nomoreView => exact .inl (Option.some.inj hs).symm
  · cases hs

theorem bindFooter_cases {j : ℕ} (hs : s.handle (.bindFooter j) = some s') :
    j < s.list.footers.length ∧ s' = { list := s.list.bindFooter, bound := some j } := by
  simp only [handle, withList, LRecyclerView.handle, LRecyclerView.step, Option.map_map,
    Option.map_eq_some_iff] at hs
  obtain ⟨list, hlist, rfl⟩ := hs
  split at hlist
  · next hj => cases hlist; exact ⟨hj, rfl⟩
  · cases hlist

theorem InRange.handle {e : Event} (h : InRange s) (hs : s.handle e = some s') : InRange s' := by
  cases e with
  | onScrolled canScrollVertically listener => exact (h.withList hs).1
  | createFooter => exact (h.withList hs).1
  | bindFooter j =>
      obtain ⟨hj, rfl⟩ := bindFooter_cases hs
      rintro _ ⟨⟩
      exact hj.trans_eq LRecyclerView.length_bindFooter.symm
  | bindRow => exact (h.withList hs).1
  | notifyDataSetChanged => cases hs; exact h
  | tap view listener =>
      obtain ⟨j, f, _, _, _, rfl | ⟨_, hs⟩⟩ := tap_cases hs
      · exact h
      · exact (h.withList hs).1
  | complete c => exact (h.withList hs).1

theorem inRange_run {history : List Event} (h : run handle new history = some s) : InRange s :=
  run_keeps (fun _ _ _ hin hs => hin.handle hs) (fun _ hj => by cases hj) h

/-! ## No more stays no more -/

/-- The listener has not been called since the log was `older`. -/
def Quiet (older : List Entry) (s : FooterRow) : Prop :=
  ∃ newer, s.list.log = newer ++ older ∧ ∀ e ∈ newer, ¬ e.IsRequest

def ShowsNomore (s : FooterRow) : Prop := ∀ j, s.bound = some j → s.list.NomoreAt j

def Finished (s : FooterRow) : Prop :=
  s.list.loadmoreFinish = true ∧ s.list.adapterFinish = true ∧ InRange s

/-- Nothing is completed but by `setNomoreData`. -/
def Event.After : Event → Prop
  | .complete c => c = .setNomoreData
  | _ => True

/-- A binding is of the footer created last, or of one that shows no-more already. -/
def BindsNomore (s : FooterRow) : Event → Prop
  | .bindFooter j => j + 1 = s.list.footers.length ∨ s.list.NomoreAt j
  | _ => True

theorem Quiet.cons {older : List Entry} (h : Quiet older s) {e : Entry} (he : ¬ e.IsRequest)
    (hlog : s'.list.log = e :: s.list.log) : Quiet older s' := by
  obtain ⟨newer, hnewer, hquiet⟩ := h
  exact ⟨e :: newer, by rw [hlog, hnewer]; rfl, List.forall_mem_cons.mpr ⟨he, hquiet⟩⟩

theorem onScrolled_of_finished (hfin : Finished s) {canScrollVertically : Bool}
    {listener : Option (List Completion)}
    (hs : s.handle (.onScrolled canScrollVertically listener) = some s') : s' = s := by
  simp only [handle, withList, LRecyclerView.handle, LRecyclerView.onScrolledBy, hfin.1, if_true, ite_self,
    Option.map_some] at hs
  exact (Option.some.inj hs).symm

theorem tap_of_showsNomore (hshows : ShowsNomore s) {view : FooterView}
    {listener : Option (List Completion)} (hs : s.handle (.tap view listener) = some s') : s' = s := by
  obtain ⟨j, f, hj, hf, hview, h | ⟨rfl, _⟩⟩ := tap_cases hs
  · exact h
  · exact absurd hview (hshows j hj f hf).2.2.2

theorem Finished.handle {e : Event} (hfin : Finished s) (he : e.After) (hshows : ShowsNomore s)
    (hs : s.handle e = some s') : Finished s' := by
  have hrange : InRange s' := hfin.2.2.handle hs
  cases e with
  | onScrolled canScrollVertically listener => exact onScrolled_of_finished hfin hs ▸ hfin
  | createFooter => cases hs; exact ⟨hfin.1, hfin.2.1, hrange⟩
  | bindFooter j =>
      obtain ⟨_, rfl⟩ := bindFooter_cases hs
      exact ⟨LRecyclerView.loadmoreFinish_bindFooter.trans hfin.2.1,
        LRecyclerView.adapterFinish_bindFooter.trans hfin.2.1, hrange⟩
  | bindRow => cases hs; exact ⟨hfin.1, hfin.2.1, hrange⟩
  | notifyDataSetChanged => cases hs; exact hfin
  | tap view listener => exact tap_of_showsNomore hshows hs ▸ hfin
  | complete c =>
      obtain rfl : c = .setNomoreData := he
      cases hs
      exact ⟨rfl, rfl, hrange⟩

theorem showsNomore_step {older : List Entry} {e : Event} (he : e.After) (hfin : Finished s)
    (hquiet : Quiet older s) (hshows : ShowsNomore s) (hs : s.handle e = some s') :
    Quiet older s' ∧ ShowsNomore s' ↔ s.BindsNomore e := by
  cases e with
  | onScrolled canScrollVertically listener =>
      obtain rfl := onScrolled_of_finished hfin hs
      exact iff_of_true ⟨hquiet, hshows⟩ trivial
  | createFooter =>
      cases hs
      refine iff_of_true ⟨hquiet, fun j hj => ?_⟩ trivial
      exact (LRecyclerView.nomoreAt_createFooter (hfin.2.2 j hj)).mpr (hshows j hj)
  | bindFooter j =>
      obtain ⟨hj, rfl⟩ := bindFooter_cases hs
      have hq : Quiet older { list := s.list.bindFooter, bound := some j } :=
        hquiet.cons (e := .footerBound) (fun h => h) LRecyclerView.log_bindFooter
      rw [and_iff_right hq, BindsNomore, ← LRecyclerView.nomoreAt_bindFooter hfin.2.1]
      exact ⟨fun h => h j rfl, fun h _ hj => Option.some.inj hj ▸ h⟩
  | bindRow =>
      cases hs
      exact iff_of_true ⟨hquiet, fun j hj => LRecyclerView.nomoreAt_setOnClickListener.mpr (hshows j hj)⟩ trivial
  | notifyDataSetChanged =>
      cases hs
      exact iff_of_true ⟨hquiet, hshows⟩ trivial
  | tap view listener =>
      obtain rfl := tap_of_showsNomore hshows hs
      exact iff_of_true ⟨hquiet, hshows⟩ trivial
  | complete c =>
      obtain rfl : c = .setNomoreData := he
      cases hs
      have hq : Quiet older s.setNomoreData :=
        hquiet.cons (e := .completed .setNomoreData) (fun h => h) LRecyclerView.log_complete
      exact iff_of_true ⟨hq, fun j hj => LRecyclerView.nomoreAt_nomore.mpr (.inr (hshows j hj))⟩ trivial

theorem InRange.setNomoreData (h : InRange s) : InRange s.setNomoreData :=
  fun j hj => (h j hj).trans_eq LRecyclerView.length_complete.symm

theorem showsNomore_setNomoreData : ShowsNomore s.setNomoreData ↔
    ∀ j, s.bound = some j → j + 1 = s.list.footers.length ∨ s.list.NomoreAt j :=
  forall₂_congr fun _ _ => LRecyclerView.nomoreAt_nomore

/-- After `setNomoreData` the listener is not called and the footer row shows no-more, in every state of the
runs in which the footer bound is the one created last or shows no-more already, and in no others. -/
theorem nomore_sticky_iff {history as : List Event} (hs : run handle new history = some s)
    (has : ∀ e ∈ as, e.After) :
    Always handle (fun t => Quiet s.setNomoreData.list.log t ∧ ShowsNomore t) s.setNomoreData as ↔
      (∀ j, s.bound = some j → j + 1 = s.list.footers.length ∨ s.list.NomoreAt j) ∧
        Each handle BindsNomore s.setNomoreData as := by
  have hfin : Finished s.setNomoreData := ⟨rfl, rfl, (inRange_run hs).setNomoreData⟩
  have hquiet : Quiet s.setNomoreData.list.log s.setNomoreData := ⟨[], rfl, by simp⟩
  have hiff (hshows : ShowsNomore s.setNomoreData) := always_iff_each_within (A := Event.After) (I := Finished)
    (P := fun t => Quiet s.setNomoreData.list.log t ∧ ShowsNomore t) (C := BindsNomore)
    (fun _ _ _ he hfin hP hs _ => hfin.handle he hP.2 hs)
    (fun _ _ _ he hfin hP hs => showsNomore_step he hfin hP.1 hP.2 hs) has hfin ⟨hquiet, hshows⟩
  rw [← showsNomore_setNomoreData]
  constructor
  · intro h
    have hshows : ShowsNomore s.setNomoreData := by
      cases as with
      | nil => exact h.2
      | cons e as => exact h.1.2
    exact ⟨hshows, (hiff hshows).mp h⟩
  · rintro ⟨hshows, h⟩
    exact (hiff hshows).mpr h

theorem nomore_sticky_iff_new_footer : ∃ s, run handle new [.createFooter, .bindFooter 0] = some s ∧
    (Always handle (fun t => Quiet s.setNomoreData.list.log t ∧ ShowsNomore t) s.setNomoreData
        [.onScrolled false none, .createFooter, .bindFooter 1, .tap .nomoreView none] ↔
      (∀ j, s.bound = some j → j + 1 = s.list.footers.length ∨ s.list.NomoreAt j) ∧
        Each handle BindsNomore s.setNomoreData
          [.onScrolled false none, .createFooter, .bindFooter 1, .tap .nomoreView none]) := by
  have hrun : run handle new [.createFooter, .bindFooter 0] =
      some ⟨⟨false, false, [⟨.visible, .visible, .invisible, .invisible, true⟩], [.footerBound]⟩, some 0⟩ := rfl
  exact ⟨_, hrun, nomore_sticky_iff hrun (by simp [Event.After])⟩

/-- The first footer failed; a second one has been created and bound since. -/
def twoFooters : FooterRow :=
  ⟨⟨false, false, [⟨.visible, .invisible, .invisible, .visible, true⟩,
    ⟨.visible, .visible, .invisible, .invisible, true⟩],
    [.footerBound, .completed .loadmoreFail, .footerBound]⟩, some 1⟩

theorem rebound_footer_retries :
    run handle new [.createFooter, .bindFooter 0, .complete .loadmoreFail, .createFooter, .bindFooter 1] =
        some twoFooters ∧
      (run handle twoFooters.setNomoreData [.bindFooter 0, .tap .failView (some [])]).map (fun t =>
        t.list.log.head?) = some (some (.onLoadmore true)) ∧
      ¬ Always handle (fun t => Quiet twoFooters.setNomoreData.list.log t ∧ ShowsNomore t)
        twoFooters.setNomoreData [.bindFooter 0, .tap .failView (some [])] := by
  refine ⟨rfl, rfl, fun h => ?_⟩
  have hshown := (always_iff.mp h [.bindFooter 0] _ ⟨[.tap .failView (some [])], rfl⟩ rfl).2 0 rfl _ rfl
  exact absurd hshown (by decide)

end FooterRow

end MyDemo.Loadmore

import MyDemo.Lib.ListEntries
import MyDemo.Lib.Transition
import MyDemo.Recyclerview.MyAdapter
import Mathlib.Data.List.InsertIdx

/-!
# Both lists of the adapter say the same
-/

namespace MyDemo.Recyclerview

namespace MyAdapter

open Transition

variable {s t : MyAdapter}

/-- What keeps the lists alike: data that is added has no text; an edit goes to the entry of the focused row,
whose object occurs once, or leaves the text as it is. -/
def MayAct (s : MyAdapter) : Event → Prop
  | .addData data => s.str data = []
  | .edit text => ∃ (c : ℕ) (data : DataId), s.checkPos = c ∧ s.datas[c]? = some data ∧
      (text = s.str data ∨ s.focusedEntry = some c ∧ s.datas.count data = 1)
  | _ => True

theorem mirrors_iff : s.Mirrors ↔ s.crashed = false ∧ s.strList = s.strs := by
  refine and_congr_right (fun _ => ?_)
  constructor
  · rintro ⟨_, h⟩
    exact List.ext_getElem? (fun i => by rw [h, strs, List.getElem?_map])
  · intro h
    rw [h, strs]
    exact ⟨List.length_map _, fun i => List.getElem?_map⟩

instance (s : MyAdapter) : Decidable s.Mirrors := decidable_of_iff _ mirrors_iff.symm

theorem mirrors_new (str : DataId → JString) (datas : List DataId) : (new str datas).Mirrors := by
  have hadd : (new str datas).strList = [] ++ (datas.map (fun data => [str data])).flatten :=
    List.foldl_append_eq_append
  rw [List.nil_append, ← List.flatMap_def, ← List.map_eq_flatMap] at hadd
  exact mirrors_iff.mpr ⟨rfl, hadd⟩

theorem mirrors_addData (h : s.Mirrors) (data : DataId) : (s.addData data).Mirrors ↔ s.str data = [] := by
  obtain ⟨hcrashed, hstrs⟩ := mirrors_iff.mp h
  have hadd : (s.addData data).Mirrors ↔ s.strList ++ [[]] = s.strs ++ [s.str data] := by
    rw [mirrors_iff, strs, addData]
    simp only [setModify, notifyDataSetChanged, hcrashed, List.map_append, List.map_singleton, true_and]
    rfl
  rw [hadd, hstrs, List.append_cancel_left_eq, List.singleton_inj]
  exact eq_comm

theorem mirrors_removeData (h : s.Mirrors) (position : ℕ) : (s.removeData position).Mirrors := by
  obtain ⟨hcrashed, hstrs⟩ := mirrors_iff.mp h
  refine mirrors_iff.mpr ⟨hcrashed, ?_⟩
  show s.strList.eraseIdx position = (s.datas.eraseIdx position).map s.str
  rw [hstrs, strs, List.eraseIdx_map]

theorem bind_rows (h : s.Mirrors) (positions : List ℕ) (hlt : ∀ p1 ∈ positions, p1 < s.datas.length) :
    ∃ rows, positions.mapM s.onBindViewHolder = .ok rows := by
  obtain ⟨_, hlength, _⟩ := h
  induction positions with
  | nil => exact ⟨[], rfl⟩
  | cons p1 positions ih =>
      have hp1 := hlt p1 List.mem_cons_self
      obtain ⟨text, htext⟩ : ∃ text, JArray.get s.strList p1 = .ok text :=
        JArray.exists_get (by omega) (by omega)
      obtain ⟨rows, hrows⟩ := ih (fun p hp => hlt p (List.mem_cons_of_mem _ hp))
      refine ⟨⟨some p1, text, s.isModify⟩ :: rows, ?_⟩
      rw [List.mapM_cons, onBindViewHolder, htext, hrows]
      rfl

theorem mirrors_layout (h : s.Mirrors) : (s.orCrash s.layout).Mirrors := by
  obtain ⟨rows, hrows⟩ := bind_rows h (List.range s.datas.length) (fun p1 hp1 => List.mem_range.mp hp1)
  rw [layout, hrows]
  exact h

/-! ## An edit -/

theorem afterTextChanged_ok (h : s.Mirrors) {c : ℕ} {data : DataId} (hc : s.checkPos = c)
    (hdata : s.datas[c]? = some data) (text : JString) : s.afterTextChanged text =
      .ok { s with strList := s.strList.set c text, str := Function.update s.str data text } := by
  have hlt : c < s.strList.length := by
    rw [h.2.1]
    exact (List.getElem?_eq_some_iff.mp hdata).1
  rw [afterTextChanged, hc, JArray.set_eq (by omega) (by omega), JArray.get_of_getElem? hdata rfl]
  rfl

theorem afterTextChanged_error (hlength : s.strList.length = s.datas.length)
    (h : ∀ (c : ℕ) (data : DataId), s.checkPos = c → s.datas[c]? ≠ some data) (text : JString) :
    ∃ e, s.afterTextChanged text = .error e := by
  have hset : JArray.set s.strList s.checkPos text = .error .indexOutOfBounds := by
    refine if_neg ?_
    rintro ⟨hle, hlt⟩
    exact h s.checkPos.toNat _ (by omega) (List.getElem?_eq_getElem (by omega))
  rw [afterTextChanged, hset]
  exact ⟨_, rfl⟩

theorem editsFocused_iff {text : JString} (ht : s.step (.edit text) = some t) : s.EditsFocused (.edit text) ↔
    ∀ i : ℕ, s.focusedEntry ≠ some i → t.strList[i]? = s.strList[i]? ∧ t.strs[i]? = s.strs[i]? := by
  constructor
  · exact fun h => h text rfl t ht
  · rintro h _ ⟨⟩ t' ht'
    cases ht.symm.trans ht'
    exact h

/-- An edit that does not crash, whether or not it changes a text. -/
theorem edit_iff {c : ℕ} {data : DataId} {text : JString} (hs : s.strList = s.strs) (hdata : s.datas[c]? = some data)
    (hstrList : t.strList = s.strList.set c text) (hstrs : t.strs = s.datas.map (Function.update s.str data text)) :
    (t.strList = t.strs ∧ ∀ i : ℕ, s.focusedEntry ≠ some i →
      t.strList[i]? = s.strList[i]? ∧ t.strs[i]? = s.strs[i]?) ↔
    text = s.str data ∨ s.focusedEntry = some c ∧ s.datas.count data = 1 := by
  have hold : s.strList[c]? = some (s.str data) := by rw [hs, strs, List.getElem?_map, hdata]; rfl
  have hnew : t.strList[c]? = some text := by
    rw [hstrList, List.getElem?_set_self (List.getElem?_eq_some_iff.mp hold).1]
  by_cases htext : text = s.str data
  · subst htext
    have hlist : t.strList = s.strList := by
      obtain ⟨hlt, hget⟩ := List.getElem?_eq_some_iff.mp hold
      rw [hstrList, ← hget, List.set_getElem_self]
    have hstrs' : t.strs = s.strs := by rw [hstrs, Function.update_eq_self, strs]
    rw [hlist, hstrs']
    exact iff_of_true ⟨hs, fun _ _ => ⟨rfl, rfl⟩⟩ (.inl rfl)
  · have hmirrors : t.strList = t.strs ↔ s.datas.count data = 1 := by
      rw [hstrList, hstrs, hs, strs, eq_comm]
      exact List.map_update_eq_set_iff hdata (Ne.symm htext)
    rw [or_iff_right htext, ← hmirrors]
    constructor
    · rintro ⟨heq, hedits⟩
      refine ⟨?_, heq⟩
      by_contra hne
      have hsame := (hedits c hne).1
      rw [hnew, hold] at hsame
      exact htext (Option.some.inj hsame)
    · rintro ⟨hfocus, heq⟩
      refine ⟨heq, fun i hi => ?_⟩
      have hci : c ≠ i := by
        rintro rfl
        exact hi hfocus
      have hsame : t.strList[i]? = s.strList[i]? := by rw [hstrList, List.getElem?_set_ne hci]
      exact ⟨hsame, heq ▸ hs ▸ hsame⟩

theorem edit_cases (h : s.Mirrors) {text : JString} (ht : s.step (.edit text) = some t) :
    (∃ (c : ℕ) (data : DataId), s.checkPos = c ∧ s.datas[c]? = some data ∧ t.crashed = false ∧
      t.strList = s.strList.set c text ∧ t.strs = s.datas.map (Function.update s.str data text)) ∨
    (∀ (c : ℕ) (data : DataId), s.checkPos = c → s.datas[c]? ≠ some data) ∧ t.crashed = true := by
  have hcrashed := h.1
  rw [step, hcrashed] at ht
  obtain ⟨p1, _, rfl⟩ := Option.map_eq_some_iff.mp ht
  by_cases hd : ∃ (c : ℕ) (data : DataId), s.checkPos = c ∧ s.datas[c]? = some data
  · obtain ⟨c, data, hc, hdata⟩ := hd
    rw [afterTextChanged_ok (s := s.setText p1 text) h hc hdata text]
    exact .inl ⟨c, data, hc, hdata, hcrashed, rfl, rfl⟩
  · have hnone : ∀ (c : ℕ) (data : DataId), s.checkPos = c → s.datas[c]? ≠ some data :=
      fun c data hc hdata => hd ⟨c, data, hc, hdata⟩
    obtain ⟨e, herror⟩ := afterTextChanged_error (s := s.setText p1 text) h.2.1 hnone text
    rw [herror]
    exact .inr ⟨hnone, rfl⟩

theorem mirrors_edit (h : s.Mirrors) {text : JString} (ht : s.step (.edit text) = some t) :
    t.Mirrors ∧ s.EditsFocused (.edit text) ↔ s.MayAct (.edit text) := by
  rw [editsFocused_iff ht, mirrors_iff]
  rcases edit_cases h ht with ⟨c, data, hc, hdata, hcrashed, hstrList, hstrs⟩ | ⟨hnone, hcrashed⟩
  · rw [and_iff_right hcrashed, edit_iff (mirrors_iff.mp h).2 hdata hstrList hstrs]
    constructor
    · exact fun hcond => ⟨c, data, hc, hdata, hcond⟩
    · rintro ⟨c', data', hc', hdata', hcond⟩
      obtain rfl : c' = c := Int.ofNat_inj.mp (hc'.symm.trans hc)
      cases hdata'.symm.trans hdata
      exact hcond
  · rw [hcrashed]
    refine iff_of_false (fun hm => absurd hm.1.1 (by decide)) ?_
    rintro ⟨c, data, hc, hdata, _⟩
    exact hnone c data hc hdata

/-! ## One step -/

theorem editsFocused_of_ne {e : Event} (he : ∀ text, e ≠ .edit text) : s.EditsFocused e :=
  fun text htext => absurd htext (he text)

theorem mirrors_step (e : Event) (h : s.Mirrors) (hs : s.step e = some t) :
    t.Mirrors ∧ s.EditsFocused e ↔ s.MayAct e := by
  have hstep := hs
  rw [step.eq_def, h.1] at hstep
  cases e with
  | edit text => exact mirrors_edit h hs
  | addData data =>
      cases hstep
      rw [and_iff_left (editsFocused_of_ne (by simp))]
      exact mirrors_addData h data
  | removeData position =>
      obtain ⟨_, ⟨⟩⟩ := Option.ite_none_right_eq_some.mp hstep
      exact iff_of_true ⟨mirrors_removeData h position, editsFocused_of_ne (by simp)⟩ trivial
  | setModify value =>
      cases hstep
      exact iff_of_true ⟨h, editsFocused_of_ne (by simp)⟩ trivial
  | layout =>
      obtain ⟨_, ⟨⟩⟩ := Option.ite_none_right_eq_some.mp hstep
      exact iff_of_true ⟨mirrors_layout h, editsFocused_of_ne (by simp)⟩ trivial
  | focus p1 =>
      dsimp only at hstep
      split at hstep
      · cases hstep
      · split at hstep
        · obtain ⟨_, ⟨⟩⟩ := Option.ite_none_right_eq_some.mp hstep
          exact iff_of_true ⟨h, editsFocused_of_ne (by simp)⟩ trivial
        · cases hstep

/-- The lists say the same in the runs in which nothing is added with a text, and each edit goes to the
object of the focused row alone; and in no others. -/
theorem lists_mirror_iff (str : DataId → JString) (datas : List DataId) (events : List Event) :
    Always step Mirrors (new str datas) events ∧ Each step EditsFocused (new str datas) events ↔
      Each step MayAct (new str datas) events :=
  always_and_each_iff (fun _ e _ h hs => mirrors_step e h hs) (mirrors_new str datas) events

/-- The object that is added has a text. -/
theorem added_text_missing : ¬ (Always step Mirrors (new (fun _ => jstring "x") []) [.addData 0] ∧
    Each step EditsFocused (new (fun _ => jstring "x") []) [.addData 0]) := by
  intro h
  exact absurd h.1 (by decide)

end MyAdapter

end MyDemo.Recyclerview

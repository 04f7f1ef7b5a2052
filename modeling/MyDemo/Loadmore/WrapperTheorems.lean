import MyDemo.Loadmore.LoadmoreAdapter

/-!
# What the app's adapter is asked for through the one around it
-/

namespace MyDemo.Loadmore

open MyDemo.Sort (wrap wrap_eq wrap_of_le)

variable {View : Type}

/-- The calls for one row of the app's adapter. -/
def itemCalls (viewType position : ℤ) : List (Call View) :=
  [.onCreateViewHolder viewType, .onBindViewHolder (.item viewType) position]

theorem Adapter.walk_eq (m : Adapter) (list : LRecyclerView) :
    m.walk (⟨list, [], []⟩ : Walk View) =
      ⟨list, (List.range m.itemCount).map (fun (i : ℕ) => .item (m.getItemViewType i)),
        (List.range m.itemCount).flatMap (fun (i : ℕ) => itemCalls (m.getItemViewType i) i)⟩ := by
  rw [walk]
  induction m.itemCount with
  | zero => rfl
  | succ n ih =>
      rw [List.range_succ, List.foldl_append, ih, List.map_append, List.flatMap_append]
      simp [row, onCreateViewHolder, onBindViewHolder, itemCalls]

namespace LoadmoreAdapter

/-- The adapter that the list makes, with a header view added to it or not. -/
def around (m : Adapter) (header : Option View) : LoadmoreAdapter View :=
  header.elim (new m) (new m).addHeaderView

/-- How many rows come before those of the app's adapter. -/
def offset (header : Option View) : ℕ := header.toList.length

variable {m : Adapter} {header : Option View}

/-! ## One row -/

theorem getItemViewType_none (position : ℤ) : (around m none : LoadmoreAdapter View).getItemViewType position =
    if position < m.itemCount then VIEWTYPE_NORMAL else VIEWTYPE_FOOTER := rfl

theorem getItemViewType_some {headerView : View} {position : ℤ} (hpos : 0 < position) :
    (around m (some headerView)).getItemViewType position =
      if position = wrap (m.itemCount + 1) then VIEWTYPE_FOOTER else VIEWTYPE_NORMAL :=
  if_neg (c := position = 0) (by omega)

theorem row_header (headerView : View) (w : Walk View) :
    ∃ list, (around m (some headerView)).row w 0 =
      .ok ⟨list, w.rows ++ [.header headerView], w.calls⟩ := ⟨_, rfl⟩

theorem getItemViewType_item {i : ℕ} (hi : i < m.itemCount) :
    (around m header).getItemViewType (offset header + i : ℕ) = VIEWTYPE_NORMAL := by
  cases header with
  | none =>
      rw [getItemViewType_none, if_pos]
      simpa [offset] using hi
  | some headerView =>
      have hposition : ((offset (some headerView) + i : ℕ) : ℤ) = i + 1 := by simp [offset]; omega
      rw [hposition, getItemViewType_some (by omega), if_neg]
      rcases Nat.lt_or_ge (m.itemCount + 1) (2 ^ 31) with hfits | hover
      · rw [wrap_eq (by omega) (by omega)]
        omega
      · have hlt := m.itemCount_lt
        rw [wrap_of_le (by omega) (by omega)]
        omega

theorem onCreateViewHolder_normal (w : Walk View) : (around m header).onCreateViewHolder w VIEWTYPE_NORMAL =
    .ok (Adapter.onCreateViewHolder w VIEWTYPE_NORMAL) := by
  cases header <;> rfl

theorem onCreateViewHolder_footer (w : Walk View) : (around m header).onCreateViewHolder w VIEWTYPE_FOOTER =
    .ok (.footer, { w with list := w.list.createFooter }) := by
  cases header <;> rfl

theorem position_item (i : ℕ) : (if (around m header).hasHeaderView then
    ((offset header + i : ℕ) : ℤ) - 1 else (offset header + i : ℕ)) = i := by
  cases header with
  | none => simp [around, new, offset]
  | some headerView =>
      simp only [around, Option.elim_some, addHeaderView, if_true, offset, Option.toList_some, List.length_singleton]
      omega

theorem row_item (header : Option View) {i : ℕ} (hi : i < m.itemCount) (w : Walk View) :
    ∃ list, (around m header).row w (offset header + i : ℕ) =
      .ok ⟨list, w.rows ++ [.item VIEWTYPE_NORMAL], w.calls ++ itemCalls VIEWTYPE_NORMAL i⟩ := by
  refine ⟨w.list.setOnClickListener, ?_⟩
  rw [row, getItemViewType_item hi, onCreateViewHolder_normal, Exn.ok_bind]
  simp only [Adapter.onCreateViewHolder, onBindViewHolder, Adapter.onBindViewHolder, position_item,
    List.append_assoc]
  rfl

theorem getItemViewType_footer (hfits : m.itemCount + offset header + 1 < 2 ^ 31) :
    (around m header).getItemViewType (offset header + m.itemCount : ℕ) = VIEWTYPE_FOOTER := by
  cases header with
  | none =>
      rw [getItemViewType_none, if_neg]
      simp [offset]
  | some headerView =>
      have hposition : ((offset (some headerView) + m.itemCount : ℕ) : ℤ) = m.itemCount + 1 := by
        simp [offset]; omega
      rw [hposition, getItemViewType_some (by omega), if_pos]
      rw [wrap_eq (by omega) (by omega)]

theorem row_footer (m : Adapter) (header : Option View) (hfits : m.itemCount + offset header + 1 < 2 ^ 31)
    (w : Walk View) :
    ∃ list, (around m header).row w (offset header + m.itemCount : ℕ) =
      .ok ⟨list, w.rows ++ [.footer], w.calls⟩ := by
  refine ⟨w.list.createFooter.bindFooter, ?_⟩
  rw [row, getItemViewType_footer hfits, onCreateViewHolder_footer]
  rfl

/-! ## All rows -/

theorem foldlM_items (header : Option View) {n : ℕ} (hn : n ≤ m.itemCount) (w : Walk View) :
    ∃ list, (List.range n).foldlM (fun w i => (around m header).row w (offset header + i : ℕ)) w =
      .ok ⟨list, w.rows ++ (List.range n).map (fun _ => .item VIEWTYPE_NORMAL),
        w.calls ++ (List.range n).flatMap (fun (i : ℕ) => itemCalls VIEWTYPE_NORMAL i)⟩ := by
  induction n with
  | zero => exact ⟨w.list, by simp; rfl⟩
  | succ n ih =>
      obtain ⟨list, hw⟩ := ih (by omega)
      obtain ⟨list', hrow⟩ := row_item header (show n < m.itemCount by omega)
        ⟨list, w.rows ++ (List.range n).map (fun _ => .item VIEWTYPE_NORMAL),
          w.calls ++ (List.range n).flatMap (fun (i : ℕ) => itemCalls VIEWTYPE_NORMAL i)⟩
      refine ⟨list', ?_⟩
      rw [List.range_succ, List.foldlM_append, hw, Exn.ok_bind, List.foldlM_cons, hrow, Exn.ok_bind,
        List.foldlM_nil, List.map_append, List.flatMap_append]
      simp only [List.append_assoc, List.flatMap_singleton]
      rfl

theorem getItemCount_eq : (around m header).getItemCount = wrap (offset header + (m.itemCount + 1) : ℕ) := by
  cases header with
  | none => simp [getItemCount, around, new, offset]
  | some headerView =>
      simp only [getItemCount, around, Option.elim_some, addHeaderView, new, if_true, offset, Option.toList_some,
        List.length_singleton]
      congr 1
      omega

theorem foldlM_headers (m : Adapter) (header : Option View) (w : Walk View) :
    ∃ list, (List.range (offset header)).foldlM (fun w (i : ℕ) => (around m header).row w i) w =
      .ok ⟨list, w.rows ++ header.toList.map .header, w.calls⟩ := by
  cases header with
  | none => exact ⟨w.list, by simp [offset]; rfl⟩
  | some headerView => exact row_header headerView w

theorem walk_eq (hfits : offset header + (m.itemCount + 1) < 2 ^ 31) (list : LRecyclerView) :
    ∃ list', (around m header).walk ⟨list, [], []⟩ = .ok ⟨list',
      header.toList.map .header ++ (List.range m.itemCount).map (fun _ => .item VIEWTYPE_NORMAL) ++ [.footer],
      (List.range m.itemCount).flatMap (fun (i : ℕ) => itemCalls VIEWTYPE_NORMAL i)⟩ := by
  obtain ⟨list₁, hheaders⟩ := foldlM_headers m header ⟨list, [], []⟩
  obtain ⟨list₂, hitems⟩ := foldlM_items header (le_refl m.itemCount)
    ⟨list₁, [] ++ header.toList.map .header, []⟩
  obtain ⟨list₃, hfooter⟩ := row_footer m header (by omega)
    ⟨list₂, [] ++ header.toList.map .header ++ (List.range m.itemCount).map (fun _ => .item VIEWTYPE_NORMAL),
      [] ++ (List.range m.itemCount).flatMap (fun (i : ℕ) => itemCalls VIEWTYPE_NORMAL i)⟩
  refine ⟨list₃, ?_⟩
  rw [walk, getItemCount_eq, wrap_eq (by omega) (by omega), Int.toNat_natCast, List.range_add,
    List.foldlM_append, hheaders, Exn.ok_bind, List.foldlM_map, List.range_succ, List.foldlM_append, hitems,
    Exn.ok_bind, List.foldlM_cons, hfooter]
  rfl

theorem walk_overflow (hover : 2 ^ 31 ≤ offset header + (m.itemCount + 1)) (w : Walk View) :
    (around m header).walk w = .ok w := by
  have hlt := m.itemCount_lt
  have hoffset : offset header ≤ 1 := by cases header <;> simp [offset]
  rw [walk, getItemCount_eq, wrap_of_le (by omega) (by omega), Int.toNat_of_nonpos (by omega)]
  rfl

/-! ## Seen from the app's adapter -/

/-- The rows are a header row, if there is a header view, those that the app's adapter makes by itself, and
a footer row, and the app's adapter has the calls that it has by itself. -/
def Transparent (m : Adapter) (header : Option View) : Prop :=
  ∀ list, ∃ w, (around m header).walk ⟨list, [], []⟩ = .ok w ∧
    w.rows = header.toList.map .header ++ (m.walk (⟨list, [], []⟩ : Walk View)).rows ++ [.footer] ∧
    w.calls = (m.walk (⟨list, [], []⟩ : Walk View)).calls

/-- All rows are asked for with the type `VIEWTYPE_NORMAL`, whatever type the app's adapter gives them. -/
theorem transparent_iff (m : Adapter) (header : Option View) : Transparent m header ↔
    (∀ i < m.itemCount, m.getItemViewType i = VIEWTYPE_NORMAL) ∧
      offset header + (m.itemCount + 1) < 2 ^ 31 := by
  rcases Nat.lt_or_ge (offset header + (m.itemCount + 1)) (2 ^ 31) with hfits | hover
  · rw [and_iff_left hfits]
    constructor
    · intro h i hi
      obtain ⟨w, hw, hrows, _⟩ := h .new
      obtain ⟨list, hwalk⟩ := walk_eq (m := m) hfits .new
      obtain rfl := Except.ok.inj (hwalk.symm.trans hw)
      rw [Adapter.walk_eq] at hrows
      have hitems := List.append_cancel_left (List.append_cancel_right hrows)
      have hitem := List.map_inj_left.mp hitems i (List.mem_range.mpr hi)
      exact (ViewHolder.item.inj hitem).symm
    · intro h list
      obtain ⟨list', hwalk⟩ := walk_eq (m := m) hfits list
      have hrows : (List.range m.itemCount).map (fun _ => (.item VIEWTYPE_NORMAL : ViewHolder View)) =
          (List.range m.itemCount).map (fun (i : ℕ) => .item (m.getItemViewType i)) :=
        List.map_congr_left (fun i hi => by rw [h i (List.mem_range.mp hi)])
      have hcalls : (List.range m.itemCount).flatMap (fun (i : ℕ) => (itemCalls VIEWTYPE_NORMAL i : List (Call View))) =
          (List.range m.itemCount).flatMap (fun (i : ℕ) => itemCalls (m.getItemViewType i) i) :=
        List.flatMap_congr (fun i hi => by rw [h i (List.mem_range.mp hi)])
      exact ⟨_, hwalk, by rw [Adapter.walk_eq, hrows], by rw [Adapter.walk_eq, hcalls]⟩
  · constructor
    · intro h
      obtain ⟨w, hw, hrows, _⟩ := h .new
      obtain rfl := Except.ok.inj ((walk_overflow hover _).symm.trans hw)
      simp at hrows
    · rintro ⟨_, hfits⟩
      omega

/-- One row of the type `5`. -/
def oneRow : Adapter := ⟨1, by decide, fun _ => 5⟩

theorem oneRow_not_transparent : ¬ Transparent oneRow (none : Option Unit) := by
  intro h
  obtain ⟨w, hw, _, hcalls⟩ := h .new
  have hwalk : (around oneRow (none : Option Unit)).walk ⟨.new, [], []⟩ = .ok
      ⟨((LRecyclerView.new.setOnClickListener).createFooter).bindFooter, [.item 2, .footer],
        [.onCreateViewHolder 2, .onBindViewHolder (.item 2) 0]⟩ := rfl
  obtain rfl := Except.ok.inj (hwalk.symm.trans hw)
  cases hcalls

end LoadmoreAdapter

end MyDemo.Loadmore

import MyDemo.Show.PictureView

/-!
# Where the picture stands
-/

namespace MyDemo.Show

/-- The background was last set by a finger that had dragged the picture away. -/
def Faded : List Entry → Prop
  | [] => False
  | .dragged moveY :: _ => moveY ≠ 0
  | .putBack :: log => Faded log
  | .restored :: _ => False

namespace PictureView

variable {s s' t : PictureView}

theorem drag_alpha (moveY : ℚ) : (s.drag moveY).alpha = 1 ↔ moveY = 0 := by
  have hpos : (s.screenHeight : ℚ) ≠ 0 := Nat.cast_ne_zero.mpr s.screenHeight_pos.ne'
  simp [drag, hpos]

/-! ## What the operations do -/

/-- The two views differ at most in how they read the direction of a gesture. -/
structure Alike (s t : PictureView) : Prop where
  type : t.type = s.type
  moveY : t.moveY = s.moveY
  contentY : t.contentY = s.contentY
  alpha : t.alpha = s.alpha
  canHide : t.canHide = s.canHide
  animing : t.animing = s.animing
  fingerDown : t.fingerDown = s.fingerDown
  anims : t.anims = s.anims
  log : t.log = s.log

theorem Alike.refl (s : PictureView) : Alike s s := ⟨rfl, rfl, rfl, rfl, rfl, rfl, rfl, rfl, rfl⟩

theorem Alike.lock (s : PictureView) (xxx yyy : ℚ) : Alike s (s.lock xxx yyy) := by
  rw [PictureView.lock]
  split
  · exact ⟨rfl, rfl, rfl, rfl, rfl, rfl, rfl, rfl, rfl⟩
  · split
    · exact ⟨rfl, rfl, rfl, rfl, rfl, rfl, rfl, rfl, rfl⟩
    · exact Alike.refl s

theorem moveNormal_cases (s : PictureView) (yyy : ℚ) (page : PageView) :
    s.moveNormal yyy page = s ∨ s.moveNormal yyy page = s.drag (yyy - s.yy) ∨
      s.moveNormal yyy page = s.putBack := by
  rw [moveNormal]
  split
  · split
    · exact .inr (.inl rfl)
    · exact .inr (.inr rfl)
  · exact .inl rfl

theorem moveLong_cases (s : PictureView) (yyy : ℚ) (page : PageView) :
    s.moveLong yyy page = { s.drag (yyy - s.yy) with canScroll := false, canHide := true } ∨
      s.moveLong yyy page = s.putBack ∨ s.moveLong yyy page = { s with yy := yyy }.putBack := by
  rw [moveLong]
  split
  · split
    · dsimp only
      split
      · split
        · exact .inl rfl
        · exact .inr (.inl rfl)
      · exact .inr (.inr rfl)
    · exact .inr (.inl rfl)
  · exact .inr (.inl rfl)

/-- A move leaves the picture where it is, drags it so that it can be released, or puts it back. -/
theorem actionMove_cases (s : PictureView) (xxx yyy : ℚ) (page : PageView) :
    ∃ t, Alike s t ∧ (s.actionMove xxx yyy page = t ∨
      (∃ moveY, s.type = .normalPicture ∧ s.actionMove xxx yyy page = t.drag moveY) ∨
      (∃ moveY, s.type = .longPicture ∧
        s.actionMove xxx yyy page = { t.drag moveY with canScroll := false, canHide := true }) ∨
      s.actionMove xxx yyy page = t.putBack) := by
  rw [actionMove]
  split
  · have hlock := Alike.lock s xxx yyy
    cases htype : s.type with
    | normalPicture =>
        refine ⟨s.lock xxx yyy, hlock, ?_⟩
        rcases moveNormal_cases (s.lock xxx yyy) yyy page with h | h | h
        · exact .inl h
        · exact .inr (.inl ⟨_, rfl, h⟩)
        · exact .inr (.inr (.inr h))
    | longPicture =>
        rcases moveLong_cases (s.lock xxx yyy) yyy page with h | h | h
        · exact ⟨s.lock xxx yyy, hlock, .inr (.inr (.inl ⟨_, rfl, h⟩))⟩
        · exact ⟨s.lock xxx yyy, hlock, .inr (.inr (.inr h))⟩
        · exact ⟨{ s.lock xxx yyy with yy := yyy }, { hlock with }, .inr (.inr (.inr h))⟩
    | video => exact ⟨s, Alike.refl s, .inl rfl⟩
    | error => exact ⟨s, Alike.refl s, .inl rfl⟩
  · exact ⟨s, Alike.refl s, .inl rfl⟩

theorem hideAnim_cases (h : s.hideAnim = some s') :
    s.animing = true ∧ s' = s ∨
      s.animing = false ∧ s' = { s with animing := true, anims := s.anims ++ [.hideAnim] } := by
  rw [hideAnim] at h
  split at h
  · cases h
  · split at h
    · next hanim => exact .inl ⟨hanim, (Option.some.inj h).symm⟩
    · next hanim => exact .inr ⟨Bool.eq_false_iff.mpr hanim, (Option.some.inj h).symm⟩

theorem showAnim_cases (s : PictureView) :
    s.animing = true ∧ s.showAnim = s ∨
      s.animing = false ∧
        s.showAnim = { s with animing := true, visible := true, anims := s.anims ++ [.showAnim] } := by
  rw [showAnim]
  split
  · next hanim => exact .inl ⟨hanim, rfl⟩
  · next hanim => exact .inr ⟨Bool.eq_false_iff.mpr hanim, rfl⟩

/-- The picture can be released: the release starts an animation wherever it has been dragged to. -/
def Releasable (s : PictureView) : Prop :=
  s.type = .normalPicture ∨ s.type = .longPicture ∧ s.canHide = true

/-- A finger that is lifted releases the picture, or there is nothing to release. -/
theorem actionUp_cases (h : s.actionUp = some s') :
    s.moveY ≠ 0 ∧ { s with fingerDown := false }.release = some s' ∨
      s' = { s with fingerDown := false } ∧ (s.moveY = 0 ∨ ¬ s.Releasable) := by
  simp only [actionUp] at h
  cases htype : s.type with
  | normalPicture =>
      simp only [htype, abs_pos] at h
      split at h
      · next hmove => exact .inl ⟨hmove, h⟩
      · next hzero => exact .inr ⟨(Option.some.inj h).symm, .inl (not_not.mp hzero)⟩
  | longPicture =>
      simp only [htype, abs_pos] at h
      split at h
      · next hmove => exact .inl ⟨hmove.1, h⟩
      · next hzero =>
          refine .inr ⟨(Option.some.inj h).symm, ?_⟩
          by_cases hmove : s.moveY = 0
          · exact .inl hmove
          · exact .inr (by simpa [Releasable, htype, hmove] using hzero)
  | video =>
      rw [htype] at h
      exact .inr ⟨(Option.some.inj h).symm, .inr (by simp [Releasable, htype])⟩
  | error =>
      rw [htype] at h
      exact .inr ⟨(Option.some.inj h).symm, .inr (by simp [Releasable, htype])⟩

/-! ## The invariant -/

/-- Where the picture stands by the newest entry of the log. -/
def Placed (s : PictureView) : Prop :=
  match s.log with
  | .dragged moveY :: _ => s.moveY = moveY ∧ s.contentY = moveY ∧ (moveY = 0 ∨ s.Releasable)
  | .putBack :: _ => s.moveY = 0 ∧ s.contentY = 0
  | _ => s.contentY = 0

/-- At the top, it does not matter whether the picture could be released. -/
theorem Placed.of_rest (h : Placed s) (hrest : s.contentY = 0) (hmoveY : t.moveY = s.moveY)
    (hcontentY : t.contentY = s.contentY) (hlog : t.log = s.log) : Placed t := by
  rw [Placed, hmoveY, hcontentY, hlog]
  rw [Placed] at h
  split
  · next moveY log hlog =>
      rw [hlog] at h
      exact ⟨h.1, h.2.1, .inl (h.2.1.symm.trans hrest)⟩
  · next log hlog => rw [hlog] at h; exact h
  · exact hrest

/-- `faded`, `placed` and `rest` are about a view with no animation: an animation that ends sets all. -/
structure Inv (s : PictureView) : Prop where
  busy : s.animing = true → ∃ a ∈ s.anims, a ≠ .resetAnim
  faded : s.anims = [] → (s.alpha = 1 ↔ ¬ Faded s.log)
  placed : s.anims = [] → Placed s
  rest : s.anims = [] → s.fingerDown = false → s.contentY = 0

theorem Inv.idle (h : Inv s) (hanims : s.anims = []) : s.animing = false := by
  refine Bool.eq_false_iff.mpr fun hanim => ?_
  obtain ⟨a, ha, _⟩ := h.busy hanim
  rw [hanims] at ha
  cases ha

theorem Inv.of_anims (hbusy : s.animing = true → ∃ a ∈ s.anims, a ≠ .resetAnim) (hanims : s.anims ≠ []) :
    Inv s :=
  ⟨hbusy, fun h => absurd h hanims, fun h => absurd h hanims, fun h => absurd h hanims⟩

theorem Inv.new (screenHeight : ℕ) (screenHeight_pos : 0 < screenHeight) (type : PictureType) :
    Inv (new screenHeight screenHeight_pos type) where
  busy h := by cases h
  faded _ := iff_of_true rfl id
  placed _ := rfl
  rest _ _ := rfl

theorem Inv.alike (h : Inv s) (ht : Alike s t) : Inv t where
  busy := by rw [ht.animing, ht.anims]; exact h.busy
  faded := by rw [ht.anims, ht.alpha, ht.log]; exact h.faded
  placed := by
    simp only [Placed, Releasable, ht.anims, ht.log, ht.moveY, ht.contentY, ht.type, ht.canHide]
    exact h.placed
  rest := by rw [ht.anims, ht.fingerDown, ht.contentY]; exact h.rest

theorem Inv.putBack (h : Inv s) (hdown : s.fingerDown = true) : Inv s.putBack where
  busy := h.busy
  faded := h.faded
  placed _ := ⟨rfl, rfl⟩
  rest _ hup := by rw [show s.fingerDown = false from hup] at hdown; cases hdown

theorem Inv.dragged (h : Inv s) (hdown : s.fingerDown = true) (moveY : ℚ) (canScroll canHide : Bool)
    (hrel : s.type = .normalPicture ∨ s.type = .longPicture ∧ canHide = true) :
    Inv { s.drag moveY with canScroll := canScroll, canHide := canHide } where
  busy := h.busy
  faded _ := (drag_alpha moveY).trans (by simp [drag, Faded])
  placed _ := ⟨rfl, rfl, .inr hrel⟩
  rest _ hup := by rw [show s.fingerDown = false from hup] at hdown; cases hdown

theorem Inv.actionMove (h : Inv s) (hdown : s.fingerDown = true) (xxx yyy : ℚ) (page : PageView) :
    Inv (s.actionMove xxx yyy page) := by
  obtain ⟨t, ht, hcases⟩ := actionMove_cases s xxx yyy page
  have hinv : Inv t := h.alike ht
  have hdown' : t.fingerDown = true := ht.fingerDown.trans hdown
  rcases hcases with heq | ⟨moveY, htype, heq⟩ | ⟨moveY, htype, heq⟩ | heq
  · rw [heq]; exact hinv
  · rw [heq]; exact hinv.dragged hdown' moveY t.canScroll t.canHide (.inl (ht.type.trans htype))
  · rw [heq]; exact hinv.dragged hdown' moveY false true (.inr ⟨ht.type.trans htype, rfl⟩)
  · rw [heq]; exact hinv.putBack hdown'

theorem Inv.actionDown (h : Inv s) (hup : s.fingerDown = false) (x y : ℚ) : Inv (s.actionDown x y) where
  busy := h.busy
  faded := h.faded
  placed hanims := (h.placed hanims).of_rest (h.rest hanims hup) rfl rfl rfl
  rest _ hdown := by cases hdown

/-- Where there is nothing to release, the picture stands at the top, dragged nowhere since. -/
theorem Inv.unreleased (h : Inv s) (hanims : s.anims = []) (hrel : s.moveY = 0 ∨ ¬ s.Releasable) :
    s.contentY = 0 ∧ ∀ moveY log, s.log = .dragged moveY :: log → moveY = 0 := by
  have hplaced := h.placed hanims
  have hzero : ∀ moveY log, s.log = .dragged moveY :: log → moveY = 0 := by
    intro moveY log hlog
    rw [Placed, hlog] at hplaced
    rcases hrel with hmove | hnot
    · exact hplaced.1.symm.trans hmove
    · exact hplaced.2.2.resolve_right hnot
  refine ⟨?_, hzero⟩
  rw [Placed] at hplaced
  split at hplaced
  · next moveY log hlog => exact hplaced.2.1.trans (hzero moveY log hlog)
  · exact hplaced.2
  · exact hplaced

/-- A release leaves an animation that runs. -/
theorem release_anims (hbusy : s.animing = true → ∃ a ∈ s.anims, a ≠ .resetAnim)
    (h : s.release = some s') :
    (s'.animing = true → ∃ a ∈ s'.anims, a ≠ .resetAnim) ∧ s'.anims ≠ [] := by
  rw [release] at h
  split at h
  · cases h
    refine ⟨fun hanim => ?_, by simp [resetAnim]⟩
    obtain ⟨a, ha, hne⟩ := hbusy hanim
    exact ⟨a, List.mem_append_left _ ha, hne⟩
  · obtain ⟨hanim, rfl⟩ | ⟨_, rfl⟩ := hideAnim_cases h
    · obtain ⟨a, ha, _⟩ := hbusy hanim
      exact ⟨hbusy, List.ne_nil_of_mem ha⟩
    · exact ⟨fun _ => ⟨.hideAnim, by simp, by simp⟩, by simp⟩

theorem Inv.actionUp (h : Inv s) (hs : s.actionUp = some s') : Inv s' := by
  obtain ⟨_, hrelease⟩ | ⟨rfl, hrel⟩ := actionUp_cases hs
  · obtain ⟨hbusy, hanims⟩ := release_anims (s := { s with fingerDown := false }) h.busy hrelease
    exact Inv.of_anims hbusy hanims
  · exact ⟨h.busy, h.faded, h.placed, fun hanims _ => (h.unreleased hanims hrel).1⟩

theorem Inv.onAnimationUpdate (h : Inv s) {a : Animation} (ha : a ∈ s.anims) (value opacity : ℚ) :
    Inv (s.onAnimationUpdate value opacity a) := by
  cases a with
  | hideAnim => exact Inv.of_anims h.busy (List.ne_nil_of_mem ha)
  | showAnim => exact Inv.of_anims h.busy (List.ne_nil_of_mem ha)
  | resetAnim => exact Inv.of_anims h.busy (List.ne_nil_of_mem ha)

theorem Inv.onAnimationEnd (h : Inv s) {i : ℕ} {a : Animation} (hi : s.anims[i]? = some a) :
    Inv ({ s with anims := s.anims.eraseIdx i }.onAnimationEnd a) := by
  cases a with
  | hideAnim =>
      exact ⟨nofun, fun _ => iff_of_true rfl id, fun _ => rfl, fun _ _ => rfl⟩
  | showAnim =>
      exact ⟨nofun, fun _ => iff_of_true rfl id, fun _ => rfl, fun _ _ => rfl⟩
  | resetAnim =>
      refine ⟨fun hanim => ?_, fun _ => iff_of_true rfl id, fun _ => rfl, fun _ _ => rfl⟩
      obtain ⟨a, ha, hne⟩ := h.busy hanim
      obtain ⟨j, hj⟩ := List.mem_iff_getElem?.mp ha
      refine ⟨a, List.mem_eraseIdx_iff_getElem?.mpr ⟨j, ?_, hj⟩, hne⟩
      rintro rfl
      exact hne (Option.some.inj (hj.symm.trans hi))

theorem Inv.hideAnim (h : Inv s) (hs : s.hideAnim = some s') : Inv s' := by
  obtain ⟨_, rfl⟩ | ⟨_, rfl⟩ := hideAnim_cases hs
  · exact h
  · exact Inv.of_anims (fun _ => ⟨.hideAnim, by simp, by simp⟩) (by simp)

theorem Inv.showAnim (h : Inv s) : Inv s.showAnim := by
  obtain ⟨_, heq⟩ | ⟨_, heq⟩ := showAnim_cases s
  · rw [heq]; exact h
  · rw [heq]; exact Inv.of_anims (fun _ => ⟨.showAnim, by simp, by simp⟩) (by simp)

/-- The page can be turned while no finger is down: the picture stands at the top then. -/
theorem Inv.setType (h : Inv s) (hup : s.fingerDown = false) (type : PictureType) :
    Inv { s with type := type } where
  busy := h.busy
  faded := h.faded
  placed hanims := (h.placed hanims).of_rest (h.rest hanims hup) rfl rfl rfl
  rest := h.rest

theorem Inv.step {a : Action} (h : Inv s) (hs : s.step a = some s') : Inv s' := by
  cases a with
  | down x y =>
      simp only [PictureView.step] at hs
      split at hs
      · cases hs
      · next hup => cases hs; exact h.actionDown (Bool.eq_false_iff.mpr hup) x y
  | move x y page =>
      simp only [PictureView.step] at hs
      split at hs
      · next hdown => cases hs; exact h.actionMove hdown x y page
      · cases hs
  | up =>
      simp only [PictureView.step] at hs
      split at hs
      · exact h.actionUp hs
      · cases hs
  | update i value opacity =>
      simp only [PictureView.step] at hs
      split at hs
      · cases hs
      · next a ha => cases hs; exact h.onAnimationUpdate (List.mem_of_getElem? ha) value opacity
  | finish i =>
      simp only [PictureView.step] at hs
      split at hs
      · cases hs
      · next a ha => cases hs; exact h.onAnimationEnd ha
  | hide => exact h.hideAnim hs
  | «show» type =>
      simp only [PictureView.step] at hs
      split at hs
      · cases hs
      · next hup => cases hs; exact (h.setType (Bool.eq_false_iff.mpr hup) type).showAnim
  | pageSelected type =>
      simp only [PictureView.step] at hs
      split at hs
      · cases hs
      · next hup => cases hs; exact h.setType (Bool.eq_false_iff.mpr hup) type

end PictureView

end MyDemo.Show

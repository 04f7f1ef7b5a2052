import MyDemo.Files.DirActivity
import MyDemo.Lib.ListEntries

/-!
# What the scans of the directory browser do
-/

namespace MyDemo.Files

open Transition

namespace DirActivity

/-! ## What a step can do -/

theorem step_cases {s s' : DirActivity} {a : Action} (h : step s a = some s') :
    (∃ path, s' = s.scanDirectory path) ∨
      (∃ k tree scan, a = .subscribe k tree ∧ s.scans[k]? = some scan ∧ scan.status = .running ∧
        s' = s.setStatus k scan (subscribe tree scan.path)) ∨
      (∃ k scan d, a = .deliver k ∧ s.scans[k]? = some scan ∧ scan.status = .emitted d ∧
        s' = (s.setStatus k scan .shown).onNext k d) ∨
      (∃ k scan e, a = .deliver k ∧ s.scans[k]? = some scan ∧ scan.status = .thrown e ∧
        s' = s.setStatus k scan .reported) := by
  cases a with
  | onClick i =>
      simp only [step, Option.bind_eq_bind, Option.bind_eq_some_iff] at h
      obtain ⟨_, _, d, _, h⟩ := h
      exact Or.inl ⟨d.path, (Option.some.inj h).symm⟩
  | onBack =>
      simp only [step, Option.bind_eq_bind, Option.bind_eq_some_iff] at h
      obtain ⟨data, _, h⟩ := h
      split at h
      · cases h
      · exact Or.inl ⟨data.dirPath, (Option.some.inj h).symm⟩
  | subscribe k tree =>
      simp only [step, Option.bind_eq_bind, Option.bind_eq_some_iff] at h
      obtain ⟨scan, hk, h⟩ := h
      split at h
      · next hrun => exact Or.inr (Or.inl ⟨k, tree, scan, rfl, hk, hrun, (Option.some.inj h).symm⟩)
      · cases h
  | deliver k =>
      simp only [step, Option.bind_eq_bind, Option.bind_eq_some_iff] at h
      obtain ⟨scan, hk, h⟩ := h
      split at h
      · next d hd => exact Or.inr (Or.inr (Or.inl ⟨k, scan, d, rfl, hk, hd, (Option.some.inj h).symm⟩))
      · next e he => exact Or.inr (Or.inr (Or.inr ⟨k, scan, e, rfl, hk, he, (Option.some.inj h).symm⟩))
      · cases h

theorem subscribe_eq_emitted {tree : FileTree} {path : JString} {d : CarDirectory}
    (h : subscribe tree path = .emitted d) : getFileByDir tree path = .ok (some d) := by
  unfold subscribe at h
  split at h
  · next d' hd' => cases h; exact hd'
  · cases h
  · cases h

theorem subscribe_ne_shown (tree : FileTree) (path : JString) : subscribe tree path ≠ .shown := by
  unfold subscribe
  split <;> exact fun h => nomatch h

theorem getElem?_setStatus {s : DirActivity} {k j : ℕ} {scan x : Scan} {status : ScanStatus}
    (h : (s.setStatus k scan status).scans[j]? = some x) :
    (j = k ∧ x = { scan with status := status }) ∨ (j ≠ k ∧ s.scans[j]? = some x) := by
  rw [setStatus, List.getElem?_set] at h
  split at h
  · next hkj =>
      split at h
      · exact Or.inl ⟨hkj.symm, (Option.some.inj h).symm⟩
      · cases h
  · next hkj => exact Or.inr ⟨Ne.symm hkj, h⟩

theorem getElem?_scanDirectory {s : DirActivity} {path : JString} {j : ℕ} {x : Scan}
    (h : (s.scanDirectory path).scans[j]? = some x) : x = ⟨path, .running⟩ ∨ s.scans[j]? = some x := by
  rcases List.getElem?_concat_eq_some.mp h with h | ⟨_, h⟩
  · exact .inr h
  · exact .inl h.symm

theorem path_step {s s' : DirActivity} {a : Action} (h : step s a = some s') {k : ℕ} {scan : Scan}
    (hk : s.scans[k]? = some scan) : ∃ scan', s'.scans[k]? = some scan' ∧ scan'.path = scan.path := by
  have hset : ∀ {j : ℕ} {x : Scan} (status : ScanStatus), s.scans[j]? = some x →
      ∃ scan', (s.setStatus j x status).scans[k]? = some scan' ∧ scan'.path = scan.path := by
    intro j x status hj
    rw [setStatus, List.getElem?_set]
    split
    · next hjk =>
        subst hjk
        obtain rfl := Option.some.inj (hj.symm.trans hk)
        exact ⟨{ x with status := status }, if_pos (List.getElem?_eq_some_iff.mp hk).1, rfl⟩
    · exact ⟨scan, hk, rfl⟩
  rcases step_cases h with ⟨path, rfl⟩ | ⟨j, tree, x, _, hj, _, rfl⟩ | ⟨j, x, d, _, hj, _, rfl⟩ |
    ⟨j, x, e, _, hj, _, rfl⟩
  · exact ⟨scan, List.getElem?_append_left (List.getElem?_eq_some_iff.mp hk).1 ▸ hk, rfl⟩
  · exact hset _ hj
  · exact hset _ hj
  · exact hset _ hj

/-! ## The scan that is shown -/

/-- `d` is what the `k`-th scan has found for its path. -/
def Found (as : List Action) (k : ℕ) (path : JString) (d : CarDirectory) : Prop :=
  ∃ tree, .subscribe k tree ∈ as ∧ getFileByDir tree path = .ok (some d)

theorem Found.concat {as : List Action} {k : ℕ} {path : JString} {d : CarDirectory} (h : Found as k path d)
    (a : Action) : Found (as ++ [a]) k path d := by
  obtain ⟨tree, hmem, hd⟩ := h
  exact ⟨tree, List.mem_append_left _ hmem, hd⟩

/-- The list shows the record of the last scan that called `onNext`. -/
structure Inv (as : List Action) (s : DirActivity) : Prop where
  emitted : ∀ k scan d, s.scans[k]? = some scan → scan.status = .emitted d → Found as k scan.path d
  shown : ∀ k scan, s.scans[k]? = some scan → scan.status = .shown → k ∈ s.onNexts
  last : ∀ k, s.onNexts.getLast? = some k →
    ∃ scan d, s.scans[k]? = some scan ∧ Found as k scan.path d ∧ s.data = some d

theorem Inv.onCreate : Inv [] onCreate where
  emitted k scan d hk hd := by
    rcases getElem?_scanDirectory hk with rfl | hk
    · cases hd
    · cases hk
  shown k scan hk hs := by
    rcases getElem?_scanDirectory hk with rfl | hk
    · cases hs
    · cases hk
  last k hk := by cases hk

theorem Inv.last_of_unchanged {as : List Action} {s s' : DirActivity} {a : Action} (hi : Inv as s)
    (h : step s a = some s') (hnexts : s'.onNexts = s.onNexts) (hdata : s'.data = s.data) (k : ℕ)
    (hk : s'.onNexts.getLast? = some k) :
    ∃ scan d, s'.scans[k]? = some scan ∧ Found (as ++ [a]) k scan.path d ∧ s'.data = some d := by
  obtain ⟨scan, d, hscan, hfound, hd⟩ := hi.last k (hnexts ▸ hk)
  obtain ⟨scan', hscan', hpath⟩ := path_step h hscan
  exact ⟨scan', d, hscan', hpath ▸ hfound.concat a, hdata.trans hd⟩

theorem Inv.step {as : List Action} {s s' : DirActivity} {a : Action} (hi : Inv as s)
    (h : step s a = some s') : Inv (as ++ [a]) s' := by
  rcases step_cases h with ⟨path, rfl⟩ | ⟨j, tree, x, rfl, hj, hrun, rfl⟩ | ⟨j, x, d, rfl, hj, hd, rfl⟩ |
    ⟨j, x, e, rfl, hj, he, rfl⟩
  · refine ⟨fun k scan d hk hd => ?_, fun k scan hk hs => ?_, hi.last_of_unchanged h rfl rfl⟩
    · rcases getElem?_scanDirectory hk with rfl | hk
      · cases hd
      · exact (hi.emitted k scan d hk hd).concat a
    · rcases getElem?_scanDirectory hk with rfl | hk
      · cases hs
      · exact hi.shown k scan hk hs
  · refine ⟨fun k scan d hk hd => ?_, fun k scan hk hs => ?_, hi.last_of_unchanged h rfl rfl⟩
    · rcases getElem?_setStatus hk with ⟨rfl, rfl⟩ | ⟨_, hk⟩
      · exact ⟨tree, by simp, subscribe_eq_emitted hd⟩
      · exact (hi.emitted k scan d hk hd).concat _
    · rcases getElem?_setStatus hk with ⟨rfl, rfl⟩ | ⟨_, hk⟩
      · exact absurd hs (subscribe_ne_shown tree x.path)
      · exact hi.shown k scan hk hs
  · refine ⟨fun k scan d' hk hd' => ?_, fun k scan hk hs => ?_, fun k hk => ?_⟩
    · rcases getElem?_setStatus hk with ⟨rfl, rfl⟩ | ⟨_, hk⟩
      · cases hd'
      · exact (hi.emitted k scan d' hk hd').concat _
    · rcases getElem?_setStatus hk with ⟨rfl, rfl⟩ | ⟨_, hk⟩
      · exact List.mem_append_right _ (List.mem_singleton_self k)
      · exact List.mem_append_left _ (hi.shown k scan hk hs)
    · obtain rfl : j = k := by simpa [onNext] using hk
      obtain ⟨scan', hscan', hpath⟩ := path_step h hj
      exact ⟨scan', d, hscan', hpath ▸ (hi.emitted j x d hj hd).concat _, rfl⟩
  · refine ⟨fun k scan d hk hd => ?_, fun k scan hk hs => ?_, hi.last_of_unchanged h rfl rfl⟩
    · rcases getElem?_setStatus hk with ⟨rfl, rfl⟩ | ⟨_, hk⟩
      · cases hd
      · exact (hi.emitted k scan d hk hd).concat _
    · rcases getElem?_setStatus hk with ⟨rfl, rfl⟩ | ⟨_, hk⟩
      · cases hs
      · exact hi.shown k scan hk hs

theorem inv_run {as : List Action} {s : DirActivity} (h : run DirActivity.step onCreate as = some s) :
    Inv as s :=
  run_history (I := Inv) Inv.onCreate (fun _ _ _ _ _ hi hstep => hi.step hstep) h

theorem scans_run {as : List Action} {s : DirActivity} (h : run DirActivity.step onCreate as = some s) :
    ∃ scan, s.scans[0]? = some scan :=
  run_keeps (I := fun t => ∃ scan, t.scans[0]? = some scan)
    (fun _ _ _ ⟨_, hscan⟩ hstep => (path_step hstep hscan).imp fun _ hscan' => hscan'.1) ⟨_, rfl⟩ h

end DirActivity

end MyDemo.Files

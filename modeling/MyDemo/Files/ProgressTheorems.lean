import MyDemo.Files.DirTheorems

/-!
# The progress bar of the directory browser
-/

namespace MyDemo.Files

open Transition

/-- The main thread has been told of the scan's success or failure. -/
def ScanStatus.isTerminated : ScanStatus → Bool
  | .shown | .reported => true
  | .running | .emitted _ | .thrown _ => false

namespace DirActivity

/-- A call of `scanDirectory`, wherever it comes from, or a step of the `k`-th scan. -/
inductive Event where
  | scanDirectory (path : JString)
  | subscribe (k : ℕ) (tree : FileTree)
  | deliver (k : ℕ)

def handle (s : DirActivity) : Event → Option DirActivity
  | .scanDirectory path => some (s.scanDirectory path)
  | .subscribe k tree => s.step (.subscribe k tree)
  | .deliver k => s.step (.deliver k)

theorem handle_of_step {s s' : DirActivity} {a : Action} (h : s.step a = some s') :
    ∃ e, s.handle e = some s' := by
  cases a with
  | subscribe k tree => exact ⟨.subscribe k tree, h⟩
  | deliver k => exact ⟨.deliver k, h⟩
  | onClick i =>
      simp only [step, Option.bind_eq_bind, Option.bind_eq_some_iff] at h
      obtain ⟨_, _, d, _, h⟩ := h
      exact ⟨.scanDirectory d.path, h⟩
  | onBack =>
      simp only [step, Option.bind_eq_bind, Option.bind_eq_some_iff] at h
      obtain ⟨data, _, h⟩ := h
      split at h
      · cases h
      · exact ⟨.scanDirectory data.dirPath, h⟩

/-- What the user does to the list is among the calls. -/
theorem events_of_run {as : List Action} {s s' : DirActivity} (h : run step s as = some s') :
    ∃ events, run handle s events = some s' := by
  induction as generalizing s with
  | nil => exact ⟨[], h⟩
  | cons a as ih =>
      obtain ⟨t, ht, hrest⟩ := run_cons_eq_some.mp h
      obtain ⟨e, he⟩ := handle_of_step ht
      obtain ⟨events, hevents⟩ := ih hrest
      exact ⟨e :: events, run_cons_eq_some.mpr ⟨t, he, hevents⟩⟩

/-! ## Scans under way -/

def Pending (scans : List Scan) : Prop := ∃ scan ∈ scans, scan.status.isTerminated = false

instance (scans : List Scan) : Decidable (Pending scans) := inferInstanceAs (Decidable (∃ _ ∈ _, _))

theorem pending_iff {scans : List Scan} {k : ℕ} {scan : Scan} (h : scans[k]? = some scan) :
    Pending scans ↔ scan.status.isTerminated = false ∨ Pending (scans.eraseIdx k) := by
  obtain ⟨hk, rfl⟩ := List.getElem?_eq_some_iff.mp h
  have hperm := List.getElem_cons_eraseIdx_perm hk
  simp only [Pending, ← hperm.mem_iff, List.exists_mem_cons_iff]

theorem pending_setStatus {s : DirActivity} {k : ℕ} {scan : Scan} (h : s.scans[k]? = some scan)
    (status : ScanStatus) : Pending (s.setStatus k scan status).scans ↔
      status.isTerminated = false ∨ Pending (s.scans.eraseIdx k) := by
  obtain ⟨hk, _⟩ := List.getElem?_eq_some_iff.mp h
  have hget : (s.setStatus k scan status).scans[k]? = some { scan with status := status } :=
    List.getElem?_set_self hk
  rw [pending_iff hget, setStatus, List.eraseIdx_set_eq]

/-! ## What the bar shows -/

def Indicates (s : DirActivity) : Prop := s.progressBar = true ↔ Pending s.scans

instance (s : DirActivity) : Decidable s.Indicates := inferInstanceAs (Decidable (_ ↔ _))

/-- A success is delivered as the last of the scans under way, a failure not as the last. -/
def Closes (s : DirActivity) : Event → Prop
  | .deliver k =>
      match s.scans[k]? with
      | some ⟨_, .emitted _⟩ => ¬ Pending (s.scans.eraseIdx k)
      | some ⟨_, .thrown _⟩ => Pending (s.scans.eraseIdx k)
      | _ => True
  | _ => True

theorem isTerminated_subscribe (tree : FileTree) (path : JString) :
    (subscribe tree path).isTerminated = false := by
  unfold subscribe
  split <;> rfl

theorem indicates_step {s s' : DirActivity} {e : Event} (hs : s.Indicates) (h : s.handle e = some s') :
    s'.Indicates ↔ s.Closes e := by
  cases e with
  | scanDirectory path =>
      obtain rfl := Option.some.inj h
      have hpending : Pending (s.scanDirectory path).scans :=
        ⟨⟨path, .running⟩, List.mem_append_right _ (List.mem_singleton_self _), rfl⟩
      simp only [Closes, iff_true]
      exact ⟨fun _ => hpending, fun _ => rfl⟩
  | subscribe k tree =>
      simp only [handle, step, Option.bind_eq_bind, Option.bind_eq_some_iff] at h
      obtain ⟨scan, hk, h⟩ := h
      split at h
      · next hrun =>
          obtain rfl := Option.some.inj h
          have hbefore := pending_iff hk
          rw [hrun] at hbefore
          have hafter := pending_setStatus hk (subscribe tree scan.path)
          rw [isTerminated_subscribe] at hafter
          simp only [Closes, iff_true]
          exact hs.trans (hbefore.trans hafter.symm)
      · cases h
  | deliver k =>
      simp only [handle, step, Option.bind_eq_bind, Option.bind_eq_some_iff] at h
      obtain ⟨⟨path, status⟩, hk, h⟩ := h
      have hbefore := pending_iff hk
      split at h
      · next d hd =>
          cases hd
          obtain rfl := Option.some.inj h
          have hafter := pending_setStatus hk .shown
          simp only [ScanStatus.isTerminated, reduceCtorEq, false_or] at hafter
          simp only [Closes, hk, ← hafter]
          simp [Indicates, onNext, setUI]
      · next x hx =>
          cases hx
          obtain rfl := Option.some.inj h
          have hafter := pending_setStatus hk .reported
          simp only [ScanStatus.isTerminated, reduceCtorEq, false_or] at hafter
          have hbar : s.progressBar = true := hs.mpr (hbefore.mpr (Or.inl rfl))
          simp only [Closes, hk, ← hafter]
          simp [Indicates, setStatus, hbar]
      · cases h

/-- For every sequence of calls and every order in which the scans end: the bar tells in every state
whether a scan is under way exactly where each success comes last and no failure does. -/
theorem progressBar_indicates_iff (events : List Event) :
    Always handle Indicates onCreate events ↔ Each handle Closes onCreate events :=
  always_iff_each_of_keeps (I := fun _ => True) (fun _ _ _ _ _ => trivial)
    (fun _ _ _ _ hs h => indicates_step hs h) trivial (by decide) events

def noDirs : FileTree where
  root := .dir true []
  valid := .dir (by decide) (by decide) (fun e he => absurd he List.not_mem_nil)

/-- `/a` is tapped, and is gone when its scan looks at it. -/
theorem progressBar_stays : ¬ Always handle Indicates onCreate
    [.subscribe 0 twoDirs, .deliver 0, .scanDirectory (jstring "/a"), .subscribe 1 noDirs, .deliver 1] := by
  decide

end DirActivity

end MyDemo.Files

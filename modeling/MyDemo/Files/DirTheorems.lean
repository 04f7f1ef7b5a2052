import MyDemo.Files.Lemmas.Browser

/-!
# What the directory browser shows
-/

namespace MyDemo.Files

open Transition

namespace DirActivity

/-! ## Overlapping scans -/

instance (status : ScanStatus) : Decidable (status = .shown) :=
  match status with
  | .shown => .isTrue rfl
  | .running | .emitted _ | .thrown _ | .reported => .isFalse (fun h => nomatch h)

/-- When all scans have come to an end and none has failed, the list shows what the one that called
`onNext` last has found: the most recent request, if that was its scan. -/
theorem shows_last_delivered {as : List Action} {s : DirActivity}
    (h : run DirActivity.step onCreate as = some s) (hdone : ∀ scan ∈ s.scans, scan.status = .shown) :
    (∃ k scan d, s.onNexts.getLast? = some k ∧ s.scans[k]? = some scan ∧ Found as k scan.path d ∧
      s.data = some d) ∧
    (s.onNexts.getLast? = some (s.scans.length - 1) → ∃ scan d, s.scans.getLast? = some scan ∧
      Found as (s.scans.length - 1) scan.path d ∧ s.data = some d) := by
  have hinv := inv_run h
  constructor
  · obtain ⟨scan, hscan⟩ := scans_run h
    have hmem := hinv.shown 0 scan hscan (hdone scan (List.mem_of_getElem? hscan))
    obtain ⟨k, hk⟩ := List.getLast?_isSome.mpr (List.ne_nil_of_mem hmem) |> Option.isSome_iff_exists.mp
    obtain ⟨scan, d, hscan, hfound, hd⟩ := hinv.last k hk
    exact ⟨k, scan, d, hk, hscan, hfound, hd⟩
  · intro hlast
    rw [List.getLast?_eq_getElem?]
    exact hinv.last _ hlast

def twoDirs : FileTree where
  root := .dir true [(jstring "a", .dir true []), (jstring "b", .dir true [])]
  valid := by
    have hempty : (Node.dir true []).Valid :=
      .dir (by decide) (by decide) (fun e he => absurd he List.not_mem_nil)
    refine .dir (by decide) (by decide) (fun e he => ?_)
    rcases List.mem_pair.mp he with rfl | rfl <;> exact hempty

/-- The root is shown; `/a` and `/b` are tapped, and `/b` is found first. -/
def overtaken : List Action :=
  [.subscribe 0 twoDirs, .deliver 0, .onClick 0, .onClick 1, .subscribe 2 twoDirs, .deliver 2,
    .subscribe 1 twoDirs, .deliver 1]

theorem shows_last_delivered_overtaken : ∃ s, run DirActivity.step onCreate overtaken = some s ∧
    (∃ k scan d, s.onNexts.getLast? = some k ∧ s.scans[k]? = some scan ∧ Found overtaken k scan.path d ∧
      s.data = some d) ∧
    (s.onNexts.getLast? = some (s.scans.length - 1) → ∃ scan d, s.scans.getLast? = some scan ∧
      Found overtaken (s.scans.length - 1) scan.path d ∧ s.data = some d) := by
  have hdone : (run DirActivity.step onCreate overtaken).map (fun s =>
      decide (∀ scan ∈ s.scans, scan.status = .shown)) = some true := by decide
  obtain ⟨s, hs, hdone⟩ := Option.map_eq_some_iff.mp hdone
  exact ⟨s, hs, shows_last_delivered hs (of_decide_eq_true hdone)⟩

theorem overtaken_request_not_shown : ∃ s, run DirActivity.step onCreate overtaken = some s ∧
    (∀ scan ∈ s.scans, scan.status = .shown) ∧ s.scans.getLast?.map Scan.path = some (jstring "/b") ∧
    s.data.map CarDirectory.path = some (jstring "/a") ∧
    getFileByDir twoDirs (jstring "/b") ≠ .ok s.data := by
  have hview : (run DirActivity.step onCreate overtaken).map (fun s =>
      (decide (∀ scan ∈ s.scans, scan.status = .shown), s.scans.getLast?.map Scan.path,
        s.data.map CarDirectory.path)) = some (true, some (jstring "/b"), some (jstring "/a")) := by
    decide
  obtain ⟨s, hs, hview⟩ := Option.map_eq_some_iff.mp hview
  obtain ⟨hdone, hview⟩ := Prod.mk.inj hview
  obtain ⟨hlast, hdata⟩ := Prod.mk.inj hview
  refine ⟨s, hs, of_decide_eq_true hdone, hlast, hdata, fun hb => ?_⟩
  have hpath : (getFileByDir twoDirs (jstring "/b")).toOption.join.map CarDirectory.path =
      some (jstring "/b") := by decide
  rw [hb] at hpath
  exact absurd (hdata.symm.trans hpath) (by decide)

end DirActivity

end MyDemo.Files

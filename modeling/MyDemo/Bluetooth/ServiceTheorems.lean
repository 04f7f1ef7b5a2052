import MyDemo.Bluetooth.Lemmas.History
import MyDemo.Bluetooth.Lemmas.Lifecycle

/-!
# What the service guarantees about its connections

The results are about every run of `step` from the new service: any order of calls, of answers of the
sockets and of passes of the threads.
-/

namespace MyDemo.Bluetooth

open Transition

/-! ## Truthful connection state -/

/-- The actions that would report a lost connection while there is one: `start`, a failed attempt, and
an `IOException` of any thread but the connected one. -/
def KeepsTruth : Except Exn Service → Action → Prop
  | .ok s, .start | .ok s, .connectThrows _ | .ok s, .callStart _ => ¬ s.Live
  | .ok s, .read i p => p.result.isIOException = true → s.Live → s.current = some i
  | _, _ => True

/-- `mState` stays truthful in exactly the runs that have none of these actions. -/
theorem truthful_iff (as : List Action) (hA : ∀ a ∈ as, a ≠ .stop) :
    Always step Truthful (.ok Service.new) as ↔ Each step KeepsTruth (.ok Service.new) as := by
  refine always_iff_each (I := Running) (fun w a w' ha h hw => h.step ha hw) ?_ hA Running.new ?_
  · intro w a w' ha hI hP hw
    obtain ⟨s, r, rfl, hr, _⟩ := hI
    obtain ⟨s', rfl, hr'⟩ := hr.act ha hw
    rw [hr'.truthful, Register.truthful_apply (hr.truthful.mp hP)]
    cases a <;> simp only [Action.effect, KeepsTruth, hr.live, hr.current]
  · constructor
    · intro h; cases h
    · rintro ⟨t, c, ht, _⟩; cases ht

theorem stale_reader_lies :
    ¬ Always step Truthful (.ok Service.new)
      [.connect, .connectReturns 0, .callConnected 0, .connect, .connectReturns 1, .callConnected 1,
        .read 0 ⟨.ioException, 0⟩] := by
  intro h
  have htruth := always_iff.mp h _ _ (List.prefix_refl _) rfl
  cases htruth.mpr ⟨1, ⟨1, false, []⟩, rfl, rfl, rfl, rfl⟩

theorem truthful_iff_one_connection :
    Always step Truthful (.ok Service.new) [.connect, .connectReturns 0, .callConnected 0] ↔
      Each step KeepsTruth (.ok Service.new) [.connect, .connectReturns 0, .callConnected 0] :=
  truthful_iff _ (by simp)

/-! ## One live connection -/

/-- The service holds at most one live connection in exactly the runs where a `connect` lies between
any two calls of `connected`. -/
theorem single_iff (as : List Action) (hA : ∀ a ∈ as, a ≠ .stop)
    (hrun : (run step (.ok Service.new) as).isSome) :
    Always step Single (.ok Service.new) as ↔
      ∀ xs a ys b zs, as = xs ++ a :: (ys ++ b :: zs) → a.IsConnected → b.IsConnected →
        .connect ∈ ys := by
  have hguard : Always step Single (.ok Service.new) as ↔
      Each step (fun w b => ∀ s, w = .ok s → b.IsConnected → s.current = none)
        (.ok Service.new) as := by
    refine always_iff_each (I := Running) (fun w a w' ha h hw => h.step ha hw) ?_ hA Running.new ?_
    · intro w a w' ha hI hP hw
      obtain ⟨s, r, rfl, hr, hh⟩ := hI
      obtain ⟨s', rfl, hr'⟩ := hr.act ha hw
      rw [hr'.single, Register.single_apply hh (hr.single.mp hP)]
      simp [hr.current, Action.isConnected_iff]
    · intro t c hc; cases hc
  rw [hguard, each_iff]
  constructor
  · intro h xs a ys b zs he ha hb
    by_contra hys
    have hsplit : as = (xs ++ a :: ys) ++ b :: zs := by simp [he]
    obtain ⟨w', hw'⟩ := Option.isSome_iff_exists.mp hrun
    rw [hsplit] at hw'
    obtain ⟨w, hw, hbz⟩ := run_append.mp hw'
    obtain ⟨u, hu, _⟩ := run_cons_eq_some.mp hbz
    have hApre : ∀ c ∈ xs ++ a :: ys, c ≠ .stop :=
      fun c hc => hA c (hsplit ▸ List.mem_append_left _ hc)
    obtain ⟨s, r, rfl, _⟩ := run_invariant (I := Running) (fun w a w' ha h hw => h.step ha hw)
      hApre Running.new hw
    have hnone := h (xs ++ a :: ys) b _ u ⟨zs, by simp [he]⟩ hw hu s rfl hb
    exact (slot_iff_occupied hApre hw).mpr ⟨xs, a, ys, rfl, ha, hys⟩ hnone
  · rintro h pre b w u ⟨zs, hzs⟩ hw hu s rfl hb
    by_contra hne
    have hApre : ∀ c ∈ pre, c ≠ .stop := fun c hc => hA c (by simp [← hzs, hc])
    obtain ⟨xs, a, ys, rfl, ha, hys⟩ := (slot_iff_occupied hApre hw).mp hne
    exact hys (h xs a ys b zs (by simp [← hzs]) ha hb)

theorem single_iff_reconnect :
    Always step Single (.ok Service.new) [.connect, .connectReturns 0, .callConnected 0, .connect] ↔
      ∀ xs a ys b zs, [Action.connect, .connectReturns 0, .callConnected 0, .connect] =
        xs ++ a :: (ys ++ b :: zs) → a.IsConnected → b.IsConnected → .connect ∈ ys :=
  single_iff _ (by simp) rfl

theorem overlapping_attempts_leak :
    ¬ Always step Single (.ok Service.new)
      [.connect, .connect, .connectReturns 0, .callConnected 0, .connectReturns 1,
        .callConnected 1] := by
  intro h
  have hsingle := always_iff.mp h _ _ (List.prefix_refl _) rfl
  cases hsingle 0 ⟨1, false, []⟩ rfl rfl

/-! ## Lifecycle -/

/-- The service keeps its lifecycle in exactly the runs whose actions all do: see `KeepsLifecycle`. -/
theorem lifecycle_iff (as : List Action) :
    Always watchStep Lifecycle Watch.new as ↔ Each watchStep KeepsLifecycle Watch.new as := by
  refine always_iff_each_of_keeps (I := Watch.Tracked) (fun w a w' h hw => h.step hw)
    (fun w a w' hT hP hw => lifecycle_step hT hP hw) Watch.Tracked.new ?_ as
  exact ⟨Service.new, rfl, by intro s₀ hs₀; cases hs₀⟩

theorem stop_before_any_connection : ¬ Always watchStep Lifecycle Watch.new [.stop] := by
  intro h
  exact lifecycle_error (always_iff.mp h _ _ (List.prefix_refl _) rfl)

end MyDemo.Bluetooth

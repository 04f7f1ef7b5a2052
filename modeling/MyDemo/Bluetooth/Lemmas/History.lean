import MyDemo.Bluetooth.Lemmas.Truthful
import MyDemo.Lib.Transition
import Mathlib.Data.List.Induction

/-!
# Runs of a service that is not stopped
-/

namespace MyDemo.Bluetooth

open Transition

def Service.Live (s : Service) : Prop :=
  ∃ t c, s.current = some t ∧ s.connectedThreads[t]? = some c ∧ c.cancelled = false ∧
    c.readFailed = false

/-- The service runs, and `mState` says whether it is connected. -/
def Truthful : Except Exn Service → Prop
  | .ok s => s.mState = .connected ↔ s.Live
  | .error _ => False

/-- The service runs, and each of its threads that is not cancelled is the one in the slot. -/
def Single : Except Exn Service → Prop
  | .ok s => ∀ t c, s.connectedThreads[t]? = some c → c.cancelled = false → s.current = some t
  | .error _ => False

def Running (w : Except Exn Service) : Prop := ∃ s r, w = .ok s ∧ Refines s r ∧ r.Held

theorem Running.new : Running (.ok Service.new) :=
  ⟨_, _, rfl, Refines.new, by intro t ht; cases ht⟩

theorem Running.step {w w' : Except Exn Service} {a : Action} (ha : a ≠ .stop) (h : Running w)
    (hw : step w a = some w') : Running w' := by
  obtain ⟨s, r, rfl, hr, hh⟩ := h
  obtain ⟨s', rfl, hr'⟩ := hr.act ha hw
  exact ⟨s', _, rfl, hr', Register.held_apply hh _⟩

theorem Refines.live {s : Service} {r : Register} (h : Refines s r) : s.Live ↔ r.Live := by
  simp only [Service.Live, Register.Live, h.current, h.threads]

theorem Refines.truthful {s : Service} {r : Register} (h : Refines s r) :
    Truthful (.ok s) ↔ r.Truthful := by
  simp only [Truthful, Register.Truthful, h.mState, h.live]

theorem Refines.single {s : Service} {r : Register} (h : Refines s r) :
    Single (.ok s) ↔ r.Single := by
  simp only [Single, Register.Single, h.current, h.threads]

/-! ## The history behind the slot -/

def Action.IsConnected : Action → Prop
  | .connected | .callConnected _ => True
  | _ => False

theorem Action.isConnected_iff {a : Action} : a.IsConnected ↔ a.effect = .attach := by
  cases a <;> simp [IsConnected, effect]

/-- There was a call of `connected`, and no `connect` since. -/
def Occupied (as : List Action) : Prop :=
  ∃ xs a ys, as = xs ++ a :: ys ∧ a.IsConnected ∧ .connect ∉ ys

theorem occupied_concat {as : List Action} {b : Action} :
    Occupied (as ++ [b]) ↔ b.IsConnected ∨ b ≠ .connect ∧ Occupied as := by
  constructor
  · rintro ⟨xs, a, ys, he, ha, hys⟩
    rcases List.eq_nil_or_concat ys with rfl | ⟨ys, c, rfl⟩
    · obtain ⟨_, he⟩ := List.append_inj' he rfl
      cases he; exact .inl ha
    · rw [List.concat_eq_append, ← List.cons_append, ← List.append_assoc] at he
      obtain ⟨rfl, hb⟩ := List.append_inj' he rfl
      obtain rfl := List.singleton_inj.mp hb
      simp only [List.concat_eq_append, List.mem_append, List.mem_singleton, not_or] at hys
      exact .inr ⟨fun h => hys.2 h.symm, xs, a, ys, rfl, ha, hys.1⟩
  · rintro (hb | ⟨hb, xs, a, ys, rfl, ha, hys⟩)
    · exact ⟨as, b, [], rfl, hb, by simp⟩
    · refine ⟨xs, a, ys ++ [b], by simp, ha, ?_⟩
      simp only [List.mem_append, List.mem_singleton, not_or]
      exact ⟨hys, fun h => hb h.symm⟩

theorem slot_iff_occupied {as : List Action} (hA : ∀ a ∈ as, a ≠ .stop) {s : Service}
    (h : run step (.ok Service.new) as = some (.ok s)) : s.current ≠ none ↔ Occupied as := by
  induction as using List.reverseRecOn generalizing s with
  | nil =>
      cases h
      constructor
      · intro hne; exact absurd rfl hne
      · rintro ⟨xs, a, ys, he, _⟩; simp at he
  | append_singleton as b ih =>
      have hAas : ∀ a ∈ as, a ≠ .stop := fun a ha => hA a (by simp [ha])
      obtain ⟨w, has, hb⟩ := run_append.mp h
      obtain ⟨s₀, r, rfl, hr, _⟩ := run_invariant (I := Running) (fun w a w' ha h hw => h.step ha hw)
        hAas Running.new has
      have hstep : step (.ok s₀) b = some (.ok s) := by simpa [run] using hb
      obtain ⟨s', hs', hr'⟩ := hr.act (hA b (by simp)) hstep
      cases hs'
      have hslot := ih hAas has
      rw [hr.current] at hslot
      rw [hr'.current, occupied_concat, ← hslot, Action.isConnected_iff]
      cases b <;> simp [Action.effect, Register.apply]

end MyDemo.Bluetooth

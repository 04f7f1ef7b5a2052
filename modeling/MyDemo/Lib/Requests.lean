import Mathlib.Data.List.Basic

/-!
# One request at a time

A log, the newest entry first, of requests, of completions and of other things.
-/

namespace Requests

variable {ε : Type*} (request completion : ε → Prop)

def Outstanding : List ε → Prop
  | [] => False
  | e :: log => request e ∨ ¬ completion e ∧ Outstanding log

/-- Between two requests there is a completion. -/
def OneAtATime (log : List ε) : Prop :=
  ∀ newer e between e' older, log = newer ++ e :: (between ++ e' :: older) → request e → request e' →
    ∃ c ∈ between, completion c

variable {request completion} {log : List ε} {e : ε}

theorem outstanding_iff : Outstanding request completion log ↔
    ∃ newer e older, log = newer ++ e :: older ∧ request e ∧ ∀ c ∈ newer, ¬ completion c := by
  induction log with
  | nil => simp [Outstanding]
  | cons e log ih =>
      rw [Outstanding, ih]
      constructor
      · rintro (he | ⟨he, newer, e', older, rfl, he', hnewer⟩)
        · exact ⟨[], e, log, rfl, he, by simp⟩
        · exact ⟨e :: newer, e', older, rfl, he', List.forall_mem_cons.mpr ⟨he, hnewer⟩⟩
      · rintro ⟨newer, e', older, heq, he', hnewer⟩
        cases newer with
        | nil => exact .inl ((List.cons.inj heq).1 ▸ he')
        | cons c newer =>
            obtain ⟨rfl, rfl⟩ := List.cons.inj heq
            obtain ⟨hc, hnewer⟩ := List.forall_mem_cons.mp hnewer
            exact .inr ⟨hc, newer, e', older, rfl, he', hnewer⟩

theorem oneAtATime_cons : OneAtATime request completion (e :: log) ↔
    OneAtATime request completion log ∧ (request e → ¬ Outstanding request completion log) := by
  constructor
  · refine fun h => ⟨fun newer a between b older heq => h (e :: newer) a between b older (heq ▸ rfl), ?_⟩
    intro he hout
    obtain ⟨between, e', older, rfl, he', hbetween⟩ := outstanding_iff.mp hout
    obtain ⟨c, hc, hcompletion⟩ := h [] e between e' older rfl he he'
    exact hbetween c hc hcompletion
  · rintro ⟨hlog, he⟩ newer a between b older heq ha hb
    cases newer with
    | nil =>
        obtain ⟨rfl, rfl⟩ := List.cons.inj heq
        by_contra hnone
        push Not at hnone
        exact he ha (outstanding_iff.mpr ⟨between, b, older, rfl, hb, hnone⟩)
    | cons c newer => exact hlog newer a between b older (List.cons.inj heq).2 ha hb

end Requests

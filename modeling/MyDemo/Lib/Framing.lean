import Mathlib.Data.List.Basic

/-!
# Decoding a stream that arrives in chunks

A framer takes events off the front of a queue until it needs more input. Where a step only looks at
the front of the queue (`stable`), draining greedily after every chunk gives the same events and
leaves the same queue as draining the whole stream at once.
-/

namespace Framing

/-- One decoding step. `none` asks for more input; `stable` says that later input changes no step. -/
structure Framer (α ε : Type*) where
  step : List α → Option (ε × List α)
  shrinks : ∀ {q e r}, step q = some (e, r) → r.length < q.length
  stable : ∀ {q e r}, step q = some (e, r) → ∀ x, step (q ++ x) = some (e, r ++ x)

namespace Framer

variable {α ε : Type*} (F : Framer α ε)

def drainFuel : Nat → List α → List ε × List α
  | 0, q => ([], q)
  | n + 1, q =>
      match F.step q with
      | none => ([], q)
      | some (e, r) => (e :: (drainFuel n r).1, (drainFuel n r).2)

/-- All the steps the queue allows. Each step shrinks the queue, so its length is fuel enough. -/
def drain (q : List α) : List ε × List α := F.drainFuel q.length q

theorem drainFuel_eq {n m : Nat} {q : List α} (hn : q.length ≤ n) (hm : q.length ≤ m) :
    F.drainFuel n q = F.drainFuel m q := by
  induction n generalizing m q with
  | zero =>
      have hq : F.step q = none := by
        cases h : F.step q with
        | none => rfl
        | some p => have := F.shrinks h; omega
      cases m with
      | zero => rfl
      | succ m => simp [drainFuel, hq]
  | succ n ih =>
      cases h : F.step q with
      | none => cases m <;> simp [drainFuel, h]
      | some p =>
          obtain ⟨e, r⟩ := p
          have hr := F.shrinks h
          cases m with
          | zero => omega
          | succ m => simp only [drainFuel, h, ih (m := m) (q := r) (by omega) (by omega)]

theorem drain_none {q : List α} (h : F.step q = none) : F.drain q = ([], q) := by
  unfold drain
  cases q.length <;> simp [drainFuel, h]

theorem drain_some {q r : List α} {e : ε} (h : F.step q = some (e, r)) :
    F.drain q = (e :: (F.drain r).1, (F.drain r).2) := by
  have hr := F.shrinks h
  obtain ⟨n, hn⟩ : ∃ n, q.length = n + 1 := ⟨q.length - 1, by omega⟩
  simp only [drain, hn, drainFuel, h]
  rw [F.drainFuel_eq (n := n) (m := r.length) (by omega) (Nat.le_refl _)]

theorem drain_induction {P : List α → Prop} (none : ∀ q, F.step q = none → P q)
    (some : ∀ q e r, F.step q = some (e, r) → P r → P q) (q : List α) : P q := by
  induction hn : q.length using Nat.strongRecOn generalizing q with
  | _ n ih =>
      cases h : F.step q with
      | none => exact none q h
      | some p => exact some q p.1 p.2 h (ih p.2.length (hn ▸ F.shrinks h) p.2 rfl)

theorem drain_append (q x : List α) :
    F.drain (q ++ x) =
      ((F.drain q).1 ++ (F.drain ((F.drain q).2 ++ x)).1, (F.drain ((F.drain q).2 ++ x)).2) := by
  induction q using F.drain_induction with
  | none q h => simp [F.drain_none h]
  | some q e r h ih => rw [F.drain_some h, F.drain_some (F.stable h x), ih]; simp

/-- Draining leaves a queue that asks for more input. -/
theorem step_drain (q : List α) : F.step (F.drain q).2 = none := by
  induction q using F.drain_induction with
  | none q h => rw [F.drain_none h]; exact h
  | some q e r h ih => rw [F.drain_some h]; exact ih

/-- Where each step takes the input of its event off the front, what was drained and what is left are the queue. -/
theorem drain_conserves {input : ε → List α} (h : ∀ {q e r}, F.step q = some (e, r) → input e ++ r = q)
    (q : List α) : (F.drain q).1.flatMap input ++ (F.drain q).2 = q := by
  induction q using F.drain_induction with
  | none q hq => rw [F.drain_none hq, List.flatMap_nil, List.nil_append]
  | some q e r hq ih => rw [F.drain_some hq, List.flatMap_cons, List.append_assoc, ih, h hq]

end Framer

end Framing

import MyDemo.Bluetooth.Lemmas.Register

/-!
# Which effects keep the register truthful, and which keep one connection
-/

namespace MyDemo.Bluetooth

namespace Register

def Live (r : Register) : Prop :=
  ∃ t c, r.slot = some t ∧ r.threads[t]? = some c ∧ c.cancelled = false ∧ c.readFailed = false

def Truthful (r : Register) : Prop := r.mState = .connected ↔ r.Live

def Single (r : Register) : Prop :=
  ∀ t c, r.threads[t]? = some c → c.cancelled = false → r.slot = some t

def Held (r : Register) : Prop :=
  ∀ t, r.slot = some t → ∃ c, r.threads[t]? = some c ∧ c.cancelled = false

variable {r : Register}

/-! ## Effects on the live connection -/

theorem not_live_dial : ¬ (r.apply .dial).Live := by
  rintro ⟨t, c, hs, _⟩; cases hs

theorem live_attach : (r.apply .attach).Live :=
  ⟨r.threads.length, ⟨1, false, []⟩, rfl, by simp [apply], rfl, rfl⟩

theorem readFailed_addPass (c : ConnectedThread) (p : Pass) :
    ConnectedThread.readFailed { c with passes := c.passes ++ [p] } =
      (c.readFailed || p.result.isIOException) := by
  simp [ConnectedThread.readFailed]

theorem live_read {i : ℕ} {p : Pass} :
    (r.apply (.read i p)).Live ↔ r.Live ∧ ¬ (p.result.isIOException = true ∧ r.slot = some i) := by
  cases hs : r.slot with
  | none => simp [Live, apply, hs]
  | some t =>
      cases hc : r.threads[t]? with
      | none => simp [Live, apply, hs, hc, List.getElem?_modify]
      | some c =>
          by_cases hi : i = t
          · subst hi
            simp [Live, apply, hs, hc, List.getElem?_modify, readFailed_addPass, and_assoc]
          · have hi' : ¬ t = i := fun h => hi h.symm
            simp [Live, apply, hs, hc, List.getElem?_modify, hi, hi']

theorem truthful_apply (h : r.Truthful) (e : Effect) :
    (r.apply e).Truthful ↔
      match e with
      | .listen => ¬ r.Live
      | .read i p => p.result.isIOException = true → r.Live → r.slot = some i
      | .none | .dial | .attach => True := by
  cases e with
  | none => simpa [apply] using h
  | dial => simpa [Truthful, apply] using not_live_dial
  | attach => simpa [Truthful, apply] using live_attach
  | listen => simp [Truthful, apply]; rfl
  | read i p =>
      cases hp : p.result.isIOException with
      | false =>
          have hl : (r.apply (.read i p)).Live ↔ r.Live := by simp [live_read, hp]
          have hm : (r.apply (.read i p)).mState = r.mState := by simp [apply, hp]
          simp only [Truthful, hl, hm, hp, Bool.false_eq_true, IsEmpty.forall_iff, iff_true]
          exact h
      | true =>
          have hm : (r.apply (.read i p)).mState ≠ .connected := by simp [apply, hp]
          simp [Truthful, hm, live_read, hp]

/-! ## Effects on the number of connections -/

theorem held_apply (h : r.Held) (e : Effect) : (r.apply e).Held := by
  cases e with
  | none => exact h
  | listen => exact h
  | dial => intro t ht; cases ht
  | attach =>
      intro t ht
      cases ht
      exact ⟨⟨1, false, []⟩, by simp [apply], rfl⟩
  | read i p =>
      intro t ht
      obtain ⟨c, hc, hcan⟩ := h t ht
      refine ⟨_, List.getElem?_modify_eq_some.mpr ⟨c, hc, rfl⟩, ?_⟩
      split <;> exact hcan

theorem single_apply (hh : r.Held) (h : r.Single) (e : Effect) :
    (r.apply e).Single ↔ (e = .attach → r.slot = none) := by
  cases e with
  | none => simpa [apply] using h
  | listen => simpa [Single, apply] using h
  | dial =>
      -- the slot's thread was the only one, and it is cancelled
      simp only [reduceCtorEq, IsEmpty.forall_iff, iff_true]
      intro t c hc hcan
      simp only [apply, cancelSlot] at hc
      split at hc
      · next hs => rw [h t c hc hcan] at hs; cases hs
      · next u hs =>
          obtain ⟨d, hd, rfl⟩ := List.getElem?_modify_eq_some.mp hc
          split at hcan
          · cases hcan
          · next hut => rw [h t d hd hcan, Option.some.injEq] at hs; exact absurd hs.symm hut
  | attach =>
      simp only [forall_const]
      constructor
      · intro hsingle
        cases hs : r.slot with
        | none => rfl
        | some t =>
            obtain ⟨c, hc, hcan⟩ := hh t hs
            have hlt : t < r.threads.length := (List.getElem?_eq_some_iff.mp hc).1
            have heq := hsingle t c (List.getElem?_concat_eq_some.mpr (.inl hc)) hcan
            simp only [apply, Option.some.injEq] at heq
            omega
      · intro hs t c hc hcan
        rcases List.getElem?_concat_eq_some.mp hc with hc | ⟨rfl, _⟩
        · rw [h t c hc hcan] at hs; cases hs
        · rfl
  | read i p =>
      simp only [reduceCtorEq, IsEmpty.forall_iff, iff_true]
      intro t c hc hcan
      obtain ⟨d, hd, rfl⟩ := List.getElem?_modify_eq_some.mp hc
      exact h t d hd (by split at hcan <;> exact hcan)

end Register

end MyDemo.Bluetooth

import Mathlib.Data.List.Infix

/-!
# Backtracking search for a pattern

Patterns over any alphabet, without one that matches the empty text. A pattern is tried at a place by
backtracking: the alternatives come in their order of preference, and the continuation says whether what
is left can be matched by the rest of the pattern. `findAll` lists what a matcher finds when it is asked
again and again.
-/

/-- `one p` is a character class, `lazyPlus p` is one or more of a class, as few as possible. -/
inductive Regex (α : Type*) where
  | one (p : α → Bool)
  | lazyPlus (p : α → Bool)
  | seq (r s : Regex α)

namespace Regex

variable {α : Type*}

def tryPlus (p : α → Bool) (k : List α → Option (List α)) : List α → Option (List α)
  | [] => none
  | a :: as => if p a then (k as).or (tryPlus p k as) else none

/-- The text left over by the preferred match of `r` at the head of a text, if one lets `k` succeed. -/
def matchHead : Regex α → (List α → Option (List α)) → List α → Option (List α)
  | one _, _, [] => none
  | one p, k, a :: as => if p a then k as else none
  | lazyPlus p, k, as => tryPlus p k as
  | seq r s, k, as => r.matchHead (s.matchHead k) as

structure Found (α : Type*) where
  skipped : List α
  group : List α
  rest : List α

def find (r : Regex α) : List α → Option (Found α)
  | [] => none
  | a :: as =>
      match r.matchHead some (a :: as) with
      | some rest => some ⟨[], (a :: as).take ((a :: as).length - rest.length), rest⟩
      | none => (r.find as).map (fun f => { f with skipped := a :: f.skipped })

def findUpTo (r : Regex α) : ℕ → List α → List (Found α)
  | 0, _ => []
  | n + 1, as =>
      match r.find as with
      | none => []
      | some f => f :: r.findUpTo n f.rest

/-- The successive matches: a text has no more of them than symbols. -/
def findAll (r : Regex α) (as : List α) : List (Found α) := r.findUpTo as.length as

/-! ## A match consumes text -/

theorem tryPlus_suffix {p : α → Bool} {k : List α → Option (List α)}
    (hk : ∀ as bs, k as = some bs → bs <:+ as) {as bs : List α} (h : tryPlus p k as = some bs) :
    bs <:+ as ∧ bs.length < as.length := by
  induction as with
  | nil => simp [tryPlus] at h
  | cons a as ih =>
      rw [tryPlus] at h
      split at h
      · have hbs : bs <:+ as := by
          rcases Option.or_eq_some_iff.mp h with h | ⟨_, h⟩
          · exact hk as bs h
          · exact (ih h).1
        exact ⟨hbs.trans (List.suffix_cons a as), Nat.lt_succ_of_le hbs.length_le⟩
      · cases h

theorem matchHead_suffix (r : Regex α) {k : List α → Option (List α)}
    (hk : ∀ as bs, k as = some bs → bs <:+ as) {as bs : List α} (h : r.matchHead k as = some bs) :
    bs <:+ as ∧ bs.length < as.length := by
  induction r generalizing k as bs with
  | one p =>
      cases as with
      | nil => simp [matchHead] at h
      | cons a as =>
          rw [matchHead] at h
          split at h
          · have hbs := hk as bs h
            exact ⟨hbs.trans (List.suffix_cons a as), Nat.lt_succ_of_le hbs.length_le⟩
          · cases h
  | lazyPlus p => exact tryPlus_suffix hk h
  | seq r s ihr ihs => exact ihr (fun _ _ hs => (ihs hk hs).1) h

theorem find_eq_some {r : Regex α} {as : List α} {f : Found α} (h : r.find as = some f) :
    as = f.skipped ++ (f.group ++ f.rest) ∧ f.rest.length < as.length := by
  induction as generalizing f with
  | nil => simp [find] at h
  | cons a as ih =>
      rw [find] at h
      split at h
      · next rest hm =>
          obtain ⟨hsuf, hlt⟩ := r.matchHead_suffix (fun _ _ e => Option.some.inj e ▸ List.suffix_refl _) hm
          cases h
          have htake := List.take_append_drop ((a :: as).length - rest.length) (a :: as)
          rw [← List.suffix_iff_eq_drop.mp hsuf] at htake
          exact ⟨by rw [List.nil_append, htake], hlt⟩
      · obtain ⟨g, hg, rfl⟩ := Option.map_eq_some_iff.mp h
        obtain ⟨has, hlt⟩ := ih hg
        exact ⟨congrArg (a :: ·) has, Nat.lt_succ_of_lt hlt⟩

/-! ## Successive matches -/

theorem findUpTo_eq (r : Regex α) {m n : ℕ} {as : List α} (hm : as.length ≤ m) (hn : as.length ≤ n) :
    r.findUpTo m as = r.findUpTo n as := by
  induction m generalizing n as with
  | zero =>
      rw [List.length_eq_zero_iff.mp (Nat.le_zero.mp hm)]
      cases n <;> rfl
  | succ m ih =>
      cases n with
      | zero =>
          rw [List.length_eq_zero_iff.mp (Nat.le_zero.mp hn)]
          rfl
      | succ n =>
          simp only [findUpTo]
          split
          · rfl
          · next f hf =>
              have hlt := (find_eq_some hf).2
              rw [ih (n := n) (by omega) (by omega)]

theorem findAll_eq (r : Regex α) (as : List α) :
    r.findAll as = match r.find as with
      | none => []
      | some f => f :: r.findAll f.rest := by
  rw [findAll, r.findUpTo_eq le_rfl (Nat.le_succ _), findUpTo]
  split
  · rfl
  · next f hf => rw [findAll, r.findUpTo_eq (Nat.le_of_lt (find_eq_some hf).2) le_rfl]

theorem findAll_induction {r : Regex α} {M : List α → List (Found α) → Prop}
    (none : ∀ as, M as [])
    (found : ∀ f fs, M f.rest fs → M (f.skipped ++ (f.group ++ f.rest)) (f :: fs)) (as : List α) :
    M as (r.findAll as) := by
  induction h : as.length using Nat.strong_induction_on generalizing as with
  | _ n ih =>
      rw [findAll_eq]
      split
      · exact none as
      · next f hf =>
          obtain ⟨has, hlt⟩ := find_eq_some hf
          have hrest := ih _ (h ▸ hlt) f.rest rfl
          exact has ▸ found f _ hrest

/-! ## A single character class -/

theorem find_one (p : α → Bool) (as : List α) :
    (one p).find as = none ∧ as.filter p = [] ∨
      ∃ f a, (one p).find as = some f ∧ f.group = [a] ∧ as.filter p = a :: f.rest.filter p := by
  induction as with
  | nil => exact .inl ⟨rfl, rfl⟩
  | cons a as ih =>
      rw [find, matchHead, List.filter_cons]
      cases hp : p a with
      | true =>
          refine .inr ⟨_, a, rfl, ?_, rfl⟩
          simp
      | false =>
          rcases ih with ⟨hfind, hfilter⟩ | ⟨f, b, hfind, hgroup, hfilter⟩
          · exact .inl ⟨by simp [hfind], by simpa using hfilter⟩
          · exact .inr ⟨{ f with skipped := a :: f.skipped }, b, by simp [hfind], hgroup, by simpa using hfilter⟩

theorem group_findAll_one (p : α → Bool) (as : List α) :
    ((one p).findAll as).map Found.group = (as.filter p).map (fun a => [a]) := by
  induction h : as.length using Nat.strong_induction_on generalizing as with
  | _ n ih =>
      rw [findAll_eq]
      rcases find_one p as with ⟨hfind, hfilter⟩ | ⟨f, a, hfind, hgroup, hfilter⟩
      · rw [hfind, hfilter]
        rfl
      · have hrest := ih _ (h ▸ (find_eq_some hfind).2) f.rest rfl
        rw [hfind, hfilter, List.map_cons, List.map_cons, hgroup, hrest]

end Regex

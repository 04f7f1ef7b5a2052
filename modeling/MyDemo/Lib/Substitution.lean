import MyDemo.Lib.Search
import MyDemo.Lib.Utf16

/-!
# Texts for supplementary code points

A substitution gives texts for some of the code points that take two code units. It can be carried out
code point by code point, or as a search for one pair of code units after the other: surrogates occur as a
pair only where they are one code point.
-/

namespace Utf16

open Search

def isSurrogate (u : CodeUnit) : Bool := isHigh u || isLow u

/-- The texts have no surrogates, and at least the two code units of what they stand for. -/
structure Substitution where
  get : ℕ → Option (List CodeUnit)
  supplementary : ∀ c text, get c = some text → 0x10000 ≤ c
  clean : ∀ c text, get c = some text → ∀ u ∈ text, isSurrogate u = false
  two_le : ∀ c text, get c = some text → 2 ≤ text.length

namespace Substitution

variable (f : Substitution)

def text (c : ℕ) : List CodeUnit := (f.get c).getD (units c)

def apply (us : List CodeUnit) : List CodeUnit := (codePoints us).flatMap f.text

/-! ## Code unit by code unit -/

theorem text_toNat (u : CodeUnit) : f.text u.toNat = [u] := by
  have hnone : f.get u.toNat = none := by
    rw [Option.eq_none_iff_forall_ne_some]
    intro text h
    have hu : u.toNat < 0x10000 := u.isLt
    have hc := f.supplementary _ _ h
    omega
  rw [text, hnone, Option.getD_none, units_toNat]

theorem apply_pair {u v : CodeUnit} (h : (isHigh u && isLow v) = true) (us : List CodeUnit) :
    f.apply (u :: v :: us) = f.text (pair u v) ++ f.apply us := by
  rw [apply, codePoints, if_pos h, List.flatMap_cons]
  rfl

theorem apply_cons {u v : CodeUnit} (h : ¬ (isHigh u && isLow v) = true) (us : List CodeUnit) :
    f.apply (u :: v :: us) = u :: f.apply (v :: us) := by
  rw [apply, codePoints, if_neg h, List.flatMap_cons, text_toNat]
  rfl

theorem text_cases (c : ℕ) : f.get c = none ∧ f.text c = units c ∨
    ∃ text, f.get c = some text ∧ f.text c = text := by
  cases h : f.get c with
  | none => exact .inl ⟨rfl, by rw [text, h]; rfl⟩
  | some t => exact .inr ⟨t, rfl, by rw [text, h]; rfl⟩

theorem length_le_apply (us : List CodeUnit) : us.length ≤ (f.apply us).length := by
  induction us using codePoints.induct with
  | case1 => exact le_rfl
  | case2 u => simp [apply, codePoints, text_toNat]
  | case3 u v us h ih =>
      rw [f.apply_pair h, List.length_append]
      have htext : 2 ≤ (f.text (pair u v)).length := by
        rcases f.text_cases (pair u v) with ⟨_, htext⟩ | ⟨t, ht, htext⟩
        · obtain ⟨hu, hv⟩ := Bool.and_eq_true _ _ ▸ h
          rw [htext, units_pair hu hv]
          exact le_rfl
        · exact htext ▸ f.two_le _ _ ht
      simp only [List.length_cons]
      omega
  | case4 u v us h ih =>
      rw [f.apply_cons h]
      exact Nat.succ_le_succ ih

/-- Where no low surrogate comes first, none comes first afterwards. -/
theorem head?_apply {v w : CodeUnit} {us : List CodeUnit} (hv : isLow v = false)
    (hw : (f.apply (v :: us)).head? = some w) : isLow w = false := by
  cases us with
  | nil =>
      rw [apply, codePoints, List.flatMap_cons, text_toNat] at hw
      exact Option.some.inj hw ▸ hv
  | cons v' us =>
      by_cases hpair : (isHigh v && isLow v') = true
      · rw [f.apply_pair hpair] at hw
        rcases f.text_cases (pair v v') with ⟨_, htext⟩ | ⟨t, ht, htext⟩
        · obtain ⟨hhigh, hlow⟩ := Bool.and_eq_true _ _ ▸ hpair
          rw [htext, units_pair hhigh hlow] at hw
          exact Option.some.inj hw ▸ hv
        · have hlen := f.two_le _ _ ht
          rw [htext] at hw
          cases t with
          | nil => cases hlen
          | cons w' t =>
              have hclean := f.clean _ _ ht w' List.mem_cons_self
              exact Option.some.inj hw ▸ (Bool.or_eq_false_iff.mp hclean).2
      · rw [f.apply_cons hpair] at hw
        exact Option.some.inj hw ▸ hv

/-! ## One code point more -/

variable {f}

theorem high_not_mem {h : CodeUnit} (hh : isHigh h = true) {text : List CodeUnit}
    (hclean : ∀ u ∈ text, isSurrogate u = false) : h ∉ text := by
  intro hmem
  have hsur := hclean h hmem
  rw [isSurrogate, hh] at hsur
  cases hsur

theorem not_low_of_high {u : CodeUnit} (hu : isHigh u = true) : isLow u = false := by
  simp only [isHigh, isLow, Bool.and_eq_true, decide_eq_true_eq] at hu ⊢
  rw [Bool.and_eq_false_iff]
  exact .inl (by simpa using hu.2)

/-- To replace a pair of code units is to substitute for one code point more. -/
theorem replaceAll_apply {g : Substitution} {h l : CodeUnit} (hh : isHigh h = true) (hl : isLow l = true)
    {t : List CodeUnit} (hg : g.get (pair h l) = some t)
    (hf : f.get (pair h l) = none ∨ f.get (pair h l) = some t)
    (hfg : ∀ c, c ≠ pair h l → g.get c = f.get c) (us : List CodeUnit) :
    replaceAll [h, l] t (f.apply us) = g.apply us := by
  have htext : ∀ c, c ≠ pair h l → g.text c = f.text c := fun c hc => by rw [text, text, hfg c hc]
  induction us using codePoints.induct with
  | case1 => exact replaceAll_nil _ _
  | case2 u =>
      have hu : ∀ f : Substitution, f.apply [u] = [u] := fun f => by simp [apply, codePoints, text_toNat]
      rw [hu, hu, replaceAll_cons (by simp [List.cons_prefix_cons]), replaceAll_nil]
  | case3 u v us huv ih =>
      obtain ⟨hu, hv⟩ := Bool.and_eq_true _ _ ▸ huv
      rw [f.apply_pair huv, g.apply_pair huv]
      rcases f.text_cases (pair u v) with ⟨hnone, hunits⟩ | ⟨t', ht', hunits⟩
      · rw [hunits, units_pair hu hv]
        by_cases hc : pair u v = pair h l
        · have hsame : [u, v] = [h, l] := by rw [← units_pair hu hv, hc, units_pair hh hl]
          rw [hsame, replaceAll_pat, ih, hc, text, hg, Option.getD_some]
        · have hpre : ¬ [h, l] <+: u :: ([v] ++ f.apply us) := by
            intro hpre
            obtain ⟨rfl, htail⟩ := List.cons_prefix_cons.mp hpre
            obtain ⟨rfl, _⟩ := List.cons_prefix_cons.mp htail
            exact hc rfl
          have hv' : h ∉ [v] := by
            intro hmem
            obtain rfl := List.mem_singleton.mp hmem
            rw [not_low_of_high hh] at hv
            cases hv
          rw [htext _ hc, hunits, units_pair hu hv, ← ih]
          exact (replaceAll_cons hpre).trans (congrArg (u :: ·) (replaceAll_append hv'))
      · have hsub : g.text (pair u v) = t' := by
          by_cases hc : pair u v = pair h l
          · rw [hc] at ht'
            rw [ht'] at hf
            obtain hf | hf := hf
            · cases hf
            · rw [hc, text, hg, Option.getD_some, Option.some.inj hf]
          · rw [htext _ hc, hunits]
        rw [hunits, hsub, replaceAll_append (high_not_mem hh (f.clean _ _ ht')), ih]
  | case4 u v us huv ih =>
      rw [f.apply_cons huv, g.apply_cons huv, replaceAll_cons, ih]
      intro hpre
      obtain ⟨rfl, rest, hrest⟩ := List.cons_prefix_cons.mp hpre
      have hv : isLow v = false := by simpa [hh] using huv
      have hhead : (f.apply (v :: us)).head? = some l := by rw [← hrest]; rfl
      have hlow := f.head?_apply hv hhead
      rw [hl] at hlow
      cases hlow

end Substitution

end Utf16

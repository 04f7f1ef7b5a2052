import Mathlib.Data.List.Range

/-!
# Loading page after page

A data source is asked for its first page, and then for the page after each key that it hands out, until a
call delivers nothing or hands out no key. What it delivers is a derivation, so that it ends, and no call
has thrown.
-/

namespace Paging

variable {ε κ β : Type*}

structure DataSource (ε κ β : Type*) where
  loadInitial : Except ε (List β × Option κ)
  loadAfter : κ → Except ε (Option (List β × Option κ))

namespace DataSource

variable {src : DataSource ε κ β}

inductive Loads (src : DataSource ε κ β) : Option κ → List (List β) → Prop
  | noKey : Loads src none []
  | nothing {key : κ} (h : src.loadAfter key = .ok none) : Loads src (some key) []
  | page {key : κ} {page : List β} {next : Option κ} {pages : List (List β)}
      (h : src.loadAfter key = .ok (some (page, next))) (rest : Loads src next pages) :
      Loads src (some key) (page :: pages)

inductive Delivers (src : DataSource ε κ β) : List (List β) → Prop
  | initial {page : List β} {next : Option κ} {pages : List (List β)}
      (h : src.loadInitial = .ok (page, next)) (rest : src.Loads next pages) : Delivers src (page :: pages)

def Completes (src : DataSource ε κ β) (items : List β) : Prop :=
  ∃ pages, src.Delivers pages ∧ pages.flatten = items

/-! ## There is one way to load -/

theorem Loads.unique {key : Option κ} {pages pages' : List (List β)} (h : src.Loads key pages)
    (h' : src.Loads key pages') : pages = pages' := by
  induction h generalizing pages' with
  | noKey => cases h'; rfl
  | nothing h =>
      cases h' with
      | nothing => rfl
      | page hpage => rw [h] at hpage; cases hpage
  | page h rest ih =>
      cases h' with
      | nothing hnothing => rw [h] at hnothing; cases hnothing
      | page hpage rest' =>
          rw [h] at hpage
          cases hpage
          rw [ih rest']

theorem Delivers.unique {pages pages' : List (List β)} (h : src.Delivers pages) (h' : src.Delivers pages') :
    pages = pages' := by
  obtain ⟨hfirst, hrest⟩ := h
  obtain ⟨hfirst', hrest'⟩ := h'
  rw [hfirst] at hfirst'
  cases hfirst'
  rw [hrest.unique hrest']

theorem completes_iff {pages : List (List β)} {items : List β} (h : src.Delivers pages) :
    src.Completes items ↔ pages.flatten = items := by
  constructor
  · rintro ⟨pages', h', hitems⟩
    rwa [h.unique h']
  · exact fun hitems => ⟨pages, h, hitems⟩

/-! ## Failures -/

theorem not_completes_of_error {e : ε} {items : List β} (h : src.loadInitial = .error e) :
    ¬ src.Completes items := by
  rintro ⟨_, ⟨hfirst, _⟩, _⟩
  rw [h] at hfirst
  cases hfirst

/-! ## A row of keys -/

/-- Where each of the first `n` keys leads to the next one, and nothing comes after those. -/
theorem loads_of_row (key : ℕ → κ) (page : ℕ → List β) {n : ℕ}
    (hpage : ∀ i < n, src.loadAfter (key i) = .ok (some (page i, some (key (i + 1)))))
    (hend : src.loadAfter (key n) = .ok none) {i : ℕ} (hi : i ≤ n) :
    src.Loads (some (key i)) ((List.range' i (n - i)).map page) := by
  induction hk : n - i generalizing i with
  | zero =>
      obtain rfl : i = n := by omega
      exact .nothing hend
  | succ k ih => exact .page (hpage i (by omega)) (ih (by omega) (by omega))

theorem not_loads_of_row (key : ℕ → κ) (page : ℕ → List β) {n : ℕ} {e : ε}
    (hpage : ∀ i < n, src.loadAfter (key i) = .ok (some (page i, some (key (i + 1)))))
    (hend : src.loadAfter (key n) = .error e) {i : ℕ} (hi : i ≤ n) (pages : List (List β)) :
    ¬ src.Loads (some (key i)) pages := by
  induction hk : n - i generalizing i pages with
  | zero =>
      obtain rfl : i = n := by omega
      rintro (_ | h | ⟨h, _⟩)
      · rw [hend] at h; cases h
      · rw [hend] at h; cases h
  | succ k ih =>
      rintro (_ | h | ⟨h, hrest⟩)
      · rw [hpage i (by omega)] at h; cases h
      · rw [hpage i (by omega)] at h
        cases h
        exact ih (by omega) _ (by omega) hrest

end DataSource

end Paging

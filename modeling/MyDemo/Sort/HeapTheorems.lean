import MyDemo.Lib.SortedList
import MyDemo.Sort.Lemmas.HeapDepth

/-!
# What buildMaxHeap builds, and when heap sort sorts
-/

namespace MyDemo.Sort.HeapSort

open Logged MaxHeap

variable {α : Type} [LinearOrder α] [Inhabited α]

/-! ## What buildMaxHeap builds -/

/-- The elements up to `lastIndex` are a heap now, and the elements after it are as they were. -/
structure Built (data : IntArray α) (lastIndex : ℤ) (data' : IntArray α) : Prop where
  heap : ∀ k c, 0 ≤ k → c = 2 * k + 1 ∨ c = 2 * k + 2 → c ≤ lastIndex → data'.entry c ≤ data'.entry k
  perm : (data'.elems.take (lastIndex + 1).toNat).Perm (data.elems.take (lastIndex + 1).toNat)
  drop : data'.elems.drop (lastIndex + 1).toNat = data.elems.drop (lastIndex + 1).toNat

omit [LinearOrder α] [Inhabited α] in
theorem Kept.take_perm {data data' : IntArray α} {lastIndex : ℤ} (h : Kept lastIndex data data') :
    (data'.elems.take (lastIndex + 1).toNat).Perm (data.elems.take (lastIndex + 1).toNat) := by
  have hperm := h.perm
  rw [← List.take_append_drop (lastIndex + 1).toNat data'.elems, h.drop] at hperm
  refine (List.perm_append_right_iff (data.elems.drop (lastIndex + 1).toNat)).mp ?_
  rwa [List.take_append_drop]

theorem built_of_kept {data data' : IntArray α} {lastIndex : ℤ} (hkept : Kept lastIndex data data')
    (hordered : Ordered (values data') 0 lastIndex.toNat) : Built data lastIndex data' := by
  refine ⟨fun k c hk hc hlast => ?_, hkept.take_perm, hkept.drop⟩
  have hparent : parent c.toNat = k.toNat := (parent_eq_iff (by omega)).mpr (by omega)
  have hle := hordered c.toNat (by omega) (by omega) (Nat.zero_le _)
  rw [hparent, values_toNat hk, values_toNat (by omega)] at hle
  exact hle

/-- With exact indices, whatever the elements are. -/
theorem buildMaxHeap_builds (data : IntArray α) {lastIndex : ℤ} (hnonneg : 0 ≤ lastIndex)
    (hlast : lastIndex < data.length) :
    ∃ data', (Exact.buildMaxHeap data lastIndex).result = .ok data' ∧ Built data lastIndex data' := by
  obtain ⟨data', hresult, hkept, hordered⟩ := Exact.exists_buildMaxHeap hnonneg hlast
  exact ⟨data', hresult, built_of_kept hkept hordered⟩

theorem buildMaxHeap_builds_four :
    ∃ data', (Exact.buildMaxHeap ⟨[1, 3, 2, (4 : ℤ)], by decide⟩ 2).result = .ok data' ∧
      Built ⟨[1, 3, 2, (4 : ℤ)], by decide⟩ 2 data' :=
  buildMaxHeap_builds _ (by decide) (by decide)

/-- A machine computes the same just if no element sinks to an index with a child at an index that wraps around. -/
theorem buildMaxHeap_eq_iff (data : IntArray α) {lastIndex : ℤ} (hnonneg : 0 ≤ lastIndex)
    (hlast : lastIndex < data.length) :
    buildMaxHeap data lastIndex = Exact.buildMaxHeap data lastIndex ↔ Shallow data lastIndex := by
  constructor
  · intro heq d i k b hat hsinks
    by_contra hb
    obtain ⟨data', hresult, -⟩ := Exact.exists_buildMaxHeap hnonneg hlast
    rw [← heq, (hat.sinks_deep hlast hsinks (by omega)).2] at hresult
    cases hresult
  · intro hshallow
    exact buildMaxHeap_eq hshallow hnonneg hlast

/-! ## The indices of buildMaxHeap -/

omit [Inhabited α] in
/-- Without elements there is nothing to do. -/
theorem build_of_neg (data : IntArray α) {lastIndex i : ℤ} (hlast : lastIndex < 0) (hi : i < 2 ^ 30) :
    build lastIndex data i = pure data := by
  induction hn : (i + 1).toNat generalizing i with
  | zero => rw [build, if_neg (by omega)]
  | succ n ih =>
      have hsift : sift lastIndex data i = pure data := by
        rw [sift, wrap_eq (by omega) (by omega), if_neg (by omega)]
      rw [build, if_pos (by omega), hsift, pure_bind, ih (by omega) (by omega)]

theorem in_range_of_shallow {data : IntArray α} {lastIndex i : ℤ} (hshallow : Shallow data lastIndex)
    (hlast : lastIndex < data.length) (hi : .index i ∈ (buildMaxHeap data lastIndex).log) :
    0 ≤ i ∧ i ≤ lastIndex := by
  obtain hneg | hnonneg : lastIndex < 0 ∨ 0 ≤ lastIndex := by omega
  · rw [buildMaxHeap, build_of_neg data hneg (firstParent_lt lastIndex)] at hi
    cases hi
  · exact (buildMaxHeap_meets hshallow hlast hnonneg).log _ hi

/-- Each element is read and written inside the heap just if no element sinks to an index with a child at an
index that wraps around. -/
theorem buildMaxHeap_in_range_iff (data : IntArray α) (lastIndex : ℤ) (hlast : lastIndex < data.length) :
    (∀ i, .index i ∈ (buildMaxHeap data lastIndex).log → 0 ≤ i ∧ i ≤ lastIndex) ↔ Shallow data lastIndex := by
  constructor
  · intro hrange d i k b hat hsinks
    by_contra hb
    obtain ⟨⟨j, hneg, hj⟩, -⟩ := hat.sinks_deep hlast hsinks (by omega)
    have hj' := hrange j hj
    omega
  · intro hshallow i hi
    exact in_range_of_shallow hshallow hlast hi

/-- Each element is read and written inside the heap just if the heap is built, with exact indices, without a change
at the indices from `2 ^ 30` on. -/
theorem buildMaxHeap_in_range_iff_inPlace (data : IntArray α) (lastIndex : ℤ) (hlast : lastIndex < data.length) :
    (∀ i, .index i ∈ (buildMaxHeap data lastIndex).log → 0 ≤ i ∧ i ≤ lastIndex) ↔ Exact.InPlace data lastIndex :=
  (buildMaxHeap_in_range_iff data lastIndex hlast).trans (shallow_iff_inPlace hlast)

theorem buildMaxHeap_in_range_three : Exact.InPlace ⟨[3, 1, (2 : ℤ)], by decide⟩ 2 ∧
    ∀ i, .index i ∈ (buildMaxHeap ⟨[3, 1, (2 : ℤ)], by decide⟩ 2).log → 0 ≤ i ∧ i ≤ 2 := by
  have hshallow := shallow_of_lt ⟨[3, 1, (2 : ℤ)], by decide⟩ (show (2 : ℤ) < 2 ^ 30 by decide)
  have hinPlace := inPlace_of_shallow hshallow (by decide) (by decide)
  exact ⟨hinPlace, (buildMaxHeap_in_range_iff_inPlace _ 2 (by decide)).mpr hinPlace⟩

/-- All elements are equal but for the last one, which is greater. -/
def sinking (n : ℕ) (h : n + 1 < 2 ^ 31) : IntArray ℤ :=
  ⟨List.replicate n 0 ++ [1], by rw [List.length_append, List.length_replicate, List.length_singleton]; omega⟩

section

variable {n : ℕ} {h : n + 1 < 2 ^ 31}

theorem sinking_length : (sinking n h).length = n + 1 := by
  rw [sinking, IntArray.length, List.length_append, List.length_replicate, List.length_singleton]
  omega

theorem sinking_entry {i : ℤ} (hi : 0 ≤ i ∧ i < n) : (sinking n h).entry i = 0 := by
  rw [sinking, IntArray.entry, List.getD_eq_getElem?_getD,
    List.getElem?_append_left (by rw [List.length_replicate]; omega), List.getElem?_replicate_of_lt (by omega)]
  rfl

theorem sinking_entry_last : (sinking n h).entry n = 1 := by
  rw [sinking, IntArray.entry, List.getD_eq_getElem?_getD, Int.toNat_natCast,
    List.getElem?_append_right (by rw [List.length_replicate]), List.length_replicate, Nat.sub_self]
  rfl

theorem sinking_less {k : ℤ} (hk : 0 ≤ k ∧ k < n) : (sinking n h).entry k < (sinking n h).entry n := by
  rw [sinking_entry_last, sinking_entry hk]
  exact Int.zero_lt_one

theorem sinking_atTest (hn : 0 < n) : AtTest (sinking n h) n (sinking n h) (firstParent n) (firstParent n) :=
  .start (firstParent_bounds (by omega) (by omega)).1

/-- The first element that is compared sinks to the end. -/
theorem sinking_sinks (hn : 0 < n) : Sinks (sinking n h) n (firstParent n) n := by
  have hfirst : firstParent n = ((n : ℤ) - 1) / 2 := firstParent_eq (by omega) (by omega)
  refine ⟨?_, Int.le_refl _, sinking_less (by omega)⟩
  obtain hleft | hright : (n : ℤ) = 2 * firstParent n + 1 ∨ (n : ℤ) = 2 * firstParent n + 2 := by omega
  · exact .inl ⟨hleft, fun hle => absurd hle (by omega)⟩
  · refine .inr ⟨hright, ?_⟩
    rw [← hright]
    exact sinking_less (by omega)

theorem sinking_index (hn : 2 ^ 30 ≤ n) :
    ¬ ∀ i, .index i ∈ (buildMaxHeap (sinking n h) n).log → 0 ≤ i ∧ i ≤ (n : ℤ) := by
  intro hrange
  obtain ⟨⟨j, hneg, hj⟩, -⟩ := (sinking_atTest (h := h) (by omega)).sinks_deep (by rw [sinking_length]; omega)
    (sinking_sinks (by omega)) (by omega)
  have hj' := hrange j hj
  omega

end

/-- For the arrays of all contents, just if `lastIndex` is below `2 ^ 30`. -/
theorem buildMaxHeap_in_range_of_any_iff {lastIndex : ℕ} (h : lastIndex + 1 < 2 ^ 31) :
    (∀ data : IntArray ℤ, lastIndex < data.length →
      ∀ i, .index i ∈ (buildMaxHeap data lastIndex).log → 0 ≤ i ∧ i ≤ (lastIndex : ℤ)) ↔ lastIndex < 2 ^ 30 := by
  constructor
  · intro hrange
    by_contra hlarge
    exact sinking_index (h := h) (by omega) (hrange _ (by rw [sinking_length]; omega))
  · intro hsmall data hlast
    exact fun i hi => in_range_of_shallow (shallow_of_lt data (by omega)) hlast hi

theorem sinking_not_in_range : ¬ ∀ i, .index i ∈ (buildMaxHeap (sinking (2 ^ 30) (by decide)) (2 ^ 30)).log →
    0 ≤ i ∧ i ≤ 2 ^ 30 := by
  have hcast : ((2 ^ 30 : ℕ) : ℤ) = 2 ^ 30 := by omega
  rw [← hcast]
  exact sinking_index (Nat.le_refl _)

/-! ## The rounds -/

omit [Inhabited α] in
/-- From there on, the loop is still to come. -/
theorem AtRound.continues {a b : IntArray α} {i : ℤ} (h : AtRound a b i) :
    Continues (main a) (rounds a.length b i) := by
  induction h with
  | start => exact .refl _
  | next h htest hround ih =>
      rw [rounds, if_pos htest] at ih
      exact ih.trans (.bind hround _)

omit [Inhabited α] in
theorem AtRound.bounds {a b : IntArray α} {i : ℤ} (h : AtRound a b i) : 0 ≤ i ∧ b.length = a.length := by
  induction h with
  | start => exact ⟨Int.le_refl 0, rfl⟩
  | @next b c i h htest hround ih =>
      obtain ⟨d, hbuild, hswap⟩ := result_bind_eq_ok.mp hround
      rw [swap_length hswap, buildMaxHeap_length hbuild]
      omega

/-- Where an element sinks too deep, there is an exception. -/
theorem AtRound.sinks_deep {a b d : IntArray α} {i j k c : ℤ} (h : AtRound a b i) (htest : i < a.length - 1)
    (hd : AtTest b (a.length - 1 - i) d j k) (hsinks : Sinks d (a.length - 1 - i) k c) (hc : 2 ^ 30 ≤ c) :
    (main a).result = .error (.exn .indexOutOfBounds) := by
  have hbounds := h.bounds
  obtain ⟨-, herror⟩ := hd.sinks_deep (by omega) hsinks hc
  have hround : (round a.length b i).result = .error (.exn .indexOutOfBounds) := by
    rw [round, bind_of_error herror]
  have hcontinues := h.continues
  rw [rounds, if_pos htest, bind_of_error hround] at hcontinues
  exact hcontinues.result_eq

/-- The root of a heap changes places with the last element, and what is in front of it is not greater. -/
theorem Swapped.settles {b c : IntArray α} {last : ℕ} (h : Swapped b c 0 last) (hlast : last < b.elems.length)
    (hheap : Ordered (values b) 0 last) : ∃ front m,
      c.elems = front ++ m :: b.elems.drop (last + 1) ∧ front.length = last ∧ ∀ a ∈ front, a ≤ m := by
  have hlength := h.perm.length_eq
  have hvalue : ∀ j (hj : j < c.elems.length), c.elems[j] = values c j := fun j hj => by
    rw [values, IntArray.entry, Int.toNat_natCast, List.getD_eq_getElem?_getD, List.getElem?_eq_getElem hj,
      Option.getD_some]
  refine ⟨c.elems.take last, values c last, ?_, ?_, fun a ha => ?_⟩
  · rw [← h.drop (last + 1) (by omega) (by omega), ← hvalue last (by omega), ← List.drop_eq_getElem_cons,
      List.take_append_drop]
  · rw [List.length_take]
    omega
  · obtain ⟨j, hj, rfl⟩ := List.mem_take_iff_getElem.mp ha
    rw [hvalue, h.values_eq, Function.comp_apply, Function.comp_apply, Equiv.swap_apply_right]
    refine hheap.le_root ?_
    rw [Equiv.swap_apply_def]
    split
    · omega
    · split <;> omega

/-- The array is a heap before a last part that is settled, and the greatest element of the heap is settled next. -/
theorem round_meets {a b : IntArray α} {i : ℤ} {front tail : List α} (hi : 0 ≤ i) (htest : i < a.length - 1)
    (hshallow : Shallow b (a.length - 1 - i)) (hb : b.elems = front ++ tail)
    (hsettled : List.Settled a.elems front tail) (hlength : (tail.length : ℤ) = i) :
    (round a.length b i).Meets (Inside (a.length - 1)) (fun _ => False) fun c =>
      ∃ front' m, c.elems = front' ++ m :: tail ∧ List.Settled a.elems front' (m :: tail) := by
  have hsum := hsettled.length_eq
  have hblength : b.length = a.length := by
    rw [IntArray.length, hb, hsettled.perm.length_eq, IntArray.length]
  have hinside : ∀ o, Inside (a.length - 1 - i) o → Inside (a.length - 1) o := fun o ho => by
    cases o with
    | index j => exact ⟨ho.1, ho.2.trans (by omega)⟩
    | midpoint low mid high => trivial
  obtain ⟨last, hlast⟩ : ∃ last : ℕ, a.length - 1 - i = last := ⟨(a.length - 1 - i).toNat, by omega⟩
  rw [hlast] at hshallow hinside
  rw [round, hlast]
  have hfront : front.length = last + 1 := by rw [IntArray.length] at hlast; omega
  refine Meets.imp_log ?_ hinside
  refine (buildMaxHeap_meets hshallow (by omega) (by omega)).bind fun d hd => ?_
  obtain ⟨hkept, hheap⟩ := hd
  have hdlength := hkept.length_eq
  refine (swap_meets d (i := 0) ⟨by omega, by omega⟩ ⟨by omega, by omega⟩ (by omega)).imp_ok fun c hswapped => ?_
  rw [Int.toNat_natCast] at hswapped hheap
  obtain ⟨front', m, hc, hfront', hle⟩ := hswapped.settles (by rw [IntArray.length] at hdlength; omega) hheap
  have hdrop : d.elems.drop (last + 1) = tail := by
    have hkeep := hkept.drop
    rw [show ((last : ℤ) + 1).toNat = front.length by omega, hb, List.drop_left] at hkeep
    rw [← hfront, hkeep]
  rw [hdrop] at hc
  refine ⟨front', m, hc, hsettled.round ?_ hle⟩
  have hperm := hswapped.perm.trans hkept.perm
  rw [hc, hb, List.append_cons] at hperm
  exact (List.perm_append_right_iff tail).mp hperm

theorem rounds_meets {a b : IntArray α} {i : ℤ} {front tail : List α}
    (hshallow : ∀ b i, AtRound a b i → i < a.length - 1 → Shallow b (a.length - 1 - i))
    (hat : AtRound a b i) (hb : b.elems = front ++ tail) (hsettled : List.Settled a.elems front tail)
    (hlength : (tail.length : ℤ) = i) :
    (rounds a.length b i).Meets (Inside (a.length - 1)) (fun _ => False) fun sorted =>
      sorted.elems.Pairwise (· ≤ ·) ∧ sorted.elems.Perm a.elems := by
  induction hn : (a.length - 1 - i).toNat generalizing b i front tail with
  | zero =>
      rw [rounds, if_neg (by omega)]
      have hsum := hsettled.length_eq
      have hone : front.length ≤ 1 := by rw [IntArray.length] at hn; omega
      exact .pure ⟨hb ▸ hsettled.pairwise hone, hb ▸ hsettled.perm⟩
  | succ n ih =>
      rw [rounds, if_pos (by omega)]
      refine (round_meets (by omega) (by omega) (hshallow b i hat (by omega)) hb hsettled hlength).and_result.bind
        fun c hround => ?_
      obtain ⟨⟨front', m, hc, hsettled'⟩, hresult⟩ := hround
      exact ih (hat.next (by omega) hresult) hc hsettled' (by simp [hlength]) (by omega)

/-! ## The whole array -/

/-- It comes to its end without an exception, and then the array is sorted. -/
def Sorts (a : IntArray α) : Prop :=
  ∃ sorted, (main a).result = .ok sorted ∧ (∀ i, .index i ∈ (main a).log → 0 ≤ i ∧ i < a.length) ∧
    sorted.elems.Pairwise (· ≤ ·) ∧ sorted.elems.Perm a.elems

theorem sorts_of_shallow {a : IntArray α}
    (hshallow : ∀ b i, AtRound a b i → i < a.length - 1 → Shallow b (a.length - 1 - i)) : Sorts a := by
  have hmeets : (main a).Meets (Inside (a.length - 1)) (fun _ => False) fun sorted =>
      sorted.elems.Pairwise (· ≤ ·) ∧ sorted.elems.Perm a.elems :=
    rounds_meets hshallow .start (List.append_nil _).symm (.start _) rfl
  obtain ⟨sorted, hresult, hpairwise, hperm⟩ := hmeets.exists_ok fun _ => id
  refine ⟨sorted, hresult, fun i hi => ?_, hpairwise, hperm⟩
  have hinside : 0 ≤ i ∧ i ≤ a.length - 1 := hmeets.log _ hi
  omega

/-- Just if in no round an element sinks to an index with a child at an index that wraps around. -/
theorem main_sorts_iff (a : IntArray α) :
    Sorts a ↔ ∀ b i, AtRound a b i → i < a.length - 1 → Shallow b (a.length - 1 - i) := by
  constructor
  · rintro ⟨sorted, hresult, -, -⟩ b i hat htest d j k c hd hsinks
    by_contra hc
    rw [hat.sinks_deep htest hd hsinks (by omega)] at hresult
    cases hresult
  · exact sorts_of_shallow

theorem round_eq {a b : IntArray α} {i : ℤ} (h : AtRound a b i) (htest : i < a.length - 1)
    (hshallow : Shallow b (a.length - 1 - i)) : round a.length b i = Exact.round a.length b i := by
  have hbounds := h.bounds
  rw [round, Exact.round, buildMaxHeap_eq hshallow (by omega) (by omega)]

/-- The rounds with exact indices are the same as long as no element sinks too deep. -/
theorem Exact.AtRound.of_shallow {a b : IntArray α} {i : ℤ} (h : Exact.AtRound a b i)
    (hshallow : ∀ b i, HeapSort.AtRound a b i → i < a.length - 1 → Shallow b (a.length - 1 - i)) :
    HeapSort.AtRound a b i := by
  induction h with
  | start => exact .start
  | next h htest hround ih => exact ih.next htest (round_eq ih htest (hshallow _ _ ih htest) ▸ hround)

theorem AtRound.exact {a b : IntArray α} {i : ℤ} (h : AtRound a b i)
    (hinPlace : ∀ b i, Exact.AtRound a b i → i < a.length - 1 → Exact.InPlace b (a.length - 1 - i)) :
    Exact.AtRound a b i := by
  induction h with
  | start => exact .start
  | @next b c i h htest hround ih =>
      have hbounds := h.bounds
      have hshallow := (shallow_iff_inPlace (by omega)).mpr (hinPlace b i ih htest)
      exact ih.next htest (round_eq h htest hshallow ▸ hround)

/-- Just if every heap is built, with exact indices, without a change at the indices from `2 ^ 30` on. -/
theorem main_sorts_iff_inPlace (a : IntArray α) :
    Sorts a ↔ ∀ b i, Exact.AtRound a b i → i < a.length - 1 → Exact.InPlace b (a.length - 1 - i) := by
  rw [main_sorts_iff]
  constructor
  · intro hshallow b i h htest
    have hat := h.of_shallow hshallow
    have hbounds := hat.bounds
    exact (shallow_iff_inPlace (by omega)).mp (hshallow b i hat htest)
  · intro hinPlace b i h htest
    have hbounds := h.bounds
    exact (shallow_iff_inPlace (by omega)).mpr (hinPlace b i (h.exact hinPlace) htest)

theorem sinking_not_sorts {n : ℕ} {h : n + 1 < 2 ^ 31} (hn : 2 ^ 30 ≤ n) : ¬ Sorts (sinking n h) := by
  rintro ⟨sorted, hresult, -⟩
  have hlength := sinking_length (h := h)
  have hlast : (sinking n h).length - 1 - 0 = n := by omega
  have hd := sinking_atTest (h := h) (by omega)
  have hsinks := sinking_sinks (h := h) (by omega)
  rw [← hlast] at hd hsinks
  rw [AtRound.start.sinks_deep (by omega) hd hsinks (by omega)] at hresult
  cases hresult

/-- For the arrays of all contents, just up to the length `2 ^ 30`. -/
theorem main_sorts_any_iff {n : ℕ} (h : n < 2 ^ 31) :
    (∀ a : IntArray ℤ, a.length = n → Sorts a) ↔ n ≤ 2 ^ 30 := by
  constructor
  · intro hsorts
    by_contra hlarge
    obtain ⟨m, rfl⟩ : ∃ m, n = m + 1 := ⟨n - 1, by omega⟩
    exact sinking_not_sorts (h := h) (by omega) (hsorts _ sinking_length)
  · intro hsmall a ha
    refine sorts_of_shallow fun b i hat _ => shallow_of_lt b ?_
    have hbounds := hat.bounds
    omega

theorem sinking_not_sorted : ¬ Sorts (sinking (2 ^ 30) (by decide)) := sinking_not_sorts (Nat.le_refl _)

end MyDemo.Sort.HeapSort

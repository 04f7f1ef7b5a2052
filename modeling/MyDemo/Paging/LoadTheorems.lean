import MyDemo.Paging.DataRepository

/-!
# What the data sources deliver
-/

namespace MyDemo.Paging

open CountingLoop
open MyDemo.Sort (wrap wrap_eq wrap_of_le)

def beans (n : ℕ) : List Bean := (List.range n).map (fun (i : ℕ) => bean (i + 1))

theorem length_beans (n : ℕ) : (beans n).length = n := by rw [beans, List.length_map, List.length_range]

theorem beans_succ (n : ℕ) : beans (n + 1) = beans n ++ [bean (n + 1)] := by simp [beans, List.range_succ]

theorem getElem_beans {n i : ℕ} (hi : i < n) : (beans n)[i]? = some (bean (i + 1)) := by simp [beans, hi]

namespace DataRepository

variable {α : Type} {xs : List α} {i k n : ℕ}

/-! ## The loop over the indices -/

theorem countUp_add (acc : List α) (h : i + k ≤ xs.length) : countUp (i : ℤ) (i + k : ℕ)
    (fun result j => do return result ++ [← JArray.get xs j]) acc =
      (.ok (acc ++ (xs.drop i).take k) : Except Exn (List α)) := by
  induction k generalizing i acc with
  | zero => rw [countUp_of_le (by omega), List.take_zero, List.append_nil]
  | succ k ih =>
      have hget : JArray.get xs i = .ok xs[i] := JArray.get_of_getElem? (List.getElem?_eq_getElem (by omega)) rfl
      have hnext := @ih (i + 1) (acc ++ [xs[i]]) (by omega)
      rw [show i + 1 + k = i + (k + 1) by omega, Int.natCast_succ] at hnext
      rw [countUp_of_lt (by omega), hget, List.drop_eq_getElem_cons (by omega), List.take_succ_cons]
      exact hnext.trans (by rw [List.append_assoc, List.singleton_append])

theorem countUp_add_error (acc : List α) (hi : i ≤ xs.length) (hn : xs.length < n) : countUp (i : ℤ) (n : ℤ)
    (fun result j => do return result ++ [← JArray.get xs j]) acc =
      (.error .indexOutOfBounds : Except Exn (List α)) := by
  induction hk : xs.length - i generalizing i acc with
  | zero =>
      have hget : JArray.get xs i = .error .indexOutOfBounds := by
        rw [JArray.get, if_pos (by omega), Int.toNat_natCast, List.getElem?_eq_none (by omega)]
      rw [countUp_of_lt (by omega), hget]
      rfl
  | succ k ih =>
      have hget : JArray.get xs i = .ok xs[i] := JArray.get_of_getElem? (List.getElem?_eq_getElem (by omega)) rfl
      have hnext := @ih (i + 1) (acc ++ [xs[i]]) (by omega) (by omega)
      rw [Int.natCast_succ] at hnext
      rw [countUp_of_lt (by omega), hget]
      exact hnext

/-! ## Pages -/

/-- The `k`-th page, from 0. -/
def slice (pageSize totalSize k : ℕ) : List Bean := ((beans totalSize).drop (k * pageSize)).take pageSize

theorem datas_eq (pageSize totalSize : ℕ) : DataRepository.datas ⟨pageSize, totalSize⟩ = beans totalSize := rfl

theorem getPageData_eq {pageSize totalSize k : ℕ} (hfits : (k + 1) * pageSize ≤ totalSize)
    (ht : totalSize < 2 ^ 31) (hp : 1 ≤ pageSize) :
    DataRepository.getPageData ⟨pageSize, totalSize⟩ (k + 1 : ℕ) = .ok (slice pageSize totalSize k) := by
  have hkp : k * pageSize + pageSize = (k + 1) * pageSize := (Nat.succ_mul k pageSize).symm
  have hk : k ≤ k * pageSize := Nat.le_mul_of_pos_right k hp
  have hlow : wrap (wrap ((k + 1 : ℕ) - 1) * pageSize) = (k * pageSize : ℕ) := by
    rw [Int.natCast_succ, Int.add_sub_cancel, wrap_eq (n := (k : ℤ)) (by omega) (by omega), ← Int.natCast_mul,
      wrap_eq (by omega) (by omega)]
  have hhigh : wrap (wrap ((k + 1 : ℕ) * pageSize) - 1) + 1 = (k * pageSize + pageSize : ℕ) := by
    rw [← Int.natCast_mul, wrap_eq (n := (((k + 1) * pageSize : ℕ) : ℤ)) (by omega) (by omega),
      wrap_eq (by omega) (by omega)]
    omega
  rw [getPageData, datas_eq, hlow, hhigh]
  exact countUp_add [] (by rw [length_beans]; omega)

theorem flatten_slices {pageSize totalSize : ℕ} (q : ℕ) :
    ((List.range q).map (slice pageSize totalSize)).flatten = (beans totalSize).take (q * pageSize) := by
  induction q with
  | zero => simp
  | succ q ih =>
      rw [List.range_succ, List.map_append, List.flatten_append, ih, Nat.succ_mul, List.take_add]
      simp [slice]

end DataRepository

/-! ## By page -/

namespace MyPageKeyedDataSource

open DataRepository

variable {pageSize totleSize : ℕ}

theorem lastKey_eq : (totleSize : ℤ).tdiv pageSize = (totleSize / pageSize : ℕ) := rfl

theorem loadAfter_of_le {k : ℕ} (hk : k + 1 ≤ totleSize / pageSize) (hp : 1 ≤ pageSize) (ht : totleSize < 2 ^ 31) :
    loadAfter pageSize totleSize (wrap (k + 1 : ℕ)) =
      .ok (some (slice pageSize totleSize k, some (wrap (k + 1 + 1 : ℕ)))) := by
  have hfits : (k + 1) * pageSize ≤ totleSize := (Nat.le_div_iff_mul_le hp).mp hk
  have hle : totleSize / pageSize ≤ totleSize := Nat.div_le_self _ _
  rw [wrap_eq (by omega) (by omega), loadAfter, lastKey_eq, if_neg (by omega), dataRepository,
    getPageData_eq hfits ht hp]
  rfl

theorem loadAfter_of_lt {key : ℤ} (h : (totleSize / pageSize : ℕ) < key) :
    loadAfter pageSize totleSize key = .ok none := by
  rw [loadAfter, lastKey_eq, if_pos h]
  rfl

theorem loadInitial_of_le (h : pageSize ≤ totleSize) (hp : 1 ≤ pageSize) (ht : totleSize < 2 ^ 31) :
    loadInitial pageSize totleSize = .ok (slice pageSize totleSize 0, some 2) := by
  have hfirst : DataRepository.getPageData ⟨pageSize, totleSize⟩ 1 = .ok (slice pageSize totleSize 0) :=
    getPageData_eq (k := 0) (by omega) ht hp
  rw [loadInitial, dataRepository, hfirst]
  rfl

@[simp] theorem loadInitial_source (pageSize totleSize : ℤ) :
    (source pageSize totleSize).loadInitial = loadInitial pageSize totleSize := rfl

@[simp] theorem loadAfter_source (pageSize totleSize : ℤ) :
    (source pageSize totleSize).loadAfter = loadAfter pageSize totleSize := rfl

theorem row (hp : 1 ≤ pageSize) (ht : totleSize < 2 ^ 31) {n : ℕ} (hn : totleSize / pageSize = n + 1) (i : ℕ)
    (hi : i < n) : (source pageSize totleSize).loadAfter (wrap (i + 1 + 1 : ℕ)) =
      .ok (some (slice pageSize totleSize (i + 1), some (wrap (i + 1 + 1 + 1 : ℕ)))) := by
  rw [loadAfter_source]
  exact loadAfter_of_le (by omega) hp ht

theorem delivers (hp : 1 ≤ pageSize) (ht : totleSize < 2 ^ 31) (h : pageSize ≤ totleSize)
    (hnext : totleSize / pageSize + 1 < 2 ^ 31) : (source pageSize totleSize).Delivers
      ((List.range (totleSize / pageSize)).map (slice pageSize totleSize)) := by
  obtain ⟨n, hn⟩ : ∃ n, totleSize / pageSize = n + 1 :=
    Nat.exists_eq_succ_of_ne_zero (Nat.div_pos h hp).ne'
  have hend : (source pageSize totleSize).loadAfter (wrap (n + 1 + 1 : ℕ)) = .ok none := by
    rw [loadAfter_source]
    exact loadAfter_of_lt (by rw [wrap_eq (by omega) (by omega)]; omega)
  have hrow := Paging.DataSource.loads_of_row (fun i => wrap (i + 1 + 1 : ℕ))
    (fun i => slice pageSize totleSize (i + 1)) (row hp ht hn) hend (Nat.zero_le n)
  rw [Nat.sub_zero, ← List.range_eq_range'] at hrow
  rw [hn, List.range_succ_eq_map, List.map_cons, List.map_map]
  exact .initial (loadInitial_of_le h hp ht) hrow

theorem loadInitial_of_lt (h : totleSize < pageSize) (hp : pageSize < 2 ^ 31) :
    loadInitial pageSize totleSize = .error .indexOutOfBounds := by
  have hhigh : wrap (wrap (1 * pageSize) - 1) + 1 = (pageSize : ℤ) := by
    rw [Int.one_mul, wrap_eq (n := (pageSize : ℤ)) (by omega) (by omega), wrap_eq (by omega) (by omega)]
    omega
  have hfirst : DataRepository.getPageData ⟨pageSize, totleSize⟩ 1 = .error .indexOutOfBounds := by
    have hlow : wrap (wrap (1 - 1) * pageSize) = (0 : ℕ) := by
      rw [Int.sub_self, wrap_eq (n := 0) (by decide) (by decide), Int.zero_mul, wrap_eq (by decide) (by decide)]
      rfl
    rw [getPageData, datas_eq, hlow, hhigh]
    exact countUp_add_error [] (Nat.zero_le _) (by rw [length_beans]; exact h)
  rw [loadInitial, dataRepository, hfirst]
  rfl

/-- With pages of one bean and as many beans as there can be, the key after the last page wraps around. -/
theorem loadAfter_of_overflow (ht : totleSize = 2 ^ 31 - 1) :
    loadAfter (1 : ℕ) totleSize (wrap (totleSize + 1 : ℕ)) = .error .indexOutOfBounds := by
  have hkey : wrap (totleSize + 1 : ℕ) = -2 ^ 31 := by
    rw [wrap_of_le (by omega) (by omega)]
    omega
  have hlow : wrap (wrap (-2 ^ 31 - 1) * (1 : ℕ)) = (totleSize : ℕ) := by
    have hprev : wrap (-2 ^ 31 - 1) = 2 ^ 31 - 1 := by decide
    rw [hprev, Int.natCast_one, Int.mul_one, wrap_eq (by decide) (by decide), ht]
    decide
  have hhigh : wrap (wrap (-2 ^ 31 * (1 : ℕ)) - 1) + 1 = (totleSize + 1 : ℕ) := by
    have hprev : wrap (-2 ^ 31) = -2 ^ 31 := by decide
    have hlast : wrap (-2 ^ 31 - 1) = 2 ^ 31 - 1 := by decide
    rw [Int.natCast_one, Int.mul_one, hprev, hlast, ht]
    decide
  have hpage : DataRepository.getPageData ⟨(1 : ℕ), totleSize⟩ (-2 ^ 31) = .error .indexOutOfBounds := by
    rw [getPageData, datas_eq, hlow, hhigh]
    exact countUp_add_error [] (by rw [length_beans]) (by rw [length_beans]; omega)
  rw [hkey, loadAfter, lastKey_eq, Nat.div_one, if_neg (by omega), dataRepository, hpage]
  rfl

theorem not_delivers_of_overflow (ht : totleSize = 2 ^ 31 - 1) (pages : List (List Bean)) :
    ¬ (source (1 : ℕ) totleSize).Delivers pages := by
  rintro ⟨hfirst, hrest⟩
  rw [loadInitial_source, loadInitial_of_le (by omega) (le_refl 1) (by omega)] at hfirst
  cases hfirst
  obtain ⟨n, hn⟩ : ∃ n, totleSize / 1 = n + 1 := ⟨2 ^ 31 - 2, by omega⟩
  have hend : (source (1 : ℕ) totleSize).loadAfter (wrap (n + 1 + 1 : ℕ)) = .error .indexOutOfBounds := by
    rw [loadAfter_source, ← hn, Nat.div_one]
    exact loadAfter_of_overflow ht
  exact Paging.DataSource.not_loads_of_row (fun i => wrap (i + 1 + 1 : ℕ)) (fun i => slice 1 totleSize (i + 1))
    (row (le_refl 1) (by omega) hn) hend (Nat.zero_le n) _ hrest

/-- All beans are delivered exactly where they fill at least one page, and each of their pages, and the key
after the last page does not overflow. -/
theorem pages_complete_iff (hp : 1 ≤ pageSize) (hp' : pageSize < 2 ^ 31) (ht : totleSize < 2 ^ 31) :
    (source pageSize totleSize).Completes (beans totleSize) ↔
      pageSize ∣ totleSize ∧ 0 < totleSize ∧ totleSize / pageSize + 1 < 2 ^ 31 := by
  rcases Nat.lt_or_ge totleSize pageSize with hlt | hle
  · refine iff_of_false (Paging.DataSource.not_completes_of_error (loadInitial_of_lt hlt hp')) ?_
    rintro ⟨hdvd, hpos, _⟩
    exact absurd (Nat.le_of_dvd hpos hdvd) (by omega)
  · rcases Nat.lt_or_ge (totleSize / pageSize + 1) (2 ^ 31) with hnext | hover
    · have hlast : totleSize / pageSize * pageSize ≤ totleSize := Nat.div_mul_le_self _ _
      have hlength : ((beans totleSize).take (totleSize / pageSize * pageSize)).length =
          totleSize / pageSize * pageSize := by
        rw [List.length_take, length_beans, Nat.min_eq_left hlast]
      rw [Paging.DataSource.completes_iff (delivers hp ht hle hnext), flatten_slices]
      constructor
      · intro hall
        rw [hall, length_beans] at hlength
        exact ⟨⟨_, hlength.trans (Nat.mul_comm _ _)⟩, by omega, hnext⟩
      · rintro ⟨hdvd, _, _⟩
        rw [Nat.div_mul_cancel hdvd, List.take_of_length_le (length_beans _).le]
    · have hone : pageSize = 1 := by
        by_contra hne
        have htwo : totleSize / pageSize ≤ totleSize / 2 := Nat.div_le_div_left (by omega) (by decide)
        omega
      subst hone
      rw [Nat.div_one] at hover ⊢
      refine iff_of_false ?_ (by omega)
      rintro ⟨pages, hpages, _⟩
      exact not_delivers_of_overflow (by omega) pages hpages

theorem pages_complete_iff_two :
    (source (2 : ℕ) (4 : ℕ)).Completes (beans 4) ↔ 2 ∣ 4 ∧ 0 < 4 ∧ 4 / 2 + 1 < 2 ^ 31 :=
  pages_complete_iff (by decide) (by decide) (by decide)

/-- The last page has five beans only. -/
theorem partial_page_missing : ¬ (source (10 : ℕ) (25 : ℕ)).Completes (beans 25) := by
  rw [Paging.DataSource.completes_iff (delivers (by decide) (by decide) (by decide) (by decide)), flatten_slices]
  intro hall
  have hlength := congrArg List.length hall
  rw [List.length_take, length_beans] at hlength
  exact absurd hlength (by decide)

end MyPageKeyedDataSource

/-! ## By item -/

namespace MyItemKeyedDataSource

open DataRepository

variable {pageSize totleSize : ℕ}

theorem loadInitial_source (pageSize totleSize : ℤ) : (source pageSize totleSize).loadInitial =
    (loadInitial pageSize totleSize).map withKey := rfl

theorem loadAfter_source (pageSize totleSize key : ℤ) : (source pageSize totleSize).loadAfter key =
    (loadAfter pageSize totleSize key).map (Option.map withKey) := rfl

theorem loadAfter_of_lt {key : ℕ} (h : key < totleSize) :
    loadAfter pageSize totleSize key = .ok (some [bean (key + 1)]) := by
  have hget : JArray.get (beans totleSize) key = .ok (bean (key + 1)) := JArray.get_of_getElem? (getElem_beans h) rfl
  rw [loadAfter, if_neg (by omega), dataRepository, getItemData, datas_eq, hget]
  rfl

theorem loadAfter_self : loadAfter pageSize totleSize totleSize = .ok none := by
  rw [loadAfter, if_pos rfl]
  rfl

theorem loadInitial_eq (hp : 1 ≤ pageSize) (h : pageSize ≤ totleSize) (ht : totleSize < 2 ^ 31) :
    loadInitial pageSize totleSize = .ok (beans pageSize) := by
  have hslice : slice pageSize totleSize 0 = beans pageSize := by
    rw [slice, Nat.zero_mul, List.drop_zero, beans, beans, ← List.map_take, List.take_range, Nat.min_eq_left h]
  rw [loadInitial, dataRepository, ← hslice]
  exact getPageData_eq (k := 0) (by omega) ht hp

theorem withKey_append (page : List Bean) (i : ℤ) : withKey (page ++ [bean i]) = (page ++ [bean i], some i) := by
  rw [withKey, List.getLast?_append, List.getLast?_singleton]
  rfl

theorem withKey_beans (hp : 1 ≤ pageSize) : withKey (beans pageSize) = (beans pageSize, some (pageSize : ℤ)) := by
  obtain ⟨n, rfl⟩ : ∃ n, pageSize = n + 1 := Nat.exists_eq_succ_of_ne_zero (by omega)
  rw [beans_succ]
  exact withKey_append _ _

theorem delivers (hp : 1 ≤ pageSize) (h : pageSize ≤ totleSize) (ht : totleSize < 2 ^ 31) :
    (source pageSize totleSize).Delivers (beans pageSize ::
      (List.range (totleSize - pageSize)).map (fun i => [bean ((pageSize + i : ℕ) + 1)])) := by
  have hfirst : (source pageSize totleSize).loadInitial = .ok (beans pageSize, some (pageSize : ℤ)) := by
    rw [loadInitial_source, loadInitial_eq hp h ht]
    exact congrArg Except.ok (withKey_beans hp)
  have hrow (i : ℕ) (hi : i < totleSize - pageSize) : (source pageSize totleSize).loadAfter (pageSize + i : ℕ) =
      .ok (some ([bean ((pageSize + i : ℕ) + 1)], some ((pageSize + (i + 1) : ℕ) : ℤ))) := by
    rw [loadAfter_source, loadAfter_of_lt (by omega)]
    exact congrArg (fun page => Except.ok (some page)) (withKey_append [] _)
  have hend : (source pageSize totleSize).loadAfter (pageSize + (totleSize - pageSize) : ℕ) = .ok none := by
    rw [loadAfter_source, Nat.add_sub_cancel' h, loadAfter_self]
    rfl
  have hloads := Paging.DataSource.loads_of_row (fun i => ((pageSize + i : ℕ) : ℤ))
    (fun i => [bean ((pageSize + i : ℕ) + 1)]) hrow hend (Nat.zero_le _)
  rw [Nat.sub_zero, ← List.range_eq_range'] at hloads
  exact .initial hfirst hloads

theorem beans_append (m n : ℕ) :
    beans m ++ ((List.range n).map (fun i => [bean ((m + i : ℕ) + 1)])).flatten = beans (m + n) := by
  induction n with
  | zero => simp
  | succ n ih =>
      rw [List.range_succ, List.map_append, List.flatten_append, ← List.append_assoc, ih, ← Nat.add_assoc,
        beans_succ]
      simp

/-- All beans are delivered, each once and in order, in finitely many calls that do not throw. -/
theorem items_complete (hp : 1 ≤ pageSize) (h : pageSize ≤ totleSize) (ht : totleSize < 2 ^ 31) :
    (source pageSize totleSize).Completes (beans totleSize) := by
  refine ⟨_, delivers hp h ht, ?_⟩
  rw [List.flatten_cons, beans_append, Nat.add_sub_cancel' h]

theorem items_complete_ten : (source (10 : ℕ) (25 : ℕ)).Completes (beans 25) :=
  items_complete (by decide) (by decide) (by decide)

end MyItemKeyedDataSource

end MyDemo.Paging

import MyDemo.Lib.Search
import MyDemo.Lib.Utf16

/-!
# What the Java and Kotlin sources share
-/

namespace MyDemo

abbrev JByte := BitVec 8

abbrev JInt := BitVec 32

/-- A Java `String`: any list of UTF-16 code units. -/
abbrev JString := List Utf16.CodeUnit

inductive Exn where
  | nullPointer
  | indexOutOfBounds
  deriving DecidableEq, Repr

@[simp] theorem Exn.ok_bind.{u} {β γ : Type u} (b : β) (f : β → Except Exn γ) : (.ok b >>= f) = f b := rfl

/-- How the first step went, where two steps have gone well. -/
theorem Exn.bind_eq_ok.{u} {β γ : Type u} {x : Except Exn β} {f : β → Except Exn γ} {c : γ} :
    (x >>= f) = .ok c ↔ ∃ b, x = .ok b ∧ f b = .ok c := by
  cases x with
  | error e => simp [bind, Except.bind]
  | ok b => simp [bind, Except.bind]

def jstring (s : String) : JString := Utf16.encode (s.toList.map Char.toNat)

namespace JString

def indexOf (s string : JString) : ℤ :=
  match Search.indexOf string s with
  | some i => i
  | none => -1

/-- Kotlin's `replaceFirst(oldValue, newValue)`, which takes no pattern. -/
def replaceFirst (s oldValue newValue : JString) : JString :=
  match Search.indexOf oldValue s with
  | some i => s.take i ++ newValue ++ s.drop (i + oldValue.length)
  | none => s

/-- Kotlin's `replace(oldValue, newValue)`, for an `oldValue` that is not empty. -/
def replace (s oldValue newValue : JString) : JString := Search.replaceAll oldValue newValue s

def substring (s : JString) (startIndex endIndex : ℤ) : Except Exn JString :=
  if 0 ≤ startIndex ∧ startIndex ≤ endIndex ∧ endIndex ≤ s.length then
    .ok ((s.take endIndex.toNat).drop startIndex.toNat)
  else .error .indexOutOfBounds

/-- `StringBuffer.insert`. -/
def insert (s : JString) (offset : ℤ) (str : JString) : Except Exn JString :=
  if 0 ≤ offset ∧ offset ≤ s.length then .ok (s.take offset.toNat ++ str ++ s.drop offset.toNat)
  else .error .indexOutOfBounds

end JString

/-! ## Arrays -/

namespace JArray

variable {α : Type*} {xs ys pre post : List α} {i : ℤ} {a b : α}

/-- `xs[i]`. -/
def get (xs : List α) (i : ℤ) : Except Exn α :=
  match if 0 ≤ i then xs[i.toNat]? else none with
  | some a => .ok a
  | none => .error .indexOutOfBounds

/-- `xs[i] = a`. -/
def set (xs : List α) (i : ℤ) (a : α) : Except Exn (List α) :=
  if 0 ≤ i ∧ i < xs.length then .ok (xs.set i.toNat a) else .error .indexOutOfBounds

theorem exists_get (h : 0 ≤ i) (hi : i < xs.length) : ∃ a, get xs i = .ok a := by
  rw [get, if_pos h, List.getElem?_eq_getElem (by omega)]
  exact ⟨_, rfl⟩

theorem getElem?_of_get (h : get xs i = .ok a) : 0 ≤ i ∧ xs[i.toNat]? = some a := by
  rw [get] at h
  split at h
  · next x hx =>
      cases h
      split at hx
      · next hi => exact ⟨hi, hx⟩
      · cases hx
  · cases h

theorem get_of_getElem? {n : ℕ} (h : xs[n]? = some a) (hi : i = n) : get xs i = .ok a := by
  rw [get, if_pos (by omega), hi, Int.toNat_natCast, h]

theorem get_of_neg (h : i < 0) : get xs i = .error .indexOutOfBounds := by
  rw [get, if_neg (by omega)]

theorem set_eq (h : 0 ≤ i) (hi : i < xs.length) : set xs i a = .ok (xs.set i.toNat a) := if_pos ⟨h, hi⟩

/-- `temp = xs[i]; xs[i] = xs[j]; xs[j] = temp`. -/
def swap (xs : List α) (i j : ℤ) : Except Exn (List α) := do
  let temp ← get xs i
  let xs ← set xs i (← get xs j)
  set xs j temp

theorem get_append (h : i = pre.length) : get (pre ++ a :: post) i = .ok a := by
  subst h
  simp [get]

theorem set_append (h : i = pre.length) : set (pre ++ a :: post) i b = .ok (pre ++ b :: post) := by
  subst h
  rw [set, if_pos ⟨by omega, by rw [List.length_append, List.length_cons]; omega⟩]
  simp

theorem get_eq_ok : get xs i = .ok a ↔ ∃ pre post, xs = pre ++ a :: post ∧ i = pre.length := by
  constructor
  · intro h
    obtain ⟨hi, ha⟩ := getElem?_of_get h
    obtain ⟨hlt, rfl⟩ := List.getElem?_eq_some_iff.mp ha
    refine ⟨xs.take i.toNat, xs.drop (i.toNat + 1), ?_, ?_⟩
    · rw [← List.drop_eq_getElem_cons hlt, List.take_append_drop]
    · rw [List.length_take]
      omega
  · rintro ⟨pre, post, rfl, hi⟩
    exact get_append hi

/-- At an index between two parts stands an element of what is there. -/
theorem exists_get_between {mid : List α} (h : pre.length ≤ i) (hi : i < pre.length + mid.length) :
    ∃ a ∈ mid, get (pre ++ mid ++ post) i = .ok a := by
  obtain ⟨a, ha⟩ := exists_get (by omega : 0 ≤ i - pre.length) (by omega : i - pre.length < mid.length)
  obtain ⟨left, right, rfl, hleft⟩ := get_eq_ok.mp ha
  refine ⟨a, by simp, ?_⟩
  have harray : pre ++ (left ++ a :: right) ++ post = pre ++ left ++ a :: (right ++ post) := by simp
  rw [harray]
  exact get_append (by rw [List.length_append]; omega)

/-- At an index before or after the part that differs stands the same element, if any. -/
theorem get_outside (hlength : xs.length = ys.length) (h : i < pre.length ∨ pre.length + xs.length ≤ i) :
    get (pre ++ xs ++ post) i = get (pre ++ ys ++ post) i := by
  obtain hneg | hi := Int.lt_or_le i 0
  · rw [get_of_neg hneg, get_of_neg hneg]
  · rw [get, get, if_pos hi, if_pos hi, List.append_assoc, List.append_assoc]
    obtain hbefore | hafter := h
    · rw [List.getElem?_append_left (by omega), List.getElem?_append_left (by omega)]
    · rw [List.getElem?_append_right (by omega), List.getElem?_append_right (by omega),
        List.getElem?_append_right (by omega), List.getElem?_append_right (by omega), hlength]

theorem swap_append {mid : List α} {j : ℤ} (hi : i = pre.length) (hj : j = pre.length + 1 + mid.length) :
    swap (pre ++ a :: (mid ++ b :: post)) i j = .ok (pre ++ b :: (mid ++ a :: post)) := by
  have hget : get (pre ++ a :: mid ++ b :: post) j = .ok b := get_append (by simp; omega)
  have hset : set (pre ++ b :: mid ++ b :: post) j a = .ok (pre ++ b :: mid ++ a :: post) :=
    set_append (by simp; omega)
  simp only [List.append_assoc, List.cons_append] at hget hset
  rw [swap, get_append hi, Exn.ok_bind, hget, Exn.ok_bind, set_append hi, Exn.ok_bind, hset]

theorem swap_self (hi : i = pre.length) : swap (pre ++ a :: post) i i = .ok (pre ++ a :: post) := by
  rw [swap, get_append hi, Exn.ok_bind, Exn.ok_bind, set_append hi, Exn.ok_bind, set_append hi]

theorem get_set (h : set xs i a = .ok ys) : get ys i = .ok a := by
  rw [set] at h
  split at h
  · next hi =>
      cases h
      rw [get, if_pos hi.1, List.getElem?_set_self (by omega)]
  · cases h

end JArray

end MyDemo

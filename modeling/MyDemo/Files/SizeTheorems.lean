import MyDemo.Files.FileSizeUtil
import Mathlib.Tactic.Positivity

/-!
# How sizes are printed

The number is rounded after its unit has been chosen, so that it may come to 1024 of that unit.
-/

namespace MyDemo.Files

open Rounding

theorem DecimalFormat.power_pos (df : DecimalFormat) : 0 < df.power := by cases df <;> decide

namespace FileSizeUtil

variable {size s t : ℤ} {isInteger : Bool}

theorem SizeUnit.bytes_pos (unit : SizeUnit) : 0 < unit.bytes := by cases unit <;> decide

/-- The bytes that the printed number and its unit stand for. -/
def shown (size : ℤ) (isInteger : Bool) : ℚ := numberOf size isInteger * (unitOf size).bytes

/-- One of the last digit that may be printed. -/
def digit (size : ℤ) (isInteger : Bool) : ℚ := (unitOf size).bytes / (formatOf isInteger).power

/-- Just below 1024 of a unit, where the number is rounded to 1024. -/
def RoundsUp (size : ℤ) (isInteger : Bool) : Prop :=
  if isInteger then 1048064 ≤ size ∧ size < 1048576 ∨ 1073217536 ≤ size ∧ size < 1073741824
  else 1048525 ≤ size ∧ size < 1048576 ∨ 1073689396 ≤ size ∧ size < 1073741824

/-! ## Accuracy -/

theorem digit_pos (size : ℤ) (isInteger : Bool) : 0 < digit size isInteger := by
  have hbytes := (unitOf size).bytes_pos
  have hpower := (formatOf isInteger).power_pos
  rw [digit]
  positivity

theorem bytes_eq (size : ℤ) (isInteger : Bool) :
    ((unitOf size).bytes : ℚ) = (formatOf isInteger).power * digit size isInteger := by
  have hpower : ((formatOf isInteger).power : ℚ) ≠ 0 := by exact_mod_cast (formatOf isInteger).power_pos.ne'
  rw [digit, mul_div_cancel₀ _ hpower]

theorem shown_eq (size : ℤ) (isInteger : Bool) : shown size isInteger = roundTo (digit size isInteger) size := by
  rw [shown, numberOf, DecimalFormat.printed, DecimalFormat.rounded, roundTo, digit, div_div_eq_mul_div,
    div_mul_eq_mul_div, div_mul_eq_mul_div, mul_div_assoc]

theorem shown_accurate (size : ℤ) (isInteger : Bool) :
    |shown size isInteger - size| ≤ digit size isInteger / 2 := by
  rw [shown_eq]
  exact abs_roundTo_sub_le (digit_pos size isInteger) size

/-! ## Order -/

theorem bytes_le (h : 0 < size) : (unitOf size).bytes ≤ size := by
  unfold unitOf
  split_ifs <;> simp only [SizeUnit.bytes] <;> omega

/-- A greater size has the same unit, or one of at least 1024 times as many bytes. -/
theorem unitOf_mono (hs : 0 < s) (h : s ≤ t) :
    unitOf s = unitOf t ∨ s < 1024 * (unitOf s).bytes ∧ 1024 * (unitOf s).bytes ≤ (unitOf t).bytes := by
  unfold unitOf
  split_ifs <;> simp only [SizeUnit.bytes, true_or, false_or] <;> omega

theorem shown_le (h : size < 1024 * (unitOf size).bytes) : shown size isInteger ≤ 1024 * (unitOf size).bytes := by
  have hmultiple : (1024 * (unitOf size).bytes : ℚ) =
      ((1024 * (formatOf isInteger).power : ℤ) : ℚ) * digit size isInteger := by
    rw [bytes_eq size isInteger, Int.cast_mul, mul_assoc]
    rfl
  have hle : (size : ℚ) ≤ 1024 * (unitOf size).bytes := by exact_mod_cast h.le
  rw [shown_eq, hmultiple]
  exact roundTo_le (digit_pos size isInteger) (hmultiple ▸ hle)

theorem bytes_le_shown (h : 0 < size) : ((unitOf size).bytes : ℚ) ≤ shown size isInteger := by
  have hle : ((unitOf size).bytes : ℚ) ≤ size := by exact_mod_cast bytes_le h
  rw [bytes_eq size isInteger, ← Int.cast_natCast] at hle ⊢
  rw [shown_eq]
  exact le_roundTo (digit_pos size isInteger) hle

theorem shown_mono (hs : 0 < s) (h : s ≤ t) : shown s isInteger ≤ shown t isInteger := by
  rcases unitOf_mono hs h with hunit | ⟨hlt, hle⟩
  · have hdigit : digit s isInteger = digit t isInteger := by rw [digit, digit, hunit]
    rw [shown_eq, shown_eq, hdigit]
    exact roundTo_mono (digit_pos t isInteger) (by exact_mod_cast h)
  · calc shown s isInteger ≤ 1024 * (unitOf s).bytes := shown_le hlt
      _ ≤ (unitOf t).bytes := by exact_mod_cast hle
      _ ≤ shown t isInteger := bytes_le_shown (hs.trans_le h)

/-! ## The bands -/

theorem numberOf_lt_iff : numberOf size isInteger < 1024 ↔
    2 * (formatOf isInteger).power * size < (2048 * (formatOf isInteger).power - 1) * (unitOf size).bytes := by
  have hpower : (0 : ℚ) < (formatOf isInteger).power := by exact_mod_cast (formatOf isInteger).power_pos
  have hbytes : (0 : ℚ) < (unitOf size).bytes := by exact_mod_cast (unitOf size).bytes_pos
  have heven : Even (1024 * (formatOf isInteger).power : ℤ) := (by decide : Even (1024 : ℤ)).mul_right _
  have hcast : (1024 * (formatOf isInteger).power : ℚ) = ((1024 * (formatOf isInteger).power : ℤ) : ℚ) := by
    push_cast
    rfl
  rw [numberOf, DecimalFormat.printed, div_lt_iff₀ hpower, hcast, Int.cast_lt, DecimalFormat.rounded, ← not_le,
    le_roundHalfEven_iff heven, not_le, div_mul_eq_mul_div, div_lt_iff₀ hbytes, ← hcast]
  rw [← Int.cast_lt (R := ℚ)]
  push_cast
  constructor <;> intro h <;> linarith

theorem roundsUp_iff (h : 0 < size) :
    RoundsUp size isInteger ↔ ¬ (numberOf size isInteger < 1024 ∨ unitOf size = .G) := by
  rw [numberOf_lt_iff, RoundsUp, unitOf]
  cases isInteger <;> simp only [formatOf, fileIntegerFormat, fileDecimalFormat, DecimalFormat.power,
    Bool.false_eq_true, if_true, if_false]
  all_goals split_ifs <;> simp only [SizeUnit.bytes, or_false, or_true, not_true, not_lt, iff_false] <;> omega

/-- The text of a size shows this number. -/
theorem formatFileSize_shows (h : 0 < size) (isInteger : Bool) : ∃ n : ℕ,
    formatFileSize size isInteger = (formatOf isInteger).text n ++ (unitOf size).letter ∧
      numberOf size isInteger = n / (formatOf isInteger).power := by
  have hbytes : (0 : ℚ) < (unitOf size).bytes := by exact_mod_cast (unitOf size).bytes_pos
  have hsize : (0 : ℚ) ≤ size / (unitOf size).bytes := div_nonneg (by exact_mod_cast h.le) hbytes.le
  have hrounded : 0 ≤ (formatOf isInteger).rounded (size / (unitOf size).bytes) := by
    have hzero := roundHalfEven_intCast (K := ℚ) 0
    rw [DecimalFormat.rounded, ← hzero]
    refine roundHalfEven_mono ?_
    rw [Int.cast_zero]
    positivity
  obtain ⟨n, hn⟩ := Int.eq_ofNat_of_zero_le hrounded
  refine ⟨n, ?_, ?_⟩
  · rw [formatFileSize_eq, DecimalFormat.format, if_neg (not_lt.mpr hsize), List.nil_append, hn, Int.natAbs_natCast]
  · rw [numberOf, DecimalFormat.printed, hn, Int.cast_natCast]

/-- The number is always accurate to the last digit, and never less than that of a smaller size; it is below
1024, except with G, outside of the bands below 1024 K and 1024 M. -/
theorem size_canonical_iff (h : 0 < size) (isInteger : Bool) :
    (∃ n : ℕ, formatFileSize size isInteger = (formatOf isInteger).text n ++ (unitOf size).letter ∧
      numberOf size isInteger = n / (formatOf isInteger).power) ∧
    ((|shown size isInteger - size| ≤ digit size isInteger / 2 ∧
      (∀ s, 0 < s → s ≤ size → shown s isInteger ≤ shown size isInteger) ∧
      (numberOf size isInteger < 1024 ∨ unitOf size = .G)) ↔ ¬ RoundsUp size isInteger) := by
  refine ⟨formatFileSize_shows h isInteger, ?_⟩
  rw [roundsUp_iff h, not_not]
  constructor
  · exact fun hall => hall.2.2
  · exact fun hnumber => ⟨shown_accurate size isInteger, fun s hs hle => shown_mono hs hle, hnumber⟩

theorem size_canonical_iff_page :
    (∃ n : ℕ, formatFileSize 4097 false = (formatOf false).text n ++ (unitOf 4097).letter ∧
      numberOf 4097 false = n / (formatOf false).power) ∧
    ((|shown 4097 false - (4097 : ℤ)| ≤ digit 4097 false / 2 ∧
      (∀ s, 0 < s → s ≤ 4097 → shown s false ≤ shown 4097 false) ∧
      (numberOf 4097 false < 1024 ∨ unitOf 4097 = .G)) ↔ ¬ RoundsUp 4097 false) :=
  size_canonical_iff (by decide) false

/-- It is printed as 1024K. -/
theorem last_byte_below_mega : ¬ (|shown 1048575 true - (1048575 : ℤ)| ≤ digit 1048575 true / 2 ∧
    (∀ s, 0 < s → s ≤ 1048575 → shown s true ≤ shown 1048575 true) ∧
    (numberOf 1048575 true < 1024 ∨ unitOf 1048575 = .G)) := by
  rintro ⟨_, _, h⟩
  exact absurd h (by decide +kernel)

end FileSizeUtil

end MyDemo.Files

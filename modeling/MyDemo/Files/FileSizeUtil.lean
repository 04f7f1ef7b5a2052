import MyDemo.Java
import MyDemo.Lib.Rounding
import Mathlib.Data.Rat.Floor

/-!
# FileSizeUtil

How `FileSizeUtil.java` prints the size of a file, with exact numbers for its doubles.
-/

namespace MyDemo.Files

/-- The patterns `#0` and `#0.#`. -/
inductive DecimalFormat where
  | whole
  | tenths
  deriving DecidableEq

namespace DecimalFormat

/-- How many units of the last digit make a whole. -/
def power : DecimalFormat → ℕ
  | whole => 1
  | tenths => 10

/-- The number in units of the last digit. -/
def rounded (df : DecimalFormat) (number : ℚ) : ℤ := Rounding.roundHalfEven (number * df.power)

/-- The number that the text shows. -/
def printed (df : DecimalFormat) (number : ℚ) : ℚ := df.rounded number / df.power

/-- The text of that many units of the last digit; a last digit after the point is not 0. -/
def text (df : DecimalFormat) (n : ℕ) : JString :=
  jstring (toString (n / df.power)) ++
    if n % df.power = 0 then [] else jstring "." ++ jstring (toString (n % df.power))

def format (df : DecimalFormat) (number : ℚ) : JString :=
  (if number < 0 then jstring "-" else []) ++ df.text (df.rounded number).natAbs

end DecimalFormat

namespace FileSizeUtil

def fileIntegerFormat : DecimalFormat := .whole

def fileDecimalFormat : DecimalFormat := .tenths

def formatOf (isInteger : Bool) : DecimalFormat := if isInteger then fileIntegerFormat else fileDecimalFormat

def formatFileSize (size : ℤ) (isInteger : Bool) : JString :=
  let df := formatOf isInteger
  if size < 1024 ∧ size > 0 then df.format size ++ jstring "B"
  else if size < 1024 * 1024 then df.format (size / 1024) ++ jstring "K"
  else if size < 1024 * 1024 * 1024 then df.format (size / (1024 * 1024)) ++ jstring "M"
  else df.format (size / (1024 * 1024 * 1024)) ++ jstring "G"

/-! ## What is printed, apart -/

inductive SizeUnit where
  | B
  | K
  | M
  | G
  deriving DecidableEq

def SizeUnit.letter : SizeUnit → JString
  | B => jstring "B"
  | K => jstring "K"
  | M => jstring "M"
  | G => jstring "G"

def SizeUnit.bytes : SizeUnit → ℤ
  | B => 1
  | K => 2 ^ 10
  | M => 2 ^ 20
  | G => 2 ^ 30

def unitOf (size : ℤ) : SizeUnit :=
  if size < 1024 ∧ size > 0 then .B
  else if size < 1024 * 1024 then .K
  else if size < 1024 * 1024 * 1024 then .M
  else .G

def numberOf (size : ℤ) (isInteger : Bool) : ℚ := (formatOf isInteger).printed (size / (unitOf size).bytes)

theorem formatFileSize_eq (size : ℤ) (isInteger : Bool) : formatFileSize size isInteger =
    (formatOf isInteger).format (size / (unitOf size).bytes) ++ (unitOf size).letter := by
  unfold formatFileSize unitOf
  split
  · simp [SizeUnit.bytes, SizeUnit.letter]
  · split
    · norm_num [SizeUnit.bytes, SizeUnit.letter]
    · split <;> norm_num [SizeUnit.bytes, SizeUnit.letter]

example : formatFileSize 1048575 true = jstring "1024K" := by decide +kernel

example : formatFileSize 1048524 false = jstring "1023.9K" := by decide +kernel

end FileSizeUtil

end MyDemo.Files

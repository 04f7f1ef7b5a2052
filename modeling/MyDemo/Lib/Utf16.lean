import Mathlib.Data.List.Basic

/-!
# UTF-16

Text is a list of code units, and any such list is text: a surrogate that is not half of a pair stands
for itself as a code point.
-/

namespace Utf16

abbrev CodeUnit := BitVec 16

def isHigh (u : CodeUnit) : Bool := 0xD800 ≤ u.toNat && u.toNat < 0xDC00

def isLow (u : CodeUnit) : Bool := 0xDC00 ≤ u.toNat && u.toNat < 0xE000

def pair (u v : CodeUnit) : ℕ :=
  0x10000 + (u.toNat - 0xD800) * 0x400 + (v.toNat - 0xDC00)

def codePoints : List CodeUnit → List ℕ
  | [] => []
  | [u] => [u.toNat]
  | u :: v :: us =>
      if isHigh u && isLow v then pair u v :: codePoints us else u.toNat :: codePoints (v :: us)

def units (c : ℕ) : List CodeUnit :=
  if c < 0x10000 then [BitVec.ofNat 16 c]
  else [BitVec.ofNat 16 (0xD800 + (c - 0x10000) / 0x400), BitVec.ofNat 16 (0xDC00 + (c - 0x10000) % 0x400)]

def encode (cs : List ℕ) : List CodeUnit := cs.flatMap units

@[simp] theorem encode_nil : encode [] = [] := rfl

@[simp] theorem encode_cons (c : ℕ) (cs : List ℕ) :
    encode (c :: cs) = units c ++ encode cs := rfl

@[simp] theorem encode_append (cs ds : List ℕ) : encode (cs ++ ds) = encode cs ++ encode ds :=
  List.flatMap_append

theorem units_toNat (u : CodeUnit) : units u.toNat = [u] := by
  have hu : u.toNat < 0x10000 := u.isLt
  simp [units, hu]

theorem units_pair {u v : CodeUnit} (hu : isHigh u = true) (hv : isLow v = true) :
    units (pair u v) = [u, v] := by
  simp only [isHigh, isLow, Bool.and_eq_true, decide_eq_true_eq] at hu hv
  have hc : ¬ pair u v < 0x10000 := by unfold pair; omega
  have hhigh : 0xD800 + (pair u v - 0x10000) / 0x400 = u.toNat := by unfold pair; omega
  have hlow : 0xDC00 + (pair u v - 0x10000) % 0x400 = v.toNat := by unfold pair; omega
  simp only [units, if_neg hc, hhigh, hlow, BitVec.ofNat_toNat, BitVec.setWidth_eq]

theorem encode_codePoints (us : List CodeUnit) : encode (codePoints us) = us := by
  induction us using codePoints.induct with
  | case1 => rfl
  | case2 u => simp [codePoints, units_toNat]
  | case3 u v us h ih =>
      rw [codePoints, if_pos h, encode_cons, ih]
      obtain ⟨hu, hv⟩ := Bool.and_eq_true _ _ ▸ h
      rw [units_pair hu hv]
      rfl
  | case4 u v us h ih =>
      rw [codePoints, if_neg h, encode_cons, ih, units_toNat]
      rfl

end Utf16

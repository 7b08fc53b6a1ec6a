import Mathlib.Data.Int.ModEq
import Mathlib.Algebra.BigOperators.Ring.Finset
import Mathlib.Data.ZMod.Basic

/-! Conversion to 32 signed bits. Storing a sum in 32 bits at every step gives
the same result as storing it once at the end, so running totals can be reasoned
about modulo `2 ^ 32` and compared with exact sums where these fit. Differences of
unsigned 64-bit values are exact where they fit 64 signed bits, and integers in a
`double` where they fit its 53. -/

namespace ShardManager

/-- The value a 64-bit or mathematical integer has after conversion to `int32_t`. -/
def toInt32 (value : Int) : Int := value.bmod 4294967296

def FitsInt32 (value : Int) : Prop := -2147483648 ≤ value ∧ value < 2147483648

instance (value : Int) : Decidable (FitsInt32 value) := inferInstanceAs (Decidable (_ ∧ _))

theorem toInt32_of_fits {value : Int} (fits : FitsInt32 value) : toInt32 value = value := by
  obtain ⟨low, high⟩ := fits
  exact Int.bmod_eq_of_le_mul_two (by omega) (by omega)

theorem toInt32_fits (value : Int) : FitsInt32 (toInt32 value) := by
  have low := Int.le_bmod (x := value) (m := 4294967296) (by omega)
  have high := Int.bmod_lt (x := value) (m := 4294967296) (by omega)
  unfold FitsInt32 toInt32
  omega

@[simp] theorem toInt32_zero : toInt32 0 = 0 := rfl

@[simp] theorem toInt32_toInt32 (value : Int) : toInt32 (toInt32 value) = toInt32 value := Int.bmod_bmod

@[simp] theorem toInt32_add_left (first second : Int) : toInt32 (toInt32 first + second) = toInt32 (first + second) :=
  Int.bmod_add_bmod

@[simp] theorem toInt32_sub_left (first second : Int) : toInt32 (toInt32 first - second) = toInt32 (first - second) :=
  Int.bmod_sub_bmod

theorem toInt32_eq_iff (first second : Int) : toInt32 first = toInt32 second ↔ first ≡ second [ZMOD 4294967296] := by
  unfold toInt32 Int.ModEq
  constructor
  · intro same
    have left := Int.bmod_emod (x := first) (m := 4294967296)
    have right := Int.bmod_emod (x := second) (m := 4294967296)
    rw [same] at left
    exact left.symm.trans right
  · intro same
    rw [← Int.emod_bmod (x := first), ← Int.emod_bmod (x := second)]
    exact congrArg (Int.bmod · 4294967296) same

/-- The integers modulo `2 ^ 32`: equations between narrowed values are equations here. -/
abbrev Residue := ZMod 4294967296

theorem toInt32_eq_iff_residue (first second : Int) : toInt32 first = toInt32 second ↔ (first : Residue) = second :=
  (toInt32_eq_iff first second).trans (ZMod.intCast_eq_intCast_iff first second 4294967296).symm

@[simp] theorem residue_toInt32 (value : Int) : ((toInt32 value : Int) : Residue) = value :=
  (toInt32_eq_iff_residue _ _).mp (toInt32_toInt32 value)

/-- Values that fit are equal if their residues are. -/
theorem eq_of_residue {first second : Int} (firstFits : FitsInt32 first) (secondFits : FitsInt32 second)
    (same : (first : Residue) = second) : first = second := by
  rw [← toInt32_of_fits firstFits, ← toInt32_of_fits secondFits]
  exact (toInt32_eq_iff_residue first second).mpr same

/-- The value an integer has after conversion to `size_t`. -/
def toSizeT (value : Int) : Nat := (value % 18446744073709551616).toNat

/-- The value an unsigned 64-bit integer has after conversion to `int64_t`. -/
def toInt64 (value : Nat) : Int := (value : Int).bmod 18446744073709551616

theorem toSizeT_natCast {value : Nat} (fits : value < 18446744073709551616) : toSizeT value = value := by
  unfold toSizeT
  omega

theorem natCast_toSizeT (value : Int) : (toSizeT value : Int) = value % 18446744073709551616 :=
  Int.toNat_of_nonneg (Int.emod_nonneg value (by omega))

theorem toInt64_toSizeT (value : Int) : toInt64 (toSizeT value) = value.bmod 18446744073709551616 := by
  unfold toInt64
  rw [natCast_toSizeT]
  exact Int.emod_bmod value 18446744073709551616

theorem bmod_sub_toSizeT (first second : Int) :
    ((toSizeT first : Int) - (toSizeT second : Int)).bmod 18446744073709551616 = (first - second).bmod 18446744073709551616 := by
  rw [natCast_toSizeT, natCast_toSizeT]
  exact (Int.emod_sub_bmod first 18446744073709551616).trans (Int.sub_emod_bmod first 18446744073709551616)

/-- A difference of unsigned values is exact where it fits. -/
theorem toInt64_sub_toSizeT {first second : Int} (low : -9223372036854775808 ≤ first - second)
    (high : first - second < 9223372036854775808) :
    toInt64 (toSizeT ((toSizeT first : Int) - (toSizeT second : Int))) = first - second := by
  rw [toInt64_toSizeT, bmod_sub_toSizeT]
  exact Int.bmod_eq_of_le_mul_two (by omega) (by omega)

/-- The value an integer has after conversion to `double`: the nearest with 53
significant bits, and of two that are as near the one whose last bit is 0. -/
def roundDouble (value : Int) : Int :=
  let lastBit := 2 ^ (value.natAbs.log2 - 52)
  let below := value.natAbs / lastBit
  let rest := value.natAbs % lastBit
  let rounded := if 2 * rest < lastBit ∨ 2 * rest = lastBit ∧ below % 2 = 0 then below else below + 1
  value.sign * (rounded * lastBit : Nat)

theorem roundDouble_of_fits {value : Int} (fits : value.natAbs < 2 ^ 53) : roundDouble value = value := by
  have small : value.natAbs.log2 - 52 = 0 := by
    by_cases zero : value.natAbs = 0
    · rw [zero]
      decide
    · have bits := (Nat.log2_lt zero).mpr fits
      omega
  unfold roundDouble
  rw [small]
  simp [Nat.mod_one, Int.sign_mul_abs]

theorem roundDouble_nonneg {value : Int} (nonneg : 0 ≤ value) : 0 ≤ roundDouble value :=
  Int.mul_nonneg (Int.sign_nonneg_iff.mpr nonneg) (Int.natCast_nonneg _)

end ShardManager

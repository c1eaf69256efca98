import Mathlib

/-!
# Rounding to nearest

Rounding a rational and rounding an integer quotient, ties away from zero, and
the one fact used of both: the result is within a half, so a value closer than
a half to an integer rounds to it.
-/

namespace Fhenomenon.Lib.Rounding

/-- Nearest integer, ties away from zero. -/
def llround (value : Rat) : Int :=
  if 0 ≤ value then ⌊value + 1 / 2⌋ else ⌈value - 1 / 2⌉

theorem llround_near (value : Rat) (nearest : Int) (near : |value - nearest| < 1 / 2) :
    llround value = nearest := by
  obtain ⟨lower, upper⟩ := abs_lt.mp near
  rw [llround]
  split
  · rw [Int.floor_eq_iff]
    constructor <;> linarith
  · rw [Int.ceil_eq_iff]
    constructor <;> linarith

theorem llround_int (value : Int) : llround value = value := by
  apply llround_near
  simp

theorem llround_error (value : Rat) : |(llround value : Rat) - value| ≤ 1 / 2 := by
  rw [llround, abs_le]
  split
  · have lower := Int.lt_floor_add_one (value + 1 / 2)
    have upper := Int.floor_le (value + 1 / 2)
    constructor <;> linarith
  · have lower := Int.le_ceil (value - 1 / 2)
    have upper := Int.ceil_lt_add_one (value - 1 / 2)
    constructor <;> linarith

theorem llround_mono {first second : Rat} (order : first ≤ second) :
    llround first ≤ llround second := by
  unfold llround
  split_ifs with firstSign secondSign secondSign
  · exact Int.floor_le_floor (by linarith)
  · exact absurd (firstSign.trans order) secondSign
  · have below : ⌈first - 1 / 2⌉ ≤ 0 := Int.ceil_le.mpr (by push_cast; linarith)
    have above : 0 ≤ ⌊second + 1 / 2⌋ := Int.floor_nonneg.mpr (by linarith)
    exact below.trans above
  · exact Int.ceil_le_ceil (by linarith)

theorem llround_zero : llround 0 = 0 := llround_int 0

theorem llround_scaled (value : Rat) {factor : Rat} (large : 1 ≤ factor) :
    (0 ≤ llround value ∧ llround value ≤ llround (value * factor)) ∨
      (llround (value * factor) ≤ llround value ∧ llround value ≤ 0) := by
  rcases le_total 0 value with sign | sign
  · left
    have grows : value ≤ value * factor := le_mul_of_one_le_right sign large
    exact ⟨by rw [← llround_zero]; exact llround_mono sign, llround_mono grows⟩
  · right
    have shrinks : value * factor ≤ value := by nlinarith
    exact ⟨llround_mono shrinks, by rw [← llround_zero]; exact llround_mono sign⟩

/-- Quotient rounded to nearest, from the truncated quotient and its remainder. -/
def roundedQuotient (product divisor : Int) : Int :=
  let scaled := product.tdiv divisor
  let remainder := product.tmod divisor
  if 2 * remainder ≥ divisor then scaled + 1
  else if 2 * remainder ≤ -divisor then scaled - 1
  else scaled

theorem rounded_quotient_near (product divisor : Int) (positive : 0 < divisor) :
    |2 * (roundedQuotient product divisor * divisor - product)| ≤ divisor := by
  have division : product.tmod divisor + divisor * product.tdiv divisor = product :=
    Int.tmod_add_mul_tdiv product divisor
  have upper : product.tmod divisor < divisor := Int.tmod_lt_of_pos product positive
  have lower : -divisor < product.tmod divisor := by
    have bound := Int.lt_tmod_of_pos product positive
    omega
  have shifted (offset : Int) :
      2 * ((product.tdiv divisor + offset) * divisor - product) =
        2 * offset * divisor - 2 * product.tmod divisor := by
    linear_combination 2 * division
  rw [abs_le, roundedQuotient]
  split
  · rw [shifted 1]
    constructor <;> linarith
  · split
    · have less := shifted (-1)
      rw [← sub_eq_add_neg] at less
      rw [less]
      constructor <;> linarith
    · rw [← add_zero (product.tdiv divisor), shifted 0]
      constructor <;> linarith

theorem rounded_quotient_error (product divisor : Int) (positive : 0 < divisor) :
    |(roundedQuotient product divisor : Rat) - (product : Rat) / divisor| ≤ 1 / 2 := by
  have near := rounded_quotient_near product divisor positive
  have cast : (0 : Rat) < divisor := by exact_mod_cast positive
  have scaled : |2 * ((roundedQuotient product divisor : Rat) * divisor - product)| ≤ divisor := by
    exact_mod_cast near
  have split : (roundedQuotient product divisor : Rat) - product / divisor =
      (2 * ((roundedQuotient product divisor : Rat) * divisor - product)) / (2 * divisor) := by
    field_simp
  rw [split, abs_div, abs_of_pos (by linarith : (0 : Rat) < 2 * divisor), div_le_iff₀ (by linarith)]
  linarith

end Fhenomenon.Lib.Rounding

import Mathlib

/-!
# Signed machine integers

Arithmetic on signed integers of a fixed width, where a result that does not fit
is undefined, and the two's complement conversion between widths.
-/

namespace Fhenomenon.Lib.MachineInt

/-- Representable in `width` bits. -/
def Fits (width : Nat) (value : Int) : Prop :=
  -2 ^ (width - 1) ≤ value ∧ value < 2 ^ (width - 1)

instance (width : Nat) (value : Int) : Decidable (Fits width value) :=
  inferInstanceAs (Decidable (_ ∧ _))

def exact (width : Nat) (value : Int) : Option Int :=
  if Fits width value then some value else none

/-- `lhs / rhs`, rounded towards zero. -/
def quotient (width : Nat) (lhs rhs : Int) : Option Int :=
  if rhs = 0 then none else exact width (lhs.tdiv rhs)

/-- `lhs % rhs` is defined where `lhs / rhs` is. -/
def remainder (width : Nat) (lhs rhs : Int) : Option Int :=
  (quotient width lhs rhs).map fun _ => lhs.tmod rhs

/-- Conversion to `width` bits. -/
def wrap (width : Nat) (value : Int) : Int :=
  (value + 2 ^ (width - 1)) % 2 ^ width - 2 ^ (width - 1)

theorem exact_of_fits {width : Nat} {value : Int} (fits : Fits width value) :
    exact width value = some value :=
  if_pos fits

theorem exact_eq_some {width : Nat} {value out : Int} :
    exact width value = some out ↔ Fits width value ∧ value = out := by
  rw [exact]
  split <;> simp_all

theorem bind_defined {α β : Type*} {first : Option α} {rest : α → Option β}
    (defined : first.bind rest ≠ none) : ∃ value, first = some value ∧ rest value ≠ none := by
  cases first with
  | none => exact absurd rfl defined
  | some value => exact ⟨value, rfl, defined⟩

theorem fits_of_abs {width : Nat} {value : Int} (small : |value| < 2 ^ (width - 1)) :
    Fits width value := by
  obtain ⟨lower, upper⟩ := abs_lt.mp small
  exact ⟨lower.le, upper⟩

theorem quotient_pos {width : Nat} {lhs rhs : Int} (fits : Fits width lhs) (positive : 0 < rhs) :
    quotient width lhs rhs = some (lhs.tdiv rhs) := by
  have shrinks : (lhs.tdiv rhs).natAbs ≤ lhs.natAbs := Int.natAbs_tdiv_le_natAbs lhs rhs
  rw [quotient, if_neg positive.ne']
  apply exact_of_fits
  obtain ⟨lower, upper⟩ := fits
  rcases le_total 0 lhs with sign | sign
  · have quotientSign := Int.tdiv_nonneg sign positive.le
    constructor <;> omega
  · have negated : -(lhs.tdiv rhs) = (-lhs).tdiv rhs := (Int.neg_tdiv lhs rhs).symm
    have quotientSign : 0 ≤ (-lhs).tdiv rhs := Int.tdiv_nonneg (by omega) positive.le
    constructor <;> omega

theorem remainder_pos {width : Nat} {lhs rhs : Int} (fits : Fits width lhs)
    (positive : 0 < rhs) : remainder width lhs rhs = some (lhs.tmod rhs) := by
  rw [remainder, quotient_pos fits positive, Option.map_some]

theorem wrap_of_fits {width : Nat} {value : Int} (wide : 0 < width) (fits : Fits width value) :
    wrap width value = value := by
  have doubled : (2 : Int) ^ width = 2 * 2 ^ (width - 1) := by
    rw [← pow_succ', Nat.sub_add_cancel wide]
  obtain ⟨lower, upper⟩ := fits
  rw [wrap, Int.emod_eq_of_lt] <;> linarith

end Fhenomenon.Lib.MachineInt

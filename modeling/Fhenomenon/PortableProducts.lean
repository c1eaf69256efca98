import Fhenomenon.CheckedEngine

/-!
# Modular products without 128-bit integers

The branch of `mulMod` for compilers that lack `__int128` doubles and adds over the
bits of one factor. For every modulus up to `2 ^ 62` it computes what the other
branch computes, and none of its sums overflows.
-/

namespace Fhenomenon.PortableProducts

open Fhenomenon.Lib.MachineInt
open Fhenomenon.CheckedEngine hiding mulMod
open Fhenomenon.ToyFheNoise

/-- The variables of the loop. -/
structure Loop where
  lhs : Int
  rhs : Int
  result : Int
deriving DecidableEq

/-- One round of the loop; `rhs` is positive, so its lowest bit is its parity. -/
def mulModRound (modulus : Int) (state : Loop) : Option Loop := do
  let result ←
    if state.rhs % 2 = 1 then do
      let sum ← exact 64 (state.result + state.lhs)
      mod sum modulus
    else some state.result
  let doubled ← exact 64 (state.lhs + state.lhs)
  let lhs ← mod doubled modulus
  some { lhs := lhs, rhs := state.rhs / 2, result := result }

/-- `while (rhs > 0)`, given up after `fuel` rounds. -/
def mulModLoop (modulus : Int) : Nat → Loop → Option Int
  | 0, state => if state.rhs > 0 then none else some state.result
  | fuel + 1, state =>
      if state.rhs > 0 then do
        let next ← mulModRound modulus state
        mulModLoop modulus fuel next
      else some state.result

def mulMod (fuel : Nat) (lhs rhs modulus : Int) : Option Int := do
  let lhs ← mod lhs modulus
  let rhs ← mod rhs modulus
  mulModLoop modulus fuel { lhs := lhs, rhs := rhs, result := 0 }

/-- The loop owes `product` and has at most `bits` bits of `rhs` to go. -/
structure Owes (modulus product : Int) (bits : Nat) (state : Loop) : Prop where
  lhsLower : 0 ≤ state.lhs
  lhsUpper : state.lhs < modulus
  resultLower : 0 ≤ state.result
  resultUpper : state.result < modulus
  rhsLower : 0 ≤ state.rhs
  rhsUpper : state.rhs < 2 ^ bits
  total : state.result + state.lhs * state.rhs ≡ product [ZMOD modulus]

theorem residue_sum {modulus first second : Int} (bounded : modulus ≤ 2 ^ 62)
    (firstLower : 0 ≤ first) (firstUpper : first < modulus) (secondLower : 0 ≤ second)
    (secondUpper : second < modulus) :
    exact 64 (first + second) = some (first + second) ∧
      mod (first + second) modulus = some (ToyFhe.mod (first + second) modulus) := by
  have fits : Fits 64 (first + second) := by
    constructor <;> norm_num <;> omega
  exact ⟨exact_of_fits fits, mod_defined fits (by omega) bounded⟩

theorem round_total {modulus result lhs rhs sum doubled product : Int} (bit : Int)
    (split : rhs = 2 * (rhs / 2) + bit) (sumCongr : sum ≡ result + lhs * bit [ZMOD modulus])
    (doubledCongr : doubled ≡ lhs + lhs [ZMOD modulus])
    (total : result + lhs * rhs ≡ product [ZMOD modulus]) :
    sum + doubled * (rhs / 2) ≡ product [ZMOD modulus] := by
  calc sum + doubled * (rhs / 2) ≡ result + lhs * bit + (lhs + lhs) * (rhs / 2) [ZMOD modulus] :=
        sumCongr.add (doubledCongr.mul_right _)
    _ = result + lhs * (2 * (rhs / 2) + bit) := by ring
    _ = result + lhs * rhs := by rw [← split]
    _ ≡ product [ZMOD modulus] := total

theorem round_owes {modulus product : Int} {bits : Nat} {state : Loop} (bounded : modulus ≤ 2 ^ 62)
    (owes : Owes modulus product (bits + 1) state) :
    ∃ next, mulModRound modulus state = some next ∧ Owes modulus product bits next := by
  obtain ⟨lhsLower, lhsUpper, resultLower, resultUpper, rhsLower, rhsUpper, total⟩ := owes
  have positive : 0 < modulus := by omega
  obtain ⟨doubledFits, doubledMod⟩ := residue_sum bounded lhsLower lhsUpper lhsLower lhsUpper
  obtain ⟨doubledLower, doubledUpper⟩ := mod_range (state.lhs + state.lhs) positive
  have doubledCongr := mod_congr (state.lhs + state.lhs) positive
  have rest : 0 ≤ state.rhs / 2 := by omega
  have halved : state.rhs / 2 < 2 ^ bits := by
    rw [pow_succ] at rhsUpper
    omega
  by_cases odd : state.rhs % 2 = 1
  · obtain ⟨sumFits, sumMod⟩ := residue_sum bounded resultLower resultUpper lhsLower lhsUpper
    obtain ⟨sumLower, sumUpper⟩ := mod_range (state.result + state.lhs) positive
    have sumCongr : ToyFhe.mod (state.result + state.lhs) modulus ≡ state.result + state.lhs * 1
        [ZMOD modulus] := by
      rw [mul_one]
      exact mod_congr _ positive
    refine ⟨{ lhs := ToyFhe.mod (state.lhs + state.lhs) modulus
              rhs := state.rhs / 2
              result := ToyFhe.mod (state.result + state.lhs) modulus }, ?_, ?_⟩
    · simp only [mulModRound, if_pos odd, sumFits, sumMod, doubledFits, doubledMod,
        Option.bind_eq_bind, Option.bind_some]
    · exact ⟨doubledLower, doubledUpper, sumLower, sumUpper, rest, halved,
        round_total 1 (by omega) sumCongr doubledCongr total⟩
  · have sumCongr : state.result ≡ state.result + state.lhs * 0 [ZMOD modulus] := by
      rw [mul_zero, add_zero]
    refine ⟨{ lhs := ToyFhe.mod (state.lhs + state.lhs) modulus
              rhs := state.rhs / 2
              result := state.result }, ?_, ?_⟩
    · simp only [mulModRound, if_neg odd, doubledFits, doubledMod, Option.bind_eq_bind,
        Option.bind_some]
    · exact ⟨doubledLower, doubledUpper, resultLower, resultUpper, rest, halved,
        round_total 0 (by omega) sumCongr doubledCongr total⟩

theorem loop_settled {modulus product : Int} {bits : Nat} {state : Loop}
    (owes : Owes modulus product bits state) (done : ¬state.rhs > 0) :
    state.result = product % modulus := by
  have zero : state.rhs = 0 := by
    have lower := owes.rhsLower
    omega
  have total := owes.total
  rw [zero, mul_zero, add_zero] at total
  rw [← total, Int.emod_eq_of_lt owes.resultLower owes.resultUpper]

/-- Each round takes one bit, so `bits` rounds are enough. -/
theorem loop_owes {modulus product : Int} {bits fuel : Nat} {state : Loop}
    (bounded : modulus ≤ 2 ^ 62) (owes : Owes modulus product bits state) (enough : bits ≤ fuel) :
    mulModLoop modulus fuel state = some (product % modulus) := by
  induction fuel generalizing bits state with
  | zero =>
      have none : bits = 0 := by omega
      have done : ¬state.rhs > 0 := by
        have upper := owes.rhsUpper
        rw [none, pow_zero] at upper
        omega
      rw [mulModLoop, if_neg done, loop_settled owes done]
  | succ fuel induction =>
      rw [mulModLoop]
      split
      · rename_i continues
        cases bits with
        | zero =>
            have upper := owes.rhsUpper
            rw [pow_zero] at upper
            omega
        | succ bits =>
            obtain ⟨next, stepped, nextOwes⟩ := round_owes bounded owes
            rw [stepped]
            exact induction nextOwes (by omega)
      · rename_i done
        rw [loop_settled owes done]

theorem wide_mul_mod {lhs rhs modulus : Int} (left : Fits 64 lhs) (right : Fits 64 rhs)
    (positive : 0 < modulus) (bounded : modulus ≤ 2 ^ 62) :
    CheckedEngine.mulMod lhs rhs modulus = some (lhs * rhs % modulus) := by
  rw [mul_mod_defined left right positive bounded, ToyFhe.mulMod, mod_eq_emod _ positive]

theorem portable_mul_mod {lhs rhs modulus : Int} {fuel : Nat} (left : Fits 64 lhs)
    (right : Fits 64 rhs) (positive : 0 < modulus) (bounded : modulus ≤ 2 ^ 62)
    (enough : 62 ≤ fuel) : mulMod fuel lhs rhs modulus = some (lhs * rhs % modulus) := by
  obtain ⟨leftLower, leftUpper⟩ := mod_range lhs positive
  obtain ⟨rightLower, rightUpper⟩ := mod_range rhs positive
  have total : 0 + ToyFhe.mod lhs modulus * ToyFhe.mod rhs modulus ≡ lhs * rhs [ZMOD modulus] := by
    rw [zero_add]
    exact (mod_congr lhs positive).mul (mod_congr rhs positive)
  have owes : Owes modulus (lhs * rhs) 62
      { lhs := ToyFhe.mod lhs modulus, rhs := ToyFhe.mod rhs modulus, result := 0 } :=
    ⟨leftLower, leftUpper, le_refl 0, positive, rightLower, rightUpper.trans_le bounded, total⟩
  simp only [mulMod, mod_defined left positive bounded, mod_defined right positive bounded,
    Option.bind_eq_bind, Option.bind_some]
  exact loop_owes bounded owes enough

/-- Both branches return the same residue, and neither overflows. -/
theorem mul_mod_branches_agree (lhs rhs modulus : Int) (left : Fits 64 lhs) (right : Fits 64 rhs)
    (positive : 0 < modulus) (bounded : modulus ≤ 2 ^ 62) :
    (∀ fuel, 62 ≤ fuel →
        mulMod fuel lhs rhs modulus = CheckedEngine.mulMod lhs rhs modulus) ∧
      CheckedEngine.mulMod lhs rhs modulus = some (lhs * rhs % modulus) ∧
      0 ≤ lhs * rhs % modulus ∧ lhs * rhs % modulus < modulus := by
  have wide := wide_mul_mod left right positive bounded
  refine ⟨?_, wide, Int.emod_nonneg _ positive.ne', Int.emod_lt_of_pos _ positive⟩
  intro fuel enough
  rw [wide, portable_mul_mod left right positive bounded enough]

/-- The largest modulus, with a negative factor. -/
theorem largest_branches_agree :
    mulMod 62 (-2 ^ 63) (2 ^ 63 - 1) (2 ^ 62) =
      CheckedEngine.mulMod (-2 ^ 63) (2 ^ 63 - 1) (2 ^ 62) :=
  (mul_mod_branches_agree (-2 ^ 63) (2 ^ 63 - 1) (2 ^ 62) (by decide) (by decide) (by decide)
    (by decide)).1 62 (by decide)

end Fhenomenon.PortableProducts

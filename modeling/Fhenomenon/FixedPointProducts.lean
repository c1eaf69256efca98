import Fhenomenon.CheckedEngine

/-!
# Products of fixed-point ciphertexts

`Engine::multiply` divides the product of two decoded values once, by
`delta * scale`, and encodes it again. The rounded division, the reduction modulo
`q`, the fresh noise and the rounding of the decryption together move the mantissa by
less than one unit.
-/

namespace Fhenomenon.FixedPointProducts

open Fhenomenon.Lib.MachineInt Fhenomenon.Lib.Rounding
open Fhenomenon.ToyFhe Fhenomenon.ToyFheNoise

theorem centred_unique {first second modulus : Int} (congruent : first ≡ second [ZMOD modulus])
    (firstLower : -modulus < 2 * first) (firstUpper : 2 * first ≤ modulus)
    (secondLower : -modulus < 2 * second) (secondUpper : 2 * second ≤ modulus) :
    first = second := by
  have small : |second - first| < modulus := by
    rw [abs_lt]
    constructor <;> omega
  have zero := Int.eq_zero_of_abs_lt_dvd congruent.dvd small
  omega

theorem scaled_phase (delta scale m1 m2 e1 e2 : Rat) (deltaNonzero : delta ≠ 0)
    (scaleNonzero : scale ≠ 0) :
    (delta * m1 + e1) * (delta * m2 + e2) / (delta * scale) - delta * (m1 * m2 / scale) =
      (m1 * e2 + m2 * e1) / scale + e1 * e2 / (delta * scale) := by
  field_simp
  ring

theorem scaled_phase_error {delta scale e1 e2 n1 n2 : Rat} (m1 m2 : Rat)
    (deltaPositive : 0 < delta) (scalePositive : 0 < scale) (first : |e1| ≤ n1)
    (second : |e2| ≤ n2) :
    |(delta * m1 + e1) * (delta * m2 + e2) / (delta * scale) - delta * (m1 * m2 / scale)| ≤
      (|m1| * n2 + |m2| * n1) / scale + n1 * n2 / (delta * scale) := by
  have product : 0 < delta * scale := mul_pos deltaPositive scalePositive
  have crossed : |m1 * e2 + m2 * e1| ≤ |m1| * n2 + |m2| * n1 := by
    refine (abs_add_le _ _).trans ?_
    rw [abs_mul, abs_mul]
    exact add_le_add (mul_le_mul_of_nonneg_left second (abs_nonneg _))
      (mul_le_mul_of_nonneg_left first (abs_nonneg _))
  have noises : |e1 * e2| ≤ n1 * n2 := by
    rw [abs_mul]
    exact mul_le_mul first second (abs_nonneg _) ((abs_nonneg _).trans first)
  rw [scaled_phase delta scale m1 m2 e1 e2 deltaPositive.ne' scalePositive.ne']
  refine (abs_add_le _ _).trans ?_
  rw [abs_div, abs_div, abs_of_pos scalePositive, abs_of_pos product]
  gcongr

theorem rounded_sum_error {rounded quotient value fresh rounding analysis noise : Rat}
    (first : |rounded - quotient| ≤ rounding) (second : |quotient - value| ≤ analysis)
    (third : |fresh| ≤ noise) : |rounded + fresh - value| ≤ rounding + analysis + noise := by
  have split : rounded + fresh - value = (rounded - quotient) + (quotient - value) + fresh := by
    ring
  rw [split]
  refine (abs_add_le _ _).trans ?_
  have nested := abs_add_le (rounded - quotient) (quotient - value)
  linarith

section Engine

variable {engine : Engine}

theorem decrypt_centred (admissible : Admissible engine) (cipher : Ciphertext) :
    -engine.params.t < 2 * engine.decryptInt cipher ∧
      2 * engine.decryptInt cipher ≤ engine.params.t :=
  (centered_mod_spec _ (by linarith [admissible.plain])).2

/-- A ciphertext whose phase is close to `delta * value` decrypts, modulo `t`, to within
one unit of `value`. -/
theorem decrypted_congruent (admissible : Admissible engine) {cipher : Ciphertext} {phase : Int}
    {value : Rat} (congruent : engine.decodeRaw cipher ≡ phase [ZMOD engine.params.q])
    (near : |(phase : Rat) - engine.delta * value| < engine.delta / 2) :
    ∃ mantissa : Int, engine.decryptInt cipher ≡ mantissa [ZMOD engine.params.t] ∧
      |(mantissa : Rat) - value| < 1 := by
  obtain ⟨exact, positive⟩ := delta_mul admissible
  have cast : (0 : Rat) < engine.delta := by exact_mod_cast positive
  have plainPositive : 0 < engine.params.t := by linarith [admissible.plain]
  have fits := CheckedEngine.decoded_quotient_fits admissible cipher
  have rounding := llround_error ((engine.decodeRaw cipher : Rat) / engine.delta)
  generalize rounded : llround ((engine.decodeRaw cipher : Rat) / engine.delta) = r
    at fits rounding
  have decrypted : engine.decryptInt cipher = centeredMod r engine.params.t := by
    unfold Engine.decryptInt
    rw [← rounded] at fits
    simp only [llround_fits engine fits.1 fits.2, rounded]
  obtain ⟨turns, shift⟩ := congruent.symm.dvd
  have decoded : (engine.decodeRaw cipher : Rat) / engine.delta =
      phase / engine.delta + engine.params.t * turns := by
    have split : engine.decodeRaw cipher = phase + engine.delta * engine.params.t * turns := by
      rw [exact]
      linear_combination shift
    rw [split]
    push_cast
    field_simp
  -- the rounded quotient, less the turns modulo `t`, is the mantissa
  have offset : |(phase : Rat) / engine.delta - value| < 1 / 2 := by
    have quotient : (phase : Rat) / engine.delta - value =
        (phase - engine.delta * value) / engine.delta := by
      field_simp
    rw [quotient, abs_div, abs_of_pos cast, div_lt_iff₀ cast]
    linarith
  refine ⟨r - engine.params.t * turns, ?_, ?_⟩
  · rw [decrypted]
    refine (centered_mod_spec r plainPositive).1.trans ?_
    exact Int.modEq_iff_dvd.mpr ⟨-turns, by ring⟩
  · rw [decoded] at rounding
    push_cast
    have split : (r : Rat) - engine.params.t * turns - value =
        (r - (phase / engine.delta + engine.params.t * turns)) +
          (phase / engine.delta - value) := by ring
    rw [split]
    refine (abs_add_le _ _).trans_lt ?_
    linarith

/-- A small `value` is decrypted itself, to within one unit. -/
theorem decrypted_near (admissible : Admissible engine) {cipher : Ciphertext} {phase : Int}
    {value : Rat} (congruent : engine.decodeRaw cipher ≡ phase [ZMOD engine.params.q])
    (near : |(phase : Rat) - engine.delta * value| < engine.delta / 2)
    (small : |value| < engine.params.t / 2 - 1) :
    |(engine.decryptInt cipher : Rat) - value| < 1 := by
  obtain ⟨mantissa, reduced, close⟩ := decrypted_congruent admissible congruent near
  obtain ⟨centredLower, centredUpper⟩ := decrypt_centred admissible cipher
  obtain ⟨valueLower, valueUpper⟩ := abs_lt.mp small
  obtain ⟨mantissaLower, mantissaUpper⟩ := abs_lt.mp close
  have lower : -engine.params.t < 2 * mantissa := by
    have inRange : -(engine.params.t : Rat) < 2 * (mantissa : Rat) := by linarith
    exact_mod_cast inRange
  have upper : 2 * mantissa ≤ engine.params.t := by
    have inRange : 2 * (mantissa : Rat) ≤ engine.params.t := by linarith
    exact_mod_cast inRange
  rw [centred_unique reduced centredLower centredUpper lower upper]
  exact close

theorem multiply_fixed {ρ : Type*} (draw : Int → Int → ρ → Int × ρ) {lhs rhs : Ciphertext}
    (leftFixed : lhs.encoding = .fixedPoint) (leftScale : lhs.scalePower = 1)
    (rightScale : rhs.scalePower = 1)
    (divisorFits : Fits 64 (engine.delta * engine.params.scale)) (positive : 0 < engine.params.q)
    (rng : ρ) :
    engine.multiply draw lhs rhs rng =
      engine.encodeRaw draw
        (roundedQuotient (centeredMod (engine.decodeRaw lhs) engine.params.q *
          centeredMod (engine.decodeRaw rhs) engine.params.q)
            (engine.delta * engine.params.scale) % engine.params.q) .fixedPoint 1 rng := by
  unfold Engine.multiply
  simp only [leftFixed, leftScale, rightScale, true_or, if_true, Engine.rescaleDivisor,
    i64_fits divisorFits.1 divisorFits.2, Engine.multiplyDecoded, folded_residue _ positive]

end Engine

theorem default_admissible {engine : Engine} (defaults : engine.params = {}) :
    Admissible engine := by
  constructor <;> rw [defaults] <;> decide

theorem default_delta {engine : Engine} (defaults : engine.params = {}) :
    engine.delta = 2 ^ 26 := by
  unfold Engine.delta
  rw [defaults]
  rfl

/-- Fixed-point multiplication under the default parameters is off by less than one
unit of the mantissa; one fixed-point operand is enough. -/
theorem fixed_point_product_error {ρ : Type*} (draw : Int → Int → ρ → Int × ρ)
    (draws : DrawsInRange draw) (engine : Engine) (defaults : engine.params = {})
    (lhs rhs : Ciphertext) (m1 m2 e1 e2 : Int) (n1 n2 : Rat)
    (leftFixed : lhs.encoding = .fixedPoint) (leftScale : lhs.scalePower = 1)
    (rightScale : rhs.scalePower = 1)
    (leftDecodes : centeredMod (engine.decodeRaw lhs) engine.params.q = engine.delta * m1 + e1)
    (rightDecodes : centeredMod (engine.decodeRaw rhs) engine.params.q = engine.delta * m2 + e2)
    (leftNoise : |(e1 : Rat)| ≤ n1) (rightNoise : |(e2 : Rat)| ≤ n2)
    (small : |(m1 * m2 : Rat)| / engine.params.scale < engine.params.t / 2 - 1)
    (budget : (|(m1 : Rat)| * n2 + |(m2 : Rat)| * n1) / engine.params.scale +
      n1 * n2 / (engine.delta * engine.params.scale) + 1 / 2 + engine.params.noiseBound <
        engine.delta / 2) (rng : ρ) :
    (engine.multiply draw lhs rhs rng).1.encoding = .fixedPoint ∧
      (engine.multiply draw lhs rhs rng).1.scalePower = 1 ∧
      |(engine.decryptInt (engine.multiply draw lhs rhs rng).1 : Rat) -
        m1 * m2 / engine.params.scale| < 1 := by
  have admissible := default_admissible defaults
  have positive := admissible.positive
  have deltaValue := default_delta defaults
  have scaleValue : engine.params.scale = 2 ^ 16 := by rw [defaults]
  have noiseValue : engine.params.noiseBound = 2 ^ 3 := by rw [defaults]
  have divisorFits : Fits 64 (engine.delta * engine.params.scale) := by
    rw [deltaValue, scaleValue]
    decide
  have divisorPositive : 0 < engine.delta * engine.params.scale := by
    rw [deltaValue, scaleValue]
    decide
  have deltaPositive : (0 : Rat) < engine.delta := by
    rw [deltaValue]
    norm_num
  have scalePositive : (0 : Rat) < engine.params.scale := by
    rw [scaleValue]
    norm_num
  have freshBudget : (engine.params.noiseBound : Rat) < engine.delta / 2 := by
    rw [deltaValue, noiseValue]
    norm_num
  have analysis := scaled_phase_error (m1 : Rat) (m2 : Rat) deltaPositive scalePositive leftNoise
    rightNoise
  have rounding := rounded_quotient_error ((engine.delta * m1 + e1) * (engine.delta * m2 + e2))
    (engine.delta * engine.params.scale) divisorPositive
  rw [multiply_fixed draw leftFixed leftScale rightScale divisorFits positive, leftDecodes,
    rightDecodes]
  generalize roundedQuotient ((engine.delta * m1 + e1) * (engine.delta * m2 + e2))
    (engine.delta * engine.params.scale) = scaled at rounding
  obtain ⟨-, fresh, phase, freshNoise⟩ := encode_raw_spec admissible draws freshBudget
    (Int.emod_nonneg scaled positive.ne') (Int.emod_lt_of_pos scaled positive) .fixedPoint 1 rng
  have congruent : engine.decodeRaw
      (engine.encodeRaw draw (scaled % engine.params.q) .fixedPoint 1 rng).1 ≡ scaled + fresh
        [ZMOD engine.params.q] := phase.trans (Int.ModEq.add_right _ (Int.mod_modEq _ _))
  have near : |((scaled + fresh : Int) : Rat) - engine.delta * (m1 * m2 / engine.params.scale)| <
      engine.delta / 2 := by
    push_cast at rounding ⊢
    have total := rounded_sum_error rounding analysis freshNoise
    linarith
  have magnitude : |(m1 * m2 / engine.params.scale : Rat)| < engine.params.t / 2 - 1 := by
    rw [abs_div, abs_of_pos scalePositive]
    exact small
  exact ⟨rfl, rfl, decrypted_near admissible congruent near magnitude⟩

/-- An encryption of `value` with the largest mask and noise. -/
def topEncrypted (value : Rat) : Ciphertext := (defaultEngine.encryptDouble topDraw value ()).1

/-- `2 * -2`, whose mantissas multiply to `-2 ^ 34`, beyond `t`. -/
theorem opposite_products :
    |(defaultEngine.decryptInt
      (defaultEngine.multiply topDraw (topEncrypted 2) (topEncrypted (-2)) ()).1 : Rat) -
        (2 ^ 17 : Int) * (-2 ^ 17 : Int) / defaultEngine.params.scale| < 1 := by
  have draws : DrawsInRange topDraw := fun low high _ order => ⟨order, le_refl high⟩
  have delta : defaultEngine.delta = 2 ^ 26 := default_delta rfl
  exact (fixed_point_product_error topDraw draws defaultEngine rfl (topEncrypted 2)
    (topEncrypted (-2)) (2 ^ 17) (-2 ^ 17) 8 8 8 8 rfl rfl rfl (by decide +kernel)
    (by decide +kernel) (by norm_num) (by norm_num) (by norm_num [defaultEngine])
    (by rw [delta]; norm_num [defaultEngine]) ()).2.2

end Fhenomenon.FixedPointProducts

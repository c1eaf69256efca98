import Fhenomenon.FixedPointProducts
import Fhenomenon.ReachableCiphertexts

/-!
# What one slot encodes

A ciphertext encodes a mantissa at its scale level: the number `mantissa / scale ^ level`.
Each operation of the engine moves the phase to that of its result's mantissa, integer
or not, up to a noise bound, and decryption returns a mantissa within one unit of it.
-/

namespace Fhenomenon.EncodedSlots

open Fhenomenon.Lib.MachineInt Fhenomenon.Lib.Rounding Fhenomenon.ToyFhe
open Fhenomenon.ToyFheNoise Fhenomenon.ToyFheKernels Fhenomenon.ReachableCiphertexts
open Fhenomenon.FixedPointProducts
open Fhenomenon.CheckedEngine (Scaled addPlainPower)

/-- The centred phase is that of an integer mantissa, up to `noise`. -/
structure Encodes (engine : Engine) (cipher : Ciphertext) (mantissa : Int) (noise : Rat) :
    Prop where
  regular : Regular engine cipher
  phase : ∃ error : Int, centeredMod (engine.decodeRaw cipher) engine.params.q =
    engine.delta * mantissa + error ∧ |(error : Rat)| ≤ noise

/-- The phase modulo `q` is that of a mantissa that need not be an integer. -/
structure Approximates (engine : Engine) (cipher : Ciphertext) (level : Nat)
    (mantissa noise : Rat) : Prop where
  regular : Regular engine cipher
  level : cipher.scalePower = level
  phase : ∃ phase : Int, engine.decodeRaw cipher ≡ phase [ZMOD engine.params.q] ∧
    |(phase : Rat) - engine.delta * mantissa| ≤ noise

section Engine

variable {engine : Engine} {cipher lhs rhs : Ciphertext} {level : Nat} {mantissa noise : Rat}

theorem Encodes.approximates (admissible : Admissible engine) {mantissa : Int}
    (encodes : Encodes engine cipher mantissa noise) :
    Approximates engine cipher cipher.scalePower mantissa noise := by
  obtain ⟨error, phase, bound⟩ := encodes.phase
  refine ⟨encodes.regular, rfl, engine.delta * mantissa + error, ?_, ?_⟩
  · rw [← phase]
    exact (centered_mod_spec _ admissible.positive).1.symm
  · push_cast
    rwa [add_sub_cancel_left]

/-- Decryption, while the noise is below half of `delta`. -/
theorem approximates_decrypts (admissible : Admissible engine)
    (near : Approximates engine cipher level mantissa noise) (budget : noise < engine.delta / 2) :
    ∃ decrypted : Int, engine.decryptInt cipher ≡ decrypted [ZMOD engine.params.t] ∧
      |(decrypted : Rat) - mantissa| < 1 := by
  obtain ⟨phase, congruent, bound⟩ := near.phase
  exact decrypted_congruent admissible congruent (bound.trans_lt budget)

theorem approximates_decrypts_integer (admissible : Admissible engine) {mantissa : Int}
    (near : Approximates engine cipher level mantissa noise) (budget : noise < engine.delta / 2) :
    engine.decryptInt cipher ≡ mantissa [ZMOD engine.params.t] := by
  obtain ⟨decrypted, congruent, close⟩ := approximates_decrypts admissible near budget
  have equal : decrypted = mantissa := by
    have distance : |decrypted - mantissa| < 1 := by exact_mod_cast close
    have zero := Int.abs_lt_one_iff.mp distance
    omega
  rwa [← equal]

theorem approximates_scaled (admissible : Admissible engine)
    (near : Approximates engine cipher level mantissa noise) (scalar : Int) (increase : Nat)
    (regular : Regular engine (engine.multiplyPlainInternal cipher scalar increase)) :
    Approximates engine (engine.multiplyPlainInternal cipher scalar increase) (level + increase)
      (scalar * mantissa) (|(scalar : Rat)| * noise) := by
  obtain ⟨phase, congruent, bound⟩ := near.phase
  have scaled := (decode_scaled admissible near.regular.signed scalar increase).2
  refine ⟨regular, ?_, scalar * phase, scaled.trans (congruent.mul_left scalar), ?_⟩
  · rw [← near.level]
    rfl
  · have split : ((scalar * phase : Int) : Rat) - engine.delta * (scalar * mantissa) =
        scalar * (phase - engine.delta * mantissa) := by
      push_cast
      ring
    rw [split, abs_mul]
    exact mul_le_mul_of_nonneg_left bound (abs_nonneg _)

theorem approximates_align (scaled : Scaled engine)
    (near : Approximates engine cipher level mantissa noise) {target : Nat}
    (reached : level ≤ target) (small : target ≤ 1) :
    Approximates engine (engine.alignScale cipher target) target
      ((engine.params.scale : Rat) ^ (target - level) * mantissa)
      ((engine.params.scale : Rat) ^ (target - level) * noise) := by
  have admissible := scaled.bounded.admissible
  have scaleNonneg : (0 : Rat) ≤ engine.params.scale := by
    exact_mod_cast (by linarith [scaled.scale])
  obtain ⟨regular, power⟩ :=
    align_regular scaled near.regular small (by rw [near.level]; exact reached)
  obtain same | raised : target = level ∨ target = level + 1 := by omega
  · have kept : engine.alignScale cipher target = cipher := by
      unfold Engine.alignScale
      rw [same, near.level, Nat.sub_self]
      rfl
    rw [kept, same, Nat.sub_self, pow_zero, one_mul, one_mul]
    exact near
  · have once : engine.alignScale cipher target =
        engine.multiplyPlainInternal cipher engine.params.scale 1 := by
      unfold Engine.alignScale
      rw [raised, near.level, Nat.add_sub_cancel_left]
      rfl
    rw [once] at regular ⊢
    have step := approximates_scaled admissible near engine.params.scale 1 regular
    rw [abs_of_nonneg scaleNonneg] at step
    rw [raised, Nat.add_sub_cancel_left, pow_one]
    exact step

theorem approximates_add (scaled : Scaled engine) {first second firstNoise secondNoise : Rat}
    (left : Approximates engine lhs lhs.scalePower first firstNoise)
    (right : Approximates engine rhs rhs.scalePower second secondNoise) :
    let target := max lhs.scalePower rhs.scalePower
    let raise := fun cipher : Ciphertext =>
      (engine.params.scale : Rat) ^ (target - cipher.scalePower)
    Approximates engine (engine.add lhs rhs) target (raise lhs * first + raise rhs * second)
      (raise lhs * firstNoise + raise rhs * secondNoise) := by
  intro target raise
  have small : target ≤ 1 := max_le (regular_level left.regular) (regular_level right.regular)
  have leftAligned := approximates_align scaled left (le_max_left _ rhs.scalePower) small
  have rightAligned := approximates_align scaled right (le_max_right lhs.scalePower _) small
  obtain ⟨leftPhase, leftCongruent, leftBound⟩ := leftAligned.phase
  obtain ⟨rightPhase, rightCongruent, rightBound⟩ := rightAligned.phase
  obtain ⟨-, sum⟩ := decode_sum scaled.bounded.admissible leftAligned.regular.signed
    rightAligned.regular.signed
    (rfl : (engine.add lhs rhs).c0 = _) rfl
  refine ⟨add_regular scaled left.regular right.regular, rfl, leftPhase + rightPhase,
    sum.trans (leftCongruent.add rightCongruent), ?_⟩
  have split : ((leftPhase + rightPhase : Int) : Rat) -
      engine.delta * (raise lhs * first + raise rhs * second) =
        (leftPhase - engine.delta * (raise lhs * first)) +
          (rightPhase - engine.delta * (raise rhs * second)) := by
    push_cast
    ring
  rw [split]
  exact (abs_add_le _ _).trans (add_le_add leftBound rightBound)

theorem decode_negated (admissible : Admissible engine) (signed : Signed engine cipher) :
    Signed engine (negated cipher) ∧
      engine.decodeRaw (negated cipher) ≡ -engine.decodeRaw cipher [ZMOD engine.params.q] := by
  have bounded := admissible.bounded
  obtain ⟨c0Lower, c0Upper⟩ := abs_lt.mp signed.c0
  obtain ⟨c1Lower, c1Upper⟩ := abs_lt.mp signed.c1
  have c0Fits : i64 (-cipher.c0) = -cipher.c0 := by
    apply i64_fits <;> linarith
  have c1Fits : i64 (-cipher.c1) = -cipher.c1 := by
    apply i64_fits <;> linarith
  have parts : negated cipher = { cipher with c0 := -cipher.c0, c1 := -cipher.c1 } := by
    rw [negated, c0Fits, c1Fits]
  have opposite : Signed engine (negated cipher) := by
    rw [parts]
    constructor
    · rw [abs_neg]
      exact signed.c0
    · rw [abs_neg]
      exact signed.c1
  refine ⟨opposite, (decode_raw_congr admissible opposite).trans ?_⟩
  have sum : (negated cipher).c0 + (negated cipher).c1 * engine.secretKey =
      -(cipher.c0 + cipher.c1 * engine.secretKey) := by
    rw [parts]
    ring
  rw [sum]
  exact (decode_raw_congr admissible signed).symm.neg

theorem approximates_negated (scaled : Scaled engine)
    (near : Approximates engine cipher level mantissa noise) :
    Approximates engine (negated cipher) level (-mantissa) noise := by
  have admissible := scaled.bounded.admissible
  obtain ⟨phase, congruent, bound⟩ := near.phase
  obtain ⟨-, opposite⟩ := decode_negated admissible near.regular.signed
  refine ⟨negated_regular scaled.bounded near.regular, near.level, -phase,
    opposite.trans congruent.neg, ?_⟩
  have split : ((-phase : Int) : Rat) - engine.delta * -mantissa =
      -(phase - engine.delta * mantissa) := by
    push_cast
    ring
  rw [split, abs_neg]
  exact bound

theorem approximates_add_plain (scaled : Scaled engine)
    (near : Approximates engine cipher level mantissa noise) (scalar : Rat) {target : Nat}
    (power : addPlainPower engine cipher scalar = target) :
    let raise : Rat := (engine.params.scale : Rat) ^ (target - level)
    Approximates engine (engine.addPlain cipher scalar) target
      (raise * mantissa + engine.llround (scalar * engine.scaleFactor target)) (raise * noise) := by
  intro raise
  obtain ⟨aligned, near', sum⟩ : ∃ aligned : Ciphertext,
      Approximates engine aligned target (raise * mantissa) (raise * noise) ∧
        engine.addPlain cipher scalar =
          { aligned with
            c0 := mod (i64 (aligned.c0 + mulMod engine.delta
              (mod (engine.llround (scalar * engine.scaleFactor target)) engine.params.t)
                engine.params.q)) engine.params.q } := by
    unfold addPlainPower at power
    by_cases raised : cipher.encoding = .integer ∧ !engine.isApproximatelyInteger scalar
    · have small := regular_level near.regular
      rw [if_pos raised, max_eq_left small] at power
      have reached : level ≤ 1 := by rw [← near.level]; exact small
      have aligned := approximates_align scaled near reached (le_refl 1)
      refine ⟨engine.alignScale cipher 1, by simpa [raise, ← power] using aligned, ?_⟩
      rw [← power]
      unfold Engine.addPlain
      simp only [if_pos raised, aligned.level]
    · rw [if_neg raised, near.level] at power
      refine ⟨cipher, by simpa [raise, power] using near, ?_⟩
      unfold Engine.addPlain
      simp only [if_neg raised, near.level, power]
  obtain ⟨phase, congruent, bound⟩ := near'.phase
  obtain ⟨-, shifted⟩ := decode_shifted scaled.bounded.admissible near'.regular.signed
    (engine.llround (scalar * engine.scaleFactor target)) (congrArg Ciphertext.c0 sum)
    (by rw [sum])
  refine ⟨add_plain_regular scaled near.regular scalar, by rw [sum]; exact near'.level,
    phase + engine.delta * engine.llround (scalar * engine.scaleFactor target),
    shifted.trans (Int.ModEq.add_right _ congruent), ?_⟩
  push_cast
  rwa [mul_add, add_sub_add_right_eq_sub]

end Engine

/-- What a product of mantissas is divided by. -/
def productRescale (engine : Engine) (lhs rhs : Ciphertext) : Int :=
  if lhs.scalePower = 1 ∧ rhs.scalePower = 1 then engine.params.scale else 1

section Random

variable {ρ : Type*} {draw : Int → Int → ρ → Int × ρ} {engine : Engine}
  {cipher lhs rhs : Ciphertext}

theorem approximates_encoded (admissible : Admissible engine) (draws : DrawsInRange draw)
    (budget : (engine.params.noiseBound : Rat) < engine.delta / 2) {rounded : Int}
    {mantissa analysis : Rat} (near : |(rounded : Rat) - engine.delta * mantissa| ≤ analysis)
    {encoding : Encoding} {scalePower : Nat}
    (level : (scalePower = 0 ∧ encoding = .integer) ∨ (scalePower = 1 ∧ encoding = .fixedPoint))
    (rng : ρ) :
    Approximates engine
      (engine.encodeRaw draw (rounded % engine.params.q) encoding scalePower rng).1 scalePower
      mantissa (analysis + engine.params.noiseBound) := by
  have positive := admissible.positive
  obtain ⟨reduced, fresh, congruent, bound⟩ := encode_raw_spec admissible draws budget
    (Int.emod_nonneg rounded positive.ne') (Int.emod_lt_of_pos rounded positive) encoding
    scalePower rng
  refine ⟨⟨reduced.signed, level⟩, rfl, rounded + fresh,
    congruent.trans (Int.ModEq.add_right _ (Int.mod_modEq _ _)), ?_⟩
  have split : ((rounded + fresh : Int) : Rat) - engine.delta * mantissa =
      (rounded - engine.delta * mantissa) + fresh := by
    push_cast
    ring
  rw [split]
  exact (abs_add_le _ _).trans (add_le_add near bound)

theorem multiply_decoded_encodes (positive : 0 < engine.params.q) (factor divisor : Int)
    (encoding : Encoding) (scalePower : Nat) (rng : ρ) :
    engine.multiplyDecoded draw cipher factor divisor encoding scalePower rng =
      engine.encodeRaw draw (roundedQuotient (centeredMod (engine.decodeRaw cipher)
        engine.params.q * factor) divisor % engine.params.q) encoding scalePower rng := by
  unfold Engine.multiplyDecoded
  simp only [folded_residue _ positive]

/-- Two regular operands are rescaled once, when both are fixed-point. -/
theorem multiply_regular_encodes (draw : Int → Int → ρ → Int × ρ) (scaled : Scaled engine)
    (left : Regular engine lhs) (right : Regular engine rhs) (rng : ρ) :
    ∃ encoding : Encoding,
      ((max lhs.scalePower rhs.scalePower = 0 ∧ encoding = .integer) ∨
        (max lhs.scalePower rhs.scalePower = 1 ∧ encoding = .fixedPoint)) ∧
      engine.multiply draw lhs rhs rng =
        engine.multiplyDecoded draw lhs (centeredMod (engine.decodeRaw rhs) engine.params.q)
          (engine.delta * productRescale engine lhs rhs) encoding
          (max lhs.scalePower rhs.scalePower) rng := by
  have divisor := scaled.divisor
  unfold Engine.multiply productRescale
  rcases left.level with ⟨leftPower, leftEncoding⟩ | ⟨leftPower, leftEncoding⟩ <;>
    rcases right.level with ⟨rightPower, rightEncoding⟩ | ⟨rightPower, rightEncoding⟩ <;>
    simp only [leftPower, leftEncoding, rightPower, rightEncoding]
  · exact ⟨.integer, Or.inl ⟨rfl, rfl⟩, by simp⟩
  · exact ⟨.fixedPoint, Or.inr ⟨rfl, rfl⟩, by simp [Engine.rescaleDivisor]⟩
  · exact ⟨.fixedPoint, Or.inr ⟨rfl, rfl⟩, by simp [Engine.rescaleDivisor]⟩
  · exact ⟨.fixedPoint, Or.inr ⟨rfl, rfl⟩, by
      simp [Engine.rescaleDivisor, i64_fits divisor.1 divisor.2]⟩

theorem approximates_multiply (scaled : Scaled engine) (draws : DrawsInRange draw)
    (budget : (engine.params.noiseBound : Rat) < engine.delta / 2) {first second : Int}
    {firstNoise secondNoise : Rat} (left : Encodes engine lhs first firstNoise)
    (right : Encodes engine rhs second secondNoise) (rng : ρ) :
    let rescale : Rat := productRescale engine lhs rhs
    Approximates engine (engine.multiply draw lhs rhs rng).1 (max lhs.scalePower rhs.scalePower)
      (first * second / rescale)
      ((|(first : Rat)| * secondNoise + |(second : Rat)| * firstNoise) / rescale +
        firstNoise * secondNoise / (engine.delta * rescale) + 1 / 2 +
          engine.params.noiseBound) := by
  intro rescale
  have admissible := scaled.bounded.admissible
  have rescalePositive : 0 < productRescale engine lhs rhs := by
    unfold productRescale
    split
    · linarith [scaled.scale]
    · exact one_pos
  have deltaPositive := (delta_mul admissible).2
  have rescaleCast : (0 : Rat) < rescale := Int.cast_pos.mpr rescalePositive
  have deltaCast : (0 : Rat) < engine.delta := by exact_mod_cast deltaPositive
  obtain ⟨encoding, level, product⟩ :=
    multiply_regular_encodes draw scaled left.regular right.regular rng
  obtain ⟨leftError, leftPhase, leftBound⟩ := left.phase
  obtain ⟨rightError, rightPhase, rightBound⟩ := right.phase
  rw [product, multiply_decoded_encodes admissible.positive, leftPhase, rightPhase]
  apply approximates_encoded admissible draws budget _ level
  have analysis := scaled_phase_error (first : Rat) (second : Rat) deltaCast rescaleCast leftBound
    rightBound
  have rounding := rounded_quotient_error
    ((engine.delta * first + leftError) * (engine.delta * second + rightError))
    (engine.delta * productRescale engine lhs rhs) (mul_pos deltaPositive rescalePositive)
  push_cast at rounding
  refine (abs_sub_le _ _ _).trans ((add_le_add rounding analysis).trans_eq ?_)
  ring

theorem approximates_multiply_plain_integer (draw : Int → Int → ρ → Int × ρ)
    (scaled : Scaled engine) {mantissa noise : Rat}
    (near : Approximates engine cipher cipher.scalePower mantissa noise) {scalar : Rat}
    (integral : engine.isApproximatelyInteger scalar = true) (rng : ρ) :
    Approximates engine (engine.multiplyPlain draw cipher scalar rng).1 cipher.scalePower
      (engine.llround scalar * mantissa) (|(engine.llround scalar : Rat)| * noise) := by
  have product : (engine.multiplyPlain draw cipher scalar rng).1 =
      engine.multiplyPlainInternal cipher (engine.llround scalar) 0 := by
    unfold Engine.multiplyPlain
    rw [if_pos integral]
  rw [product]
  exact approximates_scaled scaled.bounded.admissible near _ 0
    (multiply_plain_internal_regular scaled.bounded near.regular _)

/-- What `multiplyPlain` divides the product with a fractional factor by. -/
def plainRescale (engine : Engine) (cipher : Ciphertext) : Int :=
  if cipher.scalePower = 1 then engine.params.scale else 1

theorem approximates_multiply_plain_fractional (scaled : Scaled engine)
    (draws : DrawsInRange draw) (budget : (engine.params.noiseBound : Rat) < engine.delta / 2)
    {mantissa : Int} {noise : Rat} (encodes : Encodes engine cipher mantissa noise) {scalar : Rat}
    (fractional : engine.isApproximatelyInteger scalar = false) (rng : ρ) :
    let encoded : Rat := engine.llround (scalar * engine.scaleFactor 1)
    Approximates engine (engine.multiplyPlain draw cipher scalar rng).1 1
      (mantissa * encoded / plainRescale engine cipher)
      (|encoded| * noise / plainRescale engine cipher + 1 / 2 + engine.params.noiseBound) := by
  intro encoded
  have admissible := scaled.bounded.admissible
  have rescalePositive : 0 < plainRescale engine cipher := by
    unfold plainRescale
    split
    · linarith [scaled.scale]
    · exact one_pos
  have rescaleCast : (0 : Rat) < plainRescale engine cipher := Int.cast_pos.mpr rescalePositive
  have product : engine.multiplyPlain draw cipher scalar rng =
      engine.multiplyDecoded draw cipher (engine.llround (scalar * engine.scaleFactor 1))
        (plainRescale engine cipher) .fixedPoint 1 rng := by
    unfold Engine.multiplyPlain plainRescale
    rw [fractional]
    rcases encodes.regular.level with ⟨power, -⟩ | ⟨power, -⟩ <;> simp [power]
  obtain ⟨error, phase, bound⟩ := encodes.phase
  rw [product, multiply_decoded_encodes admissible.positive, phase]
  apply approximates_encoded admissible draws budget _ (Or.inr ⟨rfl, rfl⟩)
  have rounding := rounded_quotient_error
    ((engine.delta * mantissa + error) * engine.llround (scalar * engine.scaleFactor 1))
    (plainRescale engine cipher) rescalePositive
  push_cast at rounding
  have analysis : |(engine.delta * mantissa + error : Rat) * encoded / plainRescale engine cipher -
      engine.delta * (mantissa * encoded / plainRescale engine cipher)| ≤
        |encoded| * noise / plainRescale engine cipher := by
    have split : (engine.delta * mantissa + error : Rat) * encoded / plainRescale engine cipher -
        engine.delta * (mantissa * encoded / plainRescale engine cipher) =
          encoded * error / plainRescale engine cipher := by
      field_simp
      ring
    rw [split, abs_div, abs_mul, abs_of_pos rescaleCast]
    exact div_le_div_of_nonneg_right (mul_le_mul_of_nonneg_left bound (abs_nonneg _))
      rescaleCast.le
  refine (abs_sub_le _ _ _).trans ((add_le_add rounding analysis).trans_eq ?_)
  ring

end Random

end Fhenomenon.EncodedSlots

import Fhenomenon.DeviceAbi
import Fhenomenon.EncodedSlots

/-!
# An opcode on one slot

What an opcode of ToyFHE is meant to compute on the numbers behind its slots, the noise
bound within which it does, and how far the result may be off: sums are exact, scalars are
rounded to their encoding, and a product of two fixed-point numbers to one unit of the scale.
-/

namespace Fhenomenon.SlotOperations

open Fhenomenon.Lib.MachineInt Fhenomenon.Lib.Rounding
open Fhenomenon.InstructionStream Fhenomenon.DefaultExecutor Fhenomenon.DeviceAbi
open Fhenomenon.ToyFhe Fhenomenon.ToyFheNoise Fhenomenon.ToyFheKernels
open Fhenomenon.ReachableCiphertexts Fhenomenon.EncodedSlots
open Fhenomenon.CheckedEngine (Scaled addPlainPower)

/-- The opcode on the numbers behind one slot of each operand. -/
def slotValue (opcode : FhnOpCode) (scalar first second : Rat) : Rat :=
  match opcode with
  | .addCC | .hrotAdd => first + second
  | .subCC => first - second
  | .multCC | .hmult => first * second
  | .addCS => first + scalar
  | .multCS => scalar * first
  | .negate => -first
  | _ => first

def ReadsScalar (opcode : FhnOpCode) : Prop := opcode = .addCS ∨ opcode = .multCS

instance (opcode : FhnOpCode) : Decidable (ReadsScalar opcode) :=
  inferInstanceAs (Decidable (_ ∨ _))

/-- `isApproximatelyInteger`, for integers of any size. -/
def NearInteger (scalar : Rat) : Prop := |scalar - llround scalar| ≤ 1 / 10 ^ 9

instance (scalar : Rat) : Decidable (NearInteger scalar) := inferInstanceAs (Decidable (_ ≤ _))

/-- The scale level of the result: a fractional scalar leaves a fixed-point number. -/
def slotLevel (opcode : FhnOpCode) (scalar : Rat) (lhs rhs : Ciphertext) : Nat :=
  match opcode with
  | .addCC | .hrotAdd | .subCC | .multCC | .hmult => max lhs.scalePower rhs.scalePower
  | .addCS | .multCS => if NearInteger scalar then lhs.scalePower else 1
  | _ => lhs.scalePower

/-- An addend is encoded at the level of the sum, an integral factor at none. -/
def scalarLevel (opcode : FhnOpCode) (scalar : Rat) (lhs : Ciphertext) : Nat :=
  if NearInteger scalar then if opcode = .addCS then lhs.scalePower else 0 else 1

def encodedScalar (engine : Engine) (opcode : FhnOpCode) (scalar : Rat) (lhs : Ciphertext) : Int :=
  llround (scalar * engine.scaleFactor (scalarLevel opcode scalar lhs))

def slotNoise (engine : Engine) (opcode : FhnOpCode) (scalar : Rat) (lhs rhs : Ciphertext)
    (first second : Int) (leftNoise rightNoise : Rat) : Rat :=
  let raise := fun cipher : Ciphertext =>
    (engine.params.scale : Rat) ^ (slotLevel opcode scalar lhs rhs - cipher.scalePower)
  let factor : Rat := |(encodedScalar engine opcode scalar lhs : Rat)|
  match opcode with
  | .addCC | .hrotAdd | .subCC => raise lhs * leftNoise + raise rhs * rightNoise
  | .multCC | .hmult =>
      (|(first : Rat)| * rightNoise + |(second : Rat)| * leftNoise) /
          productRescale engine lhs rhs +
        leftNoise * rightNoise / (engine.delta * productRescale engine lhs rhs) + 1 / 2 +
          engine.params.noiseBound
  | .addCS => raise lhs * leftNoise
  | .multCS =>
      if NearInteger scalar then factor * leftNoise
      else factor * leftNoise / plainRescale engine lhs + 1 / 2 + engine.params.noiseBound
  | _ => leftNoise

/-- An integer is encoded exactly, a fraction to half a unit of the scale. -/
def scalarTolerance (engine : Engine) (scalar : Rat) : Rat :=
  if scalar = llround scalar then 0 else max (1 / 10 ^ 9) (1 / (2 * (engine.params.scale : Rat)))

/-- Only a product that is rescaled is rounded, to one unit of the scale. -/
def slotTolerance (engine : Engine) (opcode : FhnOpCode) (scalar : Rat) (lhs rhs : Ciphertext)
    (first : Rat) : Rat :=
  match opcode with
  | .multCC | .hmult =>
      if lhs.scalePower = 1 ∧ rhs.scalePower = 1 then 1 / (engine.params.scale : Rat) else 0
  | .addCS => scalarTolerance engine scalar
  | .multCS =>
      let unit : Rat :=
        if lhs.scalePower = 1 ∧ ¬NearInteger scalar then 1 / (engine.params.scale : Rat) else 0
      scalarTolerance engine scalar * |first| + unit
  | _ => 0

/-- A ciphertext of the scale level that decrypts to `value`, modulo `t` in the mantissa. -/
structure DecryptedAs (engine : Engine) (out : Ciphertext) (level : Nat) (value tolerance : Rat) :
    Prop where
  regular : Regular engine out
  leveled : out.scalePower = level
  centred : -engine.params.t < 2 * engine.decryptInt out ∧
    2 * engine.decryptInt out ≤ engine.params.t
  decrypted : ∃ mantissa : Int, engine.decryptInt out ≡ mantissa [ZMOD engine.params.t] ∧
    |mantissa / engine.scaleFactor level - value| ≤ tolerance

/-- Within the noise bound, `out` decrypts to the opcode on the operands' numbers. -/
def DecryptsTo (engine : Engine) (opcode : FhnOpCode) (scalar : Rat) (lhs rhs out : Ciphertext) :
    Prop :=
  ∀ (first second : Int) (leftNoise rightNoise : Rat),
    Encodes engine lhs first leftNoise →
    (1 ∈ readSlots opcode → Encodes engine rhs second rightNoise) →
    slotNoise engine opcode scalar lhs rhs first second leftNoise rightNoise < engine.delta / 2 →
    DecryptedAs engine out (slotLevel opcode scalar lhs rhs)
      (slotValue opcode scalar (first / engine.scaleFactor lhs.scalePower)
        (second / engine.scaleFactor rhs.scalePower))
      (slotTolerance engine opcode scalar lhs rhs (first / engine.scaleFactor lhs.scalePower))

/-- The engine's operation on one slot, integer or fixed-point. -/
def slotCipher {ρ : Type*} (draw : Int → Int → ρ → Int × ρ) (engine : Engine)
    (opcode : FhnOpCode) (fparams : Fin 2 → Rat) (lhs rhs : Ciphertext) (rng : ρ) : Ciphertext :=
  match opcode with
  | .addCC | .hrotAdd => engine.add lhs rhs
  | .subCC => engine.add lhs (negated rhs)
  | .multCC | .hmult => (engine.multiply draw lhs rhs rng).1
  | .addCS => engine.addPlain lhs (fparams 0)
  | .multCS => (engine.multiplyPlain draw lhs (fparams 0) rng).1
  | .negate => negated lhs
  | _ => lhs

section Engine

variable {engine : Engine} {cipher out : Ciphertext} {level : Nat} {value noise tolerance : Rat}

theorem decrypted_exactly (admissible : Admissible engine) {mantissa : Int}
    (near : Approximates engine out level mantissa noise) (budget : noise < engine.delta / 2)
    (close : |mantissa / engine.scaleFactor level - value| ≤ tolerance) :
    DecryptedAs engine out level value tolerance where
  regular := near.regular
  leveled := near.level
  centred := FixedPointProducts.decrypt_centred admissible out
  decrypted := ⟨mantissa, approximates_decrypts_integer admissible near budget, close⟩

/-- A mantissa that is not an integer is rounded to less than one unit. -/
theorem decrypted_rounded (scaled : Scaled engine) {mantissa : Rat}
    (near : Approximates engine out 1 mantissa noise) (budget : noise < engine.delta / 2)
    (close : |mantissa / engine.scaleFactor 1 - value| ≤ tolerance) :
    DecryptedAs engine out 1 value (tolerance + 1 / engine.params.scale) where
  regular := near.regular
  leveled := near.level
  centred := FixedPointProducts.decrypt_centred scaled.bounded.admissible out
  decrypted := by
    have scalePositive : (0 : Rat) < engine.params.scale := by
      exact_mod_cast (by linarith [scaled.scale] : 0 < engine.params.scale)
    obtain ⟨decrypted, congruent, distance⟩ :=
      approximates_decrypts scaled.bounded.admissible near budget
    refine ⟨decrypted, congruent, ?_⟩
    have unit : |decrypted / engine.scaleFactor 1 - mantissa / engine.scaleFactor 1| ≤
        1 / engine.params.scale := by
      rw [Engine.scaleFactor, pow_one, ← sub_div, abs_div, abs_of_pos scalePositive]
      exact div_le_div_of_nonneg_right distance.le scalePositive.le
    have total := abs_sub_le (decrypted / engine.scaleFactor 1)
      (mantissa / engine.scaleFactor 1) value
    linarith

theorem raised_value (scaled : Scaled engine) (mantissa : Rat) {lower : Nat}
    (order : lower ≤ level) :
    (engine.params.scale : Rat) ^ (level - lower) * mantissa / engine.scaleFactor level =
      mantissa / engine.scaleFactor lower := by
  have scaleNonzero : (engine.params.scale : Rat) ≠ 0 := by
    exact_mod_cast (by linarith [scaled.scale] : engine.params.scale ≠ 0)
  rw [Engine.scaleFactor, Engine.scaleFactor, ← pow_sub_mul_pow _ order]
  field_simp

end Engine

section Scalars

variable {engine : Engine} {lhs : Ciphertext} {scalar : Rat}

/-- The test is right on every scalar whose nearest integer fits, and fails elsewhere. -/
theorem approximately_integer_iff :
    engine.isApproximatelyInteger scalar = true ↔
      NearInteger scalar ∧ Fits 64 (llround scalar) := by
  unfold Engine.isApproximatelyInteger NearInteger
  rw [decide_eq_true_iff]
  by_cases fits : Fits 64 (llround scalar)
  · rw [llround_fits engine fits.1 fits.2]
    exact (and_iff_left fits).symm
  · apply iff_of_false _ (fun both => fits both.2)
    -- an `int64_t` is at least half a unit away from the scalar
    have lost : engine.llround scalar = i64 (engine.unrepresentable scalar) := if_neg fits
    rw [lost]
    generalize engine.unrepresentable scalar = given
    have lower : -2 ^ 63 ≤ i64 given := by
      unfold i64
      omega
    have upper : i64 given < 2 ^ 63 := by
      unfold i64
      omega
    have apart : 1 ≤ |llround scalar - i64 given| := by
      have different : llround scalar ≠ i64 given := by
        intro same
        rw [same] at fits
        exact fits ⟨lower, upper⟩
      exact Int.one_le_abs (sub_ne_zero.mpr different)
    have far : (1 : Rat) ≤ |(llround scalar : Rat) - i64 given| := by exact_mod_cast apart
    have split := abs_sub_le (llround scalar : Rat) scalar (i64 given)
    have rounding := llround_error scalar
    intro close
    norm_num at close
    linarith

/-- The encoding of a scalar, at the level of its encoding. -/
theorem scalar_error (scaled : Scaled engine) (scalar : Rat) {level : Nat} (small : level ≤ 1)
    (integral : level = 0 → NearInteger scalar) :
    |llround (scalar * engine.scaleFactor level) / engine.scaleFactor level - scalar| ≤
      scalarTolerance engine scalar := by
  have scalePositive : (0 : Rat) < engine.params.scale := by
    exact_mod_cast (by linarith [scaled.scale] : 0 < engine.params.scale)
  have factorPositive : 0 < engine.scaleFactor level := pow_pos scalePositive level
  unfold scalarTolerance
  by_cases exact : scalar = llround scalar
  · have encoded : llround (scalar * engine.scaleFactor level) =
        llround scalar * engine.params.scale ^ level := by
      rw [← llround_int (llround scalar * engine.params.scale ^ level)]
      congr 1
      push_cast
      rw [← exact]
      rfl
    rw [if_pos exact, encoded]
    push_cast
    rw [← exact]
    change |scalar * engine.scaleFactor level / engine.scaleFactor level - scalar| ≤ 0
    rw [mul_div_cancel_right₀ _ factorPositive.ne', sub_self, abs_zero]
  · rw [if_neg exact]
    obtain zero | one : level = 0 ∨ level = 1 := by omega
    · have near := integral zero
      rw [zero, Engine.scaleFactor, pow_zero, mul_one, div_one, abs_sub_comm]
      exact le_max_of_le_left near
    · have rounding := llround_error (scalar * engine.scaleFactor level)
      have split : (llround (scalar * engine.scaleFactor level) : Rat) / engine.scaleFactor level -
          scalar = (llround (scalar * engine.scaleFactor level) -
            scalar * engine.scaleFactor level) / engine.scaleFactor level := by
        field_simp
      rw [split, abs_div, abs_of_pos factorPositive]
      refine le_max_of_le_right ?_
      rw [div_le_div_iff₀ factorPositive (by linarith)]
      have factor : engine.scaleFactor level = engine.params.scale := by
        rw [one, Engine.scaleFactor, pow_one]
      rw [factor] at rounding ⊢
      nlinarith

end Scalars

section Slots

variable {ρ : Type*} {draw : Int → Int → ρ → Int × ρ} {engine : Engine} {lhs rhs : Ciphertext}
  {first second : Int} {leftNoise rightNoise : Rat}

theorem sum_decrypts (scaled : Scaled engine) (sign : Int)
    (left : Approximates engine lhs lhs.scalePower first leftNoise)
    (right : Approximates engine rhs rhs.scalePower (sign * second) rightNoise)
    (budget : (engine.params.scale : Rat) ^ (max lhs.scalePower rhs.scalePower - lhs.scalePower) *
        leftNoise + (engine.params.scale : Rat) ^
          (max lhs.scalePower rhs.scalePower - rhs.scalePower) * rightNoise < engine.delta / 2) :
    DecryptedAs engine (engine.add lhs rhs) (max lhs.scalePower rhs.scalePower)
      (first / engine.scaleFactor lhs.scalePower +
        sign * (second / engine.scaleFactor rhs.scalePower)) 0 := by
  have sum := approximates_add scaled left right
  set target := max lhs.scalePower rhs.scalePower with level
  have mantissa : (engine.params.scale : Rat) ^ (target - lhs.scalePower) * first +
      (engine.params.scale : Rat) ^ (target - rhs.scalePower) * (sign * second) =
        ((engine.params.scale ^ (target - lhs.scalePower) * first +
          engine.params.scale ^ (target - rhs.scalePower) * (sign * second) : Int) : Rat) := by
    push_cast
    rfl
  apply decrypted_exactly scaled.bounded.admissible (by rw [← mantissa]; exact sum) budget
  rw [← mantissa, add_div, raised_value scaled _ (le_max_left _ _),
    raised_value scaled _ (le_max_right _ _), mul_div_assoc, sub_self, abs_zero]

theorem product_decrypts (scaled : Scaled engine) (draws : DrawsInRange draw)
    (fresh : (engine.params.noiseBound : Rat) < engine.delta / 2)
    (left : Encodes engine lhs first leftNoise) (right : Encodes engine rhs second rightNoise)
    (scalar : Rat) (rng : ρ)
    (budget : slotNoise engine .multCC scalar lhs rhs first second leftNoise rightNoise <
      engine.delta / 2) :
    DecryptedAs engine (engine.multiply draw lhs rhs rng).1 (max lhs.scalePower rhs.scalePower)
      (first / engine.scaleFactor lhs.scalePower * (second / engine.scaleFactor rhs.scalePower))
      (if lhs.scalePower = 1 ∧ rhs.scalePower = 1 then 1 / engine.params.scale else 0) := by
  have product := approximates_multiply scaled draws fresh left right rng
  by_cases fixed : lhs.scalePower = 1 ∧ rhs.scalePower = 1
  · have rescale : productRescale engine lhs rhs = engine.params.scale := if_pos fixed
    have top : max lhs.scalePower rhs.scalePower = 1 := by rw [fixed.1, fixed.2]; rfl
    rw [top] at product ⊢
    rw [if_pos fixed, ← zero_add (1 / (engine.params.scale : Rat))]
    apply decrypted_rounded scaled product budget
    rw [rescale, fixed.1, fixed.2, Engine.scaleFactor, pow_one, div_mul_div_comm, div_div, sub_self,
      abs_zero]
  · have rescale : productRescale engine lhs rhs = 1 := if_neg fixed
    rw [if_neg fixed]
    have mantissa : (first * second / productRescale engine lhs rhs : Rat) =
        ((first * second : Int) : Rat) := by
      rw [rescale]
      push_cast
      rw [div_one]
    dsimp only at product
    rw [mantissa] at product
    apply decrypted_exactly scaled.bounded.admissible product budget
    have powers : engine.scaleFactor (max lhs.scalePower rhs.scalePower) =
        engine.scaleFactor lhs.scalePower * engine.scaleFactor rhs.scalePower := by
      have leftSmall := regular_level left.regular
      have rightSmall := regular_level right.regular
      have sum : max lhs.scalePower rhs.scalePower = lhs.scalePower + rhs.scalePower := by omega
      rw [sum, Engine.scaleFactor, pow_add]
      rfl
    rw [powers, Int.cast_mul, div_mul_div_comm, sub_self, abs_zero]

theorem add_plain_power {scalar : Rat} (regular : Regular engine lhs) (rhs : Ciphertext)
    (fits : Fits 64 (llround scalar)) :
    addPlainPower engine lhs scalar = slotLevel .addCS scalar lhs rhs := by
  have integral : engine.isApproximatelyInteger scalar = true ↔ NearInteger scalar :=
    approximately_integer_iff.trans (and_iff_left fits)
  unfold addPlainPower slotLevel
  by_cases near : NearInteger scalar
  · have kept : ¬(lhs.encoding = .integer ∧ (!engine.isApproximatelyInteger scalar) = true) := by
      rw [integral.mpr near]
      simp
    rw [if_neg kept]
    exact (if_pos near).symm
  · have fractional : engine.isApproximatelyInteger scalar = false :=
      Bool.eq_false_iff.mpr fun test => near (integral.mp test)
    rw [fractional]
    rcases regular.level with ⟨power, encoding⟩ | ⟨power, encoding⟩ <;>
      simp [power, encoding, near]

theorem scalar_level_small (regular : Regular engine lhs) (opcode : FhnOpCode) (scalar : Rat) :
    scalarLevel opcode scalar lhs ≤ 1 := by
  have small := regular_level regular
  unfold scalarLevel
  split_ifs <;> omega

theorem plain_sum_decrypts (scaled : Scaled engine) {scalar : Rat}
    (left : Encodes engine lhs first leftNoise)
    (fits : Fits 64 (encodedScalar engine .addCS scalar lhs))
    (budget : slotNoise engine .addCS scalar lhs rhs first second leftNoise rightNoise <
      engine.delta / 2) :
    DecryptedAs engine (engine.addPlain lhs scalar) (slotLevel .addCS scalar lhs rhs)
      (first / engine.scaleFactor lhs.scalePower + scalar) (scalarTolerance engine scalar) := by
  have admissible := scaled.bounded.admissible
  have level : scalarLevel .addCS scalar lhs = slotLevel .addCS scalar lhs rhs := rfl
  have small := scalar_level_small left.regular .addCS scalar
  have reached : lhs.scalePower ≤ slotLevel .addCS scalar lhs rhs := by
    have lower := regular_level left.regular
    unfold slotLevel
    dsimp only
    split_ifs <;> omega
  have power := add_plain_power left.regular rhs (CheckedEngine.scalar_fits scaled fits)
  have sum := approximates_add_plain scaled (left.approximates admissible) scalar power
  unfold encodedScalar at fits
  rw [level] at fits small
  rw [llround_fits engine fits.1 fits.2] at sum
  set target := slotLevel .addCS scalar lhs rhs with targetEq
  have mantissa : (engine.params.scale : Rat) ^ (target - lhs.scalePower) * first +
      llround (scalar * engine.scaleFactor target) =
        ((engine.params.scale ^ (target - lhs.scalePower) * first +
          llround (scalar * engine.scaleFactor target) : Int) : Rat) := by
    push_cast
    rfl
  apply decrypted_exactly admissible (by rw [← mantissa]; exact sum) budget
  rw [← mantissa, add_div, raised_value scaled _ reached, add_sub_add_left_eq_sub]
  apply scalar_error scaled scalar small
  intro zero
  by_contra fraction
  rw [targetEq, slotLevel] at zero
  simp [fraction] at zero

theorem plain_product_decrypts (scaled : Scaled engine) (draws : DrawsInRange draw)
    (fresh : (engine.params.noiseBound : Rat) < engine.delta / 2) {scalar : Rat}
    (left : Encodes engine lhs first leftNoise)
    (fits : Fits 64 (encodedScalar engine .multCS scalar lhs)) (rng : ρ)
    (budget : slotNoise engine .multCS scalar lhs rhs first second leftNoise rightNoise <
      engine.delta / 2) :
    DecryptedAs engine (engine.multiplyPlain draw lhs scalar rng).1
      (slotLevel .multCS scalar lhs rhs) (scalar * (first / engine.scaleFactor lhs.scalePower))
      (slotTolerance engine .multCS scalar lhs rhs (first / engine.scaleFactor lhs.scalePower)) := by
  have admissible := scaled.bounded.admissible
  have unscaled : Fits 64 (llround scalar) := CheckedEngine.scalar_fits scaled fits
  have integral : engine.isApproximatelyInteger scalar = true ↔ NearInteger scalar :=
    approximately_integer_iff.trans (and_iff_left unscaled)
  by_cases near : NearInteger scalar
  · have product := approximates_multiply_plain_integer draw scaled (left.approximates admissible)
      (integral.mpr near) rng
    have error := scalar_error scaled scalar zero_le_one (fun _ => near)
    simp only [Engine.scaleFactor, pow_zero, mul_one, div_one] at error
    have encoded : encodedScalar engine .multCS scalar lhs = llround scalar := by
      simp [encodedScalar, scalarLevel, near, Engine.scaleFactor]
    simp only [slotNoise, slotLevel, slotTolerance, encoded, near, if_true, not_true_eq_false,
      and_false, if_false, add_zero] at budget ⊢
    rw [llround_fits engine unscaled.1 unscaled.2, ← Int.cast_mul] at product
    apply decrypted_exactly admissible product budget
    rw [Int.cast_mul, mul_div_assoc, ← sub_mul, abs_mul]
    exact mul_le_mul_of_nonneg_right error (abs_nonneg _)
  · have fractional : engine.isApproximatelyInteger scalar = false :=
      Bool.eq_false_iff.mpr fun test => near (integral.mp test)
    have product := approximates_multiply_plain_fractional scaled draws fresh left fractional rng
    have encoded : encodedScalar engine .multCS scalar lhs =
        llround (scalar * engine.scaleFactor 1) := by
      simp [encodedScalar, scalarLevel, near]
    rw [encoded] at fits
    have error := scalar_error scaled scalar (le_refl 1) (fun zero => absurd zero one_ne_zero)
    rw [llround_fits engine fits.1 fits.2] at product
    set mantissa := llround (scalar * engine.scaleFactor 1) with mantissaEq
    simp only [slotNoise, slotLevel, slotTolerance, encoded, near, if_false, not_false_eq_true,
      and_true] at budget ⊢
    have distance (number : Rat) :
        |number * mantissa / engine.scaleFactor 1 - scalar * number| ≤
          scalarTolerance engine scalar * |number| := by
      have split : number * mantissa / engine.scaleFactor 1 - scalar * number =
          (mantissa / engine.scaleFactor 1 - scalar) * number := by ring
      rw [split, abs_mul]
      exact mul_le_mul_of_nonneg_right error (abs_nonneg _)
    rcases left.regular.level with ⟨power, -⟩ | ⟨power, -⟩
    · have rescale : plainRescale engine lhs = 1 := if_neg (by omega)
      have whole : (first * mantissa / plainRescale engine lhs : Rat) =
          ((first * mantissa : Int) : Rat) := by
        rw [rescale]
        push_cast
        rw [div_one]
      dsimp only at product
      rw [whole] at product
      apply decrypted_exactly admissible product budget
      have unscaledFactor : engine.scaleFactor lhs.scalePower = 1 := by
        rw [power]
        exact pow_zero _
      rw [if_neg (by omega), add_zero, unscaledFactor, div_one, Int.cast_mul]
      exact distance first
    · have rescale : plainRescale engine lhs = engine.params.scale := if_pos power
      rw [if_pos power]
      apply decrypted_rounded scaled product budget
      have moved : (first * mantissa / plainRescale engine lhs : Rat) =
          first / engine.scaleFactor lhs.scalePower * mantissa := by
        rw [rescale, power, Engine.scaleFactor, pow_one]
        ring
      rw [moved]
      exact distance _

/-- The engine's operation on one slot decrypts to the opcode on its numbers. -/
theorem slot_cipher_decrypts (scaled : Scaled engine) (draws : DrawsInRange draw)
    (fresh : (engine.params.noiseBound : Rat) < engine.delta / 2) (opcode : FhnOpCode)
    {fparams : Fin 2 → Rat}
    (fits : ReadsScalar opcode → Regular engine lhs →
      Fits 64 (encodedScalar engine opcode (fparams 0) lhs)) (rhs : Ciphertext) (rng : ρ) :
    DecryptsTo engine opcode (fparams 0) lhs rhs
      (slotCipher draw engine opcode fparams lhs rhs rng) := by
  intro first second leftNoise rightNoise left right budget
  have admissible := scaled.bounded.admissible
  have near := left.approximates admissible
  have kept (out : Ciphertext) (same : out = lhs) (within : leftNoise < engine.delta / 2) :
      DecryptedAs engine out lhs.scalePower (first / engine.scaleFactor lhs.scalePower) 0 := by
    rw [same]
    exact decrypted_exactly admissible near within (by rw [sub_self, abs_zero])
  have sum (right : Encodes engine rhs second rightNoise) : Approximates engine rhs rhs.scalePower
      ((1 : Int) * second) rightNoise := by
    rw [Int.cast_one, one_mul]
    exact right.approximates admissible
  cases opcode with
  | addCC =>
      have decrypted := sum_decrypts scaled 1 near (sum (right (by decide))) budget
      rwa [Int.cast_one, one_mul] at decrypted
  | hrotAdd =>
      have decrypted := sum_decrypts scaled 1 near (sum (right (by decide))) budget
      rwa [Int.cast_one, one_mul] at decrypted
  | subCC =>
      have opposite : Approximates engine (negated rhs) (negated rhs).scalePower
          ((-1 : Int) * second) rightNoise := by
        rw [Int.cast_neg, Int.cast_one, neg_one_mul]
        exact approximates_negated scaled ((right (by decide)).approximates admissible)
      have decrypted := sum_decrypts scaled (-1) near opposite budget
      rw [Int.cast_neg, Int.cast_one, neg_one_mul, ← sub_eq_add_neg] at decrypted
      exact decrypted
  | multCC =>
      exact product_decrypts scaled draws fresh left (right (by decide)) (fparams 0) rng budget
  | hmult =>
      exact product_decrypts scaled draws fresh left (right (by decide)) (fparams 0) rng budget
  | addCS =>
      exact plain_sum_decrypts scaled left (fits (by decide) left.regular) budget
  | multCS =>
      exact plain_product_decrypts scaled draws fresh left (fits (by decide) left.regular) rng
        budget
  | negate =>
      have opposite := approximates_negated scaled near
      rw [← Int.cast_neg] at opposite
      have zero : |((-first : Int) : Rat) / engine.scaleFactor lhs.scalePower -
          -(first / engine.scaleFactor lhs.scalePower)| ≤ 0 := by
        rw [Int.cast_neg, neg_div, sub_self, abs_zero]
      exact decrypted_exactly admissible opposite budget zero
  | _ => exact kept _ rfl budget

end Slots

end Fhenomenon.SlotOperations

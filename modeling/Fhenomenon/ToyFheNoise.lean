import Fhenomenon.ToyFhe

/-!
# Noise of integer expressions

A ciphertext encrypts a value when its phase is `delta * value` up to a bounded
error, modulo `q`. Every integer operation keeps that with the documented bound,
and an error below `delta / 2` does not change what decryption returns.
-/

namespace Fhenomenon.ToyFheNoise

open Fhenomenon.Lib.Rounding Fhenomenon.ToyFhe

theorem i64_fits {value : Int} (lower : -2 ^ 63 ≤ value) (upper : value < 2 ^ 63) :
    i64 value = value := by
  rw [i64, Int.emod_eq_of_lt] <;> omega

theorem llround_fits (engine : Engine) {value : Rat} (lower : -2 ^ 63 ≤ llround value)
    (upper : llround value < 2 ^ 63) : engine.llround value = llround value :=
  if_pos ⟨lower, upper⟩

theorem mod_eq_emod (value : Int) {modulus : Int} (positive : 0 < modulus) :
    mod value modulus = value % modulus := by
  have division := Int.tmod_add_mul_tdiv value modulus
  have upper : value.tmod modulus < modulus := Int.tmod_lt_of_pos value positive
  have lower := Int.lt_tmod_of_pos value positive
  rw [mod]
  split
  · have shifted : value = value.tmod modulus + modulus + modulus * (value.tdiv modulus - 1) := by
      linear_combination -division
    nth_rewrite 2 [shifted]
    rw [Int.add_mul_emod_self_left, Int.emod_eq_of_lt] <;> omega
  · nth_rewrite 2 [← division]
    rw [Int.add_mul_emod_self_left, Int.emod_eq_of_lt] <;> omega

theorem folded_residue (value : Int) {modulus : Int} (positive : 0 < modulus) :
    (value.tmod modulus + modulus).tmod modulus = value % modulus := by
  have lower := Int.lt_tmod_of_pos value positive
  have division := Int.tmod_add_mul_tdiv value modulus
  rw [Int.tmod_eq_emod_of_nonneg (by linarith), Int.add_emod_right]
  nth_rewrite 2 [← division]
  rw [Int.add_mul_emod_self_left]

theorem mod_range (value : Int) {modulus : Int} (positive : 0 < modulus) :
    0 ≤ mod value modulus ∧ mod value modulus < modulus := by
  rw [mod_eq_emod value positive]
  exact ⟨Int.emod_nonneg _ positive.ne', Int.emod_lt_of_pos _ positive⟩

theorem mod_congr (value : Int) {modulus : Int} (positive : 0 < modulus) :
    mod value modulus ≡ value [ZMOD modulus] := by
  rw [mod_eq_emod value positive]
  exact Int.mod_modEq value modulus

/-- The representative in `(-modulus / 2, modulus / 2]`. -/
theorem centered_mod_spec (value : Int) {modulus : Int} (positive : 0 < modulus) :
    centeredMod value modulus ≡ value [ZMOD modulus] ∧ -modulus < 2 * centeredMod value modulus ∧
      2 * centeredMod value modulus ≤ modulus := by
  obtain ⟨lower, upper⟩ := mod_range value positive
  have half : modulus.tdiv 2 = modulus / 2 := Int.tdiv_eq_ediv_of_nonneg positive.le
  rw [centeredMod, half]
  split
  · refine ⟨?_, by omega, by omega⟩
    have less : mod value modulus - modulus ≡ mod value modulus [ZMOD modulus] := by
      exact (Int.modEq_iff_dvd.mpr ⟨1, by ring⟩)
    exact less.trans (mod_congr value positive)
  · exact ⟨mod_congr value positive, by omega, by omega⟩

/-- The parameters of an engine for integer arithmetic. -/
structure Admissible (engine : Engine) : Prop where
  plain : 2 ≤ engine.params.t
  divides : engine.params.t ∣ engine.params.q
  positive : 0 < engine.params.q
  bounded : engine.params.q ≤ 2 ^ 62
  noise : 0 ≤ engine.params.noiseBound

structure Reduced (engine : Engine) (cipher : Ciphertext) : Prop where
  c0Lower : 0 ≤ cipher.c0
  c0Upper : cipher.c0 < engine.params.q
  c1Lower : 0 ≤ cipher.c1
  c1Upper : cipher.c1 < engine.params.q

/-- Both parts are below `q` in size, as negation leaves them. -/
structure Signed (engine : Engine) (cipher : Ciphertext) : Prop where
  c0 : |cipher.c0| < engine.params.q
  c1 : |cipher.c1| < engine.params.q

theorem Reduced.signed {engine : Engine} {cipher : Ciphertext}
    (reduced : Reduced engine cipher) : Signed engine cipher := by
  obtain ⟨c0Lower, c0Upper, c1Lower, c1Upper⟩ := reduced
  constructor <;> rw [abs_of_nonneg] <;> assumption

/-- An unscaled integer ciphertext of `value`, with error at most `noise`. -/
structure Encrypts (engine : Engine) (cipher : Ciphertext) (value : Int) (noise : Rat) :
    Prop where
  reduced : Reduced engine cipher
  unscaled : cipher.scalePower = 0
  integer : cipher.encoding = .integer
  phase : ∃ error : Int, engine.decodeRaw cipher ≡ engine.delta * value + error
      [ZMOD engine.params.q] ∧ |(error : Rat)| ≤ noise

/-- As `Encrypts`, for parts that may be negative. -/
structure Carries (engine : Engine) (cipher : Ciphertext) (value : Int) (noise : Rat) :
    Prop where
  signed : Signed engine cipher
  unscaled : cipher.scalePower = 0
  integer : cipher.encoding = .integer
  phase : ∃ error : Int, engine.decodeRaw cipher ≡ engine.delta * value + error
      [ZMOD engine.params.q] ∧ |(error : Rat)| ≤ noise

theorem Encrypts.carries {engine : Engine} {cipher : Ciphertext} {value : Int} {noise : Rat}
    (encrypts : Encrypts engine cipher value noise) : Carries engine cipher value noise where
  signed := encrypts.reduced.signed
  unscaled := encrypts.unscaled
  integer := encrypts.integer
  phase := encrypts.phase

section Engine

variable {engine : Engine}

theorem delta_mul (admissible : Admissible engine) :
    engine.delta * engine.params.t = engine.params.q ∧ 0 < engine.delta := by
  have exact : engine.delta * engine.params.t = engine.params.q :=
    Int.tdiv_mul_cancel admissible.divides
  refine ⟨exact, ?_⟩
  have product : 0 < engine.delta * engine.params.t := by rw [exact]; exact admissible.positive
  exact pos_of_mul_pos_left product (by linarith [admissible.plain])

theorem delta_le (admissible : Admissible engine) : engine.delta ≤ 2 ^ 61 := by
  obtain ⟨exact, positive⟩ := delta_mul admissible
  have doubled : engine.delta * 2 ≤ engine.params.q := by
    rw [← exact]
    exact mul_le_mul_of_nonneg_left admissible.plain positive.le
  linarith [admissible.bounded]

theorem decode_raw_congr (admissible : Admissible engine) {cipher : Ciphertext}
    (signed : Signed engine cipher) :
    engine.decodeRaw cipher ≡ cipher.c0 + cipher.c1 * engine.secretKey [ZMOD engine.params.q] := by
  obtain ⟨lower, upper⟩ := mod_range (cipher.c1 * engine.secretKey) admissible.positive
  have fits : i64 (cipher.c0 + mulMod cipher.c1 engine.secretKey engine.params.q) =
      cipher.c0 + mulMod cipher.c1 engine.secretKey engine.params.q := by
    have bounded := admissible.bounded
    obtain ⟨first, second⟩ := abs_lt.mp signed.c0
    apply i64_fits <;> unfold mulMod <;> linarith
  simp only [Engine.decodeRaw, fits]
  refine (mod_congr _ admissible.positive).trans ?_
  exact Int.ModEq.add_left _ (mod_congr _ admissible.positive)

theorem decode_raw_range (admissible : Admissible engine) (cipher : Ciphertext) :
    0 ≤ engine.decodeRaw cipher ∧ engine.decodeRaw cipher < engine.params.q :=
  mod_range _ admissible.positive

theorem phase_split (admissible : Admissible engine) {phase value error : Int}
    (congruent : phase ≡ engine.delta * value + error [ZMOD engine.params.q]) :
    ∃ message, phase = engine.delta * message + error ∧ message ≡ value [ZMOD engine.params.t] := by
  obtain ⟨exact, positive⟩ := delta_mul admissible
  obtain ⟨turns, shift⟩ := congruent.symm.dvd
  refine ⟨value + engine.params.t * turns, ?_, ?_⟩
  · rw [← exact] at shift
    linear_combination shift
  · exact Int.modEq_iff_dvd.mpr ⟨-turns, by ring⟩

theorem phase_rounds (admissible : Admissible engine) {phase message error : Int} {noise : Rat}
    (split : phase = engine.delta * message + error) (bounded : |(error : Rat)| ≤ noise)
    (budget : noise < engine.delta / 2) : llround ((phase : Rat) / engine.delta) = message := by
  obtain ⟨-, positive⟩ := delta_mul admissible
  have cast : (0 : Rat) < engine.delta := by exact_mod_cast positive
  apply llround_near
  have quotient : (phase : Rat) / engine.delta - message = error / engine.delta := by
    rw [split]
    push_cast
    field_simp
    ring
  rw [quotient, abs_div, abs_of_pos cast, div_lt_iff₀ cast]
  linarith

theorem decoded_message (admissible : Admissible engine) {phase message error : Int} {noise : Rat}
    (range : 0 ≤ phase ∧ phase < engine.params.q) (split : phase = engine.delta * message + error)
    (bounded : |(error : Rat)| ≤ noise) (budget : noise < engine.delta / 2) :
    0 ≤ message ∧ message ≤ engine.params.t := by
  obtain ⟨exact, positive⟩ := delta_mul admissible
  have small : 2 * |error| < engine.delta := by
    have cast : 2 * |(error : Rat)| < engine.delta := by linarith
    exact_mod_cast cast
  obtain ⟨errorLower, errorUpper⟩ := abs_le.mp (le_refl |error|)
  constructor
  · by_contra negative
    have below : engine.delta * message ≤ engine.delta * (-1) :=
      mul_le_mul_of_nonneg_left (by omega) positive.le
    linarith [range.1]
  · by_contra large
    have above : engine.delta * (engine.params.t + 1) ≤ engine.delta * message :=
      mul_le_mul_of_nonneg_left (by omega) positive.le
    linarith [range.2]

/-- Decryption of a ciphertext whose error is within budget. -/
theorem decrypt_int_spec (admissible : Admissible engine) {cipher : Ciphertext} {value : Int}
    {noise : Rat} (encrypts : Carries engine cipher value noise)
    (budget : noise < engine.delta / 2) :
    engine.decryptInt cipher ≡ value [ZMOD engine.params.t] ∧
      -engine.params.t < 2 * engine.decryptInt cipher ∧
      2 * engine.decryptInt cipher ≤ engine.params.t := by
  obtain ⟨error, congruent, bounded⟩ := encrypts.phase
  obtain ⟨message, split, same⟩ := phase_split admissible congruent
  have rounded := phase_rounds admissible split bounded budget
  have plainPositive : 0 < engine.params.t := by linarith [admissible.plain]
  have fits : engine.llround ((engine.decodeRaw cipher : Rat) / engine.delta) = message := by
    obtain ⟨lower, upper⟩ := decoded_message admissible (decode_raw_range admissible cipher) split
      bounded budget
    have bound : engine.params.t ≤ 2 ^ 62 :=
      (Int.le_of_dvd admissible.positive admissible.divides).trans admissible.bounded
    rw [← rounded]
    apply llround_fits <;> rw [rounded] <;> linarith
  have decrypted : engine.decryptInt cipher = centeredMod message engine.params.t := by
    simp only [Engine.decryptInt, fits]
  rw [decrypted]
  obtain ⟨congruence, lower, upper⟩ := centered_mod_spec message plainPositive
  exact ⟨congruence.trans same, lower, upper⟩

section Random

variable {ρ : Type*} {draw : Int → Int → ρ → Int × ρ}

/-- A fresh mask hides the value and adds one fresh noise. -/
theorem encode_raw_spec (admissible : Admissible engine) (draws : DrawsInRange draw)
    (budget : (engine.params.noiseBound : Rat) < engine.delta / 2) {value : Int}
    (lower : 0 ≤ value) (upper : value < engine.params.q) (encoding : Encoding) (scalePower : Nat)
    (rng : ρ) :
    Reduced engine (engine.encodeRaw draw value encoding scalePower rng).1 ∧
      ∃ error : Int, engine.decodeRaw (engine.encodeRaw draw value encoding scalePower rng).1 ≡
          value + error [ZMOD engine.params.q] ∧
        |(error : Rat)| ≤ engine.params.noiseBound := by
  have positive := admissible.positive
  have bounded := admissible.bounded
  have deltaLe := delta_le admissible
  have small : engine.params.noiseBound < 2 ^ 60 := by
    have doubled : 2 * engine.params.noiseBound < engine.delta := by
      have cast : 2 * (engine.params.noiseBound : Rat) < engine.delta := by linarith
      exact_mod_cast cast
    linarith
  have masks := draws 0 (engine.params.q - 1) rng (by linarith)
  have noises := draws (-engine.params.noiseBound) engine.params.noiseBound
    (draw 0 (engine.params.q - 1) rng).2 (by linarith [admissible.noise])
  have topFits : i64 (engine.params.q - 1) = engine.params.q - 1 := by
    apply i64_fits <;> linarith
  have bottomFits : i64 (-engine.params.noiseBound) = -engine.params.noiseBound := by
    apply i64_fits <;> linarith [admissible.noise]
  generalize mask : (draw 0 (engine.params.q - 1) rng).1 = a at masks
  generalize next : (draw 0 (engine.params.q - 1) rng).2 = middle at noises
  generalize noise :
    (draw (-engine.params.noiseBound) engine.params.noiseBound middle).1 = e at noises
  obtain ⟨secretLower, secretUpper⟩ := mod_range (a * engine.secretKey) positive
  have differenceFits : i64 (value - mulMod a engine.secretKey engine.params.q) =
      value - mulMod a engine.secretKey engine.params.q := by
    apply i64_fits <;> unfold mulMod <;> linarith
  have sumFits : i64 (value - mulMod a engine.secretKey engine.params.q + e) =
      value - mulMod a engine.secretKey engine.params.q + e := by
    apply i64_fits <;> unfold mulMod <;> linarith
  have encoded : (engine.encodeRaw draw value encoding scalePower rng).1 =
      { c1 := a
        c0 := mod (value - mulMod a engine.secretKey engine.params.q + e) engine.params.q
        scalePower := scalePower
        encoding := encoding } := by
    simp only [Engine.encodeRaw, Engine.sampleUniform, Engine.sampleNoise, topFits, bottomFits,
      mask, next, noise, differenceFits, sumFits]
  rw [encoded]
  have reduced : Reduced engine
      { c1 := a
        c0 := mod (value - mulMod a engine.secretKey engine.params.q + e) engine.params.q
        scalePower := scalePower
        encoding := encoding } := by
    obtain ⟨first, second⟩ :=
      mod_range (value - mulMod a engine.secretKey engine.params.q + e) positive
    exact ⟨first, second, masks.1, by linarith⟩
  refine ⟨reduced, e, ?_, ?_⟩
  · refine (decode_raw_congr admissible reduced.signed).trans ?_
    have masked : mod (value - mulMod a engine.secretKey engine.params.q + e) engine.params.q ≡
        value - a * engine.secretKey + e [ZMOD engine.params.q] := by
      refine (mod_congr _ positive).trans ?_
      exact Int.ModEq.add_right _ (Int.ModEq.sub_left _ (mod_congr _ positive))
    refine (Int.ModEq.add_right _ masked).trans ?_
    have cancelled : value - a * engine.secretKey + e + a * engine.secretKey = value + e := by ring
    rw [cancelled]
  · rw [abs_le]
    exact ⟨by exact_mod_cast noises.1, by exact_mod_cast noises.2⟩

theorem delta_congr (admissible : Admissible engine) {first second : Int}
    (congruent : first ≡ second [ZMOD engine.params.t]) :
    engine.delta * first ≡ engine.delta * second [ZMOD engine.params.q] := by
  have scaled := congruent.mul_left' (c := engine.delta)
  rwa [(delta_mul admissible).1] at scaled

theorem encrypt_int_spec (admissible : Admissible engine) (draws : DrawsInRange draw)
    (budget : (engine.params.noiseBound : Rat) < engine.delta / 2) (value : Int) (rng : ρ) :
    Encrypts engine (engine.encryptInt draw value rng).1 value engine.params.noiseBound := by
  have positive := admissible.positive
  have plainPositive : 0 < engine.params.t := by linarith [admissible.plain]
  obtain ⟨lower, upper⟩ := mod_range (engine.delta * mod value engine.params.t) positive
  obtain ⟨reduced, error, congruent, bounded⟩ := encode_raw_spec admissible draws budget lower upper
    .integer 0 rng
  refine ⟨reduced, rfl, rfl, error, ?_, bounded⟩
  refine congruent.trans (Int.ModEq.add_right _ ?_)
  exact (mod_congr _ positive).trans (delta_congr admissible (mod_congr value plainPositive))

end Random

theorem align_unscaled {cipher : Ciphertext} (unscaled : cipher.scalePower = 0) :
    engine.alignScale cipher 0 = cipher := by
  rw [Engine.alignScale, unscaled]
  rfl

theorem decode_sum (admissible : Admissible engine) {left right sum : Ciphertext}
    (leftSigned : Signed engine left) (rightSigned : Signed engine right)
    (c0 : sum.c0 = mod (i64 (left.c0 + right.c0)) engine.params.q)
    (c1 : sum.c1 = mod (i64 (left.c1 + right.c1)) engine.params.q) :
    Reduced engine sum ∧ engine.decodeRaw sum ≡
      engine.decodeRaw left + engine.decodeRaw right [ZMOD engine.params.q] := by
  have positive := admissible.positive
  have bounded := admissible.bounded
  obtain ⟨leftC0, leftC0Lt⟩ := abs_lt.mp leftSigned.c0
  obtain ⟨leftC1, leftC1Lt⟩ := abs_lt.mp leftSigned.c1
  obtain ⟨rightC0, rightC0Lt⟩ := abs_lt.mp rightSigned.c0
  obtain ⟨rightC1, rightC1Lt⟩ := abs_lt.mp rightSigned.c1
  have c0Fits : i64 (left.c0 + right.c0) = left.c0 + right.c0 := by
    apply i64_fits <;> linarith
  have c1Fits : i64 (left.c1 + right.c1) = left.c1 + right.c1 := by
    apply i64_fits <;> linarith
  rw [c0Fits] at c0
  rw [c1Fits] at c1
  have reduced : Reduced engine sum := by
    constructor <;> first | rw [c0] | rw [c1]
    exacts [(mod_range _ positive).1, (mod_range _ positive).2, (mod_range _ positive).1,
      (mod_range _ positive).2]
  refine ⟨reduced, (decode_raw_congr admissible reduced.signed).trans ?_⟩
  rw [c0, c1]
  refine ((mod_congr _ positive).add ((mod_congr _ positive).mul_right _)).trans ?_
  rw [show left.c0 + right.c0 + (left.c1 + right.c1) * engine.secretKey =
    (left.c0 + left.c1 * engine.secretKey) + (right.c0 + right.c1 * engine.secretKey) by ring]
  exact ((decode_raw_congr admissible leftSigned).symm).add
    ((decode_raw_congr admissible rightSigned).symm)

theorem decode_scaled (admissible : Admissible engine) {cipher : Ciphertext}
    (signed : Signed engine cipher) (scalar : Int) (scalePowerIncrease : Nat) :
    Reduced engine (engine.multiplyPlainInternal cipher scalar scalePowerIncrease) ∧
      engine.decodeRaw (engine.multiplyPlainInternal cipher scalar scalePowerIncrease) ≡
        scalar * engine.decodeRaw cipher [ZMOD engine.params.q] := by
  have positive := admissible.positive
  have reduced : Reduced engine
      (engine.multiplyPlainInternal cipher scalar scalePowerIncrease) :=
    ⟨(mod_range _ positive).1, (mod_range _ positive).2, (mod_range _ positive).1,
      (mod_range _ positive).2⟩
  refine ⟨reduced, (decode_raw_congr admissible reduced.signed).trans ?_⟩
  have parts : mulMod cipher.c0 scalar engine.params.q +
      mulMod cipher.c1 scalar engine.params.q * engine.secretKey ≡
        scalar * (cipher.c0 + cipher.c1 * engine.secretKey) [ZMOD engine.params.q] := by
    refine ((mod_congr _ positive).add ((mod_congr _ positive).mul_right _)).trans ?_
    rw [show cipher.c0 * scalar + cipher.c1 * scalar * engine.secretKey =
      scalar * (cipher.c0 + cipher.c1 * engine.secretKey) by ring]
  exact parts.trans ((decode_raw_congr admissible signed).symm.mul_left _)

theorem decode_shifted (admissible : Admissible engine) {cipher shifted : Ciphertext}
    (signed : Signed engine cipher) (message : Int)
    (c0 : shifted.c0 = mod (i64 (cipher.c0 +
      mulMod engine.delta (mod message engine.params.t) engine.params.q)) engine.params.q)
    (c1 : shifted.c1 = cipher.c1) :
    Signed engine shifted ∧ engine.decodeRaw shifted ≡
      engine.decodeRaw cipher + engine.delta * message [ZMOD engine.params.q] := by
  have positive := admissible.positive
  have bounded := admissible.bounded
  have plainPositive : 0 < engine.params.t := by linarith [admissible.plain]
  obtain ⟨c0Lower, c0Upper⟩ := abs_lt.mp signed.c0
  obtain ⟨lower, upper⟩ := mod_range (engine.delta * mod message engine.params.t) positive
  have sumFits : i64 (cipher.c0 + mulMod engine.delta (mod message engine.params.t)
      engine.params.q) =
        cipher.c0 + mulMod engine.delta (mod message engine.params.t) engine.params.q := by
    apply i64_fits <;> unfold mulMod <;> linarith
  rw [sumFits] at c0
  have shiftedSigned : Signed engine shifted := by
    constructor
    · rw [c0, abs_of_nonneg (mod_range _ positive).1]
      exact (mod_range _ positive).2
    · rw [c1]
      exact signed.c1
  refine ⟨shiftedSigned, (decode_raw_congr admissible shiftedSigned).trans ?_⟩
  have scaled : mulMod engine.delta (mod message engine.params.t) engine.params.q ≡
      engine.delta * message [ZMOD engine.params.q] :=
    (mod_congr _ positive).trans (delta_congr admissible (mod_congr message plainPositive))
  rw [c0, c1]
  refine (Int.ModEq.add_right _ ((mod_congr _ positive).trans (scaled.add_left _))).trans ?_
  rw [show cipher.c0 + engine.delta * message + cipher.c1 * engine.secretKey =
    cipher.c0 + cipher.c1 * engine.secretKey + engine.delta * message by ring]
  exact Int.ModEq.add_right _ (decode_raw_congr admissible signed).symm

theorem add_spec (admissible : Admissible engine) {lhs rhs : Ciphertext} {first second : Int}
    {firstNoise secondNoise : Rat} (left : Carries engine lhs first firstNoise)
    (right : Carries engine rhs second secondNoise) :
    Encrypts engine (engine.add lhs rhs) (first + second) (firstNoise + secondNoise) := by
  have sum : engine.add lhs rhs =
      { c0 := mod (i64 (lhs.c0 + rhs.c0)) engine.params.q
        c1 := mod (i64 (lhs.c1 + rhs.c1)) engine.params.q
        scalePower := 0
        encoding := .integer } := by
    simp only [Engine.add, left.unscaled, right.unscaled, max_self, align_unscaled left.unscaled,
      align_unscaled right.unscaled, left.integer, right.integer]
    simp
  obtain ⟨reduced, decoded⟩ := decode_sum admissible left.signed right.signed
    (congrArg Ciphertext.c0 sum) (congrArg Ciphertext.c1 sum)
  obtain ⟨leftError, leftPhase, leftBound⟩ := left.phase
  obtain ⟨rightError, rightPhase, rightBound⟩ := right.phase
  refine ⟨reduced, by rw [sum], by rw [sum], leftError + rightError, ?_, ?_⟩
  · refine (decoded.trans (leftPhase.add rightPhase)).trans ?_
    rw [show engine.delta * first + leftError + (engine.delta * second + rightError) =
      engine.delta * (first + second) + (leftError + rightError) by ring]
  · push_cast
    exact (abs_add_le _ _).trans (add_le_add leftBound rightBound)

theorem multiply_plain_internal_spec (admissible : Admissible engine) {cipher : Ciphertext}
    {value : Int} {noise : Rat} (encrypts : Carries engine cipher value noise) (scalar : Int) :
    Encrypts engine (engine.multiplyPlainInternal cipher scalar 0) (scalar * value)
      (|(scalar : Rat)| * noise) := by
  obtain ⟨reduced, decoded⟩ := decode_scaled admissible encrypts.signed scalar 0
  obtain ⟨error, phase, bound⟩ := encrypts.phase
  refine ⟨reduced, by simp [Engine.multiplyPlainInternal, encrypts.unscaled],
    by simp [Engine.multiplyPlainInternal, encrypts.integer], scalar * error, ?_, ?_⟩
  · refine (decoded.trans (phase.mul_left _)).trans ?_
    rw [show scalar * (engine.delta * value + error) =
      engine.delta * (scalar * value) + scalar * error by ring]
  · push_cast
    rw [abs_mul]
    exact mul_le_mul_of_nonneg_left bound (abs_nonneg _)

theorem fits_of_abs {scalar : Int} (fits : |scalar| < 2 ^ 63) : i64 scalar = scalar := by
  obtain ⟨lower, upper⟩ := abs_lt.mp fits
  apply i64_fits <;> omega

theorem llround_scalar (engine : Engine) {scalar : Int} (fits : i64 scalar = scalar) :
    engine.llround scalar = scalar := by
  have lower := Int.emod_nonneg (scalar + 2 ^ 63) (by norm_num : (2 ^ 64 : Int) ≠ 0)
  have upper := Int.emod_lt_of_pos (scalar + 2 ^ 63) (by norm_num : (0 : Int) < 2 ^ 64)
  rw [i64] at fits
  rw [llround_fits engine] <;> rw [llround_int] <;> linarith

theorem integer_scalar (engine : Engine) {scalar : Int} (fits : i64 scalar = scalar) :
    engine.isApproximatelyInteger scalar = true := by
  simp [Engine.isApproximatelyInteger, llround_scalar engine fits]

theorem multiply_plain_spec {ρ : Type*} {draw : Int → Int → ρ → Int × ρ}
    (admissible : Admissible engine) {cipher : Ciphertext} {value : Int} {noise : Rat}
    (carries : Carries engine cipher value noise) (scalar : Int)
    (scalarFits : i64 scalar = scalar) (rng : ρ) :
    Encrypts engine (engine.multiplyPlain draw cipher scalar rng).1 (scalar * value)
      (|(scalar : Rat)| * noise) := by
  have computed : (engine.multiplyPlain draw cipher scalar rng).1 =
      engine.multiplyPlainInternal cipher scalar 0 := by
    simp only [Engine.multiplyPlain, integer_scalar engine scalarFits, if_true,
      llround_scalar engine scalarFits]
  rw [computed]
  exact multiply_plain_internal_spec admissible carries scalar

theorem add_plain_spec (admissible : Admissible engine) {cipher : Ciphertext} {value : Int}
    {noise : Rat} (encrypts : Carries engine cipher value noise) (scalar : Int)
    (scalarFits : i64 scalar = scalar) :
    Carries engine (engine.addPlain cipher scalar) (value + scalar) noise := by
  have sum : engine.addPlain cipher scalar =
      { cipher with
        c0 := mod (i64 (cipher.c0 +
          mulMod engine.delta (mod scalar engine.params.t) engine.params.q)) engine.params.q } := by
    simp only [Engine.addPlain, integer_scalar engine scalarFits, Bool.not_true,
      Bool.false_eq_true, and_false, if_false, Engine.scaleFactor, encrypts.unscaled, pow_zero,
      mul_one, llround_scalar engine scalarFits]
  obtain ⟨signed, decoded⟩ := decode_shifted admissible encrypts.signed scalar
    (congrArg Ciphertext.c0 sum) (by rw [sum])
  obtain ⟨error, phase, bound⟩ := encrypts.phase
  refine ⟨signed, by rw [sum]; exact encrypts.unscaled, by rw [sum]; exact encrypts.integer, error,
    ?_, bound⟩
  refine (decoded.trans (Int.ModEq.add_right _ phase)).trans ?_
  rw [show engine.delta * value + error + engine.delta * scalar =
    engine.delta * (value + scalar) + error by ring]

/-- The centred plaintext a ciphertext decodes to. -/
def decodedMessage (engine : Engine) (cipher : Ciphertext) : Int :=
  llround ((centeredMod (engine.decodeRaw cipher) engine.params.q : Rat) / engine.delta)

/-- The centred phase is `delta` times the decoded message, up to the same error. -/
theorem centred_phase (admissible : Admissible engine) {cipher : Ciphertext} {value : Int}
    {noise : Rat} (encrypts : Carries engine cipher value noise)
    (budget : noise < engine.delta / 2) :
    ∃ error : Int, centeredMod (engine.decodeRaw cipher) engine.params.q =
        engine.delta * decodedMessage engine cipher + error ∧
      |(error : Rat)| ≤ noise ∧ decodedMessage engine cipher ≡ value [ZMOD engine.params.t] := by
  obtain ⟨error, phase, bound⟩ := encrypts.phase
  have centred := (centered_mod_spec (engine.decodeRaw cipher) admissible.positive).1.trans phase
  obtain ⟨message, split, same⟩ := phase_split admissible centred
  have decoded : decodedMessage engine cipher = message :=
    phase_rounds admissible split bound budget
  rw [decoded]
  exact ⟨error, split, bound, same⟩

/-- The error of a product before it is masked again. -/
theorem product_error (delta first second firstError secondError : Int)
    (positive : 0 < delta) {firstNoise secondNoise : Rat}
    (firstBound : |(firstError : Rat)| ≤ firstNoise)
    (secondBound : |(secondError : Rat)| ≤ secondNoise) :
    |((roundedQuotient ((delta * first + firstError) * (delta * second + secondError)) delta -
        delta * (first * second) : Int) : Rat)| ≤
      |(first : Rat)| * secondNoise + |(second : Rat)| * firstNoise +
        firstNoise * secondNoise / delta + 1 / 2 := by
  have cast : (0 : Rat) < delta := by exact_mod_cast positive
  have rounding := rounded_quotient_error
    ((delta * first + firstError) * (delta * second + secondError)) delta positive
  generalize roundedQuotient ((delta * first + firstError) * (delta * second + secondError)) delta =
    rounded at rounding ⊢
  have expanded : (((delta * first + firstError) * (delta * second + secondError) : Int) : Rat) /
      delta = delta * (first * second) + (first * secondError + second * firstError +
        firstError * secondError / delta) := by
    push_cast
    field_simp
    ring
  rw [expanded] at rounding
  have split : ((rounded - delta * (first * second) : Int) : Rat) =
      (rounded - (delta * (first * second) + (first * secondError + second * firstError +
        (firstError * secondError : Rat) / delta))) +
      (first * secondError + second * firstError + firstError * secondError / delta) := by
    push_cast
    ring
  have firstTerm : |(first : Rat) * secondError| ≤ |(first : Rat)| * secondNoise := by
    rw [abs_mul]
    exact mul_le_mul_of_nonneg_left secondBound (abs_nonneg _)
  have secondTerm : |(second : Rat) * firstError| ≤ |(second : Rat)| * firstNoise := by
    rw [abs_mul]
    exact mul_le_mul_of_nonneg_left firstBound (abs_nonneg _)
  have thirdTerm : |(firstError : Rat) * secondError / delta| ≤
      firstNoise * secondNoise / delta := by
    rw [abs_div, abs_mul, abs_of_pos cast]
    apply div_le_div_of_nonneg_right _ cast.le
    exact mul_le_mul firstBound secondBound (abs_nonneg _) ((abs_nonneg _).trans firstBound)
  rw [split]
  calc _ ≤ |(rounded : Rat) - (delta * (first * second) + (first * secondError +
          second * firstError + (firstError * secondError : Rat) / delta))| +
        |(first * secondError + second * firstError + firstError * secondError / delta : Rat)| :=
      abs_add_le _ _
    _ ≤ 1 / 2 + (|(first * secondError : Rat)| + |(second * firstError : Rat)| +
        |(firstError * secondError / delta : Rat)|) :=
      add_le_add rounding ((abs_add_le _ _).trans (add_le_add (abs_add_le _ _) (le_refl _)))
    _ ≤ _ := by linarith

/-- The bound for a product of ciphertexts with the given bounds. -/
def productNoise (engine : Engine) (lhs rhs : Ciphertext) (leftNoise rightNoise : Rat) : Rat :=
  |(decodedMessage engine lhs : Rat)| * rightNoise +
    |(decodedMessage engine rhs : Rat)| * leftNoise +
    leftNoise * rightNoise / engine.delta + 1 / 2 + engine.params.noiseBound

theorem multiply_spec {ρ : Type*} {draw : Int → Int → ρ → Int × ρ}
    (admissible : Admissible engine) (draws : DrawsInRange draw)
    (budget : (engine.params.noiseBound : Rat) < engine.delta / 2) {lhs rhs : Ciphertext}
    {first second : Int} {leftNoise rightNoise : Rat} (left : Carries engine lhs first leftNoise)
    (leftBudget : leftNoise < engine.delta / 2) (right : Carries engine rhs second rightNoise)
    (rightBudget : rightNoise < engine.delta / 2) (rng : ρ) :
    Encrypts engine (engine.multiply draw lhs rhs rng).1 (first * second)
      (productNoise engine lhs rhs leftNoise rightNoise) := by
  have positive := admissible.positive
  obtain ⟨deltaMul, deltaPositive⟩ := delta_mul admissible
  obtain ⟨leftError, leftPhase, leftBound, leftSame⟩ := centred_phase admissible left leftBudget
  obtain ⟨rightError, rightPhase, rightBound, rightSame⟩ :=
    centred_phase admissible right rightBudget
  generalize leftMessage : decodedMessage engine lhs = m1 at leftPhase leftSame
  generalize rightMessage : decodedMessage engine rhs = m2 at rightPhase rightSame
  have error := product_error engine.delta m1 m2 leftError rightError deltaPositive leftBound
    rightBound
  generalize scaledEq : roundedQuotient ((engine.delta * m1 + leftError) *
    (engine.delta * m2 + rightError)) engine.delta = scaled at error
  have folded := folded_residue scaled positive
  have product : engine.multiply draw lhs rhs rng =
      engine.encodeRaw draw (scaled % engine.params.q) .integer 0 rng := by
    simp only [Engine.multiply, left.integer, right.integer, left.unscaled, right.unscaled]
    simp only [reduceCtorEq, or_self, if_false, Engine.multiplyDecoded, leftPhase, rightPhase,
      scaledEq, folded]
  obtain ⟨reduced, fresh, phase, freshBound⟩ := encode_raw_spec admissible draws budget
    (Int.emod_nonneg scaled positive.ne') (Int.emod_lt_of_pos scaled positive) .integer 0 rng
  rw [product]
  refine ⟨reduced, rfl, rfl, scaled - engine.delta * (m1 * m2) + fresh, ?_, ?_⟩
  · refine phase.trans ?_
    have messages : engine.delta * (m1 * m2) ≡ engine.delta * (first * second)
        [ZMOD engine.params.q] := delta_congr admissible (leftSame.mul rightSame)
    calc scaled % engine.params.q + fresh ≡ scaled + fresh [ZMOD engine.params.q] :=
          Int.ModEq.add_right _ (Int.mod_modEq _ _)
      _ = engine.delta * (m1 * m2) + (scaled - engine.delta * (m1 * m2) + fresh) := by ring
      _ ≡ engine.delta * (first * second) + (scaled - engine.delta * (m1 * m2) + fresh)
            [ZMOD engine.params.q] := Int.ModEq.add_right _ messages
  · rw [productNoise, leftMessage, rightMessage, Int.cast_add]
    refine (abs_add_le _ _).trans ?_
    linarith

end Engine

inductive Expr
  | encryptInt (value : Int)
  | add (lhs rhs : Expr)
  | multiply (lhs rhs : Expr)
  | addPlain (inner : Expr) (scalar : Int)
  | multiplyPlain (inner : Expr) (scalar : Int)

namespace Expr

/-- The value a tree stands for; only its class modulo `t` is encrypted. -/
def value : Expr → Int
  | .encryptInt value => value
  | .add lhs rhs => lhs.value + rhs.value
  | .multiply lhs rhs => lhs.value * rhs.value
  | .addPlain inner scalar => inner.value + scalar
  | .multiplyPlain inner scalar => scalar * inner.value

/-- Scalars that a `double` holds exactly. -/
def ScalarsFit : Expr → Prop
  | .encryptInt _ => True
  | .add lhs rhs => lhs.ScalarsFit ∧ rhs.ScalarsFit
  | .multiply lhs rhs => lhs.ScalarsFit ∧ rhs.ScalarsFit
  | .addPlain inner scalar => inner.ScalarsFit ∧ |scalar| < 2 ^ 53
  | .multiplyPlain inner scalar => inner.ScalarsFit ∧ |scalar| < 2 ^ 53

variable {ρ : Type*} (draw : Int → Int → ρ → Int × ρ) (engine : Engine)

/-- The ciphertext of a tree, drawing masks and noises from `rng` in order. -/
def encrypted : Expr → ρ → Ciphertext × ρ
  | .encryptInt value, rng => engine.encryptInt draw value rng
  | .add lhs rhs, rng =>
      let left := lhs.encrypted rng
      let right := rhs.encrypted left.2
      (engine.add left.1 right.1, right.2)
  | .multiply lhs rhs, rng =>
      let left := lhs.encrypted rng
      let right := rhs.encrypted left.2
      engine.multiply draw left.1 right.1 right.2
  | .addPlain inner scalar, rng =>
      let cipher := inner.encrypted rng
      (engine.addPlain cipher.1 scalar, cipher.2)
  | .multiplyPlain inner scalar, rng =>
      let cipher := inner.encrypted rng
      engine.multiplyPlain draw cipher.1 scalar cipher.2

def noise : Expr → ρ → Rat
  | .encryptInt _, _ => engine.params.noiseBound
  | .add lhs rhs, rng => lhs.noise rng + rhs.noise (lhs.encrypted draw engine rng).2
  | .multiply lhs rhs, rng =>
      let left := lhs.encrypted draw engine rng
      let right := rhs.encrypted draw engine left.2
      productNoise engine left.1 right.1 (lhs.noise rng) (rhs.noise left.2)
  | .addPlain inner _, rng => inner.noise rng
  | .multiplyPlain inner scalar, rng => |(scalar : Rat)| * inner.noise rng

/-- Every node's bound is below half of `delta`. -/
def WithinBudget : Expr → ρ → Prop
  | .encryptInt value, rng => noise draw engine (.encryptInt value) rng < engine.delta / 2
  | .add lhs rhs, rng =>
      lhs.WithinBudget rng ∧ rhs.WithinBudget (lhs.encrypted draw engine rng).2 ∧
        noise draw engine (.add lhs rhs) rng < engine.delta / 2
  | .multiply lhs rhs, rng =>
      lhs.WithinBudget rng ∧ rhs.WithinBudget (lhs.encrypted draw engine rng).2 ∧
        noise draw engine (.multiply lhs rhs) rng < engine.delta / 2
  | .addPlain inner scalar, rng =>
      inner.WithinBudget rng ∧ noise draw engine (.addPlain inner scalar) rng < engine.delta / 2
  | .multiplyPlain inner scalar, rng =>
      inner.WithinBudget rng ∧
        noise draw engine (.multiplyPlain inner scalar) rng < engine.delta / 2

instance decidableScalarsFit : (expr : Expr) → Decidable expr.ScalarsFit
  | .encryptInt _ => isTrue trivial
  | .add lhs rhs =>
      have := decidableScalarsFit lhs
      have := decidableScalarsFit rhs
      inferInstanceAs (Decidable (lhs.ScalarsFit ∧ rhs.ScalarsFit))
  | .multiply lhs rhs =>
      have := decidableScalarsFit lhs
      have := decidableScalarsFit rhs
      inferInstanceAs (Decidable (lhs.ScalarsFit ∧ rhs.ScalarsFit))
  | .addPlain inner scalar =>
      have := decidableScalarsFit inner
      inferInstanceAs (Decidable (inner.ScalarsFit ∧ |scalar| < 2 ^ 53))
  | .multiplyPlain inner scalar =>
      have := decidableScalarsFit inner
      inferInstanceAs (Decidable (inner.ScalarsFit ∧ |scalar| < 2 ^ 53))

instance decidableWithinBudget :
    (expr : Expr) → (rng : ρ) → Decidable (expr.WithinBudget draw engine rng)
  | .encryptInt value, rng =>
      inferInstanceAs (Decidable (noise draw engine (.encryptInt value) rng < engine.delta / 2))
  | .add lhs rhs, rng =>
      have := decidableWithinBudget lhs rng
      have := decidableWithinBudget rhs (lhs.encrypted draw engine rng).2
      inferInstanceAs (Decidable (lhs.WithinBudget draw engine rng ∧
        rhs.WithinBudget draw engine (lhs.encrypted draw engine rng).2 ∧
          noise draw engine (.add lhs rhs) rng < engine.delta / 2))
  | .multiply lhs rhs, rng =>
      have := decidableWithinBudget lhs rng
      have := decidableWithinBudget rhs (lhs.encrypted draw engine rng).2
      inferInstanceAs (Decidable (lhs.WithinBudget draw engine rng ∧
        rhs.WithinBudget draw engine (lhs.encrypted draw engine rng).2 ∧
          noise draw engine (.multiply lhs rhs) rng < engine.delta / 2))
  | .addPlain inner scalar, rng =>
      have := decidableWithinBudget inner rng
      inferInstanceAs (Decidable (inner.WithinBudget draw engine rng ∧
        noise draw engine (.addPlain inner scalar) rng < engine.delta / 2))
  | .multiplyPlain inner scalar, rng =>
      have := decidableWithinBudget inner rng
      inferInstanceAs (Decidable (inner.WithinBudget draw engine rng ∧
        noise draw engine (.multiplyPlain inner scalar) rng < engine.delta / 2))

variable {draw engine}

theorem budget_root (expr : Expr) (rng : ρ) (within : expr.WithinBudget draw engine rng) :
    expr.noise draw engine rng < engine.delta / 2 := by
  cases expr with
  | encryptInt value => exact within
  | add lhs rhs => exact within.2.2
  | multiply lhs rhs => exact within.2.2
  | addPlain inner scalar => exact within.2
  | multiplyPlain inner scalar => exact within.2

theorem budget_fresh (expr : Expr) (rng : ρ) (within : expr.WithinBudget draw engine rng) :
    (engine.params.noiseBound : Rat) < engine.delta / 2 := by
  induction expr generalizing rng with
  | encryptInt value => exact within
  | add lhs rhs leftInduction rightInduction => exact leftInduction rng within.1
  | multiply lhs rhs leftInduction rightInduction => exact leftInduction rng within.1
  | addPlain inner scalar induction => exact induction rng within.1
  | multiplyPlain inner scalar induction => exact induction rng within.1

theorem encrypted_spec (admissible : Admissible engine) (draws : DrawsInRange draw) (expr : Expr)
    (scalars : expr.ScalarsFit) (rng : ρ) (within : expr.WithinBudget draw engine rng) :
    Carries engine (expr.encrypted draw engine rng).1 expr.value
      (expr.noise draw engine rng) := by
  have fresh := budget_fresh expr rng within
  induction expr generalizing rng with
  | encryptInt value => exact (encrypt_int_spec admissible draws fresh value rng).carries
  | add lhs rhs leftInduction rightInduction =>
      have left := leftInduction scalars.1 rng within.1
      have right := rightInduction scalars.2 _ within.2.1
      exact (add_spec admissible left right).carries
  | multiply lhs rhs leftInduction rightInduction =>
      have left := leftInduction scalars.1 rng within.1
      have right := rightInduction scalars.2 _ within.2.1
      exact (multiply_spec admissible draws fresh left (budget_root lhs rng within.1) right
        (budget_root rhs _ within.2.1) _).carries
  | addPlain inner scalar induction =>
      have fits : i64 scalar = scalar := fits_of_abs (scalars.2.trans (by norm_num))
      exact add_plain_spec admissible (induction scalars.1 rng within.1) scalar fits
  | multiplyPlain inner scalar induction =>
      have fits : i64 scalar = scalar := fits_of_abs (scalars.2.trans (by norm_num))
      exact (multiply_plain_spec admissible (induction scalars.1 rng within.1) scalar fits
        _).carries

end Expr

/-- Decryption of a tree whose noise stays within budget at every node. -/
theorem decrypt_within_budget {ρ : Type*} (draw : Int → Int → ρ → Int × ρ)
    (draws : DrawsInRange draw) (engine : Engine) (admissible : Admissible engine) (expr : Expr)
    (scalars : expr.ScalarsFit) (rng : ρ) (within : expr.WithinBudget draw engine rng) :
    engine.decryptInt (expr.encrypted draw engine rng).1 ≡ expr.value [ZMOD engine.params.t] ∧
      -engine.params.t < 2 * engine.decryptInt (expr.encrypted draw engine rng).1 ∧
      2 * engine.decryptInt (expr.encrypted draw engine rng).1 ≤ engine.params.t :=
  decrypt_int_spec admissible (Expr.encrypted_spec admissible draws expr scalars rng within)
    (Expr.budget_root expr rng within)

/-- A source that always draws the top of its range. -/
def topDraw (_ high : Int) (rng : Unit) : Int × Unit := (high, rng)

def defaultEngine : Engine := { params := {}, secretKey := 123456789 }

/-- `(-2 * 3 + 4) * 5`, from a product of ciphertexts. -/
def productChain : Expr :=
  .multiplyPlain (.addPlain (.multiply (.encryptInt (-2)) (.encryptInt 3)) 4) 5

theorem decrypt_product_chain :
    DrawsInRange topDraw ∧ Admissible defaultEngine ∧ productChain.ScalarsFit ∧
      productChain.WithinBudget topDraw defaultEngine () ∧
      defaultEngine.decryptInt (productChain.encrypted topDraw defaultEngine ()).1 ≡
        -10 [ZMOD 2 ^ 32] := by
  have draws : DrawsInRange topDraw := fun low high _ order => ⟨order, le_refl high⟩
  have admissible : Admissible defaultEngine := by
    constructor <;> decide
  have within : productChain.WithinBudget topDraw defaultEngine () := by decide +kernel
  exact ⟨draws, admissible, by decide, within,
    (decrypt_within_budget topDraw draws defaultEngine admissible productChain (by decide) ()
      within).1⟩

end Fhenomenon.ToyFheNoise

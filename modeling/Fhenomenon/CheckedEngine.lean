import Fhenomenon.Lib.MachineInt
import Fhenomenon.ToyFheNoise

/-!
# The engine with undefined behaviour

`Crypto/ToyFHE` once more, with every `int64_t` and `__int128` operation undefined
where it overflows or divides by zero, and every distribution undefined over an
empty range. Where these functions are defined, they are those of `ToyFhe`.
-/

namespace Fhenomenon.CheckedEngine

open Fhenomenon.Lib.MachineInt Fhenomenon.Lib.Rounding
open Fhenomenon.ToyFhe Fhenomenon.ToyFheNoise

def mod (value modulus : Int) : Option Int := do
  let result ← remainder 64 value modulus
  if result < 0 then exact 64 (result + modulus) else some result

/-- With `__int128`. -/
def mulMod (lhs rhs modulus : Int) : Option Int := do
  let wide ← exact 128 (lhs * rhs)
  let result ← remainder 128 wide modulus
  if result < 0 then exact 64 (result + modulus) else some result

def centeredMod (value modulus : Int) : Option Int := do
  let result ← mod value modulus
  if result > modulus.tdiv 2 then exact 64 (result - modulus) else some result

def isApproximatelyInteger (scalar : Rat) : Option Bool := do
  let rounded ← exact 64 (llround scalar)
  some (decide (|scalar - rounded| ≤ 1 / 10 ^ 9))

/-- A thrown message, or the parameters that were accepted. -/
def initializeEngine (params : Parameters) : Option (Except String Parameters) :=
  if params.q ≤ params.t then
    some (.error "ToyFHE: ciphertext modulus q must be larger than plaintext modulus t")
  else do
    let rest ← remainder 64 params.q params.t
    if rest ≠ 0 then
      some (.error "ToyFHE: ciphertext modulus q must be a multiple of plaintext modulus t")
    else if params.scale ≤ 1 then some (.error "ToyFHE: scale must be greater than 1")
    else some (.ok params)

section Engine

variable (engine : Engine)

def delta : Option Int := quotient 64 engine.params.q engine.params.t

def decodeRaw (cipher : Ciphertext) : Option Int := do
  let prod ← mulMod cipher.c1 engine.secretKey engine.params.q
  let sum ← exact 64 (cipher.c0 + prod)
  mod sum engine.params.q

def decryptInt (cipher : Ciphertext) : Option Int := do
  let decoded ← decodeRaw engine cipher
  let delta ← delta engine
  if delta = 0 then none
  else do
    let rounded ← exact 64 (llround ((decoded : Rat) / delta))
    centeredMod rounded engine.params.t

def multiplyPlainInternal (cipher : Ciphertext) (scalar : Int) (scalePowerIncrease : Nat) :
    Option Ciphertext := do
  let c0 ← mulMod cipher.c0 scalar engine.params.q
  let c1 ← mulMod cipher.c1 scalar engine.params.q
  some { engine.multiplyPlainInternal cipher scalar scalePowerIncrease with c0 := c0, c1 := c1 }

def raiseScale : Nat → Ciphertext → Option Ciphertext
  | 0, cipher => some cipher
  | count + 1, cipher => do
      let raised ← multiplyPlainInternal engine cipher engine.params.scale 1
      raiseScale count raised

def alignScale (cipher : Ciphertext) (targetScale : Nat) : Option Ciphertext :=
  raiseScale engine (targetScale - cipher.scalePower) cipher

def add (lhs rhs : Ciphertext) : Option Ciphertext := do
  let targetScale := max lhs.scalePower rhs.scalePower
  let left ← alignScale engine lhs targetScale
  let right ← alignScale engine rhs targetScale
  let first ← exact 64 (left.c0 + right.c0)
  let second ← exact 64 (left.c1 + right.c1)
  let c0 ← mod first engine.params.q
  let c1 ← mod second engine.params.q
  some
    { c0 := c0
      c1 := c1
      scalePower := targetScale
      encoding :=
        if left.encoding = .fixedPoint ∨ right.encoding = .fixedPoint then .fixedPoint
        else .integer }

def addPlain (cipher : Ciphertext) (scalar : Rat) : Option Ciphertext := do
  let result ←
    if cipher.encoding = .integer then do
      let integral ← isApproximatelyInteger scalar
      if !integral then alignScale engine cipher 1 else some cipher
    else some cipher
  let encodedScalar ← exact 64 (llround (scalar * engine.scaleFactor result.scalePower))
  let plain ← mod encodedScalar engine.params.t
  let delta ← delta engine
  let scaled ← mulMod delta plain engine.params.q
  let sum ← exact 64 (result.c0 + scaled)
  let c0 ← mod sum engine.params.q
  some { result with c0 := c0 }

def rescaleDivisor : Nat → Int → Option (Int × Nat)
  | scalePower + 2, divisor => do
      let product ← exact 64 (divisor * engine.params.scale)
      rescaleDivisor (scalePower + 1) product
  | scalePower, divisor => some (divisor, scalePower)

end Engine

section Random

variable {ρ : Type} (draw : Int → Int → ρ → Int × ρ) (engine : Engine)

/-- `uniform_int_distribution` requires `low ≤ high`. -/
def uniform (low high : Int) (rng : ρ) : Option (Int × ρ) :=
  if low ≤ high then some (draw low high rng) else none

def generateKeys (params : Parameters) (rng : ρ) : Option (Engine × ρ) := do
  let high ← exact 64 (params.t - 1)
  let secret ← uniform draw 1 high rng
  some ({ params := params, secretKey := secret.1 }, secret.2)

def sampleUniform (rng : ρ) : Option (Int × ρ) := do
  let high ← exact 64 (engine.params.q - 1)
  uniform draw 0 high rng

def sampleNoise (rng : ρ) : Option (Int × ρ) := do
  let low ← exact 64 (-engine.params.noiseBound)
  uniform draw low engine.params.noiseBound rng

def encodeRaw (value : Int) (encoding : Encoding) (scalePower : Nat) (rng : ρ) :
    Option (Ciphertext × ρ) := do
  let a ← sampleUniform draw engine rng
  let e ← sampleNoise draw engine a.2
  let secretProd ← mulMod a.1 engine.secretKey engine.params.q
  let masked ← exact 64 (value - secretProd)
  let noisy ← exact 64 (masked + e.1)
  let c0 ← mod noisy engine.params.q
  some ({ c1 := a.1, c0 := c0, scalePower := scalePower, encoding := encoding }, e.2)

def encryptEncoded (message : Int) (encoding : Encoding) (scalePower : Nat) (rng : ρ) :
    Option (Ciphertext × ρ) := do
  let plain ← mod message engine.params.t
  let delta ← delta engine
  let value ← mulMod delta plain engine.params.q
  encodeRaw draw engine value encoding scalePower rng

def encryptInt (value : Int) (rng : ρ) : Option (Ciphertext × ρ) :=
  encryptEncoded draw engine value .integer 0 rng

/-- The rounded quotient in `__int128`; `-divisor` is an `int64_t`. -/
def wideQuotient (product divisor : Int) : Option Int := do
  let scaled ← quotient 128 product divisor
  let rest ← remainder 128 product divisor
  let doubled ← exact 128 (2 * rest)
  if doubled ≥ divisor then exact 128 (scaled + 1)
  else do
    let negated ← exact 64 (-divisor)
    if doubled ≤ negated then exact 128 (scaled - 1) else some scaled

def multiplyDecoded (cipher : Ciphertext) (factor divisor : Int) (encoding : Encoding)
    (scalePower : Nat) (rng : ρ) : Option (Ciphertext × ρ) := do
  let decoded ← decodeRaw engine cipher
  let p ← centeredMod decoded engine.params.q
  let product ← exact 128 (p * factor)
  let scaled ← wideQuotient product divisor
  let folded ← remainder 128 scaled engine.params.q
  let shifted ← exact 128 (folded + engine.params.q)
  let value ← remainder 128 shifted engine.params.q
  encodeRaw draw engine value encoding scalePower rng

def multiply (lhs rhs : Ciphertext) (rng : ρ) : Option (Ciphertext × ρ) := do
  let decoded ← decodeRaw engine rhs
  let p2 ← centeredMod decoded engine.params.q
  let encoding : Encoding :=
    if lhs.encoding = .fixedPoint ∨ rhs.encoding = .fixedPoint then .fixedPoint else .integer
  let scalePower := lhs.scalePower + rhs.scalePower
  let delta ← delta engine
  let rescaled ←
    if encoding = .fixedPoint then rescaleDivisor engine scalePower delta
    else some (delta, scalePower)
  multiplyDecoded draw engine lhs p2 rescaled.1 encoding rescaled.2 rng

def multiplyPlain (cipher : Ciphertext) (scalar : Rat) (rng : ρ) : Option (Ciphertext × ρ) := do
  let integral ← isApproximatelyInteger scalar
  if integral then do
    let factor ← exact 64 (llround scalar)
    let result ← multiplyPlainInternal engine cipher factor 0
    some (result, rng)
  else do
    let encoded ← exact 64 (llround (scalar * engine.scaleFactor 1))
    if cipher.scalePower ≥ 1 then
      multiplyDecoded draw engine cipher encoded engine.params.scale .fixedPoint cipher.scalePower
        rng
    else multiplyDecoded draw engine cipher encoded 1 .fixedPoint (cipher.scalePower + 1) rng

end Random

theorem mod_defined {value modulus : Int} (fits : Fits 64 value) (positive : 0 < modulus)
    (bounded : modulus ≤ 2 ^ 62) : mod value modulus = some (ToyFhe.mod value modulus) := by
  have upper : value.tmod modulus < modulus := Int.tmod_lt_of_pos value positive
  have lower := Int.lt_tmod_of_pos value positive
  simp only [mod, remainder_pos fits positive, Option.bind_eq_bind, Option.bind_some, ToyFhe.mod]
  split
  · apply exact_of_fits
    constructor <;> norm_num <;> omega
  · rfl

theorem product_fits {lhs rhs : Int} (left : Fits 64 lhs) (right : Fits 64 rhs) :
    |lhs * rhs| ≤ 2 ^ 126 := by
  have leftBound : |lhs| ≤ 2 ^ 63 := abs_le.mpr ⟨left.1, left.2.le⟩
  have rightBound : |rhs| ≤ 2 ^ 63 := abs_le.mpr ⟨right.1, right.2.le⟩
  calc |lhs * rhs| = |lhs| * |rhs| := abs_mul lhs rhs
    _ ≤ 2 ^ 63 * 2 ^ 63 := mul_le_mul leftBound rightBound (abs_nonneg rhs) (by norm_num)
    _ = 2 ^ 126 := by norm_num

theorem wide_fits {value : Int} (small : |value| ≤ 2 ^ 126) : Fits 128 value :=
  fits_of_abs (lt_of_le_of_lt small (by norm_num))

theorem mul_mod_defined {lhs rhs modulus : Int} (left : Fits 64 lhs) (right : Fits 64 rhs)
    (positive : 0 < modulus) (bounded : modulus ≤ 2 ^ 62) :
    mulMod lhs rhs modulus = some (ToyFhe.mulMod lhs rhs modulus) := by
  have wide := wide_fits (product_fits left right)
  have upper : (lhs * rhs).tmod modulus < modulus := Int.tmod_lt_of_pos _ positive
  have lower := Int.lt_tmod_of_pos (lhs * rhs) positive
  simp only [mulMod, exact_of_fits wide, remainder_pos wide positive, Option.bind_eq_bind,
    Option.bind_some, ToyFhe.mulMod, ToyFhe.mod]
  split
  · apply exact_of_fits
    constructor <;> norm_num <;> omega
  · rfl

theorem centered_mod_defined {value modulus : Int} (fits : Fits 64 value)
    (positive : 0 < modulus) (bounded : modulus ≤ 2 ^ 62) :
    centeredMod value modulus = some (ToyFhe.centeredMod value modulus) := by
  obtain ⟨lower, upper⟩ := mod_range value positive
  simp only [centeredMod, mod_defined fits positive bounded, Option.bind_eq_bind,
    Option.bind_some, ToyFhe.centeredMod]
  split
  · apply exact_of_fits
    constructor <;> norm_num <;> omega
  · rfl

section Engine

variable {engine : Engine}

/-- What the bounds on `int64_t` expressions need of an engine. -/
structure Bounded (engine : Engine) : Prop where
  admissible : Admissible engine
  secret : Fits 64 engine.secretKey
  fresh : engine.params.noiseBound ≤ 2 ^ 62

theorem Bounded.plain_le (bounded : Bounded engine) : engine.params.t ≤ 2 ^ 62 :=
  (Int.le_of_dvd bounded.admissible.positive bounded.admissible.divides).trans
    bounded.admissible.bounded

theorem Bounded.plain_pos (bounded : Bounded engine) : 0 < engine.params.t := by
  linarith [bounded.admissible.plain]

theorem fits_of_modulus (bounded : Bounded engine) {value : Int}
    (small : |value| ≤ engine.params.q) : Fits 64 value := by
  have modulus := bounded.admissible.bounded
  exact fits_of_abs (lt_of_le_of_lt (small.trans modulus) (by norm_num))

theorem fits_of_two_moduli (bounded : Bounded engine) {value : Int}
    (small : |value| < 2 * engine.params.q) : Fits 64 value := by
  have modulus := bounded.admissible.bounded
  exact fits_of_abs (lt_of_lt_of_le small (by norm_num; omega))

theorem mul_mod_abs (bounded : Bounded engine) (lhs rhs : Int) :
    |ToyFhe.mulMod lhs rhs engine.params.q| < engine.params.q := by
  obtain ⟨lower, upper⟩ := mod_range (lhs * rhs) bounded.admissible.positive
  rw [ToyFhe.mulMod, abs_of_nonneg lower]
  exact upper

theorem mod_abs (bounded : Bounded engine) (value : Int) :
    |ToyFhe.mod value engine.params.q| < engine.params.q := by
  obtain ⟨lower, upper⟩ := mod_range value bounded.admissible.positive
  rw [abs_of_nonneg lower]
  exact upper

theorem delta_fits (bounded : Bounded engine) : Fits 64 engine.delta := by
  have small := delta_le bounded.admissible
  have positive := (delta_mul bounded.admissible).2
  constructor <;> norm_num <;> omega

theorem plain_residue_fits (bounded : Bounded engine) (value : Int) :
    Fits 64 (ToyFhe.mod value engine.params.t) := by
  have small := bounded.plain_le
  obtain ⟨lower, upper⟩ := mod_range value bounded.plain_pos
  constructor <;> norm_num <;> omega

theorem decode_raw_fits (bounded : Bounded engine) (cipher : Ciphertext) :
    Fits 64 (engine.decodeRaw cipher) := by
  obtain ⟨lower, upper⟩ := decode_raw_range bounded.admissible cipher
  exact fits_of_modulus bounded (by rw [abs_of_nonneg lower]; exact upper.le)

theorem delta_defined (bounded : Bounded engine) : delta engine = some engine.delta :=
  quotient_pos (fits_of_modulus bounded (abs_of_pos bounded.admissible.positive).le)
    bounded.plain_pos

theorem decode_raw_defined (bounded : Bounded engine) {cipher : Ciphertext}
    (signed : Signed engine cipher) : decodeRaw engine cipher = some (engine.decodeRaw cipher) := by
  have product := mul_mod_defined (fits_of_modulus bounded signed.c1.le) bounded.secret
    bounded.admissible.positive bounded.admissible.bounded
  have sumFits : Fits 64 (cipher.c0 + ToyFhe.mulMod cipher.c1 engine.secretKey engine.params.q) :=
    fits_of_two_moduli bounded (lt_of_le_of_lt (abs_add_le _ _)
      (by linarith [signed.c0, mul_mod_abs bounded cipher.c1 engine.secretKey]))
  have reduced := mod_defined sumFits bounded.admissible.positive bounded.admissible.bounded
  simp only [decodeRaw, product, exact_of_fits sumFits, reduced, Option.bind_eq_bind,
    Option.bind_some, Engine.decodeRaw, i64_fits sumFits.1 sumFits.2]

/-- The quotient behind a decryption is far below the range of `int64_t`. -/
theorem decoded_quotient_fits (admissible : Admissible engine) (cipher : Ciphertext) :
    Fits 64 (llround ((engine.decodeRaw cipher : Rat) / engine.delta)) := by
  obtain ⟨lower, upper⟩ := decode_raw_range admissible cipher
  obtain ⟨-, positive⟩ := delta_mul admissible
  have modulus := admissible.bounded
  have deltaCast : (1 : Rat) ≤ engine.delta := by exact_mod_cast positive
  have lowerCast : (0 : Rat) ≤ engine.decodeRaw cipher := by exact_mod_cast lower
  have upperCast : (engine.decodeRaw cipher : Rat) ≤ 2 ^ 62 := by
    exact_mod_cast (upper.le.trans modulus)
  have quotientLower : (0 : Rat) ≤ engine.decodeRaw cipher / engine.delta :=
    div_nonneg lowerCast (by linarith)
  have quotientUpper : (engine.decodeRaw cipher : Rat) / engine.delta ≤ 2 ^ 62 :=
    (div_le_self lowerCast deltaCast).trans upperCast
  obtain ⟨below, above⟩ :=
    abs_le.mp (llround_error ((engine.decodeRaw cipher : Rat) / engine.delta))
  generalize llround ((engine.decodeRaw cipher : Rat) / engine.delta) = rounded at below above
  constructor
  · have cast : (-1 : Rat) ≤ rounded := by linarith
    have integer : -1 ≤ rounded := by exact_mod_cast cast
    norm_num
    omega
  · have cast : (rounded : Rat) ≤ 2 ^ 62 + 1 := by linarith
    have integer : rounded ≤ 2 ^ 62 + 1 := by exact_mod_cast cast
    norm_num
    omega

theorem decrypt_int_defined (bounded : Bounded engine) {cipher : Ciphertext}
    (signed : Signed engine cipher) :
    decryptInt engine cipher = some (engine.decryptInt cipher) := by
  have fits := decoded_quotient_fits bounded.admissible cipher
  have nonzero : engine.delta ≠ 0 := (delta_mul bounded.admissible).2.ne'
  have centred := centered_mod_defined fits bounded.plain_pos bounded.plain_le
  simp only [decryptInt, decode_raw_defined bounded signed, delta_defined bounded,
    Option.bind_eq_bind, Option.bind_some, if_neg nonzero, exact_of_fits fits, centred,
    Engine.decryptInt, llround_fits engine fits.1 fits.2]

theorem multiply_plain_internal_defined (bounded : Bounded engine) {cipher : Ciphertext}
    (signed : Signed engine cipher) {scalar : Int} (fits : Fits 64 scalar) (increase : Nat) :
    multiplyPlainInternal engine cipher scalar increase =
      some (engine.multiplyPlainInternal cipher scalar increase) := by
  have positive := bounded.admissible.positive
  have modulus := bounded.admissible.bounded
  have first := mul_mod_defined (fits_of_modulus bounded signed.c0.le) fits positive modulus
  have second := mul_mod_defined (fits_of_modulus bounded signed.c1.le) fits positive modulus
  simp only [multiplyPlainInternal, first, second, Option.bind_eq_bind, Option.bind_some]
  rfl

theorem multiply_plain_internal_signed (bounded : Bounded engine) (cipher : Ciphertext)
    (scalar : Int) (increase : Nat) :
    Signed engine (engine.multiplyPlainInternal cipher scalar increase) :=
  ⟨mul_mod_abs bounded _ _, mul_mod_abs bounded _ _⟩

theorem raise_scale_defined (bounded : Bounded engine) (scale : Fits 64 engine.params.scale)
    (count : Nat) {cipher : Ciphertext} (signed : Signed engine cipher) :
    raiseScale engine count cipher = some (engine.raiseScale count cipher) ∧
      Signed engine (engine.raiseScale count cipher) := by
  induction count generalizing cipher with
  | zero => exact ⟨rfl, signed⟩
  | succ count induction =>
      have raised := multiply_plain_internal_signed bounded cipher engine.params.scale 1
      simp only [raiseScale, multiply_plain_internal_defined bounded signed scale,
        Option.bind_eq_bind, Option.bind_some, Engine.raiseScale]
      exact induction raised

theorem align_scale_defined (bounded : Bounded engine) (scale : Fits 64 engine.params.scale)
    {cipher : Ciphertext} (signed : Signed engine cipher) (targetScale : Nat) :
    alignScale engine cipher targetScale = some (engine.alignScale cipher targetScale) ∧
      Signed engine (engine.alignScale cipher targetScale) :=
  raise_scale_defined bounded scale (targetScale - cipher.scalePower) signed

theorem sum_fits (bounded : Bounded engine) {lhs rhs : Int} (left : |lhs| < engine.params.q)
    (right : |rhs| < engine.params.q) : Fits 64 (lhs + rhs) :=
  fits_of_two_moduli bounded (lt_of_le_of_lt (abs_add_le lhs rhs) (by linarith))

theorem add_defined (bounded : Bounded engine) (scale : Fits 64 engine.params.scale)
    {lhs rhs : Ciphertext} (left : Signed engine lhs) (right : Signed engine rhs) :
    add engine lhs rhs = some (engine.add lhs rhs) := by
  have positive := bounded.admissible.positive
  have modulus := bounded.admissible.bounded
  obtain ⟨leftDefined, leftSigned⟩ :=
    align_scale_defined bounded scale left (max lhs.scalePower rhs.scalePower)
  obtain ⟨rightDefined, rightSigned⟩ :=
    align_scale_defined bounded scale right (max lhs.scalePower rhs.scalePower)
  have first := sum_fits bounded leftSigned.c0 rightSigned.c0
  have second := sum_fits bounded leftSigned.c1 rightSigned.c1
  simp only [add, leftDefined, rightDefined, exact_of_fits first, exact_of_fits second,
    mod_defined first positive modulus, mod_defined second positive modulus, Option.bind_eq_bind,
    Option.bind_some, Engine.add, i64_fits first.1 first.2, i64_fits second.1 second.2]

theorem add_signed (bounded : Bounded engine) (lhs rhs : Ciphertext) :
    Signed engine (engine.add lhs rhs) :=
  ⟨mod_abs bounded _, mod_abs bounded _⟩

/-- What the operations on scale levels need besides. -/
structure Scaled (engine : Engine) : Prop where
  bounded : Bounded engine
  scale : 1 ≤ engine.params.scale
  divisor : Fits 64 (engine.delta * engine.params.scale)

theorem Scaled.scale_fits (scaled : Scaled engine) : Fits 64 engine.params.scale := by
  have deltaPositive := (delta_mul scaled.bounded.admissible).2
  have positive := scaled.scale
  have small : engine.params.scale ≤ engine.delta * engine.params.scale :=
    le_mul_of_one_le_left (by omega) deltaPositive
  have upper := scaled.divisor.2
  constructor <;> norm_num at upper ⊢ <;> omega

/-- At most two scale levels are multiplied, so the divisor loop turns once at most. -/
theorem rescale_divisor_defined (scaled : Scaled engine) {scalePower : Nat}
    (small : scalePower ≤ 2) :
    rescaleDivisor engine scalePower engine.delta =
        some (engine.rescaleDivisor scalePower engine.delta) ∧
      0 < (engine.rescaleDivisor scalePower engine.delta).1 ∧
      (engine.rescaleDivisor scalePower engine.delta).1 ≤ engine.delta * engine.params.scale := by
  have positive := (delta_mul scaled.bounded.admissible).2
  have scale := scaled.scale
  have fits := scaled.divisor
  have grows : engine.delta ≤ engine.delta * engine.params.scale :=
    le_mul_of_one_le_right positive.le scale
  match scalePower, small with
  | 0, _ => exact ⟨rfl, positive, grows⟩
  | 1, _ => exact ⟨rfl, positive, grows⟩
  | 2, _ =>
      have product : (engine.rescaleDivisor 2 engine.delta).1 =
          engine.delta * engine.params.scale := i64_fits fits.1 fits.2
      have turned : rescaleDivisor engine 2 engine.delta =
          some (engine.rescaleDivisor 2 engine.delta) := by
        unfold rescaleDivisor
        rw [exact_of_fits fits]
        simp only [Option.bind_eq_bind, Option.bind_some, Engine.rescaleDivisor,
          i64_fits fits.1 fits.2]
        rfl
      rw [product]
      exact ⟨turned, by omega, le_refl _⟩

theorem scale_factor_large (scaled : Scaled engine) (scalePower : Nat) :
    1 ≤ engine.scaleFactor scalePower := by
  have scale : (1 : Rat) ≤ engine.params.scale := by exact_mod_cast scaled.scale
  exact one_le_pow₀ scale

theorem scalar_fits (scaled : Scaled engine) {scalar : Rat} {scalePower : Nat}
    (fits : Fits 64 (llround (scalar * engine.scaleFactor scalePower))) :
    Fits 64 (llround scalar) := by
  obtain ⟨lower, upper⟩ := fits
  rcases llround_scaled scalar (scale_factor_large scaled scalePower) with
    ⟨sign, grows⟩ | ⟨shrinks, sign⟩
  · constructor <;> norm_num at upper ⊢ <;> omega
  · constructor <;> norm_num at lower ⊢ <;> omega

theorem is_approximately_integer_defined (engine : Engine) {scalar : Rat}
    (fits : Fits 64 (llround scalar)) :
    isApproximatelyInteger scalar = some (engine.isApproximatelyInteger scalar) := by
  unfold isApproximatelyInteger Engine.isApproximatelyInteger
  rw [exact_of_fits fits, llround_fits engine fits.1 fits.2]
  rfl

theorem raise_scale_power (count : Nat) (cipher : Ciphertext) :
    (engine.raiseScale count cipher).scalePower = cipher.scalePower + count := by
  induction count generalizing cipher with
  | zero => rfl
  | succ count induction =>
      unfold Engine.raiseScale
      rw [induction]
      simp only [Engine.multiplyPlainInternal]
      omega

theorem align_scale_power (cipher : Ciphertext) (targetScale : Nat) :
    (engine.alignScale cipher targetScale).scalePower = max targetScale cipher.scalePower := by
  unfold Engine.alignScale
  rw [raise_scale_power]
  omega

/-- The scale level at which `addPlain` encodes its scalar. -/
def addPlainPower (engine : Engine) (cipher : Ciphertext) (scalar : Rat) : Nat :=
  if cipher.encoding = .integer ∧ !engine.isApproximatelyInteger scalar then
    max 1 cipher.scalePower
  else cipher.scalePower

/-- The scale level at which `multiplyPlain` encodes its scalar. -/
def multiplyPlainPower (engine : Engine) (scalar : Rat) : Nat :=
  if engine.isApproximatelyInteger scalar then 0 else 1

theorem encoded_scalar_added (bounded : Bounded engine) {result : Ciphertext}
    (signed : Signed engine result) {scalar : Rat}
    (fits : Fits 64 (llround (scalar * engine.scaleFactor result.scalePower))) :
    (do
      let encodedScalar ← exact 64 (llround (scalar * engine.scaleFactor result.scalePower))
      let plain ← mod encodedScalar engine.params.t
      let delta ← delta engine
      let scaled ← mulMod delta plain engine.params.q
      let sum ← exact 64 (result.c0 + scaled)
      let c0 ← mod sum engine.params.q
      some { result with c0 := c0 }) =
    some
      { result with
        c0 := ToyFhe.mod (i64 (result.c0 + ToyFhe.mulMod engine.delta (ToyFhe.mod
          (engine.llround (scalar * engine.scaleFactor result.scalePower)) engine.params.t)
            engine.params.q)) engine.params.q } := by
  have positive := bounded.admissible.positive
  have modulus := bounded.admissible.bounded
  have plain := mod_defined fits bounded.plain_pos bounded.plain_le
  rw [llround_fits engine fits.1 fits.2]
  generalize llround (scalar * engine.scaleFactor result.scalePower) = encoded at fits plain
  have product := mul_mod_defined (delta_fits bounded) (plain_residue_fits bounded encoded)
    positive modulus
  have sum := sum_fits bounded signed.c0
    (mul_mod_abs bounded engine.delta (ToyFhe.mod encoded engine.params.t))
  simp only [exact_of_fits fits, plain, delta_defined bounded, product, exact_of_fits sum,
    mod_defined sum positive modulus, Option.bind_eq_bind, Option.bind_some, i64_fits sum.1 sum.2]

theorem add_plain_defined (scaled : Scaled engine) {cipher : Ciphertext}
    (signed : Signed engine cipher) {scalar : Rat}
    (fits : Fits 64 (llround (scalar * engine.scaleFactor (addPlainPower engine cipher scalar)))) :
    addPlain engine cipher scalar = some (engine.addPlain cipher scalar) := by
  have bounded := scaled.bounded
  have integral := is_approximately_integer_defined engine (scalar_fits scaled fits)
  obtain ⟨aligned, alignedSigned⟩ := align_scale_defined bounded scaled.scale_fits signed 1
  unfold addPlainPower at fits
  unfold addPlain Engine.addPlain
  by_cases encoded : cipher.encoding = .integer
  · cases approximately : engine.isApproximatelyInteger scalar with
    | true =>
        have kept : ¬(cipher.encoding = .integer ∧ (!true) = true) := by simp
        rw [approximately, if_neg kept] at fits
        rw [if_pos encoded, integral, approximately, if_neg kept]
        exact encoded_scalar_added bounded signed fits
    | false =>
        have raised : cipher.encoding = .integer ∧ (!false) = true := ⟨encoded, rfl⟩
        rw [approximately, if_pos raised, ← @align_scale_power engine] at fits
        rw [if_pos encoded, integral, approximately, if_pos raised]
        simp only [Bool.not_false, if_true, aligned, Option.bind_eq_bind, Option.bind_some]
        exact encoded_scalar_added bounded alignedSigned fits
  · have kept : ¬(cipher.encoding = .integer ∧
        (!engine.isApproximatelyInteger scalar) = true) := fun both => encoded both.1
    rw [if_neg kept] at fits
    rw [if_neg encoded, if_neg kept]
    exact encoded_scalar_added bounded signed fits

theorem add_plain_signed (bounded : Bounded engine) {cipher : Ciphertext}
    (scale : Fits 64 engine.params.scale) (signed : Signed engine cipher) (scalar : Rat) :
    Signed engine (engine.addPlain cipher scalar) := by
  have aligned := (align_scale_defined bounded scale signed 1).2
  refine ⟨mod_abs bounded _, ?_⟩
  unfold Engine.addPlain
  dsimp only
  split
  · exact aligned.c1
  · exact signed.c1

theorem centered_mod_small {value modulus : Int} (positive : 0 < modulus) :
    |ToyFhe.centeredMod value modulus| ≤ modulus := by
  obtain ⟨-, lower, upper⟩ := centered_mod_spec value positive
  rw [abs_le]
  constructor <;> omega

theorem wide_quotient_defined {product divisor : Int} (small : |product| ≤ 2 ^ 126)
    (fits : Fits 64 divisor) (positive : 0 < divisor) :
    wideQuotient product divisor = some (roundedQuotient product divisor) ∧
      |roundedQuotient product divisor| ≤ 2 ^ 126 + 1 := by
  have wide := wide_fits small
  have shrinks := Int.natAbs_tdiv_le_natAbs product divisor
  have upper : product.tmod divisor < divisor := Int.tmod_lt_of_pos product positive
  have lower := Int.lt_tmod_of_pos product positive
  obtain ⟨smallLower, smallUpper⟩ := abs_le.mp small
  have divisorUpper := fits.2
  norm_num at divisorUpper smallLower smallUpper
  have doubled : Fits 128 (2 * product.tmod divisor) := by
    constructor <;> norm_num <;> omega
  have negated : Fits 64 (-divisor) := by
    constructor <;> norm_num <;> omega
  have raised : Fits 128 (product.tdiv divisor + 1) := by
    constructor <;> norm_num <;> omega
  have lowered : Fits 128 (product.tdiv divisor - 1) := by
    constructor <;> norm_num <;> omega
  constructor
  · simp only [wideQuotient, quotient_pos wide positive, remainder_pos wide positive,
      exact_of_fits doubled, exact_of_fits negated, exact_of_fits raised, exact_of_fits lowered,
      Option.bind_eq_bind, Option.bind_some, roundedQuotient]
    split_ifs <;> rfl
  · unfold roundedQuotient
    dsimp only
    rw [abs_le]
    norm_num
    split_ifs <;> constructor <;> omega

theorem decoded_product_small (bounded : Bounded engine) (cipher : Ciphertext) {factor : Int}
    (fits : Fits 64 factor) :
    |ToyFhe.centeredMod (engine.decodeRaw cipher) engine.params.q * factor| ≤ 2 ^ 126 :=
  product_fits (fits_of_modulus bounded (centered_mod_small bounded.admissible.positive)) fits

end Engine

section Random

variable {ρ : Type} {draw : Int → Int → ρ → Int × ρ} {engine : Engine}

theorem sample_uniform_defined (bounded : Bounded engine) (draws : DrawsInRange draw) (rng : ρ) :
    sampleUniform draw engine rng = some (engine.sampleUniform draw rng) ∧
      |(engine.sampleUniform draw rng).1| < engine.params.q := by
  have positive := bounded.admissible.positive
  have fits : Fits 64 (engine.params.q - 1) :=
    fits_of_modulus bounded (by rw [abs_of_nonneg] <;> omega)
  have range := draws 0 (engine.params.q - 1) rng (by omega)
  simp only [sampleUniform, exact_of_fits fits, Option.bind_eq_bind, Option.bind_some, uniform,
    Engine.sampleUniform, i64_fits fits.1 fits.2]
  refine ⟨if_pos (by omega), ?_⟩
  rw [abs_of_nonneg range.1]
  omega

theorem sample_noise_defined (bounded : Bounded engine) (draws : DrawsInRange draw) (rng : ρ) :
    sampleNoise draw engine rng = some (engine.sampleNoise draw rng) ∧
      |(engine.sampleNoise draw rng).1| ≤ engine.params.noiseBound := by
  have lower := bounded.admissible.noise
  have upper := bounded.fresh
  have fits : Fits 64 (-engine.params.noiseBound) := by
    constructor <;> norm_num <;> omega
  have range := draws (-engine.params.noiseBound) engine.params.noiseBound rng (by omega)
  simp only [sampleNoise, exact_of_fits fits, Option.bind_eq_bind, Option.bind_some, uniform,
    Engine.sampleNoise, i64_fits fits.1 fits.2]
  exact ⟨if_pos (by omega), abs_le.mpr range⟩

theorem encode_raw_defined (bounded : Bounded engine) (draws : DrawsInRange draw) {value : Int}
    (lower : 0 ≤ value) (upper : value < engine.params.q) (encoding : Encoding) (scalePower : Nat)
    (rng : ρ) :
    encodeRaw draw engine value encoding scalePower rng =
      some (engine.encodeRaw draw value encoding scalePower rng) := by
  have positive := bounded.admissible.positive
  have modulus := bounded.admissible.bounded
  have fresh := bounded.fresh
  obtain ⟨maskDefined, maskSmall⟩ := sample_uniform_defined bounded draws rng
  obtain ⟨noiseDefined, noiseSmall⟩ :=
    sample_noise_defined bounded draws (engine.sampleUniform draw rng).2
  obtain ⟨noiseLower, noiseUpper⟩ := abs_le.mp noiseSmall
  have product := mul_mod_defined (fits_of_modulus bounded maskSmall.le) bounded.secret positive
    modulus
  obtain ⟨productLower, productUpper⟩ :=
    mod_range ((engine.sampleUniform draw rng).1 * engine.secretKey) positive
  rw [← ToyFhe.mulMod] at productLower productUpper
  have maskedFits : Fits 64 (value -
      ToyFhe.mulMod (engine.sampleUniform draw rng).1 engine.secretKey engine.params.q) := by
    constructor <;> norm_num <;> omega
  have noisyFits : Fits 64 (value -
      ToyFhe.mulMod (engine.sampleUniform draw rng).1 engine.secretKey engine.params.q +
        (engine.sampleNoise draw (engine.sampleUniform draw rng).2).1) := by
    constructor <;> norm_num <;> omega
  simp only [encodeRaw, maskDefined, noiseDefined, product, exact_of_fits maskedFits,
    exact_of_fits noisyFits, mod_defined noisyFits positive modulus, Option.bind_eq_bind,
    Option.bind_some, Engine.encodeRaw, i64_fits maskedFits.1 maskedFits.2,
    i64_fits noisyFits.1 noisyFits.2]

theorem encode_raw_signed (bounded : Bounded engine) (draws : DrawsInRange draw) (value : Int)
    (encoding : Encoding) (scalePower : Nat) (rng : ρ) :
    Signed engine (engine.encodeRaw draw value encoding scalePower rng).1 :=
  ⟨mod_abs bounded _, (sample_uniform_defined bounded draws rng).2⟩

theorem encrypt_encoded_defined (bounded : Bounded engine) (draws : DrawsInRange draw)
    {message : Int} (fits : Fits 64 message) (encoding : Encoding) (scalePower : Nat) (rng : ρ) :
    encryptEncoded draw engine message encoding scalePower rng =
      some (engine.encryptEncoded draw message encoding scalePower rng) := by
  have positive := bounded.admissible.positive
  have modulus := bounded.admissible.bounded
  have plain := mod_defined fits bounded.plain_pos bounded.plain_le
  have product := mul_mod_defined (delta_fits bounded) (plain_residue_fits bounded message)
    positive modulus
  obtain ⟨lower, upper⟩ := mod_range (engine.delta * ToyFhe.mod message engine.params.t) positive
  have encoded := encode_raw_defined bounded draws lower upper encoding scalePower rng
  simp only [encryptEncoded, plain, delta_defined bounded, product, Option.bind_eq_bind,
    Option.bind_some]
  exact encoded

theorem multiply_decoded_defined (bounded : Bounded engine) (draws : DrawsInRange draw)
    {cipher : Ciphertext} (signed : Signed engine cipher) {factor divisor : Int}
    (factorFits : Fits 64 factor) (divisorFits : Fits 64 divisor) (divides : 0 < divisor)
    (encoding : Encoding) (scalePower : Nat) (rng : ρ) :
    multiplyDecoded draw engine cipher factor divisor encoding scalePower rng =
      some (engine.multiplyDecoded draw cipher factor divisor encoding scalePower rng) := by
  have positive := bounded.admissible.positive
  have modulus := bounded.admissible.bounded
  have small := decoded_product_small bounded cipher factorFits
  obtain ⟨quotientDefined, quotientSmall⟩ := wide_quotient_defined small divisorFits divides
  generalize scaledEq : roundedQuotient
    (ToyFhe.centeredMod (engine.decodeRaw cipher) engine.params.q * factor) divisor = scaled
      at quotientDefined quotientSmall
  have scaledFits : Fits 128 scaled :=
    fits_of_abs (lt_of_le_of_lt quotientSmall (by norm_num))
  have foldedUpper : scaled.tmod engine.params.q < engine.params.q :=
    Int.tmod_lt_of_pos scaled positive
  have foldedLower := Int.lt_tmod_of_pos scaled positive
  have shiftedFits : Fits 128 (scaled.tmod engine.params.q + engine.params.q) := by
    constructor <;> norm_num <;> omega
  have residue := folded_residue scaled positive
  have encoded := encode_raw_defined bounded draws (Int.emod_nonneg scaled positive.ne')
    (Int.emod_lt_of_pos scaled positive) encoding scalePower rng
  simp only [multiplyDecoded, decode_raw_defined bounded signed,
    centered_mod_defined (decode_raw_fits bounded cipher) positive modulus,
    exact_of_fits (wide_fits small),
    quotientDefined, remainder_pos scaledFits positive, exact_of_fits shiftedFits,
    remainder_pos shiftedFits positive, residue, encoded, Option.bind_eq_bind, Option.bind_some,
    Engine.multiplyDecoded, scaledEq]

theorem multiply_decoded_signed (bounded : Bounded engine) (draws : DrawsInRange draw)
    (cipher : Ciphertext) (factor divisor : Int) (encoding : Encoding) (scalePower : Nat)
    (rng : ρ) :
    Signed engine
      (engine.multiplyDecoded draw cipher factor divisor encoding scalePower rng).1 :=
  encode_raw_signed bounded draws _ encoding scalePower rng

theorem multiply_defined (scaled : Scaled engine) (draws : DrawsInRange draw)
    {lhs rhs : Ciphertext} (left : Signed engine lhs) (right : Signed engine rhs)
    (levels : lhs.scalePower + rhs.scalePower ≤ 2) (rng : ρ) :
    multiply draw engine lhs rhs rng = some (engine.multiply draw lhs rhs rng) := by
  have bounded := scaled.bounded
  have positive := bounded.admissible.positive
  have modulus := bounded.admissible.bounded
  have deltaPositive := (delta_mul bounded.admissible).2
  have factorFits : Fits 64 (ToyFhe.centeredMod (engine.decodeRaw rhs) engine.params.q) :=
    fits_of_modulus bounded (centered_mod_small positive)
  obtain ⟨divisorDefined, divisorPositive, divisorSmall⟩ := rescale_divisor_defined scaled levels
  have divisorFits :
      Fits 64 (engine.rescaleDivisor (lhs.scalePower + rhs.scalePower) engine.delta).1 := by
    have upper := scaled.divisor.2
    constructor <;> norm_num at upper ⊢ <;> omega
  unfold multiply Engine.multiply
  simp only [decode_raw_defined bounded right,
    centered_mod_defined (decode_raw_fits bounded rhs) positive modulus, delta_defined bounded,
    Option.bind_eq_bind, Option.bind_some]
  by_cases fixed : lhs.encoding = .fixedPoint ∨ rhs.encoding = .fixedPoint
  · simp only [if_pos fixed, if_true, divisorDefined, Option.bind_some]
    exact multiply_decoded_defined bounded draws left factorFits divisorFits divisorPositive _ _ rng
  · simp only [if_neg fixed, reduceCtorEq, if_false]
    exact multiply_decoded_defined bounded draws left factorFits (delta_fits bounded)
      deltaPositive _ _ rng

theorem multiply_plain_defined (scaled : Scaled engine) (draws : DrawsInRange draw)
    {cipher : Ciphertext} (signed : Signed engine cipher) {scalar : Rat}
    (fits : Fits 64 (llround (scalar * engine.scaleFactor (multiplyPlainPower engine scalar))))
    (rng : ρ) :
    multiplyPlain draw engine cipher scalar rng =
      some (engine.multiplyPlain draw cipher scalar rng) := by
  have bounded := scaled.bounded
  have unscaled := scalar_fits scaled fits
  unfold multiplyPlain Engine.multiplyPlain
  rw [is_approximately_integer_defined engine unscaled]
  unfold multiplyPlainPower at fits
  simp only [Option.bind_eq_bind, Option.bind_some]
  cases integral : engine.isApproximatelyInteger scalar with
  | true =>
      simp only [if_true, exact_of_fits unscaled, llround_fits engine unscaled.1 unscaled.2,
        multiply_plain_internal_defined bounded signed unscaled, Option.bind_some]
  | false =>
      rw [integral] at fits
      simp only [Bool.false_eq_true, if_false] at fits ⊢
      simp only [exact_of_fits fits, llround_fits engine fits.1 fits.2, Option.bind_some]
      split
      · exact multiply_decoded_defined bounded draws signed fits scaled.scale_fits scaled.scale _ _
          rng
      · exact multiply_decoded_defined bounded draws signed fits (by decide) (by decide) _ _ rng

end Random

end Fhenomenon.CheckedEngine

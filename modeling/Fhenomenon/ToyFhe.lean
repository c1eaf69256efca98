import Fhenomenon.Lib.Rounding

/-!
# The ToyFHE engine

`Crypto/ToyFHE`: a single-slot toy scheme whose engine holds the secret key.
Sums of `int64_t` values wrap explicitly; the 128-bit products cannot overflow.
A `long double` is the rational number it stands for and is rounded only by
`llround`. The random source is a parameter.
-/

namespace Fhenomenon.ToyFhe

open Fhenomenon.Lib
open Fhenomenon.Lib.Rounding (roundedQuotient)

inductive Encoding
  | integer | fixedPoint
deriving DecidableEq, Repr

structure Parameters where
  q : Int := 2 ^ 58
  t : Int := 2 ^ 32
  scale : Int := 2 ^ 16
  noiseBound : Int := 2 ^ 3
deriving DecidableEq

structure Ciphertext where
  c0 : Int := 0
  c1 : Int := 0
  scalePower : Nat := 0
  encoding : Encoding := .integer
deriving DecidableEq

/-- An engine whose keys are generated; before that every operation throws.
`unrepresentable` is what `std::llround` gives when the nearest integer does not fit
`int64_t`: the standard leaves it open, and x86-64 gives the least value. -/
structure Engine where
  params : Parameters
  secretKey : Int
  unrepresentable : Rat → Int := fun _ => -2 ^ 63

/-- Two's complement, for `int64_t` arithmetic. -/
def i64 (value : Int) : Int := (value + 2 ^ 63) % 2 ^ 64 - 2 ^ 63

/-- `std::llround`. -/
def Engine.llround (engine : Engine) (value : Rat) : Int :=
  let nearest := Rounding.llround value
  if -2 ^ 63 ≤ nearest ∧ nearest < 2 ^ 63 then nearest else i64 (engine.unrepresentable value)

def mod (value modulus : Int) : Int :=
  let result := value.tmod modulus
  if result < 0 then result + modulus else result

def mulMod (lhs rhs modulus : Int) : Int := mod (lhs * rhs) modulus

def centeredMod (value modulus : Int) : Int :=
  let result := mod value modulus
  if result > modulus.tdiv 2 then result - modulus else result

def Engine.isApproximatelyInteger (engine : Engine) (scalar : Rat) : Bool :=
  decide (|scalar - engine.llround scalar| ≤ 1 / 10 ^ 9)

/-- The parameter check of `initialize`. -/
def initializeEngine (params : Parameters) : Except String Parameters :=
  if params.q ≤ params.t then
    .error "ToyFHE: ciphertext modulus q must be larger than plaintext modulus t"
  else if params.q.tmod params.t ≠ 0 then
    .error "ToyFHE: ciphertext modulus q must be a multiple of plaintext modulus t"
  else if params.scale ≤ 1 then .error "ToyFHE: scale must be greater than 1"
  else .ok params

def Engine.delta (engine : Engine) : Int := engine.params.q.tdiv engine.params.t

def Engine.scaleFactor (engine : Engine) (scalePower : Nat) : Rat :=
  (engine.params.scale : Rat) ^ scalePower

def Engine.decodeRaw (engine : Engine) (cipher : Ciphertext) : Int :=
  let prod := mulMod cipher.c1 engine.secretKey engine.params.q
  mod (i64 (cipher.c0 + prod)) engine.params.q

def Engine.decryptInt (engine : Engine) (cipher : Ciphertext) : Int :=
  let scaled : Rat := engine.decodeRaw cipher / engine.delta
  centeredMod (engine.llround scaled) engine.params.t

def Engine.decryptDouble (engine : Engine) (cipher : Ciphertext) : Rat :=
  engine.decryptInt cipher / engine.scaleFactor cipher.scalePower

def Engine.multiplyPlainInternal (engine : Engine) (cipher : Ciphertext) (scalar : Int)
    (scalePowerIncrease : Nat) : Ciphertext where
  c0 := mulMod cipher.c0 scalar engine.params.q
  c1 := mulMod cipher.c1 scalar engine.params.q
  scalePower := cipher.scalePower + scalePowerIncrease
  encoding :=
    if scalePowerIncrease > 0 ∨ cipher.encoding = .fixedPoint then .fixedPoint else .integer

/-- `count` rounds of the loop of `alignScale`. -/
def Engine.raiseScale (engine : Engine) : Nat → Ciphertext → Ciphertext
  | 0, cipher => cipher
  | count + 1, cipher =>
      engine.raiseScale count (engine.multiplyPlainInternal cipher engine.params.scale 1)

/-- Each round of the loop raises the scale power by one. -/
def Engine.alignScale (engine : Engine) (cipher : Ciphertext) (targetScale : Nat) : Ciphertext :=
  engine.raiseScale (targetScale - cipher.scalePower) cipher

def Engine.add (engine : Engine) (lhs rhs : Ciphertext) : Ciphertext :=
  let targetScale := max lhs.scalePower rhs.scalePower
  let left := engine.alignScale lhs targetScale
  let right := engine.alignScale rhs targetScale
  { c0 := mod (i64 (left.c0 + right.c0)) engine.params.q
    c1 := mod (i64 (left.c1 + right.c1)) engine.params.q
    scalePower := targetScale
    encoding :=
      if left.encoding = .fixedPoint ∨ right.encoding = .fixedPoint then .fixedPoint
      else .integer }

def Engine.addPlain (engine : Engine) (cipher : Ciphertext) (scalar : Rat) : Ciphertext :=
  let result :=
    if cipher.encoding = .integer ∧ !engine.isApproximatelyInteger scalar then
      engine.alignScale cipher 1
    else cipher
  let factor := engine.scaleFactor result.scalePower
  let encodedScalar := engine.llround (scalar * factor)
  let plain := mod encodedScalar engine.params.t
  let scaled := mulMod engine.delta plain engine.params.q
  { result with c0 := mod (i64 (result.c0 + scaled)) engine.params.q }

/-- The divisor loop of `multiply`: divide by `scale` until one scale level is left. -/
def Engine.rescaleDivisor (engine : Engine) : Nat → Int → Int × Nat
  | scalePower + 2, divisor =>
      engine.rescaleDivisor (scalePower + 1) (i64 (divisor * engine.params.scale))
  | scalePower, divisor => (divisor, scalePower)

section Random

variable {ρ : Type*} (draw : Int → Int → ρ → Int × ρ)

/-- `uniform_int_distribution` over `rng_` returns a value in its range. -/
def DrawsInRange : Prop :=
  ∀ low high rng, low ≤ high → low ≤ (draw low high rng).1 ∧ (draw low high rng).1 ≤ high

def generateKeys (params : Parameters) (rng : ρ) : Engine × ρ :=
  let secret := draw 1 (i64 (params.t - 1)) rng
  ({ params := params, secretKey := secret.1 }, secret.2)

def Engine.sampleUniform (engine : Engine) (rng : ρ) : Int × ρ :=
  draw 0 (i64 (engine.params.q - 1)) rng

def Engine.sampleNoise (engine : Engine) (rng : ρ) : Int × ρ :=
  draw (i64 (-engine.params.noiseBound)) engine.params.noiseBound rng

/-- Wrap a delta-scaled value into a fresh ciphertext. -/
def Engine.encodeRaw (engine : Engine) (value : Int) (encoding : Encoding) (scalePower : Nat)
    (rng : ρ) : Ciphertext × ρ :=
  let a := engine.sampleUniform draw rng
  let e := engine.sampleNoise draw a.2
  let secretProd := mulMod a.1 engine.secretKey engine.params.q
  ({ c1 := a.1
     c0 := mod (i64 (i64 (value - secretProd) + e.1)) engine.params.q
     scalePower := scalePower
     encoding := encoding }, e.2)

def Engine.encryptEncoded (engine : Engine) (message : Int) (encoding : Encoding)
    (scalePower : Nat) (rng : ρ) : Ciphertext × ρ :=
  let plain := mod message engine.params.t
  engine.encodeRaw draw (mulMod engine.delta plain engine.params.q) encoding scalePower rng

def Engine.encryptInt (engine : Engine) (value : Int) (rng : ρ) : Ciphertext × ρ :=
  engine.encryptEncoded draw value .integer 0 rng

def Engine.encryptDouble (engine : Engine) (value : Rat) (rng : ρ) : Ciphertext × ρ :=
  let encoded := engine.llround (value * engine.scaleFactor 1)
  engine.encryptEncoded draw encoded .fixedPoint 1 rng

/-- Decode, multiply, divide rounding to nearest, and encode again. -/
def Engine.multiplyDecoded (engine : Engine) (cipher : Ciphertext) (factor divisor : Int)
    (encoding : Encoding) (scalePower : Nat) (rng : ρ) : Ciphertext × ρ :=
  let p := centeredMod (engine.decodeRaw cipher) engine.params.q
  let scaled := roundedQuotient (p * factor) divisor
  let value := (scaled.tmod engine.params.q + engine.params.q).tmod engine.params.q
  engine.encodeRaw draw value encoding scalePower rng

def Engine.multiply (engine : Engine) (lhs rhs : Ciphertext) (rng : ρ) : Ciphertext × ρ :=
  let p2 := centeredMod (engine.decodeRaw rhs) engine.params.q
  let encoding : Encoding :=
    if lhs.encoding = .fixedPoint ∨ rhs.encoding = .fixedPoint then .fixedPoint else .integer
  let scalePower := lhs.scalePower + rhs.scalePower
  let rescaled :=
    if encoding = .fixedPoint then engine.rescaleDivisor scalePower engine.delta
    else (engine.delta, scalePower)
  engine.multiplyDecoded draw lhs p2 rescaled.1 encoding rescaled.2 rng

def Engine.multiplyPlain (engine : Engine) (cipher : Ciphertext) (scalar : Rat) (rng : ρ) :
    Ciphertext × ρ :=
  if engine.isApproximatelyInteger scalar then
    (engine.multiplyPlainInternal cipher (engine.llround scalar) 0, rng)
  else
    let encoded := engine.llround (scalar * engine.scaleFactor 1)
    if cipher.scalePower ≥ 1 then
      engine.multiplyDecoded draw cipher encoded engine.params.scale .fixedPoint cipher.scalePower
        rng
    else engine.multiplyDecoded draw cipher encoded 1 .fixedPoint (cipher.scalePower + 1) rng

end Random

end Fhenomenon.ToyFhe

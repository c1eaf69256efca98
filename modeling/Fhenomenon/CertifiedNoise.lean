import Fhenomenon.ToyFheExecution

/-!
# Certified ciphertexts

What is known of a ciphertext without its key: an integer and a noise bound
small enough to decrypt exactly, or nothing. Each operation of the engine has a
counterpart on that knowledge.
-/

namespace Fhenomenon.CertifiedNoise

open Fhenomenon.ToyFhe Fhenomenon.ToyFheNoise Fhenomenon.ToyFheKernels
open Fhenomenon.KernelContracts Fhenomenon.CorpusOracle Fhenomenon.ToyFheExecution

/-- An engine whose fresh ciphertexts decrypt, with its random source. -/
structure Workable {ρ : Type*} (draw : Int → Int → ρ → Int × ρ) (engine : Engine) : Prop where
  admissible : Admissible engine
  draws : DrawsInRange draw
  budget : (engine.params.noiseBound : Rat) < engine.delta / 2

theorem created_workable {ρ : Type*} {draw : Int → Int → ρ → Int × ρ} (draws : DrawsInRange draw)
    (secret : Int) : Workable draw (createdEngine secret) where
  admissible := created_admissible secret
  draws := draws
  budget := created_budget secret

/-- A bound within which a ciphertext decrypts exactly. -/
structure Certificate (engine : Engine) where
  bound : Bound
  decryptable : bound.Decryptable engine

/-- What is known of a ciphertext. -/
abbrev Knowledge (engine : Engine) := Option (Certificate engine)

def certify (engine : Engine) (bound : Bound) : Knowledge engine :=
  if decryptable : bound.Decryptable engine then some ⟨bound, decryptable⟩ else none

variable {engine : Engine}

def combined (op : Bound → Bound → Bound) (a b : Knowledge engine) : Knowledge engine :=
  a.bind fun a => b.bind fun b => certify engine (op a.bound b.bound)

def sumBound (a b : Bound) : Bound := ⟨a.value + b.value, a.noise + b.noise⟩

def differenceBound (a b : Bound) : Bound := ⟨a.value - b.value, a.noise + b.noise⟩

def productBound (engine : Engine) (a b : Bound) : Bound :=
  ⟨a.value * b.value, multipliedNoise engine a b⟩

/-- A fresh encryption. -/
def literalBound (engine : Engine) (value : Int) : Bound := ⟨value, engine.params.noiseBound⟩

def literal (engine : Engine) (value : Int) : Knowledge engine :=
  certify engine (literalBound engine value)

def opposite (a : Knowledge engine) : Knowledge engine :=
  a.bind fun a => certify engine ⟨-a.bound.value, a.bound.noise⟩

theorem certify_some {bound : Bound} {certificate : Certificate engine}
    (certified : certify engine bound = some certificate) : certificate.bound = bound := by
  unfold certify at certified
  split at certified
  · rw [← Option.some.inj certified]
  · cases certified

theorem combined_some {op : Bound → Bound → Bound} {a b : Knowledge engine}
    {certificate : Certificate engine} (certified : combined op a b = some certificate) :
    ∃ first second, a = some first ∧ b = some second ∧
      certificate.bound = op first.bound second.bound := by
  obtain ⟨first, left, rest⟩ := Option.bind_eq_some_iff.mp certified
  obtain ⟨second, right, made⟩ := Option.bind_eq_some_iff.mp rest
  exact ⟨first, second, left, right, certify_some made⟩

/-- The ciphertext carries what is known of it. -/
def Holds (known : Knowledge engine) (cipher : Ciphertext) : Prop :=
  ∀ certificate, known = some certificate →
    Carries engine cipher certificate.bound.value certificate.bound.noise

theorem holds_nothing (cipher : Ciphertext) : Holds (none : Knowledge engine) cipher := by
  intro certificate impossible
  cases impossible

theorem holds_certify {bound : Bound} {cipher : Ciphertext}
    (carries : Carries engine cipher bound.value bound.noise) :
    Holds (certify engine bound) cipher := by
  intro certificate certified
  rw [certify_some certified]
  exact carries

theorem carries_weaken {cipher : Ciphertext} {value : Int} {noise more : Rat}
    (carries : Carries engine cipher value noise) (below : noise ≤ more) :
    Carries engine cipher value more where
  signed := carries.signed
  unscaled := carries.unscaled
  integer := carries.integer
  phase := by
    obtain ⟨error, congruent, bounded⟩ := carries.phase
    exact ⟨error, congruent, bounded.trans below⟩

theorem carries_noise {cipher : Ciphertext} {value : Int} {noise : Rat}
    (carries : Carries engine cipher value noise) : 0 ≤ noise := by
  obtain ⟨error, -, bounded⟩ := carries.phase
  exact (abs_nonneg _).trans bounded

theorem known_decrypts (admissible : Admissible engine) {certificate : Certificate engine}
    {cipher : Ciphertext} (holds : Holds (some certificate) cipher) :
    engine.decryptInt cipher = certificate.bound.value :=
  decrypt_exact admissible (holds certificate rfl) certificate.decryptable

theorem literal_fits (admissible : Admissible engine) {value : Int}
    {certificate : Certificate engine} (certified : literal engine value = some certificate) :
    |value| < 2 ^ 63 := by
  have same := certify_some certified
  have small := certificate.decryptable.1
  rw [same] at small
  have below : engine.params.t ≤ 2 ^ 62 :=
    (Int.le_of_dvd admissible.positive admissible.divides).trans admissible.bounded
  have magnitude : 2 * |value| < engine.params.t := small
  omega

section Operations

variable {ρ : Type*} {draw : Int → Int → ρ → Int × ρ} {a b : Knowledge engine}
  {lhs rhs : Ciphertext}

theorem holds_encrypt (works : Workable draw engine) (value : Int) (rng : ρ) :
    Holds (literal engine value) (engine.encryptInt draw value rng).1 :=
  holds_certify (encrypt_int_spec works.admissible works.draws works.budget value rng).carries

theorem holds_sum (admissible : Admissible engine) (left : Holds a lhs) (right : Holds b rhs) :
    Holds (combined sumBound a b) (engine.add lhs rhs) := by
  intro certificate certified
  obtain ⟨first, second, rfl, rfl, same⟩ := combined_some certified
  rw [same]
  exact (add_spec admissible (left first rfl) (right second rfl)).carries

theorem holds_opposite (admissible : Admissible engine) (left : Holds a lhs) :
    Holds (opposite a) (negated lhs) := by
  intro certificate certified
  obtain ⟨first, rfl, made⟩ := Option.bind_eq_some_iff.mp certified
  rw [certify_some made]
  exact negated_spec admissible (left first rfl)

theorem holds_difference (admissible : Admissible engine) (left : Holds a lhs)
    (right : Holds b rhs) :
    Holds (combined differenceBound a b) (engine.add lhs (negated rhs)) := by
  intro certificate certified
  obtain ⟨first, second, rfl, rfl, same⟩ := combined_some certified
  have sum := add_spec admissible (left first rfl) (negated_spec admissible (right second rfl))
  rw [← sub_eq_add_neg] at sum
  rw [same]
  exact sum.carries

theorem holds_product (works : Workable draw engine) (left : Holds a lhs) (right : Holds b rhs)
    (rng : ρ) : Holds (combined (productBound engine) a b) (engine.multiply draw lhs rhs rng).1 := by
  intro certificate certified
  obtain ⟨first, second, rfl, rfl, same⟩ := combined_some certified
  have one := left first rfl
  have two := right second rfl
  have product := multiply_spec works.admissible works.draws works.budget one
    first.decryptable.2 two second.decryptable.2 rng
  rw [productNoise, decoded_exact works.admissible one first.decryptable,
    decoded_exact works.admissible two second.decryptable] at product
  rw [same]
  exact product.carries

/-- A plaintext scalar adds no noise; a fresh ciphertext of it would. -/
theorem holds_add_plain (admissible : Admissible engine) (left : Holds a lhs) (scalar : Int) :
    Holds (combined sumBound a (literal engine scalar)) (engine.addPlain lhs scalar) := by
  intro certificate certified
  obtain ⟨first, second, rfl, fresh, same⟩ := combined_some certified
  have sum := add_plain_spec admissible (left first rfl) scalar
    (fits_of_abs (literal_fits admissible fresh))
  have more : first.bound.noise ≤ first.bound.noise + engine.params.noiseBound := by
    have positive : (0 : Rat) ≤ engine.params.noiseBound := by exact_mod_cast admissible.noise
    linarith
  rw [same, certify_some fresh]
  exact carries_weaken sum more

theorem holds_multiply_plain (admissible : Admissible engine) (left : Holds a lhs) (scalar : Int)
    (rng : ρ) : Holds (combined (productBound engine) a (literal engine scalar))
      (engine.multiplyPlain draw lhs scalar rng).1 := by
  intro certificate certified
  obtain ⟨first, second, rfl, fresh, same⟩ := combined_some certified
  have one := left first rfl
  have fits := fits_of_abs (literal_fits admissible fresh)
  have below : |(scalar : Rat)| * first.bound.noise ≤
      multipliedNoise engine first.bound (literalBound engine scalar) := by
    have noise := carries_noise one
    have positive : (0 : Rat) ≤ engine.params.noiseBound := by exact_mod_cast admissible.noise
    have delta : (0 : Rat) < engine.delta := by exact_mod_cast (delta_mul admissible).2
    have masked : 0 ≤ |(first.bound.value : Rat)| * engine.params.noiseBound :=
      mul_nonneg (abs_nonneg _) positive
    have cross : 0 ≤ first.bound.noise * engine.params.noiseBound / engine.delta :=
      div_nonneg (mul_nonneg noise positive) delta.le
    simp only [multipliedNoise, literalBound]
    linarith
  rw [same, certify_some fresh]
  simp only [productBound, literalBound]
  rw [mul_comm first.bound.value]
  exact carries_weaken (multiply_plain_spec admissible one scalar fits rng).carries below

end Operations

end Fhenomenon.CertifiedNoise

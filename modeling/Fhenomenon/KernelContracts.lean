import Fhenomenon.SlotKernels

/-!
# Which operands and scalars the kernels handle

The kernels of the table keep their contract exactly on the operand kinds that they check
for, or happen to read rightly, and on the scalars whose encoding is an `int64_t`. Another
scalar goes through a `std::llround` out of range, whose answer the standard leaves open.
-/

namespace Fhenomenon.KernelContracts

open Fhenomenon.Lib.MachineInt Fhenomenon.Lib.Rounding
open Fhenomenon.InstructionStream Fhenomenon.DefaultExecutor Fhenomenon.DeviceAbi
open Fhenomenon.ToyFhe Fhenomenon.ToyFheNoise Fhenomenon.ToyFheKernels
open Fhenomenon.EncodedSlots Fhenomenon.SlotOperations Fhenomenon.SlotKernels
open Fhenomenon.CheckedEngine (Scaled addPlainPower)

/-- An engine as the backend creates it, with any secret. -/
def createdEngine (secret : Int) : Engine := { params := {}, secretKey := secret }

theorem created_admissible (secret : Int) : Admissible (createdEngine secret) where
  plain := by norm_num [createdEngine]
  divides := by norm_num [createdEngine]
  positive := by norm_num [createdEngine]
  bounded := by norm_num [createdEngine]
  noise := by norm_num [createdEngine]

theorem created_delta (secret : Int) : (createdEngine secret).delta = 2 ^ 26 := rfl

theorem created_budget (secret : Int) :
    ((createdEngine secret).params.noiseBound : Rat) < (createdEngine secret).delta / 2 := by
  rw [created_delta]
  norm_num [createdEngine]

/-- The same engine, where `std::llround` gives `unrepresentable` out of range. -/
def createdWith (unrepresentable : Rat → Int) (secret : Int) : Engine :=
  { createdEngine secret with unrepresentable := unrepresentable }

section Created

variable {unrepresentable : Rat → Int} {secret : Int}

theorem created_with_delta : (createdWith unrepresentable secret).delta = 2 ^ 26 := rfl

theorem created_with_budget (unrepresentable : Rat → Int) (secret : Int) :
    ((createdWith unrepresentable secret).params.noiseBound : Rat) <
      (createdWith unrepresentable secret).delta / 2 := created_budget secret

theorem created_with_scaled (secretFits : Fits 64 secret) :
    Scaled (createdWith unrepresentable secret) where
  bounded :=
    { admissible := FixedPointProducts.default_admissible rfl
      secret := secretFits
      fresh := by norm_num [createdWith, createdEngine] }
  scale := by norm_num [createdWith, createdEngine]
  divisor := by
    rw [created_with_delta]
    norm_num [createdWith, createdEngine, Fits]

end Created

section Worlds

variable {Ptr ρ : Type*}

/-- Integers have no scale level and fixed-point numbers one. -/
def RegularLevel (cipher : Ciphertext) : Prop :=
  (cipher.scalePower = 0 ∧ cipher.encoding = .integer) ∨
    (cipher.scalePower = 1 ∧ cipher.encoding = .fixedPoint)

/-- The integer that stands for a scalar is an `int64_t`. -/
def ScalarHandled (engine : Engine) (opcode : FhnOpCode) (operands : Fin 4 → Option Ptr)
    (fparams : Fin 2 → Rat) (world : World Ptr ρ) : Prop :=
  ReadsScalar opcode → ∀ first, operands 0 = some first → RegularLevel (world.heap first).ct →
    Fits 64 (encodedScalar engine opcode (fparams 0) (world.heap first).ct)

/-- The same kinds and levels, with any ciphertexts, slots and random source. -/
structure Alike (world other : World Ptr ρ) : Prop where
  kind : ∀ buffer, (other.heap buffer).kind = (world.heap buffer).kind
  scalePower : ∀ buffer, (other.heap buffer).ct.scalePower = (world.heap buffer).ct.scalePower
  encoding : ∀ buffer, (other.heap buffer).ct.encoding = (world.heap buffer).ct.encoding
  faulted : other.faulted = world.faulted

theorem alike_refl (world : World Ptr ρ) : Alike world world :=
  ⟨fun _ => rfl, fun _ => rfl, fun _ => rfl, rfl⟩

theorem alike_handled {world other : World Ptr ρ} (alike : Alike world other) (opcode : FhnOpCode)
    (operands : Fin 4 → Option Ptr) :
    OperandsHandled opcode operands other ↔ OperandsHandled opcode operands world := by
  unfold OperandsHandled
  simp only [alike.kind]

variable [DecidableEq Ptr]

/-- The kernels of the table for an opcode keep the contract on buffers of these kinds and
levels, whatever the ciphertexts and whatever `std::llround` gives out of range. -/
def KeepsContract (draw : Int → Int → ρ → Int × ρ) (secret : Int) (opcode : FhnOpCode)
    (result : Ptr) (operands : Fin 4 → Option Ptr) (params : Fin 4 → Int) (fparams : Fin 2 → Rat)
    (world : World Ptr ρ) : Prop :=
  ∀ (unrepresentable : Rat → Int) (other : World Ptr ρ), Alike world other →
    ∀ entry ∈ toyfheKernels draw (createdWith unrepresentable secret), entry.opcode = opcode →
      ∀ fn, entry.fn = some fn →
        ComputesOrRefuses (createdWith unrepresentable secret) opcode fn result operands params
          fparams other

end Worlds

section Table

variable {Ptr ρ : Type*} [DecidableEq Ptr] {draw : Int → Int → ρ → Int × ρ} {engine : Engine}
  {entry : FhnKernelEntry Ptr (World Ptr ρ)} {fn : FhnKernelFn Ptr (World Ptr ρ)}
  {world : World Ptr ρ} {operands : Fin 4 → Option Ptr}

theorem registered_or_free (draw : Int → Int → ρ → Int × ρ) (engine : Engine)
    (opcode : FhnOpCode) (operands : Fin 4 → Option Ptr) (world : World Ptr ρ) :
    (∃ entry ∈ toyfheKernels draw engine, ∃ fn : FhnKernelFn Ptr (World Ptr ρ),
      entry.opcode = opcode ∧ entry.fn = some fn) ∨
        (¬ReadsScalar opcode ∧ OperandsHandled opcode operands world) := by
  have stored (index : Nat) {entry : FhnKernelEntry Ptr (World Ptr ρ)}
      (found : (toyfheKernels draw engine)[index]? = some entry) :
      entry ∈ toyfheKernels draw engine := List.mem_of_getElem? found
  cases opcode with
  | addCC => exact Or.inl ⟨_, stored 0 rfl, _, rfl, rfl⟩
  | addCS => exact Or.inl ⟨_, stored 1 rfl, _, rfl, rfl⟩
  | subCC => exact Or.inl ⟨_, stored 2 rfl, _, rfl, rfl⟩
  | negate => exact Or.inl ⟨_, stored 3 rfl, _, rfl, rfl⟩
  | multCC => exact Or.inl ⟨_, stored 4 rfl, _, rfl, rfl⟩
  | multCS => exact Or.inl ⟨_, stored 5 rfl, _, rfl, rfl⟩
  | hmult => exact Or.inl ⟨_, stored 9 rfl, _, rfl, rfl⟩
  | _ => exact Or.inr ⟨not_or.mpr ⟨nofun, nofun⟩, trivial⟩

theorem scalar_kernels (member : entry ∈ toyfheKernels draw engine)
    (reads : ReadsScalar entry.opcode) (registered : entry.fn = some fn) (result : Ptr)
    (operands : Fin 4 → Option Ptr) (params : Fin 4 → Int) (fparams : Fin 2 → Rat)
    (world : World Ptr ρ) :
    ReadsScalarField draw engine entry.opcode fn result operands params fparams world := by
  simp only [toyfheKernels, List.mem_cons, List.not_mem_nil, or_false] at member
  rcases reads with opcode | opcode <;>
    rcases member with rfl | rfl | rfl | rfl | rfl | rfl | rfl | rfl | rfl | rfl | rfl <;>
    cases opcode
  · rw [Option.some.injEq] at registered
    rw [← registered]
    refine ⟨rfl, fun _ => rfl, Iff.rfl, ?_, ?_, fun _ _ _ => rfl⟩
    · intro missing
      simp only [toyfheAddCs, missing]
    · intro a left
      exact ⟨world.rng, world, by simp only [toyfheAddCs, left, slotCipher], rfl, rfl⟩
  · rw [Option.some.injEq] at registered
    rw [← registered]
    refine ⟨rfl, fun _ => rfl, Iff.rfl, ?_, ?_, fun _ _ _ => rfl⟩
    · intro missing
      simp only [toyfheMultCs, missing]
    · intro a left
      exact ⟨world.rng, { world with rng := (engine.multiplyPlain draw (world.heap a).ct
        (fparams 0) world.rng).2 }, by simp only [toyfheMultCs, left, slotCipher], rfl, rfl⟩

theorem negate_kernel (draw : Int → Int → ρ → Int × ρ) (engine : Engine) (result : Ptr)
    (operands : Fin 4 → Option Ptr) (params : Fin 4 → Int) (fparams : Fin 2 → Rat)
    (world : World Ptr ρ) :
    ReadsScalarField draw engine .negate toyfheNegate result operands params fparams world := by
  refine ⟨rfl, fun _ => rfl, Iff.rfl, ?_, ?_, fun _ _ _ => rfl⟩
  · intro missing
    simp only [toyfheNegate, missing]
  · intro a left
    exact ⟨world.rng, world, by simp only [toyfheNegate, left, slotCipher], rfl, rfl⟩

theorem kernel_contract (member : entry ∈ toyfheKernels draw engine)
    (unscaled : ¬ReadsScalar entry.opcode) (registered : entry.fn = some fn) {result : Ptr}
    {params : Fin 4 → Int} {fparams : Fin 2 → Rat} (running : world.faulted = false)
    (decrypts : ∀ a, operands 0 = some a →
      SlotsComputed draw engine entry.opcode fparams (world.heap a)) :
    ComputesOrRefuses engine entry.opcode fn result operands params fparams world ↔
      OperandsHandled entry.opcode operands world := by
  simp only [toyfheKernels, List.mem_cons, List.not_mem_nil, or_false] at member
  rcases member with rfl | rfl | rfl | rfl | rfl | rfl | rfl | rfl | rfl | rfl | rfl <;>
    rw [Option.some.injEq] at registered <;> rw [← registered]
  · exact binary_contract decrypts rfl (fun _ => rfl) (fun _ _ _ => rfl) Iff.rfl
  · exact absurd (Or.inl rfl) unscaled
  · exact sub_contract running decrypts
  · have kernel := negate_kernel draw engine result operands params fparams world
    exact ⟨unary_handled kernel running, unary_computes kernel decrypts⟩
  · exact binary_contract decrypts rfl (fun _ => rfl) (fun _ _ _ => rfl) Iff.rfl
  · exact absurd (Or.inr rfl) unscaled
  · exact iff_of_true (passthrough_contract decrypts rfl (fun _ _ _ => rfl) (fun _ => rfl)) trivial
  · exact iff_of_true (passthrough_contract decrypts rfl (fun _ _ _ => rfl) (fun _ => rfl)) trivial
  · exact iff_of_true (rotate_contract decrypts) trivial
  · exact binary_contract decrypts rfl (fun _ => rfl) (fun _ _ _ => rfl) Iff.rfl
  · exact iff_of_true (hrot_add_contract decrypts) trivial

end Table

section Lost

def unitCipher (cipher : Ciphertext) : Ciphertext :=
  { cipher with c0 := 2 ^ 26 * (2 ^ 16) ^ cipher.scalePower, c1 := 0 }

/-- An answer of `std::llround` that is off by half of `t`. -/
def misrounded (value : Rat) : Int := llround value + 2 ^ 31

theorem misrounded_far {value : Rat} {decrypted : Int}
    (congruent : decrypted ≡ i64 (misrounded value) [ZMOD 2 ^ 32]) :
    3 / 2 < |(decrypted : Rat) - value| := by
  by_contra near
  have close : |(decrypted : Rat) - llround value| ≤ 2 := by
    have rounding := llround_error value
    have split := abs_sub_le (decrypted : Rat) value (llround value)
    rw [abs_sub_comm value] at split
    linarith
  have small : |decrypted - llround value| ≤ 2 := by exact_mod_cast close
  obtain ⟨lower, upper⟩ := abs_le.mp small
  unfold Int.ModEq i64 misrounded at congruent
  omega

variable {ρ : Type*} {draw : Int → Int → ρ → Int × ρ} {secret : Int} {cipher : Ciphertext}
  {scalar : Rat}

theorem unit_encodes (level : RegularLevel cipher) :
    Encodes (createdWith misrounded secret) (unitCipher cipher)
      ((2 ^ 16) ^ cipher.scalePower) 0 := by
  have masked : mulMod 0 secret (2 ^ 58) = 0 := by
    rw [mulMod, zero_mul]
    rfl
  refine ⟨⟨?_, level⟩, 0, ?_, ?_⟩
  · rcases level with ⟨power, -⟩ | ⟨power, -⟩ <;>
      constructor <;> norm_num [unitCipher, power, createdWith, createdEngine]
  · rw [created_with_delta]
    simp only [Engine.decodeRaw, unitCipher, createdWith, createdEngine, masked]
    rcases level with ⟨power, -⟩ | ⟨power, -⟩ <;> rw [power] <;> decide +kernel
  · norm_num

theorem unit_number (level : RegularLevel cipher) :
    (((2 ^ 16) ^ cipher.scalePower : Int) : Rat) /
      (createdWith misrounded secret).scaleFactor (unitCipher cipher).scalePower = (1 : Int) := by
  rcases level with ⟨power, -⟩ | ⟨power, -⟩ <;>
    norm_num [unitCipher, power, Engine.scaleFactor, createdWith, createdEngine]

theorem tolerance_small (secret : Int) (scalar : Rat) :
    scalarTolerance (createdWith misrounded secret) scalar ≤ 1 / 2 ^ 17 := by
  unfold scalarTolerance
  split
  · norm_num
  · apply max_le <;> norm_num [createdWith, createdEngine]

theorem lost_encoding (secretFits : Fits 64 secret) {opcode : FhnOpCode}
    (level : RegularLevel cipher)
    (lost : ¬Fits 64 (encodedScalar (createdWith misrounded secret) opcode scalar cipher)) :
    (createdWith misrounded secret).llround (scalar * (createdWith misrounded secret).scaleFactor 1)
      = i64 (misrounded (scalar * (createdWith misrounded secret).scaleFactor 1)) := by
  refine if_neg fun fits => lost ?_
  have scaled : Scaled (createdWith misrounded secret) := created_with_scaled secretFits
  have encoded :
      Fits 64 (llround (scalar * (createdWith misrounded secret).scaleFactor 1)) := fits
  have unscaled := CheckedEngine.scalar_fits scaled encoded
  have small : scalarLevel opcode scalar cipher = 0 ∨ scalarLevel opcode scalar cipher = 1 := by
    unfold scalarLevel
    rcases level with ⟨power, -⟩ | ⟨power, -⟩ <;> rw [power] <;> split_ifs <;> simp
  unfold encodedScalar
  rcases small with zero | one
  · rw [zero, Engine.scaleFactor, pow_zero, mul_one]
    exact unscaled
  · rw [one]
    exact encoded

theorem lost_fractional {opcode : FhnOpCode}
    (unscaled : NearInteger scalar → scalarLevel opcode scalar cipher = 0)
    (lost : ¬Fits 64 (encodedScalar (createdWith misrounded secret) opcode scalar cipher)) :
    (createdWith misrounded secret).isApproximatelyInteger scalar = false := by
  apply Bool.eq_false_iff.mpr
  intro test
  obtain ⟨near, fits⟩ := approximately_integer_iff.mp test
  apply lost
  unfold encodedScalar
  rw [unscaled near, Engine.scaleFactor, pow_zero, mul_one]
  exact fits

theorem misrounded_value {out : Ciphertext} {level : Nat} {offset : Int} {noise tolerance : Rat}
    (near : Approximates (createdWith misrounded secret) out 1
      ((offset * 2 ^ 16 + i64 (misrounded (scalar *
        (createdWith misrounded secret).scaleFactor 1)) : Int) : Rat) noise)
    (budget : noise < (createdWith misrounded secret).delta / 2)
    (decrypted : DecryptedAs (createdWith misrounded secret) out level (offset + scalar)
      tolerance) :
    3 / 2 ^ 17 < tolerance := by
  have congruent := approximates_decrypts_integer (FixedPointProducts.default_admissible rfl) near
    budget
  obtain ⟨mantissa, same, close⟩ := decrypted.decrypted
  have one : level = 1 := decrypted.leveled.symm.trans near.level
  have factor : (createdWith misrounded secret).scaleFactor 1 = 2 ^ 16 := by
    norm_num [Engine.scaleFactor, createdWith, createdEngine]
  rw [one] at close
  rw [factor] at close congruent
  have moved : mantissa - offset * 2 ^ 16 ≡ i64 (misrounded (scalar * 2 ^ 16)) [ZMOD 2 ^ 32] := by
    have both := (same.symm.trans congruent).sub_right (offset * 2 ^ 16)
    rwa [add_sub_cancel_left] at both
  have far := misrounded_far moved
  have split : ((mantissa - offset * 2 ^ 16 : Int) : Rat) - scalar * 2 ^ 16 =
      (mantissa / 2 ^ 16 - (offset + scalar)) * 2 ^ 16 := by
    push_cast
    ring
  rw [split, abs_mul, abs_of_pos (by norm_num : (0 : Rat) < 2 ^ 16)] at far
  linarith

theorem plain_sum_lost (secretFits : Fits 64 secret) (level : RegularLevel cipher)
    (lost : ¬Fits 64 (encodedScalar (createdWith misrounded secret) .addCS scalar cipher)) :
    ¬DecryptsTo (createdWith misrounded secret) .addCS scalar (unitCipher cipher) {}
      ((createdWith misrounded secret).addPlain (unitCipher cipher) scalar) := by
  intro claimed
  have scaled : Scaled (createdWith misrounded secret) := created_with_scaled secretFits
  have admissible := scaled.bounded.admissible
  have encodes : Encodes (createdWith misrounded secret) (unitCipher cipher)
    ((2 ^ 16) ^ cipher.scalePower) 0 := unit_encodes level
  have power : addPlainPower (createdWith misrounded secret) (unitCipher cipher) scalar = 1 := by
    unfold addPlainPower unitCipher
    rcases level with ⟨zero, integer⟩ | ⟨one, fixed⟩
    · have fractional := lost_fractional (fun near => by simp [scalarLevel, near, zero]) lost
      simp [fractional, zero, integer]
    · simp [one, fixed]
  have sum := approximates_add_plain scaled (encodes.approximates admissible) scalar power
  rw [lost_encoding secretFits level lost] at sum
  set wrong := i64 (misrounded (scalar * (createdWith misrounded secret).scaleFactor 1))
    with wrongEq
  have mantissa : ((createdWith misrounded secret).params.scale : Rat) ^
      (1 - (unitCipher cipher).scalePower) * (((2 ^ 16) ^ cipher.scalePower : Int) : Rat) + wrong =
        ((2 ^ 16 + wrong : Int) : Rat) := by
    rcases level with ⟨power, -⟩ | ⟨power, -⟩ <;>
      norm_num [unitCipher, power, createdWith, createdEngine]
  dsimp only at sum
  rw [mantissa, ← one_mul (2 ^ 16 : Int), mul_zero] at sum
  have budget : (0 : Rat) < (createdWith misrounded secret).delta / 2 := by
    rw [created_with_delta]
    norm_num
  have noise : slotNoise (createdWith misrounded secret) .addCS scalar (unitCipher cipher) {}
      ((2 ^ 16) ^ cipher.scalePower) 0 0 0 < (createdWith misrounded secret).delta / 2 := by
    simpa [slotNoise] using budget
  have decrypted := claimed _ 0 0 0 encodes (fun member => absurd member (by decide)) noise
  rw [unit_number level] at decrypted
  have large := misrounded_value sum budget decrypted
  have small := tolerance_small secret scalar
  simp only [slotTolerance] at large
  linarith

theorem plain_product_lost (draws : DrawsInRange draw) (secretFits : Fits 64 secret)
    (level : RegularLevel cipher)
    (lost : ¬Fits 64 (encodedScalar (createdWith misrounded secret) .multCS scalar cipher))
    (rng : ρ) :
    ¬DecryptsTo (createdWith misrounded secret) .multCS scalar (unitCipher cipher) {}
      ((createdWith misrounded secret).multiplyPlain draw (unitCipher cipher) scalar rng).1 := by
  intro claimed
  have scaled : Scaled (createdWith misrounded secret) := created_with_scaled secretFits
  have encodes : Encodes (createdWith misrounded secret) (unitCipher cipher)
    ((2 ^ 16) ^ cipher.scalePower) 0 := unit_encodes level
  have fractional := lost_fractional (fun near => by simp [scalarLevel, near]) lost
  have product := approximates_multiply_plain_fractional scaled draws
    (created_with_budget misrounded secret) encodes fractional rng
  rw [lost_encoding secretFits level lost] at product
  set wrong := i64 (misrounded (scalar * (createdWith misrounded secret).scaleFactor 1))
    with wrongEq
  have mantissa : ((((2 ^ 16) ^ cipher.scalePower : Int) : Rat) * wrong /
      plainRescale (createdWith misrounded secret) (unitCipher cipher)) =
        (((0 : Int) * 2 ^ 16 + wrong : Int) : Rat) := by
    rcases level with ⟨power, -⟩ | ⟨power, -⟩ <;>
      norm_num [unitCipher, plainRescale, power, createdWith, createdEngine]
  dsimp only at product
  rw [mantissa, mul_zero, zero_div, zero_add] at product
  have budget : (1 / 2 : Rat) + (createdWith misrounded secret).params.noiseBound <
      (createdWith misrounded secret).delta / 2 := by
    rw [created_with_delta]
    norm_num [createdWith, createdEngine]
  have noise : slotNoise (createdWith misrounded secret) .multCS scalar (unitCipher cipher) {}
      ((2 ^ 16) ^ cipher.scalePower) 0 0 0 < (createdWith misrounded secret).delta / 2 := by
    simp only [slotNoise, mul_zero, zero_div, zero_add]
    split
    · rw [created_with_delta]
      norm_num
    · exact budget
  have decrypted := claimed _ 0 0 0 encodes (fun member => absurd member (by decide)) noise
  rw [unit_number level] at decrypted
  have value : slotValue .multCS scalar ((1 : Int) : Rat)
      ((0 : Int) / (createdWith misrounded secret).scaleFactor ({} : Ciphertext).scalePower) =
        (0 : Int) + scalar := by
    simp [slotValue]
  rw [value] at decrypted
  have large := misrounded_value product budget decrypted
  have small := tolerance_small secret scalar
  have unit : (if (unitCipher cipher).scalePower = 1 ∧ ¬NearInteger scalar then
      1 / ((createdWith misrounded secret).params.scale : Rat) else 0) ≤ 1 / 2 ^ 16 := by
    split <;> norm_num [createdWith, createdEngine]
  simp only [slotTolerance, Int.cast_one, abs_one, mul_one] at large
  linarith

end Lost

section Contract

variable {Ptr ρ : Type*} {draw : Int → Int → ρ → Int × ρ} {secret : Int} {opcode : FhnOpCode}
  {operands : Fin 4 → Option Ptr} {fparams : Fin 2 → Rat} {world : World Ptr ρ}

/-- Handled operands, and an encoding of the scalar that fits, are enough. -/
theorem slots_computed (draws : DrawsInRange draw) (secretFits : Fits 64 secret)
    {unrepresentable : Rat → Int} {first : Ptr} {other : World Ptr ρ} (alike : Alike world other)
    (left : operands 0 = some first)
    (scalars : ReadsScalar opcode → OperandsHandled opcode operands world ∧
      ScalarHandled (createdEngine secret) opcode operands fparams world) :
    SlotsComputed draw (createdWith unrepresentable secret) opcode fparams (other.heap first) := by
  intro lhs member rhs rng
  apply slot_cipher_decrypts (created_with_scaled secretFits) draws (created_with_budget _ _)
  intro reads regular
  obtain ⟨handled, scalar⟩ := scalars reads
  have kind : (world.heap first).kind = .ciphertext := by
    rcases reads with rfl | rfl <;> simpa [OperandsHandled, left] using handled
  have same : lhs = (other.heap first).ct := by
    rw [← alike.kind] at kind
    simpa only [slots, kind, List.mem_singleton] using member
  rw [same] at regular ⊢
  have level : RegularLevel (world.heap first).ct := by
    have leveled := regular.level
    rwa [alike.scalePower, alike.encoding] at leveled
  have fits := scalar reads first left level
  unfold encodedScalar scalarLevel at fits ⊢
  rwa [alike.scalePower]

variable [DecidableEq Ptr] {result : Ptr} {params : Fin 4 → Int}

def unitWorld (world : World Ptr ρ) (buffer : Ptr) : World Ptr ρ :=
  { world with
    heap := Function.update world.heap buffer
      { world.heap buffer with ct := unitCipher (world.heap buffer).ct } }

theorem unit_alike (world : World Ptr ρ) (buffer : Ptr) : Alike world (unitWorld world buffer) := by
  constructor
  case faulted => rfl
  all_goals
    intro other
    by_cases same : other = buffer
    · simp [unitWorld, unitCipher, same]
    · simp [unitWorld, Function.update_of_ne same]

theorem scalar_of_contract (draws : DrawsInRange draw) (secretFits : Fits 64 secret)
    (handled : OperandsHandled opcode operands world)
    (keeps : KeepsContract draw secret opcode result operands params fparams world) :
    ScalarHandled (createdEngine secret) opcode operands fparams world := by
  intro reads first left level
  by_contra lost
  obtain ⟨entry, member, fn, same, registered⟩ | ⟨unscaled, -⟩ :=
    registered_or_free draw (createdWith misrounded secret) opcode operands world
  swap
  · exact unscaled reads
  have contract := keeps misrounded (unitWorld world first) (unit_alike world first) entry member
    same fn registered
  have kernel := scalar_kernels member (by rw [same]; exact reads) registered result operands
    params fparams (unitWorld world first)
  rw [same] at kernel
  have scalar : ((unitWorld world first).heap first).kind = .ciphertext := by
    rw [(unit_alike world first).kind]
    rcases reads with rfl | rfl <;> simpa [OperandsHandled, left] using handled
  obtain ⟨rng, decrypts⟩ := unary_decrypts kernel contract left scalar
  have unit : ((unitWorld world first).heap first).ct = unitCipher (world.heap first).ct := by
    simp [unitWorld]
  rw [unit] at decrypts
  rcases reads with rfl | rfl
  · exact plain_sum_lost secretFits level lost decrypts
  · exact plain_product_lost draws secretFits level lost rng decrypts

theorem handled_of_contract (draws : DrawsInRange draw) (secretFits : Fits 64 secret)
    (running : world.faulted = false)
    (keeps : KeepsContract draw secret opcode result operands params fparams world) :
    OperandsHandled opcode operands world := by
  obtain ⟨entry, member, fn, same, registered⟩ | ⟨-, free⟩ :=
    registered_or_free draw (createdWith misrounded secret) opcode operands world
  · have contract := keeps misrounded world (alike_refl world) entry member same fn registered
    rw [← same] at contract ⊢
    by_cases reads : ReadsScalar entry.opcode
    · exact unary_handled (scalar_kernels member reads registered result operands params fparams
        world) running contract
    · refine (kernel_contract member reads registered running fun a left => ?_).mp contract
      exact slots_computed draws secretFits (alike_refl world) left fun scaled =>
        absurd scaled reads
  · exact free

/-- The kernels keep their contract on exactly the operands and scalars they handle. -/
theorem computes_or_refuses_iff {Ptr ρ : Type*} [DecidableEq Ptr] (draw : Int → Int → ρ → Int × ρ)
    (draws : DrawsInRange draw) (secret : Int) (secretFits : Fits 64 secret) (opcode : FhnOpCode)
    (result : Ptr) (operands : Fin 4 → Option Ptr) (params : Fin 4 → Int) (fparams : Fin 2 → Rat)
    (world : World Ptr ρ) (running : world.faulted = false) :
    KeepsContract draw secret opcode result operands params fparams world ↔
      OperandsHandled opcode operands world ∧
        ScalarHandled (createdEngine secret) opcode operands fparams world := by
  constructor
  · intro keeps
    have handled := handled_of_contract draws secretFits running keeps
    exact ⟨handled, scalar_of_contract draws secretFits handled keeps⟩
  · rintro ⟨handled, scalar⟩ unrepresentable other alike entry member same fn registered
    rw [← same] at handled scalar ⊢
    have handledThere := (alike_handled alike entry.opcode operands).mpr handled
    have decrypts (a : Ptr) (left : operands 0 = some a) :
        SlotsComputed draw (createdWith unrepresentable secret) entry.opcode fparams
          (other.heap a) :=
      slots_computed draws secretFits alike left fun _ => ⟨handled, scalar⟩
    by_cases reads : ReadsScalar entry.opcode
    · exact unary_computes (scalar_kernels member reads registered result operands params fparams
        other) decrypts handledThere
    · exact (kernel_contract member reads registered (alike.faulted.trans running) decrypts).mpr
        handledThere

end Contract

/-- Buffer 1 holds a vector of two slots and, in its scalar field, whatever was
there before. -/
def packedWorld : World Nat Unit where
  heap := fun buffer =>
    if buffer = 1 then { kind := .ciphertextVec, ctVec := [{ c0 := 5 }, { c0 := 6 }] } else {}
  rng := ()

def packedOperands : Fin 4 → Option Nat := ![some 1, none, none, none]

/-- Adding a plaintext to a vector succeeds with one ciphertext of the scalar alone. -/
theorem add_plain_drops_slots :
    let outcome := toyfheAddCs (createdEngine 1) (some 2) packedOperands ![0, 0, 0, 0] ![3, 0]
      packedWorld
    outcome.1 = 0 ∧ outcome.2.faulted = false ∧ (packedWorld.heap 1).kind = .ciphertextVec ∧
      (outcome.2.heap 2).kind = .ciphertext ∧
      ¬ ∀ (draw : Int → Int → Unit → Int × Unit), DrawsInRange draw →
        ∀ entry ∈ toyfheKernels draw (createdEngine 1), ∀ fn, entry.fn = some fn →
          ∀ result operands params fparams (world : World Nat Unit), world.faulted = false →
            ComputesOrRefuses (createdEngine 1) entry.opcode fn result operands params fparams
              world := by
  refine ⟨rfl, rfl, rfl, rfl, ?_⟩
  intro claimed
  have contract := claimed topDraw (fun _ high _ order => ⟨order, le_refl high⟩)
    { opcode := .addCS, fn := some (toyfheAddCs (createdEngine 1)) } (by simp [toyfheKernels]) _
    rfl 2 packedOperands ![0, 0, 0, 0] ![3, 0] packedWorld rfl
  have left : packedOperands 0 = some 1 := rfl
  have different : BufKind.ciphertext = BufKind.ciphertextVec :=
    (kinds_of_success contract rfl left).2.1
  cases different

def fixedWorld : World Nat Unit where
  heap := fun buffer =>
    if buffer = 1 then
      { kind := .ciphertext, ct := { c0 := 2 ^ 42, scalePower := 1, encoding := .fixedPoint } }
    else {}
  rng := ()

/-- A third times a fixed-point number, whose encoding fits. -/
theorem fractional_product_kept :
    DrawsInRange topDraw ∧
      KeepsContract topDraw 7 .multCS 2 packedOperands ![0, 0, 0, 0] ![1 / 3, 0] fixedWorld := by
  have draws : DrawsInRange topDraw := fun low high _ order => ⟨order, le_refl high⟩
  refine ⟨draws, (computes_or_refuses_iff topDraw draws 7 (by decide) .multCS 2 packedOperands
    ![0, 0, 0, 0] ![1 / 3, 0] fixedWorld rfl).mpr ⟨rfl, ?_⟩⟩
  intro _ first left _
  have same : first = 1 := (Option.some.inj left).symm
  rw [same]
  decide +kernel

end Fhenomenon.KernelContracts

import Fhenomenon.CheckedDispatch
import Fhenomenon.CorpusOracle
import Fhenomenon.KernelContracts
import Fhenomenon.PlanAwareRefinement

/-!
# Programs on the ToyFHE table

The buffers of the backend with the set of those allocated, its allocation and
encryption exports, and the arithmetic of the corpus: kernels that are given
ciphertexts compute what the oracle computes, under either executor.
-/

namespace Fhenomenon.ToyFheExecution

open Fhenomenon.InstructionStream Fhenomenon.MovementPlanner Fhenomenon.PlanLegality
open Fhenomenon.DefaultExecutor Fhenomenon.DispatchRecipes Fhenomenon.DeviceAbi
open Fhenomenon.ExecutorRefinement Fhenomenon.ProgramRefinement Fhenomenon.PlanAwareRefinement
open Fhenomenon.ToyFhe Fhenomenon.ToyFheNoise Fhenomenon.ToyFheKernels
open Fhenomenon.SlotOperations Fhenomenon.SlotKernels Fhenomenon.KernelContracts
open Fhenomenon.CorpusOracle Fhenomenon.CheckedDispatch

/-- The heap together with the buffers that are allocated. -/
structure Device (Ptr ρ : Type*) where
  world : World Ptr ρ
  live : Finset Ptr

section Exports

variable {Ptr ρ : Type*} [DecidableEq Ptr] (draw : Int → Int → ρ → Int × ρ) (engine : Engine)

/-- `operator new` returns a pointer to no live object. -/
def FreshPointers (fresh : Finset Ptr → Ptr) : Prop := ∀ live, fresh live ∉ live

def toyfheBufferAlloc (fresh : Finset Ptr → Ptr) (device : Device Ptr ρ) :
    Option Ptr × Device Ptr ρ :=
  let buffer := fresh device.live
  (some buffer,
    { world := { device.world with heap := Function.update device.world.heap buffer {} }
      live := insert buffer device.live })

def toyfheBufferFree (buffer : Option Ptr) (device : Device Ptr ρ) : Device Ptr ρ :=
  match buffer with
  | none => device
  | some buffer => { device with live := device.live.erase buffer }

/-- The backend exports no movement hooks. -/
def toyfheHooks (fresh : Finset Ptr → Ptr) : FhnMovementHooks Ptr (Device Ptr ρ) where
  bufferAlloc := some (toyfheBufferAlloc fresh)
  bufferFree := some toyfheBufferFree

def toyfheEncryptI64 (out : Option Ptr) (value : Int) (device : Device Ptr ρ) :
    Int × Device Ptr ρ :=
  match out with
  | none => (-1, device)
  | some _ =>
      let encrypted := engine.encryptInt draw value device.world.rng
      let stored := write out (storeScalar encrypted.1) { device.world with rng := encrypted.2 }
      (stored.1, { device with world := stored.2 })

/-- A fixed-point ciphertext is decoded through its scale and rounded. -/
def toyfheDecryptI64 (input : FhnBuffer) : Option Int :=
  if input.kind ≠ .ciphertext then none
  else if input.ct.encoding = .fixedPoint then
    some (engine.llround (engine.decryptDouble input.ct))
  else some (engine.decryptInt input.ct)

def onDevice (fn : FhnKernelFn Ptr (World Ptr ρ)) : FhnKernelFn Ptr (Device Ptr ρ) :=
  fun result operands params fparams device =>
    let outcome := fn result operands params fparams device.world
    (outcome.1, { device with world := outcome.2 })

/-- The dispatch table of an executor over the ToyFHE kernels. -/
def toyfheTable : Dispatch Ptr (Device Ptr ρ) :=
  dispatchTable ((toyfheKernels draw engine).map fun entry =>
    { opcode := entry.opcode, fn := entry.fn.map onDevice })

def held (buffer : FhnBuffer) : Option Ciphertext :=
  if buffer.kind = .ciphertext then some buffer.ct else none

def slotRng (opcode : FhnOpCode) (fparams : Fin 2 → Rat) (lhs rhs : Ciphertext) (rng : ρ) : ρ :=
  match opcode with
  | .multCC => (engine.multiply draw lhs rhs rng).2
  | .multCS => (engine.multiplyPlain draw lhs (fparams 0) rng).2
  | _ => rng

def checkedSlot (opcode : FhnOpCode) (operands : Fin 4 → Option (Option Ciphertext))
    (fparams : Fin 2 → Rat) (rng : ρ) : Option (Ciphertext × ρ) :=
  match operands 0, if 1 ∈ readSlots opcode then operands 1 else some (some {}) with
  | some (some lhs), some (some rhs) =>
      some (slotCipher draw engine opcode fparams lhs rhs rng,
        slotRng draw engine opcode fparams lhs rhs rng)
  | _, _ => none

def checkedKernel (opcode : FhnOpCode) : FhnKernelFn Ptr (Device Ptr ρ) :=
  fun result operands _ fparams device =>
    match result, checkedSlot draw engine opcode
      (fun slot => (operands slot).map fun buffer => held (device.world.heap buffer)) fparams
      device.world.rng with
    | some buffer, some out =>
        let stored := write (some buffer) (storeScalar out.1) { device.world with rng := out.2 }
        (stored.1, { device with world := stored.2 })
    | _, _ => (-1, device)

/-- The opcodes that the oracle and the table have in common, without rotation. -/
def Arithmetic (opcode : FhnOpCode) : Prop :=
  opcode ∈ [FhnOpCode.addCC, .subCC, .multCC, .addCS, .multCS, .negate]

instance (opcode : FhnOpCode) : Decidable (Arithmetic opcode) :=
  inferInstanceAs (Decidable (opcode ∈ _))

def checkedTable : Dispatch Ptr (Device Ptr ρ) :=
  fun opcode => if Arithmetic opcode then some (checkedKernel draw engine opcode) else none

/-- Contents are ciphertexts, where there is one. -/
def toyfheModel : DeviceModel Ptr (Device Ptr ρ) (Option Ciphertext) ρ where
  cell device buffer :=
    if buffer ∈ device.live then some ⟨true, held (device.world.heap buffer)⟩ else none
  context device := device.world.rng
  apply opcode rng operands _ fparams :=
    match checkedSlot draw engine opcode operands fparams rng with
    | some out => (0, some out.1, out.2)
    | none => (-1, none, rng)

end Exports

section Laws

variable {Ptr ρ : Type*} [DecidableEq Ptr] {draw : Int → Int → ρ → Int × ρ} {engine : Engine}

theorem held_scalar (ct : Ciphertext) (buffer : FhnBuffer) :
    held (storeScalar ct buffer) = some ct := rfl

theorem resident_iff (device : Device Ptr ρ) (buffer : Ptr) :
    (toyfheModel draw engine).Resident device buffer ↔ buffer ∈ device.live := by
  simp only [DeviceModel.Resident, toyfheModel]
  split
  · rename_i member
    exact iff_of_true ⟨_, rfl⟩ member
  · rename_i absent
    apply iff_of_false _ absent
    rintro ⟨value, impossible⟩
    cases impossible

theorem contents_live {device : Device Ptr ρ} {buffer : Ptr} (member : buffer ∈ device.live) :
    (toyfheModel draw engine).contents device buffer = some (held (device.world.heap buffer)) := by
  simp only [DeviceModel.contents, toyfheModel, if_pos member, Option.map_some]

theorem checked_kernel_law :
    KernelLaw (toyfheModel draw engine)
      (checkedTable draw engine : Dispatch Ptr (Device Ptr ρ)) := by
  let model : DeviceModel Ptr (Device Ptr ρ) (Option Ciphertext) ρ := toyfheModel draw engine
  intro opcode fn registered device result operands params fparams live operandsLive
  rw [checkedTable] at registered
  split at registered
  · rw [Option.some.injEq] at registered
    have reads : (fun slot => (operands slot).bind ((toyfheModel draw engine).contents device)) =
        fun slot => (operands slot).map fun buffer => held (device.world.heap buffer) := by
      funext slot
      cases handed : operands slot with
      | none => rfl
      | some buffer =>
          have member := (resident_iff device buffer).mp (operandsLive slot buffer handed)
          rw [Option.bind_some, Option.map_some, contents_live member]
    rw [reads, ← registered]
    simp only [checkedKernel]
    have context : (toyfheModel draw engine).context device = device.world.rng := rfl
    rw [context]
    cases slot : checkedSlot draw engine opcode
        (fun slot => (operands slot).map fun buffer => held (device.world.heap buffer)) fparams
        device.world.rng with
    | none =>
        have computed : model.apply opcode device.world.rng
            (fun slot => (operands slot).map fun buffer => held (device.world.heap buffer)) params
            fparams = (-1, none, device.world.rng) := by
          simp only [model, toyfheModel, slot]
        rw [computed]
        refine ⟨rfl, fun impossible => ?_⟩
        have negative : (-1 : Int) = 0 := impossible
        omega
    | some out =>
        have computed : model.apply opcode device.world.rng
            (fun slot => (operands slot).map fun buffer => held (device.world.heap buffer)) params
            fparams = (0, some out.1, out.2) := by
          simp only [model, toyfheModel, slot]
        rw [computed]
        refine ⟨rfl, fun _ => ⟨?_, rfl⟩⟩
        intro buffer
        have member := (resident_iff device result).mp live
        simp only [write, toyfheModel]
        by_cases same : buffer = result
        · rw [same, if_pos member, if_pos rfl, Function.update_self, held_scalar]
        · rw [if_neg same, Function.update_of_ne same]
  · cases registered

theorem toyfhe_hook_laws {fresh : Finset Ptr → Ptr} (pointers : FreshPointers fresh) :
    HookLaws (toyfheModel draw engine) (toyfheHooks fresh : FhnMovementHooks Ptr (Device Ptr ρ))
      (toyfheBufferAlloc fresh) toyfheBufferFree where
  allocHook := rfl
  freeHook := rfl
  paired := by
    intro impossible
    cases impossible
  allocated := by
    intro device
    refine ⟨fresh device.live, held {}, rfl, ?_, ?_, rfl⟩
    · simp only [toyfheModel, if_neg (pointers device.live)]
    · intro buffer
      simp only [toyfheModel, toyfheBufferAlloc, Finset.mem_insert]
      by_cases same : buffer = fresh device.live
      · simp [same]
      · simp [same]
  freed := by
    intro device buffer cell live
    refine ⟨?_, rfl⟩
    intro other
    simp only [toyfheModel, toyfheBufferFree, Finset.mem_erase]
    by_cases same : other = buffer
    · simp [same]
    · simp [same]
  evicted := by
    intro evict impossible
    cases impossible
  prefetched := by
    intro prefetch impossible
    cases impossible

omit [DecidableEq Ptr] in
theorem checked_slot_some {opcode : FhnOpCode} {operands : Fin 4 → Option Ptr}
    {fparams : Fin 2 → Rat} {heap : Ptr → FhnBuffer} {rng : ρ} {out : Ciphertext × ρ}
    (computed : checkedSlot draw engine opcode
      (fun slot => (operands slot).map fun buffer => held (heap buffer)) fparams rng = some out) :
    ∃ first lhs rhs, operands 0 = some first ∧ (heap first).kind = .ciphertext ∧
      (heap first).ct = lhs ∧
      (1 ∈ readSlots opcode → ∃ second, operands 1 = some second ∧
        (heap second).kind = .ciphertext ∧ (heap second).ct = rhs) ∧
      out = (slotCipher draw engine opcode fparams lhs rhs rng,
        slotRng draw engine opcode fparams lhs rhs rng) := by
  have scalar {buffer : FhnBuffer} {ct : Ciphertext} (holds : held buffer = some ct) :
      buffer.kind = .ciphertext ∧ buffer.ct = ct := by
    rw [held] at holds
    split at holds
    · exact ⟨by assumption, Option.some.inj holds⟩
    · cases holds
  simp only [checkedSlot] at computed
  split at computed
  · rename_i lhs rhs left right
    rw [Option.map_eq_some_iff] at left
    obtain ⟨first, placed, holds⟩ := left
    obtain ⟨kind, ct⟩ := scalar holds
    refine ⟨first, lhs, rhs, placed, kind, ct, ?_, (Option.some.inj computed).symm⟩
    intro binary
    rw [if_pos binary, Option.map_eq_some_iff] at right
    obtain ⟨second, other, also⟩ := right
    exact ⟨second, other, scalar also⟩
  · cases computed

theorem checks_of_stores {opcode : FhnOpCode} (arithmetic : Arithmetic opcode)
    {fn : FhnKernelFn Ptr (World Ptr ρ)}
    (registered : (toyfheTable draw engine : Dispatch Ptr (Device Ptr ρ)) opcode =
      some (onDevice fn))
    (stores : ∀ (result : Option Ptr) (operands : Fin 4 → Option Ptr) (params : Fin 4 → Int)
      (fparams : Fin 2 → Rat) (world : World Ptr ρ) (first : Ptr) (rhs : Ciphertext),
      operands 0 = some first → (world.heap first).kind = .ciphertext →
      (1 ∈ readSlots opcode → ∃ second, operands 1 = some second ∧
        (world.heap second).kind = .ciphertext ∧ (world.heap second).ct = rhs) →
      fn result operands params fparams world =
        write result
          (storeScalar (slotCipher draw engine opcode fparams (world.heap first).ct rhs world.rng))
          { world with
            rng := slotRng draw engine opcode fparams (world.heap first).ct rhs world.rng }) :
    ChecksOpcode (checkedTable draw engine)
      (toyfheTable draw engine : Dispatch Ptr (Device Ptr ρ)) opcode := by
  refine ⟨checkedKernel draw engine opcode, onDevice fn, if_pos arithmetic, registered, ?_⟩
  intro result operands params fparams device success
  have failing : ¬ ((-1 : Int), device).1 = 0 := by
    intro impossible
    have negative : (-1 : Int) = 0 := impossible
    omega
  simp only [checkedKernel] at success ⊢
  cases placed : result with
  | none =>
      rw [placed] at success
      exact absurd success failing
  | some target =>
      rw [placed] at success
      cases slot : checkedSlot draw engine opcode
          (fun slot => (operands slot).map fun buffer => held (device.world.heap buffer)) fparams
          device.world.rng with
      | none =>
          rw [slot] at success
          exact absurd success failing
      | some out =>
          obtain ⟨first, lhs, rhs, left, kind, ct, right, same⟩ := checked_slot_some slot
          have stored := stores (some target) operands params fparams device.world first rhs left
            kind right
          simp only [onDevice, stored, same, ct]

theorem arithmetic_checked {opcode : FhnOpCode} (arithmetic : Arithmetic opcode) :
    ChecksOpcode (checkedTable draw engine)
      (toyfheTable draw engine : Dispatch Ptr (Device Ptr ρ)) opcode := by
  have cases := arithmetic
  simp only [Arithmetic, List.mem_cons, List.not_mem_nil, or_false] at cases
  have binaryStores (op : Ciphertext → Ciphertext → ρ → Ciphertext × ρ)
      (result : Option Ptr) (operands : Fin 4 → Option Ptr) (params : Fin 4 → Int)
      (fparams : Fin 2 → Rat) (world : World Ptr ρ) {first second : Ptr}
      (left : operands 0 = some first) (right : operands 1 = some second)
      (leftKind : (world.heap first).kind = .ciphertext)
      (rightKind : (world.heap second).kind = .ciphertext) :
      binaryKernel op result operands params fparams world =
        write result
          (storeScalar (op (world.heap first).ct (world.heap second).ct world.rng).1)
          { world with rng := (op (world.heap first).ct (world.heap second).ct world.rng).2 } := by
    simp [binaryKernel, left, right, toyfheIsVec, leftKind, rightKind]
  rcases cases with rfl | rfl | rfl | rfl | rfl | rfl
  · apply checks_of_stores arithmetic rfl
    intro result operands params fparams world first rhs left kind right
    obtain ⟨second, other, otherKind, rfl⟩ := right (by decide)
    exact binaryStores (addSlots engine) result operands params fparams world left other kind
      otherKind
  · apply checks_of_stores arithmetic rfl
    intro result operands params fparams world first rhs left kind right
    obtain ⟨second, other, otherKind, rfl⟩ := right (by decide)
    simp only [toyfheSubCc, left, other, slotCipher, slotRng]
  · apply checks_of_stores arithmetic rfl
    intro result operands params fparams world first rhs left kind right
    obtain ⟨second, other, otherKind, rfl⟩ := right (by decide)
    exact binaryStores (engine.multiply draw) result operands params fparams world left other kind
      otherKind
  · apply checks_of_stores arithmetic rfl
    intro result operands params fparams world first rhs left kind right
    simp only [toyfheAddCs, left, slotCipher, slotRng]
  · apply checks_of_stores arithmetic rfl
    intro result operands params fparams world first rhs left kind right
    simp only [toyfheMultCs, left, slotCipher, slotRng]
  · apply checks_of_stores arithmetic rfl
    intro result operands params fparams world first rhs left kind right
    simp only [toyfheNegate, left, slotCipher, slotRng]

end Laws

theorem congr_small {first second modulus : Int} (congruent : first ≡ second [ZMOD modulus])
    (lower : -modulus ≤ 2 * first) (upper : 2 * first ≤ modulus) (small : 2 * |second| < modulus) :
    first = second := by
  obtain ⟨turns, shift⟩ := congruent.dvd
  obtain ⟨secondLower, secondUpper⟩ := abs_le.mp (le_refl |second|)
  have below : turns < 1 := by
    by_contra more
    have turned : modulus * 1 ≤ modulus * turns :=
      mul_le_mul_of_nonneg_left (by omega) (by omega)
    omega
  have above : -1 < turns := by
    by_contra less
    have turned : modulus * turns ≤ modulus * (-1) :=
      mul_le_mul_of_nonneg_left (by omega) (by omega)
    omega
  have none : turns = 0 := by omega
  rw [none, mul_zero] at shift
  omega

theorem decoded_exact {engine : Engine} (admissible : Admissible engine) {cipher : Ciphertext}
    {bound : Bound} (carries : Carries engine cipher bound.value bound.noise)
    (small : bound.Decryptable engine) : decodedMessage engine cipher = bound.value := by
  obtain ⟨exact, positive⟩ := delta_mul admissible
  obtain ⟨error, phase, errorBound, same⟩ := centred_phase admissible carries small.2
  obtain ⟨-, lower, upper⟩ := centered_mod_spec (engine.decodeRaw cipher) admissible.positive
  have errorSmall : 2 * |error| < engine.delta := by
    have budget := small.2
    have cast : 2 * |(error : Rat)| < engine.delta := by linarith
    exact_mod_cast cast
  obtain ⟨errorLower, errorUpper⟩ := abs_le.mp (le_refl |error|)
  rw [phase] at lower upper
  generalize decodedMessage engine cipher = message at lower upper same ⊢
  apply congr_small same _ _ small.1
  · by_contra more
    have scaled : engine.delta * (2 * message) ≤ engine.delta * (-engine.params.t - 1) :=
      mul_le_mul_of_nonneg_left (by omega) positive.le
    linarith
  · by_contra more
    have scaled : engine.delta * (engine.params.t + 1) ≤ engine.delta * (2 * message) :=
      mul_le_mul_of_nonneg_left (by omega) positive.le
    linarith

theorem decrypt_exact {engine : Engine} (admissible : Admissible engine) {cipher : Ciphertext}
    {bound : Bound} (carries : Carries engine cipher bound.value bound.noise)
    (small : bound.Decryptable engine) : engine.decryptInt cipher = bound.value := by
  obtain ⟨same, lower, upper⟩ := decrypt_int_spec admissible carries small.2
  exact congr_small same lower.le upper small.1

/-- The opcode on the integers behind one slot of each operand. -/
def integerValue (opcode : FhnOpCode) (scalar first second : Int) : Int :=
  match opcode with
  | .addCC | .hrotAdd => first + second
  | .subCC => first - second
  | .multCC | .hmult => first * second
  | .addCS => first + scalar
  | .multCS => scalar * first
  | .negate => -first
  | _ => first

def integerNoise (engine : Engine) (opcode : FhnOpCode) (scalar : Int) (lhs rhs : Ciphertext)
    (leftNoise rightNoise : Rat) : Rat :=
  match opcode with
  | .addCC | .hrotAdd | .subCC => leftNoise + rightNoise
  | .multCC | .hmult => productNoise engine lhs rhs leftNoise rightNoise
  | .multCS => |(scalar : Rat)| * leftNoise
  | _ => leftNoise

theorem negated_spec {engine : Engine} (admissible : Admissible engine) {cipher : Ciphertext}
    {value : Int} {noise : Rat} (carries : Carries engine cipher value noise) :
    Carries engine (negated cipher) (-value) noise := by
  obtain ⟨signed, opposite⟩ := EncodedSlots.decode_negated admissible carries.signed
  obtain ⟨error, phase, bound⟩ := carries.phase
  refine ⟨signed, carries.unscaled, carries.integer, -error, ?_, ?_⟩
  · refine (opposite.trans phase.neg).trans ?_
    rw [show -(engine.delta * value + error) = engine.delta * -value + -error by ring]
  · rw [Int.cast_neg, abs_neg]
    exact bound

/-- The engine's operation on integer slots carries the plaintext operation. -/
theorem slot_cipher_carries {ρ : Type*} {draw : Int → Int → ρ → Int × ρ} {engine : Engine}
    (admissible : Admissible engine) (draws : DrawsInRange draw)
    (budget : (engine.params.noiseBound : Rat) < engine.delta / 2) (opcode : FhnOpCode)
    {fparams : Fin 2 → Rat} {lhs rhs : Ciphertext} {scalar leftValue rightValue : Int}
    {leftNoise rightNoise : Rat}
    (reads : ReadsScalar opcode → fparams 0 = scalar ∧ -2 ^ 63 ≤ scalar ∧ scalar < 2 ^ 63)
    (left : Carries engine lhs leftValue leftNoise) (leftBudget : leftNoise < engine.delta / 2)
    (right : 1 ∈ readSlots opcode →
      Carries engine rhs rightValue rightNoise ∧ rightNoise < engine.delta / 2) (rng : ρ) :
    Carries engine (slotCipher draw engine opcode fparams lhs rhs rng)
      (integerValue opcode scalar leftValue rightValue)
      (integerNoise engine opcode scalar lhs rhs leftNoise rightNoise) := by
  cases opcode with
  | addCC => exact (add_spec admissible left (right (by decide)).1).carries
  | hrotAdd => exact (add_spec admissible left (right (by decide)).1).carries
  | subCC =>
      have opposite := negated_spec admissible (right (by decide)).1
      have difference := (add_spec admissible left opposite).carries
      rw [← sub_eq_add_neg] at difference
      exact difference
  | multCC =>
      obtain ⟨second, secondBudget⟩ := right (by decide)
      exact (multiply_spec admissible draws budget left leftBudget second secondBudget rng).carries
  | hmult =>
      obtain ⟨second, secondBudget⟩ := right (by decide)
      exact (multiply_spec admissible draws budget left leftBudget second secondBudget rng).carries
  | addCS =>
      obtain ⟨same, lower, upper⟩ := reads (by decide)
      simp only [slotCipher, same]
      exact add_plain_spec admissible left scalar (i64_fits lower upper)
  | multCS =>
      obtain ⟨same, lower, upper⟩ := reads (by decide)
      simp only [slotCipher, same]
      exact (multiply_plain_spec admissible left scalar (i64_fits lower upper) rng).carries
  | negate => exact negated_spec admissible left
  | _ => exact left

/-- The scalar of an instruction is an integer that `int64_t` holds. -/
def ScalarFits (inst : FhnInstruction) : Prop :=
  ReadsScalar inst.opcode →
    ∃ scalar : Int, inst.fparams 0 = scalar ∧ -2 ^ 63 ≤ scalar ∧ scalar < 2 ^ 63

section Values

variable {Ptr ρ : Type*} [DecidableEq Ptr] {draw : Int → Int → ρ → Int × ρ} {engine : Engine}

/-- Every id with a bound holds a ciphertext within it. -/
structure Within (engine : Engine) (values : ValueState (Option Ciphertext) ρ)
    (bounds : Nat → Option Bound) : Prop where
  zero : bounds 0 = none
  small : ∀ id bound, bounds id = some bound → bound.Decryptable engine
  carried : ∀ id bound, bounds id = some bound →
    ∃ ct, values.values id = some (some ct) ∧ Carries engine ct bound.value bound.noise

theorem bound_carries (admissible : Admissible engine) (draws : DrawsInRange draw)
    (budget : (engine.params.noiseBound : Rat) < engine.delta / 2) {inst : FhnInstruction}
    (scalar : ScalarFits inst) {a out : Bound} {b : Option Bound}
    (computed : boundOpcode engine inst a b = some out) {lhs rhs : Ciphertext}
    (left : Carries engine lhs a.value a.noise) (leftSmall : a.Decryptable engine)
    (right : 1 ∈ readSlots inst.opcode → ∃ second, b = some second ∧
      Carries engine rhs second.value second.noise ∧ second.Decryptable engine) (rng : ρ) :
    Carries engine (slotCipher draw engine inst.opcode inst.fparams lhs rhs rng) out.value
      out.noise := by
  have reads : ReadsScalar inst.opcode →
      inst.fparams 0 = (scalarOf inst : Int) ∧ -2 ^ 63 ≤ scalarOf inst ∧
        scalarOf inst < 2 ^ 63 := by
    intro reading
    obtain ⟨integer, same, fits⟩ := scalar reading
    rw [scalar_of_integer same]
    exact ⟨same, fits⟩
  have unary (value : Int) (noise : Rat) (single : 1 ∉ readSlots inst.opcode)
      (valued : integerValue inst.opcode (scalarOf inst) a.value 0 = value)
      (bounded : integerNoise engine inst.opcode (scalarOf inst) lhs rhs a.noise 0 = noise) :
      Carries engine (slotCipher draw engine inst.opcode inst.fparams lhs rhs rng) value noise := by
    rw [← valued, ← bounded]
    exact slot_cipher_carries admissible draws budget inst.opcode reads left leftSmall.2
      (fun member => absurd member single) rng
  have binary (second : Bound) (other : b = some second) (double : 1 ∈ readSlots inst.opcode) :
      Carries engine (slotCipher draw engine inst.opcode inst.fparams lhs rhs rng)
        (integerValue inst.opcode (scalarOf inst) a.value second.value)
        (integerNoise engine inst.opcode (scalarOf inst) lhs rhs a.noise second.noise) := by
    obtain ⟨also, same, carries, small⟩ := right double
    rw [other, Option.some.injEq] at same
    rw [same]
    exact slot_cipher_carries admissible draws budget inst.opcode reads left leftSmall.2
      (fun _ => ⟨carries, small.2⟩) rng
  cases opcode : inst.opcode with
  | addCC =>
      simp only [boundOpcode, opcode] at computed
      obtain ⟨second, other, rfl⟩ := Option.map_eq_some_iff.mp computed
      have carries := binary second other (by rw [opcode]; decide)
      rw [opcode] at carries
      exact carries
  | subCC =>
      simp only [boundOpcode, opcode] at computed
      obtain ⟨second, other, rfl⟩ := Option.map_eq_some_iff.mp computed
      have carries := binary second other (by rw [opcode]; decide)
      rw [opcode] at carries
      exact carries
  | multCC =>
      simp only [boundOpcode, opcode] at computed
      obtain ⟨second, other, rfl⟩ := Option.map_eq_some_iff.mp computed
      have carries := binary second other (by rw [opcode]; decide)
      obtain ⟨also, same, rightCarries, rightSmall⟩ := right (by rw [opcode]; decide)
      rw [other, Option.some.injEq] at same
      rw [← same] at rightCarries rightSmall
      have noise : productNoise engine lhs rhs a.noise second.noise =
          multipliedNoise engine a second := by
        rw [productNoise, decoded_exact admissible left leftSmall,
          decoded_exact admissible rightCarries rightSmall, multipliedNoise]
      rw [opcode] at carries
      simp only [integerNoise, noise] at carries
      exact carries
  | addCS =>
      simp only [boundOpcode, opcode, Option.some.injEq] at computed
      rw [← computed, ← opcode]
      exact unary _ _ (by rw [opcode]; decide) (by rw [opcode]; rfl) (by rw [opcode]; rfl)
  | multCS =>
      simp only [boundOpcode, opcode, Option.some.injEq] at computed
      rw [← computed, ← opcode]
      exact unary _ _ (by rw [opcode]; decide) (by rw [opcode]; rfl) (by rw [opcode]; rfl)
  | negate =>
      simp only [boundOpcode, opcode, Option.some.injEq] at computed
      rw [← computed, ← opcode]
      exact unary _ _ (by rw [opcode]; decide) (by rw [opcode]; rfl) (by rw [opcode]; rfl)
  | _ =>
      simp only [boundOpcode, opcode] at computed
      cases computed

theorem bound_arithmetic {inst : FhnInstruction} {a out : Bound} {b : Option Bound}
    (computed : boundOpcode engine inst a b = some out) :
    Arithmetic inst.opcode ∧ (1 ∈ readSlots inst.opcode → b.isSome) := by
  have paired (value : Bound → Bound) (found : b.map value = some out) : b.isSome := by
    cases b with
    | none => cases found
    | some second => rfl
  cases opcode : inst.opcode with
  | addCC =>
      simp only [boundOpcode, opcode] at computed
      exact ⟨by decide, fun _ => paired _ computed⟩
  | subCC =>
      simp only [boundOpcode, opcode] at computed
      exact ⟨by decide, fun _ => paired _ computed⟩
  | multCC =>
      simp only [boundOpcode, opcode] at computed
      exact ⟨by decide, fun _ => paired _ computed⟩
  | addCS => exact ⟨by decide, fun double => absurd double (by decide)⟩
  | multCS => exact ⟨by decide, fun double => absurd double (by decide)⟩
  | negate => exact ⟨by decide, fun double => absurd double (by decide)⟩
  | _ =>
      simp only [boundOpcode, opcode] at computed
      cases computed

theorem bound_instruction_operands {inst : FhnInstruction} {bounds : Nat → Option Bound}
    {out : Bound} (computed : boundInstruction engine inst bounds = some out) :
    ∃ a, bounds (inst.operands 0) = some a ∧
      boundOpcode engine inst a (bounds (inst.operands 1)) = some out := by
  rw [boundInstruction] at computed
  cases left : bounds (inst.operands 0) with
  | none =>
      rw [left] at computed
      cases computed
  | some a =>
      rw [left] at computed
      exact ⟨a, rfl, computed⟩

variable (Ptr) in
theorem value_instruction_within (admissible : Admissible engine) (draws : DrawsInRange draw)
    (budget : (engine.params.noiseBound : Rat) < engine.delta / 2) {inst : FhnInstruction}
    (scalar : ScalarFits inst) (nonzero : inst.resultId ≠ 0)
    {values : ValueState (Option Ciphertext) ρ} {bounds : Nat → Option Bound}
    (within : Within engine values bounds) {out : Bound}
    (computed : boundInstruction engine inst bounds = some out)
    (small : out.Decryptable engine) :
    (valueInstruction (toyfheModel draw engine)
        (checkedTable draw engine : Dispatch Ptr (Device Ptr ρ)) inst values).1 = 0 ∧
      Within engine
        (valueInstruction (toyfheModel draw engine)
          (checkedTable draw engine : Dispatch Ptr (Device Ptr ρ)) inst values).2
        (Function.update bounds inst.resultId (some out)) := by
  obtain ⟨a, left, opcodeBound⟩ := bound_instruction_operands computed
  obtain ⟨arithmetic, paired⟩ := bound_arithmetic opcodeBound
  have supported : supports (checkedTable draw engine : Dispatch Ptr (Device Ptr ρ)) inst.opcode =
      true := by
    rw [supports, checkedTable, if_pos arithmetic]
    rfl
  have present (slot : Fin 4) (bound : Bound) (found : bounds (inst.operands slot) = some bound) :
      (((directCall inst).operands slot).id? inst).bind values.values =
        values.values (inst.operands slot) := by
    have used : inst.operands slot ≠ 0 := by
      intro zero
      rw [zero, within.zero] at found
      cases found
    simp only [directCall, Slot.id?, ne_eq, used, not_false_eq_true, if_true, Option.bind_some]
  obtain ⟨lhs, leftValue, leftCarries⟩ := within.carried _ _ left
  have second : ∃ rhs, (1 ∈ readSlots inst.opcode →
      values.values (inst.operands 1) = some (some rhs) ∧
      ∃ b, bounds (inst.operands 1) = some b ∧ Carries engine rhs b.value b.noise ∧
        b.Decryptable engine) ∧ (1 ∉ readSlots inst.opcode → rhs = {}) := by
    by_cases double : 1 ∈ readSlots inst.opcode
    · obtain ⟨b, right⟩ := Option.isSome_iff_exists.mp (paired double)
      obtain ⟨rhs, rightValue, rightCarries⟩ := within.carried _ _ right
      exact ⟨rhs, fun _ => ⟨rightValue, b, right, rightCarries, within.small _ _ right⟩,
        fun single => absurd double single⟩
    · exact ⟨{}, fun double' => absurd double' double, fun _ => rfl⟩
  obtain ⟨rhs, right, missing⟩ := second
  have slot : checkedSlot draw engine inst.opcode
      (fun slot => (((directCall inst).operands slot).id? inst).bind values.values) inst.fparams
      values.context = some
        (slotCipher draw engine inst.opcode inst.fparams lhs rhs values.context,
          slotRng draw engine inst.opcode inst.fparams lhs rhs values.context) := by
    have reads : (if 1 ∈ readSlots inst.opcode then
        (((directCall inst).operands 1).id? inst).bind values.values else some (some {})) =
          some (some rhs) := by
      by_cases double : 1 ∈ readSlots inst.opcode
      · obtain ⟨rightValue, b, found, -⟩ := right double
        rw [if_pos double, present 1 b found, rightValue]
      · rw [if_neg double, missing double]
    simp only [checkedSlot, present 0 a left, leftValue, reads]
  have called : valueCall (toyfheModel draw engine : DeviceModel Ptr (Device Ptr ρ) _ ρ) inst
      (directCall inst) values =
        (0, { context := slotRng draw engine inst.opcode inst.fparams lhs rhs values.context
              values := Function.update values.values inst.resultId
                (some (some (slotCipher draw engine inst.opcode inst.fparams lhs rhs
                  values.context))) }) := by
    have same : (directCall inst).opcode = inst.opcode := rfl
    simp only [valueCall, toyfheModel, same, slot]
  have ran : valueInstruction (toyfheModel draw engine)
      (checkedTable draw engine : Dispatch Ptr (Device Ptr ρ)) inst values =
        valueCall (toyfheModel draw engine : DeviceModel Ptr (Device Ptr ρ) _ ρ) inst
          (directCall inst) values := by
    simp only [valueInstruction, kernelCalls, if_pos supported, dispatchCode, valueCalls, called]
    rfl
  rw [ran, called]
  refine ⟨rfl, ?_, ?_, ?_⟩
  · rw [Function.update_of_ne nonzero.symm]
    exact within.zero
  · intro id bound found
    by_cases same : id = inst.resultId
    · rw [same, Function.update_self, Option.some.injEq] at found
      exact found ▸ small
    · rw [Function.update_of_ne same] at found
      exact within.small id bound found
  · intro id bound found
    by_cases same : id = inst.resultId
    · rw [same, Function.update_self, Option.some.injEq] at found
      rw [same, ← found]
      refine ⟨_, Function.update_self .., ?_⟩
      exact bound_carries admissible draws budget scalar opcodeBound leftCarries
        (within.small _ _ left) (fun double => (right double).2) values.context
    · rw [Function.update_of_ne same] at found
      obtain ⟨ct, valued, carries⟩ := within.carried id bound found
      exact ⟨ct, (Function.update_of_ne same ..).trans valued, carries⟩

variable (Ptr) in
/-- The induction over the instructions keeps every id within its bound. -/
theorem value_program_within (admissible : Admissible engine) (draws : DrawsInRange draw)
    (budget : (engine.params.noiseBound : Rat) < engine.delta / 2) (insts : List FhnInstruction)
    (scalars : ∀ inst ∈ insts, ScalarFits inst) (nonzero : ∀ inst ∈ insts, inst.resultId ≠ 0)
    (once : (insts.map (·.resultId)).Nodup) {values : ValueState (Option Ciphertext) ρ}
    {bounds final : Nat → Option Bound} (within : Within engine values bounds)
    (computed : boundAll engine insts bounds = some final)
    (small : ∀ inst ∈ insts, ∀ bound, final inst.resultId = some bound →
      bound.Decryptable engine) :
    (valueProgram (toyfheModel draw engine)
        (checkedTable draw engine : Dispatch Ptr (Device Ptr ρ)) insts values).1 = 0 ∧
      Within engine
        (valueProgram (toyfheModel draw engine)
          (checkedTable draw engine : Dispatch Ptr (Device Ptr ρ)) insts values).2 final := by
  induction insts generalizing values bounds with
  | nil =>
      rw [boundAll, Option.some.injEq] at computed
      exact ⟨rfl, computed ▸ within⟩
  | cons inst rest induction =>
      rw [List.map_cons, List.nodup_cons] at once
      rw [boundAll] at computed
      cases stepped : boundInstruction engine inst bounds with
      | none =>
          rw [stepped] at computed
          cases computed
      | some out =>
          rw [stepped] at computed
          have written : final inst.resultId = some out := by
            rw [bound_all_other engine rest computed inst.resultId, Function.update_self]
            intro other member same
            exact once.1 (List.mem_map.mpr ⟨other, member, same⟩)
          obtain ⟨success, next⟩ := value_instruction_within Ptr admissible draws budget
            (scalars inst (List.mem_cons_self ..)) (nonzero inst (List.mem_cons_self ..)) within
            stepped (small inst (List.mem_cons_self ..) out written)
          simp only [valueProgram, success, ne_eq, not_true_eq_false, if_false]
          exact induction (fun other member => scalars other (List.mem_cons_of_mem _ member))
            (fun other member => nonzero other (List.mem_cons_of_mem _ member)) once.2 next
            computed (fun other member => small other (List.mem_cons_of_mem _ member))

theorem operands_of_bounds (insts : List FhnInstruction)
    (nonzero : ∀ inst ∈ insts, inst.resultId ≠ 0) {bounds final : Nat → Option Bound}
    (zero : bounds 0 = none) (computed : boundAll engine insts bounds = some final) :
    ∀ inst ∈ insts, Arithmetic inst.opcode ∧
      ∀ slot ∈ readSlots inst.opcode, inst.operands slot ≠ 0 := by
  induction insts generalizing bounds with
  | nil =>
      intro inst member
      cases member
  | cons inst rest induction =>
      rw [boundAll] at computed
      cases stepped : boundInstruction engine inst bounds with
      | none =>
          rw [stepped] at computed
          cases computed
      | some out =>
          rw [stepped] at computed
          have later := induction
            (fun other member => nonzero other (List.mem_cons_of_mem _ member))
            ((Function.update_of_ne (nonzero inst (List.mem_cons_self ..)).symm ..).trans zero)
            computed
          obtain ⟨a, left, opcodeBound⟩ := bound_instruction_operands stepped
          obtain ⟨arithmetic, paired⟩ := bound_arithmetic opcodeBound
          have used (slot : Fin 4) (bound : Bound)
              (found : bounds (inst.operands slot) = some bound) : inst.operands slot ≠ 0 := by
            intro absent
            rw [absent, zero] at found
            cases found
          intro other member
          rcases List.mem_cons.mp member with rfl | after
          · refine ⟨arithmetic, ?_⟩
            intro slot reads
            by_cases second : slot = 1
            · rw [second] at reads ⊢
              obtain ⟨bound, found⟩ := Option.isSome_iff_exists.mp (paired reads)
              exact used 1 bound found
            · have first : slot = 0 := by
                simp only [Arithmetic, List.mem_cons, List.not_mem_nil, or_false] at arithmetic
                rcases arithmetic with same | same | same | same | same | same <;>
                  rw [same] at reads <;> simp [readSlots, second] at reads <;> exact reads
              rw [first]
              exact used 0 a left
          · exact later other after

end Values

section Execution

variable {Ptr ρ : Type*} [DecidableEq Ptr]

/-- Every input was encrypted into a live buffer of its own, with any mask and noise. -/
structure InputsEncrypted (draw : Int → Int → ρ → Int × ρ) (engine : Engine)
    (program : FhnProgram) (inputs : Nat → Option Int) (buffers : Buffers Ptr)
    (device : Device Ptr ρ) : Prop where
  encrypted : ∀ id ∈ program.inputIds, ∃ value buffer rng, inputs id = some value ∧
    buffers id = some buffer ∧ buffer ∈ device.live ∧
    (device.world.heap buffer).kind = .ciphertext ∧
    (device.world.heap buffer).ct = (engine.encryptInt draw value rng).1
  apart : ∀ first ∈ program.inputIds, ∀ second ∈ program.inputIds,
    buffers first = buffers second → first = second

/-- Plain execution finds a buffer under every id. -/
structure ResultsAllocated (program : FhnProgram) (buffers : Buffers Ptr)
    (device : Device Ptr ρ) : Prop where
  allocated : ∀ id ∈ program.resultIds, ∃ buffer, buffers id = some buffer ∧
    buffer ∈ device.live
  apart : ∀ id ∈ program.definedIds, ∀ result ∈ program.resultIds,
    buffers id = buffers result → id = result

/-- The buffer of `id` decrypts to the one slot the oracle has for it. -/
def DecryptsAs (engine : Engine) (vals : Nat → Option Slots) (buffers : Buffers Ptr)
    (device : Device Ptr ρ) (id : Nat) : Prop :=
  ∃ value buffer, vals id = some [value] ∧ buffers id = some buffer ∧
    toyfheDecryptI64 engine (device.world.heap buffer) = some value

variable {draw : Int → Int → ρ → Int × ρ} {engine : Engine} {program : FhnProgram}
  {inputs : Nat → Option Int} {buffers : Buffers Ptr} {device : Device Ptr ρ}

theorem encrypt_establishes (value : Int) {buffer : Ptr} :
    let outcome := toyfheEncryptI64 draw engine (some buffer) value device
    outcome.1 = 0 ∧ (outcome.2.world.heap buffer).kind = .ciphertext ∧
      (outcome.2.world.heap buffer).ct = (engine.encryptInt draw value device.world.rng).1 ∧
      outcome.2.live = device.live ∧
      ∀ other, other ≠ buffer → outcome.2.world.heap other = device.world.heap other := by
  refine ⟨rfl, ?_, ?_, rfl, ?_⟩
  · simp only [toyfheEncryptI64, write, Function.update_self, storeScalar]
  · simp only [toyfheEncryptI64, write, Function.update_self, storeScalar]
  · intro other apart
    exact Function.update_of_ne apart ..

theorem stored_input (encrypted : InputsEncrypted draw engine program inputs buffers device)
    {id : Nat} (input : id ∈ program.inputIds) :
    ∃ value rng, inputs id = some value ∧
      stored (toyfheModel draw engine) buffers device id =
        some (some (engine.encryptInt draw value rng).1) := by
  obtain ⟨value, buffer, rng, supplied, found, live, kind, ct⟩ := encrypted.encrypted id input
  refine ⟨value, rng, supplied, ?_⟩
  rw [stored, found, Option.bind_some, contents_live live, held, if_pos kind, ct]

theorem encrypted_preallocated
    (encrypted : InputsEncrypted draw engine program inputs buffers device)
    (allocated : ResultsAllocated program buffers device) :
    Preallocated (toyfheModel draw engine) program buffers device where
  resident := by
    intro id member
    rcases List.mem_append.mp member with input | result
    · obtain ⟨-, buffer, -, -, placed, live, -⟩ := encrypted.encrypted id input
      exact ⟨buffer, placed, (resident_iff device buffer).mpr live⟩
    · obtain ⟨buffer, placed, live⟩ := allocated.allocated id result
      exact ⟨buffer, placed, (resident_iff device buffer).mpr live⟩
  apart := allocated.apart

theorem encrypted_supplied (encrypted : InputsEncrypted draw engine program inputs buffers device)
    (fresh : Finset Ptr → Ptr) (plan : FhnMovementPlan) :
    InputsSupplied (toyfheModel draw engine) (toyfheHooks fresh) program plan buffers device where
  supplied := by
    intro id input
    obtain ⟨-, buffer, -, -, placed, live, -⟩ := encrypted.encrypted id input
    exact ⟨buffer, _, placed, if_pos live, fun _ => rfl⟩
  apart := by
    intro first input second other equal
    exact Or.inl (encrypted.apart first input second other equal)

theorem encrypted_valued (encrypted : InputsEncrypted draw engine program inputs buffers device) :
    Valued program 0 (inputValues (toyfheModel draw engine) program buffers device) := by
  intro id
  have start : program.definedBefore 0 = program.inputIds := by
    simp [FhnProgram.definedBefore]
  rw [start, inputValues]
  by_cases input : id ∈ program.inputIds
  · obtain ⟨value, rng, -, holds⟩ := stored_input encrypted input
    simp [input, holds]
  · simp [input]

theorem inputs_within (admissible : Admissible engine) (draws : DrawsInRange draw)
    (budget : (engine.params.noiseBound : Rat) < engine.delta / 2) (valid : SsaValid program)
    (supplied : ∀ id, (inputs id).isSome → id ∈ program.inputIds)
    (small : ∀ id ∈ program.inputIds, ∀ bound, inputBounds engine inputs id = some bound →
      bound.Decryptable engine)
    (encrypted : InputsEncrypted draw engine program inputs buffers device) :
    Within engine (inputValues (toyfheModel draw engine) program buffers device)
      (inputBounds engine inputs) := by
  have input (id : Nat) (bound : Bound) (found : inputBounds engine inputs id = some bound) :
      id ∈ program.inputIds := by
    obtain ⟨value, present, -⟩ := Option.map_eq_some_iff.mp found
    exact supplied id (by rw [present]; rfl)
  constructor
  · cases found : inputBounds engine inputs 0 with
    | none => rfl
    | some bound =>
        have defined : 0 ∈ program.definedIds := List.mem_append_left _ (input 0 bound found)
        exact absurd rfl (valid.nonzero 0 defined)
  · intro id bound found
    exact small id (input id bound found) bound found
  · intro id bound found
    have isInput := input id bound found
    obtain ⟨value, rng, present, holds⟩ := stored_input encrypted isInput
    rw [inputBounds, present, Option.map_some, Option.some.injEq] at found
    refine ⟨(engine.encryptInt draw value rng).1, ?_, ?_⟩
    · simp only [inputValues, if_pos isInput]
      exact holds
    · rw [← found]
      exact (encrypt_int_spec admissible draws budget value rng).carries

theorem decrypts_of_within (admissible : Admissible engine)
    {values : ValueState (Option Ciphertext) ρ} {bounds : Nat → Option Bound}
    {vals : Nat → Option Slots} (within : Within engine values bounds)
    (agrees : Agrees vals bounds) {id : Nat} {bound : Bound} (found : bounds id = some bound)
    {contents : Option Ciphertext} (valued : values.values id = some contents)
    (holds : stored (toyfheModel draw engine) buffers device id = some contents) :
    DecryptsAs engine vals buffers device id := by
  obtain ⟨ct, same, carries⟩ := within.carried id bound found
  rw [valued, Option.some.injEq] at same
  rw [same, stored, Option.bind_eq_some_iff] at holds
  obtain ⟨buffer, placed, read⟩ := holds
  rw [DeviceModel.contents, Option.map_eq_some_iff] at read
  obtain ⟨cell, live, scalar⟩ := read
  simp only [toyfheModel] at live
  split at live
  · rw [Option.some.injEq] at live
    rw [← live] at scalar
    simp only [held] at scalar
    split at scalar
    · rename_i kind
      rw [Option.some.injEq] at scalar
      refine ⟨bound.value, buffer, ?_, placed, ?_⟩
      · rw [agrees id, found, Option.map_some]
      · rw [toyfheDecryptI64, if_neg (by simpa using kind), scalar, if_neg, decrypt_exact admissible
          carries (within.small id bound found)]
        rw [carries.integer]
        decide
    · cases scalar
  · cases live

theorem bounds_defined (engine : Engine) (insts : List FhnInstruction)
    {bounds final : Nat → Option Bound} (computed : boundAll engine insts bounds = some final)
    (id : Nat) (defined : (bounds id).isSome ∨ id ∈ insts.map (·.resultId)) :
    (final id).isSome := by
  induction insts generalizing bounds with
  | nil =>
      rw [boundAll, Option.some.injEq] at computed
      rcases defined with input | impossible
      · exact computed ▸ input
      · cases impossible
  | cons inst rest induction =>
      rw [boundAll] at computed
      cases stepped : boundInstruction engine inst bounds with
      | none =>
          rw [stepped] at computed
          cases computed
      | some out =>
          rw [stepped] at computed
          apply induction computed
          by_cases same : id = inst.resultId
          · rw [same, Function.update_self]
            exact Or.inl rfl
          · rw [Function.update_of_ne same]
            rw [List.map_cons, List.mem_cons] at defined
            rcases defined with input | written | later
            · exact Or.inl input
            · exact absurd written same
            · exact Or.inr later

end Execution

section Bounds

variable {engine : Engine} {program : FhnProgram} {inputs : Nat → Option Int}
  {bounds : Nat → Option Bound}

theorem zero_unbounded (valid : SsaValid program)
    (supplied : ∀ id, (inputs id).isSome ↔ id ∈ program.inputIds) :
    inputBounds engine inputs 0 = none := by
  rw [inputBounds, Option.map_eq_none_iff, ← Option.not_isSome_iff_eq_none, supplied]
  exact fun input => valid.nonzero 0 (List.mem_append_left _ input) rfl

/-- No instruction changes the bound of an input. -/
theorem inputs_small (valid : SsaValid program)
    (exact : boundAll engine program.instructions (inputBounds engine inputs) = some bounds)
    (small : ∀ id bound, bounds id = some bound → bound.Decryptable engine) (id : Nat)
    (input : id ∈ program.inputIds) (bound : Bound)
    (found : inputBounds engine inputs id = some bound) : bound.Decryptable engine := by
  apply small id
  rw [bound_all_other engine program.instructions exact id, found]
  intro inst member same
  have result : id ∈ program.resultIds := List.mem_map.mpr ⟨inst, member, same⟩
  exact (List.nodup_append.mp valid.nodup).2.2 id input id result rfl

theorem defined_bounded (supplied : ∀ id, (inputs id).isSome ↔ id ∈ program.inputIds)
    (exact : boundAll engine program.instructions (inputBounds engine inputs) = some bounds)
    (id : Nat) (member : id ∈ program.definedIds) : ∃ bound, bounds id = some bound := by
  apply Option.isSome_iff_exists.mp
  apply bounds_defined engine program.instructions exact id
  rcases List.mem_append.mp member with input | result
  · left
    rw [inputBounds, Option.isSome_map]
    exact (supplied id).mpr input
  · exact Or.inr result

end Bounds

/-- Both executors over the ToyFHE table return zero, and what they leave under an
id decrypts to the oracle's value of that id. -/
theorem execution_agrees_with_oracle {Ptr ρ : Type*} [DecidableEq Ptr]
    (draw : Int → Int → ρ → Int × ρ) (draws : DrawsInRange draw) (secret : Int)
    (program : FhnProgram) (valid : SsaValid program) (version : program.version = fhnAbiVersion)
    (scalars : ∀ inst ∈ program.instructions, ScalarFits inst) (inputs : Nat → Option Int)
    (supplied : ∀ id, (inputs id).isSome ↔ id ∈ program.inputIds) (bounds : Nat → Option Bound)
    (exact : boundAll (createdEngine secret) program.instructions
      (inputBounds (createdEngine secret) inputs) = some bounds)
    (small : ∀ id bound, bounds id = some bound → bound.Decryptable (createdEngine secret)) :
    ∃ vals, evaluate program (fun id => (inputs id).map fun value => [value]) = some vals ∧
      (∀ (buffers : Buffers Ptr) (device : Device Ptr ρ),
        InputsEncrypted draw (createdEngine secret) program inputs buffers device →
        ResultsAllocated program buffers device →
        let outcome := executePlain (toyfheTable draw (createdEngine secret)) program buffers device
        outcome.1 = 0 ∧ ∀ id ∈ program.definedIds,
          DecryptsAs (createdEngine secret) vals buffers outcome.2 id) ∧
      (∀ pinned deviceBudget policy levels plan,
        analyze program pinned deviceBudget policy levels = some plan →
        ∀ (fresh : Finset Ptr → Ptr), FreshPointers fresh →
        ∀ (buffers : Buffers Ptr) (device : Device Ptr ρ),
          InputsEncrypted draw (createdEngine secret) program inputs buffers device →
          let outcome := execute (toyfheHooks fresh) (toyfheTable draw (createdEngine secret))
            program plan buffers device
          outcome.1 = 0 ∧ ∀ id ∈ pinned, id ∈ program.definedIds →
            DecryptsAs (createdEngine secret) vals outcome.2.buffers outcome.2.world id) := by
  generalize engineEq : createdEngine secret = engine at exact small ⊢
  have admissible : Admissible engine := engineEq ▸ created_admissible secret
  have budget : (engine.params.noiseBound : Rat) < engine.delta / 2 :=
    engineEq ▸ created_budget secret
  have once : (program.instructions.map (·.resultId)).Nodup :=
    (List.nodup_append.mp valid.nodup).2.1
  have nonzero (inst : FhnInstruction) (member : inst ∈ program.instructions) :
      inst.resultId ≠ 0 :=
    valid.nonzero _ (List.mem_append_right _ (List.mem_map.mpr ⟨inst, member, rfl⟩))
  have smallResults (inst : FhnInstruction) (_ : inst ∈ program.instructions) (bound : Bound)
      (found : bounds inst.resultId = some bound) : bound.Decryptable engine :=
    small _ bound found
  have operands := operands_of_bounds program.instructions nonzero
    (zero_unbounded valid supplied) exact
  have present : OperandsPresent program := fun inst member => (operands inst member).2
  have checks (inst : FhnInstruction) (member : inst ∈ program.instructions) :
      ChecksOpcode (checkedTable draw engine)
        (toyfheTable draw engine : Dispatch Ptr (Device Ptr ρ)) inst.opcode :=
    arithmetic_checked (operands inst member).1
  have start : Agrees (fun id => (inputs id).map fun value => [value])
      (inputBounds engine inputs) := by
    intro id
    rw [inputBounds, Option.map_map]
    rfl
  obtain ⟨vals, evaluated, agrees⟩ := evaluate_all_agrees admissible program.instructions once
    start exact smallResults
  have ran (buffers : Buffers Ptr) (device : Device Ptr ρ)
      (encrypted : InputsEncrypted draw engine program inputs buffers device) :=
    value_program_within Ptr admissible draws budget program.instructions scalars nonzero
      once (inputs_within admissible draws budget valid (fun id => (supplied id).mp)
        (inputs_small valid exact small) encrypted) exact smallResults
  refine ⟨vals, evaluated, ?_, ?_⟩
  · intro buffers device encrypted allocated
    obtain ⟨success, within⟩ := ran buffers device encrypted
    obtain ⟨code, kept⟩ := plain_computes valid present checked_kernel_law version
      (encrypted_preallocated encrypted allocated) ⟨rfl, fun _ _ => rfl⟩
      (encrypted_valued encrypted)
    rw [success] at code
    have same := execute_plain_checked checks buffers device code
    simp only [same]
    refine ⟨code, ?_⟩
    intro id member
    obtain ⟨bound, found⟩ := defined_bounded supplied exact id member
    obtain ⟨ct, holds, -⟩ := within.carried id bound found
    exact decrypts_of_within admissible within agrees found holds (kept code id member _ holds)
  · intro pinned deviceBudget policy levels plan analyzed fresh pointers buffers device encrypted
    obtain ⟨success, within⟩ := ran buffers device encrypted
    obtain ⟨code, kept⟩ := plan_aware_computes (analyze_legal analyzed) present
      (toyfhe_hook_laws pointers) checked_kernel_law version buffers device
      (encrypted_supplied encrypted fresh plan)
    rw [success] at code
    have same := execute_checked checks buffers device code
    simp only [same]
    refine ⟨code, ?_⟩
    intro id isPinned member
    obtain ⟨bound, found⟩ := defined_bounded supplied exact id member
    obtain ⟨contents, holds, placed⟩ := kept code id isPinned member
    exact decrypts_of_within admissible within agrees found holds placed

/-- `(x * y - x) * -3`. -/
def scaledDifference : FhnProgram where
  instructions :=
    [{ opcode := .multCC, resultId := 3, operands := ![1, 2, 0, 0] },
      { opcode := .subCC, resultId := 4, operands := ![3, 1, 0, 0] },
      { opcode := .multCS, resultId := 5, operands := ![4, 0, 0, 0], fparams := ![-3, 0] }]
  inputIds := [1, 2]

def fiveAndMinusSeven : Nat → Option Int
  | 1 => some 5
  | 2 => some (-7)
  | _ => none

def scaledBounds : Nat → Option Bound :=
  (boundAll (createdEngine 1) scaledDifference.instructions
    (inputBounds (createdEngine 1) fiveAndMinusSeven)).getD fun _ => none

def encryptedPair : Device Nat Unit where
  world :=
    { heap := fun buffer =>
        match fiveAndMinusSeven buffer with
        | some value =>
            storeScalar ((createdEngine 1).encryptInt topDraw value ()).1 {}
        | none => {}
      rng := () }
  live := {1, 2, 3, 4, 5}

theorem scaled_difference_valid : SsaValid scaledDifference := by
  have analyzed : (analyze scaledDifference [5] 0 .belady none).isSome = true := by
    decide +kernel
  obtain ⟨plan, found⟩ := Option.isSome_iff_exists.mp analyzed
  exact PlanLifetimes.analyze_valid found

theorem encrypted_pair_inputs :
    InputsEncrypted topDraw (createdEngine 1) scaledDifference fiveAndMinusSeven some
      encryptedPair where
  encrypted := by
    intro id input
    simp only [scaledDifference, List.mem_cons, List.not_mem_nil, or_false] at input
    rcases input with rfl | rfl
    · exact ⟨5, 1, (), rfl, rfl, by decide, rfl, rfl⟩
    · exact ⟨-7, 2, (), rfl, rfl, by decide, rfl, rfl⟩
  apart := fun _ _ _ _ equal => Option.some.inj equal

theorem encrypted_pair_results :
    ResultsAllocated scaledDifference some encryptedPair where
  allocated := by
    intro id result
    simp only [FhnProgram.resultIds, scaledDifference, List.map_cons, List.map_nil, List.mem_cons,
      List.not_mem_nil, or_false] at result
    rcases result with rfl | rfl | rfl
    · exact ⟨3, rfl, by decide⟩
    · exact ⟨4, rfl, by decide⟩
    · exact ⟨5, rfl, by decide⟩
  apart := fun _ _ _ _ equal => Option.some.inj equal

theorem scaled_bounds_small (id : Nat) (bound : Bound) (found : scaledBounds id = some bound) :
    bound.Decryptable (createdEngine 1) := by
  have listed : ∀ id ∈ [1, 2, 3, 4, 5],
      (scaledBounds id).all (fun bound => decide (bound.Decryptable (createdEngine 1))) = true := by
    decide +kernel
  by_cases member : id ∈ [1, 2, 3, 4, 5]
  · have small := listed id member
    rw [found, Option.all_some, decide_eq_true_iff] at small
    exact small
  · simp only [List.mem_cons, List.not_mem_nil, or_false, not_or] at member
    obtain ⟨first, second, third, fourth, fifth⟩ := member
    have missing : scaledBounds id = inputBounds (createdEngine 1) fiveAndMinusSeven id := by
      apply bound_all_other (createdEngine 1) scaledDifference.instructions rfl id
      intro inst instruction
      simp only [scaledDifference, List.mem_cons, List.not_mem_nil, or_false] at instruction
      rcases instruction with rfl | rfl | rfl
      · exact Ne.symm third
      · exact Ne.symm fourth
      · exact Ne.symm fifth
    have unknown : fiveAndMinusSeven id = none := by
      unfold fiveAndMinusSeven
      split <;> simp_all
    rw [missing, inputBounds, unknown] at found
    cases found

theorem scaled_difference_agrees :
    ∃ vals, evaluate scaledDifference
        (fun id => (fiveAndMinusSeven id).map fun value => [value]) = some vals ∧
      (executePlain (toyfheTable topDraw (createdEngine 1)) scaledDifference some
        encryptedPair).1 = 0 ∧
      DecryptsAs (createdEngine 1) vals some
        (executePlain (toyfheTable topDraw (createdEngine 1)) scaledDifference some
          encryptedPair).2 5 := by
  have draws : DrawsInRange topDraw := fun low high _ order => ⟨order, le_refl high⟩
  have scalars : ∀ inst ∈ scaledDifference.instructions, ScalarFits inst := by
    intro inst member reads
    simp only [scaledDifference, List.mem_cons, List.not_mem_nil, or_false] at member
    rcases member with rfl | rfl | rfl
    · exact absurd reads (by decide)
    · exact absurd reads (by decide)
    · exact ⟨-3, by norm_num, by norm_num⟩
  have supplied (id : Nat) :
      (fiveAndMinusSeven id).isSome ↔ id ∈ scaledDifference.inputIds := by
    unfold fiveAndMinusSeven
    split <;> simp_all [scaledDifference]
  obtain ⟨vals, evaluated, plain, -⟩ := @execution_agrees_with_oracle Nat Unit _ topDraw draws 1
    scaledDifference scaled_difference_valid rfl scalars fiveAndMinusSeven supplied scaledBounds rfl
    scaled_bounds_small
  obtain ⟨success, decrypts⟩ := plain some encryptedPair encrypted_pair_inputs
    encrypted_pair_results
  exact ⟨vals, evaluated, success, decrypts 5 (by decide)⟩

end Fhenomenon.ToyFheExecution

import Fhenomenon.CheckedEngine
import Fhenomenon.ToyFheKernels

/-!
# Reachable ciphertexts

Every ciphertext that the engine and the kernels build is an integer without a scale
level or a fixed-point number on one, with both parts below `q` in size. Ciphertexts
of this form are aligned in one round at most, multiplied with a divisor of at most
`delta * scale`, and never overflow.
-/

namespace Fhenomenon.ReachableCiphertexts

open Fhenomenon.Lib.MachineInt Fhenomenon.Lib.Rounding
open Fhenomenon.InstructionStream Fhenomenon.DefaultExecutor
open Fhenomenon.ToyFhe Fhenomenon.ToyFheNoise Fhenomenon.ToyFheKernels
open Fhenomenon.CheckedEngine (Bounded Scaled)

/-- No scale level with integers and one with fixed-point numbers. -/
structure Regular (engine : Engine) (cipher : Ciphertext) : Prop where
  signed : Signed engine cipher
  level : (cipher.scalePower = 0 ∧ cipher.encoding = .integer) ∨
    (cipher.scalePower = 1 ∧ cipher.encoding = .fixedPoint)

/-- The ciphertexts in a buffer, whatever its kind says. -/
def stored (buffer : FhnBuffer) : List Ciphertext := buffer.ct :: buffer.ctVec

/-- A call of the engine, its result assigned to a buffer, or of a kernel. -/
inductive Call (Ptr : Type*)
  | encryptInt (out : Ptr) (value : Int)
  | encryptDouble (out : Ptr) (value : Rat)
  | encryptVec (out : Ptr) (values : List Int)
  | add (out lhs rhs : Ptr)
  | multiply (out lhs rhs : Ptr)
  | addPlain (out input : Ptr) (scalar : Rat)
  | multiplyPlain (out input : Ptr) (scalar : Rat)
  | kernel (opcode : FhnOpCode) (result : Option Ptr) (operands : Fin 4 → Option Ptr)
      (params : Fin 4 → Int) (fparams : Fin 2 → Rat)

section Runs

variable {Ptr ρ : Type*} [DecidableEq Ptr] (draw : Int → Int → ρ → Int × ρ) (engine : Engine)

def assign (out : Ptr) (drawn : Ciphertext × ρ) (world : World Ptr ρ) : World Ptr ρ :=
  (write (some out) (storeScalar drawn.1) { world with rng := drawn.2 }).2

def encryptSlots : List Int → ρ → List Ciphertext × ρ
  | [], rng => ([], rng)
  | value :: values, rng =>
      let slot := engine.encryptInt draw value rng
      let rest := encryptSlots values slot.2
      (slot.1 :: rest.1, rest.2)

def perform (step : Call Ptr) (world : World Ptr ρ) : World Ptr ρ :=
  match step with
  | .encryptInt out value => assign out (engine.encryptInt draw value world.rng) world
  | .encryptDouble out value => assign out (engine.encryptDouble draw value world.rng) world
  | .encryptVec out values =>
      if values = [] then world
      else
        let slots := encryptSlots draw engine values world.rng
        (write (some out) (storeVec slots.1) { world with rng := slots.2 }).2
  | .add out lhs rhs =>
      assign out (engine.add (world.heap lhs).ct (world.heap rhs).ct, world.rng) world
  | .multiply out lhs rhs =>
      assign out (engine.multiply draw (world.heap lhs).ct (world.heap rhs).ct world.rng) world
  | .addPlain out input scalar =>
      assign out (engine.addPlain (world.heap input).ct scalar, world.rng) world
  | .multiplyPlain out input scalar =>
      assign out (engine.multiplyPlain draw (world.heap input).ct scalar world.rng) world
  | .kernel opcode result operands params fparams =>
      (call (dispatchTable (toyfheKernels draw engine)) opcode result operands params fparams
        world).2

def performAll (calls : List (Call Ptr)) (world : World Ptr ρ) : World Ptr ρ :=
  calls.foldl (fun world step => perform draw engine step world) world

/-- Only fresh buffers. -/
def emptyWorld (Ptr : Type*) (rng : ρ) : World Ptr ρ where
  heap := fun _ => {}
  rng := rng

end Runs

section Engine

variable {engine : Engine}

theorem default_regular (bounded : Bounded engine) : Regular engine {} := by
  have positive := bounded.admissible.positive
  refine ⟨⟨?_, ?_⟩, Or.inl ⟨rfl, rfl⟩⟩ <;> rw [abs_zero] <;> exact positive

theorem regular_level {cipher : Ciphertext} (regular : Regular engine cipher) :
    cipher.scalePower ≤ 1 := by
  rcases regular.level with ⟨power, -⟩ | ⟨power, -⟩ <;> omega

theorem regular_encoding {cipher : Ciphertext} (regular : Regular engine cipher) :
    cipher.encoding = if cipher.scalePower = 0 then .integer else .fixedPoint := by
  rcases regular.level with ⟨power, encoding⟩ | ⟨power, encoding⟩ <;> rw [power, encoding] <;> rfl

theorem regular_of_encoding {cipher : Ciphertext} (signed : Signed engine cipher)
    (small : cipher.scalePower ≤ 1)
    (encoding : cipher.encoding = if cipher.scalePower = 0 then .integer else .fixedPoint) :
    Regular engine cipher := by
  refine ⟨signed, ?_⟩
  by_cases zero : cipher.scalePower = 0
  · rw [if_pos zero] at encoding
    exact Or.inl ⟨zero, encoding⟩
  · rw [if_neg zero] at encoding
    exact Or.inr ⟨by omega, encoding⟩

theorem align_regular (scaled : Scaled engine) {cipher : Ciphertext}
    (regular : Regular engine cipher) {targetScale : Nat} (small : targetScale ≤ 1)
    (reached : cipher.scalePower ≤ targetScale) :
    Regular engine (engine.alignScale cipher targetScale) ∧
      (engine.alignScale cipher targetScale).scalePower = targetScale := by
  have signed :=
    (CheckedEngine.align_scale_defined scaled.bounded scaled.scale_fits regular.signed
      targetScale).2
  have power : (engine.alignScale cipher targetScale).scalePower = targetScale := by
    rw [CheckedEngine.align_scale_power]
    omega
  refine ⟨regular_of_encoding signed (by omega) ?_, power⟩
  rw [power]
  by_cases level : cipher.scalePower = targetScale
  · have rounds : targetScale - cipher.scalePower = 0 := by omega
    unfold Engine.alignScale
    rw [rounds, ← level]
    exact regular_encoding regular
  · have rounds : targetScale - cipher.scalePower = 1 := by omega
    have raised : targetScale ≠ 0 := by omega
    unfold Engine.alignScale
    rw [rounds, if_neg raised]
    rfl

theorem add_regular (scaled : Scaled engine) {lhs rhs : Ciphertext} (left : Regular engine lhs)
    (right : Regular engine rhs) : Regular engine (engine.add lhs rhs) := by
  have small : max lhs.scalePower rhs.scalePower ≤ 1 :=
    max_le (regular_level left) (regular_level right)
  obtain ⟨leftAligned, leftPower⟩ := align_regular scaled left small (le_max_left _ _)
  obtain ⟨rightAligned, rightPower⟩ := align_regular scaled right small (le_max_right _ _)
  have leftEncoding := regular_encoding leftAligned
  have rightEncoding := regular_encoding rightAligned
  rw [leftPower] at leftEncoding
  rw [rightPower] at rightEncoding
  apply regular_of_encoding (CheckedEngine.add_signed scaled.bounded lhs rhs)
  · exact small
  · unfold Engine.add
    simp only [leftEncoding, rightEncoding]
    split <;> rfl

theorem negated_parts (bounded : Bounded engine) {cipher : Ciphertext}
    (signed : Signed engine cipher) :
    Fits 64 (-cipher.c0) ∧ Fits 64 (-cipher.c1) ∧ Signed engine (negated cipher) := by
  have c0Fits : Fits 64 (-cipher.c0) :=
    CheckedEngine.fits_of_modulus bounded (by rw [abs_neg]; exact signed.c0.le)
  have c1Fits : Fits 64 (-cipher.c1) :=
    CheckedEngine.fits_of_modulus bounded (by rw [abs_neg]; exact signed.c1.le)
  refine ⟨c0Fits, c1Fits, ?_, ?_⟩
  · simp only [negated, i64_fits c0Fits.1 c0Fits.2, abs_neg]
    exact signed.c0
  · simp only [negated, i64_fits c1Fits.1 c1Fits.2, abs_neg]
    exact signed.c1

theorem negated_regular (bounded : Bounded engine) {cipher : Ciphertext}
    (regular : Regular engine cipher) : Regular engine (negated cipher) :=
  ⟨(negated_parts bounded regular.signed).2.2, regular.level⟩

theorem add_plain_regular (scaled : Scaled engine) {cipher : Ciphertext}
    (regular : Regular engine cipher) (scalar : Rat) :
    Regular engine (engine.addPlain cipher scalar) := by
  have signed := CheckedEngine.add_plain_signed scaled.bounded scaled.scale_fits regular.signed
    scalar
  refine ⟨signed, ?_⟩
  unfold Engine.addPlain
  dsimp only
  split
  · exact (align_regular scaled regular (le_refl 1) (regular_level regular)).1.level
  · exact regular.level

theorem multiply_plain_internal_regular (bounded : Bounded engine) {cipher : Ciphertext}
    (regular : Regular engine cipher) (scalar : Int) :
    Regular engine (engine.multiplyPlainInternal cipher scalar 0) := by
  refine ⟨CheckedEngine.multiply_plain_internal_signed bounded cipher scalar 0, ?_⟩
  rcases regular.level with ⟨power, encoding⟩ | ⟨power, encoding⟩
  · exact Or.inl ⟨power, by simp [Engine.multiplyPlainInternal, encoding]⟩
  · exact Or.inr ⟨power, by simp [Engine.multiplyPlainInternal, encoding]⟩

end Engine

section Random

variable {ρ : Type} {draw : Int → Int → ρ → Int × ρ} {engine : Engine}

theorem encrypt_int_regular (bounded : Bounded engine) (draws : DrawsInRange draw) (value : Int)
    (rng : ρ) : Regular engine (engine.encryptInt draw value rng).1 :=
  ⟨CheckedEngine.encode_raw_signed bounded draws _ _ _ rng, Or.inl ⟨rfl, rfl⟩⟩

theorem encrypt_double_regular (bounded : Bounded engine) (draws : DrawsInRange draw)
    (value : Rat) (rng : ρ) : Regular engine (engine.encryptDouble draw value rng).1 :=
  ⟨CheckedEngine.encode_raw_signed bounded draws _ _ _ rng, Or.inr ⟨rfl, rfl⟩⟩

theorem multiply_regular (bounded : Bounded engine) (draws : DrawsInRange draw)
    {lhs rhs : Ciphertext} (left : Regular engine lhs) (right : Regular engine rhs) (rng : ρ) :
    Regular engine (engine.multiply draw lhs rhs rng).1 := by
  refine ⟨CheckedEngine.multiply_decoded_signed bounded draws _ _ _ _ _ rng, ?_⟩
  rcases left.level with ⟨leftPower, leftEncoding⟩ | ⟨leftPower, leftEncoding⟩ <;>
    rcases right.level with ⟨rightPower, rightEncoding⟩ | ⟨rightPower, rightEncoding⟩ <;>
    unfold Engine.multiply <;>
    simp only [leftPower, leftEncoding, rightPower, rightEncoding]
  · exact Or.inl ⟨rfl, rfl⟩
  · exact Or.inr ⟨rfl, rfl⟩
  · exact Or.inr ⟨rfl, rfl⟩
  · exact Or.inr ⟨rfl, rfl⟩

theorem multiply_plain_regular (bounded : Bounded engine) (draws : DrawsInRange draw)
    {cipher : Ciphertext} (regular : Regular engine cipher) (scalar : Rat) (rng : ρ) :
    Regular engine (engine.multiplyPlain draw cipher scalar rng).1 := by
  have small := regular_level regular
  unfold Engine.multiplyPlain
  split
  · exact multiply_plain_internal_regular bounded regular _
  · dsimp only
    split
    · refine ⟨CheckedEngine.multiply_decoded_signed bounded draws _ _ _ _ _ rng, Or.inr ⟨?_, rfl⟩⟩
      change cipher.scalePower = 1
      omega
    · refine ⟨CheckedEngine.multiply_decoded_signed bounded draws _ _ _ _ _ rng, Or.inr ⟨?_, rfl⟩⟩
      change cipher.scalePower + 1 = 1
      omega

end Random

theorem dispatch_table_entry {Ptr σ : Type*} (entries : List (FhnKernelEntry Ptr σ))
    {opcode : FhnOpCode} {fn : FhnKernelFn Ptr σ}
    (registered : dispatchTable entries opcode = some fn) :
    ∃ entry ∈ entries, entry.fn = some fn := by
  induction entries using List.reverseRecOn with
  | nil => cases registered
  | append_singleton earlier last induction =>
      unfold dispatchTable at registered induction
      rw [List.foldl_append] at registered
      simp only [List.foldl_cons, List.foldl_nil] at registered
      cases present : last.fn with
      | none =>
          rw [present] at registered
          obtain ⟨entry, member, same⟩ := induction registered
          exact ⟨entry, List.mem_append_left _ member, same⟩
      | some kernel =>
          rw [present] at registered
          dsimp only at registered
          by_cases here : opcode = last.opcode
          · rw [here, Function.update_self] at registered
            exact ⟨last, List.mem_append_right _ (List.mem_singleton.mpr rfl),
              present.trans registered⟩
          · rw [Function.update_of_ne here] at registered
            obtain ⟨entry, member, same⟩ := induction registered
            exact ⟨entry, List.mem_append_left _ member, same⟩

section Kernels

variable {Ptr : Type*} {ρ : Type} {draw : Int → Int → ρ → Int × ρ} {engine : Engine}

def RegularWorld (engine : Engine) (world : World Ptr ρ) : Prop :=
  ∀ buffer, ∀ cipher ∈ stored (world.heap buffer), Regular engine cipher

theorem scalar_regular {world : World Ptr ρ} (regular : RegularWorld engine world)
    (buffer : Ptr) : Regular engine (world.heap buffer).ct :=
  regular buffer _ List.mem_cons_self

theorem slots_regular {world : World Ptr ρ} (regular : RegularWorld engine world)
    (buffer : Ptr) : ∀ cipher ∈ (world.heap buffer).ctVec, Regular engine cipher :=
  fun cipher member => regular buffer cipher (List.mem_cons_of_mem _ member)

theorem empty_regular (bounded : Bounded engine) (rng : ρ) :
    RegularWorld engine (emptyWorld Ptr rng) := by
  intro buffer cipher member
  rw [List.mem_singleton.mp member]
  exact default_regular bounded

variable [DecidableEq Ptr]

theorem write_regular {world : World Ptr ρ} (regular : RegularWorld engine world)
    (result : Option Ptr) {update : FhnBuffer → FhnBuffer}
    (keeps : ∀ buffer, (∀ cipher ∈ stored buffer, Regular engine cipher) →
      ∀ cipher ∈ stored (update buffer), Regular engine cipher) (rng : ρ) :
    RegularWorld engine (write result update { world with rng := rng }).2 := by
  cases result with
  | none => exact regular
  | some out =>
      intro buffer
      by_cases same : buffer = out
      · rw [same]
        simp only [write, Function.update_self]
        exact keeps _ (regular out)
      · simp only [write, Function.update_of_ne same]
        exact regular buffer

theorem store_scalar_regular {ct : Ciphertext} (regular : Regular engine ct) (buffer : FhnBuffer)
    (kept : ∀ cipher ∈ stored buffer, Regular engine cipher) :
    ∀ cipher ∈ stored (storeScalar ct buffer), Regular engine cipher := by
  intro cipher member
  rcases List.mem_cons.mp member with same | slot
  · rw [same]
    exact regular
  · exact kept cipher (List.mem_cons_of_mem _ slot)

theorem store_vec_regular {slots : List Ciphertext}
    (regular : ∀ cipher ∈ slots, Regular engine cipher) (buffer : FhnBuffer)
    (kept : ∀ cipher ∈ stored buffer, Regular engine cipher) :
    ∀ cipher ∈ stored (storeVec slots buffer), Regular engine cipher := by
  intro cipher member
  rcases List.mem_cons.mp member with same | slot
  · rw [same]
    exact kept _ List.mem_cons_self
  · exact regular cipher slot

theorem get_regular (bounded : Bounded engine) {slots : List Ciphertext}
    (regular : ∀ cipher ∈ slots, Regular engine cipher) (index : Nat) :
    Regular engine (slots.getD index {}) := by
  rw [List.getD_eq_getElem?_getD]
  cases found : slots[index]? with
  | none => exact default_regular bounded
  | some cipher => exact regular cipher (List.mem_of_getElem? found)

/-- An operation that makes regular ciphertexts of regular ciphertexts. -/
def KeepsRegular (engine : Engine) (op : Ciphertext → Ciphertext → ρ → Ciphertext × ρ) : Prop :=
  ∀ lhs rhs rng, Regular engine lhs → Regular engine rhs → Regular engine (op lhs rhs rng).1

theorem slotwise_regular {op : Ciphertext → Ciphertext → ρ → Ciphertext × ρ}
    (keeps : KeepsRegular engine op) (first second : List Ciphertext) (rng : ρ)
    (left : ∀ cipher ∈ first, Regular engine cipher)
    (right : ∀ cipher ∈ second, Regular engine cipher) :
    ∀ cipher ∈ (slotwise op first second rng).1, Regular engine cipher := by
  induction first generalizing second rng with
  | nil =>
      intro cipher member
      exact absurd member List.not_mem_nil
  | cons head tail induction =>
      cases second with
      | nil =>
          intro cipher member
          exact absurd member List.not_mem_nil
      | cons other rest =>
          intro cipher member
          rcases List.mem_cons.mp member with same | slot
          · rw [same]
            exact keeps head other rng (left _ List.mem_cons_self) (right _ List.mem_cons_self)
          · exact induction rest _ (fun slot member => left slot (List.mem_cons_of_mem _ member))
              (fun slot member => right slot (List.mem_cons_of_mem _ member)) cipher slot

/-- A kernel after which every ciphertext is regular if every one was before. -/
def KernelRegular (Ptr : Type*) (engine : Engine) (fn : FhnKernelFn Ptr (World Ptr ρ)) : Prop :=
  ∀ result operands params fparams world, RegularWorld engine world →
    RegularWorld engine (fn result operands params fparams world).2

theorem binary_kernel_regular {op : Ciphertext → Ciphertext → ρ → Ciphertext × ρ}
    (keeps : KeepsRegular engine op) : KernelRegular Ptr engine (binaryKernel op) := by
  intro result operands params fparams world regular
  unfold binaryKernel
  split
  · rename_i a b _ _
    split
    · split
      · exact regular
      · unfold toyfheVecBinary
        dsimp only
        split
        · exact regular
        · apply write_regular regular
          exact store_vec_regular (slotwise_regular keeps _ _ world.rng (slots_regular regular a)
            (slots_regular regular b))
    · apply write_regular regular
      exact store_scalar_regular (keeps _ _ world.rng (scalar_regular regular a)
        (scalar_regular regular b))
  · exact regular

theorem add_cs_regular (scaled : Scaled engine) :
    KernelRegular (ρ := ρ) Ptr engine (toyfheAddCs engine) := by
  intro result operands params fparams world regular
  unfold toyfheAddCs
  split
  · exact regular
  · rename_i a _
    apply write_regular regular
    exact store_scalar_regular (add_plain_regular scaled (scalar_regular regular a) _)

theorem sub_cc_regular (scaled : Scaled engine) :
    KernelRegular (ρ := ρ) Ptr engine (toyfheSubCc engine) := by
  intro result operands params fparams world regular
  unfold toyfheSubCc
  split
  · rename_i a b _ _
    apply write_regular regular
    exact store_scalar_regular (add_regular scaled (scalar_regular regular a)
      (negated_regular scaled.bounded (scalar_regular regular b)))
  · exact regular

theorem negate_regular (bounded : Bounded engine) :
    KernelRegular (ρ := ρ) Ptr engine toyfheNegate := by
  intro result operands params fparams world regular
  unfold toyfheNegate
  split
  · exact regular
  · rename_i a _
    apply write_regular regular
    exact store_scalar_regular (negated_regular bounded (scalar_regular regular a))

theorem mult_cs_regular (bounded : Bounded engine) (draws : DrawsInRange draw) :
    KernelRegular Ptr engine (toyfheMultCs draw engine) := by
  intro result operands params fparams world regular
  unfold toyfheMultCs
  split
  · exact regular
  · rename_i a _
    apply write_regular regular
    exact store_scalar_regular
      (multiply_plain_regular bounded draws (scalar_regular regular a) _ world.rng)

theorem rotate_regular (bounded : Bounded engine) :
    KernelRegular (ρ := ρ) Ptr engine toyfheRotate := by
  intro result operands params fparams world regular
  unfold toyfheRotate
  split
  · exact regular
  · rename_i src _
    dsimp only
    split
    · exact regular
    · apply write_regular regular
      apply store_vec_regular
      intro cipher member
      obtain ⟨index, rfl⟩ := List.mem_ofFn.mp member
      exact get_regular bounded (slots_regular regular src) _

theorem hrot_add_regular (scaled : Scaled engine) :
    KernelRegular (ρ := ρ) Ptr engine (toyfheHrotAdd engine) := by
  intro result operands params fparams world regular
  unfold toyfheHrotAdd
  split
  · rename_i a b _ _
    dsimp only
    split
    · exact regular
    · apply write_regular regular
      apply store_vec_regular
      intro cipher member
      obtain ⟨index, rfl⟩ := List.mem_ofFn.mp member
      exact add_regular scaled (get_regular scaled.bounded (slots_regular regular a) _)
        (get_regular scaled.bounded (slots_regular regular b) _)
  · exact regular

theorem passthrough_regular : KernelRegular (ρ := ρ) Ptr engine toyfhePassthrough := by
  intro result operands params fparams world regular
  unfold toyfhePassthrough
  split
  · exact regular
  · rename_i src _
    dsimp only
    split
    · exact regular
    · split
      · exact regular
      · apply write_regular regular
        intro buffer _
        exact regular src

theorem add_slots_regular (scaled : Scaled engine) :
    KeepsRegular (ρ := ρ) engine (addSlots engine) :=
  fun _ _ _ left right => add_regular scaled left right

theorem multiply_slots_regular (bounded : Bounded engine) (draws : DrawsInRange draw) :
    KeepsRegular engine (engine.multiply draw) :=
  fun _ _ rng left right => multiply_regular bounded draws left right rng

theorem kernels_regular (scaled : Scaled engine) (draws : DrawsInRange draw)
    (entry : FhnKernelEntry Ptr (World Ptr ρ)) (member : entry ∈ toyfheKernels draw engine)
    (fn : FhnKernelFn Ptr (World Ptr ρ)) (registered : entry.fn = some fn) :
    KernelRegular Ptr engine fn := by
  have bounded := scaled.bounded
  simp only [toyfheKernels, List.mem_cons, List.not_mem_nil, or_false] at member
  rcases member with rfl | rfl | rfl | rfl | rfl | rfl | rfl | rfl | rfl | rfl | rfl <;>
    rw [Option.some.injEq] at registered <;> rw [← registered]
  · exact binary_kernel_regular (add_slots_regular scaled)
  · exact add_cs_regular scaled
  · exact sub_cc_regular scaled
  · exact negate_regular bounded
  · exact binary_kernel_regular (multiply_slots_regular bounded draws)
  · exact mult_cs_regular bounded draws
  · exact passthrough_regular
  · exact passthrough_regular
  · exact rotate_regular bounded
  · exact binary_kernel_regular (multiply_slots_regular bounded draws)
  · exact hrot_add_regular scaled

theorem assign_regular {world : World Ptr ρ} (regular : RegularWorld engine world) (out : Ptr)
    {drawn : Ciphertext × ρ} (fresh : Regular engine drawn.1) :
    RegularWorld engine (assign out drawn world) :=
  write_regular regular (some out) (store_scalar_regular fresh) drawn.2

theorem encrypt_slots_regular (bounded : Bounded engine) (draws : DrawsInRange draw)
    (values : List Int) (rng : ρ) :
    ∀ cipher ∈ (encryptSlots draw engine values rng).1, Regular engine cipher := by
  induction values generalizing rng with
  | nil =>
      intro cipher member
      exact absurd member List.not_mem_nil
  | cons value values induction =>
      intro cipher member
      rcases List.mem_cons.mp member with same | slot
      · rw [same]
        exact encrypt_int_regular bounded draws value rng
      · exact induction _ cipher slot

theorem perform_regular (scaled : Scaled engine) (draws : DrawsInRange draw) (step : Call Ptr)
    {world : World Ptr ρ} (regular : RegularWorld engine world) :
    RegularWorld engine (perform draw engine step world) := by
  have bounded := scaled.bounded
  cases step with
  | encryptInt out value =>
      exact assign_regular regular out (encrypt_int_regular bounded draws value world.rng)
  | encryptDouble out value =>
      exact assign_regular regular out (encrypt_double_regular bounded draws value world.rng)
  | encryptVec out values =>
      simp only [perform]
      split
      · exact regular
      · apply write_regular regular
        exact store_vec_regular (encrypt_slots_regular bounded draws values world.rng)
  | add out lhs rhs =>
      exact assign_regular regular out
        (add_regular scaled (scalar_regular regular lhs) (scalar_regular regular rhs))
  | multiply out lhs rhs =>
      exact assign_regular regular out (multiply_regular bounded draws
        (scalar_regular regular lhs) (scalar_regular regular rhs) world.rng)
  | addPlain out input scalar =>
      exact assign_regular regular out
        (add_plain_regular scaled (scalar_regular regular input) scalar)
  | multiplyPlain out input scalar =>
      exact assign_regular regular out
        (multiply_plain_regular bounded draws (scalar_regular regular input) scalar world.rng)
  | kernel opcode result operands params fparams =>
      simp only [perform, call]
      split
      · exact regular
      · rename_i fn registered
        obtain ⟨entry, member, same⟩ := dispatch_table_entry _ registered
        exact kernels_regular scaled draws entry member fn same result operands params fparams
          world regular

theorem perform_all_regular (scaled : Scaled engine) (draws : DrawsInRange draw)
    (calls : List (Call Ptr)) {world : World Ptr ρ} (regular : RegularWorld engine world) :
    RegularWorld engine (performAll draw engine calls world) := by
  unfold performAll
  induction calls generalizing world with
  | nil => exact regular
  | cons step rest induction => exact induction (perform_regular scaled draws step regular)

end Kernels

def alignRounds (cipher : Ciphertext) (targetScale : Nat) : Nat := targetScale - cipher.scalePower

def productDivisor (engine : Engine) (lhs rhs : Ciphertext) : Int :=
  if lhs.encoding = .fixedPoint ∨ rhs.encoding = .fixedPoint then
    (engine.rescaleDivisor (lhs.scalePower + rhs.scalePower) engine.delta).1
  else engine.delta

/-- `neg_b` in `toyfhe_sub_cc`, and the result of `toyfhe_negate`. -/
def checkedNegated (cipher : Ciphertext) : Option Ciphertext := do
  let c0 ← exact 64 (-cipher.c0)
  let c1 ← exact 64 (-cipher.c1)
  some { cipher with c0 := c0, c1 := c1 }

/-- A scalar whose encoding at a scale level is an `int64_t`. -/
def ScalarFits (engine : Engine) (scalar : Rat) (scalePower : Nat) : Prop :=
  Fits 64 (llround (scalar * engine.scaleFactor scalePower))

/-- The operations on two ciphertexts overflow nowhere. -/
structure Safe {ρ : Type} (draw : Int → Int → ρ → Int × ρ) (engine : Engine)
    (lhs rhs : Ciphertext) : Prop where
  rounds : alignRounds lhs (max lhs.scalePower rhs.scalePower) ≤ 1 ∧
    alignRounds rhs (max lhs.scalePower rhs.scalePower) ≤ 1 ∧ alignRounds lhs 1 ≤ 1
  divisor : 0 < productDivisor engine lhs rhs ∧
    productDivisor engine lhs rhs ≤ engine.delta * engine.params.scale ∧
      Fits 64 (engine.delta * engine.params.scale)
  looped : CheckedEngine.rescaleDivisor engine (lhs.scalePower + rhs.scalePower) engine.delta =
    some (engine.rescaleDivisor (lhs.scalePower + rhs.scalePower) engine.delta)
  product : ∀ factor, Fits 64 factor →
    Fits 128 (centeredMod (engine.decodeRaw lhs) engine.params.q * factor)
  sum : CheckedEngine.add engine lhs rhs = some (engine.add lhs rhs)
  negation : checkedNegated rhs = some (negated rhs)
  difference :
    CheckedEngine.add engine lhs (negated rhs) = some (engine.add lhs (negated rhs))
  multiplied : ∀ rng,
    CheckedEngine.multiply draw engine lhs rhs rng = some (engine.multiply draw lhs rhs rng)
  plainSum : ∀ scalar, ScalarFits engine scalar (CheckedEngine.addPlainPower engine lhs scalar) →
    CheckedEngine.addPlain engine lhs scalar = some (engine.addPlain lhs scalar)
  plainProduct : ∀ scalar,
    ScalarFits engine scalar (CheckedEngine.multiplyPlainPower engine scalar) →
      ∀ rng, CheckedEngine.multiplyPlain draw engine lhs scalar rng =
        some (engine.multiplyPlain draw lhs scalar rng)

section Safe

variable {ρ : Type} {draw : Int → Int → ρ → Int × ρ} {engine : Engine} {lhs rhs : Ciphertext}

theorem product_divisor_range (scaled : Scaled engine) (left : Regular engine lhs)
    (right : Regular engine rhs) :
    0 < productDivisor engine lhs rhs ∧
      productDivisor engine lhs rhs ≤ engine.delta * engine.params.scale := by
  have levels : lhs.scalePower + rhs.scalePower ≤ 2 := by
    have leftLevel := regular_level left
    have rightLevel := regular_level right
    omega
  have positive := (delta_mul scaled.bounded.admissible).2
  unfold productDivisor
  split
  · exact (CheckedEngine.rescale_divisor_defined scaled levels).2
  · exact ⟨positive, le_mul_of_one_le_right positive.le scaled.scale⟩

theorem negated_defined (bounded : Bounded engine) (signed : Signed engine rhs) :
    checkedNegated rhs = some (negated rhs) := by
  obtain ⟨first, second, -⟩ := negated_parts bounded signed
  unfold checkedNegated
  simp only [exact_of_fits first, exact_of_fits second, Option.bind_eq_bind, Option.bind_some,
    negated, i64_fits first.1 first.2, i64_fits second.1 second.2]

theorem regular_safe (scaled : Scaled engine) (draws : DrawsInRange draw)
    (left : Regular engine lhs) (right : Regular engine rhs) : Safe draw engine lhs rhs := by
  have bounded := scaled.bounded
  have scaleFits := scaled.scale_fits
  have leftLevel := regular_level left
  have rightLevel := regular_level right
  have levels : lhs.scalePower + rhs.scalePower ≤ 2 := by omega
  obtain ⟨divisorPositive, divisorSmall⟩ := product_divisor_range scaled left right
  have opposite := (negated_parts bounded right.signed).2.2
  constructor
  case rounds =>
    unfold alignRounds
    omega
  case divisor => exact ⟨divisorPositive, divisorSmall, scaled.divisor⟩
  case looped => exact (CheckedEngine.rescale_divisor_defined scaled levels).1
  case product =>
    intro factor fits
    exact CheckedEngine.wide_fits (CheckedEngine.decoded_product_small bounded lhs fits)
  case sum => exact CheckedEngine.add_defined bounded scaleFits left.signed right.signed
  case negation => exact negated_defined bounded right.signed
  case difference => exact CheckedEngine.add_defined bounded scaleFits left.signed opposite
  case multiplied =>
    exact fun rng =>
      CheckedEngine.multiply_defined scaled draws left.signed right.signed levels rng
  case plainSum =>
    exact fun scalar fits => CheckedEngine.add_plain_defined scaled left.signed fits
  case plainProduct =>
    exact fun scalar fits rng =>
      CheckedEngine.multiply_plain_defined scaled draws left.signed fits rng

end Safe

/-- `toyfhe_fhn_create`: default parameters and a fresh key. -/
def toyfheCreate {ρ : Type} (draw : Int → Int → ρ → Int × ρ) (rng : ρ) : Engine × ρ :=
  generateKeys draw {} rng

theorem created_scaled {ρ : Type} {draw : Int → Int → ρ → Int × ρ} (draws : DrawsInRange draw)
    (rng : ρ) : Scaled (toyfheCreate draw rng).1 := by
  have params : (toyfheCreate draw rng).1.params = {} := rfl
  have delta : (toyfheCreate draw rng).1.delta = 2 ^ 26 := rfl
  have top : i64 (({} : Parameters).t - 1) = 2 ^ 32 - 1 := by decide +kernel
  obtain ⟨lower, upper⟩ := draws 1 (i64 (({} : Parameters).t - 1)) rng (by rw [top]; decide)
  rw [top] at upper
  have secret : Fits 64 (toyfheCreate draw rng).1.secretKey := by
    unfold toyfheCreate generateKeys
    rw [top] at *
    constructor <;> norm_num at lower upper ⊢ <;> omega
  refine ⟨⟨?_, secret, ?_⟩, ?_, ?_⟩
  · constructor <;> rw [params] <;> decide
  · rw [params]
    decide
  · rw [params]
    decide
  · rw [delta, params]
    decide

/-- After any calls, every ciphertext is regular, so nothing that the engine or a
kernel does with it overflows; encrypting never does. -/
theorem reachable_ciphertexts_regular {Ptr : Type*} {ρ : Type} [DecidableEq Ptr]
    (draw : Int → Int → ρ → Int × ρ) (draws : DrawsInRange draw) (seed : ρ)
    (calls : List (Call Ptr)) :
    let created := toyfheCreate draw seed
    let world := performAll draw created.1 calls (emptyWorld Ptr created.2)
    (∀ buffer, ∀ cipher ∈ stored (world.heap buffer), Regular created.1 cipher) ∧
      (∀ first second, ∀ lhs ∈ stored (world.heap first), ∀ rhs ∈ stored (world.heap second),
        Safe draw created.1 lhs rhs) ∧
      ∀ message, Fits 64 message → ∀ encoding scalePower rng,
        CheckedEngine.encryptEncoded draw created.1 message encoding scalePower rng =
          some (created.1.encryptEncoded draw message encoding scalePower rng) := by
  intro created world
  have scaled : Scaled created.1 := created_scaled draws seed
  have regular : RegularWorld created.1 world :=
    perform_all_regular scaled draws calls (empty_regular scaled.bounded created.2)
  refine ⟨regular, ?_, ?_⟩
  · intro first second lhs left rhs right
    exact regular_safe scaled draws (regular first lhs left) (regular second rhs right)
  · intro message fits encoding scalePower rng
    exact CheckedEngine.encrypt_encoded_defined scaled.bounded draws fits encoding scalePower rng

/-- An integer raised to a fixed-point operand's level, then a difference, its negation
and a product. -/
def mixedCalls : List (Call Nat) :=
  [.encryptInt 1 (-7), .encryptDouble 2 (5 / 2), .add 3 1 2,
    .kernel .subCC (some 4) ![some 1, some 3, none, none] ![0, 0, 0, 0] ![0, 0],
    .kernel .negate (some 4) ![some 4, none, none, none] ![0, 0, 0, 0] ![0, 0],
    .multiply 5 4 3, .addPlain 5 5 (1 / 3)]

theorem mixed_calls_regular :
    DrawsInRange topDraw ∧ Regular (toyfheCreate topDraw ()).1
      ((performAll topDraw (toyfheCreate topDraw ()).1 mixedCalls
        (emptyWorld Nat (toyfheCreate topDraw ()).2)).heap 5).ct := by
  have draws : DrawsInRange topDraw := fun low high _ order => ⟨order, le_refl high⟩
  exact ⟨draws, (reachable_ciphertexts_regular topDraw draws () mixedCalls).1 5 _
    List.mem_cons_self⟩

end Fhenomenon.ReachableCiphertexts

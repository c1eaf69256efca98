import Fhenomenon.SlotOperations

/-!
# What a ToyFHE kernel computes

A buffer holds one ciphertext or a vector of them, its slots, and each slot encodes an
integer or a fixed-point number. A kernel keeps its contract when it refuses, or computes
its opcode on these numbers slot by slot, on operands that hold ciphertexts of one kind
and slot count. Reading through a missing operand is neither.
-/

namespace Fhenomenon.SlotKernels

open Fhenomenon.InstructionStream Fhenomenon.DefaultExecutor Fhenomenon.DeviceAbi
open Fhenomenon.ToyFhe Fhenomenon.ToyFheNoise Fhenomenon.ToyFheKernels Fhenomenon.SlotOperations

def slots (buffer : FhnBuffer) : List Ciphertext :=
  match buffer.kind with
  | .ciphertext => [buffer.ct]
  | .ciphertextVec => buffer.ctVec
  | _ => []

def HoldsCiphertext (buffer : FhnBuffer) : Prop :=
  buffer.kind = .ciphertext ∨ buffer.kind = .ciphertextVec

instance (buffer : FhnBuffer) : Decidable (HoldsCiphertext buffer) :=
  inferInstanceAs (Decidable (_ ∨ _))

/-- The slot of the first operand behind slot `index` of the result. -/
def sourceSlot (opcode : FhnOpCode) (params : Fin 4 → Int) (count index : Nat) : Nat :=
  match opcode with
  | .rotate | .hrotAdd => ((index + params 0) % count).toNat
  | _ => index

/-- Ciphertexts in the slots that slot `index` of the result depends on. -/
structure SlotsAt (opcode : FhnOpCode) (params : Fin 4 → Int) (first : FhnBuffer)
    (second : Option FhnBuffer) (result : FhnBuffer) (index : Nat) (lhs rhs out : Ciphertext) :
    Prop where
  left : (slots first)[sourceSlot opcode params (slots first).length index]? = some lhs
  right : ∀ buffer, second = some buffer → (slots buffer)[index]? = some rhs
  result : (slots result)[index]? = some out

section Contracts

variable {Ptr ρ : Type*} (draw : Int → Int → ρ → Int × ρ) (engine : Engine)

/-- The result of a kernel that succeeds, against the operands before the call. -/
structure Slotwise (opcode : FhnOpCode) (params : Fin 4 → Int) (fparams : Fin 2 → Rat)
    (first : FhnBuffer) (second : Option FhnBuffer) (result : FhnBuffer) : Prop where
  holds : HoldsCiphertext first
  alike : ∀ buffer, second = some buffer →
    buffer.kind = first.kind ∧ (slots buffer).length = (slots first).length
  kind : result.kind = first.kind
  count : (slots result).length = (slots first).length
  decrypts : ∀ index lhs rhs out, SlotsAt opcode params first second result index lhs rhs out →
    DecryptsTo engine opcode (fparams 0) lhs rhs out

def secondOperand (opcode : FhnOpCode) (operands : Fin 4 → Option Ptr) : Option Ptr :=
  if 1 ∈ readSlots opcode then operands 1 else none

/-- The kernel refuses, or computes slot by slot; it never follows a null pointer. -/
def ComputesOrRefuses (opcode : FhnOpCode) (fn : FhnKernelFn Ptr (World Ptr ρ)) (result : Ptr)
    (operands : Fin 4 → Option Ptr) (params : Fin 4 → Int) (fparams : Fin 2 → Rat)
    (world : World Ptr ρ) : Prop :=
  let outcome := fn (some result) operands params fparams world
  outcome.2.faulted = world.faulted ∧
    (outcome.1 = 0 →
      (∀ slot ∈ readSlots opcode, (operands slot).isSome) ∧
        ∃ first, operands 0 = some first ∧
          Slotwise engine opcode params fparams (world.heap first)
            ((secondOperand opcode operands).map world.heap) (outcome.2.heap result))

/-- The operand kinds that the kernel of an opcode handles. -/
def OperandsHandled (opcode : FhnOpCode) (operands : Fin 4 → Option Ptr) (world : World Ptr ρ) :
    Prop :=
  let kind := fun slot => (operands slot).map fun buffer => (world.heap buffer).kind
  match opcode with
  | .addCC | .multCC | .hmult =>
      kind 0 = none ∨ kind 1 = none ∨ kind 0 = some .ciphertextVec ∨
        kind 1 = some .ciphertextVec ∨ (kind 0 = some .ciphertext ∧ kind 1 = some .ciphertext)
  | .subCC => kind 0 = some .ciphertext ∧ kind 1 = some .ciphertext
  | .addCS | .negate | .multCS => kind 0 = some .ciphertext
  | _ => True

/-- The engine computes the opcode on every slot of the first operand. -/
def SlotsComputed (opcode : FhnOpCode) (fparams : Fin 2 → Rat) (first : FhnBuffer) : Prop :=
  ∀ lhs ∈ slots first, ∀ rhs rng,
    DecryptsTo engine opcode (fparams 0) lhs rhs (slotCipher draw engine opcode fparams lhs rhs rng)

end Contracts

section Slotwise

variable {ρ : Type*} {draw : Int → Int → ρ → Int × ρ} {engine : Engine}

theorem slotwise_of_computed {opcode : FhnOpCode} {params : Fin 4 → Int} {fparams : Fin 2 → Rat}
    {first : FhnBuffer} {second : Option FhnBuffer} {result : FhnBuffer}
    (decrypts : SlotsComputed draw engine opcode fparams first) (holds : HoldsCiphertext first)
    (alike : ∀ buffer, second = some buffer →
      buffer.kind = first.kind ∧ (slots buffer).length = (slots first).length)
    (kind : result.kind = first.kind) (count : (slots result).length = (slots first).length)
    (computed : ∀ index lhs rhs out,
      SlotsAt opcode params first second result index lhs rhs out →
        ∃ rng, out = slotCipher draw engine opcode fparams lhs rhs rng) :
    Slotwise engine opcode params fparams first second result where
  holds := holds
  alike := alike
  kind := kind
  count := count
  decrypts := by
    intro index lhs rhs out placed
    obtain ⟨rng, same⟩ := computed index lhs rhs out placed
    rw [same]
    exact decrypts lhs (List.mem_of_getElem? placed.left) rhs rng

theorem scalar_slotwise {opcode : FhnOpCode} (params : Fin 4 → Int) {fparams : Fin 2 → Rat}
    {first : FhnBuffer} {second : Option FhnBuffer}
    (decrypts : SlotsComputed draw engine opcode fparams first) {ct : Ciphertext} {rng : ρ}
    (old : FhnBuffer)
    (still : sourceSlot opcode params 1 0 = 0) (scalar : first.kind = .ciphertext)
    (alike : ∀ buffer, second = some buffer → buffer.kind = .ciphertext)
    (computed : ∀ rhs, (∀ buffer, second = some buffer → buffer.ct = rhs) →
      ct = slotCipher draw engine opcode fparams first.ct rhs rng) :
    Slotwise engine opcode params fparams first second (storeScalar ct old) := by
  have firstSlots : slots first = [first.ct] := by simp only [slots, scalar]
  apply slotwise_of_computed decrypts (Or.inl scalar)
  · intro buffer present
    have kind := alike buffer present
    exact ⟨kind.trans scalar.symm, by simp only [slots, kind, scalar, List.length_singleton]⟩
  · exact scalar.symm
  · simp only [slots, storeScalar, scalar, List.length_singleton]
  · intro index lhs rhs out placed
    have result : [ct][index]? = some out := placed.result
    have zero : index = 0 := by
      have bound := (List.getElem?_eq_some_iff.mp result).1
      rw [List.length_singleton] at bound
      omega
    rw [zero, List.getElem?_cons_zero, Option.some.injEq] at result
    have left := placed.left
    rw [firstSlots, List.length_singleton, zero, still, List.getElem?_cons_zero,
      Option.some.injEq] at left
    rw [← left, ← result]
    refine ⟨rng, computed rhs ?_⟩
    intro buffer present
    have right := placed.right buffer present
    simp only [slots, alike buffer present, zero, List.getElem?_cons_zero,
      Option.some.injEq] at right
    exact right

theorem vector_slotwise {opcode : FhnOpCode} {params : Fin 4 → Int} {fparams : Fin 2 → Rat}
    {first : FhnBuffer} {second : Option FhnBuffer}
    (decrypts : SlotsComputed draw engine opcode fparams first) {computed : List Ciphertext}
    (old : FhnBuffer)
    (vector : first.kind = .ciphertextVec)
    (alike : ∀ buffer, second = some buffer →
      buffer.kind = .ciphertextVec ∧ buffer.ctVec.length = first.ctVec.length)
    (count : computed.length = first.ctVec.length)
    (slotwise : ∀ index lhs rhs out,
      first.ctVec[sourceSlot opcode params first.ctVec.length index]? = some lhs →
        (∀ buffer, second = some buffer → buffer.ctVec[index]? = some rhs) →
          computed[index]? = some out →
            ∃ rng, out = slotCipher draw engine opcode fparams lhs rhs rng) :
    Slotwise engine opcode params fparams first second (storeVec computed old) := by
  have firstSlots : slots first = first.ctVec := by simp only [slots, vector]
  apply slotwise_of_computed decrypts (Or.inr vector)
  · intro buffer present
    obtain ⟨kind, length⟩ := alike buffer present
    exact ⟨kind.trans vector.symm, by simp only [slots, kind, vector, length]⟩
  · exact vector.symm
  · rw [firstSlots]
    exact count
  · intro index lhs rhs out placed
    have left := placed.left
    rw [firstSlots] at left
    apply slotwise index lhs rhs out left
    · intro buffer present
      have right := placed.right buffer present
      simp only [slots, (alike buffer present).1] at right
      exact right
    · exact placed.result

end Slotwise

section Vectors

variable {ρ : Type*} (op : Ciphertext → Ciphertext → ρ → Ciphertext × ρ)

theorem slotwise_length (first second : List Ciphertext) (rng : ρ)
    (same : first.length = second.length) :
    (slotwise op first second rng).1.length = first.length := by
  induction first generalizing second rng with
  | nil => simp [slotwise]
  | cons lhs restA induction =>
      cases second with
      | nil => simp at same
      | cons rhs restB =>
          have shorter : restA.length = restB.length := by simpa using same
          simp only [slotwise, List.length_cons, induction restB _ shorter]

/-- Each slot is computed from its own two operands, whatever was drawn before. -/
theorem slotwise_get (first second : List Ciphertext) (rng : ρ) (index : Nat)
    {lhs rhs out : Ciphertext} (left : first[index]? = some lhs)
    (right : second[index]? = some rhs)
    (result : (slotwise op first second rng).1[index]? = some out) :
    ∃ before, out = (op lhs rhs before).1 := by
  induction first generalizing second rng index with
  | nil => simp at left
  | cons head restA induction =>
      cases second with
      | nil => simp at right
      | cons other restB =>
          simp only [slotwise] at result
          cases index with
          | zero =>
              simp only [List.getElem?_cons_zero, Option.some.injEq] at left right result
              exact ⟨rng, by rw [← result, ← left, ← right]⟩
          | succ index =>
              simp only [List.getElem?_cons_succ] at left right result
              exact induction restB _ index left right result

end Vectors

theorem norm_rot_spec (d : Int) {count : Nat} (positive : 0 < count) :
    toyfheNormRot d count = (d % count).toNat := by
  have cast : (0 : Int) < count := by exact_mod_cast positive
  rw [toyfheNormRot, folded_residue d cast]

theorem rotated_source (d : Int) {count : Nat} (positive : 0 < count) (index : Nat) :
    (index + toyfheNormRot d count) % count = ((index + d) % count).toNat := by
  have cast : (0 : Int) < count := by exact_mod_cast positive
  have residue : 0 ≤ d % count := Int.emod_nonneg d cast.ne'
  rw [norm_rot_spec d positive]
  zify
  rw [Int.toNat_of_nonneg residue, Int.toNat_of_nonneg (Int.emod_nonneg _ cast.ne'),
    Int.add_emod_emod]

theorem rotated_get {source : List Ciphertext} {d : Nat} {index : Nat} {lhs out : Ciphertext}
    (left : source[(index + d) % source.length]? = some lhs)
    (result : (rotated source d)[index]? = some out) : out = lhs := by
  have bound : index < source.length := by
    have within := (List.getElem?_eq_some_iff.mp result).1
    rwa [rotated, List.length_ofFn] at within
  rw [rotated, List.getElem?_ofFn, dif_pos bound, Option.some.injEq] at result
  rw [← result, List.getD_eq_getElem?_getD, left, Option.getD_some]

theorem rotate_add_get {engine : Engine} {first second : List Ciphertext} {d : Nat} {index : Nat}
    {lhs rhs out : Ciphertext} (left : first[(index + d) % first.length]? = some lhs)
    (right : second[index]? = some rhs)
    (result : (rotateAdd engine first second d)[index]? = some out) :
    out = engine.add lhs rhs := by
  have bound : index < first.length := by
    have within := (List.getElem?_eq_some_iff.mp result).1
    rwa [rotateAdd, List.length_ofFn] at within
  rw [rotateAdd, List.getElem?_ofFn, dif_pos bound, Option.some.injEq] at result
  rw [← result, List.getD_eq_getElem?_getD, left, Option.getD_some, List.getD_eq_getElem?_getD,
    right, Option.getD_some]

section Kernels

variable {Ptr ρ : Type*} {draw : Int → Int → ρ → Int × ρ} {engine : Engine}
  {opcode : FhnOpCode} {fn : FhnKernelFn Ptr (World Ptr ρ)} {result : Ptr}
  {operands : Fin 4 → Option Ptr} {params : Fin 4 → Int} {fparams : Fin 2 → Rat}
  {world : World Ptr ρ}

theorem refuses (refused : fn (some result) operands params fparams world = (-1, world)) :
    ComputesOrRefuses engine opcode fn result operands params fparams world := by
  rw [ComputesOrRefuses, refused]
  refine ⟨rfl, fun success => ?_⟩
  have negative : (-1 : Int) = 0 := success
  omega

theorem second_operand_some (binary : 1 ∈ readSlots opcode) {b : Ptr}
    (right : operands 1 = some b) :
    (secondOperand opcode operands).map world.heap = some (world.heap b) := by
  rw [secondOperand, if_pos binary, right, Option.map_some]

theorem second_operand_none (unary : 1 ∉ readSlots opcode) :
    (secondOperand opcode operands).map world.heap = none := by
  rw [secondOperand, if_neg unary, Option.map_none]

theorem kinds_of_success
    (contract : ComputesOrRefuses engine opcode fn result operands params fparams world)
    (success : (fn (some result) operands params fparams world).1 = 0) {first : Ptr}
    (left : operands 0 = some first) :
    HoldsCiphertext (world.heap first) ∧
      ((fn (some result) operands params fparams world).2.heap result).kind =
        (world.heap first).kind ∧
      ∀ second, secondOperand opcode operands = some second →
        (world.heap second).kind = (world.heap first).kind := by
  obtain ⟨-, computed⟩ := contract
  obtain ⟨-, buffer, same, slotwise⟩ := computed success
  rw [left, Option.some.injEq] at same
  rw [same]
  refine ⟨slotwise.holds, slotwise.kind, ?_⟩
  intro second read
  apply (slotwise.alike (world.heap second) _).1
  rw [read, Option.map_some]

variable [DecidableEq Ptr]

theorem computes {update : FhnBuffer → FhnBuffer} {next : World Ptr ρ} {first : Ptr}
    (wrote : fn (some result) operands params fparams world = write (some result) update next)
    (heap : next.heap = world.heap) (faulted : next.faulted = world.faulted)
    (present : ∀ slot ∈ readSlots opcode, (operands slot).isSome)
    (left : operands 0 = some first)
    (slotwise : Slotwise engine opcode params fparams (world.heap first)
      ((secondOperand opcode operands).map world.heap) (update (world.heap result))) :
    ComputesOrRefuses engine opcode fn result operands params fparams world := by
  rw [ComputesOrRefuses, wrote]
  refine ⟨faulted, fun _ => ⟨present, first, left, ?_⟩⟩
  simp only [write, Function.update_self, heap]
  exact slotwise

theorem binary_vectors {op : Ciphertext → Ciphertext → ρ → Ciphertext × ρ}
    (decrypts : ∀ a, operands 0 = some a →
      SlotsComputed draw engine opcode fparams (world.heap a))
    (slots : readSlots opcode = [0, 1]) (still : ∀ count, sourceSlot opcode params count = id)
    (computed : ∀ lhs rhs rng, (op lhs rhs rng).1 =
      slotCipher draw engine opcode fparams lhs rhs rng) {a b : Ptr}
    (left : operands 0 = some a) (right : operands 1 = some b)
    (leftVec : (world.heap a).kind = .ciphertextVec)
    (rightVec : (world.heap b).kind = .ciphertextVec) :
    ComputesOrRefuses engine opcode (binaryKernel op) result operands params fparams
      world := by
  have binary : 1 ∈ readSlots opcode := by
    rw [slots]
    decide
  by_cases fits : (world.heap a).ctVec = [] ∨
    (world.heap a).ctVec.length ≠ (world.heap b).ctVec.length
  · apply refuses
    simp only [binaryKernel, left, right, toyfheIsVec, leftVec, rightVec, toyfheVecBinary,
      if_pos fits]
    simp
  · have wrote : binaryKernel op (some result) operands params fparams world =
        write (some result)
          (storeVec (slotwise op (world.heap a).ctVec (world.heap b).ctVec world.rng).1)
          { world with
            rng := (slotwise op (world.heap a).ctVec (world.heap b).ctVec world.rng).2 } := by
      simp only [binaryKernel, left, right, toyfheIsVec, leftVec, rightVec, toyfheVecBinary,
        if_neg fits]
      simp
    push Not at fits
    apply computes wrote rfl rfl _ left
    · rw [second_operand_some binary right]
      apply vector_slotwise (decrypts _ left) _ leftVec
      · intro buffer same
        rw [Option.some.injEq] at same
        rw [← same]
        exact ⟨rightVec, fits.2.symm⟩
      · exact slotwise_length op _ _ _ fits.2
      · intro index lhs rhs out first second stored
        rw [still] at first
        obtain ⟨before, same⟩ := slotwise_get op _ _ _ index first (second _ rfl) stored
        exact ⟨before, same.trans (computed lhs rhs before)⟩
    · rw [slots]
      simp [left, right]

theorem binary_scalars {op : Ciphertext → Ciphertext → ρ → Ciphertext × ρ}
    (decrypts : ∀ a, operands 0 = some a →
      SlotsComputed draw engine opcode fparams (world.heap a))
    (slots : readSlots opcode = [0, 1]) (still : ∀ count, sourceSlot opcode params count = id)
    (computed : ∀ lhs rhs rng, (op lhs rhs rng).1 =
      slotCipher draw engine opcode fparams lhs rhs rng) {a b : Ptr}
    (left : operands 0 = some a) (right : operands 1 = some b)
    (leftVec : (world.heap a).kind ≠ .ciphertextVec)
    (rightVec : (world.heap b).kind ≠ .ciphertextVec) :
    ComputesOrRefuses engine opcode (binaryKernel op) result operands params fparams world ↔
      (world.heap a).kind = .ciphertext ∧ (world.heap b).kind = .ciphertext := by
  have binary : 1 ∈ readSlots opcode := by
    rw [slots]
    decide
  have wrote : binaryKernel op (some result) operands params fparams world =
      write (some result) (storeScalar (op (world.heap a).ct (world.heap b).ct world.rng).1)
        { world with rng := (op (world.heap a).ct (world.heap b).ct world.rng).2 } := by
    simp [binaryKernel, left, right, toyfheIsVec, leftVec, rightVec]
  constructor
  · intro contract
    have success : (binaryKernel op (some result) operands params fparams world).1 = 0 := by
      rw [wrote]
      rfl
    obtain ⟨holds, -, alike⟩ := kinds_of_success contract success left
    have scalar := holds.resolve_right leftVec
    have same := alike b (by rw [secondOperand, if_pos binary, right])
    exact ⟨scalar, same.trans scalar⟩
  · intro handled
    apply computes wrote rfl rfl _ left
    · rw [second_operand_some binary right]
      apply scalar_slotwise params (decrypts _ left) _ _ handled.1
      · intro buffer same
        rw [Option.some.injEq] at same
        rw [← same]
        exact handled.2
      · intro rhs read
        rw [← read _ rfl]
        exact computed _ _ world.rng
      · rw [still]
        rfl
    · rw [slots]
      simp [left, right]

/-- The kernels that guard against mixed vectors and missing operands only. -/
theorem binary_contract {op : Ciphertext → Ciphertext → ρ → Ciphertext × ρ}
    (decrypts : ∀ a, operands 0 = some a →
      SlotsComputed draw engine opcode fparams (world.heap a))
    (slots : readSlots opcode = [0, 1]) (still : ∀ count, sourceSlot opcode params count = id)
    (computed : ∀ lhs rhs rng, (op lhs rhs rng).1 =
      slotCipher draw engine opcode fparams lhs rhs rng)
    (cases : OperandsHandled opcode operands world ↔ OperandsHandled .addCC operands world) :
    ComputesOrRefuses engine opcode (binaryKernel op) result operands params fparams world ↔
      OperandsHandled opcode operands world := by
  rw [cases]
  cases left : operands 0 with
  | none =>
      apply iff_of_true (refuses _)
      · simp [OperandsHandled, left]
      · simp only [binaryKernel, left]
  | some a =>
      cases right : operands 1 with
      | none =>
          apply iff_of_true (refuses _)
          · simp [OperandsHandled, right]
          · simp only [binaryKernel, left, right]
      | some b =>
          by_cases leftVec : (world.heap a).kind = .ciphertextVec
          · apply iff_of_true
            · by_cases rightVec : (world.heap b).kind = .ciphertextVec
              · exact binary_vectors decrypts slots still computed left right
                  leftVec rightVec
              · apply refuses
                simp [binaryKernel, left, right, toyfheIsVec, leftVec, rightVec]
            · simp [OperandsHandled, left, leftVec]
          · by_cases rightVec : (world.heap b).kind = .ciphertextVec
            · apply iff_of_true (refuses _)
              · simp [OperandsHandled, right, rightVec]
              · simp [binaryKernel, left, right, toyfheIsVec, leftVec, rightVec]
            · rw [binary_scalars decrypts slots still computed left right leftVec
                rightVec]
              simp [OperandsHandled, left, right, leftVec, rightVec]

/-- The kernels that read the scalar field of their one operand unconditionally. -/
structure ReadsScalarField (draw : Int → Int → ρ → Int × ρ) (engine : Engine)
    (opcode : FhnOpCode) (fn : FhnKernelFn Ptr (World Ptr ρ)) (result : Ptr)
    (operands : Fin 4 → Option Ptr) (params : Fin 4 → Int) (fparams : Fin 2 → Rat)
    (world : World Ptr ρ) : Prop where
  reads : readSlots opcode = [0]
  still : ∀ count, sourceSlot opcode params count = id
  handled : OperandsHandled opcode operands world ↔ OperandsHandled .negate operands world
  missing : operands 0 = none → fn (some result) operands params fparams world = fault world
  wrote : ∀ a, operands 0 = some a → ∃ rng next,
    fn (some result) operands params fparams world =
        write (some result)
          (storeScalar (slotCipher draw engine opcode fparams (world.heap a).ct {} rng)) next ∧
      next.heap = world.heap ∧ next.faulted = world.faulted
  unary : ∀ lhs rhs rng, slotCipher draw engine opcode fparams lhs rhs rng =
    slotCipher draw engine opcode fparams lhs {} rng

section Unary

variable (kernel : ReadsScalarField draw engine opcode fn result operands params fparams world)

include kernel

theorem unary_single : 1 ∉ readSlots opcode := by
  rw [kernel.reads]
  decide

theorem unary_handled (running : world.faulted = false)
    (contract : ComputesOrRefuses engine opcode fn result operands params fparams world) :
    OperandsHandled opcode operands world := by
  rw [kernel.handled]
  cases left : operands 0 with
  | none =>
      have faulted := contract.1
      rw [kernel.missing left, running] at faulted
      exact absurd faulted (by simp [fault])
  | some a =>
      obtain ⟨rng, next, stored, -, -⟩ := kernel.wrote a left
      have success : (fn (some result) operands params fparams world).1 = 0 := by
        rw [stored]
        rfl
      obtain ⟨-, kind, -⟩ := kinds_of_success contract success left
      have scalar : (world.heap a).kind = .ciphertext := by
        rw [← kind, stored]
        simp only [write, Function.update_self, storeScalar]
      simp [OperandsHandled, left, scalar]

theorem unary_computes
    (decrypts : ∀ a, operands 0 = some a →
      SlotsComputed draw engine opcode fparams (world.heap a))
    (handled : OperandsHandled opcode operands world) :
    ComputesOrRefuses engine opcode fn result operands params fparams world := by
  rw [kernel.handled] at handled
  cases left : operands 0 with
  | none => simp [OperandsHandled, left] at handled
  | some a =>
      have scalar : (world.heap a).kind = .ciphertext := by
        simpa [OperandsHandled, left] using handled
      obtain ⟨rng, next, stored, heap, faulted⟩ := kernel.wrote a left
      apply computes stored heap faulted _ left
      · rw [second_operand_none (unary_single kernel)]
        apply scalar_slotwise params (decrypts _ left) _ _ scalar
        · intro buffer impossible
          cases impossible
        · intro rhs _
          exact (kernel.unary _ rhs rng).symm
        · rw [kernel.still]
          rfl
      · rw [kernel.reads]
        simp [left]

theorem unary_decrypts
    (contract : ComputesOrRefuses engine opcode fn result operands params fparams world) {a : Ptr}
    (left : operands 0 = some a) (scalar : (world.heap a).kind = .ciphertext) :
    ∃ rng, DecryptsTo engine opcode (fparams 0) (world.heap a).ct {}
      (slotCipher draw engine opcode fparams (world.heap a).ct {} rng) := by
  obtain ⟨rng, next, stored, -, -⟩ := kernel.wrote a left
  obtain ⟨-, computed⟩ := contract
  have success : (fn (some result) operands params fparams world).1 = 0 := by
    rw [stored]
    rfl
  obtain ⟨-, first, same, slotwise⟩ := computed success
  rw [left, Option.some.injEq] at same
  rw [← same, stored, second_operand_none (unary_single kernel)] at slotwise
  refine ⟨rng, slotwise.decrypts 0 _ _ _ ⟨?_, ?_, ?_⟩⟩
  · rw [kernel.still]
    simp [slots, scalar]
  · intro buffer impossible
    cases impossible
  · simp [slots, write, storeScalar]

end Unary

theorem sub_contract (running : world.faulted = false)
    (decrypts : ∀ a, operands 0 = some a →
      SlotsComputed draw engine .subCC fparams (world.heap a)) :
    ComputesOrRefuses engine .subCC (toyfheSubCc engine) result operands params fparams
      world ↔ OperandsHandled .subCC operands world := by
  have missing : (operands 0 = none ∨ operands 1 = none) →
      ¬ ComputesOrRefuses engine .subCC (toyfheSubCc engine) result operands params fparams
        world := by
    intro absent contract
    have stuck : toyfheSubCc engine (some result) operands params fparams world = fault world := by
      cases left : operands 0 <;> cases right : operands 1 <;>
        simp_all [toyfheSubCc]
    have faulted := contract.1
    rw [stuck, running] at faulted
    exact absurd faulted (by simp [fault])
  cases left : operands 0 with
  | none => exact iff_of_false (missing (Or.inl left)) (by simp [OperandsHandled, left])
  | some a =>
      cases right : operands 1 with
      | none => exact iff_of_false (missing (Or.inr right)) (by simp [OperandsHandled, right])
      | some b =>
          have wrote : toyfheSubCc engine (some result) operands params fparams world =
              write (some result) (storeScalar
                (engine.add (world.heap a).ct (negated (world.heap b).ct))) world := by
            simp only [toyfheSubCc, left, right]
          have bothScalar : OperandsHandled .subCC operands world ↔
              (world.heap a).kind = .ciphertext ∧ (world.heap b).kind = .ciphertext := by
            simp [OperandsHandled, left, right]
          rw [bothScalar]
          constructor
          · intro contract
            have success :
                (toyfheSubCc engine (some result) operands params fparams world).1 = 0 := by
              rw [wrote]
              rfl
            obtain ⟨-, kind, alike⟩ := kinds_of_success contract success left
            have scalar : (world.heap a).kind = .ciphertext := by
              rw [← kind, wrote]
              simp only [write, Function.update_self, storeScalar]
            have same := alike b (by rw [secondOperand, if_pos (by decide), right])
            exact ⟨scalar, same.trans scalar⟩
          · intro scalars
            apply computes wrote rfl rfl _ left
            · rw [second_operand_some (by decide) right]
              apply scalar_slotwise params (decrypts _ left) _ rfl scalars.1
              · intro buffer same
                rw [Option.some.injEq] at same
                rw [← same]
                exact scalars.2
              · intro rhs read
                rw [← read _ rfl]
                exact (rfl : _ = slotCipher draw engine .subCC fparams _ _ world.rng)
            · simp [readSlots, left, right]

theorem rotate_contract
    (decrypts : ∀ a, operands 0 = some a →
      SlotsComputed draw engine .rotate fparams (world.heap a)) :
    ComputesOrRefuses engine .rotate toyfheRotate result operands params fparams world := by
  cases left : operands 0 with
  | none => exact refuses (by simp only [toyfheRotate, left])
  | some src =>
      by_cases guard : !toyfheIsVec world (some src) ∨ (world.heap src).ctVec = []
      · apply refuses
        simp only [toyfheRotate, left, if_pos guard]
      · have wrote : toyfheRotate (some result) operands params fparams world =
            write (some result) (storeVec (rotated (world.heap src).ctVec
              (toyfheNormRot (params 0) (world.heap src).ctVec.length))) world := by
          simp only [toyfheRotate, left, if_neg guard]
        simp only [toyfheIsVec, Bool.not_eq_true', decide_eq_false_iff_not, not_or, not_not]
          at guard
        obtain ⟨vector, filled⟩ := guard
        have positive : 0 < (world.heap src).ctVec.length := List.length_pos_of_ne_nil filled
        apply computes wrote rfl rfl _ left
        · rw [second_operand_none (by decide)]
          apply vector_slotwise (decrypts _ left) _ vector
          · intro buffer impossible
            cases impossible
          · rw [rotated, List.length_ofFn]
          · intro index lhs rhs out source _ stored
            simp only [sourceSlot, ← rotated_source _ positive] at source
            exact ⟨world.rng, rotated_get source stored⟩
        · simp [readSlots, left]

theorem hrot_add_contract
    (decrypts : ∀ a, operands 0 = some a →
      SlotsComputed draw engine .hrotAdd fparams (world.heap a)) :
    ComputesOrRefuses engine .hrotAdd (toyfheHrotAdd engine) result operands params fparams
      world := by
  cases left : operands 0 with
  | none => exact refuses (by simp only [toyfheHrotAdd, left])
  | some a =>
      cases right : operands 1 with
      | none => exact refuses (by simp only [toyfheHrotAdd, left, right])
      | some b =>
          by_cases guard : !toyfheIsVec world (some a) ∨ !toyfheIsVec world (some b) ∨
            (world.heap a).ctVec = [] ∨ (world.heap a).ctVec.length ≠ (world.heap b).ctVec.length
          · apply refuses
            simp only [toyfheHrotAdd, left, right, if_pos guard]
          · have wrote : toyfheHrotAdd engine (some result) operands params fparams world =
                write (some result) (storeVec (rotateAdd engine (world.heap a).ctVec
                  (world.heap b).ctVec
                  (toyfheNormRot (params 0) (world.heap a).ctVec.length))) world := by
              simp only [toyfheHrotAdd, left, right, if_neg guard]
            simp only [toyfheIsVec, Bool.not_eq_true', decide_eq_false_iff_not, not_or, not_not]
              at guard
            obtain ⟨leftVec, rightVec, filled, length⟩ := guard
            have positive : 0 < (world.heap a).ctVec.length := List.length_pos_of_ne_nil filled
            apply computes wrote rfl rfl _ left
            · rw [second_operand_some (by decide) right]
              apply vector_slotwise (decrypts _ left) _ leftVec
              · intro buffer same
                rw [Option.some.injEq] at same
                rw [← same]
                exact ⟨rightVec, length.symm⟩
              · rw [rotateAdd, List.length_ofFn]
              · intro index lhs rhs out source other stored
                simp only [sourceSlot, ← rotated_source _ positive] at source
                exact ⟨world.rng, rotate_add_get source (other _ rfl) stored⟩
            · simp [readSlots, left, right]

/-- A copy, or nothing at all in place. -/
theorem passthrough_contract
    (decrypts : ∀ a, operands 0 = some a →
      SlotsComputed draw engine opcode fparams (world.heap a))
    (slots : readSlots opcode = [0])
    (copies : ∀ lhs rhs rng, slotCipher draw engine opcode fparams lhs rhs rng = lhs)
    (still : ∀ count, sourceSlot opcode params count = id) :
    ComputesOrRefuses engine opcode toyfhePassthrough result operands params fparams
      world := by
  have single : 1 ∉ readSlots opcode := by
    rw [slots]
    decide
  cases left : operands 0 with
  | none => exact refuses (by simp only [toyfhePassthrough, left])
  | some src =>
      by_cases holds : HoldsCiphertext (world.heap src)
      · have guard : ¬ ((world.heap src).kind ≠ .ciphertext ∧
            (world.heap src).kind ≠ .ciphertextVec) := by
          rintro ⟨scalar, vector⟩
          exact holds.elim scalar vector
        have present : ∀ slot ∈ readSlots opcode, (operands slot).isSome := by
          rw [slots]
          simp [left]
        have same : Slotwise engine opcode params fparams (world.heap src) none
            (world.heap src) := by
          apply slotwise_of_computed (decrypts _ left) holds _ rfl rfl
          · intro index lhs rhs out placed
            have source := placed.left
            rw [still] at source
            have equal := source.symm.trans placed.result
            rw [Option.some.injEq] at equal
            exact ⟨world.rng, equal.symm.trans (copies lhs rhs world.rng).symm⟩
          · intro buffer impossible
            cases impossible
        by_cases inPlace : some result = some src
        · have kept : toyfhePassthrough (some result) operands params fparams world =
              (0, world) := by
            simp only [toyfhePassthrough, left, if_neg guard, if_pos inPlace]
          rw [Option.some.injEq] at inPlace
          rw [ComputesOrRefuses, kept]
          refine ⟨rfl, fun _ => ⟨present, src, left, ?_⟩⟩
          rw [second_operand_none single, inPlace]
          exact same
        · have wrote : toyfhePassthrough (some result) operands params fparams world =
              write (some result) (fun _ => world.heap src) world := by
            simp only [toyfhePassthrough, left, if_neg guard, if_neg inPlace]
          apply computes wrote rfl rfl present left
          rw [second_operand_none single]
          exact same
      · apply refuses
        rw [HoldsCiphertext, not_or] at holds
        simp only [toyfhePassthrough, left, if_pos holds]

end Kernels

end Fhenomenon.SlotKernels

import Fhenomenon.DispatchRecipes

/-!
# Which kernels a decomposition invokes

A table that logs every invocation tells what dispatching an instruction really
calls, and with which buffers. Two of the executor's promises fail in it: a
rotation runs before the missing addition is noticed, and decompositions read
the operand table without looking for the id that marks an absent operand.
-/

namespace Fhenomenon.DecompositionCalls

open Fhenomenon.InstructionStream Fhenomenon.DefaultExecutor Fhenomenon.DispatchRecipes

variable {Ptr σ : Type*}

/-- A kernel and the buffers it was handed. -/
structure Invocation (Ptr : Type*) where
  opcode : FhnOpCode
  result : Option Ptr
  operands : Fin 4 → Option Ptr

/-- The same kernels, each writing down that it was invoked. -/
def logged (dispatch : Dispatch Ptr σ) : Dispatch Ptr (List (Invocation Ptr) × σ) :=
  fun opcode => (dispatch opcode).map fun fn result operands params fparams world =>
    let outcome := fn result operands params fparams world.2
    (outcome.1,
      (world.1 ++ [{ opcode := opcode, result := result, operands := operands }], outcome.2))

def callsMade (dispatch : Dispatch Ptr σ) (inst : FhnInstruction) (buffers : Buffers Ptr) :
    List KernelCall → σ → List KernelCall
  | [], _ => []
  | kernel :: rest, world =>
      let outcome := runCall dispatch inst buffers kernel world
      kernel :: (if outcome.1 ≠ 0 then [] else callsMade dispatch inst buffers rest outcome.2)

def invoked (inst : FhnInstruction) (buffers : Buffers Ptr) (kernel : KernelCall) :
    Invocation Ptr where
  opcode := kernel.opcode
  result := buffers inst.resultId
  operands := fun position => slotBuffer inst buffers (kernel.operands position)

section Log

variable (dispatch : Dispatch Ptr σ) (inst : FhnInstruction) (buffers : Buffers Ptr)

@[simp] theorem supports_logged (opcode : FhnOpCode) :
    supports (logged dispatch) opcode = supports dispatch opcode := by
  rw [supports, logged, Option.isSome_map]
  rfl

theorem run_call_logged {kernel : KernelCall} (registered : supports dispatch kernel.opcode = true)
    (log : List (Invocation Ptr)) (world : σ) :
    runCall (logged dispatch) inst buffers kernel (log, world) =
      ((runCall dispatch inst buffers kernel world).1,
        (log ++ [invoked inst buffers kernel],
          (runCall dispatch inst buffers kernel world).2)) := by
  obtain ⟨fn, found⟩ := Option.isSome_iff_exists.mp registered
  simp only [runCall, call, logged, found, Option.map_some, invoked]

theorem run_calls_logged (kernels : List KernelCall)
    (registered : ∀ kernel ∈ kernels, supports dispatch kernel.opcode = true)
    (log : List (Invocation Ptr)) (world : σ) :
    runCalls (logged dispatch) inst buffers kernels (log, world) =
      ((runCalls dispatch inst buffers kernels world).1,
        (log ++ (callsMade dispatch inst buffers kernels world).map (invoked inst buffers),
          (runCalls dispatch inst buffers kernels world).2)) := by
  induction kernels generalizing log world with
  | nil =>
      rw [callsMade, List.map_nil, List.append_nil]
      rfl
  | cons kernel rest induction =>
      have head := registered kernel List.mem_cons_self
      have others := fun other later => registered other (List.mem_cons_of_mem kernel later)
      rw [run_calls_cons, run_calls_cons, run_call_logged dispatch inst buffers head, callsMade]
      by_cases failed : (runCall dispatch inst buffers kernel world).1 = 0
      · simp only [failed, ne_eq, not_true_eq_false, if_false]
        rw [induction others, List.map_cons, List.append_assoc]
        rfl
      · simp only [ne_eq, failed, not_false_eq_true, if_true]
        rfl

theorem recipe_registered (supported : FhnOpCode → Bool) :
    ∀ kernel ∈ (recipe supported inst).1, supported kernel.opcode = true := by
  intro kernel member
  cases opcode : inst.opcode with
  | hmult =>
      simp only [recipe, opcode] at member
      split_ifs at member <;>
        grind [onOperand, onResult, addOperand, multiplyOperands]
  | hrot =>
      simp only [recipe, opcode] at member
      split_ifs at member <;> grind [onOperand]
  | hrotAdd =>
      simp only [recipe, opcode] at member
      split_ifs at member <;> grind [onOperand, addOperand]
  | hconjAdd =>
      simp only [recipe, opcode] at member
      split_ifs at member <;> grind [onOperand, addOperand]
  | mad =>
      simp only [recipe, opcode] at member
      split_ifs at member <;> grind [onOperand, addOperand]
  | _ =>
      simp only [recipe, opcode] at member
      exact absurd member List.not_mem_nil

theorem kernel_calls_registered :
    ∀ kernel ∈ kernelCalls dispatch inst, supports dispatch kernel.opcode = true := by
  intro kernel member
  rw [kernelCalls] at member
  split_ifs at member with registered
  · rw [List.mem_singleton.mp member]
    exact registered
  · exact recipe_registered inst _ kernel member

theorem supports_logged_eq : supports (logged dispatch) = supports dispatch := by
  funext opcode
  exact supports_logged dispatch opcode

theorem decompose_logged (world : σ) :
    decompose (logged dispatch) inst buffers ([], world) =
      ((decompose dispatch inst buffers world).1,
        ((callsMade dispatch inst buffers (recipe (supports dispatch) inst).1 world).map
            (invoked inst buffers),
          (decompose dispatch inst buffers world).2)) := by
  rw [decompose_eq, decompose_eq, supports_logged_eq,
    run_calls_logged dispatch inst buffers _ (recipe_registered inst (supports dispatch))]
  rw [List.nil_append]
  rfl

theorem dispatch_logged (world : σ) :
    dispatchInstruction (logged dispatch) inst buffers ([], world) =
      ((dispatchInstruction dispatch inst buffers world).1,
        ((callsMade dispatch inst buffers (kernelCalls dispatch inst) world).map
            (invoked inst buffers),
          (dispatchInstruction dispatch inst buffers world).2)) := by
  have sameCalls : kernelCalls (logged dispatch) inst = kernelCalls dispatch inst := by
    rw [kernelCalls, kernelCalls, supports_logged_eq]
  have sameCode : ∀ rc, dispatchCode (logged dispatch) inst rc = dispatchCode dispatch inst rc := by
    intro rc
    rw [dispatchCode, dispatchCode, supports_logged_eq]
  rw [dispatch_instruction_eq, dispatch_instruction_eq, sameCalls, sameCode,
    run_calls_logged dispatch inst buffers _ (kernel_calls_registered dispatch inst)]
  rw [List.nil_append]

end Log

/-- The instruction's rule needs a primitive that is not registered. -/
def Missing (supported : FhnOpCode → Bool) (inst : FhnInstruction) : Prop :=
  match inst.opcode with
  | .hmult => supported .multCC = false
  | .hrot => supported .rotate = false
  | .hrotAdd => (supported .hrot = false ∧ supported .rotate = false) ∨ supported .addCC = false
  | .hconjAdd => supported .conjugate = false ∨ supported .addCC = false
  | .mad => supported .multCS = false ∨ supported .addCC = false
  | _ => False

/-- The rotation half is available but the addition it prepares is not. -/
def LateCheck (supported : FhnOpCode → Bool) (inst : FhnInstruction) : Prop :=
  inst.opcode = .hrotAdd ∧ supported .addCC = false ∧
    (supported .hrot = true ∨ supported .rotate = true)

theorem missing_incomplete {supported : FhnOpCode → Bool} {inst : FhnInstruction}
    (missing : Missing supported inst) : (recipe supported inst).2 = false := by
  cases opcode : inst.opcode with
  | hmult =>
      simp only [Missing, opcode] at missing
      simp [recipe, opcode, missing]
  | hrot =>
      simp only [Missing, opcode] at missing
      simp [recipe, opcode, missing]
  | hrotAdd =>
      simp only [Missing, opcode] at missing
      cases missing with
      | inl unrotated => simp [recipe, opcode, unrotated]
      | inr unadded =>
          simp only [recipe, opcode, unadded, Bool.false_eq_true, if_false]
          split_ifs <;> rfl
  | hconjAdd =>
      simp only [Missing, opcode] at missing
      cases missing with
      | inl absent => simp [recipe, opcode, absent]
      | inr absent => simp [recipe, opcode, absent]
  | mad =>
      simp only [Missing, opcode] at missing
      cases missing with
      | inl absent => simp [recipe, opcode, absent]
      | inr absent => simp [recipe, opcode, absent]
  | _ => simp only [Missing, opcode] at missing

/-- With a primitive missing, only a late check lets a kernel run. -/
theorem missing_calls_nothing {supported : FhnOpCode → Bool} {inst : FhnInstruction}
    (missing : Missing supported inst) (early : ¬LateCheck supported inst) :
    (recipe supported inst).1 = [] := by
  cases opcode : inst.opcode with
  | hmult =>
      simp only [Missing, opcode] at missing
      simp [recipe, opcode, missing]
  | hrot =>
      simp only [Missing, opcode] at missing
      simp [recipe, opcode, missing]
  | hrotAdd =>
      simp only [Missing, opcode] at missing
      have unrotated : supported .hrot = false ∧ supported .rotate = false := by
        cases missing with
        | inl unrotated => exact unrotated
        | inr unadded =>
            simpa [LateCheck, opcode, unadded] using early
      simp [recipe, opcode, unrotated]
  | hconjAdd =>
      simp only [Missing, opcode] at missing
      cases missing with
      | inl absent => simp [recipe, opcode, absent]
      | inr absent => simp [recipe, opcode, absent]
  | mad =>
      simp only [Missing, opcode] at missing
      cases missing with
      | inl absent => simp [recipe, opcode, absent]
      | inr absent => simp [recipe, opcode, absent]
  | _ => simp only [Missing, opcode] at missing

theorem late_check_missing {supported : FhnOpCode → Bool} {inst : FhnInstruction}
    (late : LateCheck supported inst) : Missing supported inst := by
  have opcode := late.1
  simp only [Missing, opcode]
  exact Or.inr late.2.1

theorem late_check_calls {supported : FhnOpCode → Bool} {inst : FhnInstruction}
    (late : LateCheck supported inst) :
    ∃ rotation, (recipe supported inst).1 = [onOperand rotation] := by
  have opcode := late.1
  have unadded := late.2.1
  cases fused : supported .hrot with
  | true => exact ⟨.hrot, by simp [recipe, opcode, unadded, fused]⟩
  | false =>
      have rotate : supported .rotate = true := by
        simpa [fused] using late.2.2
      exact ⟨.rotate, by simp [recipe, opcode, unadded, fused, rotate]⟩

/-- A decomposition that lacks a primitive fails with no kernel called. -/
def UntouchedWhenMissing (dispatch : Dispatch Ptr σ) (inst : FhnInstruction)
    (buffers : Buffers Ptr) (world : σ) : Prop :=
  Missing (supports dispatch) inst →
    decompose (logged dispatch) inst buffers ([], world) = (false, ([], world))

theorem missing_untouched_iff (dispatch : Dispatch Ptr σ) (inst : FhnInstruction)
    (buffers : Buffers Ptr) (world : σ) :
    UntouchedWhenMissing dispatch inst buffers world ↔ ¬LateCheck (supports dispatch) inst := by
  rw [UntouchedWhenMissing, decompose_logged]
  constructor
  · intro untouched late
    have outcome := untouched (late_check_missing late)
    have calls := late_check_calls late
    cases calls with
    | intro rotation only =>
        rw [only, callsMade, List.map_cons] at outcome
        have log := congrArg (fun result => result.2.1) outcome
        exact absurd log (List.cons_ne_nil _ _)
  · intro early missing
    have nothing := missing_calls_nothing missing early
    have outcome : decompose dispatch inst buffers world = (false, world) := by
      rw [decompose_eq, nothing, missing_incomplete missing]
      rfl
    rw [nothing, outcome]
    rfl

def rotateAndAdd : FhnInstruction where
  opcode := .hrotAdd
  operands := ![1, 2, 0, 0]
  resultId := 3

/-- Only `FHN_ROTATE` is registered; it writes 7 over the one buffer there is. -/
def rotationOnly : Dispatch Unit Int := fun opcode =>
  if opcode = .rotate then some fun _ _ _ _ _ => (0, 7) else none

/-- The rotation ran although the addition it prepares is not registered. -/
theorem rotation_before_check :
    Missing (supports rotationOnly) rotateAndAdd ∧
      supports rotationOnly rotateAndAdd.opcode = false ∧
      (decompose (logged rotationOnly) rotateAndAdd (fun _ => some ()) ([], 0)).1 = false ∧
      (decompose (logged rotationOnly) rotateAndAdd (fun _ => some ()) ([], 0)).2.1.length = 1 ∧
      (decompose rotationOnly rotateAndAdd (fun _ => some ()) (0 : Int)).2 = 7 := by
  refine ⟨?_, ?_, ?_, ?_, ?_⟩
  · exact Or.inr (by decide)
  · decide
  · decide
  · decide
  · decide

/-- No call reads the operand table at an id that marks an absent operand. -/
def AbsentIsNull (dispatch : Dispatch Ptr σ) (inst : FhnInstruction) (buffers : Buffers Ptr)
    (world : σ) : Prop :=
  ∀ kernel ∈ callsMade dispatch inst buffers (kernelCalls dispatch inst) world,
    ∀ position slot, kernel.operands position = .operand slot → inst.operands slot = 0 →
      (invoked inst buffers kernel).operands position = none

/-- The rule of the opcode is complete enough to reach an absent operand. -/
def ReadsAbsent (supported : FhnOpCode → Bool) (inst : FhnInstruction) : Prop :=
  match inst.opcode with
  | .hmult => supported .multCC = true ∧ (inst.operands 0 = 0 ∨ inst.operands 1 = 0)
  | .hrot => supported .rotate = true ∧ inst.operands 0 = 0
  | .hrotAdd =>
      (supported .hrot = true ∨ supported .rotate = true) ∧
        (inst.operands 0 = 0 ∨ (supported .addCC = true ∧ inst.operands 1 = 0))
  | .hconjAdd =>
      supported .conjugate = true ∧ supported .addCC = true ∧
        (inst.operands 0 = 0 ∨ inst.operands 1 = 0)
  | .mad =>
      inst.operands 1 ≠ 0 ∧ inst.operands 1 ≠ inst.resultId ∧ supported .multCS = true ∧
        supported .addCC = true ∧ inst.operands 0 = 0
  | _ => False

/-- The call takes one of its operands from an absent position. -/
def KernelCall.TakesAbsent (inst : FhnInstruction) (kernel : KernelCall) : Prop :=
  ∃ position slot, kernel.operands position = .operand slot ∧ inst.operands slot = 0

theorem takes_absent_single {inst : FhnInstruction} (opcode : FhnOpCode) :
    KernelCall.TakesAbsent inst (onOperand opcode) ↔ inst.operands 0 = 0 := by
  constructor
  · intro takes
    obtain ⟨position, slot, reads, absent⟩ := takes
    fin_cases position <;> simp [onOperand] at reads
    rw [reads]
    exact absent
  · intro absent
    exact ⟨0, 0, rfl, absent⟩

theorem takes_absent_result {inst : FhnInstruction} (opcode : FhnOpCode) :
    ¬KernelCall.TakesAbsent inst (onResult opcode) := by
  intro takes
  obtain ⟨position, slot, reads, absent⟩ := takes
  fin_cases position <;> simp [onResult] at reads

theorem takes_absent_addition {inst : FhnInstruction} :
    KernelCall.TakesAbsent inst addOperand ↔ inst.operands 1 = 0 := by
  constructor
  · intro takes
    obtain ⟨position, slot, reads, absent⟩ := takes
    fin_cases position <;> simp [addOperand] at reads
    rw [reads]
    exact absent
  · intro absent
    exact ⟨1, 1, rfl, absent⟩

theorem takes_absent_product {inst : FhnInstruction} :
    KernelCall.TakesAbsent inst multiplyOperands ↔
      inst.operands 0 = 0 ∨ inst.operands 1 = 0 := by
  constructor
  · intro takes
    obtain ⟨position, slot, reads, absent⟩ := takes
    fin_cases position <;> simp [multiplyOperands] at reads
    · rw [reads]
      exact Or.inl absent
    · rw [reads]
      exact Or.inr absent
  · intro absent
    cases absent with
    | inl first => exact ⟨0, 0, rfl, first⟩
    | inr second => exact ⟨1, 1, rfl, second⟩

theorem takes_absent_direct (inst : FhnInstruction) :
    ¬KernelCall.TakesAbsent inst (directCall inst) := by
  intro takes
  obtain ⟨position, slot, reads, absent⟩ := takes
  simp only [directCall] at reads
  split_ifs at reads with present
  rw [Slot.operand.injEq] at reads
  rw [reads] at present
  exact present absent

theorem reads_absent_iff (supported : FhnOpCode → Bool) (inst : FhnInstruction) :
    ReadsAbsent supported inst ↔
      ∃ kernel ∈ (recipe supported inst).1, KernelCall.TakesAbsent inst kernel := by
  cases opcode : inst.opcode with
  | hmult =>
      simp only [ReadsAbsent, recipe, opcode]
      cases supported .multCC <;> cases supported .relinearize <;> cases supported .rescale <;>
        simp [takes_absent_product, takes_absent_result]
  | hrot =>
      simp only [ReadsAbsent, recipe, opcode]
      cases supported .rotate <;> simp [takes_absent_single]
  | hrotAdd =>
      simp only [ReadsAbsent, recipe, opcode]
      cases supported .hrot <;> cases supported .rotate <;> cases supported .addCC <;>
        simp [takes_absent_single, takes_absent_addition]
  | hconjAdd =>
      simp only [ReadsAbsent, recipe, opcode]
      cases supported .conjugate <;> cases supported .addCC <;>
        simp [takes_absent_single, takes_absent_addition]
  | mad =>
      simp only [ReadsAbsent, recipe, opcode]
      by_cases refused : inst.operands 1 = 0 ∨ inst.operands 1 = inst.resultId
      · rw [if_pos refused]
        cases refused with
        | inl absent => simp [absent]
        | inr aliased => simp [aliased]
      · rw [if_neg refused]
        push Not at refused
        cases supported .multCS <;> cases supported .addCC <;>
          simp [takes_absent_single, takes_absent_addition, refused]
  | _ => simp [ReadsAbsent, recipe, opcode]

theorem calls_made_listed (dispatch : Dispatch Ptr σ) (inst : FhnInstruction)
    (buffers : Buffers Ptr) (kernels : List KernelCall) (world : σ) :
    ∀ kernel ∈ callsMade dispatch inst buffers kernels world, kernel ∈ kernels := by
  induction kernels generalizing world with
  | nil =>
      intro kernel member
      exact member
  | cons first rest induction =>
      intro kernel member
      rw [callsMade, List.mem_cons] at member
      cases member with
      | inl same => exact List.mem_cons.mpr (Or.inl same)
      | inr later =>
          split_ifs at later
          · exact absurd later List.not_mem_nil
          · exact List.mem_cons_of_mem first (induction _ kernel later)

def accepting (supported : FhnOpCode → Bool) : Dispatch Ptr σ := fun opcode =>
  if supported opcode then some fun _ _ _ _ world => (0, world) else none

theorem supports_accepting (supported : FhnOpCode → Bool) :
    supports (accepting supported : Dispatch Ptr σ) = supported := by
  funext opcode
  rw [supports, accepting]
  cases supported opcode <;> rfl

theorem calls_made_accepting {supported : FhnOpCode → Bool} (inst : FhnInstruction)
    (buffers : Buffers Ptr) (kernels : List KernelCall)
    (registered : ∀ kernel ∈ kernels, supported kernel.opcode = true) (world : σ) :
    callsMade (accepting supported) inst buffers kernels world = kernels := by
  induction kernels with
  | nil => rfl
  | cons kernel rest induction =>
      have head := registered kernel List.mem_cons_self
      have others := fun other later => registered other (List.mem_cons_of_mem kernel later)
      have accepted : runCall (accepting supported) inst buffers kernel world = (0, world) := by
        simp only [runCall, call, accepting, head, if_true]
      rw [callsMade, accepted]
      simp only [ne_eq, not_true_eq_false, if_false]
      rw [induction others]

/-- For each set of registered opcodes: absent operands are null in every call,
whatever the kernels do. -/
theorem absent_is_null_iff (supported : FhnOpCode → Bool) (inst : FhnInstruction)
    (buffers : Buffers Ptr) (world : σ) :
    (∀ dispatch : Dispatch Ptr σ, supports dispatch = supported →
        AbsentIsNull dispatch inst buffers world) ↔
      supported inst.opcode = true ∨ buffers 0 = none ∨ ¬ReadsAbsent supported inst := by
  constructor
  · intro null
    by_contra failing
    push Not at failing
    have reaches := (reads_absent_iff supported inst).mp failing.2.2
    obtain ⟨kernel, listed, position, slot, reads, absent⟩ := reaches
    have decomposed : kernelCalls (accepting supported : Dispatch Ptr σ) inst =
        (recipe supported inst).1 := by
      rw [kernelCalls, supports_accepting, if_neg failing.1]
    have made : kernel ∈ callsMade (accepting supported) inst buffers
        (kernelCalls (accepting supported : Dispatch Ptr σ) inst) world := by
      rw [decomposed, calls_made_accepting inst buffers _ (recipe_registered inst supported)]
      exact listed
    have passed := null (accepting supported) (supports_accepting supported) kernel made position
      slot reads absent
    simp only [invoked, reads, slotBuffer, absent] at passed
    exact failing.2.1 passed
  · intro condition dispatch table kernel made position slot reads absent
    have listed := calls_made_listed dispatch inst buffers _ world kernel made
    have takes : KernelCall.TakesAbsent inst kernel := ⟨position, slot, reads, absent⟩
    rw [kernelCalls, table] at listed
    simp only [invoked, reads, slotBuffer, absent]
    split_ifs at listed with direct
    · rw [List.mem_singleton.mp listed] at takes
      exact absurd takes (takes_absent_direct inst)
    · have reaches := (reads_absent_iff supported inst).mpr ⟨kernel, listed, takes⟩
      cases condition with
      | inl registered => exact absurd registered direct
      | inr rest =>
          cases rest with
          | inl empty => exact empty
          | inr safe => exact absurd reaches safe

def rotateNothing : FhnInstruction where
  opcode := .hrot
  operands := ![0, 0, 0, 0]
  resultId := 1

/-- With slot 0 allocated, the decomposed rotation reads it and reports success,
while the fused kernel is told that its operand is absent. -/
theorem absent_operand_read :
    (dispatchInstruction (logged (accepting (· == .rotate))) rotateNothing (fun id => some id)
        ([], ())).1 = 0 ∧
      ((dispatchInstruction (logged (accepting (· == .rotate))) rotateNothing
          (fun id => some id) ([], ())).2.1.map fun invocation => invocation.operands 0) =
        [some 0] ∧
      ((dispatchInstruction (logged (accepting (· == .hrot))) rotateNothing
          (fun id => some id) ([], ())).2.1.map fun invocation => invocation.operands 0) =
        [none] := by
  refine ⟨?_, ?_, ?_⟩
  · decide
  · decide
  · decide

end Fhenomenon.DecompositionCalls

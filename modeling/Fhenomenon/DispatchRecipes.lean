import Fhenomenon.DefaultExecutor

/-!
# What dispatching one instruction calls

Whether an opcode is dispatched directly or decomposed, the executor makes a
fixed list of kernel calls on the instruction's own buffers. `recipe` is that
list; every statement about kernels is proved over it, one call at a time.
-/

namespace Fhenomenon.DispatchRecipes

open Fhenomenon.InstructionStream Fhenomenon.MovementPlanner Fhenomenon.DefaultExecutor

variable {Ptr σ : Type*}

/-- Where an operand position of a kernel call gets its buffer. -/
inductive Slot
  | result | operand (slot : Fin 4) | absent
deriving DecidableEq, Repr

structure KernelCall where
  opcode : FhnOpCode
  operands : Fin 4 → Slot
deriving DecidableEq

/-- The id a slot names, if any. Id zero names nothing. -/
def Slot.id? (inst : FhnInstruction) : Slot → Option Nat
  | .result => some inst.resultId
  | .operand slot => if inst.operands slot ≠ 0 then some (inst.operands slot) else none
  | .absent => none

def slotBuffer (inst : FhnInstruction) (buffers : Buffers Ptr) : Slot → Option Ptr
  | .result => buffers inst.resultId
  | .operand slot => buffers (inst.operands slot)
  | .absent => none

def runCall (dispatch : Dispatch Ptr σ) (inst : FhnInstruction) (buffers : Buffers Ptr)
    (kernel : KernelCall) (world : σ) : Int × σ :=
  call dispatch kernel.opcode (buffers inst.resultId)
    (fun slot => slotBuffer inst buffers (kernel.operands slot)) inst.params inst.fparams world

def runCalls (dispatch : Dispatch Ptr σ) (inst : FhnInstruction) (buffers : Buffers Ptr) :
    List KernelCall → σ → Int × σ
  | [], world => (0, world)
  | kernel :: rest, world =>
      let outcome := runCall dispatch inst buffers kernel world
      if outcome.1 ≠ 0 then outcome else runCalls dispatch inst buffers rest outcome.2

def onOperand (opcode : FhnOpCode) : KernelCall where
  opcode := opcode
  operands := ![.operand 0, .absent, .absent, .absent]

def onResult (opcode : FhnOpCode) : KernelCall where
  opcode := opcode
  operands := ![.result, .absent, .absent, .absent]

def addOperand : KernelCall where
  opcode := .addCC
  operands := ![.result, .operand 1, .absent, .absent]

def multiplyOperands : KernelCall where
  opcode := .multCC
  operands := ![.operand 0, .operand 1, .absent, .absent]

def directCall (inst : FhnInstruction) : KernelCall where
  opcode := inst.opcode
  operands := fun slot => if inst.operands slot ≠ 0 then .operand slot else .absent

/-- The calls of a decomposition, and whether they complete the instruction. -/
def recipe (supported : FhnOpCode → Bool) (inst : FhnInstruction) : List KernelCall × Bool :=
  match inst.opcode with
  | .hmult =>
      if supported .multCC then
        ([multiplyOperands] ++ (if supported .relinearize then [onResult .relinearize] else []) ++
          (if supported .rescale then [onResult .rescale] else []), true)
      else ([], false)
  | .hrot => if supported .rotate then ([onOperand .rotate], true) else ([], false)
  | .hrotAdd =>
      if supported .hrot then
        if supported .addCC then ([onOperand .hrot, addOperand], true)
        else ([onOperand .hrot], false)
      else if supported .rotate then
        if supported .addCC then ([onOperand .rotate, addOperand], true)
        else ([onOperand .rotate], false)
      else ([], false)
  | .hconjAdd =>
      if supported .conjugate && supported .addCC then
        ([onOperand .conjugate, addOperand], true)
      else ([], false)
  | .mad =>
      if inst.operands 1 = 0 ∨ inst.operands 1 = inst.resultId then ([], false)
      else if supported .multCS && supported .addCC then ([onOperand .multCS, addOperand], true)
      else ([], false)
  | _ => ([], false)

/-- Every kernel call dispatching `inst` can make, in order. -/
def kernelCalls (dispatch : Dispatch Ptr σ) (inst : FhnInstruction) : List KernelCall :=
  if supports dispatch inst.opcode then [directCall inst]
  else (recipe (supports dispatch) inst).1

/-- The code `dispatchInstruction` returns when its calls return `rc`. -/
def dispatchCode (dispatch : Dispatch Ptr σ) (inst : FhnInstruction) (rc : Int) : Int :=
  if supports dispatch inst.opcode then rc
  else if rc = 0 ∧ (recipe (supports dispatch) inst).2 = true then 0 else -1

theorem slot_buffers (inst : FhnInstruction) (buffers : Buffers Ptr) (first second : Slot) :
    (fun slot => slotBuffer inst buffers
        ((![first, second, .absent, .absent] : Fin 4 → Slot) slot)) =
      ![slotBuffer inst buffers first, slotBuffer inst buffers second, none, none] := by
  funext slot
  fin_cases slot <;> rfl

theorem run_calls_cons (dispatch : Dispatch Ptr σ) (inst : FhnInstruction) (buffers : Buffers Ptr)
    (kernel : KernelCall) (rest : List KernelCall) (world : σ) :
    runCalls dispatch inst buffers (kernel :: rest) world =
      if (runCall dispatch inst buffers kernel world).1 ≠ 0 then
        runCall dispatch inst buffers kernel world
      else runCalls dispatch inst buffers rest (runCall dispatch inst buffers kernel world).2 :=
  rfl

theorem run_calls_single (dispatch : Dispatch Ptr σ) (inst : FhnInstruction)
    (buffers : Buffers Ptr) (kernel : KernelCall) (world : σ) :
    runCalls dispatch inst buffers [kernel] world = runCall dispatch inst buffers kernel world := by
  rw [run_calls_cons]
  split
  · rfl
  · rename_i zero
    push Not at zero
    simp only [runCalls]
    rw [← zero]

/-- The outcome of a list of calls as `decompose` reports it. -/
def decomposeOutcome (outcome : Int × σ) (complete : Bool) : Bool × σ :=
  (decide (outcome.1 = 0 ∧ complete = true), outcome.2)

theorem outcome_then (first : Int × σ) (next : σ → Int × σ) (complete : Bool) :
    decomposeOutcome (if first.1 ≠ 0 then first else next first.2) complete =
      if first.1 ≠ 0 then (false, first.2) else decomposeOutcome (next first.2) complete := by
  by_cases failed : first.1 = 0 <;> simp [decomposeOutcome, failed]

theorem outcome_last (last : Int × σ) :
    decomposeOutcome last true = if last.1 ≠ 0 then (false, last.2) else (true, last.2) := by
  by_cases failed : last.1 = 0 <;> simp [decomposeOutcome, failed]

theorem outcome_decide (last : Int × σ) :
    decomposeOutcome last true = (decide (last.1 = 0), last.2) := by
  simp [decomposeOutcome]

theorem outcome_incomplete (last : Int × σ) : decomposeOutcome last false = (false, last.2) := by
  simp [decomposeOutcome]

section Decompose

variable (dispatch : Dispatch Ptr σ) (inst : FhnInstruction) (buffers : Buffers Ptr)

theorem run_call_pair (opcode : FhnOpCode) (first second : Slot) (world : σ) :
    runCall dispatch inst buffers
        { opcode := opcode, operands := ![first, second, .absent, .absent] } world =
      call dispatch opcode (buffers inst.resultId)
        ![slotBuffer inst buffers first, slotBuffer inst buffers second, none, none]
        inst.params inst.fparams world := by
  rw [runCall, slot_buffers]

theorem run_calls_append (first second : List KernelCall) (world : σ) :
    runCalls dispatch inst buffers (first ++ second) world =
      if (runCalls dispatch inst buffers first world).1 ≠ 0 then
        runCalls dispatch inst buffers first world
      else
        runCalls dispatch inst buffers second (runCalls dispatch inst buffers first world).2 := by
  induction first generalizing world with
  | nil => simp [runCalls]
  | cons kernel rest induction =>
      rw [List.cons_append, run_calls_cons, run_calls_cons, induction]
      split <;> simp_all

theorem run_calls_joined (before after : List KernelCall) (world : σ)
    (succeeded : (runCalls dispatch inst buffers (before ++ after) world).1 = 0) :
    (runCalls dispatch inst buffers before world).1 = 0 ∧
      runCalls dispatch inst buffers (before ++ after) world =
        runCalls dispatch inst buffers after (runCalls dispatch inst buffers before world).2 := by
  rw [run_calls_append] at succeeded ⊢
  by_cases failed : (runCalls dispatch inst buffers before world).1 = 0
  · apply And.intro failed
    rw [if_neg (by simp [failed])]
  · rw [if_pos failed] at succeeded
    exact absurd succeeded failed

theorem run_optional (opcode : FhnOpCode) (world : σ) :
    runCalls dispatch inst buffers (if supports dispatch opcode then [onResult opcode] else [])
        world =
      if supports dispatch opcode then
        call dispatch opcode (buffers inst.resultId) ![buffers inst.resultId, none, none, none]
          inst.params inst.fparams world
      else (0, world) := by
  cases registered : supports dispatch opcode with
  | false => rfl
  | true =>
      simp only [if_true]
      rw [run_calls_single, onResult, run_call_pair]
      rfl

theorem run_operand (opcode : FhnOpCode) (world : σ) :
    runCalls dispatch inst buffers [onOperand opcode] world =
      call dispatch opcode (buffers inst.resultId)
        ![buffers (inst.operands 0), none, none, none] inst.params inst.fparams world := by
  rw [run_calls_single, onOperand, run_call_pair]
  rfl

theorem run_addition (world : σ) :
    runCalls dispatch inst buffers [addOperand] world =
      call dispatch .addCC (buffers inst.resultId)
        ![buffers inst.resultId, buffers (inst.operands 1), none, none] inst.params inst.fparams
        world := by
  rw [run_calls_single, addOperand, run_call_pair]
  rfl

theorem run_product (world : σ) :
    runCalls dispatch inst buffers [multiplyOperands] world =
      call dispatch .multCC (buffers inst.resultId)
        ![buffers (inst.operands 0), buffers (inst.operands 1), none, none] inst.params
        inst.fparams world := by
  rw [run_calls_single, multiplyOperands, run_call_pair]
  rfl

theorem decompose_hmult_eq (registered : supports dispatch .multCC = true) (world : σ) :
    decomposeHmult dispatch inst buffers world =
      decomposeOutcome (runCalls dispatch inst buffers
        ([multiplyOperands] ++ (if supports dispatch .relinearize then [onResult .relinearize]
          else []) ++ (if supports dispatch .rescale then [onResult .rescale] else [])) world)
        true := by
  rw [List.append_assoc, run_calls_append, outcome_then, run_calls_append, outcome_then,
    run_product, run_optional, run_optional, outcome_last]
  simp only [decomposeHmult, registered, Bool.not_true, Bool.false_eq_true, if_false]

theorem decompose_hrot_eq (registered : supports dispatch .rotate = true) (world : σ) :
    decomposeHrot dispatch inst buffers world =
      decomposeOutcome (runCalls dispatch inst buffers [onOperand .rotate] world) true := by
  rw [run_operand, outcome_decide]
  simp only [decomposeHrot, registered, Bool.not_true, Bool.false_eq_true, if_false]

theorem rotate_then_add (opcode : FhnOpCode) (world : σ) :
    (if !(decomposeOutcome (runCalls dispatch inst buffers [onOperand opcode] world) true).1 ||
          !supports dispatch .addCC then
        (false, (decomposeOutcome (runCalls dispatch inst buffers [onOperand opcode] world) true).2)
      else decomposeOutcome (runCalls dispatch inst buffers [addOperand]
        (decomposeOutcome (runCalls dispatch inst buffers [onOperand opcode] world) true).2) true) =
      if supports dispatch .addCC then
        decomposeOutcome (runCalls dispatch inst buffers [onOperand opcode, addOperand] world) true
      else
        decomposeOutcome (runCalls dispatch inst buffers [onOperand opcode] world) false := by
  have split : [onOperand opcode, addOperand] = [onOperand opcode] ++ [addOperand] := rfl
  rw [split, run_calls_append, outcome_then, outcome_incomplete, outcome_decide]
  cases registered : supports dispatch .addCC with
  | false => simp
  | true =>
      by_cases failed : (runCalls dispatch inst buffers [onOperand opcode] world).1 = 0
      · simp [failed]
      · simp [failed]

theorem decompose_hrot_add_eq (world : σ) :
    decomposeHrotAdd dispatch inst buffers world =
      if supports dispatch .hrot then
        if supports dispatch .addCC then
          decomposeOutcome (runCalls dispatch inst buffers [onOperand .hrot, addOperand] world) true
        else decomposeOutcome (runCalls dispatch inst buffers [onOperand .hrot] world) false
      else if supports dispatch .rotate then
        if supports dispatch .addCC then
          decomposeOutcome (runCalls dispatch inst buffers [onOperand .rotate, addOperand] world)
            true
        else decomposeOutcome (runCalls dispatch inst buffers [onOperand .rotate] world) false
      else (false, world) := by
  rw [← rotate_then_add, ← rotate_then_add]
  cases fused : supports dispatch .hrot with
  | true =>
      rw [run_operand, run_addition, outcome_decide, outcome_decide]
      simp only [decomposeHrotAdd, fused, if_true]
  | false =>
      cases registered : supports dispatch .rotate with
      | true =>
          rw [← decompose_hrot_eq dispatch inst buffers registered]
          simp only [decomposeHrotAdd, fused, Bool.false_eq_true, if_false, if_true, run_addition,
            outcome_decide]
      | false =>
          simp [decomposeHrotAdd, decomposeHrot, fused, registered]

theorem decompose_hconj_add_eq (conjugate : supports dispatch .conjugate = true)
    (add : supports dispatch .addCC = true) (world : σ) :
    decomposeHconjAdd dispatch inst buffers world =
      decomposeOutcome (runCalls dispatch inst buffers [onOperand .conjugate, addOperand] world)
        true := by
  have split : [onOperand .conjugate, addOperand] = [onOperand .conjugate] ++ [addOperand] := rfl
  rw [split, run_calls_append, outcome_then, run_operand, run_addition, outcome_decide]
  simp only [decomposeHconjAdd, conjugate, add, Bool.not_true, Bool.or_self, Bool.false_eq_true,
    if_false]

theorem decompose_mad_eq
    (distinct : ¬(inst.operands 1 = 0 ∨ inst.operands 1 = inst.resultId))
    (multiply : supports dispatch .multCS = true) (add : supports dispatch .addCC = true)
    (world : σ) :
    decomposeMad dispatch inst buffers world =
      decomposeOutcome (runCalls dispatch inst buffers [onOperand .multCS, addOperand] world)
        true := by
  have split : [onOperand .multCS, addOperand] = [onOperand .multCS] ++ [addOperand] := rfl
  rw [split, run_calls_append, outcome_then, run_operand, run_addition, outcome_decide]
  simp only [decomposeMad, if_neg distinct, multiply, add, Bool.not_true, Bool.or_self,
    Bool.false_eq_true, if_false]

/-- A decomposition is its recipe's calls. -/
theorem decompose_eq (world : σ) :
    decompose dispatch inst buffers world =
      decomposeOutcome (runCalls dispatch inst buffers (recipe (supports dispatch) inst).1 world)
        (recipe (supports dispatch) inst).2 := by
  have nothing : (false, world) =
      decomposeOutcome (runCalls dispatch inst buffers [] world) false := by
    rw [outcome_incomplete]
    rfl
  cases opcode : inst.opcode with
  | hmult =>
      simp only [decompose, recipe, opcode]
      cases registered : supports dispatch .multCC with
      | false => simpa [decomposeHmult, registered] using nothing
      | true => exact decompose_hmult_eq dispatch inst buffers registered world
  | hrot =>
      simp only [decompose, recipe, opcode]
      cases registered : supports dispatch .rotate with
      | false => simpa [decomposeHrot, registered] using nothing
      | true => exact decompose_hrot_eq dispatch inst buffers registered world
  | hrotAdd =>
      simp only [decompose, recipe, opcode, decompose_hrot_add_eq]
      split_ifs
      · rfl
      · rfl
      · rfl
      · rfl
      · exact nothing
  | hconjAdd =>
      simp only [decompose, recipe, opcode]
      cases conjugate : supports dispatch .conjugate with
      | false => simpa [decomposeHconjAdd, conjugate] using nothing
      | true =>
          cases add : supports dispatch .addCC with
          | false => simpa [decomposeHconjAdd, add] using nothing
          | true => exact decompose_hconj_add_eq dispatch inst buffers conjugate add world
  | mad =>
      simp only [decompose, recipe, opcode]
      by_cases refused : inst.operands 1 = 0 ∨ inst.operands 1 = inst.resultId
      · simpa [decomposeMad, refused] using nothing
      · cases multiply : supports dispatch .multCS with
        | false => simpa [decomposeMad, refused, multiply] using nothing
        | true =>
            cases add : supports dispatch .addCC with
            | false => simpa [decomposeMad, refused, add] using nothing
            | true =>
                rw [if_neg refused]
                exact decompose_mad_eq dispatch inst buffers refused multiply add world
  | _ =>
      simp only [decompose, recipe, opcode]
      exact nothing

theorem direct_operands (slot : Fin 4) :
    slotBuffer inst buffers ((directCall inst).operands slot) = operandArray inst buffers slot := by
  simp only [directCall, operandArray]
  split <;> rfl

/-- Dispatching an instruction is running its kernel calls. -/
theorem dispatch_instruction_eq (world : σ) :
    dispatchInstruction dispatch inst buffers world =
      (dispatchCode dispatch inst
          (runCalls dispatch inst buffers (kernelCalls dispatch inst) world).1,
        (runCalls dispatch inst buffers (kernelCalls dispatch inst) world).2) := by
  cases registered : dispatch inst.opcode with
  | some fn =>
      have supported : supports dispatch inst.opcode = true := by simp [supports, registered]
      have operands : (fun slot => slotBuffer inst buffers ((directCall inst).operands slot)) =
          operandArray inst buffers := by
        funext slot
        exact direct_operands inst buffers slot
      rw [kernelCalls, if_pos supported, run_calls_single, runCall, operands, call]
      simp [directCall, dispatchInstruction, dispatchCode, registered, supported]
  | none =>
      have unsupported : supports dispatch inst.opcode = false := by simp [supports, registered]
      rw [kernelCalls, if_neg (by simp [unsupported])]
      simp only [dispatchInstruction, registered, decompose_eq, decomposeOutcome, dispatchCode,
        unsupported, Bool.false_eq_true, if_false, decide_eq_true_eq]
      split <;> rfl

end Decompose

end Fhenomenon.DispatchRecipes

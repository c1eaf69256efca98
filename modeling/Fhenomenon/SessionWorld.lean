import Fhenomenon.LoweringSound
import Fhenomenon.MovementWorld

/-!
# An exact backend

Kernels for the opcodes that sessions record, computing on the integers of a
movement world.
-/

namespace Fhenomenon.SessionWorld

open Fhenomenon.InstructionStream Fhenomenon.MovementPlanner Fhenomenon.DefaultExecutor
open Fhenomenon.DispatchRecipes Fhenomenon.DeviceAbi Fhenomenon.MovementWorld
open Fhenomenon.LoweringSound

/-- What an opcode computes; `none` when an operand is missing or the opcode is
not supported. -/
def compute (opcode : FhnOpCode) (ops : Fin 4 → Option Int) (fparams : Fin 2 → Rat) :
    Option Int :=
  match opcode, ops 0, ops 1 with
  | .addCC, some first, some second => some (first + second)
  | .hmult, some first, some second => some (first * second)
  | .addCS, some first, _ => some (first + (fparams 0).floor)
  | .multCS, some first, _ => some (first * (fparams 0).floor)
  | _, _, _ => none

def exactKernel (opcode : FhnOpCode) : FhnKernelFn Nat World :=
  fun result ops _ fparams world =>
    match compute opcode (fun slot => deviceVal world (ops slot)) fparams, result,
        deviceVal world result with
    | some value, some buffer, some _ => (0, world.set buffer (some ⟨true, value⟩))
    | _, _, _ => (-1, world)

def recorded (opcode : FhnOpCode) : Bool :=
  opcode = .addCC || opcode = .hmult || opcode = .addCS || opcode = .multCS

def exactTable : Dispatch Nat World :=
  fun opcode => if recorded opcode then some (exactKernel opcode) else none

def exactApply (opcode : FhnOpCode) (ops : Fin 4 → Option Int) (fparams : Fin 2 → Rat) :
    Int × Int × Unit :=
  match compute opcode ops fparams with
  | some value => (0, value, ())
  | none => (-1, 0, ())

def exactModel : DeviceModel Nat World Int Unit where
  cell := cellAt
  context := fun _ => ()
  apply := fun opcode _ ops _ fparams => exactApply opcode ops fparams

theorem exact_hook_laws : HookLaws exactModel movementHooks movementAlloc movementFree where
  allocHook := movement_hook_laws.allocHook
  freeHook := movement_hook_laws.freeHook
  paired := movement_hook_laws.paired
  allocated := movement_hook_laws.allocated
  freed := movement_hook_laws.freed
  evicted := movement_hook_laws.evicted
  prefetched := movement_hook_laws.prefetched

theorem exact_kernel_law : KernelLaw exactModel exactTable := by
  intro opcode fn registered world result operands params fparams resident handed
  have kernel : exactKernel opcode = fn := by
    rw [exactTable] at registered
    split at registered
    · exact Option.some.inj registered
    · cases registered
  subst kernel
  have applied : exactModel.apply opcode (exactModel.context world)
      (fun slot => (operands slot).bind (exactModel.contents world)) params fparams =
        exactApply opcode (fun slot => deviceVal world (operands slot)) fparams := by
    have same : (fun slot => (operands slot).bind (exactModel.contents world)) =
        fun slot => deviceVal world (operands slot) := by
      funext slot
      cases given : operands slot with
      | none => rfl
      | some buffer => exact (device_val_resident (handed slot buffer given)).1.symm
    exact congrArg (fun ops => exactApply opcode ops fparams) same
  obtain ⟨old, held⟩ := Option.isSome_iff_exists.mp (device_val_resident resident).2
  obtain ⟨value, cell⟩ := resident
  simp only [applied, exactApply, exactKernel, held]
  cases compute opcode (fun slot => deviceVal world (operands slot)) fparams with
  | none => simp
  | some computed =>
      exact ⟨rfl, fun _ => ⟨fun other => cell_set world result other _ (cell_lt cell), trivial⟩⟩

theorem exact_value (inst : FhnInstruction) (state : ValueState Int Unit)
    (supported : recorded inst.opcode = true) (value : Int)
    (computed : compute inst.opcode
      (fun slot => if inst.operands slot ≠ 0 then state.values (inst.operands slot) else none)
      inst.fparams = some value) : Computes exactModel exactTable inst state value := by
  have registered : supports exactTable inst.opcode = true := by
    simp [supports, exactTable, supported]
  have operands : (fun slot => (((directCall inst).operands slot).id? inst).bind state.values) =
      fun slot => if inst.operands slot ≠ 0 then state.values (inst.operands slot) else none := by
    funext slot
    by_cases used : inst.operands slot = 0
    · simp [directCall, used, Slot.id?]
    · simp [directCall, used, Slot.id?]
  have called : valueCall exactModel inst (directCall inst) state =
      (0, { context := ()
            values := Function.update state.values inst.resultId (some value) }) := by
    simp only [valueCall, operands]
    simp only [exactModel, exactApply, directCall, computed]
  have ran : valueInstruction exactModel exactTable inst state =
      (0, { context := ()
            values := Function.update state.values inst.resultId (some value) }) := by
    rw [valueInstruction, kernelCalls, if_pos registered]
    simp [valueCalls, called, dispatchCode, registered]
  rw [Computes, ran]
  exact ⟨rfl, Function.update_self _ _ _⟩

theorem exact_kernels : ExactKernels exactModel exactTable where
  addCC := by
    intro inst state first second opcode one two
    apply exact_value inst state (by simp [recorded, opcode])
    simp [compute, opcode, one.1, one.2, two.1, two.2]
  hmult := by
    intro inst state first second opcode one two
    apply exact_value inst state (by simp [recorded, opcode])
    simp [compute, opcode, one.1, one.2, two.1, two.2]
  addCS := by
    intro inst state first scalar opcode one folded
    apply exact_value inst state (by simp [recorded, opcode])
    simp [compute, opcode, one.1, one.2, folded]
  multCS := by
    intro inst state first scalar opcode one folded
    apply exact_value inst state (by simp [recorded, opcode])
    simp [compute, opcode, one.1, one.2, folded]

end Fhenomenon.SessionWorld

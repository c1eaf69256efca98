import Fhenomenon.DispatchRecipes

/-!
# What the ABI promises

A world is seen through its live buffers, each on the device or on the host,
and through the backend context. The laws say what the hooks and kernels do to
that view; values alone, without buffers, give the meaning of a program.
-/

namespace Fhenomenon.DeviceAbi

open Fhenomenon.InstructionStream Fhenomenon.MovementPlanner Fhenomenon.DefaultExecutor
open Fhenomenon.DispatchRecipes

structure Cell (V : Type*) where
  resident : Bool
  contents : V

/-- `cell` is `none` for a pointer that names no live buffer. `apply` is what a
kernel computes from the backend context and the contents of its operands. -/
structure DeviceModel (Ptr σ V κ : Type*) where
  cell : σ → Ptr → Option (Cell V)
  context : σ → κ
  apply : FhnOpCode → κ → (Fin 4 → Option V) → (Fin 4 → Int) → (Fin 2 → Rat) → Int × V × κ

variable {Ptr σ V κ : Type*}

namespace DeviceModel

def contents (model : DeviceModel Ptr σ V κ) (world : σ) (buffer : Ptr) : Option V :=
  (model.cell world buffer).map (·.contents)

def Resident (model : DeviceModel Ptr σ V κ) (world : σ) (buffer : Ptr) : Prop :=
  ∃ value, model.cell world buffer = some ⟨true, value⟩

end DeviceModel

/-- Kernels read only their operands, and a successful kernel writes only the result. -/
def KernelLaw [DecidableEq Ptr] (model : DeviceModel Ptr σ V κ) (dispatch : Dispatch Ptr σ) :
    Prop :=
  ∀ opcode fn, dispatch opcode = some fn →
    ∀ world result operands params fparams, model.Resident world result →
      (∀ slot buffer, operands slot = some buffer → model.Resident world buffer) →
        let computed := model.apply opcode (model.context world)
          (fun slot => (operands slot).bind (model.contents world)) params fparams
        let outcome := fn (some result) operands params fparams world
        outcome.1 = computed.1 ∧
          (computed.1 = 0 →
            (∀ buffer, model.cell outcome.2 buffer =
              if buffer = result then some ⟨true, computed.2.1⟩ else model.cell world buffer) ∧
            model.context outcome.2 = computed.2.2)

/-- Allocation returns a buffer that was not live; eviction and prefetch move
contents without changing them; a world that evicts can also prefetch. -/
structure HookLaws [DecidableEq Ptr] (model : DeviceModel Ptr σ V κ)
    (hooks : FhnMovementHooks Ptr σ) (alloc : σ → Option Ptr × σ) (free : Option Ptr → σ → σ) :
    Prop where
  allocHook : hooks.bufferAlloc = some alloc
  freeHook : hooks.bufferFree = some free
  paired : hooks.evict.isSome → hooks.prefetch.isSome
  allocated : ∀ world, ∃ fresh value, (alloc world).1 = some fresh ∧
    model.cell world fresh = none ∧
    (∀ buffer, model.cell (alloc world).2 buffer =
      if buffer = fresh then some ⟨true, value⟩ else model.cell world buffer) ∧
    model.context (alloc world).2 = model.context world
  freed : ∀ world buffer cell, model.cell world buffer = some cell →
    (∀ other, model.cell (free (some buffer) world) other =
      if other = buffer then none else model.cell world other) ∧
    model.context (free (some buffer) world) = model.context world
  evicted : ∀ evict, hooks.evict = some evict → ∀ world buffer value,
    model.cell world buffer = some ⟨true, value⟩ →
      (evict (some buffer) world).1 = 0 ∧
      (∀ other, model.cell (evict (some buffer) world).2 other =
        if other = buffer then some ⟨false, value⟩ else model.cell world other) ∧
      model.context (evict (some buffer) world).2 = model.context world
  prefetched : ∀ prefetch, hooks.prefetch = some prefetch → ∀ world buffer cell,
    model.cell world buffer = some cell →
      (prefetch (some buffer) world).1 = 0 ∧
      (∀ other, model.cell (prefetch (some buffer) world).2 other =
        if other = buffer then some ⟨true, cell.contents⟩ else model.cell world other) ∧
      model.context (prefetch (some buffer) world).2 = model.context world

def readSlots : FhnOpCode → List (Fin 4)
  | .nop => []
  | .addCC | .addCP | .subCC | .subCP | .multCC | .multCP => [0, 1]
  | .addCS | .subSC | .negate | .multCS => [0]
  | .relinearize | .rescale | .rotate | .conjugate | .multKey | .modDown | .levelDown => [0]
  | .hmult | .hrotAdd | .hconjAdd | .mad => [0, 1]
  | .hrot => [0]
  | .and | .or | .xor | .eq | .lt | .le => [0, 1]

instance readsSlot (slot : Fin 4) (opcode : FhnOpCode) : Decidable (slot ∈ readSlots opcode) :=
  inferInstance

def OperandsPresent (program : FhnProgram) : Prop :=
  ∀ inst ∈ program.instructions, ∀ slot ∈ readSlots inst.opcode, inst.operands slot ≠ 0

instance (program : FhnProgram) : Decidable (OperandsPresent program) :=
  inferInstanceAs (Decidable (∀ inst ∈ program.instructions,
    ∀ slot ∈ readSlots inst.opcode, inst.operands slot ≠ 0))

/-- Every buffer a call is handed for a non-zero id is live and on the device. -/
structure CallReady (model : DeviceModel Ptr σ V κ) (inst : FhnInstruction)
    (buffers : Buffers Ptr) (world : σ) (kernel : KernelCall) : Prop where
  result : ∃ buffer, buffers inst.resultId = some buffer ∧ model.Resident world buffer
  named : ∀ slot id, (kernel.operands slot).id? inst = some id →
    ∃ buffer, buffers id = some buffer ∧ model.Resident world buffer
  absent : ∀ slot, (kernel.operands slot).id? inst = none → kernel.operands slot = .absent

theorem slot_buffer_of_id {inst : FhnInstruction} {slot : Slot} {id : Nat}
    (named : slot.id? inst = some id) (buffers : Buffers Ptr) :
    slotBuffer inst buffers slot = buffers id := by
  cases slot with
  | result =>
      simp only [Slot.id?, Option.some.injEq] at named
      rw [slotBuffer, named]
  | operand position =>
      simp only [Slot.id?] at named
      split at named
      · rw [slotBuffer, Option.some.inj named]
      · cases named
  | absent => cases named

structure ValueState (V κ : Type*) where
  context : κ
  values : Nat → Option V

def valueCall (model : DeviceModel Ptr σ V κ) (inst : FhnInstruction) (kernel : KernelCall)
    (state : ValueState V κ) : Int × ValueState V κ :=
  let outcome := model.apply kernel.opcode state.context
    (fun slot => ((kernel.operands slot).id? inst).bind state.values) inst.params inst.fparams
  (outcome.1,
    { context := outcome.2.2
      values := Function.update state.values inst.resultId (some outcome.2.1) })

def valueCalls (model : DeviceModel Ptr σ V κ) (inst : FhnInstruction) :
    List KernelCall → ValueState V κ → Int × ValueState V κ
  | [], state => (0, state)
  | kernel :: rest, state =>
      let outcome := valueCall model inst kernel state
      if outcome.1 ≠ 0 then outcome else valueCalls model inst rest outcome.2

def valueInstruction (model : DeviceModel Ptr σ V κ) (dispatch : Dispatch Ptr σ)
    (inst : FhnInstruction) (state : ValueState V κ) : Int × ValueState V κ :=
  let outcome := valueCalls model inst (kernelCalls dispatch inst) state
  (dispatchCode dispatch inst outcome.1, outcome.2)

def valueProgram (model : DeviceModel Ptr σ V κ) (dispatch : Dispatch Ptr σ) :
    List FhnInstruction → ValueState V κ → Int × ValueState V κ
  | [], state => (0, state)
  | inst :: rest, state =>
      let outcome := valueInstruction model dispatch inst state
      if outcome.1 ≠ 0 then outcome else valueProgram model dispatch rest outcome.2

theorem value_calls_other (model : DeviceModel Ptr σ V κ) (inst : FhnInstruction)
    (calls : List KernelCall) (state : ValueState V κ) (id : Nat) (other : id ≠ inst.resultId) :
    (valueCalls model inst calls state).2.values id = state.values id := by
  induction calls generalizing state with
  | nil => rfl
  | cons kernel rest induction =>
      have written : (valueCall model inst kernel state).2.values id = state.values id := by
        simp [valueCall, Function.update_of_ne other]
      simp only [valueCalls]
      split
      · exact written
      · rw [induction, written]

theorem value_calls_result (model : DeviceModel Ptr σ V κ) (inst : FhnInstruction)
    (calls : List KernelCall) (state : ValueState V κ)
    (written : calls ≠ [] ∨ (state.values inst.resultId).isSome) :
    ((valueCalls model inst calls state).2.values inst.resultId).isSome := by
  induction calls generalizing state with
  | nil =>
      rcases written with nonempty | stored
      · exact absurd rfl nonempty
      · exact stored
  | cons kernel rest induction =>
      have stored : ((valueCall model inst kernel state).2.values inst.resultId).isSome := by
        simp [valueCall]
      simp only [valueCalls]
      split
      · exact stored
      · exact induction _ (Or.inr stored)

/-- Later calls of a decomposition may read the result; the first never does. -/
structure CallsShaped (inst : FhnInstruction) (calls : List KernelCall) : Prop where
  operands : ∀ kernel ∈ calls, ∀ slot position, kernel.operands slot = .operand position →
    inst.operands position ≠ 0
  firstReads : ∀ kernel, calls.head? = some kernel → ∀ slot, kernel.operands slot ≠ .result

theorem on_operand_slots (opcode : FhnOpCode) (slot position : Fin 4)
    (reads : (onOperand opcode).operands slot = .operand position) : position = 0 := by
  fin_cases slot <;> simp [onOperand] at reads
  exact reads.symm

theorem on_result_slots (opcode : FhnOpCode) (slot position : Fin 4) :
    (onResult opcode).operands slot ≠ .operand position := by
  fin_cases slot <;> simp [onResult]

theorem add_operand_slots (slot position : Fin 4)
    (reads : addOperand.operands slot = .operand position) : position = 1 := by
  fin_cases slot <;> simp [addOperand] at reads
  exact reads.symm

theorem multiply_operands_slots (slot position : Fin 4)
    (reads : multiplyOperands.operands slot = .operand position) :
    position = 0 ∨ position = 1 := by
  fin_cases slot <;> simp [multiplyOperands] at reads
  · exact Or.inl reads.symm
  · exact Or.inr reads.symm

theorem on_operand_first (opcode : FhnOpCode) (slot : Fin 4) :
    (onOperand opcode).operands slot ≠ .result := by
  fin_cases slot <;> simp [onOperand]

theorem multiply_operands_first (slot : Fin 4) : multiplyOperands.operands slot ≠ .result := by
  fin_cases slot <;> simp [multiplyOperands]

theorem shaped_nil (inst : FhnInstruction) : CallsShaped inst [] := by
  constructor <;> simp

theorem shaped_unary {inst : FhnInstruction} (first : inst.operands 0 ≠ 0) (opcode : FhnOpCode) :
    CallsShaped inst [onOperand opcode] := by
  constructor
  · intro kernel member slot position reads
    rw [List.mem_singleton] at member
    subst member
    rw [on_operand_slots opcode slot position reads]
    exact first
  · intro kernel head slot
    rw [List.head?_cons, Option.some.injEq] at head
    exact head ▸ on_operand_first opcode slot

theorem shaped_added {inst : FhnInstruction} (first : inst.operands 0 ≠ 0)
    (second : inst.operands 1 ≠ 0) (opcode : FhnOpCode) :
    CallsShaped inst [onOperand opcode, addOperand] := by
  constructor
  · intro kernel member slot position reads
    rcases List.mem_pair.mp member with rfl | rfl
    · rw [on_operand_slots opcode slot position reads]
      exact first
    · rw [add_operand_slots slot position reads]
      exact second
  · intro kernel head slot
    rw [List.head?_cons, Option.some.injEq] at head
    exact head ▸ on_operand_first opcode slot

theorem shaped_product {inst : FhnInstruction} (first : inst.operands 0 ≠ 0)
    (second : inst.operands 1 ≠ 0) (later : List KernelCall)
    (own : ∀ kernel ∈ later, ∃ opcode, kernel = onResult opcode) :
    CallsShaped inst (multiplyOperands :: later) := by
  constructor
  · intro kernel member slot position reads
    rcases List.mem_cons.mp member with rfl | after
    · rcases multiply_operands_slots slot position reads with rfl | rfl
      · exact first
      · exact second
    · obtain ⟨opcode, rfl⟩ := own kernel after
      exact absurd reads (on_result_slots opcode slot position)
  · intro kernel head slot
    rw [List.head?_cons, Option.some.injEq] at head
    exact head ▸ multiply_operands_first slot

theorem shaped_recipe (supported : FhnOpCode → Bool) {inst : FhnInstruction}
    (present : ∀ slot ∈ readSlots inst.opcode, inst.operands slot ≠ 0) :
    CallsShaped inst (recipe supported inst).1 := by
  cases opcode : inst.opcode with
  | hmult =>
      have first : inst.operands 0 ≠ 0 := present 0 (by simp [opcode, readSlots])
      have second : inst.operands 1 ≠ 0 := present 1 (by simp [opcode, readSlots])
      simp only [recipe, opcode]
      split
      · rw [List.append_assoc, List.singleton_append]
        refine shaped_product first second _ ?_
        intro kernel member
        rcases List.mem_append.mp member with relinearizes | rescales
        · split at relinearizes
          · exact ⟨_, List.mem_singleton.mp relinearizes⟩
          · cases relinearizes
        · split at rescales
          · exact ⟨_, List.mem_singleton.mp rescales⟩
          · cases rescales
      · exact shaped_nil inst
  | hrot =>
      have first : inst.operands 0 ≠ 0 := present 0 (by simp [opcode, readSlots])
      simp only [recipe, opcode]
      split
      · exact shaped_unary first _
      · exact shaped_nil inst
  | hrotAdd =>
      have first : inst.operands 0 ≠ 0 := present 0 (by simp [opcode, readSlots])
      have second : inst.operands 1 ≠ 0 := present 1 (by simp [opcode, readSlots])
      simp only [recipe, opcode]
      split_ifs
      · exact shaped_added first second _
      · exact shaped_unary first _
      · exact shaped_added first second _
      · exact shaped_unary first _
      · exact shaped_nil inst
  | hconjAdd =>
      have first : inst.operands 0 ≠ 0 := present 0 (by simp [opcode, readSlots])
      have second : inst.operands 1 ≠ 0 := present 1 (by simp [opcode, readSlots])
      simp only [recipe, opcode]
      split
      · exact shaped_added first second _
      · exact shaped_nil inst
  | mad =>
      have first : inst.operands 0 ≠ 0 := present 0 (by simp [opcode, readSlots])
      have second : inst.operands 1 ≠ 0 := present 1 (by simp [opcode, readSlots])
      simp only [recipe, opcode]
      split_ifs
      · exact shaped_nil inst
      · exact shaped_added first second _
      · exact shaped_nil inst
  | _ =>
      simp only [recipe, opcode]
      exact shaped_nil inst

theorem shaped_calls (dispatch : Dispatch Ptr σ) {inst : FhnInstruction}
    (present : ∀ slot ∈ readSlots inst.opcode, inst.operands slot ≠ 0) :
    CallsShaped inst (kernelCalls dispatch inst) := by
  rw [kernelCalls]
  split
  · constructor
    · intro kernel member slot position reads
      rw [List.mem_singleton] at member
      subst member
      simp only [directCall] at reads
      split at reads
      · cases reads
        assumption
      · cases reads
    · intro kernel head slot
      rw [List.head?_cons, Option.some.injEq] at head
      subst head
      simp only [directCall]
      split <;> simp
  · exact shaped_recipe (supports dispatch) present

theorem recipe_supported (supported : FhnOpCode → Bool) (inst : FhnInstruction)
    (kernel : KernelCall) (member : kernel ∈ (recipe supported inst).1) :
    supported kernel.opcode = true := by
  cases opcode : inst.opcode with
  | hmult =>
      simp only [recipe, opcode] at member
      split_ifs at member with multiply relinearize rescale rescale
      all_goals
        simp only [List.append_nil, List.cons_append, List.nil_append, List.mem_cons,
          List.not_mem_nil, or_false] at member
      · rcases member with rfl | rfl | rfl
        · exact multiply
        · exact relinearize
        · exact rescale
      · rcases member with rfl | rfl
        · exact multiply
        · exact relinearize
      · rcases member with rfl | rfl
        · exact multiply
        · exact rescale
      · exact member ▸ multiply
  | hrot =>
      simp only [recipe, opcode] at member
      split_ifs at member with rotate
      · exact List.mem_singleton.mp member ▸ rotate
      · cases member
  | hrotAdd =>
      simp only [recipe, opcode] at member
      split_ifs at member with fused add rotate add
      · rcases List.mem_pair.mp member with rfl | rfl
        · exact fused
        · exact add
      · exact List.mem_singleton.mp member ▸ fused
      · rcases List.mem_pair.mp member with rfl | rfl
        · exact rotate
        · exact add
      · exact List.mem_singleton.mp member ▸ rotate
      · cases member
  | hconjAdd =>
      simp only [recipe, opcode] at member
      split_ifs at member with both
      · rw [Bool.and_eq_true] at both
        rcases List.mem_pair.mp member with rfl | rfl
        · exact both.1
        · exact both.2
      · cases member
  | mad =>
      simp only [recipe, opcode] at member
      split_ifs at member with refused both
      · cases member
      · rw [Bool.and_eq_true] at both
        rcases List.mem_pair.mp member with rfl | rfl
        · exact both.1
        · exact both.2
      · cases member
  | _ =>
      simp only [recipe, opcode] at member
      cases member

theorem complete_recipe_nonempty (supported : FhnOpCode → Bool) (inst : FhnInstruction)
    (complete : (recipe supported inst).2 = true) : (recipe supported inst).1 ≠ [] := by
  intro empty
  cases opcode : inst.opcode with
  | hmult =>
      simp only [recipe, opcode] at complete empty
      split_ifs at complete empty <;> simp_all
  | hrot =>
      simp only [recipe, opcode] at complete empty
      split_ifs at complete empty
  | hrotAdd =>
      simp only [recipe, opcode] at complete empty
      split_ifs at complete empty
  | hconjAdd =>
      simp only [recipe, opcode] at complete empty
      split_ifs at complete empty
  | mad =>
      simp only [recipe, opcode] at complete empty
      split_ifs at complete empty
  | _ =>
      simp only [recipe, opcode] at complete
      cases complete

theorem kernel_calls_supported (dispatch : Dispatch Ptr σ) (inst : FhnInstruction)
    (kernel : KernelCall) (member : kernel ∈ kernelCalls dispatch inst) :
    supports dispatch kernel.opcode = true := by
  rw [kernelCalls] at member
  split at member
  · exact List.mem_singleton.mp member ▸ ‹_›
  · exact recipe_supported _ _ _ member

theorem dispatch_code_zero (dispatch : Dispatch Ptr σ) (inst : FhnInstruction) (rc : Int)
    (success : dispatchCode dispatch inst rc = 0) :
    rc = 0 ∧ kernelCalls dispatch inst ≠ [] := by
  rw [dispatchCode] at success
  by_cases direct : supports dispatch inst.opcode = true
  · rw [if_pos direct] at success
    refine ⟨success, ?_⟩
    rw [kernelCalls, if_pos direct]
    simp
  · rw [if_neg direct] at success
    split at success
    · rename_i completes
      refine ⟨completes.1, ?_⟩
      rw [kernelCalls, if_neg direct]
      exact complete_recipe_nonempty (supports dispatch) inst completes.2
    · cases success

end Fhenomenon.DeviceAbi

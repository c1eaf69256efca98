import Fhenomenon.DispatchRecipes

/-!
# Decomposition in place

A result may share its buffer with an operand. Kernels are sound in place, but
a decomposition that adds an operand last has already written its intermediate
into the result buffer; when that is the addend's buffer, the addend is gone.
-/

namespace Fhenomenon.AliasedDecomposition

open Fhenomenon.InstructionStream Fhenomenon.DefaultExecutor Fhenomenon.DispatchRecipes

/-- Buffer contents as a part of the world. -/
structure Memory (σ Ptr V : Type*) [DecidableEq Ptr] where
  read : σ → Ptr → V
  write : σ → Ptr → V → σ
  readWrite : ∀ world buffer value,
    read (write world buffer value) = Function.update (read world) buffer value

structure Arithmetic (V : Type*) where
  add : V → V → V
  multiply : V → V → V
  scale : Rat → V → V
  rotate : (Fin 4 → Int) → V → V
  conjugate : V → V

variable {σ Ptr V : Type*}

/-- What a primitive makes of the operands it reads; relinearizing and rescaling
keep the value. -/
def primitiveValue (arithmetic : Arithmetic V) (opcode : FhnOpCode) (params : Fin 4 → Int)
    (fparams : Fin 2 → Rat) (operands : Fin 4 → Option V) : Option V :=
  match opcode with
  | .addCC =>
      match operands 0, operands 1 with
      | some first, some second => some (arithmetic.add first second)
      | _, _ => none
  | .multCC =>
      match operands 0, operands 1 with
      | some first, some second => some (arithmetic.multiply first second)
      | _, _ => none
  | .multCS => (operands 0).map (arithmetic.scale (fparams 0))
  | .rotate => (operands 0).map (arithmetic.rotate params)
  | .hrot => (operands 0).map (arithmetic.rotate params)
  | .conjugate => (operands 0).map arithmetic.conjugate
  | .relinearize => operands 0
  | .rescale => operands 0
  | _ => none

/-- The value of a fused instruction on operand contents. -/
def fusedValue (arithmetic : Arithmetic V) (inst : FhnInstruction) (first second : V) : V :=
  match inst.opcode with
  | .hmult => arithmetic.multiply first second
  | .hrot => arithmetic.rotate inst.params first
  | .hrotAdd => arithmetic.add (arithmetic.rotate inst.params first) second
  | .hconjAdd => arithmetic.add (arithmetic.conjugate first) second
  | .mad => arithmetic.add (arithmetic.scale (inst.fparams 0) first) second
  | _ => first

/-- What stands in the result buffer when the addend is read. -/
def intermediate (arithmetic : Arithmetic V) (inst : FhnInstruction) (first : V) : V :=
  match inst.opcode with
  | .hrotAdd => arithmetic.rotate inst.params first
  | .hconjAdd => arithmetic.conjugate first
  | .mad => arithmetic.scale (inst.fparams 0) first
  | _ => first

/-- The instruction adds its second operand after writing the result. The guard
of `FHN_MAD` compares ids. -/
def AddsLast (inst : FhnInstruction) : Prop :=
  inst.opcode = .hrotAdd ∨ inst.opcode = .hconjAdd ∨
    (inst.opcode = .mad ∧ inst.operands 1 ≠ 0 ∧ inst.operands 1 ≠ inst.resultId)

instance (inst : FhnInstruction) : Decidable (AddsLast inst) :=
  inferInstanceAs (Decidable (_ ∨ _ ∨ _))

variable [DecidableEq Ptr]

/-- A kernel that succeeds has written its value, and nothing else, to the result;
operands are read first, so the result may be one of them. -/
def SoundTable (memory : Memory σ Ptr V) (arithmetic : Arithmetic V)
    (dispatch : Dispatch Ptr σ) : Prop :=
  ∀ opcode fn, dispatch opcode = some fn → ∀ result operands params fparams world value,
    primitiveValue arithmetic opcode params fparams
      (fun slot => (operands slot).map (memory.read world)) = some value →
    (fn (some result) operands params fparams world).1 = 0 →
    memory.read (fn (some result) operands params fparams world).2 =
      Function.update (memory.read world) result value

/-- Whatever sound kernels are registered, the decomposition refuses or leaves
the fused value of the old contents in the result buffer. -/
def LeavesFusedValue (memory : Memory σ Ptr V) (arithmetic : Arithmetic V)
    (inst : FhnInstruction) (buffers : Buffers Ptr) (world : σ) (result first second : Ptr) :
    Prop :=
  ∀ dispatch, SoundTable memory arithmetic dispatch →
    (decompose dispatch inst buffers world).1 = false ∨
      memory.read (decompose dispatch inst buffers world).2 result =
        fusedValue arithmetic inst (memory.read world first) (memory.read world second)

/-- The same for all contents, whatever the operations compute. -/
def RespectsAliasing (memory : Memory σ Ptr V) (inst : FhnInstruction) (buffers : Buffers Ptr)
    (result first second : Ptr) : Prop :=
  ∀ (arithmetic : Arithmetic V) (world : σ),
    LeavesFusedValue memory arithmetic inst buffers world result first second

/-- The table that registers every primitive and never fails. -/
def memoryKernels (memory : Memory σ Ptr V) (arithmetic : Arithmetic V) : Dispatch Ptr σ :=
  fun opcode => some fun result operands params fparams world =>
    match result, primitiveValue arithmetic opcode params fparams
      (fun slot => (operands slot).map (memory.read world)) with
    | some buffer, some value => (0, memory.write world buffer value)
    | _, _ => (-1, world)

theorem memory_kernels_sound (memory : Memory σ Ptr V) (arithmetic : Arithmetic V) :
    SoundTable memory arithmetic (memoryKernels memory arithmetic) := by
  intro opcode fn registered result operands params fparams world value computed succeeded
  rw [memoryKernels, Option.some.injEq] at registered
  rw [← registered]
  simp only [computed]
  exact memory.readWrite world result value

theorem operand_value (memory : Memory σ Ptr V) (arithmetic : Arithmetic V)
    {inst : FhnInstruction} {buffers : Buffers Ptr} {first : Ptr}
    (left : buffers (inst.operands 0) = some first) (opcode : FhnOpCode) (operation : V → V)
    (computes : ∀ operands, primitiveValue arithmetic opcode inst.params inst.fparams operands =
      (operands 0).map operation) (world : σ) :
    primitiveValue arithmetic (onOperand opcode).opcode inst.params inst.fparams
      (fun slot => (slotBuffer inst buffers ((onOperand opcode).operands slot)).map
        (memory.read world)) = some (operation (memory.read world first)) := by
  have same : (onOperand opcode).opcode = opcode := rfl
  rw [same, computes]
  simp only [onOperand, Matrix.cons_val_zero, slotBuffer, left, Option.map_some]

section Calls

variable {memory : Memory σ Ptr V} {arithmetic : Arithmetic V} {dispatch : Dispatch Ptr σ}
  {inst : FhnInstruction} {buffers : Buffers Ptr} {result first second : Ptr}

theorem run_call_value (sound : SoundTable memory arithmetic dispatch)
    (placed : buffers inst.resultId = some result) {kernel : KernelCall} {world : σ} {value : V}
    (computed : primitiveValue arithmetic kernel.opcode inst.params inst.fparams
      (fun slot => (slotBuffer inst buffers (kernel.operands slot)).map (memory.read world)) =
        some value)
    (succeeded : (runCall dispatch inst buffers kernel world).1 = 0) :
    memory.read (runCall dispatch inst buffers kernel world).2 =
      Function.update (memory.read world) result value := by
  unfold runCall call at succeeded ⊢
  rw [placed] at succeeded ⊢
  cases registered : dispatch kernel.opcode with
  | none =>
      rw [registered] at succeeded
      cases succeeded
  | some fn =>
      simp only [registered] at succeeded ⊢
      exact sound _ fn registered result _ _ _ world value computed succeeded

theorem added_value (sound : SoundTable memory arithmetic dispatch)
    (placed : buffers inst.resultId = some result)
    (addend : buffers (inst.operands 1) = some second) (opcode : FhnOpCode) {world : σ} {value : V}
    (computed : primitiveValue arithmetic opcode inst.params inst.fparams
      (fun slot => (slotBuffer inst buffers ((onOperand opcode).operands slot)).map
        (memory.read world)) = some value)
    (succeeded : (runCalls dispatch inst buffers [onOperand opcode, addOperand] world).1 = 0) :
    memory.read (runCalls dispatch inst buffers [onOperand opcode, addOperand] world).2 result =
      arithmetic.add value (if second = result then value else memory.read world second) := by
  rw [run_calls_cons] at succeeded ⊢
  by_cases failed : (runCall dispatch inst buffers (onOperand opcode) world).1 = 0
  · rw [if_neg (by simp [failed]), run_calls_single] at succeeded ⊢
    have written := run_call_value sound placed computed failed
    have sum : primitiveValue arithmetic addOperand.opcode inst.params inst.fparams
        (fun slot => (slotBuffer inst buffers (addOperand.operands slot)).map
          (memory.read (runCall dispatch inst buffers (onOperand opcode) world).2)) =
        some (arithmetic.add value
          (if second = result then value else memory.read world second)) := by
      simp only [addOperand, primitiveValue, Matrix.cons_val_zero, Matrix.cons_val_one,
        slotBuffer, placed, addend, Option.map_some, written, Function.update_self]
      congr 2
      by_cases same : second = result
      · rw [same, Function.update_self, if_pos rfl]
      · rw [Function.update_of_ne same, if_neg same]
    rw [run_call_value sound placed sum succeeded, Function.update_self]
  · rw [if_pos failed] at succeeded
    exact absurd succeeded failed

theorem kept_value (sound : SoundTable memory arithmetic dispatch)
    (placed : buffers inst.resultId = some result) (opcode : FhnOpCode)
    (keeps : ∀ operands, primitiveValue arithmetic opcode inst.params inst.fparams operands =
      operands 0)
    (world : σ)
    (succeeded : (runCalls dispatch inst buffers
      (if supports dispatch opcode then [onResult opcode] else []) world).1 = 0) :
    memory.read (runCalls dispatch inst buffers
      (if supports dispatch opcode then [onResult opcode] else []) world).2 result =
        memory.read world result := by
  cases registered : supports dispatch opcode with
  | false => rfl
  | true =>
      rw [registered, if_pos rfl, run_calls_single] at succeeded
      rw [if_pos rfl, run_calls_single]
      have same : primitiveValue arithmetic (onResult opcode).opcode inst.params inst.fparams
          (fun slot => (slotBuffer inst buffers ((onResult opcode).operands slot)).map
            (memory.read world)) = some (memory.read world result) := by
        rw [onResult, keeps]
        simp [slotBuffer, placed]
      rw [run_call_value sound placed same succeeded, Function.update_self]

theorem product_value (sound : SoundTable memory arithmetic dispatch)
    (placed : buffers inst.resultId = some result)
    (left : buffers (inst.operands 0) = some first)
    (right : buffers (inst.operands 1) = some second) (world : σ)
    (succeeded : (runCalls dispatch inst buffers
      ([multiplyOperands] ++ (if supports dispatch .relinearize then [onResult .relinearize]
        else []) ++ (if supports dispatch .rescale then [onResult .rescale] else []))
          world).1 = 0) :
    memory.read (runCalls dispatch inst buffers
      ([multiplyOperands] ++ (if supports dispatch .relinearize then [onResult .relinearize]
        else []) ++ (if supports dispatch .rescale then [onResult .rescale] else [])) world).2
          result =
      arithmetic.multiply (memory.read world first) (memory.read world second) := by
  have product : primitiveValue arithmetic multiplyOperands.opcode inst.params inst.fparams
      (fun slot => (slotBuffer inst buffers (multiplyOperands.operands slot)).map
        (memory.read world)) =
      some (arithmetic.multiply (memory.read world first) (memory.read world second)) := by
    simp [multiplyOperands, primitiveValue, slotBuffer, left, right]
  obtain ⟨earlier, last⟩ := run_calls_joined _ _ _ _ _ world succeeded
  obtain ⟨multiplied, middle⟩ := run_calls_joined _ _ _ _ _ world earlier
  rw [last] at succeeded ⊢
  rw [kept_value sound placed .rescale (fun _ => rfl) _ succeeded]
  rw [middle] at earlier ⊢
  rw [kept_value sound placed .relinearize (fun _ => rfl) _ earlier]
  rw [run_calls_single] at multiplied ⊢
  rw [run_call_value sound placed product multiplied, Function.update_self]

/-- What a completed decomposition leaves in the result buffer: the fused value,
but of the intermediate where the addend has been overwritten. -/
theorem decomposed_value (sound : SoundTable memory arithmetic dispatch)
    (placed : buffers inst.resultId = some result)
    (left : buffers (inst.operands 0) = some first)
    (right : inst.opcode ≠ .hrot → buffers (inst.operands 1) = some second) (world : σ)
    (completed : (decompose dispatch inst buffers world).1 = true) :
    memory.read (decompose dispatch inst buffers world).2 result =
      fusedValue arithmetic inst (memory.read world first)
        (if AddsLast inst ∧ second = result then
          intermediate arithmetic inst (memory.read world first)
        else memory.read world second) := by
  obtain ⟨addendRead, read⟩ : ∃ value, value =
      if AddsLast inst ∧ second = result then
        intermediate arithmetic inst (memory.read world first)
      else memory.read world second := ⟨_, rfl⟩
  rw [← read]
  have unary (opcode : FhnOpCode) (operation : V → V)
      (computes : ∀ operands, primitiveValue arithmetic opcode inst.params inst.fparams operands =
        (operands 0).map operation) :=
    operand_value memory arithmetic left opcode operation computes world
  have added (opcode : FhnOpCode) (operation : V → V) (addsLast : AddsLast inst)
      (addend : buffers (inst.operands 1) = some second)
      (computes : ∀ operands, primitiveValue arithmetic opcode inst.params inst.fparams operands =
        (operands 0).map operation)
      (held : intermediate arithmetic inst (memory.read world first) =
        operation (memory.read world first))
      (succeeded : (runCalls dispatch inst buffers [onOperand opcode, addOperand] world).1 = 0) :
      memory.read (runCalls dispatch inst buffers [onOperand opcode, addOperand] world).2 result =
        arithmetic.add (operation (memory.read world first)) addendRead := by
    rw [added_value sound placed addend opcode (unary opcode operation computes) succeeded, read,
      held]
    simp only [addsLast, true_and]
  rw [decompose_eq, decomposeOutcome, decide_eq_true_iff] at completed
  rw [decompose_eq]
  obtain ⟨succeeded, complete⟩ := completed
  simp only [decomposeOutcome]
  cases opcode : inst.opcode with
  | hmult =>
      have addend := right (by simp [opcode])
      have last : ¬AddsLast inst := by simp [AddsLast, opcode]
      simp only [recipe, opcode] at succeeded complete ⊢
      split at complete
      · rename_i registered
        rw [if_pos registered] at succeeded ⊢
        rw [product_value sound placed left addend world succeeded, read,
          if_neg (by simp [last])]
        simp only [fusedValue, opcode]
      · cases complete
  | hrot =>
      simp only [recipe, opcode] at succeeded complete ⊢
      split at complete
      · rename_i registered
        rw [if_pos registered, run_calls_single] at succeeded ⊢
        rw [run_call_value sound placed
          (unary .rotate (arithmetic.rotate inst.params) (fun _ => rfl)) succeeded,
          Function.update_self]
        simp only [fusedValue, opcode]
      · cases complete
  | hrotAdd =>
      have addend := right (by simp [opcode])
      have last : AddsLast inst := Or.inl opcode
      have held : intermediate arithmetic inst (memory.read world first) =
          arithmetic.rotate inst.params (memory.read world first) := by
        simp only [intermediate, opcode]
      simp only [recipe, opcode] at succeeded complete ⊢
      simp only [fusedValue, opcode]
      split_ifs at succeeded complete ⊢
      · exact added .hrot _ last addend (fun _ => rfl) held succeeded
      · exact added .rotate _ last addend (fun _ => rfl) held succeeded
  | hconjAdd =>
      have addend := right (by simp [opcode])
      have last : AddsLast inst := Or.inr (Or.inl opcode)
      have held : intermediate arithmetic inst (memory.read world first) =
          arithmetic.conjugate (memory.read world first) := by
        simp only [intermediate, opcode]
      simp only [recipe, opcode] at succeeded complete ⊢
      simp only [fusedValue, opcode]
      split_ifs at succeeded complete ⊢
      exact added .conjugate _ last addend (fun _ => rfl) held succeeded
  | mad =>
      have addend := right (by simp [opcode])
      have held : intermediate arithmetic inst (memory.read world first) =
          arithmetic.scale (inst.fparams 0) (memory.read world first) := by
        simp only [intermediate, opcode]
      simp only [recipe, opcode] at succeeded complete ⊢
      simp only [fusedValue, opcode]
      by_cases refused : inst.operands 1 = 0 ∨ inst.operands 1 = inst.resultId
      · rw [if_pos refused] at complete
        cases complete
      · rw [not_or] at refused
        have last : AddsLast inst := Or.inr (Or.inr ⟨opcode, refused.1, refused.2⟩)
        rw [if_neg (not_or.mpr refused)] at succeeded complete ⊢
        split_ifs at succeeded complete ⊢
        exact added .multCS _ last addend (fun _ => rfl) held succeeded
  | _ =>
      simp only [recipe, opcode] at complete
      cases complete

end Calls

section Exact

variable (memory : Memory σ Ptr V) (arithmetic : Arithmetic V) (inst : FhnInstruction)
  (buffers : Buffers Ptr) (world : σ)

theorem memory_call_succeeds {result : Ptr} (placed : buffers inst.resultId = some result)
    (kernel : KernelCall) {value : V}
    (computed : primitiveValue arithmetic kernel.opcode inst.params inst.fparams
      (fun slot => (slotBuffer inst buffers (kernel.operands slot)).map (memory.read world)) =
        some value) :
    (runCall (memoryKernels memory arithmetic) inst buffers kernel world).1 = 0 := by
  simp only [runCall, call, memoryKernels, placed, computed]

theorem memory_added_succeeds {result first second : Ptr}
    (placed : buffers inst.resultId = some result)
    (left : buffers (inst.operands 0) = some first)
    (right : buffers (inst.operands 1) = some second) (opcode : FhnOpCode) (operation : V → V)
    (computes : ∀ operands, primitiveValue arithmetic opcode inst.params inst.fparams operands =
      (operands 0).map operation) :
    (runCalls (memoryKernels memory arithmetic) inst buffers [onOperand opcode, addOperand]
      world).1 = 0 := by
  have rotated := memory_call_succeeds memory arithmetic inst buffers world placed
    (onOperand opcode) (operand_value memory arithmetic left opcode operation computes world)
  have sum : primitiveValue arithmetic addOperand.opcode inst.params inst.fparams
      (fun slot => (slotBuffer inst buffers (addOperand.operands slot)).map (memory.read
        (runCall (memoryKernels memory arithmetic) inst buffers (onOperand opcode) world).2)) =
      some (arithmetic.add
        (memory.read (runCall (memoryKernels memory arithmetic) inst buffers (onOperand opcode)
          world).2 result)
        (memory.read (runCall (memoryKernels memory arithmetic) inst buffers (onOperand opcode)
          world).2 second)) := by
    simp only [addOperand, primitiveValue, Matrix.cons_val_zero, Matrix.cons_val_one, slotBuffer,
      placed, right, Option.map_some]
  rw [run_calls_cons, if_neg (by simp [rotated]), run_calls_single]
  exact memory_call_succeeds memory arithmetic inst buffers _ placed addOperand sum

theorem memory_adds_completely {result first second : Ptr}
    (placed : buffers inst.resultId = some result)
    (left : buffers (inst.operands 0) = some first)
    (right : buffers (inst.operands 1) = some second) (last : AddsLast inst) :
    (decompose (memoryKernels memory arithmetic) inst buffers world).1 = true := by
  have all (opcode : FhnOpCode) :
      supports (memoryKernels memory arithmetic) opcode = true := rfl
  rw [decompose_eq, decomposeOutcome, decide_eq_true_iff]
  rcases last with opcode | opcode | ⟨opcode, present, distinct⟩
  · simp only [recipe, opcode, all, if_true, and_true]
    exact memory_added_succeeds memory arithmetic inst buffers world placed left right .hrot _
      (fun _ => rfl)
  · simp only [recipe, opcode, all, Bool.and_self, if_true, and_true]
    exact memory_added_succeeds memory arithmetic inst buffers world placed left right .conjugate _
      (fun _ => rfl)
  · have accepted : ¬(inst.operands 1 = 0 ∨ inst.operands 1 = inst.resultId) :=
      not_or.mpr ⟨present, distinct⟩
    simp only [recipe, opcode, if_neg accepted, all, Bool.and_self, if_true, and_true]
    exact memory_added_succeeds memory arithmetic inst buffers world placed left right .multCS _
      (fun _ => rfl)

/-- On given contents the value is right when the addend is not overwritten, or when
the overwritten sum agrees. -/
theorem leaves_fused_value_iff (result first second : Ptr)
    (placed : buffers inst.resultId = some result)
    (left : buffers (inst.operands 0) = some first)
    (right : inst.opcode ≠ .hrot → buffers (inst.operands 1) = some second) :
    LeavesFusedValue memory arithmetic inst buffers world result first second ↔
      (AddsLast inst → second = result →
        arithmetic.add (intermediate arithmetic inst (memory.read world first))
            (intermediate arithmetic inst (memory.read world first)) =
          arithmetic.add (intermediate arithmetic inst (memory.read world first))
            (memory.read world second)) := by
  have sum (last : AddsLast inst) (addend : V) :
      fusedValue arithmetic inst (memory.read world first) addend =
        arithmetic.add (intermediate arithmetic inst (memory.read world first)) addend := by
    rcases last with opcode | opcode | ⟨opcode, -, -⟩
    · simp only [fusedValue, intermediate, opcode]
    · simp only [fusedValue, intermediate, opcode]
    · simp only [fusedValue, intermediate, opcode]
  constructor
  · intro respects last shared
    have addend : buffers (inst.operands 1) = some second := by
      apply right
      intro rotates
      rcases last with opcode | opcode | ⟨opcode, -, -⟩
      · simp [rotates] at opcode
      · simp [rotates] at opcode
      · simp [rotates] at opcode
    have sound := memory_kernels_sound memory arithmetic
    have completed :=
      memory_adds_completely memory arithmetic inst buffers world placed left addend last
    have value := (respects _ sound).resolve_left (by simp [completed])
    rw [decomposed_value sound placed left right world completed, if_pos ⟨last, shared⟩,
      sum last, sum last] at value
    exact value
  · intro agrees dispatch sound
    cases completed : (decompose dispatch inst buffers world).1 with
    | false => exact Or.inl rfl
    | true =>
        right
        rw [decomposed_value sound placed left right world completed]
        by_cases overwritten : AddsLast inst ∧ second = result
        · rw [if_pos overwritten, sum overwritten.1, sum overwritten.1]
          exact agrees overwritten.1 overwritten.2
        · rw [if_neg overwritten]

/-- A sum that keeps its second operand only, and constant operations. -/
def secondOnly (constant : V) : Arithmetic V where
  add := fun _ second => second
  multiply := fun first _ => first
  scale := fun _ _ => constant
  rotate := fun _ _ => constant
  conjugate := fun _ => constant

theorem second_only_intermediate (constant : V) {inst : FhnInstruction} (last : AddsLast inst)
    (first : V) : intermediate (secondOnly constant) inst first = constant := by
  rcases last with opcode | opcode | ⟨opcode, -, -⟩
  · simp only [intermediate, opcode, secondOnly]
  · simp only [intermediate, opcode, secondOnly]
  · simp only [intermediate, opcode, secondOnly]

/-- A decomposition respects aliasing exactly when it does not add last into the
addend's own buffer. -/
theorem respects_aliasing_iff [Nontrivial V] [Nonempty σ] (result first second : Ptr)
    (placed : buffers inst.resultId = some result)
    (left : buffers (inst.operands 0) = some first)
    (right : inst.opcode ≠ .hrot → buffers (inst.operands 1) = some second) :
    RespectsAliasing memory inst buffers result first second ↔
      ¬(AddsLast inst ∧ second = result) := by
  constructor
  · rintro respects ⟨last, shared⟩
    obtain ⟨constant, other, different⟩ := exists_pair_ne V
    obtain ⟨world⟩ := ‹Nonempty σ›
    -- the addend is `other`, and every intermediate is `constant`
    have agrees := (leaves_fused_value_iff memory (secondOnly constant) inst buffers
      (memory.write world second other) result first second placed left right).mp
        (respects (secondOnly constant) (memory.write world second other)) last shared
    rw [second_only_intermediate constant last, memory.readWrite, Function.update_self] at agrees
    exact different agrees
  · intro apart arithmetic start
    apply (leaves_fused_value_iff memory arithmetic inst buffers start result first second placed
      left right).mpr
    intro last shared
    exact absurd ⟨last, shared⟩ apart

end Exact

def integerMemory : Memory (Nat → Int) Nat Int where
  read := id
  write := fun world buffer value => Function.update world buffer value
  readWrite := fun _ _ _ => rfl

def integerArithmetic : Arithmetic Int where
  add := fun first second => first + second
  multiply := fun first second => first * second
  scale := fun factor value => factor.num * value
  rotate := fun params value => value + params 0
  conjugate := fun value => -value

/-- `rotate(1) + 2`, written to the given id. -/
def rotateAndAdd (result : Nat) : FhnInstruction where
  opcode := .hrotAdd
  resultId := result
  operands := ![1, 2, 0, 0]

def threeAndFive : Nat → Int := fun buffer => if buffer = 1 then 3 else 5

/-- Written over its addend, the sum is six instead of eight. -/
theorem overwritten_addend_lost :
    ¬RespectsAliasing integerMemory (rotateAndAdd 2) (fun id => some id) 2 1 2 := by
  intro respects
  rcases respects integerArithmetic threeAndFive _
    (memory_kernels_sound integerMemory integerArithmetic) with refused | value
  · exact absurd refused (by decide)
  · exact absurd value (by decide)

/-- Written over its first operand it is right. -/
theorem rotated_in_place :
    RespectsAliasing integerMemory (rotateAndAdd 1) (fun id => some id) 1 1 2 :=
  (respects_aliasing_iff integerMemory (rotateAndAdd 1) (fun id => some id) 1 1 2 rfl rfl
    (fun _ => rfl)).mpr (by decide)

end Fhenomenon.AliasedDecomposition

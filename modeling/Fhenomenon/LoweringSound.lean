import Fhenomenon.DeviceAbi
import Fhenomenon.Lowering

/-!
# Lowered programs are single assignment

Every step of the walk defines at most one new id, above all earlier ones, from
ids already defined. A meaning gives each id the value it stands for; exact
kernels then compute that value for every id of the program.
-/

namespace Fhenomenon.LoweringSound

open Fhenomenon.InstructionStream Fhenomenon.RecordedGraph Fhenomenon.Lowering
open Fhenomenon.DefaultExecutor Fhenomenon.DispatchRecipes Fhenomenon.DeviceAbi

variable {V : Type*} [Add V] [Mul V] [IntCast V]

/-- The meaning solves the equation of an instruction that lowering emits. -/
def Solves (meaning : Nat → V) (inst : FhnInstruction) : Prop :=
  match inst.opcode with
  | .addCC =>
      inst.operands 0 ≠ 0 ∧ inst.operands 1 ≠ 0 ∧
        meaning inst.resultId = meaning (inst.operands 0) + meaning (inst.operands 1)
  | .hmult =>
      inst.operands 0 ≠ 0 ∧ inst.operands 1 ≠ 0 ∧
        meaning inst.resultId = meaning (inst.operands 0) * meaning (inst.operands 1)
  | .addCS =>
      inst.operands 0 ≠ 0 ∧ ∃ scalar : Int, inst.fparams 0 = scalar ∧
        meaning inst.resultId = meaning (inst.operands 0) + scalar
  | .multCS =>
      inst.operands 0 ≠ 0 ∧ ∃ scalar : Int, inst.fparams 0 = scalar ∧
        meaning inst.resultId = meaning (inst.operands 0) * scalar
  | _ => False

theorem solves_congr {meaning other : Nat → V} {inst : FhnInstruction}
    (result : other inst.resultId = meaning inst.resultId)
    (operands : ∀ slot, inst.operands slot ≠ 0 →
      other (inst.operands slot) = meaning (inst.operands slot))
    (solves : Solves meaning inst) : Solves other inst := by
  unfold Solves at solves ⊢
  split at solves
  · obtain ⟨first, second, equation⟩ := solves
    refine ⟨first, second, ?_⟩
    rw [result, operands 0 first, operands 1 second, equation]
  · obtain ⟨first, second, equation⟩ := solves
    refine ⟨first, second, ?_⟩
    rw [result, operands 0 first, operands 1 second, equation]
  · obtain ⟨first, scalar, folded, equation⟩ := solves
    refine ⟨first, scalar, folded, ?_⟩
    rw [result, operands 0 first, equation]
  · obtain ⟨first, scalar, folded, equation⟩ := solves
    refine ⟨first, scalar, folded, ?_⟩
    rw [result, operands 0 first, equation]
  · exact solves

theorem solves_present {meaning : Nat → V} {inst : FhnInstruction} (solves : Solves meaning inst) :
    ∀ slot ∈ readSlots inst.opcode, inst.operands slot ≠ 0 := by
  intro slot member
  unfold Solves at solves
  split at solves
  all_goals
    rename_i opcode
    simp only [opcode, readSlots, List.mem_cons, List.not_mem_nil, or_false] at member
  · rcases member with rfl | rfl
    · exact solves.1
    · exact solves.2.1
  · rcases member with rfl | rfl
    · exact solves.1
    · exact solves.2.1
  · subst member
    exact solves.1
  · subst member
    exact solves.1
  · exact solves.elim

variable {Ptr σ κ : Type*}

/-- Dispatching `inst` succeeds and leaves `value` under its result. -/
def Computes (model : DeviceModel Ptr σ V κ) (dispatch : Dispatch Ptr σ) (inst : FhnInstruction)
    (state : ValueState V κ) (value : V) : Prop :=
  (valueInstruction model dispatch inst state).1 = 0 ∧
    (valueInstruction model dispatch inst state).2.values inst.resultId = some value

def OperandValue (inst : FhnInstruction) (state : ValueState V κ) (slot : Fin 4) (value : V) :
    Prop :=
  inst.operands slot ≠ 0 ∧ state.values (inst.operands slot) = some value

/-- The four opcodes that sessions record are dispatched to kernels, or to a
decomposition, computing exactly `+` and `*`. -/
structure ExactKernels (model : DeviceModel Ptr σ V κ) (dispatch : Dispatch Ptr σ) : Prop where
  addCC : ∀ inst state first second, inst.opcode = .addCC →
    OperandValue inst state 0 first → OperandValue inst state 1 second →
      Computes model dispatch inst state (first + second)
  hmult : ∀ inst state first second, inst.opcode = .hmult →
    OperandValue inst state 0 first → OperandValue inst state 1 second →
      Computes model dispatch inst state (first * second)
  addCS : ∀ inst state first (scalar : Int), inst.opcode = .addCS →
    OperandValue inst state 0 first → inst.fparams 0 = scalar →
      Computes model dispatch inst state (first + scalar)
  multCS : ∀ inst state first (scalar : Int), inst.opcode = .multCS →
    OperandValue inst state 0 first → inst.fparams 0 = scalar →
      Computes model dispatch inst state (first * scalar)

theorem solved_instruction {model : DeviceModel Ptr σ V κ} {dispatch : Dispatch Ptr σ}
    (exact : ExactKernels model dispatch) {meaning : Nat → V} {inst : FhnInstruction}
    (solves : Solves meaning inst) (state : ValueState V κ)
    (operands : ∀ id ∈ inst.usedOperands, state.values id = some (meaning id)) :
    Computes model dispatch inst state (meaning inst.resultId) := by
  have read (slot : Fin 4) (used : inst.operands slot ≠ 0) :
      OperandValue inst state slot (meaning (inst.operands slot)) :=
    ⟨used, operands _ ((mem_used_operands inst _).mpr ⟨used, slot, rfl⟩)⟩
  unfold Solves at solves
  split at solves
  · obtain ⟨first, second, equation⟩ := solves
    rw [equation]
    exact exact.addCC inst state _ _ (by assumption) (read 0 first) (read 1 second)
  · obtain ⟨first, second, equation⟩ := solves
    rw [equation]
    exact exact.hmult inst state _ _ (by assumption) (read 0 first) (read 1 second)
  · obtain ⟨first, scalar, folded, equation⟩ := solves
    rw [equation]
    exact exact.addCS inst state _ scalar (by assumption) (read 0 first) folded
  · obtain ⟨first, scalar, folded, equation⟩ := solves
    rw [equation]
    exact exact.multCS inst state _ scalar (by assumption) (read 0 first) folded
  · exact solves.elim

/-- Exact kernels give every id of a solved program its meaning. -/
theorem solved_values {model : DeviceModel Ptr σ V κ} {dispatch : Dispatch Ptr σ}
    (exact : ExactKernels model dispatch) {program : FhnProgram} (valid : SsaValid program)
    {meaning : Nat → V} (solves : ∀ inst ∈ program.instructions, Solves meaning inst)
    (count i : Nat) (total : i + count = program.instructions.length) (state : ValueState V κ)
    (known : ∀ id ∈ program.definedBefore i, state.values id = some (meaning id)) :
    (valueProgram model dispatch (program.instructions.drop i) state).1 = 0 ∧
      ∀ id ∈ program.definedIds,
        (valueProgram model dispatch (program.instructions.drop i) state).2.values id =
          some (meaning id) := by
  induction count generalizing i state with
  | zero =>
      rw [List.drop_of_length_le (by omega)]
      refine ⟨rfl, ?_⟩
      intro id member
      apply known
      rw [show i = program.instructions.length by omega, defined_before_length]
      exact member
  | succ count induction =>
      have bound : i < program.instructions.length := by omega
      have get := List.getElem?_eq_getElem bound
      obtain ⟨success, result⟩ := solved_instruction exact
        (solves _ (List.getElem_mem bound)) state
        (fun id operand => known id (valid.operandsDefined i id ⟨_, get, operand⟩))
      rw [List.drop_eq_getElem_cons bound]
      simp only [valueProgram]
      rw [if_neg (by simpa using success)]
      apply induction (i + 1) (by omega)
      intro id member
      rw [defined_before_succ program i _ get, List.mem_append, List.mem_singleton] at member
      by_cases same : id = program.instructions[i].resultId
      · rw [same]
        exact result
      · have old := member.resolve_right same
        have kept : (valueInstruction model dispatch program.instructions[i] state).2.values id =
            state.values id := value_calls_other model _ _ state id same
        rw [kept]
        exact known id old

variable {Entity : Type*}

structure Lowered (state : LoweringState Entity) (meaning : Nat → V) : Prop where
  supported : state.supported = true
  positive : 0 < state.nextId
  below : ∀ id ∈ state.program.definedIds, id < state.nextId
  valid : SsaValid state.program
  solves : ∀ inst ∈ state.instructions, Solves meaning inst
  known : ∀ address id, state.nodeIds address = some id → id ∈ state.program.definedIds
  bound : ∀ binding ∈ state.bindings, binding.1 ∈ state.program.definedIds

theorem lowered_start (meaning : Nat → V) : Lowered ({} : LoweringState Entity) meaning where
  supported := rfl
  positive := Nat.one_pos
  below := by
    intro id member
    cases member
  valid := by
    constructor
    · intro id member
      cases member
    · exact List.nodup_nil
    · intro position id reads
      obtain ⟨inst, get, -⟩ := reads
      cases get
  solves := by
    intro inst member
    cases member
  known := by
    intro address id found
    cases found
  bound := by
    intro binding member
    cases member

variable {state : LoweringState Entity} {meaning : Nat → V}

theorem next_id_fresh (lowered : Lowered state meaning) :
    state.nextId ∉ state.program.definedIds := by
  intro member
  exact absurd (lowered.below _ member) (lt_irrefl _)

theorem meaning_kept (lowered : Lowered state meaning) (value : V) (id : Nat)
    (defined : id ∈ state.program.definedIds) :
    Function.update meaning state.nextId value id = meaning id :=
  Function.update_of_ne (ne_of_mem_of_not_mem defined (next_id_fresh lowered)) _ _

theorem used_operands_defined (lowered : Lowered state meaning) (inst : FhnInstruction)
    (member : inst ∈ state.instructions) (slot : Fin 4) (used : inst.operands slot ≠ 0) :
    inst.operands slot ∈ state.program.definedIds := by
  obtain ⟨position, get⟩ := List.mem_iff_getElem?.mp member
  exact defined_before_subset _ position (lowered.valid.operandsDefined position _
    ⟨inst, get, (mem_used_operands inst _).mpr ⟨used, slot, rfl⟩⟩)

theorem solves_kept (lowered : Lowered state meaning) (value : V) (inst : FhnInstruction)
    (member : inst ∈ state.instructions) :
    Solves (Function.update meaning state.nextId value) inst := by
  apply solves_congr _ _ (lowered.solves inst member)
  · apply meaning_kept lowered
    exact List.mem_append_right _ (List.mem_map_of_mem member)
  · intro slot used
    exact meaning_kept lowered value _ (used_operands_defined lowered inst member slot used)

theorem add_input_defined (state : LoweringState Entity) (address : Nat) (entity : Entity)
    (id : Nat) : id ∈ (state.addInput address entity).program.definedIds ↔
      id ∈ state.program.definedIds ∨ id = state.nextId := by
  simp only [FhnProgram.definedIds, LoweringState.program,
    LoweringState.toProgram, LoweringState.addInput,
    List.mem_append, List.mem_singleton]
  tauto

theorem add_instruction_defined (state : LoweringState Entity) (address : Nat)
    (inst : FhnInstruction) (result : Option Entity) (id : Nat) :
    id ∈ (state.addInstruction address inst result).program.definedIds ↔
      id ∈ state.program.definedIds ∨ id = inst.resultId := by
  simp only [FhnProgram.definedIds, FhnProgram.resultIds, LoweringState.program,
    LoweringState.toProgram, LoweringState.addInstruction, List.map_append, List.map_cons,
    List.map_nil, List.mem_append, List.mem_singleton]
  tauto

/-- Ids of nodes and bindings are ids of the program. -/
structure Named (state : LoweringState Entity) : Prop where
  known : ∀ address id, state.nodeIds address = some id → id ∈ state.program.definedIds
  bound : ∀ binding ∈ state.bindings, binding.1 ∈ state.program.definedIds

theorem named_start : Named ({} : LoweringState Entity) where
  known := by
    intro address id found
    cases found
  bound := by
    intro binding member
    cases member

theorem named_add_input (named : Named state) (address : Nat) (entity : Entity) :
    Named (state.addInput address entity) where
  known := by
    intro other id found
    rw [add_input_defined]
    by_cases same : other = address
    · subst same
      simp only [LoweringState.addInput, Function.update_self, Option.some.injEq] at found
      exact Or.inr found.symm
    · simp only [LoweringState.addInput, Function.update_of_ne same] at found
      exact Or.inl (named.known other id found)
  bound := by
    intro binding member
    rw [add_input_defined]
    rcases List.mem_append.mp member with old | new
    · exact Or.inl (named.bound binding old)
    · exact Or.inr (List.mem_singleton.mp new ▸ rfl)

theorem named_add_instruction (named : Named state) (address : Nat) (inst : FhnInstruction)
    (result : Option Entity) : Named (state.addInstruction address inst result) where
  known := by
    intro other id found
    rw [add_instruction_defined]
    by_cases same : other = address
    · subst same
      simp only [LoweringState.addInstruction, Function.update_self, Option.some.injEq] at found
      exact Or.inr found.symm
    · simp only [LoweringState.addInstruction, Function.update_of_ne same] at found
      exact Or.inl (named.known other id found)
  bound := by
    intro binding member
    rw [add_instruction_defined]
    rcases List.mem_append.mp member with old | new
    · exact Or.inl (named.bound binding old)
    · exact Or.inr (List.mem_singleton.mp new ▸ rfl)

theorem named_add_assignment (named : Named state) (address : Nat) (value : ASTNode Entity)
    (result : Option Entity) : Named (state.addAssignment address value result) := by
  unfold LoweringState.addAssignment
  cases found : state.nodeIds value.address with
  | none => exact named
  | some id =>
      have defined := named.known _ id found
      constructor
      · intro other otherId otherFound
        by_cases same : other = address
        · subst same
          simp only [Function.update_self, Option.some.injEq] at otherFound
          exact otherFound ▸ defined
        · simp only [Function.update_of_ne same] at otherFound
          exact named.known other otherId otherFound
      · intro binding member
        rcases List.mem_append.mp member with old | new
        · exact named.bound binding old
        · exact List.mem_singleton.mp new ▸ defined

theorem lowered_named (lowered : Lowered state meaning) : Named state :=
  ⟨lowered.known, lowered.bound⟩

theorem lowered_add_input (lowered : Lowered state meaning) (address : Nat) (entity : Entity)
    (value : V) :
    Lowered (state.addInput address entity) (Function.update meaning state.nextId value) where
  supported := lowered.supported
  positive := Nat.succ_pos _
  below := by
    intro id member
    have next : (state.addInput address entity).nextId = state.nextId + 1 := rfl
    rcases (add_input_defined state address entity id).mp member with old | new
    · have before := lowered.below id old
      omega
    · omega
  valid := by
    have positive := lowered.positive
    exact ssa_add_input lowered.valid state.nextId (by omega) (next_id_fresh lowered)
  solves := solves_kept lowered value
  known := (named_add_input (lowered_named lowered) address entity).known
  bound := (named_add_input (lowered_named lowered) address entity).bound

theorem lowered_add_instruction (lowered : Lowered state meaning) (address : Nat)
    (inst : FhnInstruction) (result : Option Entity) (value : V)
    (named : inst.resultId = state.nextId)
    (defined : ∀ id ∈ inst.usedOperands, id ∈ state.program.definedIds)
    (solves : Solves (Function.update meaning state.nextId value) inst) :
    Lowered (state.addInstruction address inst result)
      (Function.update meaning state.nextId value) where
  supported := lowered.supported
  positive := Nat.succ_pos _
  below := by
    intro id member
    have next : (state.addInstruction address inst result).nextId = state.nextId + 1 := rfl
    rcases (add_instruction_defined state address inst result id).mp member with old | new
    · have before := lowered.below id old
      omega
    · omega
  valid := by
    have positive := lowered.positive
    exact ssa_add_instruction lowered.valid inst (by omega)
      (named ▸ next_id_fresh lowered) defined
  solves := by
    intro other member
    rcases List.mem_append.mp member with old | new
    · exact solves_kept lowered value other old
    · exact List.mem_singleton.mp new ▸ solves
  known := (named_add_instruction (lowered_named lowered) address inst result).known
  bound := (named_add_instruction (lowered_named lowered) address inst result).bound

theorem lowered_add_assignment (lowered : Lowered state meaning) (address : Nat)
    (value : ASTNode Entity) (result : Option Entity) :
    Lowered (state.addAssignment address value result) meaning := by
  have named := named_add_assignment (lowered_named lowered) address value result
  unfold LoweringState.addAssignment at named ⊢
  cases found : state.nodeIds value.address with
  | none => exact lowered
  | some id =>
      rw [found] at named
      exact ⟨lowered.supported, lowered.positive, lowered.below, lowered.valid, lowered.solves,
        named.known, named.bound⟩

variable {entities : Entity → Fhenon Ptr}

theorem lower_known (node : ASTNode Entity) {id : Nat}
    (found : state.nodeIds node.address = some id) : lowerNode entities node state = state := by
  cases node with
  | operand address entity =>
      rw [ASTNode.address] at found
      simp only [lowerNode, found, Option.isSome_some, if_true]
  | operator address operation type left right result =>
      rw [ASTNode.address] at found
      simp only [lowerNode, found, Option.isSome_some, if_true]
  | unary address operation type left result =>
      rw [ASTNode.address] at found
      simp only [lowerNode, found, Option.isSome_some, if_true]
  | fused address =>
      rw [ASTNode.address] at found
      simp only [lowerNode, found, Option.isSome_some, if_true]

theorem operator_operands_defined (lowered : Lowered state meaning) (operation : Operation Entity)
    (type : OperationType) (left right : ASTNode Entity) (scalar : Option Entity) :
    ∀ id ∈ (operatorInstruction entities operation type left right scalar state).usedOperands,
      id ∈ state.program.definedIds := by
  intro id operand
  obtain ⟨nonzero, slot, same⟩ := (mem_used_operands _ id).mp operand
  have looked (node : ASTNode Entity) (equal : (state.nodeIds node.address).getD 0 = id) :
      id ∈ state.program.definedIds := by
    cases found : state.nodeIds node.address with
    | none =>
        rw [found] at equal
        exact absurd equal.symm nonzero
    | some other =>
        rw [found] at equal
        exact equal ▸ lowered.known _ other found
  fin_cases slot
  · exact looked left same
  · exact looked right same
  · exact absurd same.symm nonzero
  · exact absurd same.symm nonzero

/-- An addition or multiplication would fold the node away. -/
def Folds (entities : Entity → Fhenon Ptr) (node : ASTNode Entity) : Prop :=
  ∃ type, scalarOperand entities type node ≠ none

theorem plain_operand_kept (address : Nat) (entity : Entity)
    (plain : (entities entity).isScalar = false) : ¬Folds entities (.operand address entity) := by
  rintro ⟨type, folded⟩
  simp [scalarOperand, plain] at folded

theorem add_root_new {node : ASTNode Entity} {roots : List (ASTNode Entity)}
    (earlier : ∀ root ∈ roots, root.address < node.address) :
    addRoot node roots = roots ++ [node] := by
  have unseen : roots.any (fun root => root.address == node.address) = false := by
    rw [List.any_eq_false]
    intro root member same
    exact absurd (beq_iff_eq.mp same) (ne_of_lt (earlier root member))
  simp only [addRoot, unseen, Bool.false_eq_true, if_false]

theorem scalar_operand_assignment (node : ASTNode Entity) :
    scalarOperand entities .assignment node = none := by
  cases node <;> simp [scalarOperand]

theorem kept_scalar_operand {node : ASTNode Entity} (kept : ¬Folds entities node)
    (type : OperationType) : scalarOperand entities type node = none := by
  by_contra folded
  exact kept ⟨type, folded⟩

end Fhenomenon.LoweringSound

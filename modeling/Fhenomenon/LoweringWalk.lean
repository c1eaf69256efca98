import Fhenomenon.DeviceAbi
import Fhenomenon.NodeGraphs
import Fhenomenon.RecordedMeaning

/-!
# The lowering walk

A node that is not yet lowered emits one input, one instruction or one renaming
once its children are lowered. The invariant lists the nodes that have emitted,
in order; what one emission keeps, the walk keeps.
-/

namespace Fhenomenon.LoweringWalk

open Fhenomenon.InstructionStream Fhenomenon.RecordedGraph Fhenomenon.Lowering
open Fhenomenon.DeviceAbi Fhenomenon.NodeGraphs Fhenomenon.RecordedMeaning

variable {Entity Ptr V : Type*}

/-- The value an instruction computes. -/
def resultValue (arithmetic : Arithmetic V) (values : Nat → V) (inst : FhnInstruction) :
    Option V :=
  let first := values (inst.operands 0)
  let second := values (inst.operands 1)
  match inst.opcode with
  | .addCC => some (arithmetic.add first second)
  | .subCC => some (arithmetic.sub first second)
  | .hmult => some (arithmetic.mul first second)
  | .addCS => some (arithmetic.add first (arithmetic.plain (inst.fparams 0)))
  | .multCS => some (arithmetic.mul first (arithmetic.plain (inst.fparams 0)))
  | .conjugate => some (arithmetic.conjugate first)
  | .rotate => some (arithmetic.rotate (inst.params 0) first)
  | _ => none

def evalInstruction (arithmetic : Arithmetic V) (values : Nat → V) (inst : FhnInstruction) :
    Nat → V :=
  match resultValue arithmetic values inst with
  | some value => Function.update values inst.resultId value
  | none => values

def evalInstructions (arithmetic : Arithmetic V) (instructions : List FhnInstruction)
    (values : Nat → V) : Nat → V :=
  instructions.foldl (evalInstruction arithmetic) values

/-- The inputs of a program hold the values of the entities first bound to them. -/
def provision (arithmetic : Arithmetic V) (store : Entity → V) (bindings : Bindings Entity)
    (id : Nat) : V :=
  match firstBound bindings id with
  | some (some entity) => store entity
  | _ => arithmetic.plain 0

/-- The meaning satisfies the equation of an instruction. -/
structure Solves (arithmetic : Arithmetic V) (meaning : Nat → V) (inst : FhnInstruction) :
    Prop where
  present : ∀ slot ∈ readSlots inst.opcode, inst.operands slot ≠ 0
  equation : resultValue arithmetic meaning inst = some (meaning inst.resultId)

variable {arithmetic : Arithmetic V}

theorem result_value_congr {values other : Nat → V} (inst : FhnInstruction)
    (operands : ∀ slot ∈ readSlots inst.opcode,
      other (inst.operands slot) = values (inst.operands slot)) :
    resultValue arithmetic other inst = resultValue arithmetic values inst := by
  unfold resultValue
  cases opcode : inst.opcode <;>
    simp only [opcode, readSlots, List.mem_cons, List.not_mem_nil, or_false, forall_eq_or_imp,
      forall_eq] at operands ⊢ <;>
    simp only [operands]

theorem read_slot_used {meaning : Nat → V} {inst : FhnInstruction}
    (solves : Solves arithmetic meaning inst) (slot : Fin 4)
    (reads : slot ∈ readSlots inst.opcode) : inst.operands slot ∈ inst.usedOperands :=
  (mem_used_operands inst _).mpr ⟨solves.present slot reads, slot, rfl⟩

theorem solves_congr {meaning other : Nat → V} {inst : FhnInstruction}
    (solves : Solves arithmetic meaning inst)
    (result : other inst.resultId = meaning inst.resultId)
    (operands : ∀ id ∈ inst.usedOperands, other id = meaning id) :
    Solves arithmetic other inst where
  present := solves.present
  equation := by
    rw [result, ← solves.equation]
    apply result_value_congr
    intro slot reads
    exact operands _ (read_slot_used solves slot reads)

/-- A solved program computes its meaning. -/
theorem eval_solved {program : FhnProgram} (valid : SsaValid program) {meaning : Nat → V}
    (solves : ∀ inst ∈ program.instructions, Solves arithmetic meaning inst)
    (count i : Nat) (total : i + count = program.instructions.length) (values : Nat → V)
    (known : ∀ id ∈ program.definedBefore i, values id = meaning id) :
    ∀ id ∈ program.definedIds,
      evalInstructions arithmetic (program.instructions.drop i) values id = meaning id := by
  induction count generalizing i values with
  | zero =>
      intro id member
      rw [List.drop_of_length_le (by omega)]
      apply known
      rw [show i = program.instructions.length by omega, defined_before_length]
      exact member
  | succ count induction =>
      have bound : i < program.instructions.length := by omega
      have get := List.getElem?_eq_getElem bound
      have solved := solves _ (List.getElem_mem bound)
      have computed : resultValue arithmetic values program.instructions[i] =
          some (meaning program.instructions[i].resultId) := by
        rw [← solved.equation]
        apply result_value_congr
        intro slot reads
        have used := read_slot_used solved slot reads
        exact known _ (valid.operandsDefined i _ ⟨_, get, used⟩)
      have stepped : evalInstruction arithmetic values program.instructions[i] =
          Function.update values program.instructions[i].resultId
            (meaning program.instructions[i].resultId) := by
        rw [evalInstruction, computed]
      rw [List.drop_eq_getElem_cons bound, evalInstructions, List.foldl_cons, stepped]
      apply induction (i + 1) (by omega)
      intro id member
      rw [defined_before_succ program i _ get, List.mem_append, List.mem_singleton] at member
      by_cases same : id = program.instructions[i].resultId
      · rw [same]
        exact Function.update_self _ _ _
      · rw [Function.update_of_ne same]
        exact known id (member.resolve_right same)

/-- What a node adds once its children are lowered. -/
def emit (entities : Entity → Fhenon Ptr) :
    ASTNode Entity → LoweringState Entity → LoweringState Entity
  | .operand address entity, state => state.addInput address entity
  | .operator address operation type left right result, state =>
      if type = .assignment then state.addAssignment address right result
      else
        state.addInstruction address (operatorInstruction entities operation type left right
          (scalarOperand entities type right) state) result
  | .unary address operation type left result, state =>
      if type = .assignment then state.addAssignment address left result
      else state.addInstruction address (unaryInstruction operation type left state) result
  | .fused _, state => { state with supported := false }

variable {entities : Entity → Fhenon Ptr}

theorem lower_node_emits (node : ASTNode Entity) (state : LoweringState Entity) :
    lowerNode entities node state =
      if (state.nodeIds node.address).isSome then state
      else emit entities node (lowerRoots entities (loweredChildren entities node) state) := by
  cases node with
  | operand address entity => rfl
  | operator address operation type left right result =>
      cases folded : (scalarOperand entities type right).isSome with
      | true => simp [lowerNode, ASTNode.address, loweredChildren, emit, folded, lowerRoots]
      | false => simp [lowerNode, ASTNode.address, loweredChildren, emit, folded, lowerRoots]
  | unary address operation type left result => rfl
  | fused address => rfl

theorem lower_roots_cons (root : ASTNode Entity) (roots : List (ASTNode Entity))
    (state : LoweringState Entity) : lowerRoots entities (root :: roots) state =
      lowerRoots entities roots (lowerNode entities root state) := rfl

theorem emit_supported (node : ASTNode Entity) (state : LoweringState Entity) :
    (emit entities node state).supported = (state.supported && !isFused node) := by
  have assigned (address : Nat) (value : ASTNode Entity) (result : Option Entity) :
      (state.addAssignment address value result).supported = state.supported := by
    unfold LoweringState.addAssignment
    split
    · rfl
    · rfl
  cases node with
  | operand address entity => simp [emit, isFused, LoweringState.addInput]
  | operator address operation type left right result =>
      rw [emit]
      split
      · simp [assigned, isFused]
      · simp [isFused, LoweringState.addInstruction]
  | unary address operation type left result =>
      rw [emit]
      split
      · simp [assigned, isFused]
      · simp [isFused, LoweringState.addInstruction]
  | fused address => simp [emit, isFused]

theorem emit_ids_other (node : ASTNode Entity) (state : LoweringState Entity) {address : Nat}
    (other : address ≠ node.address) :
    (emit entities node state).nodeIds address = state.nodeIds address := by
  have assigned (value : ASTNode Entity) (result : Option Entity) :
      (state.addAssignment node.address value result).nodeIds address =
        state.nodeIds address := by
    unfold LoweringState.addAssignment
    split
    · exact Function.update_of_ne other _ _
    · rfl
  cases node with
  | operand address entity => exact Function.update_of_ne other _ _
  | operator address operation type left right result =>
      rw [emit]
      split
      · exact assigned right result
      · exact Function.update_of_ne other _ _
  | unary address operation type left result =>
      rw [emit]
      split
      · exact assigned left result
      · exact Function.update_of_ne other _ _
  | fused address => rfl

/-- Lowering meets no fused node below the node. -/
def Clean (entities : Entity → Fhenon Ptr) (node : ASTNode Entity) : Prop :=
  ∀ below ∈ lowered entities node, isFused below = false

theorem clean_iff (node : ASTNode Entity) : Clean entities node ↔
    isFused node = false ∧ ∀ child ∈ loweredChildren entities node, Clean entities child := by
  unfold Clean
  rw [lowered_cons]
  simp only [List.mem_cons, List.mem_flatMap, forall_eq_or_imp, forall_exists_index, and_imp]
  constructor
  · intro clean
    exact ⟨clean.1, fun child member below found => clean.2 below child member found⟩
  · intro clean
    exact ⟨clean.1, fun below child member found => clean.2 child member below found⟩

def Remembers (entities : Entity → Fhenon Ptr) (graph : List (ASTNode Entity))
    (state : LoweringState Entity) : Prop :=
  state.supported = true → ∀ node ∈ graph, (state.nodeIds node.address).isSome = true →
    Clean entities node

/-- A list of nodes that a memo keyed by address can tell apart, with the
children lowering visits. -/
structure Shared (entities : Entity → Fhenon Ptr) (graph : List (ASTNode Entity)) : Prop where
  same : ∀ first ∈ graph, ∀ second ∈ graph, first.address = second.address → first = second
  closed : ∀ node ∈ graph, ∀ child ∈ loweredChildren entities node, child ∈ graph

theorem visited_inside {graph nodes : List (ASTNode Entity)} (shared : Shared entities graph)
    (inside : nodes ⊆ graph) : visited entities nodes ⊆ graph := by
  intro below member
  obtain ⟨node, nodeMember, found⟩ := List.mem_flatMap.mp member
  have started := inside nodeMember
  clear nodeMember member inside
  induction node using children_induction entities with
  | step node holds =>
      rw [lowered_cons] at found
      rcases List.mem_cons.mp found with same | later
      · exact same ▸ started
      · obtain ⟨child, childMember, deeper⟩ := List.mem_flatMap.mp later
        exact holds child childMember deeper (shared.closed node started child childMember)

def SupportedExactly (entities : Entity → Fhenon Ptr) (graph nodes : List (ASTNode Entity))
    (state next : LoweringState Entity) : Prop :=
  Remembers entities graph next ∧
    (next.supported = true ↔ state.supported = true ∧ ∀ node ∈ nodes, Clean entities node)

theorem lower_roots_supported {graph : List (ASTNode Entity)} (nodes : List (ASTNode Entity))
    (each : ∀ node ∈ nodes, ∀ state, Remembers entities graph state →
      SupportedExactly entities graph [node] state (lowerNode entities node state))
    (state : LoweringState Entity) (remembers : Remembers entities graph state) :
    SupportedExactly entities graph nodes state (lowerRoots entities nodes state) := by
  induction nodes generalizing state with
  | nil =>
      refine ⟨remembers, ?_⟩
      simp [lowerRoots]
  | cons node rest induction =>
      have first := each node List.mem_cons_self state remembers
      have later := induction (fun other member => each other (List.mem_cons_of_mem _ member))
        (lowerNode entities node state) first.1
      refine ⟨later.1, ?_⟩
      rw [lower_roots_cons, later.2, first.2]
      simp only [List.mem_singleton, forall_eq, List.forall_mem_cons, and_assoc]

theorem lower_node_supported {graph : List (ASTNode Entity)} (shared : Shared entities graph)
    (node : ASTNode Entity) : node ∈ graph → ∀ state, Remembers entities graph state →
      SupportedExactly entities graph [node] state (lowerNode entities node state) := by
  induction node using children_induction entities with
  | step node holds =>
      intro member state remembers
      rw [lower_node_emits]
      split
      · rename_i seen
        refine ⟨remembers, ?_⟩
        simp only [List.mem_singleton, forall_eq, iff_self_and]
        intro supported
        exact remembers supported node member seen
      · have below := lower_roots_supported (loweredChildren entities node)
          (fun child childMember => holds child childMember
            (shared.closed node member child childMember)) state remembers
        have exact : (emit entities node
            (lowerRoots entities (loweredChildren entities node) state)).supported = true ↔
              state.supported = true ∧ Clean entities node := by
          rw [emit_supported, Bool.and_eq_true, below.2, Bool.not_eq_true', clean_iff]
          tauto
        refine ⟨?_, ?_⟩
        · intro supported other otherMember seen
          have clean := exact.mp supported
          by_cases same : other.address = node.address
          · rw [shared.same other otherMember node member same]
            exact clean.2
          · rw [emit_ids_other node _ same] at seen
            have before := below.2.mpr ⟨clean.1, ((clean_iff node).mp clean.2).2⟩
            exact below.1 before other otherMember seen
        · rw [exact]
          simp only [List.mem_singleton, forall_eq]

end Fhenomenon.LoweringWalk

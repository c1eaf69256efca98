import Fhenomenon.LoweringSound
import Fhenomenon.RecordedMeaning

/-!
# Graphs and programs keep pace with the recording

Building the graph and lowering its roots follows the run of the operations:
each entity's node stands for the entity's current value, and so does the id
last bound to it.
-/

namespace Fhenomenon.GraphSimulation

open Fhenomenon.InstructionStream Fhenomenon.RecordedGraph Fhenomenon.Lowering
open Fhenomenon.LoweringSound Fhenomenon.RecordedMeaning

variable {Entity Ptr V : Type*}

/-- The node is lowered to an id that means `value`. -/
def Means (state : LoweringState Entity) (meaning : Nat → V) (node : ASTNode Entity) (value : V) :
    Prop :=
  ∃ id, state.nodeIds node.address = some id ∧ meaning id = value

/-- Lowered nodes keep their ids, and the ids their meaning. -/
def Extends (state : LoweringState Entity) (meaning : Nat → V) (next : LoweringState Entity)
    (extended : Nat → V) : Prop :=
  ∀ address id, state.nodeIds address = some id →
    next.nodeIds address = some id ∧ extended id = meaning id

theorem extends_refl (state : LoweringState Entity) (meaning : Nat → V) :
    Extends state meaning state meaning :=
  fun _ _ found => ⟨found, rfl⟩

theorem extends_means {state next : LoweringState Entity} {meaning extended : Nat → V}
    {node : ASTNode Entity} {value : V} (extension : Extends state meaning next extended)
    (means : Means state meaning node value) : Means next extended node value := by
  obtain ⟨id, found, same⟩ := means
  obtain ⟨kept, equal⟩ := extension _ id found
  exact ⟨id, kept, equal.trans same⟩

theorem unlowered_before {state next : LoweringState Entity} {meaning extended : Nat → V}
    (extension : Extends state meaning next extended) {address : Nat}
    (unlowered : next.nodeIds address = none) : state.nodeIds address = none := by
  cases found : state.nodeIds address with
  | none => rfl
  | some id =>
      have kept := (extension address id found).1
      rw [unlowered] at kept
      cases kept

section Equations

variable [Add V] [Mul V] [IntCast V] {entities : Entity → Fhenon Ptr}
  {state : LoweringState Entity} {meaning : Nat → V}

theorem operand_solved {node : ASTNode Entity} {value : V} (lowered : Lowered state meaning)
    (means : Means state meaning node value) (other : V) :
    (state.nodeIds node.address).getD 0 ≠ 0 ∧
      Function.update meaning state.nextId other ((state.nodeIds node.address).getD 0) = value := by
  obtain ⟨id, found, same⟩ := means
  have defined := lowered.known _ id found
  rw [found]
  exact ⟨lowered.valid.nonzero id defined, (meaning_kept lowered other id defined).trans same⟩

theorem combination_solved (lowered : Lowered state meaning) (operation : Operation Entity)
    {type : OperationType} (kind : type = .add ∨ type = .multiply) {left right : ASTNode Entity}
    {first second : V} (leftMeans : Means state meaning left first)
    (rightMeans : Means state meaning right second) :
    Solves (Function.update meaning state.nextId (combine type first second))
      (operatorInstruction entities operation type left right none state) := by
  obtain ⟨leftUsed, leftValue⟩ :=
    operand_solved lowered leftMeans (combine type first second)
  obtain ⟨rightUsed, rightValue⟩ :=
    operand_solved lowered rightMeans (combine type first second)
  have result : Function.update meaning state.nextId (combine type first second) state.nextId =
      combine type first second := Function.update_self _ _ _
  rcases kind with rfl | rfl
  · refine ⟨leftUsed, rightUsed, ?_⟩
    exact result.trans (congrArg₂ (· + ·) leftValue.symm rightValue.symm)
  · refine ⟨leftUsed, rightUsed, ?_⟩
    exact result.trans (congrArg₂ (· * ·) leftValue.symm rightValue.symm)

theorem folded_solved (lowered : Lowered state meaning) (operation : Operation Entity)
    {type : OperationType} (kind : type = .add ∨ type = .multiply) {left right : ASTNode Entity}
    (scalar : Entity) {first : V} (leftMeans : Means state meaning left first) :
    Solves (Function.update meaning state.nextId
        (combine type first (((entities scalar).val : Int) : V)))
      (operatorInstruction entities operation type left right (some scalar) state) := by
  obtain ⟨leftUsed, leftValue⟩ :=
    operand_solved lowered leftMeans (combine type first (((entities scalar).val : Int) : V))
  have result : Function.update meaning state.nextId
      (combine type first (((entities scalar).val : Int) : V)) state.nextId =
        combine type first (((entities scalar).val : Int) : V) := Function.update_self _ _ _
  rcases kind with rfl | rfl
  · refine ⟨leftUsed, (entities scalar).val, rfl, ?_⟩
    exact result.trans (congrArg (· + _) leftValue.symm)
  · refine ⟨leftUsed, (entities scalar).val, rfl, ?_⟩
    exact result.trans (congrArg (· * _) leftValue.symm)

end Equations

theorem lower_assignment_node (entities : Entity → Fhenon Ptr) {state : LoweringState Entity}
    {address : Nat} (unlowered : state.nodeIds address = none) (operation : Operation Entity)
    (left right : ASTNode Entity) (result : Option Entity) :
    lowerNode entities (.operator address operation .assignment left right result) state =
      (lowerNode entities right (lowerNode entities left state)).addAssignment address right
        result := by
  simp only [lowerNode, unlowered, Option.isSome_none, Bool.false_eq_true, if_false,
    scalar_operand_assignment, if_true]

theorem lower_combination_node {entities : Entity → Fhenon Ptr} {state : LoweringState Entity}
    {address : Nat} (unlowered : state.nodeIds address = none) (operation : Operation Entity)
    {type : OperationType} (kind : type = .add ∨ type = .multiply) (left : ASTNode Entity)
    {right : ASTNode Entity} (kept : ¬Folds entities right) (result : Option Entity) :
    lowerNode entities (.operator address operation type left right result) state =
      (lowerNode entities right (lowerNode entities left state)).addInstruction address
        (operatorInstruction entities operation type left right none
          (lowerNode entities right (lowerNode entities left state))) result := by
  have notAssignment : type ≠ .assignment := by
    rcases kind with rfl | rfl <;> simp
  simp only [lowerNode, unlowered, Option.isSome_none, Bool.false_eq_true, if_false,
    kept_scalar_operand kept, notAssignment]

theorem lower_folded_node {entities : Entity → Fhenon Ptr} {state : LoweringState Entity}
    {address : Nat} (unlowered : state.nodeIds address = none) (operation : Operation Entity)
    {type : OperationType} (kind : type = .add ∨ type = .multiply) (left : ASTNode Entity)
    (operand : Nat) {scalar : Entity} (plain : (entities scalar).isScalar = true)
    (result : Option Entity) :
    lowerNode entities (.operator address operation type left (.operand operand scalar) result)
        state =
      (lowerNode entities left state).addInstruction address
        (operatorInstruction entities operation type left (.operand operand scalar)
          (some scalar) (lowerNode entities left state)) result := by
  have notAssignment : type ≠ .assignment := by
    rcases kind with rfl | rfl <;> simp
  have folded : scalarOperand entities type (.operand operand scalar) = some scalar := by
    rcases kind with rfl | rfl <;> simp [scalarOperand, plain]
  simp only [lowerNode, unlowered, Option.isSome_none, Bool.false_eq_true, if_false, folded,
    Option.isSome_some, if_true, notAssignment]

variable [DecidableEq Entity] [Add V] [Mul V] [IntCast V]

/-- Where building and lowering stand after some operations, `store` being what
the operations made of `initial`. -/
structure Simulates (entities : Entity → Fhenon Ptr) (supplied : Entity → Prop)
    (initial : Entity → V) (build : BuildState Entity) (state : LoweringState Entity)
    (meaning : Nat → V) (store : Entity → V) : Prop where
  lowered : Lowered state meaning
  allocated : ∀ address id, state.nodeIds address = some id → address < build.nextAddress
  roots : ∀ root ∈ build.roots, root.address < build.nextAddress
  mapped : ∀ entity node, build.entityToNode entity = some node →
    Means state meaning node (store entity) ∧ ¬Folds entities node ∧
      (entities entity).isScalar = false
  bound : ∀ entity node, build.entityToNode entity = some node →
    (latestId state.bindings entity).isSome
  unmapped : ∀ entity, build.entityToNode entity = none → store entity = initial entity
  latest : ∀ entity id, latestId state.bindings entity = some id → meaning id = store entity
  inputs : ∀ id ∈ state.inputs, ∃ entity,
    firstBound state.bindings id = some (some entity) ∧ supplied entity ∧
      meaning id = initial entity

variable {entities : Entity → Fhenon Ptr} {supplied : Entity → Prop} {initial : Entity → V}
  {build : BuildState Entity} {state : LoweringState Entity} {meaning : Nat → V}
  {store : Entity → V}

theorem simulates_start (initial : Entity → V) (meaning : Nat → V) :
    Simulates entities supplied initial {} ({} : LoweringState Entity) meaning initial where
  lowered := lowered_start meaning
  allocated := by
    intro address id found
    cases found
  roots := by
    intro root member
    cases member
  mapped := by
    intro entity node found
    cases found
  bound := by
    intro entity node found
    cases found
  unmapped := fun _ _ => rfl
  latest := by
    intro entity id found
    cases found
  inputs := by
    intro id member
    cases member

theorem next_address_unlowered (simulates : Simulates entities supplied initial build state meaning
    store) : state.nodeIds build.nextAddress = none := by
  cases found : state.nodeIds build.nextAddress with
  | none => rfl
  | some id => exact absurd (simulates.allocated _ id found) (lt_irrefl _)

theorem latest_defined (lowered : Lowered state meaning) {entity : Entity} {id : Nat}
    (latest : latestId state.bindings entity = some id) : id ∈ state.program.definedIds :=
  lowered.bound _ (latest_id_mem latest)

theorem simulates_new_input
    (simulates : Simulates entities supplied initial build state meaning store) (entity : Entity)
    (unmapped : build.entityToNode entity = none) (available : supplied entity) :
    Simulates entities supplied initial (build.newOperand entity).2
        (state.addInput build.nextAddress entity)
        (Function.update meaning state.nextId (store entity)) store ∧
      Extends state meaning (state.addInput build.nextAddress entity)
        (Function.update meaning state.nextId (store entity)) ∧
      Means (state.addInput build.nextAddress entity)
        (Function.update meaning state.nextId (store entity)) (build.newOperand entity).1
        (store entity) := by
  have kept := meaning_kept simulates.lowered (store entity)
  have extension : Extends state meaning (state.addInput build.nextAddress entity)
      (Function.update meaning state.nextId (store entity)) := by
    intro address id found
    have different : address ≠ build.nextAddress :=
      ne_of_lt (simulates.allocated address id found)
    refine ⟨?_, kept id (simulates.lowered.known address id found)⟩
    simp only [LoweringState.addInput, Function.update_of_ne different]
    exact found
  refine ⟨?_, extension, state.nextId, Function.update_self _ _ _, Function.update_self _ _ _⟩
  constructor
  · exact lowered_add_input simulates.lowered build.nextAddress entity (store entity)
  · intro address id found
    by_cases same : address = build.nextAddress
    · rw [same]
      exact Nat.lt_succ_self _
    · simp only [LoweringState.addInput, Function.update_of_ne same] at found
      exact Nat.lt_succ_of_lt (simulates.allocated address id found)
  · intro root member
    exact Nat.lt_succ_of_lt (simulates.roots root member)
  · intro other node found
    obtain ⟨means, plain⟩ := simulates.mapped other node found
    exact ⟨extends_means extension means, plain⟩
  · intro other node found
    rw [LoweringState.addInput, latest_id_append]
    split
    · rfl
    · exact simulates.bound other node found
  · exact simulates.unmapped
  · intro other id found
    rw [LoweringState.addInput, latest_id_append] at found
    split at found
    · rename_i same
      rw [Option.some.injEq] at found
      rw [← found, same, Function.update_self]
    · rw [kept id (latest_defined simulates.lowered found)]
      exact simulates.latest other id found
  · intro id member
    rcases List.mem_append.mp member with old | new
    · obtain ⟨other, first, source, same⟩ := simulates.inputs id old
      refine ⟨other, first_bound_append first _, source, ?_⟩
      rw [kept id (List.mem_append_left _ old)]
      exact same
    · obtain rfl := List.mem_singleton.mp new
      refine ⟨entity, first_bound_new ?_ _, available, ?_⟩
      · intro binding earlier same
        exact next_id_fresh simulates.lowered (same ▸ simulates.lowered.bound binding earlier)
      · rw [Function.update_self]
        exact simulates.unmapped entity unmapped

theorem simulates_map_entity
    (simulates : Simulates entities supplied initial build state meaning store) (entity : Entity)
    (node : ASTNode Entity) (means : Means state meaning node (store entity))
    (kept : ¬Folds entities node) (plain : (entities entity).isScalar = false)
    (bound : (latestId state.bindings entity).isSome) :
    Simulates entities supplied initial (build.mapEntity entity node) state meaning store := by
  refine { simulates with mapped := ?_, bound := ?_, unmapped := ?_ }
  · intro other mapped found
    by_cases same : other = entity
    · subst same
      simp only [BuildState.mapEntity, Function.update_self, Option.some.injEq] at found
      exact found ▸ ⟨means, kept, plain⟩
    · simp only [BuildState.mapEntity, Function.update_of_ne same] at found
      exact simulates.mapped other mapped found
  · intro other mapped found
    by_cases same : other = entity
    · rw [same]
      exact bound
    · simp only [BuildState.mapEntity, Function.update_of_ne same] at found
      exact simulates.bound other mapped found
  · intro other found
    by_cases same : other = entity
    · subst same
      simp only [BuildState.mapEntity, Function.update_self] at found
      cases found
    · simp only [BuildState.mapEntity, Function.update_of_ne same] at found
      exact simulates.unmapped other found

theorem lower_new_operand
    (simulates : Simulates entities supplied initial build state meaning store) (entity : Entity) :
    lowerNode entities (build.newOperand entity).1 state =
      state.addInput build.nextAddress entity := by
  have unlowered := next_address_unlowered simulates
  simp only [BuildState.newOperand, lowerNode, unlowered, Option.isSome_none, Bool.false_eq_true,
    if_false]

structure Placed (entities : Entity → Fhenon Ptr) (supplied : Entity → Prop)
    (initial : Entity → V) (build made : BuildState Entity) (state next : LoweringState Entity)
    (meaning extended : Nat → V) (store : Entity → V) (node : ASTNode Entity) (entity : Entity) :
    Prop where
  simulates : Simulates entities supplied initial made next extended store
  extension : Extends state meaning next extended
  means : Means next extended node (store entity)
  roots : made.roots = build.roots
  stays : ∀ other, (build.entityToNode other).isSome → (made.entityToNode other).isSome

theorem node_for_placed
    (simulates : Simulates entities supplied initial build state meaning store) (entity : Entity)
    (plain : (entities entity).isScalar = false)
    (available : build.entityToNode entity = none → supplied entity) :
    ∃ extended, Placed entities supplied initial build (build.nodeFor entity).2 state
        (lowerNode entities (build.nodeFor entity).1 state) meaning extended store
        (build.nodeFor entity).1 entity ∧
      ¬Folds entities (build.nodeFor entity).1 := by
  cases found : build.entityToNode entity with
  | some node =>
      have made : build.nodeFor entity = (node, build) := by
        simp only [BuildState.nodeFor, found]
      obtain ⟨means, kept, -⟩ := simulates.mapped entity node found
      obtain ⟨id, lowered, same⟩ := means
      rw [made, lower_known node lowered]
      exact ⟨meaning,
        ⟨simulates, extends_refl _ _, ⟨id, lowered, same⟩, rfl, fun _ mapped => mapped⟩, kept⟩
  | none =>
      have made : build.nodeFor entity = ((build.newOperand entity).1,
          (build.newOperand entity).2.mapEntity entity (build.newOperand entity).1) := by
        simp only [BuildState.nodeFor, found]
      obtain ⟨grown, extension, means⟩ :=
        simulates_new_input simulates entity found (available found)
      have kept := plain_operand_kept build.nextAddress entity plain
      rw [made, lower_new_operand simulates entity]
      refine ⟨Function.update meaning state.nextId (store entity), ⟨?_, extension, means, rfl, ?_⟩,
        kept⟩
      · apply simulates_map_entity grown entity _ means kept plain
        rw [LoweringState.addInput, latest_id_append, if_pos rfl]
        rfl
      · intro other mapped
        by_cases same : other = entity
        · subst same
          simp [BuildState.mapEntity]
        · simp only [BuildState.mapEntity, Function.update_of_ne same]
          exact mapped

theorem scalar_unmapped
    (simulates : Simulates entities supplied initial build state meaning store) {entity : Entity}
    (scalar : (entities entity).isScalar = true) : build.entityToNode entity = none := by
  cases found : build.entityToNode entity with
  | none => rfl
  | some node =>
      have plain := (simulates.mapped entity node found).2.2
      rw [scalar] at plain
      cases plain

/-- The second operand of an operation, as the operator node will find it: folded
away, or lowered to its value. -/
theorem second_node_placed
    (simulates : Simulates entities supplied initial build state meaning store) (entity : Entity)
    (available : build.entityToNode entity = none → supplied entity) :
    ∃ extended, Placed entities supplied initial build
      (build.secondNode (entities entity).isScalar entity).2 state
      (lowerNode entities (build.secondNode (entities entity).isScalar entity).1 state) meaning
      extended store (build.secondNode (entities entity).isScalar entity).1 entity := by
  cases scalar : (entities entity).isScalar with
  | false =>
      obtain ⟨extended, placed, -⟩ := node_for_placed simulates entity scalar available
      exact ⟨extended, placed⟩
  | true =>
      have made : build.secondNode true entity = build.newOperand entity := rfl
      have unmapped := scalar_unmapped simulates scalar
      obtain ⟨grown, extension, means⟩ :=
        simulates_new_input simulates entity unmapped (available unmapped)
      rw [made, lower_new_operand simulates entity]
      exact ⟨_, grown, extension, means, rfl, fun _ mapped => mapped⟩

theorem simulates_unused_operand
    (simulates : Simulates entities supplied initial build state meaning store) (entity : Entity) :
    Simulates entities supplied initial (build.newOperand entity).2 state meaning store :=
  { simulates with
    allocated := fun address id found => Nat.lt_succ_of_lt (simulates.allocated address id found)
    roots := fun root member => Nat.lt_succ_of_lt (simulates.roots root member) }

theorem simulates_operator
    (simulates : Simulates entities supplied initial build state meaning store)
    (operation : Operation Entity) (type : OperationType) (left right : ASTNode Entity)
    (result : Entity) (id : Nat) {next : LoweringState Entity} {extended : Nat → V}
    (lowered : Lowered next extended)
    (nodeIds : next.nodeIds = Function.update state.nodeIds build.nextAddress (some id))
    (bindings : next.bindings = state.bindings ++ [(id, some result)])
    (inputs : next.inputs = state.inputs)
    (kept : ∀ other ∈ state.program.definedIds, extended other = meaning other)
    (plain : (entities result).isScalar = false) :
    Simulates entities supplied initial (build.newOperator operation type left right (some result))
      next extended (Function.update store result (extended id)) := by
  have extension : Extends state meaning next extended := by
    intro address other found
    have different : address ≠ build.nextAddress :=
      ne_of_lt (simulates.allocated address other found)
    rw [nodeIds, Function.update_of_ne different]
    exact ⟨found, kept other (simulates.lowered.known address other found)⟩
  constructor
  · exact lowered
  · intro address other found
    by_cases same : address = build.nextAddress
    · rw [same]
      exact Nat.lt_succ_self _
    · rw [nodeIds, Function.update_of_ne same] at found
      exact Nat.lt_succ_of_lt (simulates.allocated address other found)
  · intro root member
    simp only [BuildState.newOperator, addRoot] at member ⊢
    split at member
    · exact Nat.lt_succ_of_lt (simulates.roots root member)
    · rcases List.mem_append.mp member with old | new
      · exact Nat.lt_succ_of_lt (simulates.roots root old)
      · exact List.mem_singleton.mp new ▸ Nat.lt_succ_self _
  · intro entity node found
    by_cases same : entity = result
    · subst same
      simp only [BuildState.newOperator, Function.update_self, Option.some.injEq] at found
      subst found
      refine ⟨⟨id, ?_, by rw [Function.update_self]⟩, ?_, plain⟩
      · rw [nodeIds]
        exact Function.update_self _ _ _
      · rintro ⟨other, folded⟩
        exact folded rfl
    · simp only [BuildState.newOperator, Function.update_of_ne same] at found
      obtain ⟨means, rest⟩ := simulates.mapped entity node found
      rw [Function.update_of_ne same]
      exact ⟨extends_means extension means, rest⟩
  · intro entity node found
    rw [bindings, latest_id_append]
    split
    · rfl
    · rename_i different
      simp only [BuildState.newOperator, Function.update_of_ne different] at found
      exact simulates.bound entity node found
  · intro entity found
    by_cases same : entity = result
    · subst same
      simp only [BuildState.newOperator, Function.update_self] at found
      cases found
    · simp only [BuildState.newOperator, Function.update_of_ne same] at found
      rw [Function.update_of_ne same]
      exact simulates.unmapped entity found
  · intro entity other found
    rw [bindings, latest_id_append] at found
    split at found
    · rename_i same
      rw [Option.some.injEq] at found
      rw [same, found, Function.update_self]
    · rename_i different
      rw [Function.update_of_ne different, kept other (latest_defined simulates.lowered found)]
      exact simulates.latest entity other found
  · intro other member
    rw [inputs] at member
    obtain ⟨entity, first, source, same⟩ := simulates.inputs other member
    refine ⟨entity, ?_, source, ?_⟩
    · rw [bindings]
      exact first_bound_append first _
    · rw [kept other (List.mem_append_left _ member)]
      exact same

theorem simulates_assignment
    (simulates : Simulates entities supplied initial build state meaning store)
    (operation : Operation Entity) (left right : ASTNode Entity) (result : Entity) (value : V)
    (means : Means state meaning right value) (plain : (entities result).isScalar = false) :
    Simulates entities supplied initial
      (build.newOperator operation .assignment left right (some result))
      (state.addAssignment build.nextAddress right (some result)) meaning
      (Function.update store result value) := by
  obtain ⟨id, found, same⟩ := means
  have lowered := lowered_add_assignment simulates.lowered build.nextAddress right (some result)
  have emitted : state.addAssignment build.nextAddress right (some result) =
      { state with
        nodeIds := Function.update state.nodeIds build.nextAddress (some id)
        bindings := state.bindings ++ [(id, some result)] } := by
    simp only [LoweringState.addAssignment, found]
  rw [emitted] at lowered ⊢
  rw [← same]
  exact simulates_operator simulates operation .assignment left right result id lowered rfl rfl
    rfl (fun _ _ => rfl) plain

theorem simulates_instruction
    (simulates : Simulates entities supplied initial build state meaning store)
    (operation : Operation Entity) (type : OperationType) (left right : ASTNode Entity)
    (scalar : Option Entity) (result : Entity) (value : V)
    (solves : Solves (Function.update meaning state.nextId value)
      (operatorInstruction entities operation type left right scalar state))
    (plain : (entities result).isScalar = false) :
    Simulates entities supplied initial
      (build.newOperator operation type left right (some result))
      (state.addInstruction build.nextAddress
        (operatorInstruction entities operation type left right scalar state) (some result))
      (Function.update meaning state.nextId value) (Function.update store result value) := by
  have lowered := lowered_add_instruction simulates.lowered build.nextAddress
    (operatorInstruction entities operation type left right scalar state) (some result) value rfl
    (operator_operands_defined simulates.lowered operation type left right scalar) solves
  have step := simulates_operator simulates operation type left right result state.nextId lowered
    rfl rfl rfl (meaning_kept simulates.lowered value) plain
  rwa [Function.update_self] at step

structure Advances (entities : Entity → Fhenon Ptr) (supplied : Entity → Prop)
    (initial : Entity → V) (build made : BuildState Entity) (state : LoweringState Entity)
    (node : ASTNode Entity) (extended : Nat → V) (store : Entity → V)
    (operation : Operation Entity) : Prop where
  built : buildOperation entities operation build = .ok made
  roots : made.roots = build.roots ++ [node]
  simulates : Simulates entities supplied initial made (lowerNode entities node state) extended
    (runOperation store operation)
  stays : ∀ other, (build.entityToNode other).isSome → (made.entityToNode other).isSome
  creates : ∀ result, operation.result = some result → (made.entityToNode result).isSome
  touches : ∃ entity, (made.entityToNode entity).isSome

theorem new_operator_roots
    (simulates : Simulates entities supplied initial build state meaning store)
    (operation : Operation Entity) (type : OperationType) (left right : ASTNode Entity)
    (result : Option Entity) : (build.newOperator operation type left right result).roots =
      build.roots ++ [.operator build.nextAddress operation type left right result] :=
  add_root_new simulates.roots

theorem new_operator_maps (operation : Operation Entity) (type : OperationType)
    (left right : ASTNode Entity) (result : Entity) :
    ((build.newOperator operation type left right (some result)).entityToNode result).isSome := by
  simp [BuildState.newOperator]

theorem new_operator_stays (operation : Operation Entity) (type : OperationType)
    (left right : ASTNode Entity) (result other : Entity)
    (mapped : (build.entityToNode other).isSome) :
    ((build.newOperator operation type left right (some result)).entityToNode other).isSome := by
  by_cases same : other = result
  · subst same
    simp [BuildState.newOperator]
  · simp only [BuildState.newOperator, Function.update_of_ne same]
    exact mapped

theorem operands_placed
    (simulates : Simulates entities supplied initial build state meaning store)
    (operation : Operation Entity) (plain : (entities operation.operand1).isScalar = false)
    (firstAvailable : build.entityToNode operation.operand1 = none → supplied operation.operand1)
    (secondAvailable : build.entityToNode operation.operand2 = none →
      supplied operation.operand2) :
    ∃ left middle early, build.nodeFor operation.operand1 = (left, middle) ∧
      Placed entities supplied initial build middle state (lowerNode entities left state) meaning
        early store left operation.operand1 ∧
      (middle.entityToNode operation.operand2 = none → supplied operation.operand2) := by
  obtain ⟨early, placed, -⟩ := node_for_placed simulates operation.operand1 plain firstAvailable
  refine ⟨_, _, early, rfl, placed, ?_⟩
  intro unmapped
  apply secondAvailable
  rw [← Option.not_isSome_iff_eq_none] at unmapped ⊢
  exact fun mapped => unmapped (placed.stays _ mapped)

theorem assignment_advances
    (simulates : Simulates entities supplied initial build state meaning store)
    (operation : Operation Entity) (type : operation.type = .assignment)
    (unnamed : operation.result = none) (plain : (entities operation.operand1).isScalar = false)
    (firstAvailable : build.entityToNode operation.operand1 = none → supplied operation.operand1)
    (secondAvailable : build.entityToNode operation.operand2 = none →
      supplied operation.operand2) :
    ∃ made node extended,
      Advances entities supplied initial build made state node extended store operation := by
  obtain ⟨left, middle, early, firstNode, first, available⟩ :=
    operands_placed simulates operation plain firstAvailable secondAvailable
  obtain ⟨late, second⟩ := second_node_placed first.simulates operation.operand2 available
  generalize secondNode : middle.secondNode (entities operation.operand2).isScalar
    operation.operand2 = placed at second
  obtain ⟨right, last⟩ := placed
  have unlowered := unlowered_before first.extension
    (unlowered_before second.extension (next_address_unlowered second.simulates))
  have lowered := lower_assignment_node entities unlowered operation left right
    (some operation.operand1)
  have stored : runOperation store operation =
      Function.update store operation.operand1 (store operation.operand2) := by
    simp only [runOperation, type]
  refine ⟨last.newOperator operation .assignment left right (some operation.operand1),
    .operator last.nextAddress operation .assignment left right (some operation.operand1), late,
    ?_, ?_, ?_, ?_, ?_, operation.operand1, new_operator_maps operation .assignment left right _⟩
  · simp only [buildOperation, firstNode, secondNode, type]
  · rw [new_operator_roots second.simulates, second.roots, first.roots]
  · rw [lowered, stored]
    exact simulates_assignment second.simulates operation left right _ _ second.means plain
  · intro other mapped
    exact new_operator_stays operation _ _ _ _ other (second.stays _ (first.stays _ mapped))
  · intro result named
    rw [unnamed] at named
    cases named

theorem build_combination (operation : Operation Entity)
    (kind : operation.type = .add ∨ operation.type = .multiply) (result : Entity)
    (named : operation.result = some result) {left right : ASTNode Entity}
    {middle last : BuildState Entity}
    (firstNode : build.nodeFor operation.operand1 = (left, middle))
    (secondNode : middle.secondNode (entities operation.operand2).isScalar operation.operand2 =
      (right, last)) : buildOperation entities operation build =
        .ok (last.newOperator operation operation.type left right (some result)) := by
  rcases kind with type | type <;> simp only [buildOperation, firstNode, secondNode, type, named]

theorem folded_advances
    (simulates : Simulates entities supplied initial build state meaning store)
    (operation : Operation Entity) (kind : operation.type = .add ∨ operation.type = .multiply)
    (result : Entity) (named : operation.result = some result)
    (plain : (entities operation.operand1).isScalar = false)
    (resultPlain : (entities result).isScalar = false)
    (scalar : (entities operation.operand2).isScalar = true)
    (scalarValue : initial operation.operand2 = (((entities operation.operand2).val : Int) : V))
    (firstAvailable : build.entityToNode operation.operand1 = none → supplied operation.operand1)
    (secondAvailable : build.entityToNode operation.operand2 = none →
      supplied operation.operand2) :
    ∃ made node extended,
      Advances entities supplied initial build made state node extended store operation := by
  obtain ⟨left, middle, early, firstNode, first, -⟩ :=
    operands_placed simulates operation plain firstAvailable secondAvailable
  have unmapped : middle.entityToNode operation.operand2 = none :=
    scalar_unmapped first.simulates scalar
  have value : store operation.operand2 = (((entities operation.operand2).val : Int) : V) :=
    (first.simulates.unmapped _ unmapped).trans scalarValue
  have grown := simulates_unused_operand first.simulates operation.operand2
  generalize placed : (middle.newOperand operation.operand2).2 = last at grown
  have unlowered := unlowered_before first.extension (next_address_unlowered grown)
  have lowered := lower_folded_node unlowered operation kind left middle.nextAddress scalar
    (some result)
  have secondNode : middle.secondNode true operation.operand2 =
      (.operand middle.nextAddress operation.operand2, last) := by
    rw [← placed]
    rfl
  generalize ASTNode.operand middle.nextAddress operation.operand2 = right at lowered secondNode
  have roots : last.roots = middle.roots := by
    rw [← placed]
    rfl
  have mapping : last.entityToNode = middle.entityToNode := by
    rw [← placed]
    rfl
  refine ⟨last.newOperator operation operation.type left right (some result),
    .operator last.nextAddress operation operation.type left right (some result),
    Function.update early (lowerNode entities left state).nextId
      (combine operation.type (store operation.operand1)
        (((entities operation.operand2).val : Int) : V)),
    ?_, ?_, ?_, ?_, ?_, result, new_operator_maps operation operation.type left right result⟩
  · apply build_combination operation kind result named firstNode
    rw [scalar]
    exact secondNode
  · rw [new_operator_roots grown, roots, first.roots]
  · rw [lowered, run_combination store operation kind result named, value]
    exact simulates_instruction grown operation operation.type left right _ result _
      (folded_solved grown.lowered operation kind operation.operand2 first.means) resultPlain
  · intro other mapped
    apply new_operator_stays
    rw [mapping]
    exact first.stays other mapped
  · intro created equal
    rw [named, Option.some.injEq] at equal
    exact equal ▸ new_operator_maps operation operation.type left right result

theorem combination_advances
    (simulates : Simulates entities supplied initial build state meaning store)
    (operation : Operation Entity) (kind : operation.type = .add ∨ operation.type = .multiply)
    (result : Entity) (named : operation.result = some result)
    (plain : (entities operation.operand1).isScalar = false)
    (resultPlain : (entities result).isScalar = false)
    (ciphertext : (entities operation.operand2).isScalar = false)
    (firstAvailable : build.entityToNode operation.operand1 = none → supplied operation.operand1)
    (secondAvailable : build.entityToNode operation.operand2 = none →
      supplied operation.operand2) :
    ∃ made node extended,
      Advances entities supplied initial build made state node extended store operation := by
  obtain ⟨left, middle, early, firstNode, first, available⟩ :=
    operands_placed simulates operation plain firstAvailable secondAvailable
  obtain ⟨late, second, kept⟩ :=
    node_for_placed first.simulates operation.operand2 ciphertext available
  generalize secondNode : middle.nodeFor operation.operand2 = placed at second kept
  obtain ⟨right, last⟩ := placed
  have unlowered := unlowered_before first.extension
    (unlowered_before second.extension (next_address_unlowered second.simulates))
  have lowered := lower_combination_node unlowered operation kind left kept (some result)
  refine ⟨last.newOperator operation operation.type left right (some result),
    .operator last.nextAddress operation operation.type left right (some result),
    Function.update late (lowerNode entities right (lowerNode entities left state)).nextId
      (combine operation.type (store operation.operand1) (store operation.operand2)),
    ?_, ?_, ?_, ?_, ?_, result, new_operator_maps operation operation.type left right result⟩
  · apply build_combination operation kind result named firstNode
    rw [ciphertext]
    exact secondNode
  · rw [new_operator_roots second.simulates, second.roots, first.roots]
  · rw [lowered, run_combination store operation kind result named]
    exact simulates_instruction second.simulates operation operation.type left right none
      result _ (combination_solved second.simulates.lowered operation kind
        (extends_means second.extension first.means) second.means) resultPlain
  · intro other mapped
    exact new_operator_stays operation _ _ _ _ other (second.stays _ (first.stays _ mapped))
  · intro created equal
    rw [named, Option.some.injEq] at equal
    exact equal ▸ new_operator_maps operation operation.type left right result

/-- The scalars of a recording mean their plaintext from the start. -/
def ScalarsHold (entities : Entity → Fhenon Ptr) (initial : Entity → V) : Prop :=
  ∀ entity, (entities entity).isScalar = true →
    initial entity = (((entities entity).val : Int) : V)

theorem operation_advances
    (simulates : Simulates entities supplied initial build state meaning store)
    (scalars : ScalarsHold entities initial) (operation : Operation Entity)
    (kind : RecordedKind operation) (plain : (entities operation.operand1).isScalar = false)
    (resultPlain : ∀ result, operation.result = some result →
      (entities result).isScalar = false)
    (firstAvailable : build.entityToNode operation.operand1 = none → supplied operation.operand1)
    (secondAvailable : build.entityToNode operation.operand2 = none →
      supplied operation.operand2) :
    ∃ made node extended,
      Advances entities supplied initial build made state node extended store operation := by
  rcases kind with ⟨type, unnamed⟩ | ⟨kind, named⟩
  · exact assignment_advances simulates operation type unnamed plain firstAvailable
      secondAvailable
  · obtain ⟨result, named⟩ := Option.isSome_iff_exists.mp named
    cases scalar : (entities operation.operand2).isScalar with
    | true =>
        exact folded_advances simulates operation kind result named plain
          (resultPlain result named) scalar (scalars _ scalar) firstAvailable secondAvailable
    | false =>
        exact combination_advances simulates operation kind result named plain
          (resultPlain result named) scalar firstAvailable secondAvailable

structure Completed (entities : Entity → Fhenon Ptr) (supplied : Entity → Prop)
    (initial : Entity → V) (operations : List (Operation Entity))
    (build made : BuildState Entity) (state : LoweringState Entity)
    (added : List (ASTNode Entity)) (extended : Nat → V) (store : Entity → V) : Prop where
  built : buildOperations entities operations build = .ok made
  roots : made.roots = build.roots ++ added
  simulates : Simulates entities supplied initial made (lowerRoots entities added state) extended
    (runOperations operations store)
  stays : ∀ other, (build.entityToNode other).isSome → (made.entityToNode other).isSome
  creates : ∀ result ∈ produced operations, (made.entityToNode result).isSome
  touches : operations ≠ [] → ∃ entity, (made.entityToNode entity).isSome

theorem operations_advance (operations : List (Operation Entity))
    (recorded : Recorded entities operations) (scalars : ScalarsHold entities initial)
    (simulates : Simulates entities supplied initial build state meaning store)
    (pending : ∀ entity, Mentions operations entity → build.entityToNode entity = none →
      entity ∉ produced operations → supplied entity) :
    ∃ made added extended,
      Completed entities supplied initial operations build made state added extended store := by
  induction operations generalizing build state meaning store with
  | nil =>
      refine ⟨build, [], meaning, rfl, (List.append_nil _).symm, simulates, fun _ old => old, ?_,
        fun nonempty => absurd rfl nonempty⟩
      intro result member
      cases member
  | cons operation rest induction =>
      obtain ⟨firstNew, secondNew, restFresh⟩ := recorded.fresh
      have head := List.mem_cons_self (a := operation) (l := rest)
      obtain ⟨plain, resultPlain⟩ := recorded.scalarsSecond operation head
      obtain ⟨middle, node, early, step⟩ := operation_advances simulates scalars operation
        (recorded.kinds operation head) plain resultPlain
        (fun unmapped => pending _ ⟨operation, head, Or.inl rfl⟩ unmapped firstNew)
        (fun unmapped => pending _ ⟨operation, head, Or.inr rfl⟩ unmapped secondNew)
      have restRecorded : Recorded entities rest :=
        ⟨fun other member => recorded.kinds other (List.mem_cons_of_mem _ member), restFresh,
          fun other member => recorded.scalarsSecond other (List.mem_cons_of_mem _ member)⟩
      have mapped (entity : Entity) (created : operation.result = some entity) :
          (middle.entityToNode entity).isSome := step.creates entity created
      obtain ⟨made, added, late, completed⟩ := induction restRecorded step.simulates (by
        intro entity mentioned unmapped later
        rw [← Option.not_isSome_iff_eq_none] at unmapped
        apply pending entity
        · obtain ⟨other, member, operand⟩ := mentioned
          exact ⟨other, List.mem_cons_of_mem _ member, operand⟩
        · rw [← Option.not_isSome_iff_eq_none]
          exact fun old => unmapped (step.stays entity old)
        · intro created
          rw [produced, List.filterMap_cons] at created
          cases named : operation.result with
          | none =>
              rw [named] at created
              exact later created
          | some result =>
              rw [named] at created
              rcases List.mem_cons.mp created with same | after
              · exact unmapped (mapped entity (same ▸ named))
              · exact later after)
      refine ⟨made, node :: added, late, ?_, ?_, ?_, ?_, ?_, ?_⟩
      · rw [buildOperations, step.built]
        exact completed.built
      · rw [completed.roots, step.roots, List.append_assoc, List.singleton_append]
      · exact completed.simulates
      · exact fun other old => completed.stays other (step.stays other old)
      · intro result member
        rw [produced, List.filterMap_cons] at member
        cases named : operation.result with
        | none =>
            rw [named] at member
            exact completed.creates result member
        | some created =>
            rw [named] at member
            rcases List.mem_cons.mp member with same | after
            · exact completed.stays result (mapped result (same ▸ named))
            · exact completed.creates result after
      · intro nonempty
        obtain ⟨entity, touched⟩ := step.touches
        exact ⟨entity, completed.stays entity touched⟩

end Fhenomenon.GraphSimulation

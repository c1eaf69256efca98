import Fhenomenon.BufferOwnership
import Fhenomenon.GraphSimulation

/-!
# Which intermediates a session's plan frees

`executeThroughFhnRuntime` pins the id last bound to every entity, among them the
entity that each sum and product creates for its own result. Which operation's
value an entity holds in the end is followed through recording, graph and
lowering by position, one instruction for each sum or product.
-/

namespace Fhenomenon.PinnedIntermediates

open Fhenomenon.InstructionStream Fhenomenon.RecordedGraph Fhenomenon.Lowering
open Fhenomenon.LoweringSound Fhenomenon.RecordedMeaning Fhenomenon.GraphSimulation
open Fhenomenon.MovementPlanner Fhenomenon.PlanLifetimes Fhenomenon.PlanAcceptance
open Fhenomenon.SessionRuntime Fhenomenon.WriteBack Fhenomenon.BufferOwnership
open Fhenomenon.DefaultExecutor Fhenomenon.SessionRefinement

variable {Entity Ptr V : Type*}

/-- The id of the instruction at that position, or of some input. -/
def Stands (state : LoweringState Entity) : Option Nat → Nat → Prop
  | some position, id => (state.instructions.map (·.resultId))[position]? = some id
  | none, id => id ∈ state.inputs

theorem stands_add_input {state : LoweringState Entity} (address : Nat) (entity : Entity)
    {held : Option Nat} {id : Nat} (stands : Stands state held id) :
    Stands (state.addInput address entity) held id := by
  cases held with
  | none => exact List.mem_append_left _ stands
  | some position => exact stands

theorem stands_add_instruction {state : LoweringState Entity} (address : Nat)
    (inst : FhnInstruction) (result : Option Entity) {held : Option Nat} {id : Nat}
    (stands : Stands state held id) :
    Stands (state.addInstruction address inst result) held id := by
  cases held with
  | none => exact stands
  | some position =>
      have bound := (List.getElem?_eq_some_iff.mp stands).1
      simp only [Stands, LoweringState.addInstruction, List.map_append]
      rw [List.getElem?_append_left bound]
      exact stands

/-- The sums and products so far, and for each entity the one whose value it holds. -/
structure Holders (Entity : Type*) where
  count : Nat := 0
  holds : Entity → Option Nat := fun _ => none

variable [DecidableEq Entity]

/-- A sum or product is held by its result; an assignment passes its value on. -/
def holdOperation (holders : Holders Entity) (operation : Operation Entity) : Holders Entity :=
  match operation.type, operation.result with
  | .assignment, _ =>
      { holders with
        holds := Function.update holders.holds operation.operand1
          (holders.holds operation.operand2) }
  | .add, some result | .multiply, some result =>
      { count := holders.count + 1
        holds := Function.update holders.holds result (some holders.count) }
  | _, _ => holders

def finalHolders (operations : List (Operation Entity)) : Entity → Option Nat :=
  (operations.foldl holdOperation {}).holds

theorem hold_combination (holders : Holders Entity) (operation : Operation Entity)
    (kind : operation.type = .add ∨ operation.type = .multiply) (result : Entity)
    (named : operation.result = some result) : holdOperation holders operation =
      { count := holders.count + 1
        holds := Function.update holders.holds result (some holders.count) } := by
  rcases kind with type | type <;> simp only [holdOperation, type, named]

/-- Where building and lowering stand beside the holders. -/
structure Follows (build : BuildState Entity) (state : LoweringState Entity)
    (holders : Holders Entity) : Prop where
  counted : holders.count = state.instructions.length
  mapped : ∀ entity node, build.entityToNode entity = some node →
    ∃ id, state.nodeIds node.address = some id ∧ Stands state (holders.holds entity) id
  unmapped : ∀ entity, build.entityToNode entity = none → holders.holds entity = none
  latest : ∀ entity id, latestId state.bindings entity = some id →
    Stands state (holders.holds entity) id

theorem follows_start :
    Follows ({} : BuildState Entity) ({} : LoweringState Entity) ({} : Holders Entity) where
  counted := rfl
  mapped := by
    intro entity node found
    cases found
  unmapped := fun _ _ => rfl
  latest := by
    intro entity id found
    cases found

variable [Add V] [Mul V] [IntCast V] {entities : Entity → Fhenon Ptr}
  {supplied : Entity → Prop} {initial : Entity → V} {build : BuildState Entity}
  {state : LoweringState Entity} {meaning : Nat → V} {store : Entity → V}
  {holders : Holders Entity}

theorem follows_new_input
    (simulates : Simulates entities supplied initial build state meaning store)
    (follows : Follows build state holders) (entity : Entity)
    (unmapped : build.entityToNode entity = none) :
    Follows (build.newOperand entity).2 (state.addInput build.nextAddress entity) holders := by
  constructor
  · exact follows.counted
  · intro other node found
    obtain ⟨id, known, stands⟩ := follows.mapped other node found
    have different : node.address ≠ build.nextAddress :=
      ne_of_lt (simulates.allocated _ id known)
    refine ⟨id, ?_, stands_add_input _ entity stands⟩
    simp only [LoweringState.addInput, Function.update_of_ne different]
    exact known
  · exact follows.unmapped
  · intro other id found
    rw [LoweringState.addInput, latest_id_append] at found
    split at found
    · rename_i same
      rw [Option.some.injEq] at found
      rw [same, follows.unmapped entity unmapped, ← found]
      exact List.mem_append_right _ (List.mem_singleton_self _)
    · exact stands_add_input _ entity (follows.latest other id found)

theorem follows_map_entity (follows : Follows build state holders) (entity : Entity)
    (node : ASTNode Entity) {id : Nat} (known : state.nodeIds node.address = some id)
    (stands : Stands state (holders.holds entity) id) :
    Follows (build.mapEntity entity node) state holders := by
  refine { follows with mapped := ?_, unmapped := ?_ }
  · intro other mapped found
    by_cases same : other = entity
    · subst same
      simp only [BuildState.mapEntity, Function.update_self, Option.some.injEq] at found
      exact ⟨id, found ▸ known, stands⟩
    · simp only [BuildState.mapEntity, Function.update_of_ne same] at found
      exact follows.mapped other mapped found
  · intro other found
    by_cases same : other = entity
    · subst same
      simp only [BuildState.mapEntity, Function.update_self] at found
      cases found
    · simp only [BuildState.mapEntity, Function.update_of_ne same] at found
      exact follows.unmapped other found

/-- Following on, with the node lowered to an id that stands for the entity. -/
def Reaches (made : BuildState Entity) (next : LoweringState Entity) (holders : Holders Entity)
    (node : ASTNode Entity) (entity : Entity) : Prop :=
  Follows made next holders ∧
    ∃ id, next.nodeIds node.address = some id ∧ Stands next (holders.holds entity) id

theorem new_input_reaches
    (simulates : Simulates entities supplied initial build state meaning store)
    (follows : Follows build state holders) (entity : Entity)
    (unmapped : build.entityToNode entity = none) :
    Reaches (build.newOperand entity).2 (lowerNode entities (build.newOperand entity).1 state)
      holders (build.newOperand entity).1 entity := by
  rw [lower_new_operand simulates entity]
  refine ⟨follows_new_input simulates follows entity unmapped, state.nextId,
    Function.update_self _ _ _, ?_⟩
  rw [follows.unmapped entity unmapped]
  exact List.mem_append_right _ (List.mem_singleton_self _)

theorem node_for_reaches
    (simulates : Simulates entities supplied initial build state meaning store)
    (follows : Follows build state holders) (entity : Entity) :
    Reaches (build.nodeFor entity).2 (lowerNode entities (build.nodeFor entity).1 state) holders
      (build.nodeFor entity).1 entity := by
  cases found : build.entityToNode entity with
  | some node =>
      have made : build.nodeFor entity = (node, build) := by
        simp only [BuildState.nodeFor, found]
      obtain ⟨id, known, stands⟩ := follows.mapped entity node found
      rw [made, lower_known node known]
      exact ⟨follows, id, known, stands⟩
  | none =>
      have made : build.nodeFor entity = ((build.newOperand entity).1,
          (build.newOperand entity).2.mapEntity entity (build.newOperand entity).1) := by
        simp only [BuildState.nodeFor, found]
      obtain ⟨grown, id, known, stands⟩ := new_input_reaches simulates follows entity found
      rw [made]
      exact ⟨follows_map_entity grown entity _ known stands, id, known, stands⟩

theorem second_node_reaches
    (simulates : Simulates entities supplied initial build state meaning store)
    (follows : Follows build state holders) (entity : Entity) :
    Reaches (build.secondNode (entities entity).isScalar entity).2
      (lowerNode entities (build.secondNode (entities entity).isScalar entity).1 state) holders
      (build.secondNode (entities entity).isScalar entity).1 entity := by
  cases scalar : (entities entity).isScalar with
  | false => exact node_for_reaches simulates follows entity
  | true => exact new_input_reaches simulates follows entity (scalar_unmapped simulates scalar)

/-- An operator node, once lowered to `id`, makes `result` hold what `id` stands for. -/
theorem follows_operator
    (simulates : Simulates entities supplied initial build state meaning store)
    (follows : Follows build state holders) (operation : Operation Entity) (type : OperationType)
    (left right : ASTNode Entity) (result : Entity) (id : Nat) {next : LoweringState Entity}
    {held : Option Nat} {count : Nat} (counted : count = next.instructions.length)
    (nodeIds : next.nodeIds = Function.update state.nodeIds build.nextAddress (some id))
    (bindings : next.bindings = state.bindings ++ [(id, some result)])
    (kept : ∀ other otherId, Stands state other otherId → Stands next other otherId)
    (stands : Stands next held id) :
    Follows (build.newOperator operation type left right (some result)) next
      { count := count, holds := Function.update holders.holds result held } := by
  constructor
  · exact counted
  · intro entity node found
    by_cases same : entity = result
    · subst same
      simp only [BuildState.newOperator, Function.update_self, Option.some.injEq] at found
      subst found
      refine ⟨id, ?_, ?_⟩
      · rw [nodeIds]
        exact Function.update_self _ _ _
      · simp only [Function.update_self]
        exact stands
    · simp only [BuildState.newOperator, Function.update_of_ne same] at found
      obtain ⟨other, known, old⟩ := follows.mapped entity node found
      have different : node.address ≠ build.nextAddress :=
        ne_of_lt (simulates.allocated _ other known)
      refine ⟨other, ?_, ?_⟩
      · rw [nodeIds, Function.update_of_ne different]
        exact known
      · simp only [Function.update_of_ne same]
        exact kept _ _ old
  · intro entity found
    by_cases same : entity = result
    · subst same
      simp only [BuildState.newOperator, Function.update_self] at found
      cases found
    · simp only [BuildState.newOperator, Function.update_of_ne same] at found
      simp only [Function.update_of_ne same]
      exact follows.unmapped entity found
  · intro entity other found
    rw [bindings, latest_id_append] at found
    split at found
    · rename_i same
      rw [Option.some.injEq] at found
      simp only [same, Function.update_self, ← found]
      exact stands
    · rename_i different
      simp only [Function.update_of_ne different]
      exact kept _ _ (follows.latest entity other found)

theorem assignment_follows
    (simulates : Simulates entities (fun _ => True) initial build state meaning store)
    (follows : Follows build state holders) (operation : Operation Entity)
    (type : operation.type = .assignment) (plain : (entities operation.operand1).isScalar = false) :
    ∃ made node, buildOperation entities operation build = .ok made ∧
      made.roots = build.roots ++ [node] ∧
        Follows made (lowerNode entities node state) (holdOperation holders operation) := by
  obtain ⟨early, first, -⟩ := node_for_placed simulates operation.operand1 plain (fun _ => trivial)
  obtain ⟨reached, -⟩ := node_for_reaches simulates follows operation.operand1
  generalize firstNode : build.nodeFor operation.operand1 = placed at first reached
  obtain ⟨left, middle⟩ := placed
  obtain ⟨late, second⟩ := second_node_placed first.simulates operation.operand2 (fun _ => trivial)
  obtain ⟨grown, id, known, stands⟩ :=
    second_node_reaches first.simulates reached operation.operand2
  generalize secondNode : middle.secondNode (entities operation.operand2).isScalar
    operation.operand2 = placed at second grown known stands
  obtain ⟨right, last⟩ := placed
  have unlowered := unlowered_before first.extension
    (unlowered_before second.extension (next_address_unlowered second.simulates))
  have held : holdOperation holders operation =
      { count := holders.count
        holds := Function.update holders.holds operation.operand1
          (holders.holds operation.operand2) } := by
    simp only [holdOperation, type]
  refine ⟨last.newOperator operation .assignment left right (some operation.operand1),
    .operator last.nextAddress operation .assignment left right (some operation.operand1),
    ?_, ?_, ?_⟩
  · simp only [buildOperation, firstNode, secondNode, type]
  · rw [new_operator_roots second.simulates, second.roots, first.roots]
  · rw [lower_assignment_node entities unlowered, held]
    simp only [LoweringState.addAssignment, known]
    exact follows_operator second.simulates grown operation .assignment left right _ id
      grown.counted rfl rfl (fun _ _ old => old) stands

theorem follows_instruction
    (simulates : Simulates entities supplied initial build state meaning store)
    (follows : Follows build state holders) (operation : Operation Entity)
    (kind : operation.type = .add ∨ operation.type = .multiply) (left right : ASTNode Entity)
    (scalar : Option Entity) (result : Entity) (named : operation.result = some result) :
    Follows (build.newOperator operation operation.type left right (some result))
      (state.addInstruction build.nextAddress
        (operatorInstruction entities operation operation.type left right scalar state)
        (some result)) (holdOperation holders operation) := by
  rw [hold_combination holders operation kind result named]
  apply follows_operator simulates follows operation operation.type left right result state.nextId
  · simp only [LoweringState.addInstruction, List.length_append, List.length_singleton,
      follows.counted]
  · rfl
  · rfl
  · exact fun _ _ old => stands_add_instruction _ _ _ old
  · simp only [Stands, LoweringState.addInstruction, List.map_append, List.map_cons, List.map_nil]
    rw [follows.counted, List.getElem?_append_right (by simp), List.length_map, Nat.sub_self]
    rfl

theorem combination_follows
    (simulates : Simulates entities (fun _ => True) initial build state meaning store)
    (follows : Follows build state holders) (operation : Operation Entity)
    (kind : operation.type = .add ∨ operation.type = .multiply) (result : Entity)
    (named : operation.result = some result)
    (plain : (entities operation.operand1).isScalar = false) :
    ∃ made node, buildOperation entities operation build = .ok made ∧
      made.roots = build.roots ++ [node] ∧
        Follows made (lowerNode entities node state) (holdOperation holders operation) := by
  obtain ⟨early, first, -⟩ := node_for_placed simulates operation.operand1 plain (fun _ => trivial)
  obtain ⟨reached, -⟩ := node_for_reaches simulates follows operation.operand1
  generalize firstNode : build.nodeFor operation.operand1 = placed at first reached
  obtain ⟨left, middle⟩ := placed
  cases scalar : (entities operation.operand2).isScalar with
  | true =>
      have grown := simulates_unused_operand first.simulates operation.operand2
      have followed : Follows (middle.newOperand operation.operand2).2
        (lowerNode entities left state) holders := { reached with }
      generalize placed : (middle.newOperand operation.operand2).2 = last at grown followed
      have secondNode : middle.secondNode (entities operation.operand2).isScalar
          operation.operand2 = (.operand middle.nextAddress operation.operand2, last) := by
        rw [scalar, ← placed]
        rfl
      have roots : last.roots = build.roots := by
        rw [← placed]
        exact first.roots
      have unlowered := unlowered_before first.extension (next_address_unlowered grown)
      refine ⟨_, .operator last.nextAddress operation operation.type left
          (.operand middle.nextAddress operation.operand2) (some result),
        build_combination operation kind result named firstNode secondNode, ?_, ?_⟩
      · rw [new_operator_roots grown, roots]
      · rw [lower_folded_node unlowered operation kind left _ scalar]
        exact follows_instruction grown followed operation kind left _ _ result named
  | false =>
      obtain ⟨late, second, kept⟩ :=
        node_for_placed first.simulates operation.operand2 scalar (fun _ => trivial)
      obtain ⟨grown, -⟩ := node_for_reaches first.simulates reached operation.operand2
      generalize secondNode : middle.nodeFor operation.operand2 = placed at second kept grown
      obtain ⟨right, last⟩ := placed
      have unlowered := unlowered_before first.extension
        (unlowered_before second.extension (next_address_unlowered second.simulates))
      have placed : middle.secondNode (entities operation.operand2).isScalar
          operation.operand2 = (right, last) := by
        rw [scalar]
        exact secondNode
      refine ⟨_, .operator last.nextAddress operation operation.type left right (some result),
        build_combination operation kind result named firstNode placed, ?_, ?_⟩
      · rw [new_operator_roots second.simulates, second.roots, first.roots]
      · rw [lower_combination_node unlowered operation kind left kept]
        exact follows_instruction second.simulates grown operation kind left right none result
          named

theorem operation_follows
    (simulates : Simulates entities (fun _ => True) initial build state meaning store)
    (follows : Follows build state holders) (operation : Operation Entity)
    (kind : RecordedKind operation) (plain : (entities operation.operand1).isScalar = false) :
    ∃ made node, buildOperation entities operation build = .ok made ∧
      made.roots = build.roots ++ [node] ∧
        Follows made (lowerNode entities node state) (holdOperation holders operation) := by
  rcases kind with ⟨type, -⟩ | ⟨kind, named⟩
  · exact assignment_follows simulates follows operation type plain
  · obtain ⟨result, named⟩ := Option.isSome_iff_exists.mp named
    exact combination_follows simulates follows operation kind result named plain

theorem operations_follow (operations : List (Operation Entity))
    (recorded : Recorded entities operations) (scalars : ScalarsHold entities initial)
    (simulates : Simulates entities (fun _ => True) initial build state meaning store)
    (follows : Follows build state holders) :
    ∃ made added extended final, buildOperations entities operations build = .ok made ∧
      made.roots = build.roots ++ added ∧
        Simulates entities (fun _ => True) initial made (lowerRoots entities added state) extended
          final ∧
        Follows made (lowerRoots entities added state)
          (operations.foldl holdOperation holders) := by
  induction operations generalizing build state meaning store holders with
  | nil => exact ⟨build, [], meaning, store, rfl, (List.append_nil _).symm, simulates, follows⟩
  | cons operation rest induction =>
      have head := List.mem_cons_self (a := operation) (l := rest)
      obtain ⟨plain, resultPlain⟩ := recorded.scalarsSecond operation head
      have kind := recorded.kinds operation head
      obtain ⟨middle, node, early, step⟩ := operation_advances simulates scalars operation kind
        plain resultPlain (fun _ => trivial) (fun _ => trivial)
      obtain ⟨made, root, built, roots, followed⟩ :=
        operation_follows simulates follows operation kind plain
      obtain rfl : middle = made := Except.ok.inj (step.built.symm.trans built)
      obtain rfl : node = root :=
        List.singleton_injective (List.append_cancel_left (step.roots.symm.trans roots))
      have restRecorded : Recorded entities rest :=
        ⟨fun other member => recorded.kinds other (List.mem_cons_of_mem _ member),
          recorded.fresh.2.2,
          fun other member => recorded.scalarsSecond other (List.mem_cons_of_mem _ member)⟩
      obtain ⟨last, added, late, final, completed, lastRoots, lastSimulates, lastFollows⟩ :=
        induction restRecorded step.simulates followed
      refine ⟨last, node :: added, late, final, ?_, ?_, lastSimulates, lastFollows⟩
      · rw [buildOperations, step.built]
        exact completed
      · rw [lastRoots, step.roots, List.append_assoc, List.singleton_append]

omit [Add V] [Mul V] [IntCast V]

/-- `pinned`: the program's inputs and every write-back target. -/
def sessionPins (program : FhnProgram) (bindings : Bindings Entity) : List Nat :=
  program.inputIds ++ (latestBindings bindings).map (·.2)

/-- What `executeThroughFhnRuntime` plans for a recording. -/
def sessionPlan (entities : Entity → Fhenon Ptr) (operations : List (Operation Entity)) :
    Option (FhnProgram × Bindings Entity × FhnMovementPlan) :=
  match buildAST entities operations with
  | .error _ => none
  | .ok roots =>
      match lower entities roots with
      | (none, _) => none
      | (some program, bindings) =>
          (analyze program (sessionPins program bindings) 0 .belady none).map
            fun plan => (program, bindings, plan)

/-- A run that succeeds has executed that plan. -/
theorem optimize_follows_plan {σ : Type*} {backend : Nat} {hooks : FhnMovementHooks Ptr σ}
    {dispatch : Dispatch Ptr σ} {operations : List (Operation Entity)}
    {start final : RunState Entity Ptr σ} (nonempty : operations ≠ [])
    (ran : optimize backend hooks dispatch none operations start = (.ok true, final)) :
    ∃ program bindings plan, ∃ hold : Nat → SharedBuffer Ptr,
      sessionPlan start.entities operations = some (program, bindings, plan) ∧
        (execute hooks dispatch program plan (fun id => (hold id).raw) start.world).1 = 0 ∧
        final.world =
          (execute hooks dispatch program plan (fun id => (hold id).raw) start.world).2.world := by
  have recorded : operations.isEmpty = false := by
    cases operations with
    | nil => exact absurd rfl nonempty
    | cons operation rest => rfl
  cases built : buildAST start.entities operations with
  | error message =>
      simp only [optimize, recorded, built, Bool.false_eq_true, if_false] at ran
      cases (Prod.mk.inj ran).1
  | ok roots =>
      simp only [optimize, recorded, built, Bool.false_eq_true, if_false] at ran
      obtain ⟨program, bindings, plan, hold, stages, success⟩ := run_stages ran
      refine ⟨program, bindings, plan, hold, ?_, success, ?_⟩
      · simp only [sessionPlan, built, stages.lowered, sessionPins, stages.analyzed,
          Option.map_some]
      · rw [stages_run stages success] at ran
        rw [← (Prod.mk.inj ran).2]

def callerIds (callers : Entity → Prop) [DecidablePred callers] (bindings : Bindings Entity) :
    List Nat :=
  ((latestBindings bindings).filter (fun bound => callers bound.1)).map (·.2)

def residentAt (program : FhnProgram) (plan : FhnMovementPlan) (position : Nat) : List Nat :=
  ((program.instructions.take (position + 1)).map (·.resultId)).filter
    fun id => !((plan.actions.take position).flatMap (·.free)).contains id

/-- The results that are needed while instruction `position` runs: defined there,
read there or later, or among `finals`. -/
def liveAt (program : FhnProgram) (finals : List Nat) (position : Nat) : List Nat :=
  ((program.instructions.take (position + 1)).map (·.resultId)).filter fun id =>
    finals.contains id || program.instructions[position]?.any (·.resultId == id) ||
      (program.instructions.drop position).any (·.usedOperands.contains id)

/-- The longest of the lists, over all instructions. -/
def peak (program : FhnProgram) (during : Nat → List Nat) : Nat :=
  ((List.range program.instructions.length).map (fun position => (during position).length)).foldr
    max 0

/-- The plan keeps no result but the callers' final values beyond its last use. -/
structure FreesIntermediates (callers : Entity → Prop) [DecidablePred callers]
    (program : FhnProgram) (bindings : Bindings Entity) (plan : FhnMovementPlan) : Prop where
  pins : ∀ id ∈ sessionPins program bindings,
    id ∈ program.inputIds ∨ id ∈ callerIds callers bindings
  frees : ∀ id ∈ program.resultIds, id ∉ callerIds callers bindings →
    ∃ position act, plan.actions[position]? = some act ∧ DiesAt program id position ∧
      id ∈ act.free
  peak : peak program (residentAt program plan) =
    peak program (liveAt program (callerIds callers bindings))

theorem mem_caller_ids (callers : Entity → Prop) [DecidablePred callers]
    (bindings : Bindings Entity) (id : Nat) : id ∈ callerIds callers bindings ↔
      ∃ entity, callers entity ∧ latestId bindings entity = some id := by
  simp only [callerIds, List.mem_map, List.mem_filter, decide_eq_true_eq, Prod.exists,
    mem_latest_bindings]
  constructor
  · rintro ⟨entity, other, ⟨latest, caller⟩, rfl⟩
    exact ⟨entity, caller, latest⟩
  · rintro ⟨entity, caller, latest⟩
    exact ⟨entity, id, ⟨latest, caller⟩, rfl⟩

theorem mem_session_pins (program : FhnProgram) (bindings : Bindings Entity) (id : Nat) :
    id ∈ sessionPins program bindings ↔
      id ∈ program.inputIds ∨ ∃ entity, latestId bindings entity = some id := by
  simp only [sessionPins, List.mem_append, List.mem_map, Prod.exists, mem_latest_bindings,
    exists_eq_right]

section Planned

variable {program : FhnProgram} {pinned : List Nat} {plan : FhnMovementPlan}

theorem unpinned_freed (analyzed : analyze program pinned 0 .belady none = some plan) (id : Nat)
    (result : id ∈ program.resultIds) (unpinned : id ∉ pinned) :
    ∃ position act, plan.actions[position]? = some act ∧ DiesAt program id position ∧
      id ∈ act.free := by
  obtain ⟨levelOf, acts, states, -, run⟩ := analyze_run analyzed
  have nonempty : program.instructions ≠ [] := by
    intro empty
    rw [FhnProgram.resultIds, empty] at result
    cases result
  obtain ⟨position, dies⟩ := dies_at_exists nonempty (List.mem_append_right _ result)
  have bound : position < plan.actions.length := by
    rw [analysis_plan_length run]
    exact dies_at_lt dies
  have found := List.getElem?_eq_getElem bound
  exact ⟨position, _, found, dies, (mem_free_iff run position _ found id).mpr ⟨unpinned, dies⟩⟩

theorem dead_unneeded (valid : SsaValid program) {death defined position : Nat}
    {inst : FhnInstruction} (get : program.instructions[defined]? = some inst)
    (dies : DiesAt program inst.resultId death) (before : death < position) :
    defined ≠ position ∧ ∀ reader, program.ReadsAt reader inst.resultId → reader < position := by
  rcases dies with ⟨reads, last⟩ | ⟨unread, ⟨other, otherGet, same⟩ | ⟨input, -⟩⟩
  · refine ⟨?_, fun reader reading => (last reader reading).trans_lt before⟩
    rintro rfl
    exact result_not_defined_before valid defined inst get
      (defined_before_mono program before.le (valid.operandsDefined death _ reads))
  · refine ⟨?_, fun reader reading => absurd reading (unread reader)⟩
    have place := result_position_unique valid otherGet get same
    omega
  · exact absurd input (result_not_input valid get)

theorem resident_is_live (analyzed : analyze program pinned 0 .belady none = some plan)
    {finals : List Nat} (kept : ∀ id ∈ finals, id ∈ pinned)
    (pins : ∀ id ∈ program.resultIds, id ∈ pinned → id ∈ finals) (position : Nat) :
    residentAt program plan position = liveAt program finals position := by
  have valid := analyze_valid analyzed
  obtain ⟨levelOf, acts, states, -, run⟩ := analyze_run analyzed
  apply List.filter_congr
  intro id member
  obtain ⟨inst, taken, rfl⟩ := List.mem_map.mp member
  obtain ⟨defined, get⟩ := List.mem_iff_getElem?.mp taken
  have early : defined < position + 1 := by
    have bound := (List.getElem?_eq_some_iff.mp get).1
    rw [List.length_take] at bound
    omega
  rw [List.getElem?_take_of_lt early] at get
  have result : inst.resultId ∈ program.resultIds := List.mem_map_of_mem (List.mem_of_getElem? get)
  rw [Bool.eq_iff_iff]
  simp only [Bool.not_eq_true', List.contains_eq_mem, decide_eq_false_iff_not, List.mem_flatMap,
    Bool.or_eq_true, decide_eq_true_eq, Option.any_eq_true, beq_iff_eq, List.any_eq_true]
  constructor
  · intro resident
    by_contra unneeded
    have unpinned : inst.resultId ∉ pinned := by
      intro isPinned
      exact unneeded (Or.inl (Or.inl (pins _ result isPinned)))
    obtain ⟨death, act, found, dies, freed⟩ := unpinned_freed analyzed _ result unpinned
    have late : position ≤ death := by
      by_contra before
      apply resident
      refine ⟨act, ?_, freed⟩
      rw [List.mem_iff_getElem?]
      exact ⟨death, (List.getElem?_take_of_lt (by omega)).trans found⟩
    rcases dies with ⟨⟨reader, readerGet, read⟩, -⟩ | ⟨-, ⟨other, otherGet, same⟩ | ⟨input, -⟩⟩
    · apply unneeded
      refine Or.inr ⟨reader, ?_, read⟩
      rw [List.mem_iff_getElem?]
      refine ⟨death - position, ?_⟩
      rw [List.getElem?_drop, Nat.add_sub_cancel' late]
      exact readerGet
    · have place := result_position_unique valid otherGet get same
      have here : defined = position := by omega
      exact unneeded (Or.inl (Or.inr ⟨inst, here ▸ get, rfl⟩))
    · exact result_not_input valid get input
  · rintro needed ⟨act, member, freed⟩
    obtain ⟨death, found⟩ := List.mem_iff_getElem?.mp member
    have before : death < position := by
      have bound := (List.getElem?_eq_some_iff.mp found).1
      rw [List.length_take] at bound
      omega
    rw [List.getElem?_take_of_lt before] at found
    obtain ⟨unpinned, dies⟩ := (mem_free_iff run death act found _).mp freed
    obtain ⟨elsewhere, readers⟩ := dead_unneeded valid get dies before
    rcases needed with (final | ⟨other, otherGet, same⟩) | ⟨reader, later, read⟩
    · exact unpinned (kept _ final)
    · exact elsewhere (result_position_unique valid get otherGet same.symm)
    · obtain ⟨offset, readerGet⟩ := List.mem_iff_getElem?.mp later
      rw [List.getElem?_drop] at readerGet
      have bound := readers (position + offset) ⟨reader, readerGet, read⟩
      omega

end Planned

/-- Every sum or product that some entity still holds in the end, a caller's variable
holds as well. -/
def ResultsKept (callers : Entity → Prop) (operations : List (Operation Entity)) : Prop :=
  ∀ entity position, finalHolders operations entity = some position →
    ∃ caller, callers caller ∧ finalHolders operations caller = some position

/-- The pins are the inputs and the callers' final values, exactly when no hidden
entity alone keeps a result. -/
theorem pins_iff {made : BuildState Entity} {state : LoweringState Entity}
    {operations : List (Operation Entity)} {program : FhnProgram} (valid : SsaValid program)
    (inputs : program.inputIds = state.inputs)
    (results : program.resultIds = state.instructions.map (·.resultId))
    (follows : Follows made state (operations.foldl holdOperation {}))
    (bound : ∀ entity node, made.entityToNode entity = some node →
      (latestId state.bindings entity).isSome)
    (callers : Entity → Prop) [DecidablePred callers] :
    (∀ id ∈ sessionPins program state.bindings,
      id ∈ program.inputIds ∨ id ∈ callerIds callers state.bindings) ↔
      ResultsKept callers operations := by
  have reached (entity : Entity) (position : Nat)
      (held : finalHolders operations entity = some position) :
      ∃ id, latestId state.bindings entity = some id ∧ program.resultIds[position]? = some id := by
    cases found : made.entityToNode entity with
    | none =>
        have nothing := follows.unmapped entity found
        rw [finalHolders, nothing] at held
        cases held
    | some node =>
        obtain ⟨id, latest⟩ := Option.isSome_iff_exists.mp (bound entity node found)
        have stands := follows.latest entity id latest
        rw [finalHolders] at held
        rw [held] at stands
        exact ⟨id, latest, results ▸ stands⟩
  have nodup : program.resultIds.Nodup := (List.nodup_append.mp valid.nodup).2.1
  constructor
  · intro pins entity position held
    obtain ⟨id, latest, stands⟩ := reached entity position held
    have result : id ∈ program.resultIds := List.mem_of_getElem? stands
    have pinned := (mem_session_pins program state.bindings id).mpr (Or.inr ⟨entity, latest⟩)
    have final := (pins id pinned).resolve_left (result_outside valid id result)
    obtain ⟨caller, isCaller, callerLatest⟩ := (mem_caller_ids callers _ id).mp final
    refine ⟨caller, isCaller, ?_⟩
    have callerStands := follows.latest caller id callerLatest
    cases callerHeld : (operations.foldl holdOperation {}).holds caller with
    | none =>
        rw [callerHeld] at callerStands
        exact absurd (inputs ▸ callerStands) (result_outside valid id result)
    | some other =>
        rw [callerHeld] at callerStands
        have same : program.resultIds[other]? = some id := results ▸ callerStands
        have here := (List.getElem?_eq_some_iff.mp stands).1
        rw [finalHolders, callerHeld]
        exact congrArg some ((List.getElem?_inj here nodup).mp (stands.trans same.symm)).symm
  · intro kept id pinned
    rcases (mem_session_pins program state.bindings id).mp pinned with input | ⟨entity, latest⟩
    · exact Or.inl input
    · have stands := follows.latest entity id latest
      cases held : (operations.foldl holdOperation {}).holds entity with
      | none =>
          rw [held] at stands
          exact Or.inl (inputs ▸ stands)
      | some position =>
          rw [held] at stands
          obtain ⟨caller, isCaller, callerHeld⟩ := kept entity position held
          obtain ⟨other, callerLatest, same⟩ := reached caller position callerHeld
          have equal : other = id := Option.some.inj (same.symm.trans (results ▸ stands))
          exact Or.inr ((mem_caller_ids callers _ id).mpr ⟨caller, isCaller, equal ▸ callerLatest⟩)

theorem recording_planned (entities : Entity → Fhenon Ptr) (callers : Entity → Prop)
    [DecidablePred callers] (operations : List (Operation Entity))
    (recorded : Recorded entities operations) :
    ∃ program bindings plan, sessionPlan entities operations = some (program, bindings, plan) ∧
      analyze program (sessionPins program bindings) 0 .belady none = some plan ∧
      ((∀ id ∈ sessionPins program bindings,
        id ∈ program.inputIds ∨ id ∈ callerIds callers bindings) ↔
          ResultsKept callers operations) := by
  obtain ⟨made, added, meaning, final, built, roots, simulates, follows⟩ :=
    operations_follow operations recorded (fun _ _ => rfl)
      (simulates_start (fun _ => ()) (fun _ => ())) follows_start
  generalize lowered : lowerRoots entities added {} = state at simulates follows
  have shape : made.roots = added := by
    rw [roots]
    exact List.nil_append added
  have valid : SsaValid
      (state.toProgram (added.filterMap fun root => state.nodeIds root.address)) :=
    ⟨simulates.lowered.valid.nonzero, simulates.lowered.valid.nodup,
      simulates.lowered.valid.operandsDefined⟩
  obtain ⟨plan, analyzed⟩ :=
    analyze_unlimited_accepts _ (sessionPins _ state.bindings) .belady valid
  refine ⟨_, state.bindings, plan, ?_, analyzed,
    pins_iff valid rfl rfl follows simulates.bound callers⟩
  have graph : buildAST entities operations = .ok added := by
    simp only [buildAST, built, Except.map, shape]
  have emitted : lower entities added =
      (some (state.toProgram (added.filterMap fun root => state.nodeIds root.address)),
        state.bindings) := by
    simp only [lower, lowered, simulates.lowered.supported, if_true]
  simp only [sessionPlan, graph, emitted, analyzed, Option.map_some]

/-- The session frees every intermediate at its last use and pins nothing but inputs
and the callers' final values, exactly when each sum or product still held in the
end is held by a caller's variable. -/
theorem intermediates_freed_iff (entities : Entity → Fhenon Ptr) (callers : Entity → Prop)
    [DecidablePred callers] (operations : List (Operation Entity))
    (recorded : Recorded entities operations) :
    (∃ program bindings plan, sessionPlan entities operations = some (program, bindings, plan) ∧
      FreesIntermediates callers program bindings plan) ↔ ResultsKept callers operations := by
  obtain ⟨program, bindings, plan, planned, analyzed, pins⟩ :=
    recording_planned entities callers operations recorded
  rw [← pins]
  have valid := analyze_valid analyzed
  constructor
  · rintro ⟨other, otherBindings, otherPlan, otherPlanned, freed⟩
    rw [planned, Option.some.injEq, Prod.mk.injEq, Prod.mk.injEq] at otherPlanned
    obtain ⟨rfl, rfl, rfl⟩ := otherPlanned
    exact freed.pins
  · intro onlyCallers
    have resultPins (id : Nat) (result : id ∈ program.resultIds)
        (pinned : id ∈ sessionPins program bindings) : id ∈ callerIds callers bindings :=
      (onlyCallers id pinned).resolve_left (result_outside valid id result)
    refine ⟨program, bindings, plan, planned, onlyCallers, ?_, ?_⟩
    · intro id result notFinal
      exact unpinned_freed analyzed id result fun pinned => notFinal (resultPins id result pinned)
    · have same : residentAt program plan = liveAt program (callerIds callers bindings) := by
        funext position
        apply resident_is_live analyzed _ resultPins
        intro id final
        obtain ⟨entity, -, latest⟩ := (mem_caller_ids callers bindings id).mp final
        exact (mem_session_pins program bindings id).mpr (Or.inr ⟨entity, latest⟩)
      rw [same]

/-- `c = a + b`: the variables 0, 1 and 2, then the result of the sum. -/
def assignedSum : List (Operation Nat) :=
  [{ type := .add, operand1 := 0, operand2 := 1, result := some 3 },
    { type := .assignment, operand1 := 2, operand2 := 3 }]

/-- Three encrypted variables, and results. -/
def threeVariables (entity : Nat) : Fhenon Nat :=
  if entity < 3 then owning 5 entity else { val := 1234 }

theorem three_variables_plain (entity : Nat) : (threeVariables entity).isScalar = false := by
  unfold threeVariables
  split <;> rfl

theorem assigned_sum_recorded : Recorded threeVariables assignedSum where
  kinds := by
    unfold RecordedKind
    decide
  fresh := by
    simp only [assignedSum, FreshResults]
    decide
  scalarsSecond := fun _ _ => ⟨three_variables_plain _, fun _ _ => three_variables_plain _⟩

theorem assigned_sum_freed : ∃ program bindings plan,
    sessionPlan threeVariables assignedSum = some (program, bindings, plan) ∧
      FreesIntermediates (· < 3) program bindings plan := by
  apply (intermediates_freed_iff threeVariables (· < 3) assignedSum assigned_sum_recorded).mpr
  intro entity position held
  refine ⟨2, by decide, ?_⟩
  have final : finalHolders assignedSum =
      Function.update (Function.update (fun _ => none) 3 (some 0)) 2 (some 0) := rfl
  rw [final] at held ⊢
  by_cases assigned : entity = 2
  · rwa [assigned] at held
  · rw [Function.update_of_ne assigned] at held
    by_cases result : entity = 3
    · rwa [result, Function.update_self] at held
    · rw [Function.update_of_ne result] at held
      cases held

/-- `c = a + b; c = c * b; c = c * b` -/
def overwrittenProducts : List (Operation Nat) :=
  assignedSum ++
    [{ type := .multiply, operand1 := 2, operand2 := 1, result := some 4 },
      { type := .assignment, operand1 := 2, operand2 := 4 },
      { type := .multiply, operand1 := 2, operand2 := 1, result := some 5 },
      { type := .assignment, operand1 := 2, operand2 := 5 }]

theorem overwritten_products_recorded : Recorded threeVariables overwrittenProducts where
  kinds := by
    unfold RecordedKind
    decide
  fresh := by
    simp only [overwrittenProducts, assignedSum, List.cons_append, List.nil_append, FreshResults]
    decide
  scalarsSecond := fun _ _ => ⟨three_variables_plain _, fun _ _ => three_variables_plain _⟩

/-- A run of three operations keeps three results, although two are overwritten: the
entities that the operators made still hold them. -/
theorem overwritten_products_kept :
    Recorded threeVariables overwrittenProducts ∧
      ((sessionPlan threeVariables overwrittenProducts).map fun planned =>
        (planned.1.resultIds, planned.2.2.actions.map (·.free))) =
          some ([3, 5, 6], [[], [], []]) ∧
      ¬∃ program bindings plan,
        sessionPlan threeVariables overwrittenProducts = some (program, bindings, plan) ∧
          FreesIntermediates (· < 3) program bindings plan := by
  refine ⟨overwritten_products_recorded, by decide, ?_⟩
  rintro ⟨program, bindings, plan, planned, freed⟩
  have peaks : (sessionPlan threeVariables overwrittenProducts).map (fun planned =>
      (peak planned.1 (residentAt planned.1 planned.2.2),
        peak planned.1 (liveAt planned.1 (callerIds (· < 3) planned.2.1)))) = some (3, 2) := by
    decide
  rw [planned, Option.map_some, Option.some.injEq, Prod.mk.injEq] at peaks
  have equal := freed.peak
  rw [peaks.1, peaks.2] at equal
  cases equal

end Fhenomenon.PinnedIntermediates

import Fhenomenon.LoweringSound
import Fhenomenon.NodeGraphs

/-!
# Printing a graph

`OperatorNode::print`, `OperandNode::print` and `PrintASTPass`. Printing follows
every path, where lowering and evaluation visit a node once; a graph is printed
without repetition exactly when no operation has two operands with a common past.
-/

namespace Fhenomenon.PrintedGraphs

open Fhenomenon.RecordedGraph Fhenomenon.NodeGraphs

variable {Entity Ptr : Type*}

structure PrintedLine (Entity : Type*) where
  depth : Nat
  text : String
  node : ASTNode Entity

def typeName : OperationType → String
  | .add => "ADD"
  | .multiply => "Multiply"
  | _ => "Assignment"

def print (entities : Entity → Fhenon Ptr) : ASTNode Entity → Nat → List (PrintedLine Entity)
  | .operand address entity, depth =>
      [⟨depth, "Operand: " ++ toString (entities entity).val, .operand address entity⟩]
  | .operator address operation type left right result, depth =>
      ⟨depth, "Operation: " ++ typeName type,
          .operator address operation type left right result⟩ ::
        (print entities left (depth + 1) ++ print entities right (depth + 1))
  | .unary address operation type left result, depth =>
      ⟨depth, "Operation: " ++ typeName type, .unary address operation type left result⟩ ::
        print entities left (depth + 1)
  | .fused address, depth => [⟨depth, "FusedKernel", .fused address⟩]

/-- The lines of each root. -/
def printASTPass (entities : Entity → Fhenon Ptr) (roots : List (ASTNode Entity)) :
    List (List (PrintedLine Entity)) :=
  roots.map (fun root => print entities root 0)

def addresses (node : ASTNode Entity) : List Nat :=
  (subtree node).map (·.address)

theorem print_nodes (entities : Entity → Fhenon Ptr) (node : ASTNode Entity) (depth : Nat) :
    (print entities node depth).map (·.node) = subtree node := by
  induction node generalizing depth with
  | operand address entity => rfl
  | operator address operation type left right result leftHolds rightHolds =>
      rw [print, subtree, List.map_cons, List.map_append, leftHolds, rightHolds]
  | unary address operation type left result holds => rw [print, subtree, List.map_cons, holds]
  | fused address => rfl

theorem print_addresses (entities : Entity → Fhenon Ptr) (node : ASTNode Entity) (depth : Nat) :
    (print entities node depth).map (·.node.address) = addresses node := by
  rw [addresses, ← print_nodes entities node depth, List.map_map]
  rfl

theorem print_length (entities : Entity → Fhenon Ptr) (node : ASTNode Entity) (depth : Nat) :
    (print entities node depth).length = (addresses node).length := by
  rw [← print_addresses entities node depth, List.length_map]

/-- What a value can go back to: the value a variable had before the run, a
recorded operation or the literal operand of one. -/
inductive Origin (Entity : Type*)
  | initial (entity : Entity)
  | recorded (position : Nat)
  | literal (position : Nat)
deriving DecidableEq

abbrev Histories (Entity : Type*) := Entity → Finset (Origin Entity)

variable [DecidableEq Entity]

def written (operation : Operation Entity) : Option Entity :=
  if operation.type = .assignment then some operation.operand1 else operation.result

def secondHistory (entities : Entity → Fhenon Ptr) (position : Nat) (operation : Operation Entity)
    (histories : Histories Entity) : Finset (Origin Entity) :=
  if (entities operation.operand2).isScalar then {.literal position}
  else histories operation.operand2

def advance (entities : Entity → Fhenon Ptr) (position : Nat) (operation : Operation Entity)
    (histories : Histories Entity) : Histories Entity :=
  match written operation with
  | some entity =>
      Function.update histories entity (insert (.recorded position)
        (histories operation.operand1 ∪ secondHistory entities position operation histories))
  | none => histories

/-- From `position` on, no operation has operands with a common past. -/
def OperandsApart (entities : Entity → Fhenon Ptr) :
    Nat → List (Operation Entity) → Histories Entity → Prop
  | _, [], _ => True
  | position, operation :: rest, histories =>
      Disjoint (histories operation.operand1)
          (secondHistory entities position operation histories) ∧
        OperandsApart entities (position + 1) rest (advance entities position operation histories)

instance operandsApartDecidable (entities : Entity → Fhenon Ptr) :
    ∀ position operations (histories : Histories Entity),
      Decidable (OperandsApart entities position operations histories)
  | _, [], _ => isTrue trivial
  | position, operation :: rest, histories =>
      have := operandsApartDecidable entities (position + 1) rest
        (advance entities position operation histories)
      inferInstanceAs (Decidable (Disjoint (histories operation.operand1)
          (secondHistory entities position operation histories) ∧ OperandsApart entities
        (position + 1) rest (advance entities position operation histories)))

/-- Before the run every variable has its own past. -/
def initialHistories (entity : Entity) : Finset (Origin Entity) := {.initial entity}

/-- The nodes below `node` are those placed for the origins of `history`. -/
def Covers (place : Origin Entity → Nat) (node : ASTNode Entity)
    (history : Finset (Origin Entity)) : Prop :=
  ∀ address, address ∈ addresses node ↔ ∃ origin ∈ history, place origin = address

/-- Origins of earlier positions only. -/
def Origin.Before (position : Nat) : Origin Entity → Prop
  | .initial _ => True
  | .recorded other => other < position
  | .literal other => other < position

/-- Where a graph under construction stands: `known` are the origins with a node. -/
structure Traced (build : BuildState Entity) (position : Nat) (histories : Histories Entity)
    (place : Origin Entity → Nat) (known : Set (Origin Entity)) : Prop where
  covers : ∀ entity node, build.entityToNode entity = some node →
    Covers place node (histories entity) ∧ ↑(histories entity) ⊆ known
  unmapped : ∀ entity, build.entityToNode entity = none →
    histories entity = {.initial entity} ∧ .initial entity ∉ known
  injective : Set.InjOn place known
  bounded : ∀ origin ∈ known, place origin < build.nextAddress
  early : ∀ origin ∈ known, origin.Before position
  kept : ∀ entity node, build.entityToNode entity = some node →
    isOperand node = true ∨ node ∈ build.roots
  below : ∀ root ∈ build.roots, ∀ address ∈ addresses root, address < build.nextAddress

variable {build : BuildState Entity} {position : Nat} {histories : Histories Entity}
  {place : Origin Entity → Nat} {known : Set (Origin Entity)} {entities : Entity → Fhenon Ptr}

omit [DecidableEq Entity] in
theorem traced_start : Traced ({} : BuildState Entity) 0 initialHistories (fun _ => 0) ∅ where
  covers := by
    intro entity node found
    cases found
  unmapped := fun entity _ => ⟨rfl, Set.notMem_empty _⟩
  injective := Set.injOn_empty _
  bounded := by simp
  early := by simp
  kept := by
    intro entity node found
    cases found
  below := by simp

theorem covers_placed {node : ASTNode Entity} {history : Finset (Origin Entity)}
    (covers : Covers place node history) (inside : ↑history ⊆ known) {origin : Origin Entity}
    (new : origin ∉ known) (address : Nat) :
    Covers (Function.update place origin address) node history := by
  intro other
  rw [covers other]
  apply exists_congr
  intro found
  apply and_congr_right
  intro member
  rw [Function.update_of_ne (ne_of_mem_of_not_mem (inside member) new)]

theorem injective_placed (traced : Traced build position histories place known)
    {origin : Origin Entity} (new : origin ∉ known) :
    Set.InjOn (Function.update place origin build.nextAddress) (insert origin known) := by
  have kept (other : Origin Entity) (member : other ∈ known) :
      Function.update place origin build.nextAddress other = place other :=
    Function.update_of_ne (ne_of_mem_of_not_mem member new) _ _
  rw [Set.injOn_insert new]
  constructor
  · intro first firstMember second secondMember same
    rw [kept first firstMember, kept second secondMember] at same
    exact traced.injective firstMember secondMember same
  · rw [Function.update_self]
    rintro ⟨other, member, same⟩
    rw [kept other member] at same
    exact absurd (traced.bounded other member) (by omega)

theorem bounded_placed (traced : Traced build position histories place known)
    {origin : Origin Entity} (new : origin ∉ known) : ∀ other ∈ insert origin known,
      Function.update place origin build.nextAddress other < build.nextAddress + 1 := by
  intro other member
  rcases Set.mem_insert_iff.mp member with same | old
  · rw [same, Function.update_self]
    exact Nat.lt_succ_self _
  · rw [Function.update_of_ne (ne_of_mem_of_not_mem old new)]
    exact Nat.lt_succ_of_lt (traced.bounded other old)

theorem covers_leaf (place : Origin Entity → Nat) (origin : Origin Entity) (address : Nat)
    (entity : Entity) :
    Covers (Function.update place origin address) (.operand address entity) {origin} := by
  intro other
  simp [addresses, subtree, ASTNode.address, eq_comm]

theorem traced_variable (traced : Traced build position histories place known) (entity : Entity)
    (unmapped : build.entityToNode entity = none) :
    Traced ((build.newOperand entity).2.mapEntity entity (build.newOperand entity).1) position
      histories (Function.update place (.initial entity) build.nextAddress)
      (insert (.initial entity) known) where
  covers := by
    intro other node found
    have new := (traced.unmapped entity unmapped).2
    by_cases same : other = entity
    · subst same
      simp only [BuildState.mapEntity, Function.update_self, Option.some.injEq] at found
      rw [← found, (traced.unmapped other unmapped).1]
      refine ⟨covers_leaf place _ _ other, ?_⟩
      simp
    · simp only [BuildState.mapEntity, Function.update_of_ne same] at found
      obtain ⟨covers, inside⟩ := traced.covers other node found
      exact ⟨covers_placed covers inside new _, inside.trans (Set.subset_insert _ _)⟩
  unmapped := by
    intro other found
    have different : other ≠ entity := by
      intro same
      subst same
      simp [BuildState.mapEntity] at found
    simp only [BuildState.mapEntity, Function.update_of_ne different] at found
    obtain ⟨single, unknown⟩ := traced.unmapped other found
    refine ⟨single, ?_⟩
    rw [Set.mem_insert_iff, not_or]
    refine ⟨?_, unknown⟩
    intro same
    exact different (Origin.initial.inj same)
  injective := injective_placed traced (traced.unmapped entity unmapped).2
  bounded := bounded_placed traced (traced.unmapped entity unmapped).2
  early := by
    intro origin member
    rcases Set.mem_insert_iff.mp member with same | old
    · rw [same]
      trivial
    · exact traced.early origin old
  kept := by
    intro other node found
    by_cases same : other = entity
    · subst same
      simp only [BuildState.mapEntity, Function.update_self, Option.some.injEq] at found
      rw [← found]
      exact Or.inl rfl
    · simp only [BuildState.mapEntity, Function.update_of_ne same] at found
      exact traced.kept other node found
  below := fun root member address found =>
    Nat.lt_succ_of_lt (traced.below root member address found)

omit [DecidableEq Entity] in
theorem unrecorded (traced : Traced build position histories place known) {origin : Origin Entity}
    (late : ¬origin.Before position) : origin ∉ known :=
  fun member => late (traced.early origin member)

omit [DecidableEq Entity] in
theorem before_succ {origin : Origin Entity} (before : origin.Before position) :
    origin.Before (position + 1) := by
  cases origin with
  | initial entity => trivial
  | recorded other => exact Nat.lt_succ_of_lt before
  | literal other => exact Nat.lt_succ_of_lt before

omit [DecidableEq Entity] in
theorem traced_later (traced : Traced build position histories place known) :
    Traced build (position + 1) histories place known where
  covers := traced.covers
  unmapped := traced.unmapped
  injective := traced.injective
  bounded := traced.bounded
  early := fun origin member => before_succ (traced.early origin member)
  kept := traced.kept
  below := traced.below

theorem traced_literal (traced : Traced build position histories place known) (entity : Entity) :
    Traced (build.newOperand entity).2 (position + 1) histories
      (Function.update place (.literal position) build.nextAddress)
      (insert (.literal position) known) := by
  have new : Origin.literal position ∉ known := unrecorded traced (lt_irrefl position)
  constructor
  · intro other node found
    obtain ⟨covers, inside⟩ := traced.covers other node found
    exact ⟨covers_placed covers inside new _, inside.trans (Set.subset_insert _ _)⟩
  · intro other found
    obtain ⟨single, unknown⟩ := traced.unmapped other found
    refine ⟨single, ?_⟩
    simpa using unknown
  · exact injective_placed traced new
  · exact bounded_placed traced new
  · intro origin member
    rcases Set.mem_insert_iff.mp member with same | old
    · rw [same]
      exact Nat.lt_succ_self position
    · exact before_succ (traced.early origin old)
  · exact traced.kept
  · intro root member address found
    exact Nat.lt_succ_of_lt (traced.below root member address found)

omit [DecidableEq Entity] in
theorem own_address (node : ASTNode Entity) : node.address ∈ addresses node := by
  cases node with
  | operand address entity => exact List.mem_singleton_self _
  | operator address operation type left right result => exact List.mem_cons_self
  | unary address operation type left result => exact List.mem_cons_self
  | fused address => exact List.mem_singleton_self _

theorem operator_root (traced : Traced build position histories place known)
    (operation : Operation Entity) (type : OperationType) (left right : ASTNode Entity)
    (result : Option Entity) : (build.newOperator operation type left right result).roots =
      build.roots ++ [.operator build.nextAddress operation type left right result] := by
  apply LoweringSound.add_root_new
  intro root member
  exact traced.below root member _ (own_address root)

theorem covers_operator {left right : ASTNode Entity} {first second : Finset (Origin Entity)}
    (leftCovers : Covers place left first) (rightCovers : Covers place right second)
    (leftKnown : ↑first ⊆ known) (rightKnown : ↑second ⊆ known)
    (new : Origin.recorded position ∉ known) (address : Nat) (operation : Operation Entity)
    (type : OperationType) (result : Option Entity) :
    Covers (Function.update place (.recorded position) address)
      (.operator address operation type left right result)
      (insert (.recorded position) (first ∪ second)) := by
  have leftPlaced := covers_placed leftCovers leftKnown new address
  have rightPlaced := covers_placed rightCovers rightKnown new address
  intro other
  have split : other ∈ addresses (.operator address operation type left right result) ↔
      other = address ∨ other ∈ addresses left ∨ other ∈ addresses right := by
    simp [addresses, subtree, ASTNode.address]
  rw [split, leftPlaced other, rightPlaced other]
  constructor
  · rintro (own | ⟨origin, member, same⟩ | ⟨origin, member, same⟩)
    · refine ⟨_, Finset.mem_insert_self _ _, ?_⟩
      rw [Function.update_self, own]
    · exact ⟨origin, Finset.mem_insert_of_mem (Finset.mem_union_left _ member), same⟩
    · exact ⟨origin, Finset.mem_insert_of_mem (Finset.mem_union_right _ member), same⟩
  · rintro ⟨origin, member, same⟩
    rcases Finset.mem_insert.mp member with own | old
    · rw [own, Function.update_self] at same
      exact Or.inl same.symm
    · rcases Finset.mem_union.mp old with below | below
      · exact Or.inr (Or.inl ⟨origin, below, same⟩)
      · exact Or.inr (Or.inr ⟨origin, below, same⟩)

/-- The history of what an operation writes, given those of its operands. -/
def record (position : Nat) (result : Option Entity) (first second : Finset (Origin Entity))
    (histories : Histories Entity) : Histories Entity :=
  match result with
  | some entity => Function.update histories entity (insert (.recorded position) (first ∪ second))
  | none => histories

theorem traced_operator (traced : Traced build (position + 1) histories place known)
    (new : Origin.recorded position ∉ known) (operation : Operation Entity)
    (type : OperationType) {left right : ASTNode Entity} (result : Option Entity)
    {first second : Finset (Origin Entity)} (leftCovers : Covers place left first)
    (rightCovers : Covers place right second) (leftKnown : ↑first ⊆ known)
    (rightKnown : ↑second ⊆ known) :
    Traced (build.newOperator operation type left right result) (position + 1)
      (record position result first second histories)
      (Function.update place (.recorded position) build.nextAddress)
      (insert (.recorded position) known) := by
  have roots := operator_root traced operation type left right result
  have own := covers_operator leftCovers rightCovers leftKnown rightKnown new
    build.nextAddress operation type result
  have mapped (entity : Entity) (named : result = some entity) :
      (build.newOperator operation type left right result).entityToNode =
        Function.update build.entityToNode entity
          (some (.operator build.nextAddress operation type left right result)) := by
    subst named
    rfl
  have unchanged (other : Entity) (different : result ≠ some other) :
      (build.newOperator operation type left right result).entityToNode other =
          build.entityToNode other ∧
        record position result first second histories other = histories other := by
    cases result with
    | none => exact ⟨rfl, rfl⟩
    | some entity =>
        have distinct : other ≠ entity := fun same => different (congrArg some same.symm)
        exact ⟨Function.update_of_ne distinct _ _, Function.update_of_ne distinct _ _⟩
  constructor
  · intro other node found
    by_cases same : result = some other
    · rw [mapped other same, Function.update_self, Option.some.injEq] at found
      subst same
      rw [← found, record, Function.update_self]
      refine ⟨own, ?_⟩
      rw [Finset.coe_insert, Finset.coe_union]
      exact Set.insert_subset_insert (Set.union_subset leftKnown rightKnown)
    · obtain ⟨node_same, history_same⟩ := unchanged other same
      rw [node_same] at found
      rw [history_same]
      obtain ⟨covers, inside⟩ := traced.covers other node found
      exact ⟨covers_placed covers inside new _, inside.trans (Set.subset_insert _ _)⟩
  · intro other found
    have different : result ≠ some other := by
      intro same
      rw [mapped other same, Function.update_self] at found
      cases found
    obtain ⟨node_same, history_same⟩ := unchanged other different
    rw [node_same] at found
    rw [history_same]
    obtain ⟨single, unknown⟩ := traced.unmapped other found
    refine ⟨single, ?_⟩
    simpa using unknown
  · exact injective_placed traced new
  · exact bounded_placed traced new
  · intro origin member
    rcases Set.mem_insert_iff.mp member with same | old
    · rw [same]
      exact Nat.lt_succ_self position
    · exact traced.early origin old
  · intro other node found
    rw [roots]
    by_cases same : result = some other
    · rw [mapped other same, Function.update_self, Option.some.injEq] at found
      rw [← found]
      exact Or.inr (List.mem_append_right _ (List.mem_singleton_self _))
    · rw [(unchanged other same).1] at found
      exact (traced.kept other node found).imp_right (List.mem_append_left _)
  · intro root member address found
    rw [roots] at member
    rcases List.mem_append.mp member with old | fresh
    · exact Nat.lt_succ_of_lt (traced.below root old address found)
    · rw [List.mem_singleton.mp fresh] at found
      obtain ⟨origin, origin_member, same⟩ := (own address).mp found
      rw [← same]
      apply bounded_placed traced new
      rw [← Finset.mem_coe, Finset.coe_insert, Finset.coe_union] at origin_member
      exact Set.insert_subset_insert (Set.union_subset leftKnown rightKnown) origin_member

omit [DecidableEq Entity] in
theorem disjoint_covered (injective : Set.InjOn place known) {left right : ASTNode Entity}
    {first second : Finset (Origin Entity)} (leftCovers : Covers place left first)
    (rightCovers : Covers place right second) (leftKnown : ↑first ⊆ known)
    (rightKnown : ↑second ⊆ known) :
    (addresses left).Disjoint (addresses right) ↔ Disjoint first second := by
  rw [Finset.disjoint_left]
  constructor
  · intro apart origin inFirst inSecond
    exact apart ((leftCovers _).mpr ⟨origin, inFirst, rfl⟩)
      ((rightCovers _).mpr ⟨origin, inSecond, rfl⟩)
  · intro apart address inLeft inRight
    obtain ⟨one, oneMember, onePlace⟩ := (leftCovers address).mp inLeft
    obtain ⟨two, twoMember, twoPlace⟩ := (rightCovers address).mp inRight
    have same := injective (leftKnown oneMember) (rightKnown twoMember)
      (onePlace.trans twoPlace.symm)
    exact apart oneMember (same ▸ twoMember)

omit [DecidableEq Entity] in
theorem covered_below (traced : Traced build position histories place known)
    {node : ASTNode Entity} {history : Finset (Origin Entity)}
    (covers : Covers place node history) (inside : ↑history ⊆ known) :
    ∀ address ∈ addresses node, address < build.nextAddress := by
  intro address member
  obtain ⟨origin, originMember, same⟩ := (covers address).mp member
  exact same ▸ traced.bounded origin (inside originMember)

omit [DecidableEq Entity] in
theorem operator_nodup_iff (address : Nat) (operation : Operation Entity) (type : OperationType)
    {left right : ASTNode Entity} (result : Option Entity)
    (leftBelow : ∀ other ∈ addresses left, other < address)
    (rightBelow : ∀ other ∈ addresses right, other < address)
    (leftOnce : (addresses left).Nodup) (rightOnce : (addresses right).Nodup) :
    (addresses (.operator address operation type left right result)).Nodup ↔
      (addresses left).Disjoint (addresses right) := by
  have split : addresses (.operator address operation type left right result) =
      address :: (addresses left ++ addresses right) := by
    simp [addresses, subtree, ASTNode.address]
  have new : address ∉ addresses left ++ addresses right := by
    intro member
    rcases List.mem_append.mp member with below | below
    · exact absurd (leftBelow address below) (lt_irrefl _)
    · exact absurd (rightBelow address below) (lt_irrefl _)
  rw [split, List.nodup_cons, List.nodup_append']
  exact ⟨fun once => once.2.2.2, fun apart => ⟨new, leftOnce, rightOnce, apart⟩⟩

theorem node_for_frame (build : BuildState Entity) (entity : Entity) :
    (build.nodeFor entity).2.entityToNode entity = some (build.nodeFor entity).1 ∧
      (build.nodeFor entity).2.roots = build.roots ∧
      (build.nodeFor entity).2.nextAddress ≤ build.nextAddress + 1 ∧
      ∀ other node, build.entityToNode other = some node →
        (build.nodeFor entity).2.entityToNode other = some node := by
  cases found : build.entityToNode entity with
  | some node =>
      simp only [BuildState.nodeFor, found]
      exact ⟨trivial, trivial, Nat.le_succ _, fun _ _ same => same⟩
  | none =>
      simp only [BuildState.nodeFor, found, BuildState.newOperand, BuildState.mapEntity,
        Function.update_self]
      refine ⟨trivial, trivial, le_refl _, ?_⟩
      intro other node mapped
      have distinct : other ≠ entity := by
        intro same
        rw [same, found] at mapped
        cases mapped
      rw [Function.update_of_ne distinct]
      exact mapped

theorem node_for_traced (traced : Traced build position histories place known) (entity : Entity) :
    ∃ place known, Traced (build.nodeFor entity).2 position histories place known := by
  cases found : build.entityToNode entity with
  | some node =>
      simp only [BuildState.nodeFor, found]
      exact ⟨place, known, traced⟩
  | none =>
      simp only [BuildState.nodeFor, found]
      exact ⟨_, _, traced_variable traced entity found⟩

omit [DecidableEq Entity] in
theorem operand_printed_once (address : Nat) (entity : Entity) :
    (addresses (.operand address entity)).Nodup :=
  List.nodup_singleton address

omit [DecidableEq Entity] in
theorem mapped_printed_once (traced : Traced build position histories place known)
    (once : ∀ root ∈ build.roots, (addresses root).Nodup) {entity : Entity}
    {node : ASTNode Entity} (mapped : build.entityToNode entity = some node) :
    (addresses node).Nodup := by
  rcases traced.kept entity node mapped with leaf | root
  · cases node with
    | operand address entity => exact operand_printed_once address entity
    | operator => cases leaf
    | unary => cases leaf
    | fused => cases leaf
  · exact once node root

/-- The operands of an operation before its own node is made. -/
structure OperandsTraced (entities : Entity → Fhenon Ptr) (operation : Operation Entity)
    (build last : BuildState Entity) (left right : ASTNode Entity) (position : Nat)
    (histories : Histories Entity) (place : Origin Entity → Nat) (known : Set (Origin Entity)) :
    Prop where
  traced : Traced last (position + 1) histories place known
  new : Origin.recorded position ∉ known
  leftCovers : Covers place left (histories operation.operand1)
  leftKnown : ↑(histories operation.operand1) ⊆ known
  rightCovers : Covers place right (secondHistory entities position operation histories)
  rightKnown : ↑(secondHistory entities position operation histories) ⊆ known
  roots : last.roots = build.roots
  made : last.nextAddress ≤ build.nextAddress + 2
  once : (∀ root ∈ build.roots, (addresses root).Nodup) →
    (addresses left).Nodup ∧ (addresses right).Nodup

theorem operands_traced (entities : Entity → Fhenon Ptr)
    (traced : Traced build position histories place known) (operation : Operation Entity) :
    ∃ place known, OperandsTraced entities operation build
      ((build.nodeFor operation.operand1).2.secondNode (entities operation.operand2).isScalar
        operation.operand2).2
      (build.nodeFor operation.operand1).1
      ((build.nodeFor operation.operand1).2.secondNode (entities operation.operand2).isScalar
        operation.operand2).1
      position histories place known := by
  obtain ⟨early, earlyKnown, first⟩ := node_for_traced traced operation.operand1
  obtain ⟨leftMapped, leftRoots, leftMade, -⟩ := node_for_frame build operation.operand1
  have leftOnce (once : ∀ root ∈ build.roots, (addresses root).Nodup) :
      (addresses (build.nodeFor operation.operand1).1).Nodup :=
    mapped_printed_once first (leftRoots.symm ▸ once) leftMapped
  cases scalar : (entities operation.operand2).isScalar with
  | true =>
      have literal : secondHistory entities position operation histories =
          {.literal position} := by
        rw [secondHistory, if_pos scalar]
      have unknown : Origin.literal position ∉ earlyKnown := unrecorded first (lt_irrefl position)
      obtain ⟨leftCovers, leftInside⟩ := first.covers _ _ leftMapped
      refine ⟨_, _, traced_literal first operation.operand2, ?_, ?_, ?_, ?_, ?_, leftRoots, ?_, ?_⟩
      · have unrecorded : Origin.recorded position ∉ earlyKnown :=
          unrecorded first (lt_irrefl position)
        simpa using unrecorded
      · exact covers_placed leftCovers leftInside unknown _
      · exact leftInside.trans (Set.subset_insert _ _)
      · rw [literal]
        exact covers_leaf early _ _ operation.operand2
      · rw [literal]
        simp
      · exact Nat.succ_le_succ leftMade
      · intro once
        exact ⟨leftOnce once, operand_printed_once _ _⟩
  | false =>
      have plain : secondHistory entities position operation histories =
          histories operation.operand2 := by
        rw [secondHistory, scalar]
        rfl
      obtain ⟨late, lateKnown, second⟩ := node_for_traced first operation.operand2
      obtain ⟨rightMapped, rightRoots, rightMade, stays⟩ :=
        node_for_frame (build.nodeFor operation.operand1).2 operation.operand2
      obtain ⟨leftCovers, leftInside⟩ := second.covers _ _ (stays _ _ leftMapped)
      obtain ⟨rightCovers, rightInside⟩ := second.covers _ _ rightMapped
      have roots := rightRoots.trans leftRoots
      refine ⟨late, lateKnown, traced_later second, unrecorded second (lt_irrefl position),
        leftCovers, leftInside, ?_, ?_, roots, ?_, ?_⟩
      · rw [plain]
        exact rightCovers
      · rw [plain]
        exact rightInside
      · exact rightMade.trans (Nat.succ_le_succ leftMade)
      · intro once
        exact ⟨leftOnce once, mapped_printed_once second (roots.symm ▸ once) rightMapped⟩

theorem built_operator {operation : Operation Entity} {next : BuildState Entity}
    (built : buildOperation entities operation build = .ok next) :
    next = ((build.nodeFor operation.operand1).2.secondNode
        (entities operation.operand2).isScalar operation.operand2).2.newOperator operation
      operation.type (build.nodeFor operation.operand1).1
      ((build.nodeFor operation.operand1).2.secondNode (entities operation.operand2).isScalar
        operation.operand2).1 (written operation) := by
  rw [buildOperation] at built
  cases type : operation.type with
  | add | multiply =>
      simp only [type, Except.ok.injEq] at built
      rw [← built, written, type]
      rfl
  | assignment =>
      simp only [type, Except.ok.injEq] at built
      rw [← built, written, type]
      rfl
  | refresh | leftRotate | rightRotate | conjugate | sub =>
      simp only [type] at built
      cases built

theorem operation_traced (traced : Traced build position histories place known)
    {operation : Operation Entity} {next : BuildState Entity}
    (built : buildOperation entities operation build = .ok next) :
    ∃ place known root,
      Traced next (position + 1) (advance entities position operation histories) place known ∧
        next.roots = build.roots ++ [root] ∧ next.nextAddress ≤ build.nextAddress + 3 ∧
        ((∀ other ∈ build.roots, (addresses other).Nodup) →
          ((addresses root).Nodup ↔ Disjoint (histories operation.operand1)
            (secondHistory entities position operation histories))) := by
  obtain ⟨early, earlyKnown, operands⟩ := operands_traced entities traced operation
  rw [built_operator built]
  have made := traced_operator operands.traced operands.new operation operation.type
    (written operation) operands.leftCovers operands.rightCovers operands.leftKnown
    operands.rightKnown
  have roots := operator_root operands.traced operation operation.type
    (build.nodeFor operation.operand1).1 ((build.nodeFor operation.operand1).2.secondNode
      (entities operation.operand2).isScalar operation.operand2).1 (written operation)
  rw [operands.roots] at roots
  refine ⟨_, _, _, made, roots, ?_, ?_⟩
  · exact Nat.succ_le_succ operands.made
  · intro once
    have apart := disjoint_covered operands.traced.injective operands.leftCovers
      operands.rightCovers operands.leftKnown operands.rightKnown
    rw [operator_nodup_iff _ operation operation.type (written operation)
      (covered_below operands.traced operands.leftCovers operands.leftKnown)
      (covered_below operands.traced operands.rightCovers operands.rightKnown)
      (operands.once once).1
      (operands.once once).2, apart]

/-- The roots are printed without repetition when no operation has operands with
a common past. -/
theorem operations_traced (operations : List (Operation Entity))
    (traced : Traced build position histories place known) {final : BuildState Entity}
    (built : buildOperations entities operations build = .ok final) :
    ((∀ root ∈ final.roots, (addresses root).Nodup) ↔
      (∀ root ∈ build.roots, (addresses root).Nodup) ∧
        OperandsApart entities position operations histories) ∧
      final.roots.length = build.roots.length + operations.length ∧
      final.nextAddress ≤ build.nextAddress + 3 * operations.length ∧
      ∀ root ∈ final.roots, ∀ address ∈ addresses root, address < final.nextAddress := by
  induction operations generalizing build position histories place known with
  | nil =>
      cases built
      refine ⟨?_, rfl, le_refl _, traced.below⟩
      simp [OperandsApart]
  | cons operation rest induction =>
      rw [buildOperations] at built
      cases step : buildOperation entities operation build with
      | error message =>
          rw [step] at built
          cases built
      | ok next =>
          rw [step] at built
          obtain ⟨nextPlace, nextKnown, root, nextTraced, roots, made, repeats⟩ :=
            operation_traced traced step
          obtain ⟨once, count, total, below⟩ := induction nextTraced built
          refine ⟨?_, ?_, ?_, below⟩
          · rw [once, roots, OperandsApart, ← and_assoc]
            apply and_congr_left
            intro later
            simp only [List.mem_append, List.mem_singleton]
            constructor
            · intro all
              have old := fun other member => all other (Or.inl member)
              exact ⟨old, (repeats old).mp (all root (Or.inr rfl))⟩
            · rintro ⟨old, apart⟩ other member
              rcases member with earlier | new
              · exact old other earlier
              · exact new ▸ (repeats old).mpr apart
          · rw [count, roots, List.length_append, List.length_singleton, List.length_cons]
            omega
          · rw [List.length_cons]
            omega

def totalLines (entities : Entity → Fhenon Ptr) (roots : List (ASTNode Entity)) : Nat :=
  ((printASTPass entities roots).map List.length).sum

theorem once_bounded {list : List Nat} {bound : Nat} (once : list.Nodup)
    (below : ∀ value ∈ list, value < bound) : list.length ≤ bound := by
  have inside : list ⊆ List.range bound := by
    intro value member
    exact List.mem_range.mpr (below value member)
  have subperm := (List.subperm_of_subset once inside).length_le
  rwa [List.length_range] at subperm

/-- No root has a node on two lines, and all roots together have at most `3 * n ^ 2`
lines. -/
def PrintedOnce (entities : Entity → Fhenon Ptr) (operations : List (Operation Entity))
    (roots : List (ASTNode Entity)) : Prop :=
  (∀ lines ∈ printASTPass entities roots, (lines.map (·.node.address)).Nodup) ∧
    totalLines entities roots ≤ 3 * operations.length ^ 2

theorem printed_once_iff {operations : List (Operation Entity)} {roots : List (ASTNode Entity)}
    (built : buildAST entities operations = .ok roots) :
    PrintedOnce entities operations roots ↔
      OperandsApart entities 0 operations initialHistories := by
  rw [buildAST] at built
  cases run : buildOperations entities operations {} with
  | error message =>
      rw [run] at built
      cases built
  | ok final =>
      rw [run] at built
      have same : final.roots = roots := Except.ok.inj built
      obtain ⟨once, count, total, below⟩ := operations_traced operations traced_start run
      rw [same] at once count below
      have printed : (∀ lines ∈ printASTPass entities roots,
          (lines.map (·.node.address)).Nodup) ↔ ∀ root ∈ roots, (addresses root).Nodup := by
        simp only [printASTPass, List.mem_map, forall_exists_index, and_imp,
          forall_apply_eq_imp_iff₂, print_addresses]
      have start : (∀ root ∈ ({} : BuildState Entity).roots, (addresses root).Nodup) := by
        intro root member
        cases member
      rw [PrintedOnce, printed, once]
      constructor
      · exact fun both => both.1.2
      · intro apart
        refine ⟨⟨start, apart⟩, ?_⟩
        have each : ∀ length ∈ (printASTPass entities roots).map List.length,
            length ≤ 3 * operations.length := by
          intro length member
          simp only [printASTPass, List.map_map, List.mem_map, Function.comp_apply,
            print_length] at member
          obtain ⟨root, rootMember, equal⟩ := member
          have bounded := once_bounded (once.mpr ⟨start, apart⟩ root rootMember)
            (below root rootMember)
          have zero : ({} : BuildState Entity).nextAddress = 0 := rfl
          omega
        have sum := List.sum_le_card_nsmul _ _ each
        have zero : ({} : BuildState Entity).roots.length = 0 := rfl
        rw [List.length_map, printASTPass, List.length_map, count, zero, Nat.zero_add,
          smul_eq_mul] at sum
        rw [totalLines, printASTPass]
        calc _ ≤ operations.length * (3 * operations.length) := sum
          _ = 3 * operations.length ^ 2 := by ring

def plainEntities (_ : Nat) : Fhenon Unit := { val := 0, isEncrypted := true }

/-- `c = a + b`, where `c` (3) has no past. -/
def freshTarget : List (Operation Nat) :=
  [{ type := .add, operand1 := 0, operand2 := 1, result := some 2 },
    { type := .assignment, operand1 := 3, operand2 := 2 }]

theorem fresh_target_printed_once : ∃ roots, buildAST plainEntities freshTarget = .ok roots ∧
    PrintedOnce plainEntities freshTarget roots :=
  ⟨_, rfl, (printed_once_iff rfl).mpr (by decide)⟩

/-- `a = a + b` -/
def inPlaceUpdate : List (Operation Nat) :=
  [{ type := .add, operand1 := 0, operand2 := 1, result := some 2 },
    { type := .assignment, operand1 := 0, operand2 := 2 }]

theorem update_repeats_operand : ∃ roots, buildAST plainEntities inPlaceUpdate = .ok roots ∧
    ¬PrintedOnce plainEntities inPlaceUpdate roots := by
  refine ⟨_, rfl, ?_⟩
  intro printed
  have assignment := printed.1 _ (List.mem_cons_of_mem _ List.mem_cons_self)
  revert assignment
  decide

def linesOf (build : BuildState Entity) (entity : Entity) : Nat :=
  (addresses (build.nodeFor entity).1).length

theorem lines_congr {state other : BuildState Entity} {entity : Entity}
    (same : state.entityToNode entity = other.entityToNode entity) :
    linesOf state entity = linesOf other entity := by
  rw [linesOf, linesOf, BuildState.nodeFor, BuildState.nodeFor, same]
  split
  · rfl
  · rfl

theorem lines_after_read (build : BuildState Entity) (entity other : Entity) :
    linesOf (build.nodeFor entity).2 other = linesOf build other := by
  obtain ⟨mapped, -, -, stays⟩ := node_for_frame build entity
  have read {state : BuildState Entity} {node : ASTNode Entity}
      (found : state.entityToNode other = some node) : (state.nodeFor other).1 = node := by
    rw [BuildState.nodeFor, found]
  cases found : build.entityToNode other with
  | some node => rw [linesOf, linesOf, read found, read (stays other node found)]
  | none =>
      have leaf : linesOf build other = 1 := by
        rw [linesOf, BuildState.nodeFor, found]
        rfl
      rw [leaf, linesOf]
      by_cases same : other = entity
      · subst same
        rw [read mapped]
        exact leaf
      · rw [← leaf]
        apply lines_congr
        cases present : build.entityToNode entity with
        | some node => rw [BuildState.nodeFor, present]
        | none =>
            rw [BuildState.nodeFor, present]
            exact Function.update_of_ne same _ _

theorem lines_after_operation {operation : Operation Entity} {next : BuildState Entity}
    (built : buildOperation entities operation build = .ok next)
    (plain : (entities operation.operand2).isScalar = false) {target : Entity}
    (writes : written operation = some target) :
    linesOf next target =
        1 + linesOf build operation.operand1 + linesOf build operation.operand2 ∧
      ∀ other, other ≠ target → linesOf next other = linesOf build other := by
  rw [built_operator built, plain, writes]
  constructor
  · have second := lines_after_read build operation.operand1 operation.operand2
    rw [← second]
    simp only [linesOf, BuildState.nodeFor, BuildState.newOperator, Function.update_self,
      BuildState.secondNode, addresses, subtree, List.length_map, List.length_cons,
      List.length_append, Bool.false_eq_true, if_false]
    omega
  · intro other different
    have first := lines_after_read build operation.operand1 other
    have second := lines_after_read (build.nodeFor operation.operand1).2 operation.operand2 other
    rw [← first, ← second]
    exact lines_congr (Function.update_of_ne different _ _)

/-- `x = x + y`, once for each temporary. -/
def updates (x y : Entity) : List Entity → List (Operation Entity)
  | [] => []
  | temporary :: rest =>
      { type := .add, operand1 := x, operand2 := y, result := some temporary } ::
        { type := .assignment, operand1 := x, operand2 := temporary } :: updates x y rest

theorem updates_double {x y : Entity} (distinct : y ≠ x) (temporaries : List Entity)
    (fresh : ∀ temporary ∈ temporaries, temporary ≠ x ∧ temporary ≠ y)
    (plain : ∀ entity, (entities entity).isScalar = false) {final : BuildState Entity}
    (built : buildOperations entities (updates x y temporaries) build = .ok final) :
    linesOf final y = linesOf build y ∧ linesOf final x + linesOf build y + 2 =
      2 ^ temporaries.length * (linesOf build x + linesOf build y + 2) := by
  induction temporaries generalizing build with
  | nil =>
      cases built
      simp
  | cons temporary rest induction =>
      obtain ⟨notX, notY⟩ := fresh temporary List.mem_cons_self
      rw [updates, buildOperations] at built
      split at built
      · cases built
      · rename_i middle added
        rw [buildOperations] at built
        split at built
        · cases built
        · rename_i next assigned
          obtain ⟨sum, sumKept⟩ := lines_after_operation added (plain y) rfl
          obtain ⟨copy, copyKept⟩ := lines_after_operation assigned (plain temporary) rfl
          have rested := induction (fun other member => fresh other
            (List.mem_cons_of_mem _ member)) built
          have y_kept : linesOf next y = linesOf build y := by
            rw [copyKept y distinct, sumKept y notY.symm]
          have x_grown : linesOf next x =
              1 + linesOf build x + (1 + linesOf build x + linesOf build y) := by
            rw [copy, sumKept x notX.symm, sum]
          rw [y_kept, x_grown] at rested
          refine ⟨rested.1, ?_⟩
          rw [rested.2, List.length_cons, pow_succ]
          ring

end Fhenomenon.PrintedGraphs

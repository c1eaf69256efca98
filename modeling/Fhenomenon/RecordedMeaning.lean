import Fhenomenon.Lowering

/-!
# What a recorded list of operations means

Operations run one after another on a store: a sum or a product defines its
result, an assignment overwrites its first operand.
-/

namespace Fhenomenon.RecordedMeaning

open Fhenomenon.RecordedGraph Fhenomenon.Lowering

variable {Entity Ptr V : Type*}

def firstBound (bindings : Bindings Entity) (id : Nat) : Option (Option Entity) :=
  (bindings.find? (fun binding => binding.1 == id)).map (·.2)

theorem first_bound_append {bindings : Bindings Entity} {id : Nat} {first : Option Entity}
    (found : firstBound bindings id = some first) (more : Bindings Entity) :
    firstBound (bindings ++ more) id = some first := by
  rw [firstBound, Option.map_eq_some_iff] at found
  obtain ⟨binding, early, same⟩ := found
  rw [firstBound, List.find?_append, early]
  exact congrArg some same

theorem first_bound_new {bindings : Bindings Entity} {id : Nat}
    (unbound : ∀ binding ∈ bindings, binding.1 ≠ id) (entity : Option Entity) :
    firstBound (bindings ++ [(id, entity)]) id = some entity := by
  have absent : bindings.find? (fun binding => binding.1 == id) = none := by
    rw [List.find?_eq_none]
    intro binding member
    simpa using unbound binding member
  rw [firstBound, List.find?_append, absent]
  simp

variable [DecidableEq Entity]

/-- The id last bound to an entity. -/
def latestId (bindings : Bindings Entity) (entity : Entity) : Option Nat :=
  bindings.foldl (fun found binding =>
    if binding.2 = some entity then some binding.1 else found) none

theorem latest_id_append (bindings : Bindings Entity) (id : Nat) (bound entity : Entity) :
    latestId (bindings ++ [(id, some bound)]) entity =
      if entity = bound then some id else latestId bindings entity := by
  rw [latestId, List.foldl_append]
  simp only [List.foldl_cons, List.foldl_nil, Option.some.injEq, eq_comm]
  rfl

theorem latest_id_mem {bindings : Bindings Entity} {entity : Entity} {id : Nat}
    (latest : latestId bindings entity = some id) : (id, some entity) ∈ bindings := by
  induction bindings using List.reverseRecOn with
  | nil => cases latest
  | append_singleton bindings binding induction =>
      rw [latestId, List.foldl_append] at latest
      simp only [List.foldl_cons, List.foldl_nil] at latest
      split at latest
      · rename_i same
        rw [Option.some.injEq] at latest
        rw [← latest, ← same]
        exact List.mem_append_right _ (List.mem_singleton_self _)
      · exact List.mem_append_left _ (induction latest)

variable [Add V] [Mul V]

/-- One recorded operation, executed as an assignment. -/
def runOperation (store : Entity → V) (operation : Operation Entity) : Entity → V :=
  match operation.type, operation.result with
  | .assignment, _ => Function.update store operation.operand1 (store operation.operand2)
  | .add, some result =>
      Function.update store result (store operation.operand1 + store operation.operand2)
  | .multiply, some result =>
      Function.update store result (store operation.operand1 * store operation.operand2)
  | _, _ => store

def runOperations (operations : List (Operation Entity)) (store : Entity → V) : Entity → V :=
  operations.foldl runOperation store

def produced (operations : List (Operation Entity)) : List Entity :=
  operations.filterMap (·.result)

/-- No operation names a result before the operation that creates it. -/
def FreshResults : List (Operation Entity) → Prop
  | [] => True
  | operation :: rest =>
      operation.operand1 ∉ produced (operation :: rest) ∧
        operation.operand2 ∉ produced (operation :: rest) ∧ FreshResults rest

def Mentions (operations : List (Operation Entity)) (entity : Entity) : Prop :=
  ∃ operation ∈ operations, entity = operation.operand1 ∨ entity = operation.operand2

def RecordedKind (operation : Operation Entity) : Prop :=
  (operation.type = .assignment ∧ operation.result = none) ∨
    ((operation.type = .add ∨ operation.type = .multiply) ∧ operation.result.isSome)

/-- A list of operations as the `Fhenon` operators record them. -/
structure Recorded (entities : Entity → Fhenon Ptr) (operations : List (Operation Entity)) :
    Prop where
  kinds : ∀ operation ∈ operations, RecordedKind operation
  fresh : FreshResults operations
  scalarsSecond : ∀ operation ∈ operations,
    (entities operation.operand1).isScalar = false ∧
      ∀ result, operation.result = some result → (entities result).isScalar = false

def combine (type : OperationType) (first second : V) : V :=
  if type = .add then first + second else first * second

theorem run_combination (store : Entity → V) (operation : Operation Entity)
    (kind : operation.type = .add ∨ operation.type = .multiply) (result : Entity)
    (named : operation.result = some result) : runOperation store operation =
      Function.update store result
        (combine operation.type (store operation.operand1) (store operation.operand2)) := by
  rcases kind with type | type <;> simp [runOperation, combine, type, named]

end Fhenomenon.RecordedMeaning

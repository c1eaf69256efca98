import Mathlib

/-!
# Recorded operations and their graph

`Operation.h`, `ASTNode.h`, `Planner.h` and `Scheduler::buildAST`. An entity is
the address of a `Fhenon`, which is all the source compares; a node carries its
own address, by which planner and lowering tell nodes apart.
-/

namespace Fhenomenon.RecordedGraph

inductive OperationType
  | assignment | refresh | leftRotate | rightRotate | conjugate | add | sub | multiply
deriving DecidableEq, Repr

/-- A `shared_ptr<FhnBuffer>`: the raw pointer and the control block that owns it. -/
structure SharedBuffer (Ptr : Type*) where
  raw : Option Ptr := none
  control : Nat := 0
deriving DecidableEq

/-- `owner` identifies the backend that made the ciphertext. -/
structure FhnCiphertext (Ptr : Type*) where
  buffer : SharedBuffer Ptr
  owner : Nat
deriving DecidableEq

/-- `ciphertext` is `none` when the `std::any` holds no `FhnCiphertext`. -/
structure Fhenon (Ptr : Type*) where
  val : Int
  isScalar : Bool := false
  ciphertext : Option (FhnCiphertext Ptr) := none
  isEncrypted : Bool := false
deriving DecidableEq

variable {Entity Ptr : Type*}

/-- `Operation<int>`; assignments have no result. -/
structure Operation (Entity : Type*) where
  type : OperationType
  operand1 : Entity
  operand2 : Entity
  result : Option Entity := none
  param : Int := 0
deriving DecidableEq

/-- `unary` is an operator node whose right child is null. `fused` stands for
every node kind that is neither an operator nor an operand; lowering refuses it
without looking inside. -/
inductive ASTNode (Entity : Type*)
  | operand (address : Nat) (entity : Entity)
  | operator (address : Nat) (operation : Operation Entity) (type : OperationType)
      (left right : ASTNode Entity) (result : Option Entity)
  | unary (address : Nat) (operation : Operation Entity) (type : OperationType)
      (left : ASTNode Entity) (result : Option Entity)
  | fused (address : Nat)
deriving DecidableEq

def ASTNode.address : ASTNode Entity → Nat
  | .operand address _ => address
  | .operator address _ _ _ _ _ => address
  | .unary address _ _ _ _ => address
  | .fused address => address

/-- The locals of `buildAST` and the roots of its planner. New nodes take the
next address. -/
structure BuildState (Entity : Type*) where
  nextAddress : Nat := 0
  entityToNode : Entity → Option (ASTNode Entity) := fun _ => none
  roots : List (ASTNode Entity) := []

/-- `Planner::addRoot` -/
def addRoot (node : ASTNode Entity) (roots : List (ASTNode Entity)) : List (ASTNode Entity) :=
  if roots.any (fun root => root.address == node.address) then roots else roots ++ [node]

namespace BuildState

def newOperand (state : BuildState Entity) (entity : Entity) :
    ASTNode Entity × BuildState Entity :=
  (.operand state.nextAddress entity, { state with nextAddress := state.nextAddress + 1 })

def mapEntity [DecidableEq Entity] (state : BuildState Entity) (entity : Entity)
    (node : ASTNode Entity) : BuildState Entity :=
  { state with entityToNode := Function.update state.entityToNode entity (some node) }

/-- The node of an entity, made and mapped at its first use. -/
def nodeFor [DecidableEq Entity] (state : BuildState Entity) (entity : Entity) :
    ASTNode Entity × BuildState Entity :=
  match state.entityToNode entity with
  | some node => (node, state)
  | none =>
      let made := state.newOperand entity
      (made.1, made.2.mapEntity entity made.1)

/-- Every use of a scalar gets a node of its own. -/
def secondNode [DecidableEq Entity] (state : BuildState Entity) (isScalar : Bool)
    (entity : Entity) : ASTNode Entity × BuildState Entity :=
  if isScalar then state.newOperand entity else state.nodeFor entity

/-- A new operator node becomes the value of `result` and a root. -/
def newOperator [DecidableEq Entity] (state : BuildState Entity) (operation : Operation Entity)
    (type : OperationType) (left right : ASTNode Entity) (result : Option Entity) :
    BuildState Entity :=
  let node := ASTNode.operator state.nextAddress operation type left right result
  { nextAddress := state.nextAddress + 1
    entityToNode :=
      match result with
      | some entity => Function.update state.entityToNode entity (some node)
      | none => state.entityToNode
    roots := addRoot node state.roots }

end BuildState

variable [DecidableEq Entity]

/-- One pass of the loop in `buildAST`. -/
def buildOperation (entities : Entity → Fhenon Ptr) (operation : Operation Entity)
    (state : BuildState Entity) : Except String (BuildState Entity) :=
  let first := state.nodeFor operation.operand1
  let second := first.2.secondNode (entities operation.operand2).isScalar operation.operand2
  match operation.type with
  | .add | .multiply =>
      .ok (second.2.newOperator operation operation.type first.1 second.1 operation.result)
  | .assignment =>
      .ok (second.2.newOperator operation .assignment first.1 second.1 (some operation.operand1))
  | _ => .error "Unsupported operation type."

def buildOperations (entities : Entity → Fhenon Ptr) :
    List (Operation Entity) → BuildState Entity → Except String (BuildState Entity)
  | [], state => .ok state
  | operation :: rest, state =>
      match buildOperation entities operation state with
      | .error message => .error message
      | .ok next => buildOperations entities rest next

/-- The roots of the planner that `buildAST` fills. -/
def buildAST (entities : Entity → Fhenon Ptr) (operations : List (Operation Entity)) :
    Except String (List (ASTNode Entity)) :=
  (buildOperations entities operations {}).map (·.roots)

end Fhenomenon.RecordedGraph

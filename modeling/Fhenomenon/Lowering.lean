import Fhenomenon.InstructionStream
import Fhenomenon.RecordedGraph

/-!
# Lowering a graph to a program

`LowerToFhnProgram`: a post-order walk that visits every node once, folds scalar
right operands into the instruction and lets assignments rename their value.
`next_id` is a natural number, so it never wraps.
-/

namespace Fhenomenon.Lowering

open Fhenomenon.InstructionStream Fhenomenon.RecordedGraph

variable {Entity Ptr : Type*}

/-- `EntityBindings`, with null entities as `none`. -/
abbrev Bindings (Entity : Type*) := List (Nat × Option Entity)

/-- The references that `lowerNode` threads; `nodeIds` is keyed by address.  A natural `nextId`
is the source's `uint32_t` one while fewer than `2^32` nodes are visited, at one id a node. -/
structure LoweringState (Entity : Type*) where
  instructions : List FhnInstruction := []
  inputs : List Nat := []
  nextId : Nat := 1
  nodeIds : Nat → Option Nat := fun _ => none
  bindings : Bindings Entity := []
  supported : Bool := true

def mapOpType : OperationType → FhnOpCode
  | .add => .addCC
  | .sub => .subCC
  | .multiply => .hmult
  | .conjugate => .conjugate
  | .leftRotate | .rightRotate => .rotate
  | _ => .nop

/-- A scalar right operand of an addition or a multiplication. -/
def scalarOperand (entities : Entity → Fhenon Ptr) (type : OperationType) :
    ASTNode Entity → Option Entity
  | .operand _ entity =>
      if (type = .add ∨ type = .multiply) ∧ (entities entity).isScalar = true then some entity
      else none
  | _ => none

/-- The instruction of an operator node whose children are lowered. -/
def operatorInstruction (entities : Entity → Fhenon Ptr) (operation : Operation Entity)
    (type : OperationType) (left right : ASTNode Entity) (scalar : Option Entity)
    (state : LoweringState Entity) : FhnInstruction where
  opcode :=
    match scalar with
    | some _ => if type = .add then .addCS else .multCS
    | none => mapOpType type
  resultId := state.nextId
  operands :=
    ![(state.nodeIds left.address).getD 0, (state.nodeIds right.address).getD 0, 0, 0]
  params :=
    match type with
    | .leftRotate => ![operation.param, 0, 0, 0]
    | .rightRotate => ![-operation.param, 0, 0, 0]
    | _ => fun _ => 0
  fparams :=
    match scalar with
    | some entity => ![((entities entity).val : Rat), 0]
    | none => fun _ => 0

/-- The instruction of an operator node without a right child. -/
def unaryInstruction (operation : Operation Entity) (type : OperationType) (left : ASTNode Entity)
    (state : LoweringState Entity) : FhnInstruction where
  opcode := mapOpType type
  resultId := state.nextId
  operands := ![(state.nodeIds left.address).getD 0, 0, 0, 0]
  params :=
    match type with
    | .leftRotate => ![operation.param, 0, 0, 0]
    | .rightRotate => ![-operation.param, 0, 0, 0]
    | _ => fun _ => 0

namespace LoweringState

def toProgram (state : LoweringState Entity) (outputIds : List Nat) : FhnProgram where
  instructions := state.instructions
  inputIds := state.inputs
  outputIds := outputIds

def program (state : LoweringState Entity) : FhnProgram := state.toProgram []

def addInput (state : LoweringState Entity) (address : Nat) (entity : Entity) :
    LoweringState Entity :=
  { state with
    nextId := state.nextId + 1
    nodeIds := Function.update state.nodeIds address (some state.nextId)
    inputs := state.inputs ++ [state.nextId]
    bindings := state.bindings ++ [(state.nextId, some entity)] }

def addInstruction (state : LoweringState Entity) (address : Nat) (inst : FhnInstruction)
    (result : Option Entity) : LoweringState Entity :=
  { state with
    nextId := state.nextId + 1
    instructions := state.instructions ++ [inst]
    nodeIds := Function.update state.nodeIds address (some inst.resultId)
    bindings := state.bindings ++ [(inst.resultId, result)] }

/-- Reads of the assigned variable resolve to the assigned value. -/
def addAssignment (state : LoweringState Entity) (address : Nat) (value : ASTNode Entity)
    (result : Option Entity) : LoweringState Entity :=
  match state.nodeIds value.address with
  | some id =>
      { state with
        nodeIds := Function.update state.nodeIds address (some id)
        bindings := state.bindings ++ [(id, result)] }
  | none => state

end LoweringState

/-- An operator node always has a left child; `buildAST` makes none without a
right one. -/
def lowerNode (entities : Entity → Fhenon Ptr) :
    ASTNode Entity → LoweringState Entity → LoweringState Entity
  | .operand address entity, state =>
      if (state.nodeIds address).isSome then state else state.addInput address entity
  | .operator address operation type left right result, state =>
      if (state.nodeIds address).isSome then state
      else
        let scalar := scalarOperand entities type right
        let withLeft := lowerNode entities left state
        let lowered := if scalar.isSome then withLeft else lowerNode entities right withLeft
        if type = .assignment then lowered.addAssignment address right result
        else
          lowered.addInstruction address
            (operatorInstruction entities operation type left right scalar lowered) result
  | .unary address operation type left result, state =>
      if (state.nodeIds address).isSome then state
      else
        let lowered := lowerNode entities left state
        if type = .assignment then lowered.addAssignment address left result
        else lowered.addInstruction address (unaryInstruction operation type left lowered) result
  | .fused address, state =>
      if (state.nodeIds address).isSome then state else { state with supported := false }

def lowerRoots (entities : Entity → Fhenon Ptr) (roots : List (ASTNode Entity))
    (state : LoweringState Entity) : LoweringState Entity :=
  roots.foldl (fun state root => lowerNode entities root state) state

/-- No program, and no bindings, for a graph with an unsupported node. -/
def lower (entities : Entity → Fhenon Ptr) (roots : List (ASTNode Entity)) :
    Option FhnProgram × Bindings Entity :=
  let state := lowerRoots entities roots {}
  if state.supported then
    (some (state.toProgram (roots.filterMap (fun root => state.nodeIds root.address))),
      state.bindings)
  else (none, [])

end Fhenomenon.Lowering

import Fhenomenon.DefaultExecutor
import Fhenomenon.Lowering

/-!
# Running a recorded graph

`executeThroughFhnRuntime` and the part of `Session::optimize` around it: lower,
pin, analyse with no budget, hand the entities' own buffers to the executor and
write the surviving ones back.
-/

namespace Fhenomenon.SessionRuntime

open Fhenomenon.InstructionStream Fhenomenon.MovementPlanner Fhenomenon.DefaultExecutor
open Fhenomenon.RecordedGraph Fhenomenon.Lowering

variable {Entity Ptr σ : Type*} [DecidableEq Entity]

/-- `latest`: the last id bound to each entity. The source keeps them in an
unordered map; pins are a set and write-backs touch different entities, so no
order matters. -/
def latestBindings (bindings : Bindings Entity) : List (Entity × Nat) :=
  bindings.foldl (fun latest binding =>
    match binding.2 with
    | some entity => latest.filter (fun bound => bound.1 ≠ entity) ++ [(entity, binding.1)]
    | none => latest) []

/-- `input_hold`: each input id takes the buffer of the first encrypted entity
bound to it. -/
def holdInputs (backend : Nat) (entities : Entity → Fhenon Ptr) (inputIds : List Nat) :
    Bindings Entity → (Nat → SharedBuffer Ptr) → Except String (Nat → SharedBuffer Ptr)
  | [], hold => .ok hold
  | (id, bound) :: rest, hold =>
      if id ∉ inputIds ∨ (hold id).raw.isSome then holdInputs backend entities inputIds rest hold
      else
        match bound with
        | none => holdInputs backend entities inputIds rest hold
        | some entity =>
            if (entities entity).isEncrypted then
              match (entities entity).ciphertext with
              | none => holdInputs backend entities inputIds rest hold
              | some ciphertext =>
                  if ciphertext.owner ≠ backend then
                    .error "Session: operand was encrypted by a different backend"
                  else
                    holdInputs backend entities inputIds rest
                      (Function.update hold id ciphertext.buffer)
            else holdInputs backend entities inputIds rest hold

/-- `adopted` and the next control block a `shared_ptr` constructor makes. -/
structure Adoption (Ptr : Type*) where
  adopted : Nat → SharedBuffer Ptr := fun _ => {}
  nextControl : Nat

/-- Input ids keep their owner; every other id gets one owner, shared by all
entities bound to it. -/
def adopt (hold : Nat → SharedBuffer Ptr) (buffers : Buffers Ptr) (id : Nat)
    (state : Adoption Ptr) : SharedBuffer Ptr × Adoption Ptr :=
  if (hold id).raw.isSome then (hold id, state)
  else if (state.adopted id).raw.isSome then (state.adopted id, state)
  else
    let made : SharedBuffer Ptr := { raw := buffers id, control := state.nextControl }
    (made,
      { adopted := Function.update state.adopted id made
        nextControl := state.nextControl + 1 })

def writeBack (backend : Nat) (hold : Nat → SharedBuffer Ptr) (buffers : Buffers Ptr) :
    List (Entity × Nat) → (Entity → Fhenon Ptr) → Adoption Ptr →
      (Entity → Fhenon Ptr) × Adoption Ptr
  | [], entities, state => (entities, state)
  | (entity, id) :: rest, entities, state =>
      let owned := adopt hold buffers id state
      let written : Fhenon Ptr :=
        { entities entity with
          ciphertext := some { buffer := owned.1, owner := backend }
          isEncrypted := true }
      writeBack backend hold buffers rest (Function.update entities entity written) owned.2

/-- What a run reads and writes outside the session: the entities, the next
control block and the world behind the hooks. -/
structure RunState (Entity Ptr σ : Type*) where
  entities : Entity → Fhenon Ptr
  nextControl : Nat := 0
  world : σ

/-- The result is what the source returns or throws; on `false` the caller falls
back to `evaluateGraph`. -/
def executeThroughFhnRuntime (backend : Nat) (hooks : FhnMovementHooks Ptr σ)
    (dispatch : Dispatch Ptr σ) (roots : List (ASTNode Entity)) (state : RunState Entity Ptr σ) :
    Except String Bool × RunState Entity Ptr σ :=
  let lowered := lower state.entities roots
  match lowered.1 with
  | none => (.ok false, state)
  | some program =>
      if lowered.2.isEmpty then (.ok false, state)
      else
        let latest := latestBindings lowered.2
        let pinned := program.inputIds ++ latest.map (·.2)
        match analyze program pinned 0 .belady none with
        | none =>
            (.error ("Session: FHN program failed movement analysis " ++
              "(operand used without a definition?)"), state)
        | some plan =>
            match holdInputs backend state.entities program.inputIds lowered.2 (fun _ => {}) with
            | .error message => (.error message, state)
            | .ok hold =>
                if program.inputIds.any (fun id => (hold id).raw.isNone) then
                  (.error ("Session: operand is not encrypted — call belong() before using it " ++
                    "in a session"), state)
                else
                  let outcome :=
                    execute hooks dispatch program plan (fun id => (hold id).raw) state.world
                  if outcome.1 ≠ 0 then
                    (.error ("Session: FHN executor failed with rc=" ++ toString outcome.1),
                      { state with world := outcome.2.world })
                  else
                    let written := writeBack backend hold outcome.2.buffers latest state.entities
                      { nextControl := state.nextControl }
                    (.ok true,
                      { entities := written.1
                        nextControl := written.2.nextControl
                        world := outcome.2.world })

/-- `Session::optimize` up to the fallback; `poison` is the reason of a poisoned
recording. The passes it registers leave plain operations and their graph alone. -/
def optimize (backend : Nat) (hooks : FhnMovementHooks Ptr σ) (dispatch : Dispatch Ptr σ)
    (poison : Option String) (operations : List (Operation Entity))
    (state : RunState Entity Ptr σ) : Except String Bool × RunState Entity Ptr σ :=
  match poison with
  | some reason => (.error reason, state)
  | none =>
      if operations.isEmpty then (.ok true, state)
      else
        match buildAST state.entities operations with
        | .error message => (.error message, state)
        | .ok roots => executeThroughFhnRuntime backend hooks dispatch roots state

end Fhenomenon.SessionRuntime

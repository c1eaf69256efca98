import Fhenomenon.MovementPlanner

/-!
# The default executor

`FhnDefaultExecutor`: the dispatch table, plain and plan-aware execution, and
the decomposition of fused opcodes. A buffer handle is an opaque `Ptr` that is
only ever compared with null, so null is `none`. Hooks and kernels act on a
world `σ` that holds every buffer and the backend context. The null checks on
`program` and `buffers` are excluded by the types.
-/

namespace Fhenomenon.DefaultExecutor

open Fhenomenon.InstructionStream Fhenomenon.MovementPlanner

variable {Ptr σ : Type*}

/-- `FhnBuffer **buffers`, indexed by id. -/
abbrev Buffers (Ptr : Type*) := Nat → Option Ptr

/-- Result, operands, `params`, `fparams`; returns the code and the new world. -/
abbrev FhnKernelFn (Ptr σ : Type*) :=
  Option Ptr → (Fin 4 → Option Ptr) → (Fin 4 → Int) → (Fin 2 → Rat) → σ → Int × σ

structure FhnKernelEntry (Ptr σ : Type*) where
  opcode : FhnOpCode
  fn : Option (FhnKernelFn Ptr σ)

/-- `dispatch_` -/
abbrev Dispatch (Ptr σ : Type*) := FhnOpCode → Option (FhnKernelFn Ptr σ)

structure FhnMovementHooks (Ptr σ : Type*) where
  bufferAlloc : Option (σ → Option Ptr × σ) := none
  bufferFree : Option (Option Ptr → σ → σ) := none
  prefetch : Option (Option Ptr → σ → Int × σ) := none
  evict : Option (Option Ptr → σ → Int × σ) := none

/-- The constructor: null functions are skipped, a later entry replaces an earlier. -/
def dispatchTable (entries : List (FhnKernelEntry Ptr σ)) : Dispatch Ptr σ :=
  entries.foldl
    (fun dispatch entry =>
      match entry.fn with
      | none => dispatch
      | some fn => Function.update dispatch entry.opcode (some fn))
    (fun _ => none)

def supports (dispatch : Dispatch Ptr σ) (opcode : FhnOpCode) : Bool :=
  (dispatch opcode).isSome

/-- The `call` lambda of `decompose`. -/
def call (dispatch : Dispatch Ptr σ) (opcode : FhnOpCode) (result : Option Ptr)
    (operands : Fin 4 → Option Ptr) (params : Fin 4 → Int) (fparams : Fin 2 → Rat) (world : σ) :
    Int × σ :=
  match dispatch opcode with
  | none => (-1, world)
  | some fn => fn result operands params fparams world

/-- Relinearize and rescale run only when registered, but must not fail then. -/
def decomposeHmult (dispatch : Dispatch Ptr σ) (inst : FhnInstruction) (buffers : Buffers Ptr)
    (world : σ) : Bool × σ :=
  if !supports dispatch .multCC then (false, world)
  else
    let operands := ![buffers (inst.operands 0), buffers (inst.operands 1), none, none]
    let multiplied :=
      call dispatch .multCC (buffers inst.resultId) operands inst.params inst.fparams world
    if multiplied.1 ≠ 0 then (false, multiplied.2)
    else
      let selfOps := ![buffers inst.resultId, none, none, none]
      let relinearized :=
        if supports dispatch .relinearize then
          call dispatch .relinearize (buffers inst.resultId) selfOps inst.params inst.fparams
            multiplied.2
        else (0, multiplied.2)
      if relinearized.1 ≠ 0 then (false, relinearized.2)
      else
        let rescaled :=
          if supports dispatch .rescale then
            call dispatch .rescale (buffers inst.resultId) selfOps inst.params inst.fparams
              relinearized.2
          else (0, relinearized.2)
        if rescaled.1 ≠ 0 then (false, rescaled.2) else (true, rescaled.2)

def decomposeHrot (dispatch : Dispatch Ptr σ) (inst : FhnInstruction) (buffers : Buffers Ptr)
    (world : σ) : Bool × σ :=
  if !supports dispatch .rotate then (false, world)
  else
    let operands := ![buffers (inst.operands 0), none, none, none]
    let rotated :=
      call dispatch .rotate (buffers inst.resultId) operands inst.params inst.fparams world
    (decide (rotated.1 = 0), rotated.2)

def decomposeHrotAdd (dispatch : Dispatch Ptr σ) (inst : FhnInstruction) (buffers : Buffers Ptr)
    (world : σ) : Bool × σ :=
  let rotated : Bool × σ :=
    if supports dispatch .hrot then
      let operands := ![buffers (inst.operands 0), none, none, none]
      let outcome :=
        call dispatch .hrot (buffers inst.resultId) operands inst.params inst.fparams world
      (decide (outcome.1 = 0), outcome.2)
    else decomposeHrot dispatch inst buffers world
  if !rotated.1 || !supports dispatch .addCC then (false, rotated.2)
  else
    let addOps := ![buffers inst.resultId, buffers (inst.operands 1), none, none]
    let added :=
      call dispatch .addCC (buffers inst.resultId) addOps inst.params inst.fparams rotated.2
    (decide (added.1 = 0), added.2)

def decomposeHconjAdd (dispatch : Dispatch Ptr σ) (inst : FhnInstruction)
    (buffers : Buffers Ptr) (world : σ) : Bool × σ :=
  if !supports dispatch .conjugate || !supports dispatch .addCC then (false, world)
  else
    let operands := ![buffers (inst.operands 0), none, none, none]
    let conjugated :=
      call dispatch .conjugate (buffers inst.resultId) operands inst.params inst.fparams world
    if conjugated.1 ≠ 0 then (false, conjugated.2)
    else
      let addOps := ![buffers inst.resultId, buffers (inst.operands 1), none, none]
      let added :=
        call dispatch .addCC (buffers inst.resultId) addOps inst.params inst.fparams conjugated.2
      (decide (added.1 = 0), added.2)

/-- The multiply lands in the result buffer before the addend is read. -/
def decomposeMad (dispatch : Dispatch Ptr σ) (inst : FhnInstruction) (buffers : Buffers Ptr)
    (world : σ) : Bool × σ :=
  if inst.operands 1 = 0 ∨ inst.operands 1 = inst.resultId then (false, world)
  else if !supports dispatch .multCS || !supports dispatch .addCC then (false, world)
  else
    let multOps := ![buffers (inst.operands 0), none, none, none]
    let multiplied :=
      call dispatch .multCS (buffers inst.resultId) multOps inst.params inst.fparams world
    if multiplied.1 ≠ 0 then (false, multiplied.2)
    else
      let addOps := ![buffers inst.resultId, buffers (inst.operands 1), none, none]
      let added :=
        call dispatch .addCC (buffers inst.resultId) addOps inst.params inst.fparams multiplied.2
      (decide (added.1 = 0), added.2)

def decompose (dispatch : Dispatch Ptr σ) (inst : FhnInstruction) (buffers : Buffers Ptr)
    (world : σ) : Bool × σ :=
  match inst.opcode with
  | .hmult => decomposeHmult dispatch inst buffers world
  | .hrot => decomposeHrot dispatch inst buffers world
  | .hrotAdd => decomposeHrotAdd dispatch inst buffers world
  | .hconjAdd => decomposeHconjAdd dispatch inst buffers world
  | .mad => decomposeMad dispatch inst buffers world
  | _ => (false, world)

/-- The operand array of a direct dispatch: unused slots stay null. -/
def operandArray (inst : FhnInstruction) (buffers : Buffers Ptr) : Fin 4 → Option Ptr :=
  fun slot => if inst.operands slot ≠ 0 then buffers (inst.operands slot) else none

/-- The dispatch of one instruction, shared by both `execute` overloads. -/
def dispatchInstruction (dispatch : Dispatch Ptr σ) (inst : FhnInstruction)
    (buffers : Buffers Ptr) (world : σ) : Int × σ :=
  match dispatch inst.opcode with
  | none =>
      let outcome := decompose dispatch inst buffers world
      if outcome.1 then (0, outcome.2) else (-1, outcome.2)
  | some fn =>
      fn (buffers inst.resultId) (operandArray inst buffers) inst.params inst.fparams world

def dispatchAll (dispatch : Dispatch Ptr σ) (buffers : Buffers Ptr) :
    List FhnInstruction → σ → Int × σ
  | [], world => (0, world)
  | inst :: rest, world =>
      let outcome := dispatchInstruction dispatch inst buffers world
      if outcome.1 ≠ 0 then outcome else dispatchAll dispatch buffers rest outcome.2

/-- `execute(ctx, program, buffers)` -/
def executePlain (dispatch : Dispatch Ptr σ) (program : FhnProgram) (buffers : Buffers Ptr)
    (world : σ) : Int × σ :=
  if program.version ≠ fhnAbiVersion then (-1, world)
  else dispatchAll dispatch buffers program.instructions world

structure ExecState (Ptr σ : Type*) where
  world : σ
  buffers : Buffers Ptr
  owned : List Nat := []

/-- A failing step carries the code passed to `fail` and the state it saw. -/
abbrev Outcome (Ptr σ : Type*) := Except (Int × ExecState Ptr σ) (ExecState Ptr σ)

def evictAll (hooks : FhnMovementHooks Ptr σ) : List Nat → ExecState Ptr σ → Outcome Ptr σ
  | [], state => .ok state
  | id :: rest, state =>
      match hooks.evict with
      | none => evictAll hooks rest state
      | some evict =>
          let outcome := evict (state.buffers id) state.world
          if outcome.1 ≠ 0 then .error (-1, { state with world := outcome.2 })
          else evictAll hooks rest { state with world := outcome.2 }

def allocAll (alloc : σ → Option Ptr × σ) : List Nat → ExecState Ptr σ → Outcome Ptr σ
  | [], state => .ok state
  | id :: rest, state =>
      let outcome := alloc state.world
      let stored : ExecState Ptr σ :=
        { state with world := outcome.2, buffers := Function.update state.buffers id outcome.1 }
      match outcome.1 with
      | none => .error (-1, stored)
      | some _ => allocAll alloc rest { stored with owned := stored.owned ++ [id] }

def prefetchAll (hooks : FhnMovementHooks Ptr σ) : List Nat → ExecState Ptr σ → Outcome Ptr σ
  | [], state => .ok state
  | id :: rest, state =>
      match hooks.prefetch with
      | none => prefetchAll hooks rest state
      | some prefetch =>
          let outcome := prefetch (state.buffers id) state.world
          if outcome.1 ≠ 0 then .error (-1, { state with world := outcome.2 })
          else prefetchAll hooks rest { state with world := outcome.2 }

theorem prefetch_all_eq (hooks : FhnMovementHooks Ptr σ) (ids : List Nat)
    (state : ExecState Ptr σ) :
    prefetchAll hooks ids state = evictAll { hooks with evict := hooks.prefetch } ids state := by
  induction ids generalizing state with
  | nil => rfl
  | cons id rest induction => simp only [prefetchAll, evictAll, induction]

def dispatchStep (dispatch : Dispatch Ptr σ) (inst : FhnInstruction) (state : ExecState Ptr σ) :
    Outcome Ptr σ :=
  let outcome := dispatchInstruction dispatch inst state.buffers state.world
  if outcome.1 ≠ 0 then .error (outcome.1, { state with world := outcome.2 })
  else .ok { state with world := outcome.2 }

def freeId (free : Option Ptr → σ → σ) (state : ExecState Ptr σ) (id : Nat) :
    ExecState Ptr σ where
  world := free (state.buffers id) state.world
  buffers := Function.update state.buffers id none
  owned := state.owned.filter (· ≠ id)

def executeInstruction (hooks : FhnMovementHooks Ptr σ) (alloc : σ → Option Ptr × σ)
    (free : Option Ptr → σ → σ) (dispatch : Dispatch Ptr σ) (inst : FhnInstruction)
    (act : FhnMovementActions) (state : ExecState Ptr σ) : Outcome Ptr σ :=
  (evictAll hooks act.evict state).bind fun evicted =>
    (allocAll alloc act.alloc evicted).bind fun allocated =>
      (prefetchAll hooks act.prefetch allocated).bind fun loaded =>
        (dispatchStep dispatch inst loaded).map fun dispatched =>
          act.free.foldl (freeId free) dispatched

def executeAll (hooks : FhnMovementHooks Ptr σ) (alloc : σ → Option Ptr × σ)
    (free : Option Ptr → σ → σ) (dispatch : Dispatch Ptr σ) :
    List (FhnInstruction × FhnMovementActions) → ExecState Ptr σ → Outcome Ptr σ
  | [], state => .ok state
  | (inst, act) :: rest, state =>
      match executeInstruction hooks alloc free dispatch inst act state with
      | .error failure => .error failure
      | .ok next => executeAll hooks alloc free dispatch rest next

def failId (free : Option Ptr → σ → σ) (state : ExecState Ptr σ) (id : Nat) : ExecState Ptr σ :=
  match state.buffers id with
  | none => state
  | some buffer =>
      { state with
        world := free (some buffer) state.world
        buffers := Function.update state.buffers id none }

/-- The `fail` lambda's cleanup: every plan-allocated id not yet freed. -/
def failCleanup (free : Option Ptr → σ → σ) (state : ExecState Ptr σ) : ExecState Ptr σ :=
  state.owned.foldl (failId free) state

/-- `execute(hooks, program, buffers, plan)` -/
def execute (hooks : FhnMovementHooks Ptr σ) (dispatch : Dispatch Ptr σ) (program : FhnProgram)
    (plan : FhnMovementPlan) (buffers : Buffers Ptr) (world : σ) : Int × ExecState Ptr σ :=
  let entry : ExecState Ptr σ := { world := world, buffers := buffers }
  match hooks.bufferAlloc, hooks.bufferFree with
  | some alloc, some free =>
      if program.version ≠ fhnAbiVersion then (-1, entry)
      else if plan.actions.length ≠ program.instructions.length then (-1, entry)
      else
        match executeAll hooks alloc free dispatch (program.instructions.zip plan.actions)
            entry with
        | .ok state => (0, state)
        | .error (rc, state) => (rc, failCleanup free state)
  | _, _ => (-1, entry)

end Fhenomenon.DefaultExecutor

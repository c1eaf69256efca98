import Fhenomenon.DispatchRecipes
import Fhenomenon.SessionRuntime

/-!
# Executors over an instrumented world

Hooks and kernels may act on a world that records more than the program can see.
When each of them forgets to the one it instruments, so do both executors and the
runtime of a session: the buffers, the codes and the entities are the same.
-/

namespace Fhenomenon.ExecutorErasure

open Fhenomenon.InstructionStream Fhenomenon.MovementPlanner Fhenomenon.DefaultExecutor
open Fhenomenon.DispatchRecipes Fhenomenon.RecordedGraph Fhenomenon.Lowering
open Fhenomenon.SessionRuntime

variable {Ptr σ τ : Type*} {forget : σ → τ}

def forgetWorld {Value : Type*} (forget : σ → τ) (outcome : Value × σ) : Value × τ :=
  (outcome.1, forget outcome.2)

def KernelErases (forget : σ → τ) (rich : FhnKernelFn Ptr σ) (plain : FhnKernelFn Ptr τ) : Prop :=
  ∀ result operands params fparams world, plain result operands params fparams (forget world) =
    forgetWorld forget (rich result operands params fparams world)

/-- Both tables register the same opcodes, each with a kernel that forgets to the other. -/
def TableErases (forget : σ → τ) (rich : Dispatch Ptr σ) (plain : Dispatch Ptr τ) : Prop :=
  ∀ opcode, Option.Rel (KernelErases forget) (rich opcode) (plain opcode)

def MoveErases (forget : σ → τ) (rich : Option Ptr → σ → Int × σ)
    (plain : Option Ptr → τ → Int × τ) : Prop :=
  ∀ buffer world, plain buffer (forget world) = forgetWorld forget (rich buffer world)

def AllocErases (forget : σ → τ) (rich : σ → Option Ptr × σ) (plain : τ → Option Ptr × τ) : Prop :=
  ∀ world, plain (forget world) = forgetWorld forget (rich world)

def FreeErases (forget : σ → τ) (rich : Option Ptr → σ → σ) (plain : Option Ptr → τ → τ) : Prop :=
  ∀ buffer world, plain buffer (forget world) = forget (rich buffer world)

structure HooksErase (forget : σ → τ) (rich : FhnMovementHooks Ptr σ)
    (plain : FhnMovementHooks Ptr τ) : Prop where
  bufferAlloc : Option.Rel (AllocErases forget) rich.bufferAlloc plain.bufferAlloc
  bufferFree : Option.Rel (FreeErases forget) rich.bufferFree plain.bufferFree
  prefetch : Option.Rel (MoveErases forget) rich.prefetch plain.prefetch
  evict : Option.Rel (MoveErases forget) rich.evict plain.evict

section Dispatching

variable {rich : Dispatch Ptr σ} {plain : Dispatch Ptr τ}

theorem supports_erases (table : TableErases forget rich plain) : supports plain = supports rich := by
  funext opcode
  have related := table opcode
  rw [supports, supports]
  generalize rich opcode = richFn at related
  generalize plain opcode = plainFn at related
  cases related with
  | some => rfl
  | none => rfl

theorem run_call_erases (table : TableErases forget rich plain) (inst : FhnInstruction)
    (buffers : Buffers Ptr) (kernel : KernelCall) (world : σ) :
    runCall plain inst buffers kernel (forget world) =
      forgetWorld forget (runCall rich inst buffers kernel world) := by
  have related := table kernel.opcode
  rw [runCall, runCall, call, call]
  generalize rich kernel.opcode = richFn at related
  generalize plain kernel.opcode = plainFn at related
  cases related with
  | some erases => exact erases _ _ _ _ _
  | none => rfl

theorem run_calls_erases (table : TableErases forget rich plain) (inst : FhnInstruction)
    (buffers : Buffers Ptr) (calls : List KernelCall) (world : σ) :
    runCalls plain inst buffers calls (forget world) =
      forgetWorld forget (runCalls rich inst buffers calls world) := by
  induction calls generalizing world with
  | nil => rfl
  | cons kernel rest induction =>
      simp only [runCalls, run_call_erases table, forgetWorld]
      split
      · rfl
      · exact induction _

theorem dispatch_instruction_erases (table : TableErases forget rich plain)
    (inst : FhnInstruction) (buffers : Buffers Ptr) (world : σ) :
    dispatchInstruction plain inst buffers (forget world) =
      forgetWorld forget (dispatchInstruction rich inst buffers world) := by
  have calls : kernelCalls plain inst = kernelCalls rich inst := by
    rw [kernelCalls, kernelCalls, supports_erases table]
  have code (rc : Int) : dispatchCode plain inst rc = dispatchCode rich inst rc := by
    rw [dispatchCode, dispatchCode, supports_erases table]
  rw [dispatch_instruction_eq, dispatch_instruction_eq, calls, run_calls_erases table, code]
  rfl

theorem dispatch_all_erases (table : TableErases forget rich plain) (buffers : Buffers Ptr)
    (insts : List FhnInstruction) (world : σ) :
    dispatchAll plain buffers insts (forget world) =
      forgetWorld forget (dispatchAll rich buffers insts world) := by
  induction insts generalizing world with
  | nil => rfl
  | cons inst rest induction =>
      simp only [dispatchAll, dispatch_instruction_erases table, forgetWorld]
      split
      · rfl
      · exact induction _

theorem execute_plain_erases (table : TableErases forget rich plain) (program : FhnProgram)
    (buffers : Buffers Ptr) (world : σ) :
    executePlain plain program buffers (forget world) =
      forgetWorld forget (executePlain rich program buffers world) := by
  rw [executePlain, executePlain]
  split
  · rfl
  · exact dispatch_all_erases table buffers program.instructions world

end Dispatching

def forgetState (forget : σ → τ) (state : ExecState Ptr σ) : ExecState Ptr τ where
  world := forget state.world
  buffers := state.buffers
  owned := state.owned

def forgetOutcome (forget : σ → τ) : Outcome Ptr σ → Outcome Ptr τ
  | .ok state => .ok (forgetState forget state)
  | .error (rc, state) => .error (rc, forgetState forget state)

section Planned

variable {rich : FhnMovementHooks Ptr σ} {plain : FhnMovementHooks Ptr τ}
  {alloc : σ → Option Ptr × σ} {plainAlloc : τ → Option Ptr × τ}
  {free : Option Ptr → σ → σ} {plainFree : Option Ptr → τ → τ}
  {dispatch : Dispatch Ptr σ} {plainDispatch : Dispatch Ptr τ}

theorem evict_all_erases (moves : Option.Rel (MoveErases forget) rich.evict plain.evict)
    (ids : List Nat) (state : ExecState Ptr σ) :
    evictAll plain ids (forgetState forget state) =
      forgetOutcome forget (evictAll rich ids state) := by
  induction ids generalizing state with
  | nil => rfl
  | cons id rest induction =>
      simp only [evictAll]
      generalize rich.evict = richEvict at moves
      generalize plain.evict = plainEvict at moves
      cases moves with
      | none => exact induction state
      | @some evict plainEvict erases =>
          have moved := erases (state.buffers id) state.world
          simp only [forgetState, moved, forgetWorld]
          split
          · rfl
          · exact induction { state with world := (evict (state.buffers id) state.world).2 }

theorem prefetch_all_erases (moves : Option.Rel (MoveErases forget) rich.prefetch plain.prefetch)
    (ids : List Nat) (state : ExecState Ptr σ) :
    prefetchAll plain ids (forgetState forget state) =
      forgetOutcome forget (prefetchAll rich ids state) := by
  rw [prefetch_all_eq, prefetch_all_eq]
  exact evict_all_erases moves ids state

theorem alloc_all_erases (allocs : AllocErases forget alloc plainAlloc) (ids : List Nat)
    (state : ExecState Ptr σ) : allocAll plainAlloc ids (forgetState forget state) =
      forgetOutcome forget (allocAll alloc ids state) := by
  induction ids generalizing state with
  | nil => rfl
  | cons id rest induction =>
      have allocated : plainAlloc (forgetState forget state).world =
          forgetWorld forget (alloc state.world) := allocs state.world
      simp only [allocAll, allocated, forgetWorld]
      cases (alloc state.world).1 with
      | none => rfl
      | some buffer =>
          exact induction
            { world := (alloc state.world).2
              buffers := Function.update state.buffers id (some buffer)
              owned := state.owned ++ [id] }

theorem dispatch_step_erases (table : TableErases forget dispatch plainDispatch)
    (inst : FhnInstruction) (state : ExecState Ptr σ) :
    dispatchStep plainDispatch inst (forgetState forget state) =
      forgetOutcome forget (dispatchStep dispatch inst state) := by
  have dispatched : dispatchInstruction plainDispatch inst (forgetState forget state).buffers
      (forgetState forget state).world =
        forgetWorld forget (dispatchInstruction dispatch inst state.buffers state.world) :=
    dispatch_instruction_erases table inst state.buffers state.world
  simp only [dispatchStep, dispatched, forgetWorld]
  split <;> rfl

theorem free_all_erases (frees : FreeErases forget free plainFree) (ids : List Nat)
    (state : ExecState Ptr σ) : ids.foldl (freeId plainFree) (forgetState forget state) =
      forgetState forget (ids.foldl (freeId free) state) := by
  induction ids generalizing state with
  | nil => rfl
  | cons id rest induction =>
      have freed : freeId plainFree (forgetState forget state) id =
          forgetState forget (freeId free state id) := by
        simp only [freeId, forgetState, frees (state.buffers id) state.world]
      rw [List.foldl_cons, List.foldl_cons, freed]
      exact induction _

theorem fail_cleanup_erases (frees : FreeErases forget free plainFree)
    (state : ExecState Ptr σ) : failCleanup plainFree (forgetState forget state) =
      forgetState forget (failCleanup free state) := by
  have folded (ids : List Nat) (state : ExecState Ptr σ) :
      ids.foldl (failId plainFree) (forgetState forget state) =
        forgetState forget (ids.foldl (failId free) state) := by
    induction ids generalizing state with
    | nil => rfl
    | cons id rest induction =>
        have failed : failId plainFree (forgetState forget state) id =
            forgetState forget (failId free state id) := by
          simp only [failId, forgetState]
          cases state.buffers id with
          | none => rfl
          | some buffer => simp only [frees (some buffer) state.world]
        rw [List.foldl_cons, List.foldl_cons, failed]
        exact induction _
  exact folded state.owned state

theorem bind_erases {outcome : Outcome Ptr σ} {plainOutcome : Outcome Ptr τ}
    {next : ExecState Ptr σ → Outcome Ptr σ} {plainNext : ExecState Ptr τ → Outcome Ptr τ}
    (before : plainOutcome = forgetOutcome forget outcome)
    (after : ∀ state, plainNext (forgetState forget state) = forgetOutcome forget (next state)) :
    plainOutcome.bind plainNext = forgetOutcome forget (outcome.bind next) := by
  rw [before]
  cases outcome with
  | error failure => rfl
  | ok state => exact after state

theorem execute_instruction_erases (hooks : HooksErase forget rich plain)
    (allocs : AllocErases forget alloc plainAlloc) (frees : FreeErases forget free plainFree)
    (table : TableErases forget dispatch plainDispatch) (inst : FhnInstruction)
    (act : FhnMovementActions) (state : ExecState Ptr σ) :
    executeInstruction plain plainAlloc plainFree plainDispatch inst act
        (forgetState forget state) =
      forgetOutcome forget (executeInstruction rich alloc free dispatch inst act state) := by
  apply bind_erases (evict_all_erases hooks.evict act.evict state)
  intro evicted
  apply bind_erases (alloc_all_erases allocs act.alloc evicted)
  intro allocated
  apply bind_erases (prefetch_all_erases hooks.prefetch act.prefetch allocated)
  intro loaded
  rw [dispatch_step_erases table]
  cases dispatchStep dispatch inst loaded with
  | error failure => rfl
  | ok dispatched => exact congrArg Except.ok (free_all_erases frees act.free dispatched)

theorem execute_all_erases (hooks : HooksErase forget rich plain)
    (allocs : AllocErases forget alloc plainAlloc) (frees : FreeErases forget free plainFree)
    (table : TableErases forget dispatch plainDispatch)
    (steps : List (FhnInstruction × FhnMovementActions)) (state : ExecState Ptr σ) :
    executeAll plain plainAlloc plainFree plainDispatch steps (forgetState forget state) =
      forgetOutcome forget (executeAll rich alloc free dispatch steps state) := by
  induction steps generalizing state with
  | nil => rfl
  | cons step rest induction =>
      obtain ⟨inst, act⟩ := step
      simp only [executeAll, execute_instruction_erases hooks allocs frees table]
      cases executeInstruction rich alloc free dispatch inst act state with
      | error failure => rfl
      | ok next => exact induction next

theorem execute_erases (hooks : HooksErase forget rich plain)
    (table : TableErases forget dispatch plainDispatch) (program : FhnProgram)
    (plan : FhnMovementPlan) (buffers : Buffers Ptr) (world : σ) :
    execute plain plainDispatch program plan buffers (forget world) =
      ((execute rich dispatch program plan buffers world).1,
        forgetState forget (execute rich dispatch program plan buffers world).2) := by
  have allocs := hooks.bufferAlloc
  have frees := hooks.bufferFree
  simp only [execute]
  generalize rich.bufferAlloc = richAlloc at allocs
  generalize plain.bufferAlloc = plainAlloc at allocs
  generalize rich.bufferFree = richFree at frees
  generalize plain.bufferFree = plainFree at frees
  cases allocs with
  | none => rfl
  | some allocates =>
      cases frees with
      | none => rfl
      | some releases =>
          simp only
          split
          · rfl
          · split
            · rfl
            · have ran := execute_all_erases hooks allocates releases table
                (program.instructions.zip plan.actions) { world := world, buffers := buffers }
              rw [forgetState] at ran
              rw [ran]
              cases executeAll rich _ _ dispatch (program.instructions.zip plan.actions)
                  { world := world, buffers := buffers } with
              | error failure => exact Prod.ext rfl (fail_cleanup_erases releases failure.2)
              | ok state => rfl

variable {Entity : Type*} [DecidableEq Entity]

def forgetRun (forget : σ → τ) (state : RunState Entity Ptr σ) : RunState Entity Ptr τ where
  entities := state.entities
  nextControl := state.nextControl
  world := forget state.world

theorem runtime_erases (hooks : HooksErase forget rich plain)
    (table : TableErases forget dispatch plainDispatch) (backend : Nat)
    (roots : List (ASTNode Entity)) (state : RunState Entity Ptr σ) :
    executeThroughFhnRuntime backend plain plainDispatch roots (forgetRun forget state) =
      ((executeThroughFhnRuntime backend rich dispatch roots state).1,
        forgetRun forget (executeThroughFhnRuntime backend rich dispatch roots state).2) := by
  have entities : (forgetRun forget state).entities = state.entities := rfl
  have control : (forgetRun forget state).nextControl = state.nextControl := rfl
  have world : (forgetRun forget state).world = forget state.world := rfl
  simp only [executeThroughFhnRuntime, entities, control, world, execute_erases hooks table]
  cases (lower state.entities roots).1 with
  | none => rfl
  | some program =>
      simp only
      split
      · rfl
      · split
        · rfl
        · split
          · rfl
          · split
            · rfl
            · split <;> rfl

theorem optimize_erases (hooks : HooksErase forget rich plain)
    (table : TableErases forget dispatch plainDispatch) (backend : Nat) (poison : Option String)
    (operations : List (Operation Entity)) (state : RunState Entity Ptr σ) :
    optimize backend plain plainDispatch poison operations (forgetRun forget state) =
      ((optimize backend rich dispatch poison operations state).1,
        forgetRun forget (optimize backend rich dispatch poison operations state).2) := by
  have entities : (forgetRun forget state).entities = state.entities := rfl
  cases poison with
  | some reason => rfl
  | none =>
      simp only [optimize, entities]
      split
      · rfl
      · split
        · rfl
        · exact runtime_erases hooks table backend _ state

end Planned

end Fhenomenon.ExecutorErasure

import Fhenomenon.DispatchRecipes

/-!
# Recording an execution

The same hooks and kernels with a log beside the world: every allocation, every
free, and every kernel call with the buffers it was handed. Forgetting the log
gives back the execution itself.
-/

namespace Fhenomenon.RecordedExecution

open Fhenomenon.InstructionStream Fhenomenon.MovementPlanner Fhenomenon.DefaultExecutor
open Fhenomenon.DispatchRecipes

variable {Ptr σ : Type*}

/-- What a hook returned or was given, and what a kernel saw. -/
inductive Event (Ptr σ : Type*)
  | allocated (buffer : Option Ptr)
  | freed (buffer : Option Ptr)
  | called (opcode : FhnOpCode) (result : Option Ptr) (operands : Fin 4 → Option Ptr) (world : σ)

structure Recorded (Ptr σ : Type*) where
  world : σ
  events : List (Event Ptr σ) := []

def recordAlloc (alloc : σ → Option Ptr × σ) (recorded : Recorded Ptr σ) :
    Option Ptr × Recorded Ptr σ :=
  let outcome := alloc recorded.world
  (outcome.1,
    { world := outcome.2, events := recorded.events ++ [.allocated outcome.1] })

def recordFree (free : Option Ptr → σ → σ) (buffer : Option Ptr) (recorded : Recorded Ptr σ) :
    Recorded Ptr σ where
  world := free buffer recorded.world
  events := recorded.events ++ [.freed buffer]

/-- Evictions and prefetches leave no event. -/
def recordMove (move : Option Ptr → σ → Int × σ) (buffer : Option Ptr)
    (recorded : Recorded Ptr σ) : Int × Recorded Ptr σ :=
  let outcome := move buffer recorded.world
  (outcome.1, { recorded with world := outcome.2 })

def recordKernel (opcode : FhnOpCode) (fn : FhnKernelFn Ptr σ) :
    FhnKernelFn Ptr (Recorded Ptr σ) :=
  fun result operands params fparams recorded =>
    let outcome := fn result operands params fparams recorded.world
    (outcome.1,
      { world := outcome.2
        events := recorded.events ++ [.called opcode result operands recorded.world] })

def recordHooks (hooks : FhnMovementHooks Ptr σ) : FhnMovementHooks Ptr (Recorded Ptr σ) where
  bufferAlloc := hooks.bufferAlloc.map recordAlloc
  bufferFree := hooks.bufferFree.map recordFree
  prefetch := hooks.prefetch.map recordMove
  evict := hooks.evict.map recordMove

def recordKernels (dispatch : Dispatch Ptr σ) : Dispatch Ptr (Recorded Ptr σ) :=
  fun opcode => (dispatch opcode).map (recordKernel opcode)

/-- Plan-aware execution with its log. -/
def recordExecute (hooks : FhnMovementHooks Ptr σ) (dispatch : Dispatch Ptr σ)
    (program : FhnProgram) (plan : FhnMovementPlan) (buffers : Buffers Ptr) (world : σ) :
    Int × ExecState Ptr (Recorded Ptr σ) :=
  execute (recordHooks hooks) (recordKernels dispatch) program plan buffers { world := world }

def forget (state : ExecState Ptr (Recorded Ptr σ)) : ExecState Ptr σ where
  world := state.world.world
  buffers := state.buffers
  owned := state.owned

def forgetOutcome : Outcome Ptr (Recorded Ptr σ) → Outcome Ptr σ
  | .ok state => .ok (forget state)
  | .error (rc, state) => .error (rc, forget state)

theorem record_evict (hooks : FhnMovementHooks Ptr σ) :
    (recordHooks hooks).evict = hooks.evict.map recordMove :=
  rfl

theorem record_prefetch (hooks : FhnMovementHooks Ptr σ) :
    (recordHooks hooks).prefetch = hooks.prefetch.map recordMove :=
  rfl

theorem record_supports (dispatch : Dispatch Ptr σ) :
    supports (recordKernels dispatch) = supports dispatch := by
  funext opcode
  simp [supports, recordKernels]

theorem record_kernel_calls (dispatch : Dispatch Ptr σ) (inst : FhnInstruction) :
    kernelCalls (recordKernels dispatch) inst = kernelCalls dispatch inst := by
  rw [kernelCalls, kernelCalls, record_supports]

theorem record_dispatch_code (dispatch : Dispatch Ptr σ) (inst : FhnInstruction) (rc : Int) :
    dispatchCode (recordKernels dispatch) inst rc = dispatchCode dispatch inst rc := by
  rw [dispatchCode, dispatchCode, record_supports]

theorem record_run_call (dispatch : Dispatch Ptr σ) (inst : FhnInstruction)
    (buffers : Buffers Ptr) (kernel : KernelCall) (recorded : Recorded Ptr σ) :
    (runCall (recordKernels dispatch) inst buffers kernel recorded).1 =
        (runCall dispatch inst buffers kernel recorded.world).1 ∧
      (runCall (recordKernels dispatch) inst buffers kernel recorded).2.world =
        (runCall dispatch inst buffers kernel recorded.world).2 := by
  unfold runCall call recordKernels
  cases dispatch kernel.opcode with
  | none => exact ⟨rfl, rfl⟩
  | some fn => exact ⟨rfl, rfl⟩

theorem record_run_calls (dispatch : Dispatch Ptr σ) (inst : FhnInstruction)
    (buffers : Buffers Ptr) (calls : List KernelCall) (recorded : Recorded Ptr σ) :
    (runCalls (recordKernels dispatch) inst buffers calls recorded).1 =
        (runCalls dispatch inst buffers calls recorded.world).1 ∧
      (runCalls (recordKernels dispatch) inst buffers calls recorded).2.world =
        (runCalls dispatch inst buffers calls recorded.world).2 := by
  induction calls generalizing recorded with
  | nil => exact ⟨rfl, rfl⟩
  | cons kernel rest induction =>
      obtain ⟨code, world⟩ := record_run_call dispatch inst buffers kernel recorded
      rw [run_calls_cons, run_calls_cons, code]
      split
      · exact ⟨code, world⟩
      · rw [← world]
        exact induction _

theorem record_dispatch (dispatch : Dispatch Ptr σ) (inst : FhnInstruction)
    (buffers : Buffers Ptr) (recorded : Recorded Ptr σ) :
    (dispatchInstruction (recordKernels dispatch) inst buffers recorded).1 =
        (dispatchInstruction dispatch inst buffers recorded.world).1 ∧
      (dispatchInstruction (recordKernels dispatch) inst buffers recorded).2.world =
        (dispatchInstruction dispatch inst buffers recorded.world).2 := by
  obtain ⟨code, world⟩ :=
    record_run_calls dispatch inst buffers (kernelCalls dispatch inst) recorded
  rw [dispatch_instruction_eq, dispatch_instruction_eq, record_kernel_calls, record_dispatch_code,
    code]
  exact ⟨rfl, world⟩

theorem record_evict_all (hooks : FhnMovementHooks Ptr σ) (ids : List Nat)
    (state : ExecState Ptr (Recorded Ptr σ)) :
    forgetOutcome (evictAll (recordHooks hooks) ids state) = evictAll hooks ids (forget state) := by
  induction ids generalizing state with
  | nil => rfl
  | cons id rest induction =>
      cases registered : hooks.evict with
      | none =>
          simp only [evictAll, record_evict, registered, Option.map_none]
          exact induction state
      | some evict =>
          simp only [evictAll, record_evict, registered, Option.map_some]
          by_cases failed : (recordMove evict (state.buffers id) state.world).1 ≠ 0
          · rw [if_pos failed, if_pos (show (evict ((forget state).buffers id)
              (forget state).world).1 ≠ 0 from failed)]
            rfl
          · rw [if_neg failed, if_neg (show ¬(evict ((forget state).buffers id)
              (forget state).world).1 ≠ 0 from failed)]
            exact induction _

theorem record_prefetch_all (hooks : FhnMovementHooks Ptr σ) (ids : List Nat)
    (state : ExecState Ptr (Recorded Ptr σ)) :
    forgetOutcome (prefetchAll (recordHooks hooks) ids state) =
      prefetchAll hooks ids (forget state) := by
  rw [prefetch_all_eq, prefetch_all_eq]
  exact record_evict_all { hooks with evict := hooks.prefetch } ids state

theorem record_alloc_all (alloc : σ → Option Ptr × σ) (ids : List Nat)
    (state : ExecState Ptr (Recorded Ptr σ)) :
    forgetOutcome (allocAll (recordAlloc alloc) ids state) =
      allocAll alloc ids (forget state) := by
  induction ids generalizing state with
  | nil => rfl
  | cons id rest induction =>
      simp only [allocAll, recordAlloc]
      cases returned : (alloc state.world.world).1 with
      | none =>
          rw [show (alloc (forget state).world).1 = none from returned]
          rfl
      | some buffer =>
          rw [show (alloc (forget state).world).1 = some buffer from returned]
          exact induction _

theorem record_free_all (free : Option Ptr → σ → σ) (ids : List Nat)
    (state : ExecState Ptr (Recorded Ptr σ)) :
    forget (ids.foldl (freeId (recordFree free)) state) =
      ids.foldl (freeId free) (forget state) := by
  induction ids generalizing state with
  | nil => rfl
  | cons id rest induction => exact induction _

theorem record_fail_cleanup (free : Option Ptr → σ → σ)
    (state : ExecState Ptr (Recorded Ptr σ)) :
    forget (failCleanup (recordFree free) state) = failCleanup free (forget state) := by
  have folded (ids : List Nat) (state : ExecState Ptr (Recorded Ptr σ)) :
      forget (ids.foldl (failId (recordFree free)) state) =
        ids.foldl (failId free) (forget state) := by
    induction ids generalizing state with
    | nil => rfl
    | cons id rest induction =>
        have step : forget (failId (recordFree free) state id) =
            failId free (forget state) id := by
          cases stored : state.buffers id with
          | none =>
              have same : (forget state).buffers id = none := stored
              simp only [failId, stored, same]
          | some buffer =>
              have same : (forget state).buffers id = some buffer := stored
              simp only [failId, stored, same]
              rfl
        rw [List.foldl_cons, List.foldl_cons, induction, step]
  exact folded state.owned state

theorem forget_bind (outcome : Outcome Ptr (Recorded Ptr σ))
    (next : ExecState Ptr (Recorded Ptr σ) → Outcome Ptr (Recorded Ptr σ))
    (plain : ExecState Ptr σ → Outcome Ptr σ)
    (same : ∀ state, forgetOutcome (next state) = plain (forget state)) :
    forgetOutcome (outcome.bind next) = (forgetOutcome outcome).bind plain := by
  cases outcome with
  | error failure => rfl
  | ok state => exact same state

theorem record_dispatch_step (dispatch : Dispatch Ptr σ) (inst : FhnInstruction)
    (state : ExecState Ptr (Recorded Ptr σ)) :
    forgetOutcome (dispatchStep (recordKernels dispatch) inst state) =
      dispatchStep dispatch inst (forget state) := by
  obtain ⟨code, world⟩ := record_dispatch dispatch inst state.buffers state.world
  simp only [dispatchStep, code]
  by_cases failed : (dispatchInstruction dispatch inst state.buffers state.world.world).1 ≠ 0
  · rw [if_pos failed, if_pos (show (dispatchInstruction dispatch inst (forget state).buffers
      (forget state).world).1 ≠ 0 from failed)]
    simp only [forgetOutcome, forget, world]
  · rw [if_neg failed, if_neg (show ¬(dispatchInstruction dispatch inst (forget state).buffers
      (forget state).world).1 ≠ 0 from failed)]
    simp only [forgetOutcome, forget, world]

theorem record_instruction (hooks : FhnMovementHooks Ptr σ) (alloc : σ → Option Ptr × σ)
    (free : Option Ptr → σ → σ) (dispatch : Dispatch Ptr σ) (inst : FhnInstruction)
    (act : FhnMovementActions) (state : ExecState Ptr (Recorded Ptr σ)) :
    forgetOutcome (executeInstruction (recordHooks hooks) (recordAlloc alloc) (recordFree free)
        (recordKernels dispatch) inst act state) =
      executeInstruction hooks alloc free dispatch inst act (forget state) := by
  unfold executeInstruction
  rw [← record_evict_all]
  apply forget_bind
  intro evicted
  rw [← record_alloc_all]
  apply forget_bind
  intro allocated
  rw [← record_prefetch_all]
  apply forget_bind
  intro loaded
  rw [← record_dispatch_step]
  cases dispatchStep (recordKernels dispatch) inst loaded with
  | error failure => rfl
  | ok dispatched => exact congrArg Except.ok (record_free_all free act.free dispatched)

theorem record_all (hooks : FhnMovementHooks Ptr σ) (alloc : σ → Option Ptr × σ)
    (free : Option Ptr → σ → σ) (dispatch : Dispatch Ptr σ)
    (steps : List (FhnInstruction × FhnMovementActions))
    (state : ExecState Ptr (Recorded Ptr σ)) :
    forgetOutcome (executeAll (recordHooks hooks) (recordAlloc alloc) (recordFree free)
        (recordKernels dispatch) steps state) =
      executeAll hooks alloc free dispatch steps (forget state) := by
  induction steps generalizing state with
  | nil => rfl
  | cons step rest induction =>
      obtain ⟨inst, act⟩ := step
      simp only [executeAll]
      rw [← record_instruction]
      cases executeInstruction (recordHooks hooks) (recordAlloc alloc) (recordFree free)
          (recordKernels dispatch) inst act state with
      | error failure => rfl
      | ok next => exact induction next

theorem record_execute (hooks : FhnMovementHooks Ptr σ) (dispatch : Dispatch Ptr σ)
    (program : FhnProgram) (plan : FhnMovementPlan) (buffers : Buffers Ptr) (world : σ) :
    execute hooks dispatch program plan buffers world =
      ((recordExecute hooks dispatch program plan buffers world).1,
        forget (recordExecute hooks dispatch program plan buffers world).2) := by
  unfold recordExecute execute
  cases allocHook : hooks.bufferAlloc with
  | none =>
      simp only [recordHooks, allocHook, Option.map_none]
      rfl
  | some alloc =>
      cases freeHook : hooks.bufferFree with
      | none =>
          simp only [recordHooks, allocHook, freeHook, Option.map_some, Option.map_none]
          rfl
      | some free =>
          have ran := record_all hooks alloc free dispatch
            (program.instructions.zip plan.actions)
            { world := { world := world }, buffers := buffers }
          have entry : forget { world := { world := world }, buffers := buffers } =
              ({ world := world, buffers := buffers } : ExecState Ptr σ) := rfl
          rw [entry] at ran
          have lifted : (recordHooks hooks).bufferAlloc = some (recordAlloc alloc) := by
            rw [recordHooks, allocHook, Option.map_some]
          have liftedFree : (recordHooks hooks).bufferFree = some (recordFree free) := by
            rw [recordHooks, freeHook, Option.map_some]
          simp only [lifted, liftedFree, ← ran]
          split
          · rfl
          · split
            · rfl
            · cases executeAll (recordHooks hooks) (recordAlloc alloc) (recordFree free)
                  (recordKernels dispatch) (program.instructions.zip plan.actions)
                  { world := { world := world }, buffers := buffers } with
              | ok state => rfl
              | error failure =>
                  exact congrArg (Prod.mk _) (record_fail_cleanup free failure.2).symm

end Fhenomenon.RecordedExecution

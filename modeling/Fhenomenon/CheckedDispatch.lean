import Fhenomenon.DispatchRecipes

/-!
# A checked table in place of a table

A checked kernel refuses some calls and otherwise does what the kernel it stands
for does. A run over checked kernels that succeeds is therefore also the run over
the kernels themselves.
-/

namespace Fhenomenon.CheckedDispatch

open Fhenomenon.InstructionStream Fhenomenon.MovementPlanner Fhenomenon.DefaultExecutor

variable {Ptr σ : Type*}

/-- Both tables register the opcode, and the checked kernel succeeds only as the
other does. -/
def ChecksOpcode (checked dispatch : Dispatch Ptr σ) (opcode : FhnOpCode) : Prop :=
  ∃ check fn, checked opcode = some check ∧ dispatch opcode = some fn ∧
    ∀ result operands params fparams world,
      (check result operands params fparams world).1 = 0 →
        fn result operands params fparams world = check result operands params fparams world

variable {checked dispatch : Dispatch Ptr σ}

theorem dispatch_checked {inst : FhnInstruction}
    (checks : ChecksOpcode checked dispatch inst.opcode) (buffers : Buffers Ptr) (world : σ)
    (success : (dispatchInstruction checked inst buffers world).1 = 0) :
    dispatchInstruction dispatch inst buffers world =
      dispatchInstruction checked inst buffers world := by
  obtain ⟨check, fn, registered, present, agrees⟩ := checks
  simp only [dispatchInstruction, registered] at success
  simp only [dispatchInstruction, registered, present]
  exact agrees _ _ _ _ _ success

theorem dispatch_all_checked {insts : List FhnInstruction}
    (checks : ∀ inst ∈ insts, ChecksOpcode checked dispatch inst.opcode) (buffers : Buffers Ptr)
    (world : σ) (success : (dispatchAll checked buffers insts world).1 = 0) :
    dispatchAll dispatch buffers insts world = dispatchAll checked buffers insts world := by
  induction insts generalizing world with
  | nil => rfl
  | cons inst rest induction =>
      simp only [dispatchAll] at success ⊢
      by_cases failed : (dispatchInstruction checked inst buffers world).1 ≠ 0
      · rw [if_pos failed] at success
        exact absurd success failed
      · rw [if_neg failed] at success
        push Not at failed
        rw [dispatch_checked (checks inst (List.mem_cons_self ..)) buffers world failed]
        split
        · rfl
        · exact induction (fun other member => checks other (List.mem_cons_of_mem _ member)) _
            success

theorem execute_plain_checked {program : FhnProgram}
    (checks : ∀ inst ∈ program.instructions, ChecksOpcode checked dispatch inst.opcode)
    (buffers : Buffers Ptr) (world : σ)
    (success : (executePlain checked program buffers world).1 = 0) :
    executePlain dispatch program buffers world = executePlain checked program buffers world := by
  simp only [executePlain] at success ⊢
  by_cases wrong : program.version ≠ fhnAbiVersion
  · rw [if_pos wrong, if_pos wrong]
  · rw [if_neg wrong] at success
    rw [if_neg wrong, if_neg wrong]
    exact dispatch_all_checked checks buffers world success

/-- An outcome that fails does so with a code that is not zero. -/
def FailsNonzero (outcome : Outcome Ptr σ) : Prop :=
  ∀ rc state, outcome = .error (rc, state) → rc ≠ 0

theorem fails_nonzero_ok (state : ExecState Ptr σ) : FailsNonzero (Except.ok state) := by
  intro rc other impossible
  cases impossible

theorem fails_nonzero_error {rc : Int} (nonzero : rc ≠ 0) (state : ExecState Ptr σ) :
    FailsNonzero (.error (rc, state)) := by
  intro code other same
  cases same
  exact nonzero

theorem fails_nonzero_bind {outcome : Outcome Ptr σ} {next : ExecState Ptr σ → Outcome Ptr σ}
    (first : FailsNonzero outcome) (second : ∀ state, FailsNonzero (next state)) :
    FailsNonzero (outcome.bind next) := by
  cases outcome with
  | error failure => exact fails_nonzero_error (first failure.1 failure.2 rfl) failure.2
  | ok state => exact second state

theorem evict_all_nonzero (hooks : FhnMovementHooks Ptr σ) (ids : List Nat)
    (state : ExecState Ptr σ) : FailsNonzero (evictAll hooks ids state) := by
  induction ids generalizing state with
  | nil => exact fails_nonzero_ok state
  | cons id rest induction =>
      simp only [evictAll]
      cases hooks.evict with
      | none => exact induction state
      | some evict =>
          simp only
          split
          · exact fails_nonzero_error (by decide) _
          · exact induction _

theorem alloc_all_nonzero (alloc : σ → Option Ptr × σ) (ids : List Nat)
    (state : ExecState Ptr σ) : FailsNonzero (allocAll alloc ids state) := by
  induction ids generalizing state with
  | nil => exact fails_nonzero_ok state
  | cons id rest induction =>
      simp only [allocAll]
      cases (alloc state.world).1 with
      | none => exact fails_nonzero_error (by decide) _
      | some buffer => exact induction _

theorem prefetch_all_nonzero (hooks : FhnMovementHooks Ptr σ) (ids : List Nat)
    (state : ExecState Ptr σ) : FailsNonzero (prefetchAll hooks ids state) := by
  rw [prefetch_all_eq]
  exact evict_all_nonzero _ ids state

theorem dispatch_step_nonzero (dispatch : Dispatch Ptr σ) (inst : FhnInstruction)
    (state : ExecState Ptr σ) : FailsNonzero (dispatchStep dispatch inst state) := by
  simp only [dispatchStep]
  split
  · exact fails_nonzero_error (by assumption) _
  · exact fails_nonzero_ok _

section Nonzero

variable (hooks : FhnMovementHooks Ptr σ) (alloc : σ → Option Ptr × σ) (free : Option Ptr → σ → σ)
  (dispatch : Dispatch Ptr σ)

theorem execute_instruction_nonzero (inst : FhnInstruction) (act : FhnMovementActions)
    (state : ExecState Ptr σ) :
    FailsNonzero (executeInstruction hooks alloc free dispatch inst act state) := by
  rw [executeInstruction]
  apply fails_nonzero_bind (evict_all_nonzero hooks _ _)
  intro evicted
  apply fails_nonzero_bind (alloc_all_nonzero alloc _ _)
  intro allocated
  apply fails_nonzero_bind (prefetch_all_nonzero hooks _ _)
  intro loaded
  have dispatched := dispatch_step_nonzero dispatch inst loaded
  cases stepped : dispatchStep dispatch inst loaded with
  | error failure =>
      rw [stepped] at dispatched
      exact fails_nonzero_error (dispatched failure.1 failure.2 rfl) failure.2
  | ok next => exact fails_nonzero_ok _

theorem execute_all_nonzero (steps : List (FhnInstruction × FhnMovementActions))
    (state : ExecState Ptr σ) :
    FailsNonzero (executeAll hooks alloc free dispatch steps state) := by
  induction steps generalizing state with
  | nil => exact fails_nonzero_ok state
  | cons step rest induction =>
      obtain ⟨inst, act⟩ := step
      have ran := execute_instruction_nonzero hooks alloc free dispatch inst act state
      simp only [executeAll]
      cases outcome : executeInstruction hooks alloc free dispatch inst act state with
      | error failure =>
          rw [outcome] at ran
          exact ran
      | ok next => exact induction next

end Nonzero

variable {hooks : FhnMovementHooks Ptr σ} {alloc : σ → Option Ptr × σ} {free : Option Ptr → σ → σ}

theorem dispatch_step_checked {inst : FhnInstruction}
    (checks : ChecksOpcode checked dispatch inst.opcode) {state next : ExecState Ptr σ}
    (stepped : dispatchStep checked inst state = .ok next) :
    dispatchStep dispatch inst state = .ok next := by
  simp only [dispatchStep] at stepped
  by_cases failed : (dispatchInstruction checked inst state.buffers state.world).1 ≠ 0
  · rw [if_pos failed] at stepped
    cases stepped
  · rw [if_neg failed] at stepped
    push Not at failed
    rw [dispatchStep, dispatch_checked checks _ _ failed, if_neg (by simpa using failed)]
    exact stepped

theorem execute_instruction_checked {inst : FhnInstruction} {act : FhnMovementActions}
    (checks : ChecksOpcode checked dispatch inst.opcode) {state next : ExecState Ptr σ}
    (ran : executeInstruction hooks alloc free checked inst act state = .ok next) :
    executeInstruction hooks alloc free dispatch inst act state = .ok next := by
  rw [executeInstruction] at ran ⊢
  cases evicted : evictAll hooks act.evict state with
  | error failure =>
      rw [evicted] at ran
      cases ran
  | ok second =>
      rw [evicted] at ran
      simp only [Except.bind] at ran ⊢
      cases allocated : allocAll alloc act.alloc second with
      | error failure =>
          rw [allocated] at ran
          cases ran
      | ok third =>
          rw [allocated] at ran
          simp only at ran ⊢
          cases loaded : prefetchAll hooks act.prefetch third with
          | error failure =>
              rw [loaded] at ran
              cases ran
          | ok fourth =>
              rw [loaded] at ran
              simp only at ran ⊢
              cases stepped : dispatchStep checked inst fourth with
              | error failure =>
                  rw [stepped] at ran
                  cases ran
              | ok fifth =>
                  rw [stepped] at ran
                  rw [dispatch_step_checked checks stepped]
                  exact ran

theorem execute_all_checked {steps : List (FhnInstruction × FhnMovementActions)}
    (checks : ∀ step ∈ steps, ChecksOpcode checked dispatch step.1.opcode)
    {state final : ExecState Ptr σ}
    (ran : executeAll hooks alloc free checked steps state = .ok final) :
    executeAll hooks alloc free dispatch steps state = .ok final := by
  induction steps generalizing state with
  | nil => exact ran
  | cons step rest induction =>
      obtain ⟨inst, act⟩ := step
      simp only [executeAll] at ran ⊢
      cases outcome : executeInstruction hooks alloc free checked inst act state with
      | error failure =>
          rw [outcome] at ran
          cases ran
      | ok next =>
          rw [outcome] at ran
          rw [execute_instruction_checked (checks _ (List.mem_cons_self ..)) outcome]
          exact induction (fun other member => checks other (List.mem_cons_of_mem _ member)) ran

/-- A plan-aware run over the checked table that returns zero is a run over the table. -/
theorem execute_checked {program : FhnProgram} {plan : FhnMovementPlan}
    (checks : ∀ inst ∈ program.instructions, ChecksOpcode checked dispatch inst.opcode)
    (buffers : Buffers Ptr) (world : σ)
    (success : (execute hooks checked program plan buffers world).1 = 0) :
    execute hooks dispatch program plan buffers world =
      execute hooks checked program plan buffers world := by
  unfold execute at success ⊢
  cases allocHook : hooks.bufferAlloc with
  | none => rfl
  | some alloc =>
      cases freeHook : hooks.bufferFree with
      | none => rfl
      | some free =>
          simp only [allocHook, freeHook] at success ⊢
          split
          · rfl
          · split
            · rfl
            · rename_i version length
              rw [if_neg version, if_neg length] at success
              have nonzero := execute_all_nonzero hooks alloc free checked
                (program.instructions.zip plan.actions) { world := world, buffers := buffers }
              cases outcome : executeAll hooks alloc free checked
                  (program.instructions.zip plan.actions)
                  { world := world, buffers := buffers } with
              | error failure =>
                  rw [outcome] at success nonzero
                  exact absurd success (nonzero failure.1 failure.2 rfl)
              | ok final =>
                  rw [execute_all_checked _ outcome]
                  intro step member
                  exact checks step.1 (List.of_mem_zip member).1

end Fhenomenon.CheckedDispatch

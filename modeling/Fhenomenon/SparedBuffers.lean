import Fhenomenon.ExecutorCleanup

/-!
# Buffers the plan leaves alone

A buffer that is allocated before execution, and stands in the table only under
inputs that the plan never frees, is neither handed out again nor freed, wherever
execution stops.
-/

namespace Fhenomenon.SparedBuffers

open Fhenomenon.Lib.Ownership Fhenomenon.Lib.Removals
open Fhenomenon.InstructionStream Fhenomenon.MovementPlanner
open Fhenomenon.PlanLegality Fhenomenon.DefaultExecutor Fhenomenon.DispatchRecipes
open Fhenomenon.RecordedExecution Fhenomenon.ExecutorCleanup

variable {Ptr σ : Type*} {program : FhnProgram} {held : σ → Ptr → Prop}
  {table : Buffers Ptr} {shared : Nat → Prop} {live : Finset Nat} {started : Nat}
  {hooks : FhnMovementHooks Ptr σ} {dispatch : Dispatch Ptr σ} {buffer : Ptr}

structure Spared (held : σ → Ptr → Prop) (program : FhnProgram) (buffer : Ptr)
    (buffers : Buffers Ptr) (recorded : Recorded Ptr σ) : Prop where
  alive : held recorded.world buffer
  inputs : ∀ id, buffers id = some buffer → id ∈ program.inputIds
  unacquired : .acquire buffer ∉ ownershipLog recorded.events
  unreleased : .release buffer ∉ ownershipLog recorded.events

def Spares (held : σ → Ptr → Prop) (program : FhnProgram) (buffer : Ptr)
    (state : ExecState Ptr (Recorded Ptr σ)) : Prop :=
  Spared held program buffer state.buffers state.world

theorem spared_frame {buffers : Buffers Ptr} {before after : Recorded Ptr σ}
    (spared : Spared held program buffer buffers before)
    (same : ∀ other, held after.world other ↔ held before.world other)
    (log : ownershipLog after.events = ownershipLog before.events) :
    Spared held program buffer buffers after where
  alive := (same buffer).mpr spared.alive
  inputs := spared.inputs
  unacquired := by
    rw [log]
    exact spared.unacquired
  unreleased := by
    rw [log]
    exact spared.unreleased

theorem ends_and {failed finished failedAlso finishedAlso : ExecState Ptr (Recorded Ptr σ) → Prop}
    {outcome : Outcome Ptr (Recorded Ptr σ)} (first : Ends failed finished outcome)
    (second : Ends failedAlso finishedAlso outcome) :
    Ends (fun state => failed state ∧ failedAlso state)
      (fun state => finished state ∧ finishedAlso state) outcome := by
  cases outcome with
  | error failure => exact ⟨first.1, first.2, second.2⟩
  | ok state => exact ⟨first, second⟩

theorem evict_all_spares (laws : AllocatorLaws held hooks dispatch) (ids : List Nat)
    (state : ExecState Ptr (Recorded Ptr σ)) (spares : Spares held program buffer state) :
    Ends (Spares held program buffer) (Spares held program buffer)
      (evictAll (recordHooks hooks) ids state) := by
  apply evict_all_ends _ ids state spares
  intro evict registered state evicted spares
  exact spared_frame spares (laws.evicted evict registered evicted _) rfl

theorem prefetch_all_spares (laws : AllocatorLaws held hooks dispatch) (ids : List Nat)
    (state : ExecState Ptr (Recorded Ptr σ)) (spares : Spares held program buffer state) :
    Ends (Spares held program buffer) (Spares held program buffer)
      (prefetchAll (recordHooks hooks) ids state) := by
  apply prefetch_all_ends _ ids state spares
  intro prefetch registered state prefetched spares
  exact spared_frame spares (laws.prefetched prefetch registered prefetched _) rfl

theorem run_calls_spared (laws : AllocatorLaws held hooks dispatch) (inst : FhnInstruction)
    (buffers : Buffers Ptr) (calls : List KernelCall) (recorded : Recorded Ptr σ)
    (spared : Spared held program buffer buffers recorded) :
    Spared held program buffer buffers
      (runCalls (recordKernels dispatch) inst buffers calls recorded).2 := by
  apply run_calls_keep _ inst buffers calls recorded spared
  intro opcode fn registered result operands params fparams recorded spared
  apply spared_frame spared (laws.called opcode fn registered _ _ _ _ recorded.world)
  exact (ownership_log_append _ _).trans (List.append_nil _)

theorem dispatch_step_spares (laws : AllocatorLaws held hooks dispatch) (inst : FhnInstruction)
    (state : ExecState Ptr (Recorded Ptr σ)) (spares : Spares held program buffer state) :
    Ends (Spares held program buffer) (Spares held program buffer)
      (dispatchStep (recordKernels dispatch) inst state) := by
  have ran := run_calls_spared laws inst state.buffers
    (kernelCalls (recordKernels dispatch) inst) state.world spares
  simp only [dispatchStep, dispatch_instruction_eq]
  split
  · rename_i failed
    exact ⟨failed, ran⟩
  · exact ran

variable {alloc : σ → Option Ptr × σ} {free : Option Ptr → σ → σ}

theorem alloc_spares (laws : AllocatorLaws held hooks dispatch)
    (allocHook : hooks.bufferAlloc = some alloc) (id : Nat)
    (state : ExecState Ptr (Recorded Ptr σ)) (spares : Spares held program buffer state) :
    Ends (Spares held program buffer) (Spares held program buffer)
      (allocAll (recordAlloc alloc) [id] state) := by
  simp only [allocAll, recordAlloc]
  cases returned : (alloc state.world.world).1 with
  | none =>
      refine ⟨by decide, ?_⟩
      have kept : Spared held program buffer state.buffers
          { world := (alloc state.world.world).2,
            events := state.world.events ++ [.allocated none] } :=
        spared_frame spares (laws.refused alloc allocHook _ returned)
          ((ownership_log_append _ _).trans (List.append_nil _))
      refine ⟨kept.alive, ?_, kept.unacquired, kept.unreleased⟩
      intro other stored
      by_cases same : other = id
      · rw [same] at stored
        simp only [Function.update_self] at stored
        cases stored
      · simp only [Function.update_of_ne same] at stored
        exact spares.inputs other stored
  | some made =>
      obtain ⟨unheld, added⟩ := laws.allocated alloc allocHook _ made returned
      have apart : made ≠ buffer := fun same => unheld (same ▸ spares.alive)
      have log : ownershipLog (state.world.events ++ [Event.allocated (σ := σ) (some made)]) =
          ownershipLog state.world.events ++ [.acquire made] := ownership_log_append _ _
      constructor
      · exact (added buffer).mpr (Or.inr spares.alive)
      · intro other stored
        by_cases same : other = id
        · rw [same] at stored
          simp only [Function.update_self, Option.some.injEq] at stored
          exact absurd stored apart
        · simp only [Function.update_of_ne same] at stored
          exact spares.inputs other stored
      · rw [log, List.mem_append, List.mem_singleton, not_or]
        exact ⟨spares.unacquired, fun same => apart (Act.acquire.inj same).symm⟩
      · rw [log, List.mem_append, List.mem_singleton, not_or]
        exact ⟨spares.unreleased, fun same => by cases same⟩

theorem free_spares (laws : AllocatorLaws held hooks dispatch)
    (freeHook : hooks.bufferFree = some free) {id : Nat} (kept : id ∉ program.inputIds)
    (state : ExecState Ptr (Recorded Ptr σ)) (spares : Spares held program buffer state)
    {freed : Ptr} (stored : state.buffers id = some freed) (alive : held state.world.world freed) :
    Spares held program buffer (freeId (recordFree free) state id) := by
  have apart : freed ≠ buffer := by
    intro same
    rw [same] at stored
    exact kept (spares.inputs id stored)
  have removed := laws.freed free freeHook state.world.world freed alive
  have log : ownershipLog (state.world.events ++ [Event.freed (σ := σ) (some freed)]) =
      ownershipLog state.world.events ++ [.release freed] := ownership_log_append _ _
  simp only [Spares, freeId, stored]
  constructor
  · exact (removed buffer).mpr ⟨fun same => apart same.symm, spares.alive⟩
  · intro other found
    by_cases same : other = id
    · rw [same, Function.update_self] at found
      cases found
    · rw [Function.update_of_ne same] at found
      exact spares.inputs other found
  · simp only [recordFree]
    rw [log, List.mem_append, List.mem_singleton, not_or]
    exact ⟨spares.unacquired, fun same => by cases same⟩
  · simp only [recordFree]
    rw [log, List.mem_append, List.mem_singleton, not_or]
    exact ⟨spares.unreleased, fun same => apart (Act.release.inj same).symm⟩

section Runs

variable [DecidableEq Ptr]

def Keeps (program : FhnProgram) (held : σ → Ptr → Prop) (table : Buffers Ptr)
    (shared : Nat → Prop) (buffer : Ptr) (live : Finset Nat) (started : Nat)
    (state : ExecState Ptr (Recorded Ptr σ)) : Prop :=
  Owns program held table shared live started state ∧ Spares held program buffer state

theorem free_all_spares (laws : AllocatorLaws held hooks dispatch)
    (freeHook : hooks.bufferFree = some free) (ids : List Nat) (nodup : ids.Nodup)
    (members : ∀ id ∈ ids, id ∈ live) (unshared : ∀ id ∈ ids, ¬shared id)
    (kept : ∀ id ∈ ids, id ∉ program.inputIds) (state : ExecState Ptr (Recorded Ptr σ))
    (keeps : Keeps program held table shared buffer live started state) :
    Spares held program buffer (ids.foldl (freeId (recordFree free)) state) := by
  have removes (live : Finset Nat) (id : Nat) (state : ExecState Ptr (Recorded Ptr σ))
      (member : id ∈ live) (admitted : ¬shared id ∧ id ∉ program.inputIds)
      (keeps : Keeps program held table shared buffer live started state) :
      Keeps program held table shared buffer (live.erase id) started
        (freeId (recordFree free) state id) := by
    obtain ⟨freed, stored, alive⟩ := keeps.1.holds.entries id member
    exact ⟨free_owns laws freeHook member admitted.1 state keeps.1,
      free_spares laws freeHook admitted.2 state keeps.2 stored alive⟩
  exact (foldl_removes removes ids nodup members (fun id member => ⟨unshared id member,
    kept id member⟩) state keeps).2

theorem instruction_spares (laws : AllocatorLaws held hooks dispatch)
    (allocHook : hooks.bufferAlloc = some alloc) (freeHook : hooks.bufferFree = some free)
    (valid : SsaValid program) {i : Nat} {inst : FhnInstruction} {act : FhnMovementActions}
    (get : program.instructions[i]? = some inst) {resident : Finset Nat}
    (legal : StepLegal inst act live resident) (unshared : ∀ id ∈ act.free, ¬shared id)
    (kept : ∀ id ∈ act.free, id ∉ program.inputIds) (state : ExecState Ptr (Recorded Ptr σ))
    (keeps : Keeps program held table shared buffer live i state) :
    Ends (Spares held program buffer) (Spares held program buffer)
      (executeInstruction (recordHooks hooks) (recordAlloc alloc) (recordFree free)
        (recordKernels dispatch) inst act state) := by
  have notInput : inst.resultId ∉ program.inputIds := fun input =>
    result_not_defined_before valid i inst get (List.mem_append_left _ input)
  have spares (live : Finset Nat) (started : Nat) (state : ExecState Ptr (Recorded Ptr σ))
      (both : Owns program held table shared live started state ∧
        Spares held program buffer state) : Spares held program buffer state := both.2
  unfold executeInstruction
  rw [legal.alloc]
  apply ends_bind (ends_mono (ends_and (evict_all_owns laws act.evict state keeps.1)
    (evict_all_spares laws act.evict state keeps.2)) (spares live i) fun _ both => both)
  intro evicted first
  apply ends_bind (ends_mono (ends_and (alloc_owns laws allocHook get legal.freshResult notInput
    (result_first valid get) evicted first.1) (alloc_spares laws allocHook inst.resultId evicted
      first.2)) (spares live i) fun _ both => both)
  intro allocated second
  apply ends_bind (ends_mono (ends_and (prefetch_all_owns laws act.prefetch allocated second.1)
    (prefetch_all_spares laws act.prefetch allocated second.2))
      (spares (insert inst.resultId live) (i + 1)) fun _ both => both)
  intro loaded third
  have ran := ends_and (dispatch_step_owns laws inst loaded third.1)
    (dispatch_step_spares laws inst loaded third.2)
  cases outcome : dispatchStep (recordKernels dispatch) inst loaded with
  | error failure =>
      rw [outcome] at ran
      exact ⟨ran.1, ran.2.2⟩
  | ok dispatched =>
      rw [outcome] at ran
      exact free_all_spares laws freeHook act.free legal.freeNodup
        (fun id freed => Finset.mem_insert.mpr (legal.freed id freed)) unshared kept dispatched ran

theorem run_spares (laws : AllocatorLaws held hooks dispatch)
    (allocHook : hooks.bufferAlloc = some alloc) (freeHook : hooks.bufferFree = some free)
    {pinned : List Nat} {plan : FhnMovementPlan} (legal : PlanLegal program pinned plan)
    (sharedKept : ∀ id, shared id → Unfreed plan id)
    (inputsKept : ∀ id ∈ program.inputIds, Unfreed plan id) (count i : Nat)
    (total : i + count = program.instructions.length) (state : ExecState Ptr (Recorded Ptr σ))
    (keeps : Keeps program held table shared buffer (liveBefore program plan i) i state) :
    Ends (Spares held program buffer) (Spares held program buffer)
      (executeAll (recordHooks hooks) (recordAlloc alloc) (recordFree free)
        (recordKernels dispatch) ((program.instructions.drop i).zip (plan.actions.drop i))
        state) := by
  have steps (i : Nat) (inst : FhnInstruction) (act : FhnMovementActions)
      (state : ExecState Ptr (Recorded Ptr σ)) (get : program.instructions[i]? = some inst)
      (found : plan.actions[i]? = some act)
      (keeps : Keeps program held table shared buffer (liveBefore program plan i) i state) :
      Ends (Spares held program buffer)
        (Keeps program held table shared buffer (liveBefore program plan (i + 1)) (i + 1))
        (executeInstruction (recordHooks hooks) (recordAlloc alloc) (recordFree free)
          (recordKernels dispatch) inst act state) := by
    have member := List.mem_of_getElem? found
    have spares := instruction_spares laws allocHook freeHook legal.valid get
      (legal.steps i _ _ get found)
      (fun id freed isShared => sharedKept id isShared _ member freed)
      (fun id freed input => inputsKept id input _ member freed) state keeps
    exact ends_mono (ends_and (step_owns laws allocHook freeHook legal sharedKept get found state
      keeps.1) spares) (fun _ both => both.2) fun _ both => both
  exact ends_mono (execute_all_ends legal.length steps count i total state keeps)
    (fun _ spares => spares) fun _ keeps => keeps.2

omit [DecidableEq Ptr] in
/-- An execution that returns 0 ran every instruction, or a step failed with 0. -/
theorem execute_returned_zero {hooks : FhnMovementHooks Ptr σ} {dispatch : Dispatch Ptr σ}
    {plan : FhnMovementPlan} {buffers : Buffers Ptr} {world : σ} {last : ExecState Ptr σ}
    (ran : execute hooks dispatch program plan buffers world = (0, last)) :
    ∃ alloc free, hooks.bufferAlloc = some alloc ∧ hooks.bufferFree = some free ∧
      (executeAll hooks alloc free dispatch (program.instructions.zip plan.actions)
          { world := world, buffers := buffers } = .ok last ∨
        ∃ failed, executeAll hooks alloc free dispatch (program.instructions.zip plan.actions)
          { world := world, buffers := buffers } = .error (0, failed)) := by
  unfold execute at ran
  cases allocHook : hooks.bufferAlloc with
  | none =>
      rw [allocHook] at ran
      cases (Prod.mk.inj ran).1
  | some alloc =>
      cases freeHook : hooks.bufferFree with
      | none =>
          rw [allocHook, freeHook] at ran
          cases (Prod.mk.inj ran).1
      | some free =>
          refine ⟨alloc, free, rfl, rfl, ?_⟩
          simp only [allocHook, freeHook] at ran
          split_ifs at ran
          · cases (Prod.mk.inj ran).1
          · cases (Prod.mk.inj ran).1
          · split at ran
            · rename_i state finished
              rw [(Prod.mk.inj ran).2] at finished
              exact Or.inl finished
            · rename_i rc state failed
              rw [(Prod.mk.inj ran).1] at failed
              exact Or.inr ⟨state, failed⟩

/-- After a successful execution the table owns what the ledger says, and every buffer that
others own is as it was. -/
theorem successful_execution {pinned : List Nat} {plan : FhnMovementPlan}
    (legal : PlanLegal program pinned plan) (laws : AllocatorLaws held hooks dispatch) {world : σ}
    (inputs : InputTable held program plan table world)
    (inputsKept : ∀ id ∈ program.inputIds, Unfreed plan id)
    {last : ExecState Ptr (Recorded Ptr σ)}
    (ran : recordExecute hooks dispatch program plan table world = (0, last)) :
    Holds program held table (fun id => id ∈ program.inputIds ∧ Unfreed plan id)
        (liveBefore program plan program.instructions.length) program.instructions.length
        last.buffers last.world ∧
      ∀ buffer, held world buffer → (∀ id, table id = some buffer → id ∈ program.inputIds) →
        Spares held program buffer last := by
  obtain ⟨alloc, free, allocLifted, freeLifted, outcome⟩ := execute_returned_zero ran
  obtain ⟨plainAlloc, allocHook, sameAlloc⟩ := Option.map_eq_some_iff.mp allocLifted
  obtain ⟨plainFree, freeHook, sameFree⟩ := Option.map_eq_some_iff.mp freeLifted
  rw [← sameAlloc, ← sameFree] at outcome
  have start : Owns program held table (fun id => id ∈ program.inputIds ∧ Unfreed plan id)
      (liveBefore program plan 0) 0 { world := { world := world }, buffers := table } :=
    ⟨holds_start inputs, owned_start program⟩
  have owns := run_owns laws allocHook freeHook legal (fun id isShared => isShared.2)
    program.instructions.length 0 (by omega) _ start
  rw [List.drop_zero, List.drop_zero] at owns
  rcases outcome with finished | ⟨failed, stopped⟩
  · rw [finished] at owns
    refine ⟨owns.holds, ?_⟩
    intro buffer alive onlyInputs
    have spares := run_spares laws allocHook freeHook legal (fun id isShared => isShared.2)
      inputsKept program.instructions.length 0 (by omega) _
      ⟨start, ⟨alive, onlyInputs, List.not_mem_nil, List.not_mem_nil⟩⟩
    rw [List.drop_zero, List.drop_zero, finished] at spares
    exact spares
  · rw [stopped] at owns
    exact absurd rfl owns.1

end Runs

end Fhenomenon.SparedBuffers

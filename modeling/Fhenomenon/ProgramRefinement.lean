import Fhenomenon.ExecutorRefinement

/-!
# Whole runs compute the values

The step lemmas chained over a program: plan-aware execution and plain
execution return the code of `valueProgram`, and on success the ids that still
own a buffer hold its values.
-/

namespace Fhenomenon.ProgramRefinement

open Fhenomenon.Lib Fhenomenon.InstructionStream Fhenomenon.MovementPlanner
open Fhenomenon.PlannerSteps
open Fhenomenon.DeviceReplay Fhenomenon.PlanLegality Fhenomenon.DefaultExecutor
open Fhenomenon.DispatchRecipes Fhenomenon.DeviceAbi Fhenomenon.ExecutorRefinement

variable {Ptr σ V κ : Type*}

/-- Exactly the ids defined before instruction `i` have a value. -/
def Valued (program : FhnProgram) (i : Nat) (values : ValueState V κ) : Prop :=
  ∀ id, (values.values id).isSome ↔ id ∈ program.definedBefore i

theorem valued_step {model : DeviceModel Ptr σ V κ} {dispatch : Dispatch Ptr σ}
    {program : FhnProgram} {values : ValueState V κ} (i : Nat) (inst : FhnInstruction)
    (get : program.instructions[i]? = some inst) (valued : Valued program i values)
    (success : (valueInstruction model dispatch inst values).1 = 0) :
    Valued program (i + 1) (valueInstruction model dispatch inst values).2 := by
  have calls := (dispatch_code_zero dispatch inst _ success).2
  intro id
  rw [defined_before_succ program i inst get, List.mem_append, List.mem_singleton]
  simp only [valueInstruction]
  by_cases same : id = inst.resultId
  · subst same
    simp [value_calls_result model inst _ values (Or.inl calls)]
  · rw [value_calls_other model inst _ values id same, valued id]
    simp [same]

theorem value_program_valued {model : DeviceModel Ptr σ V κ} {dispatch : Dispatch Ptr σ}
    {program : FhnProgram} (count i : Nat) (total : i + count = program.instructions.length)
    (values : ValueState V κ) (valued : Valued program i values)
    (success : (valueProgram model dispatch (program.instructions.drop i) values).1 = 0) :
    Valued program program.instructions.length
      (valueProgram model dispatch (program.instructions.drop i) values).2 := by
  induction count generalizing i values with
  | zero =>
      rw [List.drop_of_length_le (by omega)]
      rw [← total]
      exact valued
  | succ count induction =>
      have bound : i < program.instructions.length := by omega
      rw [List.drop_eq_getElem_cons bound] at success ⊢
      simp only [valueProgram] at success ⊢
      split at success
      · rename_i failed
        exact absurd success failed
      · rename_i finished
        push Not at finished
        rw [if_neg (by simpa using finished)]
        exact induction (i + 1) (by omega) _
          (valued_step i _ (List.getElem?_eq_getElem bound) valued finished) success

section PlanAware

variable {model : DeviceModel Ptr σ V κ} {hooks : FhnMovementHooks Ptr σ}
  {alloc : σ → Option Ptr × σ} {free : Option Ptr → σ → σ} {dispatch : Dispatch Ptr σ}
  {program : FhnProgram} {pinned : List Nat} {plan : FhnMovementPlan} {good : σ → Prop}
  {shared : Nat → Prop}

/-- A run that returns `rc`, with `next` on success. -/
def Completes (good : σ → Prop) (rc : Int) (next : ExecState Ptr σ → Prop) :
    Outcome Ptr σ → Prop
  | .ok state => rc = 0 ∧ good state.world ∧ next state
  | .error (code, state) => code = rc ∧ rc ≠ 0 ∧ good state.world

theorem instruction_tracks [DecidableEq Ptr] (laws : HookLaws model hooks alloc free)
    (law : KernelLaw model dispatch)
    (monitor : Monitor model hooks alloc free dispatch program good)
    (present : OperandsPresent program) (inst : FhnInstruction) (act : FhnMovementActions)
    (member : inst ∈ program.instructions) (live resident : Finset Nat)
    (legal : StepLegal inst act live resident)
    (evictUnshared : ∀ id ∈ act.evict, ¬shared id) (freeUnshared : ∀ id ∈ act.free, ¬shared id)
    (resultUnshared : ¬shared inst.resultId) (state : ExecState Ptr σ) (values : ValueState V κ)
    (known : ∀ id ∈ live, (values.values id).isSome)
    (unvalued : values.values inst.resultId = none)
    (tracks : Tracks model shared live (placed hooks resident) state.buffers state.world values)
    (safe : good state.world) :
    Completes good (valueInstruction model dispatch inst values).1
      (fun next => Tracks model shared ((live ∪ act.alloc.toFinset) \ act.free.toFinset)
        (placed hooks (replay resident (moves act))) next.buffers next.world
        (valueInstruction model dispatch inst values).2)
      (executeInstruction hooks alloc free dispatch inst act state) := by
  obtain ⟨evictedWorld, evictRun, evictSafe, evicted⟩ := evict_all_tracks laws monitor act.evict
    state legal.evictNodup (fun id evicting => (legal.evicted id evicting).1) evictUnshared
    legal.residentLive tracks safe
  obtain ⟨buffer, allocRun, allocated⟩ := alloc_tracks laws inst.resultId
    { state with world := evictedWorld } legal.freshResult unvalued evicted
  obtain ⟨loadedWorld, loadRun, loadSafe, loaded⟩ := prefetch_all_tracks laws monitor act.prefetch
    { world := (alloc evictedWorld).2
      buffers := Function.update state.buffers inst.resultId (some buffer)
      owned := state.owned ++ [inst.resultId] }
    (fun id incoming => Finset.mem_insert_of_mem (legal.prefetched id incoming)) allocated
    (monitor.allocated _ evictSafe)
  have dispatchSet : insert inst.resultId (resident \ act.evict.toFinset) ∪ act.prefetch.toFinset =
      replay resident (loadMoves act) := by
    ext id
    rw [mem_replay_loads, legal.alloc]
    simp
    tauto
  rw [dispatchSet] at loaded
  have ready (id : Nat) (working : id = inst.resultId ∨ id ∈ inst.usedOperands) :
      placed hooks (replay resident (loadMoves act)) id :=
    Or.inr (legal.loaded ((OrderedSet.mem_to_finset _ _).mpr ((mem_working_set inst id).mpr
      working)))
  have operands : OperandsTracked inst (insert inst.resultId live)
      (placed hooks (replay resident (loadMoves act))) values := by
    intro slot used
    have read : inst.operands slot ∈ inst.usedOperands :=
      (mem_used_operands inst _).mpr ⟨used, slot, rfl⟩
    have old := legal.operandsLive _ read
    exact ⟨Finset.mem_insert_of_mem old, ready _ (Or.inr read), known _ old⟩
  obtain ⟨code, dispatchSafe, dispatched⟩ := dispatch_tracks law good
    (fun kernel call world safe ready => monitor.called inst member kernel call _ world safe ready)
    (present inst member) (Finset.mem_insert_self _ _) (ready _ (Or.inl rfl))
    resultUnshared loadedWorld values operands loaded loadSafe
  have reached : executeInstruction hooks alloc free dispatch inst act state =
      (dispatchStep dispatch inst
        { world := loadedWorld
          buffers := Function.update state.buffers inst.resultId (some buffer)
          owned := state.owned ++ [inst.resultId] }).map
        (fun dispatched => act.free.foldl (freeId free) dispatched) := by
    rw [executeInstruction, evictRun, legal.alloc]
    simp only [Except.bind, allocRun, loadRun]
  rw [reached, dispatchStep]
  simp only [code]
  by_cases failed : (valueInstruction model dispatch inst values).1 = 0
  · have continued : ¬(valueInstruction model dispatch inst values).1 ≠ 0 := by simpa using failed
    rw [if_neg continued]
    have freeable (id : Nat) (freed : id ∈ act.free) : id ∈ insert inst.resultId live :=
      Finset.mem_insert.mpr (legal.freed id freed)
    obtain ⟨freedSafe, freed⟩ := free_all_tracks laws monitor act.free
      { world := (dispatchInstruction dispatch inst
          (Function.update state.buffers inst.resultId (some buffer)) loadedWorld).2
        buffers := Function.update state.buffers inst.resultId (some buffer)
        owned := state.owned ++ [inst.resultId] }
      legal.freeNodup freeable freeUnshared (dispatched failed) dispatchSafe
    refine ⟨failed, freedSafe, ?_⟩
    have owning : (live ∪ [inst.resultId].toFinset) \ act.free.toFinset =
        insert inst.resultId live \ act.free.toFinset := by
      ext id
      simp
    rw [legal.alloc, owning, replay_moves]
    apply tracks_mono freed (Finset.Subset.refl _)
    intro id _ stays
    rcases stays with absent | still
    · exact Or.inl absent
    · exact Or.inr (Finset.mem_sdiff.mp still).1
  · rw [if_pos failed]
    exact ⟨rfl, failed, dispatchSafe⟩

theorem run_tracks [DecidableEq Ptr] (laws : HookLaws model hooks alloc free)
    (law : KernelLaw model dispatch)
    (monitor : Monitor model hooks alloc free dispatch program good)
    (present : OperandsPresent program) (legal : PlanLegal program pinned plan)
    (sharedKept : ∀ id, shared id → id ∈ program.inputIds ∧ Kept plan id)
    (count i : Nat) (total : i + count = program.instructions.length) (state : ExecState Ptr σ)
    (values : ValueState V κ) (valued : Valued program i values)
    (tracks : Tracks model shared (liveBefore program plan i)
      (placed hooks (residentBefore plan i)) state.buffers state.world values)
    (safe : good state.world) :
    Completes good (valueProgram model dispatch (program.instructions.drop i) values).1
      (fun next => Tracks model shared (liveBefore program plan program.instructions.length)
        (fun _ => False) next.buffers next.world
        (valueProgram model dispatch (program.instructions.drop i) values).2)
      (executeAll hooks alloc free dispatch
        ((program.instructions.drop i).zip (plan.actions.drop i)) state) := by
  induction count generalizing i state values with
  | zero =>
      rw [List.drop_of_length_le (show program.instructions.length ≤ i by omega)]
      refine ⟨rfl, safe, ?_⟩
      rw [← total]
      exact tracks_mono tracks (Finset.Subset.refl _) (fun _ _ impossible => impossible.elim)
  | succ count induction =>
      have bound : i < program.instructions.length := by omega
      have actBound : i < plan.actions.length := by rw [legal.length]; omega
      have get := List.getElem?_eq_getElem bound
      have found := List.getElem?_eq_getElem actBound
      have member := List.getElem_mem bound
      have actMember := List.getElem_mem actBound
      have step := legal.steps i _ _ get found
      have unshared (id : Nat) (gone : id ∈ plan.actions[i].evict ∨ id ∈ plan.actions[i].free) :
          ¬shared id := by
        intro isShared
        have kept := (sharedKept id isShared).2 _ actMember
        rcases gone with evicted | freed
        · exact kept.1 evicted
        · exact kept.2 freed
      have unvalued : values.values program.instructions[i].resultId = none := by
        rw [← Option.not_isSome_iff_eq_none, valued]
        exact result_not_defined_before legal.valid i _ get
      have ran := instruction_tracks laws law monitor present _ _ member _ _ step
        (fun id evicted => unshared id (Or.inl evicted))
        (fun id freed => unshared id (Or.inr freed))
        (fun isShared => result_not_defined_before legal.valid i _ get
          (List.mem_append_left _ (sharedKept _ isShared).1))
        state values
        (fun id live => (valued id).mpr (live_defined legal i (by omega) id live)) unvalued tracks
        safe
      rw [List.drop_eq_getElem_cons bound, List.drop_eq_getElem_cons actBound, List.zip_cons_cons]
      simp only [executeAll, valueProgram]
      cases outcome : executeInstruction hooks alloc free dispatch program.instructions[i]
          plan.actions[i] state with
      | error failure =>
          rw [outcome] at ran
          obtain ⟨code, failed, kept⟩ := ran
          simp only [if_pos failed]
          exact ⟨code, failed, kept⟩
      | ok next =>
          rw [outcome] at ran
          obtain ⟨success, kept, tracked⟩ := ran
          rw [if_neg (by simpa using success)]
          apply induction (i + 1) (by omega) next
          · exact valued_step i _ get valued success
          · rw [resident_before_succ plan i _ found]
            simpa only [liveBefore, found] using tracked
          · exact kept

theorem fail_cleanup_good (freed : ∀ buffer world, good world → good (free buffer world))
    (state : ExecState Ptr σ) (safe : good state.world) : good (failCleanup free state).world := by
  have folded (ids : List Nat) (state : ExecState Ptr σ) (safe : good state.world) :
      good (ids.foldl (failId free) state).world := by
    induction ids generalizing state with
    | nil => exact safe
    | cons id rest induction =>
        apply induction
        rw [failId]
        split
        · exact safe
        · exact freed _ _ safe
  exact folded state.owned state safe

/-- With hooks, version and plan in order, `execute` runs every instruction. -/
theorem execute_entered [DecidableEq Ptr] (laws : HookLaws model hooks alloc free)
    (legal : PlanLegal program pinned plan) (version : program.version = fhnAbiVersion)
    (buffers : Buffers Ptr) (world : σ) : execute hooks dispatch program plan buffers world =
      match executeAll hooks alloc free dispatch (program.instructions.zip plan.actions)
          { world := world, buffers := buffers } with
      | .ok state => (0, state)
      | .error (rc, state) => (rc, failCleanup free state) := by
  have versioned : ¬program.version ≠ fhnAbiVersion := not_not.mpr version
  have planned : ¬plan.actions.length ≠ program.instructions.length := not_not.mpr legal.length
  simp only [execute, laws.allocHook, laws.freeHook]
  exact (if_neg versioned).trans (if_neg planned)

/-- Plan-aware execution computes the values of the program. -/
theorem execute_tracks [DecidableEq Ptr] (laws : HookLaws model hooks alloc free)
    (law : KernelLaw model dispatch)
    (monitor : Monitor model hooks alloc free dispatch program good)
    (present : OperandsPresent program) (legal : PlanLegal program pinned plan)
    (sharedKept : ∀ id, shared id → id ∈ program.inputIds ∧ Kept plan id)
    (version : program.version = fhnAbiVersion) (buffers : Buffers Ptr) (world : σ)
    (values : ValueState V κ) (valued : Valued program 0 values)
    (tracks : Tracks model shared program.inputIds.toFinset (placed hooks ∅) buffers world values)
    (safe : good world) :
    (execute hooks dispatch program plan buffers world).1 =
        (valueProgram model dispatch program.instructions values).1 ∧
      good (execute hooks dispatch program plan buffers world).2.world ∧
      ((valueProgram model dispatch program.instructions values).1 = 0 →
        Tracks model shared (liveBefore program plan program.instructions.length) (fun _ => False)
          (execute hooks dispatch program plan buffers world).2.buffers
          (execute hooks dispatch program plan buffers world).2.world
          (valueProgram model dispatch program.instructions values).2) := by
  have ran := run_tracks laws law monitor present legal sharedKept program.instructions.length 0
    (by omega) { world := world, buffers := buffers } values valued tracks safe
  rw [List.drop_zero, List.drop_zero] at ran
  rw [execute_entered laws legal version buffers world]
  cases outcome : executeAll hooks alloc free dispatch (program.instructions.zip plan.actions)
      { world := world, buffers := buffers } with
  | error failure =>
      rw [outcome] at ran
      obtain ⟨code, failed, kept⟩ := ran
      exact ⟨code, fail_cleanup_good monitor.freed _ kept, fun success => absurd success failed⟩
  | ok state =>
      rw [outcome] at ran
      obtain ⟨success, kept, tracked⟩ := ran
      exact ⟨success.symm, kept, fun _ => tracked⟩

end PlanAware

/-- Plain execution never moves a buffer, so every id stays live throughout. -/
theorem dispatch_all_tracks [DecidableEq Ptr] {model : DeviceModel Ptr σ V κ}
    {dispatch : Dispatch Ptr σ} (law : KernelLaw model dispatch) {program : FhnProgram}
    (valid : SsaValid program) (present : OperandsPresent program) {shared : Nat → Prop}
    (sharedInput : ∀ id, shared id → id ∈ program.inputIds) {buffers : Buffers Ptr}
    (count i : Nat) (total : i + count = program.instructions.length) (world : σ)
    (values : ValueState V κ) (valued : Valued program i values)
    (tracks : Tracks model shared program.definedIds.toFinset (fun _ => True) buffers world
      values) :
    (dispatchAll dispatch buffers (program.instructions.drop i) world).1 =
        (valueProgram model dispatch (program.instructions.drop i) values).1 ∧
      ((valueProgram model dispatch (program.instructions.drop i) values).1 = 0 →
        Tracks model shared program.definedIds.toFinset (fun _ => True) buffers
          (dispatchAll dispatch buffers (program.instructions.drop i) world).2
          (valueProgram model dispatch (program.instructions.drop i) values).2) := by
  induction count generalizing i world values with
  | zero =>
      rw [List.drop_of_length_le (by omega)]
      exact ⟨rfl, fun _ => tracks⟩
  | succ count induction =>
      have bound : i < program.instructions.length := by omega
      have get := List.getElem?_eq_getElem bound
      have member := List.getElem_mem bound
      have operands : OperandsTracked program.instructions[i] program.definedIds.toFinset
          (fun _ => True) values := by
        intro slot used
        have read : program.ReadsAt i (program.instructions[i].operands slot) :=
          ⟨_, get, (mem_used_operands _ _).mpr ⟨used, slot, rfl⟩⟩
        have defined := valid.operandsDefined i _ read
        exact ⟨List.mem_toFinset.mpr (defined_before_subset program i defined), trivial,
          (valued _).mpr defined⟩
      obtain ⟨code, -, next⟩ := dispatch_tracks law (fun _ => True)
        (fun _ _ _ _ _ => trivial) (present _ member)
        (List.mem_toFinset.mpr (result_mem_defined program i _ get)) trivial
        (fun isShared => result_not_defined_before valid i _ get
          (List.mem_append_left _ (sharedInput _ isShared)))
        world values operands tracks trivial
      rw [List.drop_eq_getElem_cons bound]
      simp only [dispatchAll, valueProgram, code]
      by_cases failed :
          (valueInstruction model dispatch program.instructions[i] values).1 = 0
      · rw [if_neg (by simpa using failed), if_neg (by simpa using failed)]
        exact induction (i + 1) (by omega) _ _ (valued_step i _ get valued failed) (next failed)
      · rw [if_pos failed, if_pos failed]
        exact ⟨code, fun success => absurd success failed⟩

end Fhenomenon.ProgramRefinement

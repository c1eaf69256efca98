import Fhenomenon.PlanAwareRefinement

/-!
# What execution leaves alone

Ids that neither the program nor its plan names do not matter to a run. A buffer
of the caller can therefore ride along under such an id: when the plan keeps
every input, a successful run preserves the contents of every live buffer.
-/

namespace Fhenomenon.ExecutorLocality

open Fhenomenon.InstructionStream Fhenomenon.MovementPlanner Fhenomenon.PlanLegality
open Fhenomenon.DeviceReplay Fhenomenon.DefaultExecutor Fhenomenon.DispatchRecipes
open Fhenomenon.DeviceAbi Fhenomenon.ExecutorRefinement Fhenomenon.ProgramRefinement
open Fhenomenon.PlanAwareRefinement

variable {Ptr σ V κ : Type*}

def ExecState.withEntry (state : ExecState Ptr σ) (id : Nat) (entry : Option Ptr) :
    ExecState Ptr σ :=
  { state with buffers := Function.update state.buffers id entry }

def Outcome.withEntry (outcome : Outcome Ptr σ) (id : Nat) (entry : Option Ptr) :
    Outcome Ptr σ :=
  match outcome with
  | .ok state => .ok (ExecState.withEntry state id entry)
  | .error (rc, state) => .error (rc, ExecState.withEntry state id entry)

structure Unused (inst : FhnInstruction) (act : FhnMovementActions) (id : Nat) : Prop where
  result : inst.resultId ≠ id
  operands : ∀ slot, inst.operands slot ≠ id
  evict : id ∉ act.evict
  alloc : id ∉ act.alloc
  prefetch : id ∉ act.prefetch
  free : id ∉ act.free

variable {id : Nat} {entry : Option Ptr}

theorem evict_all_unused (hooks : FhnMovementHooks Ptr σ) (ids : List Nat) (unused : id ∉ ids)
    (state : ExecState Ptr σ) : evictAll hooks ids (ExecState.withEntry state id entry) =
      Outcome.withEntry (evictAll hooks ids state) id entry := by
  induction ids generalizing state with
  | nil => rfl
  | cons head rest induction =>
      obtain ⟨different, later⟩ := List.ne_and_not_mem_of_not_mem_cons unused
      have look : (ExecState.withEntry state id entry).buffers head = state.buffers head :=
        Function.update_of_ne different.symm _ _
      simp only [evictAll, look]
      cases hooks.evict with
      | none => exact induction later state
      | some evict =>
          simp only
          split
          · rename_i failed
            have again : (evict (state.buffers head) state.world).1 ≠ 0 := failed
            rw [if_pos again]
            rfl
          · rename_i passed
            have again : ¬(evict (state.buffers head) state.world).1 ≠ 0 := passed
            rw [if_neg again]
            exact induction later { state with world := _ }

theorem prefetch_all_unused (hooks : FhnMovementHooks Ptr σ) (ids : List Nat)
    (unused : id ∉ ids) (state : ExecState Ptr σ) :
    prefetchAll hooks ids (ExecState.withEntry state id entry) =
      Outcome.withEntry (prefetchAll hooks ids state) id entry := by
  rw [prefetch_all_eq, prefetch_all_eq]
  exact evict_all_unused _ ids unused state

theorem alloc_all_unused (alloc : σ → Option Ptr × σ) (ids : List Nat) (unused : id ∉ ids)
    (state : ExecState Ptr σ) : allocAll alloc ids (ExecState.withEntry state id entry) =
      Outcome.withEntry (allocAll alloc ids state) id entry := by
  induction ids generalizing state with
  | nil => rfl
  | cons head rest induction =>
      obtain ⟨different, later⟩ := List.ne_and_not_mem_of_not_mem_cons unused
      have swap : Function.update (Function.update state.buffers id entry) head
          (alloc state.world).1 =
            Function.update (Function.update state.buffers head (alloc state.world).1) id entry :=
        Function.update_comm different _ _ _
      simp only [allocAll, ExecState.withEntry, swap]
      split
      · rfl
      · exact induction later
          { world := (alloc state.world).2
            buffers := Function.update state.buffers head (alloc state.world).1
            owned := state.owned ++ [head] }

theorem free_id_unused (free : Option Ptr → σ → σ) (state : ExecState Ptr σ) (head : Nat)
    (different : id ≠ head) : freeId free (ExecState.withEntry state id entry) head =
      ExecState.withEntry (freeId free state head) id entry := by
  have look : Function.update state.buffers id entry head = state.buffers head :=
    Function.update_of_ne different.symm _ _
  simp only [freeId, ExecState.withEntry, look, Function.update_comm different.symm]

theorem free_all_unused (free : Option Ptr → σ → σ) (ids : List Nat) (unused : id ∉ ids)
    (state : ExecState Ptr σ) : ids.foldl (freeId free) (ExecState.withEntry state id entry) =
      ExecState.withEntry (ids.foldl (freeId free) state) id entry := by
  induction ids generalizing state with
  | nil => rfl
  | cons head rest induction =>
      obtain ⟨different, later⟩ := List.ne_and_not_mem_of_not_mem_cons unused
      rw [List.foldl_cons, List.foldl_cons, free_id_unused free state head different]
      exact induction later _

theorem slot_buffer_unused (inst : FhnInstruction) (result : inst.resultId ≠ id)
    (operands : ∀ slot, inst.operands slot ≠ id) (buffers : Buffers Ptr) (slot : Slot) :
    slotBuffer inst (Function.update buffers id entry) slot = slotBuffer inst buffers slot := by
  cases slot with
  | result => exact Function.update_of_ne result _ _
  | operand position => exact Function.update_of_ne (operands position) _ _
  | absent => rfl

theorem run_calls_unused (dispatch : Dispatch Ptr σ) (inst : FhnInstruction)
    (result : inst.resultId ≠ id) (operands : ∀ slot, inst.operands slot ≠ id)
    (buffers : Buffers Ptr) (calls : List KernelCall) (world : σ) :
    runCalls dispatch inst (Function.update buffers id entry) calls world =
      runCalls dispatch inst buffers calls world := by
  induction calls generalizing world with
  | nil => rfl
  | cons kernel rest induction =>
      have same : runCall dispatch inst (Function.update buffers id entry) kernel world =
          runCall dispatch inst buffers kernel world := by
        simp only [runCall, slot_buffer_unused inst result operands buffers,
          Function.update_of_ne result]
      simp only [runCalls, same, induction]

theorem dispatch_unused (dispatch : Dispatch Ptr σ) (inst : FhnInstruction)
    (result : inst.resultId ≠ id) (operands : ∀ slot, inst.operands slot ≠ id)
    (buffers : Buffers Ptr) (world : σ) :
    dispatchInstruction dispatch inst (Function.update buffers id entry) world =
      dispatchInstruction dispatch inst buffers world := by
  rw [dispatch_instruction_eq, dispatch_instruction_eq,
    run_calls_unused dispatch inst result operands]

theorem dispatch_step_unused (dispatch : Dispatch Ptr σ) (inst : FhnInstruction)
    (result : inst.resultId ≠ id) (operands : ∀ slot, inst.operands slot ≠ id)
    (state : ExecState Ptr σ) :
    dispatchStep dispatch inst (ExecState.withEntry state id entry) =
      Outcome.withEntry (dispatchStep dispatch inst state) id entry := by
  simp only [dispatchStep, ExecState.withEntry, dispatch_unused dispatch inst result operands]
  split
  · rfl
  · rfl

theorem bind_unused (outcome : Outcome Ptr σ) (next : ExecState Ptr σ → Outcome Ptr σ)
    (unused : ∀ state, next (ExecState.withEntry state id entry) =
      Outcome.withEntry (next state) id entry) :
    (Outcome.withEntry outcome id entry).bind next =
      Outcome.withEntry (outcome.bind next) id entry := by
  cases outcome with
  | error failure => rfl
  | ok state => exact unused state

theorem map_unused (outcome : Outcome Ptr σ) (next : ExecState Ptr σ → ExecState Ptr σ)
    (unused : ∀ state, next (ExecState.withEntry state id entry) =
      ExecState.withEntry (next state) id entry) :
    (Outcome.withEntry outcome id entry).map next =
      Outcome.withEntry (outcome.map next) id entry := by
  cases outcome with
  | error failure => rfl
  | ok state => exact congrArg Except.ok (unused state)

theorem execute_instruction_unused (hooks : FhnMovementHooks Ptr σ) (alloc : σ → Option Ptr × σ)
    (free : Option Ptr → σ → σ) (dispatch : Dispatch Ptr σ) (inst : FhnInstruction)
    (act : FhnMovementActions) (unused : Unused inst act id) (state : ExecState Ptr σ) :
    executeInstruction hooks alloc free dispatch inst act (ExecState.withEntry state id entry) =
      Outcome.withEntry (executeInstruction hooks alloc free dispatch inst act state) id entry := by
  rw [executeInstruction, evict_all_unused hooks act.evict unused.evict]
  apply bind_unused
  intro evicted
  rw [alloc_all_unused alloc act.alloc unused.alloc]
  apply bind_unused
  intro allocated
  rw [prefetch_all_unused hooks act.prefetch unused.prefetch]
  apply bind_unused
  intro loaded
  rw [dispatch_step_unused dispatch inst unused.result unused.operands]
  apply map_unused
  intro dispatched
  exact free_all_unused free act.free unused.free dispatched

theorem execute_all_unused (hooks : FhnMovementHooks Ptr σ) (alloc : σ → Option Ptr × σ)
    (free : Option Ptr → σ → σ) (dispatch : Dispatch Ptr σ)
    (steps : List (FhnInstruction × FhnMovementActions))
    (unused : ∀ step ∈ steps, Unused step.1 step.2 id) (state : ExecState Ptr σ) :
    executeAll hooks alloc free dispatch steps (ExecState.withEntry state id entry) =
      Outcome.withEntry (executeAll hooks alloc free dispatch steps state) id entry := by
  induction steps generalizing state with
  | nil => rfl
  | cons step rest induction =>
      have first : executeInstruction hooks alloc free dispatch step.1 step.2
          (ExecState.withEntry state id entry) =
            Outcome.withEntry (executeInstruction hooks alloc free dispatch step.1 step.2 state) id
              entry :=
        execute_instruction_unused hooks alloc free dispatch step.1 step.2
          (unused step List.mem_cons_self) state
      simp only [executeAll, first]
      cases executeInstruction hooks alloc free dispatch step.1 step.2 state with
      | error failure => rfl
      | ok next =>
          exact induction (fun other member => unused other (List.mem_cons_of_mem _ member)) next

section OneMoreInput

variable {program : FhnProgram} {pinned : List Nat} {plan : FhnMovementPlan}

def withInput (program : FhnProgram) (id : Nat) : FhnProgram :=
  { program with inputIds := program.inputIds ++ [id] }

theorem action_avoids (legal : PlanLegal program pinned plan) (fresh : id ∉ program.definedIds)
    (nonzero : id ≠ 0) (i : Nat) (inst : FhnInstruction) (act : FhnMovementActions)
    (get : program.instructions[i]? = some inst) (found : plan.actions[i]? = some act) :
    Unused inst act id := by
  have bound := (List.getElem?_eq_some_iff.mp get).1
  have step := legal.steps i inst act get found
  have notLive : id ∉ liveBefore program plan i := fun live =>
    fresh (defined_before_subset program i (live_defined legal i (by omega) id live))
  have notResult : inst.resultId ≠ id := fun same =>
    fresh (same ▸ result_mem_defined program i inst get)
  constructor
  · exact notResult
  · intro slot same
    have operand : id ∈ inst.usedOperands :=
      (mem_used_operands inst id).mpr ⟨nonzero, slot, same⟩
    exact notLive (step.operandsLive id operand)
  · exact fun evicted => notLive (step.residentLive (step.evicted id evicted).1)
  · rw [step.alloc, List.mem_singleton]
    exact fun same => notResult same.symm
  · exact fun incoming => notLive (step.prefetched id incoming)
  · intro freed
    rcases step.freed id freed with same | live
    · exact notResult same.symm
    · exact notLive live

theorem live_with_input (legal : PlanLegal program pinned plan) (fresh : id ∉ program.definedIds)
    (nonzero : id ≠ 0) (i : Nat) (bound : i ≤ program.instructions.length) :
    liveBefore (withInput program id) plan i = insert id (liveBefore program plan i) := by
  induction i with
  | zero =>
      ext other
      simp only [liveBefore, withInput, List.mem_toFinset, List.mem_append, List.mem_singleton,
        Finset.mem_insert]
      tauto
  | succ i induction =>
      have get := List.getElem?_eq_getElem (show i < program.instructions.length by omega)
      have found := List.getElem?_eq_getElem
        (show i < plan.actions.length by rw [legal.length]; omega)
      have unused := action_avoids legal fresh nonzero i _ _ get found
      simp only [liveBefore, found, induction (by omega)]
      ext other
      simp only [Finset.mem_sdiff, Finset.mem_union, Finset.mem_insert, List.mem_toFinset]
      constructor
      · rintro ⟨(same | live) | new, kept⟩
        · exact Or.inl same
        · exact Or.inr ⟨Or.inl live, kept⟩
        · exact Or.inr ⟨Or.inr new, kept⟩
      · rintro (same | ⟨old, kept⟩)
        · exact ⟨Or.inl (Or.inl same), same ▸ unused.free⟩
        · exact ⟨old.imp_left Or.inr, kept⟩

theorem legal_with_input (legal : PlanLegal program pinned plan)
    (fresh : id ∉ program.definedIds) (nonzero : id ≠ 0) :
    PlanLegal (withInput program id) (id :: pinned) plan where
  valid := ssa_add_input legal.valid id nonzero fresh
  length := legal.length
  steps := by
    intro i inst act get found
    have bound := (List.getElem?_eq_some_iff.mp get).1
    have unused := action_avoids legal fresh nonzero i inst act get found
    have step := legal.steps i inst act get found
    rw [live_with_input legal fresh nonzero i (le_of_lt bound)]
    exact
      { residentLive := step.residentLive.trans (Finset.subset_insert _ _)
        operandsLive := fun other operand =>
          Finset.mem_insert_of_mem (step.operandsLive other operand)
        freshResult := by
          rw [Finset.mem_insert]
          exact fun member => member.elim unused.result step.freshResult
        evictNodup := step.evictNodup
        evicted := step.evicted
        alloc := step.alloc
        prefetched := fun other incoming =>
          Finset.mem_insert_of_mem (step.prefetched other incoming)
        loaded := step.loaded
        freeNodup := step.freeNodup
        freed := fun other freed =>
          (step.freed other freed).imp_right Finset.mem_insert_of_mem }
  keepsPinned := by
    intro act member other freed isPinned
    obtain ⟨i, found⟩ := List.mem_iff_getElem?.mp member
    have bound : i < program.instructions.length := by
      rw [← legal.length]
      exact (List.getElem?_eq_some_iff.mp found).1
    have unused := action_avoids legal fresh nonzero i _ act (List.getElem?_eq_getElem bound) found
    rcases List.mem_cons.mp isPinned with same | old
    · exact unused.free (same ▸ freed)
    · exact legal.keepsPinned act member other freed old
  freesResults := by
    intro other result unpinned
    have different : other ≠ id := fun same => unpinned (same ▸ List.mem_cons_self)
    have gone := legal.freesResults other result
      (fun isPinned => unpinned (List.mem_cons_of_mem _ isPinned))
    have whole := live_with_input legal fresh nonzero _ (le_refl program.instructions.length)
    intro live
    have member : other ∈ insert id (liveBefore program plan program.instructions.length) :=
      whole ▸ live
    exact (Finset.mem_insert.mp member).elim different gone

theorem value_program_other (model : DeviceModel Ptr σ V κ) (dispatch : Dispatch Ptr σ)
    (insts : List FhnInstruction) (unwritten : ∀ inst ∈ insts, id ≠ inst.resultId)
    (state : ValueState V κ) :
    (valueProgram model dispatch insts state).2.values id = state.values id := by
  induction insts generalizing state with
  | nil => rfl
  | cons inst rest induction =>
      have kept : (valueInstruction model dispatch inst state).2.values id = state.values id :=
        value_calls_other model inst _ state id (unwritten inst List.mem_cons_self)
      simp only [valueProgram]
      split
      · exact kept
      · rw [induction (fun other member => unwritten other (List.mem_cons_of_mem _ member)), kept]

variable {model : DeviceModel Ptr σ V κ} {hooks : FhnMovementHooks Ptr σ}
  {alloc : σ → Option Ptr × σ} {free : Option Ptr → σ → σ} {dispatch : Dispatch Ptr σ}

theorem kept_with_input (legal : PlanLegal program pinned plan) (fresh : id ∉ program.definedIds)
    (nonzero : id ≠ 0) (keepsInputs : ∀ input ∈ program.inputIds, Kept plan input) (input : Nat)
    (member : input ∈ (withInput program id).inputIds) : Kept plan input := by
  rcases List.mem_append.mp member with old | new
  · exact keepsInputs input old
  · intro act acted
    obtain ⟨i, found⟩ := List.mem_iff_getElem?.mp acted
    have bound : i < program.instructions.length := by
      rw [← legal.length]
      exact (List.getElem?_eq_some_iff.mp found).1
    have unused := action_avoids legal fresh nonzero i _ act (List.getElem?_eq_getElem bound) found
    rw [List.mem_singleton.mp new]
    exact ⟨unused.evict, unused.free⟩

theorem supplied_with_input {buffers : Buffers Ptr} {world : σ} {buffer : Ptr} {cell : Cell V}
    (legal : PlanLegal program pinned plan) (fresh : id ∉ program.definedIds) (nonzero : id ≠ 0)
    (keepsInputs : ∀ input ∈ program.inputIds, Kept plan input)
    (inputs : InputsSupplied model hooks program plan buffers world)
    (live : model.cell world buffer = some cell)
    (device : hooks.prefetch = none → cell.resident = true) :
    InputsSupplied model hooks (withInput program id) plan
      (Function.update buffers id (some buffer)) world where
  supplied := by
    intro input member
    rcases List.mem_append.mp member with old | new
    · have different : input ≠ id := fun same => fresh (List.mem_append_left _ (same ▸ old))
      rw [Function.update_of_ne different]
      exact inputs.supplied input old
    · rw [List.mem_singleton.mp new, Function.update_self]
      exact ⟨buffer, cell, rfl, live, device⟩
  apart := by
    intro first one second two _
    exact Or.inr ⟨kept_with_input legal fresh nonzero keepsInputs first one,
      kept_with_input legal fresh nonzero keepsInputs second two⟩

theorem steps_avoid (legal : PlanLegal program pinned plan) (fresh : id ∉ program.definedIds)
    (nonzero : id ≠ 0) :
    ∀ step ∈ program.instructions.zip plan.actions, Unused step.1 step.2 id := by
  intro step member
  obtain ⟨i, get⟩ := List.mem_iff_getElem?.mp member
  rw [List.getElem?_zip_eq_some] at get
  exact action_avoids legal fresh nonzero i step.1 step.2 get.1 get.2

/-- When the plan keeps every input, a successful run preserves the contents of
every buffer that was live before it. -/
theorem live_buffers_kept [DecidableEq Ptr] (legal : PlanLegal program pinned plan)
    (keepsInputs : ∀ input ∈ program.inputIds, Kept plan input)
    (present : OperandsPresent program) (hookLaws : HookLaws model hooks alloc free)
    (kernelLaw : KernelLaw model dispatch) (version : program.version = fhnAbiVersion)
    (buffers : Buffers Ptr) (world : σ)
    (inputs : InputsSupplied model hooks program plan buffers world) (buffer : Ptr)
    (cell : Cell V) (live : model.cell world buffer = some cell)
    (device : hooks.prefetch = none → cell.resident = true)
    (success : (execute hooks dispatch program plan buffers world).1 = 0) :
    model.contents (execute hooks dispatch program plan buffers world).2.world buffer =
      some cell.contents := by
  obtain ⟨id, new⟩ := Infinite.exists_notMem_finset (insert 0 program.definedIds.toFinset)
  rw [Finset.mem_insert, not_or, List.mem_toFinset] at new
  obtain ⟨nonzero, fresh⟩ := new
  have extended := legal_with_input legal fresh nonzero
  have supplied := supplied_with_input legal fresh nonzero keepsInputs inputs live device
  have monitor : Monitor model hooks alloc free dispatch (withInput program id)
      (fun _ => True) := by
    constructor <;> intros <;> trivial
  have ran := run_tracks hookLaws kernelLaw monitor present extended (fun _ isShared => isShared)
    program.instructions.length 0 (Nat.zero_add _)
    { world := world, buffers := Function.update buffers id (some buffer) } _
    (input_values_valued supplied) (inputs_tracked supplied) trivial
  rw [List.drop_zero, List.drop_zero] at ran
  have same : executeAll hooks alloc free dispatch
      ((withInput program id).instructions.zip plan.actions)
      { world := world, buffers := Function.update buffers id (some buffer) } =
        Outcome.withEntry (executeAll hooks alloc free dispatch
          (program.instructions.zip plan.actions) { world := world, buffers := buffers }) id
          (some buffer) :=
    execute_all_unused hooks alloc free dispatch _ (steps_avoid legal fresh nonzero)
      { world := world, buffers := buffers }
  rw [same] at ran
  have entered : execute hooks dispatch program plan buffers world =
      match executeAll hooks alloc free dispatch (program.instructions.zip plan.actions)
          { world := world, buffers := buffers } with
      | .ok state => (0, state)
      | .error (rc, state) => (rc, failCleanup free state) :=
    execute_entered hookLaws legal version buffers world
  rw [entered] at success ⊢
  cases outcome : executeAll hooks alloc free dispatch (program.instructions.zip plan.actions)
      { world := world, buffers := buffers } with
  | error failure =>
      rw [outcome] at ran success
      obtain ⟨code, failed, -⟩ := ran
      exact absurd success (code ▸ failed)
  | ok state =>
      rw [outcome] at ran
      obtain ⟨-, -, tracked⟩ := ran
      have known : (valueProgram model dispatch (withInput program id).instructions
          (inputValues model (withInput program id) (Function.update buffers id (some buffer))
            world)).2.values id = some cell.contents := by
        have unwritten : ∀ inst ∈ (withInput program id).instructions, id ≠ inst.resultId := by
          intro inst member same
          exact fresh (List.mem_append_right _ (same ▸ List.mem_map_of_mem member))
        rw [value_program_other model dispatch _ unwritten]
        have input : id ∈ (withInput program id).inputIds :=
          List.mem_append_right _ (List.mem_singleton_self id)
        simp only [inputValues, if_pos input, stored, Function.update_self, Option.bind_some,
          DeviceModel.contents, live, Option.map_some]
      have member := pinned_live extended _ (le_refl (withInput program id).instructions.length) id
        List.mem_cons_self (by
          rw [defined_before_length]
          exact List.mem_append_left _ (List.mem_append_right _ (List.mem_singleton_self id)))
      have held := tracked_contents tracked id member cell.contents known
      simpa only [stored, ExecState.withEntry, Function.update_self, Option.bind_some] using held

end OneMoreInput

end Fhenomenon.ExecutorLocality

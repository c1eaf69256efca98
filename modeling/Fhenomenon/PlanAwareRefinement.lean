import Fhenomenon.ProgramRefinement
import Fhenomenon.RecordedExecution
import Fhenomenon.MovementWorld

/-!
# Plan-aware execution refines plain execution

Both executions compute the same values, so they return the same code and agree
on every pinned id; along the way the plan-aware one hands kernels only live,
resident buffers.
-/

namespace Fhenomenon.PlanAwareRefinement

open Fhenomenon.InstructionStream Fhenomenon.MovementPlanner Fhenomenon.PlanLegality
open Fhenomenon.DeviceReplay Fhenomenon.DefaultExecutor Fhenomenon.DispatchRecipes
open Fhenomenon.DeviceAbi Fhenomenon.ExecutorRefinement Fhenomenon.ProgramRefinement
open Fhenomenon.RecordedExecution

variable {Ptr σ V κ : Type*}

/-- A kernel call of the program that was handed, for every id it names, a live
buffer on the device. -/
def HandedSafely (model : DeviceModel Ptr σ V κ) (dispatch : Dispatch Ptr σ)
    (program : FhnProgram) : Event Ptr σ → Prop
  | .allocated _ => True
  | .freed _ => True
  | .called opcode result operands world =>
      ∃ inst ∈ program.instructions, ∃ kernel ∈ kernelCalls dispatch inst,
        kernel.opcode = opcode ∧ (∃ buffer, result = some buffer ∧ model.Resident world buffer) ∧
          (∀ slot id, (kernel.operands slot).id? inst = some id →
            ∃ buffer, operands slot = some buffer ∧ model.Resident world buffer) ∧
          ∀ slot, (kernel.operands slot).id? inst = none → operands slot = none

/-- The caller's table: every input has a live buffer, on the device when there
is no prefetch hook. Two inputs may share one only if the plan leaves both alone. -/
structure InputsSupplied (model : DeviceModel Ptr σ V κ) (hooks : FhnMovementHooks Ptr σ)
    (program : FhnProgram) (plan : FhnMovementPlan) (buffers : Buffers Ptr) (world : σ) :
    Prop where
  supplied : ∀ id ∈ program.inputIds, ∃ buffer cell, buffers id = some buffer ∧
    model.cell world buffer = some cell ∧ (hooks.prefetch = none → cell.resident = true)
  apart : ∀ first ∈ program.inputIds, ∀ second ∈ program.inputIds,
    buffers first = buffers second → first = second ∨ (Kept plan first ∧ Kept plan second)

/-- Plain execution's table: every id has a resident buffer, every result its own. -/
structure Preallocated (model : DeviceModel Ptr σ V κ) (program : FhnProgram)
    (buffers : Buffers Ptr) (world : σ) : Prop where
  resident : ∀ id ∈ program.definedIds, ∃ buffer, buffers id = some buffer ∧
    model.Resident world buffer
  apart : ∀ id ∈ program.definedIds, ∀ result ∈ program.resultIds,
    buffers id = buffers result → id = result

def stored (model : DeviceModel Ptr σ V κ) (buffers : Buffers Ptr) (world : σ) (id : Nat) :
    Option V :=
  (buffers id).bind (model.contents world)

structure SameInputs (model : DeviceModel Ptr σ V κ) (program : FhnProgram)
    (buffers : Buffers Ptr) (world : σ) (plainBuffers : Buffers Ptr) (plainWorld : σ) :
    Prop where
  context : model.context world = model.context plainWorld
  contents : ∀ id ∈ program.inputIds,
    stored model buffers world id = stored model plainBuffers plainWorld id

def recordModel (model : DeviceModel Ptr σ V κ) : DeviceModel Ptr (Recorded Ptr σ) V κ where
  cell recorded := model.cell recorded.world
  context recorded := model.context recorded.world
  apply := model.apply

theorem record_hook_laws [DecidableEq Ptr] {model : DeviceModel Ptr σ V κ}
    {hooks : FhnMovementHooks Ptr σ} {alloc : σ → Option Ptr × σ} {free : Option Ptr → σ → σ}
    (laws : HookLaws model hooks alloc free) :
    HookLaws (recordModel model) (recordHooks hooks) (recordAlloc alloc) (recordFree free) where
  allocHook := by rw [recordHooks, laws.allocHook, Option.map_some]
  freeHook := by rw [recordHooks, laws.freeHook, Option.map_some]
  paired := by
    rw [record_evict, record_prefetch, Option.isSome_map, Option.isSome_map]
    exact laws.paired
  allocated := fun recorded => laws.allocated recorded.world
  freed := fun recorded => laws.freed recorded.world
  evicted := by
    intro evict registered recorded
    rw [record_evict, Option.map_eq_some_iff] at registered
    obtain ⟨hook, found, rfl⟩ := registered
    exact laws.evicted hook found recorded.world
  prefetched := by
    intro prefetch registered recorded
    rw [record_prefetch, Option.map_eq_some_iff] at registered
    obtain ⟨hook, found, rfl⟩ := registered
    exact laws.prefetched hook found recorded.world

theorem record_kernel_law [DecidableEq Ptr] {model : DeviceModel Ptr σ V κ}
    {dispatch : Dispatch Ptr σ} (law : KernelLaw model dispatch) :
    KernelLaw (recordModel model) (recordKernels dispatch) := by
  intro opcode fn registered recorded
  rw [recordKernels, Option.map_eq_some_iff] at registered
  obtain ⟨kernel, found, rfl⟩ := registered
  exact law opcode kernel found recorded.world

def SafeLog (model : DeviceModel Ptr σ V κ) (dispatch : Dispatch Ptr σ) (program : FhnProgram)
    (recorded : Recorded Ptr σ) : Prop :=
  ∀ event ∈ recorded.events, HandedSafely model dispatch program event

theorem safe_log_more {model : DeviceModel Ptr σ V κ} {dispatch : Dispatch Ptr σ}
    {program : FhnProgram} {recorded : Recorded Ptr σ} {event : Event Ptr σ}
    (safe : SafeLog model dispatch program recorded)
    (handed : HandedSafely model dispatch program event) :
    ∀ other ∈ recorded.events ++ [event], HandedSafely model dispatch program other := by
  intro other member
  rcases List.mem_append.mp member with old | new
  · exact safe other old
  · exact List.mem_singleton.mp new ▸ handed

theorem record_monitor (model : DeviceModel Ptr σ V κ) (hooks : FhnMovementHooks Ptr σ)
    (alloc : σ → Option Ptr × σ) (free : Option Ptr → σ → σ) (dispatch : Dispatch Ptr σ)
    (program : FhnProgram) :
    Monitor (recordModel model) (recordHooks hooks) (recordAlloc alloc) (recordFree free)
      (recordKernels dispatch) program (SafeLog model dispatch program) where
  allocated := fun _ safe => safe_log_more safe trivial
  freed := fun _ _ safe => safe_log_more safe trivial
  evicted := by
    intro evict registered buffer recorded safe
    rw [record_evict, Option.map_eq_some_iff] at registered
    obtain ⟨hook, found, rfl⟩ := registered
    exact safe
  prefetched := by
    intro prefetch registered buffer recorded safe
    rw [record_prefetch, Option.map_eq_some_iff] at registered
    obtain ⟨hook, found, rfl⟩ := registered
    exact safe
  called := by
    intro inst member kernel call buffers recorded safe ready
    rw [record_kernel_calls] at call
    unfold runCall DefaultExecutor.call recordKernels
    cases registered : dispatch kernel.opcode with
    | none => exact safe
    | some fn =>
        apply safe_log_more safe
        refine ⟨inst, member, kernel, call, rfl, ready.result, ?_, ?_⟩
        · intro slot id named
          beta_reduce
          rw [slot_buffer_of_id named]
          exact ready.named slot id named
        · intro slot unnamed
          beta_reduce
          rw [ready.absent slot unnamed]
          rfl

def inputValues (model : DeviceModel Ptr σ V κ) (program : FhnProgram) (buffers : Buffers Ptr)
    (world : σ) : ValueState V κ where
  context := model.context world
  values id := if id ∈ program.inputIds then stored model buffers world id else none

theorem input_values_valued {model : DeviceModel Ptr σ V κ} {hooks : FhnMovementHooks Ptr σ}
    {program : FhnProgram} {plan : FhnMovementPlan} {buffers : Buffers Ptr} {world : σ}
    (inputs : InputsSupplied model hooks program plan buffers world) :
    Valued program 0 (inputValues model program buffers world) := by
  intro id
  have start : program.definedBefore 0 = program.inputIds := by simp [FhnProgram.definedBefore]
  rw [start, inputValues]
  by_cases input : id ∈ program.inputIds
  · obtain ⟨buffer, cell, found, live, -⟩ := inputs.supplied id input
    simp [input, stored, found, DeviceModel.contents, live]
  · simp [input]

theorem inputs_tracked {model : DeviceModel Ptr σ V κ} {hooks : FhnMovementHooks Ptr σ}
    {program : FhnProgram} {plan : FhnMovementPlan} {buffers : Buffers Ptr} {world : σ}
    (inputs : InputsSupplied model hooks program plan buffers world) :
    Tracks model (fun id => id ∈ program.inputIds ∧ Kept plan id) program.inputIds.toFinset
      (placed hooks ∅) buffers world (inputValues model program buffers world) where
  context := rfl
  held := by
    intro id member
    have input := List.mem_toFinset.mp member
    obtain ⟨buffer, cell, found, live, device⟩ := inputs.supplied id input
    refine ⟨buffer, cell, found, live, ?_, ?_⟩
    · intro here
      rcases here with absent | impossible
      · exact device absent
      · exact absurd impossible (Finset.notMem_empty _)
    · intro value known
      simpa [inputValues, input, stored, found, DeviceModel.contents, live] using known
  apart := by
    intro first member second other equal
    have firstInput := List.mem_toFinset.mp member
    have secondInput := List.mem_toFinset.mp other
    rcases inputs.apart first firstInput second secondInput equal with same | ⟨one, two⟩
    · exact Or.inl same
    · exact Or.inr ⟨⟨firstInput, one⟩, ⟨secondInput, two⟩⟩

theorem plain_tracked {model : DeviceModel Ptr σ V κ} {program : FhnProgram}
    {buffers plainBuffers : Buffers Ptr} {world plainWorld : σ}
    (preallocated : Preallocated model program plainBuffers plainWorld)
    (same : SameInputs model program buffers world plainBuffers plainWorld) :
    Tracks model (fun id => id ∈ program.inputIds) program.definedIds.toFinset (fun _ => True)
      plainBuffers plainWorld (inputValues model program buffers world) where
  context := same.context.symm
  held := by
    intro id member
    obtain ⟨buffer, found, value, cell⟩ :=
      preallocated.resident id (List.mem_toFinset.mp member)
    refine ⟨buffer, _, found, cell, fun _ => rfl, ?_⟩
    intro known valued
    by_cases input : id ∈ program.inputIds
    · simp only [inputValues, if_pos input] at valued
      rw [same.contents id input, stored, found, Option.bind_some, DeviceModel.contents, cell,
        Option.map_some, Option.some.injEq] at valued
      exact valued
    · simp only [inputValues, if_neg input] at valued
      cases valued
  apart := by
    intro first member second other equal
    have firstDefined := List.mem_toFinset.mp member
    have secondDefined := List.mem_toFinset.mp other
    rcases List.mem_append.mp firstDefined with firstInput | firstResult
    · rcases List.mem_append.mp secondDefined with secondInput | secondResult
      · exact Or.inr ⟨firstInput, secondInput⟩
      · exact Or.inl (preallocated.apart first firstDefined second secondResult equal)
    · exact Or.inl (preallocated.apart second secondDefined first firstResult equal.symm).symm

theorem tracked_contents {model : DeviceModel Ptr σ V κ} {shared onDevice : Nat → Prop}
    {live : Finset Nat} {buffers : Buffers Ptr} {world : σ} {values : ValueState V κ}
    (tracks : Tracks model shared live onDevice buffers world values) (id : Nat)
    (member : id ∈ live) (value : V) (known : values.values id = some value) :
    stored model buffers world id = some value := by
  obtain ⟨buffer, cell, found, live, -, holds⟩ := tracks.held id member
  rw [stored, found, Option.bind_some, DeviceModel.contents, live, Option.map_some,
    holds value known]

/-- Plan-aware execution returns the code of the value semantics, and leaves the
value of every pinned id under it. -/
theorem plan_aware_computes [DecidableEq Ptr] {program : FhnProgram} {pinned : List Nat}
    {plan : FhnMovementPlan} {model : DeviceModel Ptr σ V κ} {hooks : FhnMovementHooks Ptr σ}
    {alloc : σ → Option Ptr × σ} {free : Option Ptr → σ → σ} {dispatch : Dispatch Ptr σ}
    (legal : PlanLegal program pinned plan) (present : OperandsPresent program)
    (hookLaws : HookLaws model hooks alloc free) (kernelLaw : KernelLaw model dispatch)
    (version : program.version = fhnAbiVersion) (buffers : Buffers Ptr) (world : σ)
    (inputs : InputsSupplied model hooks program plan buffers world) :
    (execute hooks dispatch program plan buffers world).1 =
        (valueProgram model dispatch program.instructions
          (inputValues model program buffers world)).1 ∧
      ((execute hooks dispatch program plan buffers world).1 = 0 →
        ∀ id ∈ pinned, id ∈ program.definedIds →
          ∃ value, (valueProgram model dispatch program.instructions
              (inputValues model program buffers world)).2.values id = some value ∧
            stored model (execute hooks dispatch program plan buffers world).2.buffers
              (execute hooks dispatch program plan buffers world).2.world id = some value) := by
  have valued := input_values_valued inputs
  have monitor : Monitor model hooks alloc free dispatch program (fun _ => True) := by
    constructor <;> intros <;> trivial
  obtain ⟨code, -, tracked⟩ := execute_tracks hookLaws kernelLaw monitor present legal
    (fun id isShared => isShared) version buffers world _ valued (inputs_tracked inputs) trivial
  refine ⟨code, ?_⟩
  intro success id isPinned defined
  rw [code] at success
  have final := value_program_valued program.instructions.length 0 (by omega) _ valued
    (by rw [List.drop_zero]; exact success)
  rw [List.drop_zero] at final
  rw [← defined_before_length] at defined
  obtain ⟨value, known⟩ := Option.isSome_iff_exists.mp ((final id).mpr defined)
  exact ⟨value, known, tracked_contents (tracked success) id
    (pinned_live legal _ (le_refl _) id isPinned defined) value known⟩

theorem plan_aware_safe [DecidableEq Ptr] {program : FhnProgram} {pinned : List Nat}
    {plan : FhnMovementPlan} {model : DeviceModel Ptr σ V κ} {hooks : FhnMovementHooks Ptr σ}
    {alloc : σ → Option Ptr × σ} {free : Option Ptr → σ → σ} {dispatch : Dispatch Ptr σ}
    (legal : PlanLegal program pinned plan) (present : OperandsPresent program)
    (hookLaws : HookLaws model hooks alloc free) (kernelLaw : KernelLaw model dispatch)
    (version : program.version = fhnAbiVersion) (buffers : Buffers Ptr) (world : σ)
    (inputs : InputsSupplied model hooks program plan buffers world) :
    ∀ event ∈ (recordExecute hooks dispatch program plan buffers world).2.world.events,
      HandedSafely model dispatch program event := by
  have monitor := record_monitor model hooks alloc free dispatch program
  have presentInputs : InputsSupplied (recordModel model) (recordHooks hooks) program plan
      buffers { world := world } := by
    refine ⟨?_, inputs.apart⟩
    intro id input
    obtain ⟨buffer, cell, found, live, device⟩ := inputs.supplied id input
    refine ⟨buffer, cell, found, live, ?_⟩
    intro absent
    rw [record_prefetch, Option.map_eq_none_iff] at absent
    exact device absent
  have start : SafeLog model dispatch program { world := world } := by
    intro event member
    cases member
  exact (execute_tracks (record_hook_laws hookLaws) (record_kernel_law kernelLaw) monitor present
    legal (fun id isShared => isShared) version buffers _ _ (input_values_valued presentInputs)
    (inputs_tracked presentInputs) start).2.1

theorem plain_computes [DecidableEq Ptr] {program : FhnProgram} {model : DeviceModel Ptr σ V κ}
    {dispatch : Dispatch Ptr σ} (valid : SsaValid program) (present : OperandsPresent program)
    (kernelLaw : KernelLaw model dispatch) (version : program.version = fhnAbiVersion)
    {buffers plainBuffers : Buffers Ptr} {world plainWorld : σ}
    (preallocated : Preallocated model program plainBuffers plainWorld)
    (same : SameInputs model program buffers world plainBuffers plainWorld)
    (valued : Valued program 0 (inputValues model program buffers world)) :
    (executePlain dispatch program plainBuffers plainWorld).1 =
        (valueProgram model dispatch program.instructions
          (inputValues model program buffers world)).1 ∧
      ((executePlain dispatch program plainBuffers plainWorld).1 = 0 →
        ∀ id ∈ program.definedIds, ∀ value,
          (valueProgram model dispatch program.instructions
              (inputValues model program buffers world)).2.values id = some value →
            stored model plainBuffers (executePlain dispatch program plainBuffers plainWorld).2 id =
              some value) := by
  obtain ⟨code, tracked⟩ := dispatch_all_tracks kernelLaw valid present (fun _ input => input)
    program.instructions.length 0 (by omega) plainWorld _ valued
    (plain_tracked preallocated same)
  rw [List.drop_zero] at code tracked
  rw [executePlain, if_neg (by simp [version])]
  refine ⟨code, ?_⟩
  intro success id defined value known
  rw [code] at success
  exact tracked_contents (tracked success) id (List.mem_toFinset.mpr defined) value known

/-- Plan-aware execution refines plain execution. -/
theorem plan_aware_refines_plain [DecidableEq Ptr] (program : FhnProgram) (pinned : List Nat)
    (deviceBudget : UInt64) (policy : FhnEvictionPolicy) (levels : Option FhnLevelModel)
    (plan : FhnMovementPlan)
    (analyzed : analyze program pinned deviceBudget policy levels = some plan)
    (present : OperandsPresent program) (model : DeviceModel Ptr σ V κ)
    (hooks : FhnMovementHooks Ptr σ) (alloc : σ → Option Ptr × σ) (free : Option Ptr → σ → σ)
    (dispatch : Dispatch Ptr σ) (hookLaws : HookLaws model hooks alloc free)
    (kernelLaw : KernelLaw model dispatch) (buffers plainBuffers : Buffers Ptr)
    (world plainWorld : σ) (inputs : InputsSupplied model hooks program plan buffers world)
    (preallocated : Preallocated model program plainBuffers plainWorld)
    (same : SameInputs model program buffers world plainBuffers plainWorld) :
    (∀ event ∈ (recordExecute hooks dispatch program plan buffers world).2.world.events,
        HandedSafely model dispatch program event) ∧
      (execute hooks dispatch program plan buffers world).1 =
        (executePlain dispatch program plainBuffers plainWorld).1 ∧
      ((execute hooks dispatch program plan buffers world).1 = 0 →
        ∀ id ∈ pinned, id ∈ program.definedIds →
          ∃ value,
            stored model (execute hooks dispatch program plan buffers world).2.buffers
              (execute hooks dispatch program plan buffers world).2.world id = some value ∧
            stored model plainBuffers (executePlain dispatch program plainBuffers plainWorld).2 id =
              some value) := by
  have legal := analyze_legal analyzed
  by_cases version : program.version = fhnAbiVersion
  · obtain ⟨code, kept⟩ := plan_aware_computes legal present hookLaws kernelLaw version buffers
      world inputs
    obtain ⟨plainCode, plainKept⟩ := plain_computes legal.valid present kernelLaw version
      preallocated same (input_values_valued inputs)
    refine ⟨plan_aware_safe legal present hookLaws kernelLaw version buffers world inputs,
      code.trans plainCode.symm, ?_⟩
    intro success id isPinned defined
    obtain ⟨value, known, holds⟩ := kept success id isPinned defined
    refine ⟨value, holds, plainKept ?_ id defined value known⟩
    rw [plainCode, ← code]
    exact success
  · have refused : (execute hooks dispatch program plan buffers world).1 = -1 := by
      simp only [execute, hookLaws.allocHook, hookLaws.freeHook, ne_eq, version,
        not_false_eq_true, if_true]
    have silent :
        (recordExecute hooks dispatch program plan buffers world).2.world.events = [] := by
      simp only [recordExecute, execute, (record_hook_laws hookLaws).allocHook,
        (record_hook_laws hookLaws).freeHook, ne_eq, version, not_false_eq_true, if_true]
    refine ⟨?_, ?_, ?_⟩
    · intro event member
      rw [silent] at member
      cases member
    · rw [refused, executePlain, if_pos version]
    · intro success
      rw [refused] at success
      cases success

section TwoSums

open Fhenomenon.MovementWorld

theorem two_sums_preallocated (first second third : Int) :
    Preallocated movementModel twoSums separate (plainWorld first second third) where
  resident := by
    intro id defined
    simp only [FhnProgram.definedIds, FhnProgram.resultIds, twoSums, List.map_cons, List.map_nil,
      List.cons_append, List.nil_append, List.mem_cons, List.not_mem_nil, or_false] at defined
    rcases defined with rfl | rfl | rfl | rfl | rfl
    · exact ⟨0, rfl, first, rfl⟩
    · exact ⟨1, rfl, second, rfl⟩
    · exact ⟨2, rfl, third, rfl⟩
    · exact ⟨3, rfl, 0, rfl⟩
    · exact ⟨4, rfl, 0, rfl⟩
  apart := by decide

theorem two_sums_supplied :
    InputsSupplied movementModel movementHooks twoSums twoSumsPlan separate mixedWorld where
  supplied := by
    intro id input
    simp only [twoSums, List.mem_cons, List.not_mem_nil, or_false] at input
    rcases input with rfl | rfl | rfl
    · exact ⟨0, ⟨true, 5⟩, rfl, rfl, fun _ => rfl⟩
    · exact ⟨1, ⟨false, 7⟩, rfl, rfl, fun absent => by cases absent⟩
    · exact ⟨2, ⟨true, 11⟩, rfl, rfl, fun _ => rfl⟩
  apart := by
    have distinct : ∀ first ∈ twoSums.inputIds, ∀ second ∈ twoSums.inputIds,
        separate first = separate second → first = second := by decide
    exact fun first one second two equal => Or.inl (distinct first one second two equal)

theorem two_sums_same_inputs :
    SameInputs movementModel twoSums separate mixedWorld separate (plainWorld 5 7 11) where
  context := rfl
  contents := by decide

theorem two_sums_refines :
    analyze twoSums [1, 2, 11] 3 .belady none = some twoSumsPlan ∧
      (execute movementHooks movementTable twoSums twoSumsPlan separate mixedWorld).1 =
        (executePlain movementTable twoSums separate (plainWorld 5 7 11)).1 :=
  ⟨analyze_two_sums,
    (plan_aware_refines_plain twoSums [1, 2, 11] 3 .belady none twoSumsPlan analyze_two_sums
      (by decide) movementModel movementHooks movementAlloc movementFree movementTable
      movement_hook_laws movement_kernel_law separate separate mixedWorld (plainWorld 5 7 11)
      two_sums_supplied (two_sums_preallocated 5 7 11) two_sums_same_inputs).2.1⟩

/-- Evicting one of two inputs that share a buffer takes the other off the device:
the kernel is handed a host buffer and the codes differ. -/
theorem aliased_inputs_diverge :
    analyze twoSums [1, 2, 11] 3 .belady none = some twoSumsPlan ∧ OperandsPresent twoSums ∧
      HookLaws movementModel movementHooks movementAlloc movementFree ∧
      KernelLaw movementModel movementTable ∧
      (∀ id ∈ twoSums.inputIds, ∃ buffer cell, aliased id = some buffer ∧
        movementModel.cell [some ⟨true, 5⟩, some ⟨true, 11⟩] buffer = some cell) ∧
      Preallocated movementModel twoSums separate (plainWorld 5 5 11) ∧
      SameInputs movementModel twoSums aliased [some ⟨true, 5⟩, some ⟨true, 11⟩] separate
        (plainWorld 5 5 11) ∧
      (execute movementHooks movementTable twoSums twoSumsPlan aliased
        [some ⟨true, 5⟩, some ⟨true, 11⟩]).1 = -1 ∧
      (executePlain movementTable twoSums separate (plainWorld 5 5 11)).1 = 0 := by
  refine ⟨analyze_two_sums, by decide, movement_hook_laws, movement_kernel_law, ?_,
    two_sums_preallocated 5 5 11, ⟨rfl, by decide⟩, by decide, by decide⟩
  intro id input
  simp only [twoSums, List.mem_cons, List.not_mem_nil, or_false] at input
  rcases input with rfl | rfl | rfl
  · exact ⟨0, _, rfl, rfl⟩
  · exact ⟨0, _, rfl, rfl⟩
  · exact ⟨1, _, rfl, rfl⟩

end TwoSums

end Fhenomenon.PlanAwareRefinement

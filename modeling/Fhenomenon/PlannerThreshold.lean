import Fhenomenon.PlanAcceptance
import Fhenomenon.LevelInference

/-!
# The planner's acceptance threshold

Which programs `analyze` accepts, in terms of the program alone: single
assignment, a level trace, and every instruction's working set within the
budget. Neither the policy nor the pinned set plays a part.
-/

namespace Fhenomenon.PlannerThreshold

open Fhenomenon.Lib Fhenomenon.InstructionStream Fhenomenon.MovementPlanner
open Fhenomenon.PlannerTables Fhenomenon.PlannerSteps Fhenomenon.PlanLifetimes
open Fhenomenon.PlanReplay Fhenomenon.PlanBudget Fhenomenon.PlanAcceptance
open Fhenomenon.LevelInference

/-- The units an id occupies: one slot, or the bytes of its level. -/
def holdingCost (model : Option FhnLevelModel) (levels : Nat → Int) (id : Nat) : Nat :=
  match model with
  | none => 1
  | some declared => (declared.bytesByLevel.getD (levels id).toNat 0).toNat

def workingIds (inst : FhnInstruction) : Finset Nat :=
  insert inst.resultId inst.usedOperands.toFinset

def workingCost (model : Option FhnLevelModel) (levels : Nat → Int) (inst : FhnInstruction) :
    Nat :=
  ∑ id ∈ workingIds inst, holdingCost model levels id

def LevelsAllowed (model : Option FhnLevelModel) (program : FhnProgram) (levels : Nat → Int) :
    Prop :=
  ∀ declared, model = some declared → WellFormed declared ∧ LevelTrace declared program levels

/-- What the caller has to supply for a plan to exist. -/
structure Plannable (program : FhnProgram) (deviceBudget : UInt64)
    (model : Option FhnLevelModel) : Prop where
  valid : SsaValid program
  leveled : ∃ levels, LevelsAllowed model program levels ∧
    (deviceBudget = 0 ∨ ∀ inst ∈ program.instructions,
      workingCost model levels inst ≤ deviceBudget.toNat)

/-- The bytes of each working set add up below 2^64. -/
def WorkingBytesFit (program : FhnProgram) (model : Option FhnLevelModel) : Prop :=
  ∀ declared levels, model = some declared → LevelTrace declared program levels →
    ∀ inst ∈ program.instructions, workingCost model levels inst < 2 ^ 64

theorem working_ids_eq (inst : FhnInstruction) : (workingSet inst).toFinset = workingIds inst := by
  ext id
  rw [OrderedSet.mem_to_finset, mem_working_set, workingIds, Finset.mem_insert, List.mem_toFinset]

theorem working_ids_card (inst : FhnInstruction) : (workingIds inst).card ≤ 5 := by
  have inserted := Finset.card_insert_le inst.resultId inst.usedOperands.toFinset
  have distinct := List.toFinset_card_le inst.usedOperands
  have slots := used_operands_length inst
  rw [workingIds]
  omega

theorem working_ids_defined {program : FhnProgram} (valid : SsaValid program)
    {inst : FhnInstruction} (member : inst ∈ program.instructions) :
    ∀ id ∈ workingIds inst, id ∈ program.definedIds := by
  obtain ⟨i, get⟩ := List.mem_iff_getElem?.mp member
  intro id working
  rw [← working_ids_eq] at working
  exact List.mem_toFinset.mp (working_defined valid get working)

theorem level_table_iff {model : Option FhnLevelModel} {program : FhnProgram}
    (valid : SsaValid program) :
    (∃ levelOf, levelTable model program = some levelOf) ↔
      ∃ levels, LevelsAllowed model program levels := by
  cases model with
  | none =>
      constructor
      · intro leveled
        exact ⟨fun _ => 0, fun declared impossible => by cases impossible⟩
      · intro allowed
        exact ⟨_, rfl⟩
  | some declared =>
      unfold LevelsAllowed levelTable
      rw [infer_levels_iff declared valid]
      constructor
      · intro accepted
        obtain ⟨wellFormed, levels, trace⟩ := accepted
        apply Exists.intro levels
        intro other same
        cases same
        exact ⟨wellFormed, trace⟩
      · intro allowed
        obtain ⟨levels, holds⟩ := allowed
        have facts := holds declared rfl
        exact ⟨facts.1, levels, facts.2⟩

theorem context_cost_eq {model : Option FhnLevelModel} {program : FhnProgram}
    (pinned : List Nat) (deviceBudget : UInt64) (policy : FhnEvictionPolicy)
    (valid : SsaValid program) {levelOf : Nat → Option Int}
    (leveled : levelTable model program = some levelOf) {levels : Nat → Int}
    (allowed : LevelsAllowed model program levels) :
    ∀ id ∈ program.definedIds,
      ((planContext (usePositions program) levelOf pinned deviceBudget policy model).cost
        id).toNat =
        holdingCost model levels id := by
  intro id defined
  cases model with
  | none => rfl
  | some declared =>
      have agree := inferred_agrees valid leveled (allowed declared rfl).2 id defined
      simp only [planContext, unitCost, holdingCost, agree, Option.getD_some]

section Analysis

variable {program : FhnProgram} {pinned : List Nat} {ctx : PlanContext}
  {model : Option FhnLevelModel} {levels : Nat → Int}

theorem working_cost_eq (valid : SsaValid program)
    (costs : ∀ id ∈ program.definedIds, (ctx.cost id).toNat = holdingCost model levels id)
    {inst : FhnInstruction} (member : inst ∈ program.instructions) :
    costOf ctx (workingSet inst).toFinset = workingCost model levels inst := by
  rw [working_ids_eq, costOf, workingCost]
  apply Finset.sum_congr rfl
  intro id working
  exact costs id (working_ids_defined valid member id working)

theorem working_sums_fit (valid : SsaValid program) (bytes : WorkingBytesFit program model)
    (allowed : LevelsAllowed model program levels)
    (costs : ∀ id ∈ program.definedIds, (ctx.cost id).toNat = holdingCost model levels id) :
    WorkingSumsFit program ctx := by
  intro inst member
  rw [working_cost_eq valid costs member]
  cases model with
  | none =>
      have few := working_ids_card inst
      have ones : workingCost none levels inst = (workingIds inst).card := by
        simp [workingCost, holdingCost]
      omega
  | some declared => exact bytes declared levels rfl (allowed declared rfl).2 inst member

/-- Whatever the loop has done so far, its state keeps both invariants. -/
theorem reached_invariants (valid : SsaValid program) (uses : ctx.uses = usePositions program)
    (pins : ctx.pinned = pinned) (j : Nat) (bound : j ≤ program.instructions.length)
    {acts : List FhnMovementActions} {state : PlanState}
    (reached : planLoop ctx (program.instructions.take j) 0 {} = some (acts, state)) :
    DeviceInvariant program pinned j state ∧ UnitsExact ctx state := by
  obtain ⟨-, states, first, last, steps⟩ := plan_loop_trace ctx _ _ _ _ _ reached
  have kept : ∀ i, i ≤ j → DeviceInvariant program pinned i (states i) ∧
      UnitsExact ctx (states i) := by
    intro i early
    induction i with
    | zero =>
        rw [first]
        constructor
        · constructor <;> simp
        · rfl
    | succ i induction =>
        obtain ⟨holds, exact⟩ := induction (by omega)
        have get := List.getElem?_eq_getElem (show i < program.instructions.length by omega)
        have taken : (program.instructions.take j)[i]? = some program.instructions[i] := by
          rw [List.getElem?_take_of_lt (by omega)]
          exact get
        obtain ⟨act, -, stepped⟩ := steps i _ taken
        rw [Nat.zero_add] at stepped
        have facts := plan_step_facts ctx i _ _ _ act stepped
        exact ⟨device_invariant_step valid uses pins get facts holds,
          units_exact_step facts (step_legal valid get facts holds) exact⟩
  have final := kept j (le_refl j)
  rw [List.length_take, min_eq_left bound] at last
  rw [last] at final
  exact final

/-- Any instruction whose working set passes the size check finds its victims. -/
theorem victim_found (valid : SsaValid program) (uses : ctx.uses = usePositions program)
    (sums : WorkingSumsFit program ctx) (j : Nat) (inst : FhnInstruction)
    (get : program.instructions[j]? = some inst) (acts : List FhnMovementActions)
    (state : PlanState)
    (reached : planLoop ctx (program.instructions.take j) 0 {} = some (acts, state))
    (small : sumUnits ctx.cost (workingSet inst).elems 0 ≤ ctx.deviceBudget) :
    evictLoop ctx (j : Int) (workingSet inst)
      (sumUnits ctx.cost (toPrefetch state inst) (ctx.cost inst.resultId))
      state.resident.size state ≠ none := by
  have bound := (List.getElem?_eq_some_iff.mp get).1
  have bounded := sums inst (List.mem_of_getElem? get)
  obtain ⟨holds, exact⟩ := reached_invariants valid uses rfl j bound.le reached
  apply evict_loop_accepts valid get holds exact bounded
  rw [← working_units inst bounded]
  exact UInt64.le_iff_toNat_le.mp small

theorem accepted_sets_fit {plan : FhnMovementPlan} {acts : List FhnMovementActions}
    {states : Nat → PlanState} (run : Analysis program pinned ctx plan acts states)
    (sums : WorkingSumsFit program ctx) : WorkingSetsFit program ctx := by
  by_cases unlimited : ctx.deviceBudget = 0
  · exact Or.inl unlimited
  · apply Or.inr
    intro inst member
    obtain ⟨i, get⟩ := List.mem_iff_getElem?.mp member
    obtain ⟨act, -, facts⟩ := analysis_step run i inst get
    obtain ⟨roomy, made⟩ := facts.room
    rcases make_room_spec ctx i inst _ roomy _ made with zero | limited
    · exact absurd zero.1 unlimited
    · rw [← working_units inst (sums inst member)]
      exact UInt64.le_iff_toNat_le.mp limited.2.1

end Analysis

theorem accepts_iff_plannable (program : FhnProgram) (pinned : List Nat) (deviceBudget : UInt64)
    (policy : FhnEvictionPolicy) (model : Option FhnLevelModel)
    (bytes : WorkingBytesFit program model) :
    (∃ plan, analyze program pinned deviceBudget policy model = some plan) ↔
      Plannable program deviceBudget model := by
  constructor
  · intro accepted
    obtain ⟨plan, analyzed⟩ := accepted
    obtain ⟨levelOf, acts, states, leveled, run⟩ := analyze_run analyzed
    obtain ⟨levels, allowed⟩ := (level_table_iff run.valid).mp ⟨levelOf, leveled⟩
    have costs := context_cost_eq pinned deviceBudget policy run.valid leveled allowed
    have fits := accepted_sets_fit run (working_sums_fit run.valid bytes allowed costs)
    apply Plannable.mk run.valid
    apply Exists.intro levels
    apply And.intro allowed
    apply fits.imp_right
    intro small inst member
    rw [← working_cost_eq run.valid costs member]
    exact small inst member
  · intro plannable
    obtain ⟨levels, allowed, fits⟩ := plannable.leveled
    obtain ⟨levelOf, leveled⟩ := (level_table_iff plannable.valid).mpr ⟨levels, allowed⟩
    have costs := context_cost_eq pinned deviceBudget policy plannable.valid leveled allowed
    apply analyze_accepts program pinned deviceBudget policy model levelOf plannable.valid leveled
    · exact working_sums_fit plannable.valid bytes allowed costs
    · apply fits.imp_right
      intro small inst member
      rw [working_cost_eq plannable.valid costs member]
      exact small inst member

/-- Every eviction request of a reached state is met once the working set fits. -/
def VictimsSuffice (program : FhnProgram) (ctx : PlanContext) : Prop :=
  ∀ j inst acts state, program.instructions[j]? = some inst →
    planLoop ctx (program.instructions.take j) 0 {} = some (acts, state) →
    sumUnits ctx.cost (workingSet inst).elems 0 ≤ ctx.deviceBudget →
    evictLoop ctx (j : Int) (workingSet inst)
      (sumUnits ctx.cost (toPrefetch state inst) (ctx.cost inst.resultId))
      state.resident.size state ≠ none

/-- Acceptance is exact, depends on neither policy nor pinned set, and the loop's
own rejection is unreachable behind the working-set check. -/
theorem exact_acceptance (program : FhnProgram) (pinned : List Nat) (deviceBudget : UInt64)
    (policy : FhnEvictionPolicy) (model : Option FhnLevelModel)
    (bytes : WorkingBytesFit program model) :
    ((∃ plan, analyze program pinned deviceBudget policy model = some plan) ↔
      Plannable program deviceBudget model) ∧
    (∀ otherPinned otherPolicy,
      (analyze program otherPinned deviceBudget otherPolicy model).isSome =
        (analyze program pinned deviceBudget policy model).isSome) ∧
    ∀ uses levelOf, prepare program model = some (uses, levelOf) →
      VictimsSuffice program (planContext uses levelOf pinned deviceBudget policy model) := by
  have decided (somePinned : List Nat) (somePolicy : FhnEvictionPolicy) :=
    accepts_iff_plannable program somePinned deviceBudget somePolicy model bytes
  constructor
  · exact decided pinned policy
  constructor
  · intro otherPinned otherPolicy
    rw [Bool.eq_iff_iff, Option.isSome_iff_exists, Option.isSome_iff_exists,
      decided otherPinned otherPolicy, decided pinned policy]
  · intro uses levelOf prepared
    obtain ⟨valid, rfl, leveled⟩ := (prepare_iff program model uses levelOf).mp prepared
    obtain ⟨levels, allowed⟩ := (level_table_iff valid).mp ⟨levelOf, leveled⟩
    have sums : WorkingSumsFit program
        (planContext (usePositions program) levelOf pinned deviceBudget policy model) :=
      working_sums_fit valid bytes allowed
        (context_cost_eq pinned deviceBudget policy valid leveled allowed)
    intro j inst acts state get reached small
    exact victim_found valid rfl sums j inst get acts state reached small

theorem two_level_bytes (levels : Nat → Int) (id : Nat) :
    holdingCost (some twoLevels) levels id ≤ 8 := by
  unfold holdingCost twoLevels
  rcases (levels id).toNat with _ | _ | level
  · decide
  · decide
  · simp

/-- Twenty bytes are enough for the two products and their sum. -/
theorem exact_acceptance_sum_of_products :
    ((∃ plan, analyze sumOfProducts [12] 20 .lru (some twoLevels) = some plan) ↔
      Plannable sumOfProducts 20 (some twoLevels)) ∧
    (∀ otherPinned otherPolicy,
      (analyze sumOfProducts otherPinned 20 otherPolicy (some twoLevels)).isSome =
        (analyze sumOfProducts [12] 20 .lru (some twoLevels)).isSome) ∧
    ∀ uses levelOf, prepare sumOfProducts (some twoLevels) = some (uses, levelOf) →
      VictimsSuffice sumOfProducts
        (planContext uses levelOf [12] 20 .lru (some twoLevels)) := by
  apply exact_acceptance sumOfProducts [12] 20 .lru (some twoLevels)
  intro declared levels same trace inst member
  have few := working_ids_card inst
  have bounded : workingCost (some twoLevels) levels inst ≤ (workingIds inst).card • 8 :=
    Finset.sum_le_card_nsmul _ _ _ (fun id _ => two_level_bytes levels id)
  rw [smul_eq_mul] at bounded
  omega

end Fhenomenon.PlannerThreshold

import Fhenomenon.PlanBudget

/-!
# Residency safety of plans

The per-instruction safety of the action lists, the budget at every moment, the
running counter and the published statistics, collected for one analysis.
-/

namespace Fhenomenon.PlanSoundness

open Fhenomenon.Lib Fhenomenon.InstructionStream Fhenomenon.MovementPlanner
open Fhenomenon.PlannerTables Fhenomenon.PlannerSteps Fhenomenon.PlanLifetimes
open Fhenomenon.DeviceReplay Fhenomenon.PlanReplay Fhenomenon.PlanBudget

theorem fold_evict_stats (ctx : PlanContext) (pos : Int) (ids : List Nat) (state : PlanState) :
    ((ids.map Move.evict).foldl (applyMove ctx pos) state).stats =
      { state.stats with evictCount := state.stats.evictCount + UInt32.ofNat ids.length } := by
  induction ids generalizing state with
  | nil => simp
  | cons id rest induction =>
      rw [List.map_cons, List.foldl_cons, induction, List.length_cons, Nat.add_comm,
        UInt32.ofNat_add, ← UInt32.add_assoc]
      rfl

theorem fold_prefetch_stats (ctx : PlanContext) (pos : Int) (ids : List Nat)
    (state : PlanState) :
    ((ids.map Move.prefetch).foldl (applyMove ctx pos) state).stats =
      { state.stats with
        prefetchCount := state.stats.prefetchCount + UInt32.ofNat ids.length } := by
  induction ids generalizing state with
  | nil => simp
  | cons id rest induction =>
      rw [List.map_cons, List.foldl_cons, induction, List.length_cons, Nat.add_comm,
        UInt32.ofNat_add, ← UInt32.add_assoc]
      rfl

theorem step_stats {ctx : PlanContext} {i : Nat} {inst : FhnInstruction}
    {before after : PlanState} {act : FhnMovementActions}
    (facts : StepFacts ctx i inst before act after) :
    after.stats.evictCount = before.stats.evictCount + UInt32.ofNat act.evict.length ∧
      after.stats.allocCount = before.stats.allocCount + UInt32.ofNat act.alloc.length ∧
      after.stats.prefetchCount =
        before.stats.prefetchCount + UInt32.ofNat act.prefetch.length ∧
      after.stats.highWater = max before.stats.highWater
        (UInt32.ofNat (replay before.resident.toFinset (loadMoves act)).card) ∧
      after.stats.highWaterBytes =
        if ctx.byteMode then max before.stats.highWaterBytes
          ((loadMoves act).foldl (applyMove ctx (i : Int)) before).residentUnits
        else before.stats.highWaterBytes := by
  have loaded : ((loadMoves act).foldl (applyMove ctx (i : Int)) before).stats =
      { before.stats with
        evictCount := before.stats.evictCount + UInt32.ofNat act.evict.length
        allocCount := before.stats.allocCount + UInt32.ofNat act.alloc.length
        prefetchCount := before.stats.prefetchCount + UInt32.ofNat act.prefetch.length } := by
    rw [loadMoves, List.foldl_append, List.foldl_append, fold_prefetch_stats, facts.alloc]
    simp only [List.map_cons, List.map_nil, List.foldl_cons, List.foldl_nil, applyMove,
      PlanState.allocate, fold_evict_stats, List.length_cons, List.length_nil]
    rfl
  have size : ((loadMoves act).foldl (applyMove ctx (i : Int)) before).resident.size =
      (replay before.resident.toFinset (loadMoves act)).card := by
    rw [← fold_resident ctx i, OrderedSet.card_to_finset]
  rw [facts.stats]
  simp only [PlanState.recordHighWater, loaded, size, and_self]

section Analysis

variable {program : FhnProgram} {pinned : List Nat} {ctx : PlanContext} {plan : FhnMovementPlan}
  {acts : List FhnMovementActions} {states : Nat → PlanState}

theorem counter_total (run : Analysis program pinned ctx plan acts states)
    (field : Stats → UInt32) (first : field {} = 0) (size : FhnMovementActions → Nat)
    (ignoresFree : ∀ act free, size { act with free := free } = size act)
    (next : ∀ i inst act, StepFacts ctx i inst (states i) act (states (i + 1)) →
      field (states (i + 1)).stats = field (states i).stats + UInt32.ofNat (size act)) :
    field plan.stats = UInt32.ofNat ((plan.actions.map size).sum) := by
  have counted : ∀ i, i ≤ program.instructions.length →
      field (states i).stats = UInt32.ofNat (((plan.actions.take i).map size).sum) := by
    intro i bound
    induction i with
    | zero =>
        rw [run.start]
        simpa using first
    | succ i induction =>
        have get := List.getElem?_eq_getElem (show i < program.instructions.length by omega)
        obtain ⟨act, facts, planned⟩ := analysis_at run i _ get
        rw [next i _ act facts, induction (by omega), List.take_add_one, planned,
          Option.toList_some, List.map_append, List.sum_append, UInt32.ofNat_add,
          List.map_singleton, List.sum_singleton]
        congr 2
        exact (ignoresFree act _).symm
  have whole := counted _ (le_refl _)
  rw [← analysis_plan_length run, List.take_length, analysis_plan_length run] at whole
  rw [run.stats]
  exact whole

theorem resident_defined (run : Analysis program pinned ctx plan acts states) {i : Nat}
    {inst : FhnInstruction} (get : program.instructions[i]? = some inst) :
    (states i).resident.toFinset ∪ (workingSet inst).toFinset ⊆ program.definedIds.toFinset := by
  intro id member
  have bound := (List.getElem?_eq_some_iff.mp get).1
  rw [Finset.mem_union, OrderedSet.mem_to_finset, OrderedSet.mem_to_finset,
    mem_working_set] at member
  rw [List.mem_toFinset]
  rcases member with held | rfl | operand
  · exact defined_before_subset program i ((device_invariant run i (by omega)).defined id held)
  · exact result_mem_defined program i inst get
  · exact defined_before_subset program i
      (run.valid.operandsDefined i id ((reads_working get id).mpr operand))

end Analysis

/-- Ids are `uint32_t` values. -/
def Representable (program : FhnProgram) : Prop := ∀ id ∈ program.definedIds, id < 2 ^ 32

instance (program : FhnProgram) : Decidable (Representable program) :=
  inferInstanceAs (Decidable (∀ id ∈ program.definedIds, id < 2 ^ 32))

theorem representable_card {program : FhnProgram} (valid : SsaValid program)
    (representable : Representable program) : program.definedIds.toFinset.card < 2 ^ 32 := by
  have subset : program.definedIds.toFinset ⊆ Finset.Ico 1 (2 ^ 32) := by
    intro id member
    rw [List.mem_toFinset] at member
    have nonzero := valid.nonzero id member
    have small := representable id member
    exact Finset.mem_Ico.mpr ⟨by omega, small⟩
  have card := Finset.card_le_card subset
  rw [Nat.card_Ico] at card
  omega

/-- No sum of byte costs over the resident and working ids reaches 2^64. -/
def ByteSumsFit (program : FhnProgram) (model : Option FhnLevelModel)
    (plan : FhnMovementPlan) : Prop :=
  ∀ i inst, program.instructions[i]? = some inst →
    ∑ id ∈ residentBefore plan i ∪ (workingSet inst).toFinset, idCost program model id < 2 ^ 64

/-- Safety of one instruction's action list against the replayed device. -/
structure InstructionSound (program : FhnProgram) (plan : FhnMovementPlan) (i : Nat)
    (inst : FhnInstruction) (act : FhnMovementActions) : Prop where
  evictNodup : act.evict.Nodup
  evicted : ∀ id ∈ act.evict, id ∈ residentBefore plan i ∧ id ∉ (workingSet inst).elems
  allocated : act.alloc = [inst.resultId]
  neverResident : ∀ ms, ms <+: movesBefore plan i ++ act.evict.map Move.evict →
    inst.resultId ∉ replay ∅ ms
  prefetchNodup : act.prefetch.Nodup
  prefetched : ∀ id ∈ act.prefetch, id ∈ inst.usedOperands ∧ id ∉ residentBefore plan i ∧
    id ∈ program.definedBefore i ∧
    ∀ j earlier, j < i → plan.actions[j]? = some earlier → id ∉ earlier.free
  loaded : (workingSet inst).toFinset ⊆ replay (residentBefore plan i) (loadMoves act)

/-- The loop's own counter, moment by moment. -/
structure CounterSound (program : FhnProgram) (model : Option FhnLevelModel)
    (plan : FhnMovementPlan) (ctx : PlanContext) (states : Nat → PlanState) (i : Nat)
    (act : FhnMovementActions) : Prop where
  counts : ∀ part, part <+: moves act →
    (part.foldl (applyMove ctx (i : Int)) (states i)).residentUnits.toNat =
      ∑ id ∈ replay (residentBefore plan i) part, idCost program model id
  covers : ∀ part move id, part ++ [move] <+: moves act →
    move = Move.evict id ∨ move = Move.free id →
      ctx.cost id ≤ (part.foldl (applyMove ctx (i : Int)) (states i)).residentUnits
  next : (states (i + 1)).residentUnits =
    ((moves act).foldl (applyMove ctx (i : Int)) (states i)).residentUnits

structure PlanSound (program : FhnProgram) (pinned : List Nat) (deviceBudget : UInt64)
    (policy : FhnEvictionPolicy) (model : Option FhnLevelModel) (plan : FhnMovementPlan) :
    Prop where
  length : plan.actions.length = program.instructions.length
  instructions : ∀ i inst act, program.instructions[i]? = some inst →
    plan.actions[i]? = some act → InstructionSound program plan i inst act
  budget : 0 < deviceBudget → ∀ ms, ms <+: allMoves plan →
    ∑ id ∈ replay ∅ ms, idCost program model id ≤ deviceBudget.toNat
  counter : ∃ levelOf states, levelTable model program = some levelOf ∧ states 0 = {} ∧
    ∀ i inst, program.instructions[i]? = some inst → ∃ act,
      planStep (planContext (usePositions program) levelOf pinned deviceBudget policy model)
        i inst (states i) = some (act, states (i + 1)) ∧
      CounterSound program model plan
        (planContext (usePositions program) levelOf pinned deviceBudget policy model)
        states i act
  highWater : plan.stats.highWater.toNat = peak plan (fun _ => 1)
  highWaterBytes : plan.stats.highWaterBytes.toNat =
    if model.isSome then peak plan (idCost program model) else 0
  allocCount : plan.stats.allocCount.toNat = (plan.actions.map (·.alloc.length)).sum
  prefetchCount :
    plan.stats.prefetchCount = UInt32.ofNat (plan.actions.map (·.prefetch.length)).sum
  evictCount : plan.stats.evictCount = UInt32.ofNat (plan.actions.map (·.evict.length)).sum

section Analysis

variable {program : FhnProgram} {pinned : List Nat} {ctx : PlanContext} {plan : FhnMovementPlan}
  {acts : List FhnMovementActions} {states : Nat → PlanState}

theorem moment_defined (run : Analysis program pinned ctx plan acts states) (i : Nat)
    (bound : i ≤ program.instructions.length) (ms : List Move)
    (early : ms <+: movesBefore plan i) (id : Nat) (held : id ∈ replay ∅ ms) :
    id ∈ program.definedBefore i := by
  have inPlan : movesBefore plan i <+: allMoves plan := by
    refine ⟨(plan.actions.drop i).flatMap moves, ?_⟩
    rw [movesBefore, ← List.flatMap_append, List.take_append_drop, allMoves]
  rcases flat_map_part moves (plan.actions.take i) ms early with rfl |
    ⟨j, act, part, found, piece, rfl⟩
  · simp [replay] at held
  · have order : j < i := by
      have inTake := (List.getElem?_eq_some_iff.mp found).1
      rw [List.length_take] at inTake
      omega
    rw [List.getElem?_take_of_lt order] at found
    obtain ⟨inst, raw, get, facts, rfl⟩ := analysis_published run found
    rw [List.take_take, min_eq_left order.le, replay_append] at held
    have here : replay ∅ ((plan.actions.take j).flatMap moves) = (states j).resident.toFinset :=
      resident_before_eq run j (by omega)
    rw [here] at held
    have choices := step_choices facts
    have within : id ∈ (states j).resident.toFinset ∪
        (workingSet inst).toFinset := by
      rcases replay_part_subset _ _ part piece with small | small
      · exact Finset.mem_union_left _ (small held)
      · exact dispatch_subset (step_choices_more choices _) (small held)
    rw [Finset.mem_union, OrderedSet.mem_to_finset, OrderedSet.mem_to_finset,
      mem_working_set] at within
    apply defined_before_mono program (show j + 1 ≤ i by omega)
    rcases within with old | rfl | operand
    · exact defined_before_mono program (Nat.le_succ j)
        ((device_invariant run j (by omega)).defined id old)
    · rw [defined_before_succ program j _ get]
      simp
    · exact defined_before_mono program (Nat.le_succ j)
        (run.valid.operandsDefined j id ((reads_working get id).mpr operand))

theorem instruction_sound (run : Analysis program pinned ctx plan acts states) (i : Nat)
    (inst : FhnInstruction) (act : FhnMovementActions)
    (get : program.instructions[i]? = some inst) (found : plan.actions[i]? = some act) :
    InstructionSound program plan i inst act := by
  have bound := (List.getElem?_eq_some_iff.mp get).1
  obtain ⟨raw, facts, planned⟩ := analysis_at run i inst get
  rw [found] at planned
  cases planned
  have choices := step_choices facts
  have here := resident_before_eq run i (by omega)
  constructor
  · exact choices.evictNodup
  · rw [here]
    exact choices.evicted
  · exact choices.alloc
  · intro ms early held
    apply result_not_defined_before run.valid i inst get
    rcases part_append _ _ _ early with before | ⟨rest, rfl, evicting⟩
    · exact moment_defined run i (by omega) ms before _ held
    · rw [replay_append] at held
      have dropped : ∀ move ∈ rest, drops move = true := by
        intro move member
        obtain ⟨id, -, rfl⟩ := List.mem_map.mp (evicting.subset member)
        rfl
      exact moment_defined run i (by omega) _ (List.prefix_rfl) _
        (replay_drops_subset _ rest dropped held)
  · exact choices.prefetchNodup
  · intro id member
    obtain ⟨operand, absent⟩ := (choices.prefetched id).mp member
    have reads := (reads_working get id).mpr operand
    refine ⟨operand, here ▸ absent, run.valid.operandsDefined i id reads, ?_⟩
    intro j earlier order foundEarlier freed
    obtain ⟨-, dies⟩ := (mem_free_iff run j earlier foundEarlier id).mp freed
    rcases dies with ⟨-, last⟩ | ⟨unread, -⟩
    · have late := last i reads
      omega
    · exact unread i reads
  · intro id member
    rw [here]
    exact (mem_dispatch_iff choices id).mpr (Or.inr (by simpa using member))

theorem alloc_total (run : Analysis program pinned ctx plan acts states) :
    (plan.actions.map (·.alloc.length)).sum = program.instructions.length := by
  have ones : ∀ act ∈ plan.actions, act.alloc.length = 1 := by
    intro act member
    obtain ⟨i, found⟩ := List.mem_iff_getElem?.mp member
    have bound : i < program.instructions.length := by
      rw [← analysis_plan_length run]
      exact (List.getElem?_eq_some_iff.mp found).1
    have sound := instruction_sound run i _ act (List.getElem?_eq_getElem bound) found
    rw [sound.allocated]
    rfl
  rw [List.map_congr_left ones, List.map_const', ← analysis_plan_length run]
  simp

end Analysis

theorem sums_fit {program : FhnProgram} {pinned : List Nat} {deviceBudget : UInt64}
    {policy : FhnEvictionPolicy} {model : Option FhnLevelModel} {plan : FhnMovementPlan}
    {levelOf : Nat → Option Int} {acts : List FhnMovementActions} {states : Nat → PlanState}
    (leveled : levelTable model program = some levelOf)
    (run : Analysis program pinned
      (planContext (usePositions program) levelOf pinned deviceBudget policy model)
      plan acts states)
    (representable : Representable program)
    (byteSums : model.isSome = true → ByteSumsFit program model plan) :
    SumsFit program
      (planContext (usePositions program) levelOf pinned deviceBudget policy model) states := by
  intro i inst get
  have bound := (List.getElem?_eq_some_iff.mp get).1
  cases model with
  | none =>
      have ones : costOf (planContext (usePositions program) levelOf pinned deviceBudget policy
          none) ((states i).resident.toFinset ∪ (workingSet inst).toFinset) =
          ((states i).resident.toFinset ∪ (workingSet inst).toFinset).card := by
        simp [costOf, planContext, unitCost]
      have card := Finset.card_le_card (resident_defined run get)
      have small := representable_card run.valid representable
      omega
  | some levels =>
      have sums := byteSums rfl i inst get
      rw [resident_before_eq run i (by omega)] at sums
      simpa only [costOf, planContext, idCost, leveled] using sums

theorem high_water_eq {program : FhnProgram} {pinned : List Nat} {ctx : PlanContext}
    {plan : FhnMovementPlan} {acts : List FhnMovementActions} {states : Nat → PlanState}
    (run : Analysis program pinned ctx plan acts states)
    (representable : Representable program) :
    plan.stats.highWater.toNat = peak plan (fun _ => 1) := by
  rw [run.stats]
  apply mark_eq_peak run (fun _ => 1) (fun i => (states i).stats.highWater.toNat)
  · simp [run.start]
  · intro i inst act get facts
    obtain ⟨-, -, -, high, -⟩ := step_stats facts
    have card := Finset.card_le_card
      ((dispatch_subset (step_choices facts)).trans (resident_defined run get))
    have small := representable_card run.valid representable
    rw [high, ← Finset.card_eq_sum_ones, UInt32.toNat_max, UInt32.toNat_ofNat',
      Nat.mod_eq_of_lt (by omega)]

theorem high_water_bytes_eq {program : FhnProgram} {pinned : List Nat} {ctx : PlanContext}
    {plan : FhnMovementPlan} {acts : List FhnMovementActions} {states : Nat → PlanState}
    (run : Analysis program pinned ctx plan acts states) (fits : SumsFit program ctx states) :
    plan.stats.highWaterBytes.toNat =
      if ctx.byteMode then peak plan (fun id => (ctx.cost id).toNat) else 0 := by
  rw [run.stats]
  by_cases bytes : ctx.byteMode = true
  · rw [if_pos bytes]
    apply mark_eq_peak run _ (fun i => (states i).stats.highWaterBytes.toNat)
    · simp [run.start]
    · intro i inst act get facts
      obtain ⟨-, -, -, -, high⟩ := step_stats facts
      have counted := counter_exact run fits get facts (loadMoves act) ⟨_, rfl⟩
      rw [high, if_pos bytes, UInt64.toNat_max, counted, costOf]
  · rw [if_neg bytes]
    have silent : ∀ i, i ≤ program.instructions.length →
        (states i).stats.highWaterBytes = 0 := by
      intro i bound
      induction i with
      | zero => simp [run.start]
      | succ i induction =>
          have get := List.getElem?_eq_getElem (show i < program.instructions.length by omega)
          obtain ⟨act, -, facts⟩ := analysis_step run i _ get
          obtain ⟨-, -, -, -, high⟩ := step_stats facts
          rw [high, if_neg bytes]
          exact induction (by omega)
    rw [silent _ (le_refl _)]
    rfl

/-- The full residency contract of an accepted analysis. -/
theorem analyze_sound (program : FhnProgram) (pinned : List Nat) (deviceBudget : UInt64)
    (policy : FhnEvictionPolicy) (model : Option FhnLevelModel) (plan : FhnMovementPlan)
    (representable : Representable program)
    (byteSums : model.isSome = true → ByteSumsFit program model plan)
    (analyzed : analyze program pinned deviceBudget policy model = some plan) :
    PlanSound program pinned deviceBudget policy model plan := by
  obtain ⟨levelOf, acts, states, leveled, run⟩ := analyze_run analyzed
  have fits := sums_fit leveled run representable byteSums
  have costs : (fun id => ((planContext (usePositions program) levelOf pinned deviceBudget policy
      model).cost id).toNat) = idCost program model := by
    funext id
    simp only [planContext, idCost, leveled]
  constructor
  · exact analysis_plan_length run
  · exact instruction_sound run
  · intro limited ms moment
    rw [← costs]
    refine moment_bound run _ _ ?_ ?_ ms moment
    · intro i bound
      exact resident_within run fits limited i (by omega)
    · intro i inst act get facts
      exact dispatch_within run fits limited get facts
  · refine ⟨levelOf, states, leveled, run.start, ?_⟩
    intro i inst get
    have bound := (List.getElem?_eq_some_iff.mp get).1
    obtain ⟨act, -, stepped⟩ := run.steps i inst get
    have facts := plan_step_facts _ i inst _ _ act stepped
    refine ⟨act, stepped, ?_, ?_, facts.units⟩
    · intro part early
      rw [counter_exact run fits get facts part early, resident_before_eq run i (by omega),
        ← costs, costOf]
    · intro part move id early leaving
      exact counter_covers run fits get facts part move early id leaving
  · exact high_water_eq run representable
  · rw [high_water_bytes_eq run fits, costs]
    rfl
  · have counted := counter_total run (·.allocCount) rfl (·.alloc.length) (fun _ _ => rfl)
      fun i inst act facts => (step_stats facts).2.1
    have total := alloc_total run
    have small : program.instructions.length < 2 ^ 32 := by
      have results : program.instructions.length ≤ program.definedIds.length := by
        simp [FhnProgram.definedIds, FhnProgram.resultIds]
      rw [← List.toFinset_card_of_nodup run.valid.nodup] at results
      exact lt_of_le_of_lt results (representable_card run.valid representable)
    rw [counted, UInt32.toNat_ofNat', Nat.mod_eq_of_lt (by omega)]
  · exact counter_total run (·.prefetchCount) rfl (·.prefetch.length) (fun _ _ => rfl)
      fun i inst act facts => (step_stats facts).2.2.1
  · exact counter_total run (·.evictCount) rfl (·.evict.length) (fun _ _ => rfl)
      fun i inst act facts => (step_stats facts).1

theorem sum_of_products_bytes_fit :
    ByteSumsFit sumOfProducts (some twoLevels) sumOfProductsPlan := by
  intro i inst get
  have bound : i < 3 := (List.getElem?_eq_some_iff.mp get).1
  rcases i with _ | _ | _ | i
  · cases get
    decide
  · cases get
    decide
  · cases get
    decide
  · omega

theorem analyze_sound_sum_of_products :
    PlanSound sumOfProducts [12] 20 .belady (some twoLevels) sumOfProductsPlan :=
  analyze_sound sumOfProducts [12] 20 .belady (some twoLevels) sumOfProductsPlan
    (by decide) (fun _ => sum_of_products_bytes_fit) analyze_sum_of_products

end Fhenomenon.PlanSoundness

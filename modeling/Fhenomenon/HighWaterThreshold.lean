import Fhenomenon.ByteAccounting
import Fhenomenon.PlanOptimality

/-!
# The unlimited high-water mark as a budget

A budget that never forces an eviction runs in lockstep with no budget at all.
The peak recorded after allocation is the quantity every eviction test
compares, so it decides where evictions start; only the separate test of the
working set can disagree with it, and only when byte sums wrap.
-/

namespace Fhenomenon.HighWaterThreshold

open Fhenomenon.Lib Fhenomenon.InstructionStream Fhenomenon.MovementPlanner
open Fhenomenon.PlannerTables Fhenomenon.PlannerSteps Fhenomenon.PlanLifetimes
open Fhenomenon.DeviceReplay Fhenomenon.PlanReplay Fhenomenon.PlanBudget
open Fhenomenon.PlanAcceptance Fhenomenon.PlanSoundness Fhenomenon.PlannerThreshold
open Fhenomenon.PlanOptimality Fhenomenon.PlannerRuns Fhenomenon.ByteAccounting

def liveBefore (program : FhnProgram) (pinned : List Nat) : Nat → Finset Nat
  | 0 => ∅
  | i + 1 =>
      match program.instructions[i]? with
      | some inst =>
          (liveBefore program pinned i ∪ workingIds inst) \ freedAfter program pinned i inst
      | none => liveBefore program pinned i

/-- A sum of sizes as the planner's counters hold it. -/
def wrappedSize (program : FhnProgram) (model : Option FhnLevelModel) (ids : Finset Nat) :
    UInt64 :=
  UInt64.ofNat (∑ id ∈ ids, idCost program model id)

/-- `high_water` in slot mode, `high_water_bytes` in byte mode. -/
def highWaterMark (model : Option FhnLevelModel) (plan : FhnMovementPlan) : UInt64 :=
  if model.isSome then plan.stats.highWaterBytes else plan.stats.highWater.toUInt64

/-- From the mark upwards a budget changes nothing; below it, it costs an
eviction or the plan. -/
structure ThresholdExact (program : FhnProgram) (pinned : List Nat) (policy : FhnEvictionPolicy)
    (model : Option FhnLevelModel) (unlimited : FhnMovementPlan) : Prop where
  evictless : ∀ act ∈ unlimited.actions, act.evict = []
  enough : ∀ deviceBudget, 0 < deviceBudget → highWaterMark model unlimited ≤ deviceBudget →
    analyze program pinned deviceBudget policy model = some unlimited
  tooSmall : ∀ deviceBudget, 0 < deviceBudget → deviceBudget < highWaterMark model unlimited →
    ∀ plan, analyze program pinned deviceBudget policy model = some plan →
      ∃ act ∈ plan.actions, act.evict ≠ []

/-- Every working set, summed modulo 2^64, is a single unit at most or no larger
than some live set summed modulo 2^64. -/
def WorkingBelowPeak (program : FhnProgram) (pinned : List Nat) (model : Option FhnLevelModel) :
    Prop :=
  ∀ inst ∈ program.instructions, wrappedSize program model (workingIds inst) ≤ 1 ∨
    ∃ k other, program.instructions[k]? = some other ∧
      wrappedSize program model (workingIds inst) ≤
        wrappedSize program model (liveBefore program pinned k ∪ workingIds other)

def underBudget (ctx : PlanContext) (deviceBudget : UInt64) : PlanContext :=
  { ctx with deviceBudget := deviceBudget }

section Step

variable (ctx : PlanContext) (i : Nat) (inst : FhnInstruction) (state : PlanState)

theorem plan_step_roomy (deviceBudget : UInt64)
    (here : makeRoom ctx (i : Int) inst state = some ([], state))
    (there : makeRoom (underBudget ctx deviceBudget) (i : Int) inst state = some ([], state)) :
    planStep (underBudget ctx deviceBudget) i inst state = planStep ctx i inst state := by
  simp only [planStep, here, there]
  rfl

theorem unlimited_room (unlimited : ctx.deviceBudget = 0) :
    makeRoom ctx (i : Int) inst state = some ([], state) := by
  rw [makeRoom, if_neg (by simp [unlimited])]

theorem limited_room (limited : 0 < ctx.deviceBudget)
    (working : workingUnits ctx inst ≤ ctx.deviceBudget)
    (request : state.residentUnits + incomingUnits ctx state inst ≤ ctx.deviceBudget) :
    makeRoom ctx (i : Int) inst state = some ([], state) := by
  have fits : ¬sumUnits ctx.cost (workingSet inst).elems 0 > ctx.deviceBudget :=
    UInt64.not_lt.mpr working
  have settled : ¬state.residentUnits + sumUnits ctx.cost (toPrefetch state inst)
      (ctx.cost inst.resultId) > ctx.deviceBudget := UInt64.not_lt.mpr request
  rw [makeRoom, if_pos limited, if_neg fits]
  cases state.resident.size with
  | zero => rw [evictLoop, if_neg settled]
  | succ fuel => rw [evictLoop, if_neg settled]

variable {ctx i inst state}

theorem room_working {act : FhnMovementActions} {after : PlanState}
    (facts : StepFacts ctx i inst state act after) (limited : 0 < ctx.deviceBudget) :
    workingUnits ctx inst ≤ ctx.deviceBudget := by
  obtain ⟨roomy, made⟩ := facts.room
  have room := make_room_spec ctx i inst state roomy act.evict made
  cases room with
  | inl unlimited => exact absurd limited (by simp [unlimited.1])
  | inr checked => exact checked.2.1

theorem room_unchanged {act : FhnMovementActions} {after : PlanState}
    (facts : StepFacts ctx i inst state act after) (evictless : act.evict = []) :
    makeRoom ctx (i : Int) inst state = some ([], state) := by
  obtain ⟨roomy, made⟩ := facts.room
  have room := make_room_spec ctx i inst state roomy act.evict made
  cases room with
  | inl unlimited =>
      rw [evictless, unlimited.2.2] at made
      exact made
  | inr checked =>
      have same := evict_run_state checked.2.2
      rw [evictless, List.foldl_nil] at same
      rw [evictless, same] at made
      exact made

theorem loaded_units {act : FhnMovementActions} {after : PlanState}
    (facts : StepFacts ctx i inst state act after) (evictless : act.evict = []) :
    ((loadMoves act).foldl (applyMove ctx (i : Int)) state).residentUnits =
      state.residentUnits + incomingUnits ctx state inst := by
  rw [loadMoves, facts.alloc, evictless, List.map_nil, List.nil_append, List.foldl_append,
    List.foldl_map, List.foldl_map, List.foldl_cons, List.foldl_nil, incomingUnits,
    ← sum_units_add, facts.prefetch]
  exact fold_prefetch_units ctx i (toPrefetch state inst) _

theorem evictless_dispatch {act : FhnMovementActions} {after : PlanState}
    (facts : StepFacts ctx i inst state act after) (evictless : act.evict = []) :
    replay state.resident.toFinset (loadMoves act) =
      state.resident.toFinset ∪ workingIds inst := by
  ext id
  rw [mem_dispatch_iff (step_choices facts), evictless, Finset.mem_union, ← working_ids_eq,
    OrderedSet.mem_to_finset, OrderedSet.mem_to_finset]
  simp only [List.not_mem_nil, not_false_eq_true, and_true]

end Step

section Runs

variable {program : FhnProgram} {pinned : List Nat} {ctx : PlanContext} {plan : FhnMovementPlan}
  {acts : List FhnMovementActions} {states : Nat → PlanState}

/-- The plan carries the loop's evictions: its epilogue only frees. -/
theorem plan_evictless_iff (run : Analysis program pinned ctx plan acts states) :
    (∀ act ∈ plan.actions, act.evict = []) ↔ ∀ act ∈ acts, act.evict = [] := by
  constructor
  · intro still act member
    obtain ⟨i, found⟩ := List.mem_iff_getElem?.mp member
    have planned := analysis_action run i act found
    have quiet := still _ (List.mem_of_getElem? planned)
    exact quiet
  · intro still act member
    obtain ⟨i, found⟩ := List.mem_iff_getElem?.mp member
    have bound : i < program.instructions.length := by
      rw [← analysis_plan_length run]
      exact (List.getElem?_eq_some_iff.mp found).1
    obtain ⟨raw, listed, -⟩ := analysis_step run i _ (List.getElem?_eq_getElem bound)
    have planned := analysis_action run i raw listed
    rw [found] at planned
    cases planned
    exact still raw (List.mem_of_getElem? listed)

theorem still_step (run : Analysis program pinned ctx plan acts states)
    (still : ∀ act ∈ acts, act.evict = []) {i : Nat} {inst : FhnInstruction}
    (get : program.instructions[i]? = some inst) :
    ∃ act, acts[i]? = some act ∧ act.evict = [] ∧
      planStep ctx i inst (states i) = some (act, states (i + 1)) ∧
      StepFacts ctx i inst (states i) act (states (i + 1)) := by
  obtain ⟨act, found, stepped⟩ := run.steps i inst get
  exact ⟨act, found, still act (List.mem_of_getElem? found), stepped,
    plan_step_facts ctx i inst _ _ act stepped⟩

theorem live_resident (run : Analysis program pinned ctx plan acts states)
    (still : ∀ act ∈ acts, act.evict = []) (i : Nat) (bound : i ≤ program.instructions.length) :
    (states i).resident.toFinset = liveBefore program pinned i := by
  induction i with
  | zero =>
      rw [run.start]
      rfl
  | succ i induction =>
      have get := List.getElem?_eq_getElem (show i < program.instructions.length by omega)
      obtain ⟨act, -, evictless, -, facts⟩ := still_step run still get
      have freed : act.free.toFinset = freedAfter program pinned i program.instructions[i] := by
        ext id
        rw [List.mem_toFinset, facts.free]
        exact mem_freed_after run.valid run.uses run.pins get id
      rw [after_resident facts, replay_moves, evictless_dispatch facts evictless, freed,
        induction (by omega), liveBefore, get]

theorem request_live (run : Analysis program pinned ctx plan acts states)
    (still : ∀ act ∈ acts, act.evict = []) {i : Nat} {inst : FhnInstruction}
    (get : program.instructions[i]? = some inst) :
    (states i).residentUnits + incomingUnits ctx (states i) inst =
      UInt64.ofNat (costOf ctx (liveBefore program pinned i ∪ workingIds inst)) := by
  have bound := (List.getElem?_eq_some_iff.mp get).1
  rw [first_request_units run.valid get (device_invariant run i bound.le)
    (units_exact run i bound.le), live_resident run still i bound.le, working_ids_eq]

theorem running_max_le (mark : Nat → Nat) (value : Nat → FhnInstruction → Nat) (bound : Nat)
    (first : mark 0 = 0)
    (next : ∀ i inst, program.instructions[i]? = some inst →
      mark (i + 1) = max (mark i) (value i inst)) :
    mark program.instructions.length ≤ bound ↔
      ∀ i inst, program.instructions[i]? = some inst → value i inst ≤ bound := by
  have upTo : ∀ n, n ≤ program.instructions.length → (mark n ≤ bound ↔
      ∀ i inst, i < n → program.instructions[i]? = some inst → value i inst ≤ bound) := by
    intro n inside
    induction n with
    | zero =>
        rw [first]
        constructor
        · intro _ i inst early
          omega
        · intro _
          exact Nat.zero_le bound
    | succ n induction =>
        have get := List.getElem?_eq_getElem (show n < program.instructions.length by omega)
        rw [next n _ get, max_le_iff, induction (by omega)]
        constructor
        · intro both i inst early here
          by_cases last : i = n
          · rw [last, get] at here
            cases here
            rw [last]
            exact both.2
          · exact both.1 i inst (by omega) here
        · intro all
          exact ⟨fun i inst early => all i inst (by omega), all n _ (by omega) get⟩
  rw [upTo _ (le_refl _)]
  constructor
  · intro all i inst get
    exact all i inst (List.getElem?_eq_some_iff.mp get).1 get
  · intro all i inst _ get
    exact all i inst get

end Runs

section Marks

variable {program : FhnProgram} {pinned : List Nat} {policy : FhnEvictionPolicy}
  {model : Option FhnLevelModel} {levelOf : Nat → Option Int} {deviceBudget : UInt64}
  {plan : FhnMovementPlan} {acts : List FhnMovementActions} {states : Nat → PlanState}

theorem id_cost_eq (leveled : levelTable model program = some levelOf) (ids : Finset Nat) :
    costOf (planContext (usePositions program) levelOf pinned deviceBudget policy model) ids =
      ∑ id ∈ ids, idCost program model id := by
  simp only [costOf, planContext, idCost, leveled]

/-- The mark is the largest live set the run comes to, as the counter holds it. -/
theorem high_water_le_iff (leveled : levelTable model program = some levelOf)
    (run : Analysis program pinned
      (planContext (usePositions program) levelOf pinned deviceBudget policy model) plan acts
      states)
    (still : ∀ act ∈ acts, act.evict = []) (representable : Representable program)
    (limit : UInt64) :
    highWaterMark model plan ≤ limit ↔
      ∀ i inst, program.instructions[i]? = some inst →
        wrappedSize program model (liveBefore program pinned i ∪ workingIds inst) ≤ limit := by
  have measured (i : Nat) (inst : FhnInstruction) (get : program.instructions[i]? = some inst) :
      ((states i).residentUnits + incomingUnits
        (planContext (usePositions program) levelOf pinned deviceBudget policy model)
        (states i) inst) =
      wrappedSize program model (liveBefore program pinned i ∪ workingIds inst) := by
    rw [request_live run still get, id_cost_eq leveled, wrappedSize]
  simp only [UInt64.le_iff_toNat_le]
  cases model with
  | some declared =>
      rw [highWaterMark, Option.isSome_some, if_pos rfl, run.stats]
      apply running_max_le (fun i => (states i).stats.highWaterBytes.toNat)
        (fun i inst => (wrappedSize program (some declared)
          (liveBefore program pinned i ∪ workingIds inst)).toNat)
      · rw [run.start]
        rfl
      · intro i inst get
        obtain ⟨act, -, evictless, -, facts⟩ := still_step run still get
        have high := (step_stats facts).2.2.2.2
        have bytes : (planContext (usePositions program) levelOf pinned deviceBudget policy
            (some declared)).byteMode = true := rfl
        rw [high, if_pos bytes, loaded_units facts evictless, measured i inst get,
          UInt64.toNat_max]
  | none =>
      rw [highWaterMark, if_neg (by simp), run.stats, UInt32.toNat_toUInt64]
      apply running_max_le (fun i => (states i).stats.highWater.toNat)
        (fun i inst => (wrappedSize program none
          (liveBefore program pinned i ∪ workingIds inst)).toNat)
      · rw [run.start]
        rfl
      · intro i inst get
        obtain ⟨act, -, evictless, -, facts⟩ := still_step run still get
        have bound := (List.getElem?_eq_some_iff.mp get).1
        have high := (step_stats facts).2.2.2.1
        have slots : ∑ id ∈ liveBefore program pinned i ∪ workingIds inst,
            idCost program none id = (liveBefore program pinned i ∪ workingIds inst).card := by
          rw [Finset.card_eq_sum_ones]
          rfl
        have defined := Finset.card_le_card (resident_defined run get)
        rw [live_resident run still i bound.le, working_ids_eq] at defined
        have few := representable_card run.valid representable
        rw [high, evictless_dispatch facts evictless, live_resident run still i bound.le,
          UInt32.toNat_max, UInt32.toNat_ofNat', wrappedSize, slots, UInt64.toNat_ofNat',
          Nat.mod_eq_of_lt (by omega), Nat.mod_eq_of_lt (by omega)]

end Marks

section Lockstep

variable {program : FhnProgram} {pinned : List Nat} {policy : FhnEvictionPolicy}
  {model : Option FhnLevelModel} {levelOf : Nat → Option Int}

/-- Two budgets whose runs never evict make the same plan. -/
theorem lockstep {source target : UInt64} {plan : FhnMovementPlan}
    {acts : List FhnMovementActions} {states : Nat → PlanState}
    (leveled : levelTable model program = some levelOf)
    (run : Analysis program pinned
      (planContext (usePositions program) levelOf pinned source policy model) plan acts states)
    (still : ∀ act ∈ acts, act.evict = [])
    (roomy : ∀ (i : Nat) inst, program.instructions[i]? = some inst →
      makeRoom (planContext (usePositions program) levelOf pinned target policy model) (i : Int)
        inst (states i) = some ([], states i)) :
    analyze program pinned target policy model = some plan := by
  have prepared := (prepare_iff program model (usePositions program) levelOf).mpr
    ⟨run.valid, rfl, leveled⟩
  have looped := plan_loop_of_steps
    (planContext (usePositions program) levelOf pinned target policy model) program.instructions 0
    acts states run.length (by
      intro i inst get
      obtain ⟨act, found, evictless, stepped, facts⟩ := still_step run still get
      refine ⟨act, found, ?_⟩
      rw [Nat.zero_add, ← stepped]
      exact plan_step_roomy (planContext (usePositions program) levelOf pinned source policy model)
        i inst (states i) target (room_unchanged facts evictless) (roomy i inst get))
  rw [run.start] at looped
  have actions := run.actions
  have stats := run.stats
  simp only [analyze, prepared, looped, Option.bind_eq_bind, Option.bind_some]
  cases plan with
  | mk planActions planStats =>
      simp only at actions stats
      rw [actions, stats]
      rfl

theorem unlimited_still {plan : FhnMovementPlan} {acts : List FhnMovementActions}
    {states : Nat → PlanState}
    (run : Analysis program pinned
      (planContext (usePositions program) levelOf pinned 0 policy model) plan acts states) :
    ∀ act ∈ acts, act.evict = [] := by
  intro act member
  obtain ⟨i, found⟩ := List.mem_iff_getElem?.mp member
  have bound : i < program.instructions.length := by
    rw [← run.length]
    exact (List.getElem?_eq_some_iff.mp found).1
  obtain ⟨raw, listed, facts⟩ := analysis_step run i _ (List.getElem?_eq_getElem bound)
  rw [found] at listed
  cases listed
  obtain ⟨roomy, made⟩ := facts.room
  rw [unlimited_room _ i _ _ rfl, Option.some.injEq, Prod.mk.injEq] at made
  exact made.1.symm

theorem working_wrapped {deviceBudget : UInt64}
    (leveled : levelTable model program = some levelOf) (inst : FhnInstruction) :
    workingUnits (planContext (usePositions program) levelOf pinned deviceBudget policy model)
        inst =
      wrappedSize program model (workingIds inst) := by
  rw [workingUnits, sum_units_nodup _ _ (workingSet inst).nodup, UInt64.zero_add,
    to_finset_elems, id_cost_eq leveled, working_ids_eq, wrappedSize]

theorem enough_of_mark {deviceBudget : UInt64} {plan : FhnMovementPlan}
    {acts : List FhnMovementActions} {states : Nat → PlanState}
    (leveled : levelTable model program = some levelOf)
    (run : Analysis program pinned
      (planContext (usePositions program) levelOf pinned 0 policy model) plan acts states)
    (representable : Representable program) (limited : 0 < deviceBudget)
    (mark : highWaterMark model plan ≤ deviceBudget)
    (working : ∀ inst ∈ program.instructions,
      wrappedSize program model (workingIds inst) ≤ deviceBudget) :
    analyze program pinned deviceBudget policy model = some plan := by
  have still := unlimited_still run
  have measured := (high_water_le_iff leveled run still representable deviceBudget).mp mark
  apply lockstep leveled run still
  intro i inst get
  apply limited_room _ i inst (states i) limited
  · rw [working_wrapped leveled]
    exact working inst (List.mem_of_getElem? get)
  · have request := request_live run still get
    rw [id_cost_eq leveled] at request
    have here := measured i inst get
    rw [wrappedSize, ← request] at here
    exact here

/-- A plan that evicts nothing had the whole mark within its budget. -/
theorem mark_within {deviceBudget : UInt64} {plan unlimited : FhnMovementPlan}
    (representable : Representable program) (limited : 0 < deviceBudget)
    (accepted : analyze program pinned 0 policy model = some unlimited)
    (analyzed : analyze program pinned deviceBudget policy model = some plan)
    (still : ∀ act ∈ plan.actions, act.evict = []) :
    highWaterMark model unlimited ≤ deviceBudget := by
  obtain ⟨levelOf, acts, states, leveled, run⟩ := analyze_run analyzed
  have quiet := (plan_evictless_iff run).mp still
  have same : analyze program pinned 0 policy model = some plan := by
    apply lockstep leveled run quiet
    intro i inst get
    exact unlimited_room _ i inst (states i) rfl
  rw [accepted, Option.some.injEq] at same
  rw [same]
  apply (high_water_le_iff leveled run quiet representable deviceBudget).mpr
  intro i inst get
  obtain ⟨act, -, evictless, -, facts⟩ := still_step run quiet get
  have within := dispatch_units facts limited
  rw [loaded_units facts evictless, request_live run quiet get, id_cost_eq leveled] at within
  exact within

end Lockstep

/-- No sum wraps when all sizes together stay below 2^64. -/
theorem small_totals_below_peak {program : FhnProgram} {pinned : List Nat}
    {model : Option FhnLevelModel} (valid : SsaValid program)
    (total : ∑ id ∈ program.definedIds.toFinset, idCost program model id < 2 ^ 64)
    (live : ∀ k, liveBefore program pinned k ⊆ program.definedIds.toFinset) :
    WorkingBelowPeak program pinned model := by
  have exact (ids : Finset Nat) (defined : ids ⊆ program.definedIds.toFinset) :
      (wrappedSize program model ids).toNat = ∑ id ∈ ids, idCost program model id := by
    rw [wrappedSize]
    apply of_nat_exact
    exact lt_of_le_of_lt (Finset.sum_le_sum_of_subset defined) total
  intro inst member
  obtain ⟨k, get⟩ := List.mem_iff_getElem?.mp member
  have working : workingIds inst ⊆ program.definedIds.toFinset := by
    intro id needed
    exact List.mem_toFinset.mpr (working_ids_defined valid member id needed)
  apply Or.inr
  refine ⟨k, inst, get, ?_⟩
  rw [UInt64.le_iff_toNat_le, exact _ working, exact _ (Finset.union_subset (live k) working)]
  exact Finset.sum_le_sum_of_subset Finset.subset_union_right

theorem live_defined {program : FhnProgram} (valid : SsaValid program) (pinned : List Nat)
    (k : Nat) : liveBefore program pinned k ⊆ program.definedIds.toFinset := by
  induction k with
  | zero => exact Finset.empty_subset _
  | succ k induction =>
      rw [liveBefore]
      cases get : program.instructions[k]? with
      | none => exact induction
      | some inst =>
          apply Finset.sdiff_subset.trans
          apply Finset.union_subset induction
          intro id needed
          exact List.mem_toFinset.mpr
            (working_ids_defined valid (List.mem_of_getElem? get) id needed)

theorem to_nat_pred {units : UInt64} (above : 1 < units) : (units - 1).toNat + 1 = units.toNat := by
  have nat := UInt64.lt_iff_toNat_lt.mp above
  have one : (1 : UInt64).toNat = 1 := rfl
  rw [UInt64.toNat_sub_of_le]
  · omega
  · rw [UInt64.le_iff_toNat_le]
    exact nat.le

theorem threshold_of_working {program : FhnProgram} {pinned : List Nat}
    {policy : FhnEvictionPolicy} {model : Option FhnLevelModel} {unlimited : FhnMovementPlan}
    (representable : Representable program)
    (accepted : analyze program pinned 0 policy model = some unlimited)
    (working : WorkingBelowPeak program pinned model) :
    ThresholdExact program pinned policy model unlimited := by
  obtain ⟨levelOf, acts, states, leveled, run⟩ := analyze_run accepted
  have still := unlimited_still run
  constructor
  · exact (plan_evictless_iff run).mpr still
  · intro deviceBudget limited mark
    apply enough_of_mark leveled run representable limited mark
    intro inst member
    cases working inst member with
    | inl single =>
        apply UInt64.le_trans single
        rw [UInt64.le_iff_toNat_le]
        exact UInt64.lt_iff_toNat_lt.mp limited
    | inr covered =>
        obtain ⟨k, other, get, smaller⟩ := covered
        have measured := (high_water_le_iff leveled run still representable deviceBudget).mp mark
        exact UInt64.le_trans smaller (measured k other get)
  · intro deviceBudget limited small plan analyzed
    by_contra quiet
    push Not at quiet
    have within := mark_within representable limited accepted analyzed quiet
    exact UInt64.not_le.mpr small within

/-- The mark is the exact threshold if and only if every working set stays below it. -/
theorem threshold_exact_iff (program : FhnProgram) (pinned : List Nat)
    (policy : FhnEvictionPolicy) (model : Option FhnLevelModel) (unlimited : FhnMovementPlan)
    (representable : Representable program)
    (accepted : analyze program pinned 0 policy model = some unlimited) :
    ThresholdExact program pinned policy model unlimited ↔
      WorkingBelowPeak program pinned model := by
  obtain ⟨levelOf, acts, states, leveled, run⟩ := analyze_run accepted
  have still := unlimited_still run
  constructor
  · intro exact inst member
    by_contra large
    rw [not_or] at large
    have pred := to_nat_pred (UInt64.not_le.mp large.1)
    have above := UInt64.lt_iff_toNat_lt.mp (UInt64.not_le.mp large.1)
    have one : (1 : UInt64).toNat = 1 := rfl
    have positive : 0 < wrappedSize program model (workingIds inst) - 1 := by
      rw [UInt64.lt_iff_toNat_lt, UInt64.toNat_zero]
      omega
    have mark : highWaterMark model unlimited ≤
        wrappedSize program model (workingIds inst) - 1 := by
      apply (high_water_le_iff leveled run still representable _).mpr
      intro k other get
      by_contra covered
      have reaches := UInt64.lt_iff_toNat_lt.mp (UInt64.not_le.mp covered)
      apply large.2
      refine ⟨k, other, get, ?_⟩
      rw [UInt64.le_iff_toNat_le]
      omega
    have again := exact.enough _ positive mark
    obtain ⟨otherLevels, otherActs, otherStates, otherLeveled, otherRun⟩ := analyze_run again
    obtain ⟨i, get⟩ := List.mem_iff_getElem?.mp member
    obtain ⟨act, -, facts⟩ := analysis_step otherRun i inst get
    have checked := room_working facts positive
    rw [working_wrapped otherLeveled] at checked
    have self : wrappedSize program model (workingIds inst) ≤
        wrappedSize program model (workingIds inst) - 1 := checked
    rw [UInt64.le_iff_toNat_le] at self
    omega
  · intro working
    exact threshold_of_working representable accepted working

/-- Without a budget the sample never holds more than twenty-four bytes. -/
def sumOfProductsUnlimited : FhnMovementPlan where
  actions :=
    [{ evict := [], alloc := [10], prefetch := [1, 2], free := [1] },
      { evict := [], alloc := [11], prefetch := [3], free := [2, 3] },
      { evict := [], alloc := [12], prefetch := [], free := [10, 11] }]
  stats :=
    { highWater := 4, allocCount := 3, prefetchCount := 3, evictCount := 0,
      highWaterBytes := 24 }

theorem threshold_sum_of_products :
    ThresholdExact sumOfProducts [12] .belady (some twoLevels) sumOfProductsUnlimited := by
  have accepted : analyze sumOfProducts [12] 0 .belady (some twoLevels) =
      some sumOfProductsUnlimited := by
    decide
  apply (threshold_exact_iff sumOfProducts [12] .belady (some twoLevels) sumOfProductsUnlimited
    (by decide) accepted).mpr
  have valid := analyze_valid accepted
  apply small_totals_below_peak valid _ (live_defined valid [12])
  decide

/-- Two scaled products of quarter-range buffers; the first one's stay pinned. -/
def quarterProducts : FhnProgram where
  instructions :=
    [{ opcode := .multCS, resultId := 10, operands := ![1, 0, 0, 0] },
      { opcode := .multCC, resultId := 11, operands := ![2, 3, 0, 0] }]
  inputIds := [1, 2, 3]

/-- A quarter of the address space at the only level there is. -/
def quarterLevel : FhnLevelModel where
  bytesByLevel := [4611686018427387904]
  effects := fun _ => some .preserve

def quarterProductsPlan : FhnMovementPlan where
  actions :=
    [{ evict := [], alloc := [10], prefetch := [1], free := [] },
      { evict := [], alloc := [11], prefetch := [2, 3], free := [2, 3, 11] }]
  stats :=
    { highWater := 5, allocCount := 2, prefetchCount := 3, evictCount := 0,
      highWaterBytes := 9223372036854775808 }

/-- Five quarters wrap to one, so the recorded peak is the first product's two;
a budget of that size rejects the second product's three. -/
theorem wrapped_peak_rejects :
    Representable quarterProducts ∧
      analyze quarterProducts [1, 10] 0 .belady (some quarterLevel) = some quarterProductsPlan ∧
      highWaterMark (some quarterLevel) quarterProductsPlan = 9223372036854775808 ∧
      analyze quarterProducts [1, 10] 9223372036854775808 .belady (some quarterLevel) = none := by
  refine ⟨?_, ?_, ?_, ?_⟩
  · decide
  · decide +kernel
  · rfl
  · decide +kernel

/-- Slots never wrap: in slot mode the mark is always the exact threshold. -/
theorem slot_threshold_exact (program : FhnProgram) (pinned : List Nat)
    (policy : FhnEvictionPolicy) (unlimited : FhnMovementPlan)
    (representable : Representable program)
    (accepted : analyze program pinned 0 policy none = some unlimited) :
    ThresholdExact program pinned policy none unlimited := by
  have valid := analyze_valid accepted
  have working : WorkingBelowPeak program pinned none := by
    apply small_totals_below_peak valid _ (live_defined valid pinned)
    have slots : ∑ id ∈ program.definedIds.toFinset, idCost program none id =
        program.definedIds.toFinset.card := by
      rw [Finset.card_eq_sum_ones]
      rfl
    have few := representable_card valid representable
    omega
  exact threshold_of_working representable accepted working

end Fhenomenon.HighWaterThreshold

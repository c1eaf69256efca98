import Fhenomenon.PlannerRuns
import Fhenomenon.PlannerThreshold

/-!
# Byte sums that wrap

Sizes are only checked to be non-zero, and the loop adds them in 64-bit
arithmetic. The counters are the true integer sums exactly as long as every
sum the loop asks for stays below 2^64; beyond that the budget can be passed
by a set of any size.
-/

namespace Fhenomenon.ByteAccounting

open Fhenomenon.Lib Fhenomenon.InstructionStream Fhenomenon.MovementPlanner
open Fhenomenon.PlannerTables Fhenomenon.PlannerSteps Fhenomenon.PlanLifetimes
open Fhenomenon.DeviceReplay Fhenomenon.PlanReplay Fhenomenon.PlanBudget
open Fhenomenon.PlanAcceptance Fhenomenon.PlannerRuns Fhenomenon.PlannerThreshold

def workingUnits (ctx : PlanContext) (inst : FhnInstruction) : UInt64 :=
  sumUnits ctx.cost (workingSet inst).elems 0

/-- `state` is what the loop holds when it comes to instruction `i`. -/
def Reached (program : FhnProgram) (ctx : PlanContext) (i : Nat) (inst : FhnInstruction)
    (state : PlanState) : Prop :=
  program.instructions[i]? = some inst ∧
    ∃ acts, planLoop ctx (program.instructions.take i) 0 {} = some (acts, state)

/-- Every sum formed at one instruction is the integer sum of the sizes. -/
structure SumsExact (ctx : PlanContext) (i : Nat) (inst : FhnInstruction) (state : PlanState) :
    Prop where
  resident : state.residentUnits.toNat = costOf ctx state.resident.toFinset
  working : (workingUnits ctx inst).toNat = costOf ctx (workingSet inst).toFinset
  incoming : workingUnits ctx inst ≤ ctx.deviceBudget →
    (incomingUnits ctx state inst).toNat = costOf ctx (incomingIds state inst)
  /-- At every test of the eviction loop, whoever has left by then. -/
  request : workingUnits ctx inst ≤ ctx.deviceBudget → ∀ victims : List Nat, victims.Nodup →
    (∀ id ∈ victims, id ∈ state.resident.elems ∧ id ∉ (workingSet inst).elems) →
      (victims.foldl (fun st id => st.evict ctx id) state).residentUnits.toNat =
          costOf ctx (state.resident.toFinset \ victims.toFinset) ∧
        ((victims.foldl (fun st id => st.evict ctx id) state).residentUnits +
            incomingUnits ctx state inst).toNat =
          costOf ctx (state.resident.toFinset \ victims.toFinset) +
            costOf ctx (incomingIds state inst)
  /-- After every single update the instruction's actions make. -/
  updates : ∀ act next, planStep ctx i inst state = some (act, next) →
    ∀ part, part <+: moves act →
      (part.foldl (applyMove ctx (i : Int)) state).residentUnits.toNat =
        costOf ctx (replay state.resident.toFinset part)

/-- The sums asked for at one instruction are below 2^64. -/
def SumsBelowLimit (ctx : PlanContext) (inst : FhnInstruction) (state : PlanState) : Prop :=
  costOf ctx (workingSet inst).toFinset < 2 ^ 64 ∧
    (costOf ctx (workingSet inst).toFinset ≤ ctx.deviceBudget.toNat →
      costOf ctx (state.resident.toFinset ∪ (workingSet inst).toFinset) < 2 ^ 64)

section Instruction

variable {program : FhnProgram} {pinned : List Nat} {ctx : PlanContext} {i : Nat}
  {inst : FhnInstruction} {state : PlanState}

theorem of_nat_exact {total : Nat} (below : total < 2 ^ 64) :
    (UInt64.ofNat total).toNat = total := by
  rw [UInt64.toNat_ofNat']
  exact Nat.mod_eq_of_lt below

theorem below_of_exact {units : UInt64} {total : Nat} (exact : units.toNat = total) :
    total < 2 ^ 64 := by
  rw [← exact]
  exact units.toNat_lt

theorem sums_exact_of_below (valid : SsaValid program)
    (get : program.instructions[i]? = some inst)
    (holds : DeviceInvariant program pinned i state) (exact : UnitsExact ctx state)
    (resident : costOf ctx state.resident.toFinset < 2 ^ 64) (limited : 0 < ctx.deviceBudget)
    (below : SumsBelowLimit ctx inst state) : SumsExact ctx i inst state := by
  have working : (workingUnits ctx inst).toNat = costOf ctx (workingSet inst).toFinset :=
    working_units inst below.1
  have together (small : workingUnits ctx inst ≤ ctx.deviceBudget) :
      costOf ctx (state.resident.toFinset ∪ (workingSet inst).toFinset) < 2 ^ 64 := by
    apply below.2
    rw [← working]
    exact UInt64.le_iff_toNat_le.mp small
  constructor
  · exact units_to_nat ctx state exact resident
  · exact working
  · intro small
    rw [incoming_units_eq valid get]
    apply of_nat_exact
    apply lt_of_le_of_lt (cost_of_mono ctx incoming_working)
    exact below.1
  · intro small victims nodup chosen
    have held : ∀ id ∈ victims, id ∈ state.resident.elems := fun id victim => (chosen id victim).1
    have evicted := evicted_units exact nodup held
    have fewer : costOf ctx (state.resident.toFinset \ victims.toFinset) < 2 ^ 64 :=
      lt_of_le_of_lt (cost_of_mono ctx Finset.sdiff_subset) resident
    constructor
    · rw [← evicted.1]
      apply units_to_nat ctx _ evicted.2
      rw [evicted.1]
      exact fewer
    · have apart := (incoming_apart valid get holds).mono_left
        (Finset.sdiff_subset : state.resident.toFinset \ victims.toFinset ⊆ _)
      have sum := Finset.sum_union (f := fun id => (ctx.cost id).toNat) apart
      rw [request_units valid get holds exact nodup held]
      rw [of_nat_exact]
      · exact sum
      · apply lt_of_le_of_lt (cost_of_mono ctx _) (together small)
        rw [← resident_and_incoming]
        exact Finset.union_subset_union_left Finset.sdiff_subset
  · intro act next stepped part early
    have facts := plan_step_facts ctx i inst state next act stepped
    have small : workingUnits ctx inst ≤ ctx.deviceBudget := by
      obtain ⟨roomy, made⟩ := facts.room
      have room := make_room_spec ctx i inst state roomy act.evict made
      cases room with
      | inl unlimited => exact absurd limited (by simp [unlimited.1])
      | inr checked => exact checked.2.1
    obtain ⟨rest, whole⟩ := early
    have legal : Legal state.resident.toFinset part := by
      have all := step_legal valid get facts holds
      rw [← whole, legal_append] at all
      exact all.1
    have counted := units_exact_fold ctx i part state legal exact
    rw [← fold_resident ctx i]
    apply units_to_nat ctx _ counted
    rw [fold_resident]
    apply lt_of_le_of_lt (cost_of_mono ctx _) (together small)
    cases replay_part_subset _ act part ⟨rest, whole⟩ with
    | inl before => exact before.trans Finset.subset_union_left
    | inr loaded => exact loaded.trans (dispatch_subset (step_choices facts))

theorem below_of_sums_exact (valid : SsaValid program)
    (get : program.instructions[i]? = some inst)
    (holds : DeviceInvariant program pinned i state)
    (sums : SumsExact ctx i inst state) : SumsBelowLimit ctx inst state := by
  apply And.intro (below_of_exact sums.working)
  intro small
  rw [← sums.working, ← UInt64.le_iff_toNat_le] at small
  have first := (sums.request small [] List.nodup_nil (fun id none => by cases none)).2
  rw [List.toFinset_nil, Finset.sdiff_empty] at first
  have total := below_of_exact first
  have sum := Finset.sum_union (f := fun id => (ctx.cost id).toNat) (incoming_apart valid get holds)
  rw [resident_and_incoming] at sum
  rw [costOf, sum]
  exact total

end Instruction

/-- The byte sums of an analysis are the true ones, and no returned plan ever
holds more than the budget. -/
def AccountingExact (program : FhnProgram) (pinned : List Nat) (deviceBudget : UInt64)
    (policy : FhnEvictionPolicy) (declared : FhnLevelModel) : Prop :=
  (∀ uses levelOf, prepare program (some declared) = some (uses, levelOf) →
    ∀ i inst state,
      Reached program (planContext uses levelOf pinned deviceBudget policy (some declared)) i inst
        state →
      SumsExact (planContext uses levelOf pinned deviceBudget policy (some declared)) i inst
        state) ∧
  ∀ plan, analyze program pinned deviceBudget policy (some declared) = some plan →
    ∀ ms, ms <+: allMoves plan →
      ∑ id ∈ replay ∅ ms, idCost program (some declared) id ≤ deviceBudget.toNat

/-- At every instruction the loop comes to, the sums stay below 2^64. -/
def SumsStayBelow (program : FhnProgram) (pinned : List Nat) (deviceBudget : UInt64)
    (policy : FhnEvictionPolicy) (declared : FhnLevelModel) : Prop :=
  ∀ uses levelOf, prepare program (some declared) = some (uses, levelOf) →
    ∀ i inst state,
      Reached program (planContext uses levelOf pinned deviceBudget policy (some declared)) i inst
        state →
      SumsBelowLimit (planContext uses levelOf pinned deviceBudget policy (some declared)) inst
        state

section Runs

variable {program : FhnProgram} {pinned : List Nat} {ctx : PlanContext} {i : Nat}
  {inst : FhnInstruction} {state : PlanState}

theorem planned_working_fits {act : FhnMovementActions} {next : PlanState}
    (limited : 0 < ctx.deviceBudget) (below : SumsBelowLimit ctx inst state)
    (stepped : planStep ctx i inst state = some (act, next)) :
    costOf ctx (workingSet inst).toFinset ≤ ctx.deviceBudget.toNat := by
  have facts := plan_step_facts ctx i inst state next act stepped
  obtain ⟨roomy, made⟩ := facts.room
  have room := make_room_spec ctx i inst state roomy act.evict made
  cases room with
  | inl unlimited => exact absurd limited (by simp [unlimited.1])
  | inr checked =>
      have working : (workingUnits ctx inst).toNat = costOf ctx (workingSet inst).toFinset :=
        working_units inst below.1
      rw [← working]
      exact UInt64.le_iff_toNat_le.mp checked.2.1

theorem next_resident_below {act : FhnMovementActions} {next : PlanState}
    (limited : 0 < ctx.deviceBudget) (below : SumsBelowLimit ctx inst state)
    (stepped : planStep ctx i inst state = some (act, next)) :
    costOf ctx next.resident.toFinset < 2 ^ 64 := by
  have facts := plan_step_facts ctx i inst state next act stepped
  apply lt_of_le_of_lt (cost_of_mono ctx _) (below.2 (planned_working_fits limited below stepped))
  rw [after_resident facts, replay_moves]
  exact Finset.sdiff_subset.trans (dispatch_subset (step_choices facts))

theorem reached_resident_below (limited : 0 < ctx.deviceBudget)
    (below : ∀ i inst state, Reached program ctx i inst state → SumsBelowLimit ctx inst state)
    (reached : Reached program ctx i inst state) :
    costOf ctx state.resident.toFinset < 2 ^ 64 := by
  obtain ⟨get, acts, looped⟩ := reached
  have bound := (List.getElem?_eq_some_iff.mp get).1
  cases i with
  | zero =>
      rw [List.take_zero, planLoop, Option.some.injEq, Prod.mk.injEq] at looped
      rw [← looped.2]
      exact Nat.two_pow_pos 64
  | succ i =>
      obtain ⟨states, -, last, before, steps⟩ := reached_chain (i + 1) (by omega) looped
      have previous := List.getElem?_eq_getElem (show i < program.instructions.length by omega)
      obtain ⟨act, stepped⟩ := steps i _ (by omega) previous
      rw [← last]
      exact next_resident_below limited
        (below i _ _ ⟨previous, _, before i (by omega)⟩) stepped

theorem plan_within_budget {plan : FhnMovementPlan} {acts : List FhnMovementActions}
    {states : Nat → PlanState} (run : Analysis program pinned ctx plan acts states)
    (limited : 0 < ctx.deviceBudget)
    (below : ∀ i inst state, Reached program ctx i inst state → SumsBelowLimit ctx inst state)
    (ms : List Move) (moment : ms <+: allMoves plan) :
    ∑ id ∈ replay ∅ ms, (ctx.cost id).toNat ≤ ctx.deviceBudget.toNat := by
  have fits : SumsFit program ctx states := by
    intro i inst get
    have bound := (List.getElem?_eq_some_iff.mp get).1
    have here := below i inst (states i) ⟨get, _, analysis_reaches run i (by omega)⟩
    obtain ⟨act, -, stepped⟩ := run.steps i inst get
    exact here.2 (planned_working_fits limited here stepped)
  apply moment_bound run _ _ _ _ ms moment
  · intro i bound
    exact resident_within run fits limited i (by omega)
  · intro i inst act get facts
    exact dispatch_within run fits limited get facts

end Runs

/-- The accounting is exact if and only if no sum the loop asks for reaches 2^64. -/
theorem accounting_exact_iff (program : FhnProgram) (pinned : List Nat) (deviceBudget : UInt64)
    (policy : FhnEvictionPolicy) (declared : FhnLevelModel) (limited : 0 < deviceBudget) :
    AccountingExact program pinned deviceBudget policy declared ↔
      SumsStayBelow program pinned deviceBudget policy declared := by
  constructor
  · intro accounting uses levelOf prepared i inst state reached
    have sums := accounting.1 uses levelOf prepared i inst state reached
    obtain ⟨valid, rfl, leveled⟩ := (prepare_iff program _ uses levelOf).mp prepared
    obtain ⟨get, acts, looped⟩ := reached
    have bound := (List.getElem?_eq_some_iff.mp get).1
    have invariants := reached_invariants valid rfl rfl i bound.le looped
    exact below_of_sums_exact valid get invariants.1 sums
  · intro below
    constructor
    · intro uses levelOf prepared i inst state reached
      have here := below uses levelOf prepared
      obtain ⟨valid, rfl, leveled⟩ := (prepare_iff program _ uses levelOf).mp prepared
      have resident := reached_resident_below limited here reached
      obtain ⟨get, acts, looped⟩ := reached
      have bound := (List.getElem?_eq_some_iff.mp get).1
      have invariants := reached_invariants valid rfl rfl i bound.le looped
      exact sums_exact_of_below valid get invariants.1 invariants.2 resident limited
        (here i inst state ⟨get, acts, looped⟩)
    · intro plan analyzed ms moment
      obtain ⟨levelOf, acts, states, leveled, run⟩ := analyze_run analyzed
      have prepared := (prepare_iff program (some declared) (usePositions program) levelOf).mpr
        ⟨run.valid, rfl, leveled⟩
      have within := plan_within_budget run limited (below _ levelOf prepared) ms moment
      simpa only [idCost, leveled, planContext] using within

/-- When the sizes of all ids together stay below 2^64, so does every sum. -/
theorem small_totals_stay_below (program : FhnProgram) (pinned : List Nat)
    (deviceBudget : UInt64) (policy : FhnEvictionPolicy) (declared : FhnLevelModel)
    (total : ∑ id ∈ program.definedIds.toFinset, idCost program (some declared) id < 2 ^ 64) :
    SumsStayBelow program pinned deviceBudget policy declared := by
  intro uses levelOf prepared i inst state reached
  obtain ⟨valid, rfl, leveled⟩ := (prepare_iff program _ uses levelOf).mp prepared
  obtain ⟨get, acts, looped⟩ := reached
  have bound := (List.getElem?_eq_some_iff.mp get).1
  have invariants := reached_invariants valid rfl rfl i bound.le looped
  have defined : state.resident.toFinset ⊆ program.definedIds.toFinset := by
    intro id held
    rw [OrderedSet.mem_to_finset] at held
    rw [List.mem_toFinset]
    exact defined_before_subset program i (invariants.1.defined id held)
  have whole : costOf (planContext (usePositions program) levelOf pinned deviceBudget policy
      (some declared)) program.definedIds.toFinset < 2 ^ 64 := by
    simpa only [costOf, planContext, idCost, leveled] using total
  constructor
  · exact lt_of_le_of_lt (cost_of_mono _ (working_defined valid get)) whole
  · intro small
    exact lt_of_le_of_lt (cost_of_mono _ (Finset.union_subset defined (working_defined valid get)))
      whole

/-- The two-level sample has exact sums at any budget. -/
theorem accounting_exact_sum_of_products :
    AccountingExact sumOfProducts [12] 20 .lru twoLevels := by
  apply (accounting_exact_iff sumOfProducts [12] 20 .lru twoLevels (by decide)).mpr
  apply small_totals_stay_below
  decide

def scaledCopy : FhnProgram where
  instructions := [{ opcode := .multCS, resultId := 2, operands := ![1, 0, 0, 0] }]
  inputIds := [1]

def vastLevel : FhnLevelModel where
  bytesByLevel := [9223372036854775808]
  effects := fun _ => some .preserve

def scaledCopyPlan : FhnMovementPlan where
  actions := [{ evict := [], alloc := [2], prefetch := [1], free := [1, 2] }]
  stats :=
    { highWater := 2, allocCount := 1, prefetchCount := 1, evictCount := 0, highWaterBytes := 0 }

/-- One byte of budget admits a plan that holds 2^64 bytes. -/
theorem one_byte_holds_everything :
    analyze scaledCopy [] 1 .belady (some vastLevel) = some scaledCopyPlan ∧
      [Move.alloc 2, Move.prefetch 1] <+: allMoves scaledCopyPlan ∧
      ∑ id ∈ replay ∅ [Move.alloc 2, Move.prefetch 1], idCost scaledCopy (some vastLevel) id =
        2 ^ 64 := by
  refine ⟨?_, ?_, ?_⟩
  · decide +kernel
  · decide
  · decide +kernel

end Fhenomenon.ByteAccounting

import Fhenomenon.HighWaterThreshold

/-!
# Flat models scale slot plans

With one size at every level and only preserving opcodes, byte mode is slot
mode times that size: every counter is scaled, every comparison with the scaled
budget decides as before, and the two runs never part.
-/

namespace Fhenomenon.FlatModelScaling

open Fhenomenon.Lib Fhenomenon.InstructionStream Fhenomenon.MovementPlanner
open Fhenomenon.PlannerTables Fhenomenon.PlannerSteps Fhenomenon.PlanLifetimes
open Fhenomenon.DeviceReplay Fhenomenon.PlanReplay Fhenomenon.PlanBudget
open Fhenomenon.PlanAcceptance Fhenomenon.PlanSoundness Fhenomenon.PlannerThreshold
open Fhenomenon.PlannerRuns Fhenomenon.ByteAccounting

/-- Every level of the model has the size `bytes`, and every opcode the program
uses preserves its level. -/
structure FlatModel (program : FhnProgram) (declared : FhnLevelModel) (bytes : UInt64) :
    Prop where
  fresh : 0 ≤ declared.freshLevel
  covered : declared.freshLevel.toNat + 1 ≤ declared.bytesByLevel.length
  sizes : ∀ size ∈ declared.bytesByLevel, size = bytes
  preserves : ∀ inst ∈ program.instructions, declared.effects inst.opcode = some .preserve

def scaleStats (bytes : UInt64) (stats : Stats) : Stats :=
  { stats with highWaterBytes := bytes * stats.highWater.toUInt64 }

def scaleState (bytes : UInt64) (state : PlanState) : PlanState :=
  { state with
    residentUnits := bytes * state.residentUnits
    stats := scaleStats bytes state.stats }

def scalePlan (bytes : UInt64) (plan : FhnMovementPlan) : FhnMovementPlan :=
  { plan with stats := scaleStats bytes plan.stats }

def scaleContext (bytes remainder : UInt64) (ctx : PlanContext) : PlanContext :=
  { ctx with
    cost := fun _ => bytes
    deviceBudget := bytes * ctx.deviceBudget + remainder
    byteMode := true }

section Levels

variable {program : FhnProgram} {declared : FhnLevelModel} {bytes : UInt64}

/-- No level other than the fresh one is ever assigned. -/
def OnlyFresh (declared : FhnLevelModel) (levelOf : Nat → Option Int) : Prop :=
  ∀ id level, levelOf id = some level → level = declared.freshLevel

theorem min_level_fresh {levelOf : Nat → Option Int} (only : OnlyFresh declared levelOf)
    (inst : FhnInstruction) : minOperandLevel declared levelOf inst = declared.freshLevel := by
  rw [minOperandLevel]
  induction inst.usedOperands with
  | nil => rfl
  | cons id rest induction =>
      have here : (levelOf id).getD declared.freshLevel = declared.freshLevel := by
        cases found : levelOf id with
        | none => rfl
        | some level => exact only id level found
      rw [List.foldl_cons, here, min_self]
      exact induction

theorem infer_fresh (fresh : 0 ≤ declared.freshLevel) (insts : List FhnInstruction)
    (preserves : ∀ inst ∈ insts, declared.effects inst.opcode = some .preserve)
    (levelOf : Nat → Option Int) (only : OnlyFresh declared levelOf) :
    ∃ table, inferResultLevels declared insts levelOf = some table ∧
      OnlyFresh declared table := by
  induction insts generalizing levelOf with
  | nil => exact ⟨levelOf, rfl, only⟩
  | cons inst rest induction =>
      have result : resultLevel declared levelOf inst = some declared.freshLevel := by
        have lowest := min_level_fresh only inst
        have effect := preserves inst List.mem_cons_self
        have inRange : ¬(declared.freshLevel < 0 ∨ declared.freshLevel > declared.freshLevel) := by
          omega
        simp only [resultLevel, lowest, effect, if_neg inRange]
      have next : OnlyFresh declared
          (Function.update levelOf inst.resultId (some declared.freshLevel)) := by
        intro id level found
        by_cases same : id = inst.resultId
        · rw [same, Function.update_self, Option.some.injEq] at found
          exact found.symm
        · rw [Function.update_of_ne same] at found
          exact only id level found
      rw [inferResultLevels, result]
      exact induction (fun other later => preserves other (List.mem_cons_of_mem inst later)) _ next

theorem flat_costs (flat : FlatModel program declared bytes) (positive : bytes ≠ 0) :
    ∃ levelOf, levelTable (some declared) program = some levelOf ∧
      unitCost (some declared) levelOf = fun _ => bytes := by
  have inputs : OnlyFresh declared (inputLevels declared program.inputIds) := by
    intro id level found
    rw [inputLevels] at found
    split_ifs at found
    cases found
    rfl
  obtain ⟨table, inferred, only⟩ :=
    infer_fresh flat.fresh program.instructions flat.preserves _ inputs
  have usable : validModel declared = true := by
    have nonzero : declared.bytesByLevel.all (· ≠ 0) = true := by
      rw [List.all_eq_true]
      intro size member
      rw [flat.sizes size member]
      exact decide_eq_true positive
    rw [validModel, decide_eq_true flat.fresh, decide_eq_true flat.covered, nonzero]
    rfl
  refine ⟨table, ?_, ?_⟩
  · rw [levelTable, inferLevels, if_pos usable]
    exact inferred
  · funext id
    have early : ((table id).getD 0).toNat < declared.bytesByLevel.length := by
      have covered := flat.covered
      cases found : table id with
      | none =>
          rw [Option.getD_none]
          have zero : (0 : Int).toNat = 0 := rfl
          omega
      | some level =>
          rw [Option.getD_some, only id level found]
          omega
    simp only [unitCost, List.getD_eq_getElem?_getD, List.getElem?_eq_getElem early,
      Option.getD_some]
    exact flat.sizes _ (List.getElem_mem early)

end Levels

section Scaling

variable {bytes remainder : UInt64}

theorem scaled_exact {units : UInt64} (below : bytes.toNat * units.toNat < 2 ^ 64) :
    (bytes * units).toNat = bytes.toNat * units.toNat := by
  rw [UInt64.toNat_mul]
  exact Nat.mod_eq_of_lt below

theorem scaled_budget {slots : UInt64}
    (budget : bytes.toNat * slots.toNat + remainder.toNat < 2 ^ 64) :
    (bytes * slots + remainder).toNat = bytes.toNat * slots.toNat + remainder.toNat := by
  rw [UInt64.toNat_add, scaled_exact (by omega)]
  exact Nat.mod_eq_of_lt budget

/-- The scaled budget separates the scaled sums where the budget separates the sums. -/
theorem scaled_exceeds {slots units : UInt64} (proper : remainder < bytes)
    (budget : bytes.toNat * slots.toNat + remainder.toNat < 2 ^ 64)
    (below : bytes.toNat * units.toNat < 2 ^ 64) :
    bytes * units > bytes * slots + remainder ↔ units > slots := by
  have smaller := UInt64.lt_iff_toNat_lt.mp proper
  rw [gt_iff_lt, gt_iff_lt, UInt64.lt_iff_toNat_lt, UInt64.lt_iff_toNat_lt, scaled_budget budget,
    scaled_exact below]
  constructor
  · intro exceeds
    by_contra within
    have scaled : bytes.toNat * units.toNat ≤ bytes.toNat * slots.toNat :=
      Nat.mul_le_mul_left _ (by omega)
    omega
  · intro exceeds
    have scaled : bytes.toNat * (slots.toNat + 1) ≤ bytes.toNat * units.toNat :=
      Nat.mul_le_mul_left _ (by omega)
    rw [Nat.mul_add, Nat.mul_one] at scaled
    omega

theorem scaled_sum (ids : List Nat) (start : UInt64) :
    sumUnits (fun _ => bytes) ids (bytes * start) = bytes * sumUnits (fun _ => 1) ids start := by
  induction ids generalizing start with
  | nil => rfl
  | cons id rest induction =>
      have left : sumUnits (fun _ => bytes) (id :: rest) (bytes * start) =
          sumUnits (fun _ => bytes) rest (bytes * start + bytes) := rfl
      have right : sumUnits (fun _ => 1) (id :: rest) start =
          sumUnits (fun _ => 1) rest (start + 1) := rfl
      rw [left, right, ← induction, UInt64.mul_add, UInt64.mul_one]

end Scaling

section Step

variable {ctx : PlanContext} {bytes remainder : UInt64}

theorem scan_scaled (key : Nat → WithTop Int) (working : OrderedSet Nat) (ids : List Nat)
    (best : Option (Nat × WithTop Int)) :
    scanVictim (scaleContext bytes remainder ctx) key working ids best =
      scanVictim ctx key working ids best := by
  induction ids generalizing best with
  | nil => rfl
  | cons id rest induction =>
      cases best with
      | none => simp only [scanVictim, induction]
      | some current =>
          cases current with
          | mk victim bestKey =>
              simp only [scanVictim, induction]
              rfl

theorem select_scaled (state : PlanState) (pos : Int) (working : OrderedSet Nat) :
    selectVictim (scaleContext bytes remainder ctx) (scaleState bytes state) pos working =
      selectVictim ctx state pos working := by
  rw [selectVictim, scan_scaled]
  rfl

variable (slots : ctx.cost = fun _ => 1)

include slots

theorem evict_scaled (state : PlanState) (victim : Nat) :
    (scaleState bytes state).evict (scaleContext bytes remainder ctx) victim =
      scaleState bytes (state.evict ctx victim) := by
  simp only [PlanState.evict, scaleState, scaleStats, scaleContext, slots, UInt64.mul_sub,
    UInt64.mul_one]

theorem allocate_scaled (state : PlanState) (pos : Int) (id : Nat) :
    (scaleState bytes state).allocate (scaleContext bytes remainder ctx) pos id =
      scaleState bytes (state.allocate ctx pos id) := by
  simp only [PlanState.allocate, scaleState, scaleStats, scaleContext, slots, UInt64.mul_add,
    UInt64.mul_one]

theorem prefetch_all_scaled (state : PlanState) (pos : Int) (ids : List Nat) :
    ids.foldl (fun st id => st.prefetch (scaleContext bytes remainder ctx) pos id)
        (scaleState bytes state) =
      scaleState bytes (ids.foldl (fun st id => st.prefetch ctx pos id) state) := by
  induction ids generalizing state with
  | nil => rfl
  | cons id rest induction =>
      have one : (scaleState bytes state).prefetch (scaleContext bytes remainder ctx) pos id =
          scaleState bytes (state.prefetch ctx pos id) := by
        simp only [PlanState.prefetch, scaleState, scaleStats, scaleContext, slots,
          UInt64.mul_add, UInt64.mul_one]
      rw [List.foldl_cons, one, induction, List.foldl_cons]

omit slots in
theorem touch_all_scaled (state : PlanState) (pos : Int) (ids : List Nat) :
    ids.foldl (fun st id => st.touch pos id) (scaleState bytes state) =
      scaleState bytes (ids.foldl (fun st id => st.touch pos id) state) := by
  induction ids generalizing state with
  | nil => rfl
  | cons id rest induction =>
      have one : (scaleState bytes state).touch pos id = scaleState bytes (state.touch pos id) :=
        rfl
      rw [List.foldl_cons, one, induction, List.foldl_cons]

theorem free_all_scaled (state : PlanState) (ids : List Nat) :
    ids.foldl (fun st id => st.free (scaleContext bytes remainder ctx) id)
        (scaleState bytes state) =
      scaleState bytes (ids.foldl (fun st id => st.free ctx id) state) := by
  induction ids generalizing state with
  | nil => rfl
  | cons id rest induction =>
      have one : (scaleState bytes state).free (scaleContext bytes remainder ctx) id =
          scaleState bytes (state.free ctx id) := by
        simp only [PlanState.free, scaleState, scaleContext, slots, UInt64.mul_sub,
          UInt64.mul_one]
      rw [List.foldl_cons, one, induction, List.foldl_cons]

omit slots in
/-- The peak scales as long as neither the old mark nor the new size wraps. -/
theorem high_water_scaled (extra : UInt64) (state : PlanState) (limit : Nat)
    (marked : state.stats.highWater.toNat ≤ limit) (held : state.resident.size ≤ limit)
    (counted : state.residentUnits.toNat = state.resident.size) (representable : limit < 2 ^ 32)
    (below : bytes.toNat * limit < 2 ^ 64) (slotMode : ctx.byteMode = false) :
    (scaleState bytes state).recordHighWater (scaleContext bytes extra ctx) =
      scaleState bytes (state.recordHighWater ctx) := by
  have size : (UInt32.ofNat state.resident.size).toNat = state.resident.size := by
    rw [UInt32.toNat_ofNat']
    exact Nat.mod_eq_of_lt (by omega)
  have bounded {count : Nat} (small : count ≤ limit) : bytes.toNat * count < 2 ^ 64 :=
    lt_of_le_of_lt (Nat.mul_le_mul_left _ small) below
  have peak : max (bytes * state.stats.highWater.toUInt64) (bytes * state.residentUnits) =
      bytes * (max state.stats.highWater (UInt32.ofNat state.resident.size)).toUInt64 := by
    apply UInt64.toNat_inj.mp
    rw [UInt64.toNat_max, scaled_exact (by rw [UInt32.toNat_toUInt64]; exact bounded marked),
      scaled_exact (by rw [counted]; exact bounded held), scaled_exact (by
        rw [UInt32.toNat_toUInt64, UInt32.toNat_max, size]
        exact bounded (max_le marked held)),
      UInt32.toNat_toUInt64, UInt32.toNat_toUInt64, UInt32.toNat_max, size, counted]
    exact (Nat.mul_max_mul_left _ _ _)
  simp only [PlanState.recordHighWater, scaleState, scaleStats, scaleContext, slotMode, peak,
    if_true]

end Step

section Loop

variable {program : FhnProgram} {pinned : List Nat} {ctx : PlanContext} {bytes remainder : UInt64}
  {limit : Nat}

/-- What makes the scaled comparisons exact. -/
structure ScaleFits (ctx : PlanContext) (bytes remainder : UInt64) (limit : Nat) : Prop where
  slots : ctx.cost = fun _ => 1
  slotMode : ctx.byteMode = false
  limited : 0 < ctx.deviceBudget
  proper : remainder < bytes
  total : bytes.toNat * limit < 2 ^ 64
  budget : bytes.toNat * ctx.deviceBudget.toNat + remainder.toNat < 2 ^ 64
  representable : limit < 2 ^ 32

theorem fits_exceeds (fits : ScaleFits ctx bytes remainder limit) {units : UInt64}
    (small : units.toNat ≤ limit) :
    bytes * units > (scaleContext bytes remainder ctx).deviceBudget ↔
      units > ctx.deviceBudget := by
  apply scaled_exceeds fits.proper fits.budget
  exact lt_of_le_of_lt (Nat.mul_le_mul_left _ small) fits.total

theorem evict_loop_scaled (fits : ScaleFits ctx bytes remainder limit) (pos : Int)
    (working : OrderedSet Nat) (incoming : UInt64) (fuel : Nat) (state : PlanState)
    (counted : state.residentUnits.toNat = state.resident.size)
    (small : state.resident.size + incoming.toNat ≤ limit) :
    evictLoop (scaleContext bytes remainder ctx) pos working (bytes * incoming) fuel
        (scaleState bytes state) =
      (evictLoop ctx pos working incoming fuel state).map fun outcome =>
        (outcome.1, scaleState bytes outcome.2) := by
  have sum (current : PlanState) (exact : current.residentUnits.toNat = current.resident.size)
      (within : current.resident.size + incoming.toNat ≤ limit) :
      (scaleState bytes current).residentUnits + bytes * incoming >
          (scaleContext bytes remainder ctx).deviceBudget ↔
        current.residentUnits + incoming > ctx.deviceBudget := by
    have factored : (scaleState bytes current).residentUnits + bytes * incoming =
        bytes * (current.residentUnits + incoming) := UInt64.mul_add.symm
    have few := fits.representable
    rw [factored]
    apply fits_exceeds fits
    rw [UInt64.toNat_add, exact, Nat.mod_eq_of_lt (by omega)]
    exact within
  induction fuel generalizing state with
  | zero =>
      have decides := sum state counted small
      by_cases exceeds : state.residentUnits + incoming > ctx.deviceBudget
      · rw [evictLoop, if_pos (decides.mpr exceeds), evictLoop, if_pos exceeds]
        rfl
      · rw [evictLoop, if_neg (fun above => exceeds (decides.mp above)), evictLoop,
          if_neg exceeds]
        rfl
  | succ fuel induction =>
      have decides := sum state counted small
      by_cases exceeds : state.residentUnits + incoming > ctx.deviceBudget
      · rw [evictLoop, if_pos (decides.mpr exceeds), evictLoop, if_pos exceeds, select_scaled]
        cases selected : selectVictim ctx state pos working with
        | none => rfl
        | some victim =>
            have member := (select_victim_spec ctx state pos working victim selected).1
            have less := OrderedSet.size_erase_lt state.resident victim member
            have one : (state.evict ctx victim).resident.size + 1 = state.resident.size := by
              have erased := Finset.card_erase_add_one
                ((OrderedSet.mem_to_finset state.resident victim).mpr member)
              rw [← OrderedSet.to_finset_erase, OrderedSet.card_to_finset,
                OrderedSet.card_to_finset] at erased
              exact erased
            have left : (state.evict ctx victim).residentUnits.toNat =
                (state.evict ctx victim).resident.size := by
              have units : (state.evict ctx victim).residentUnits = state.residentUnits - 1 := by
                simp only [PlanState.evict, fits.slots]
              have single : (1 : UInt64).toNat = 1 := rfl
              rw [units, UInt64.toNat_sub_of_le _ _ (by
                rw [UInt64.le_iff_toNat_le]
                omega)]
              omega
            have tail := induction (state.evict ctx victim) left (by omega)
            simp only [evict_scaled fits.slots, tail]
            cases evictLoop ctx pos working incoming fuel (state.evict ctx victim) with
            | none => rfl
            | some outcome => rfl
      · rw [evictLoop, if_neg (fun above => exceeds (decides.mp above)), evictLoop,
          if_neg exceeds]
        rfl

structure SlotState (program : FhnProgram) (pinned : List Nat) (ctx : PlanContext) (limit i : Nat)
    (state : PlanState) : Prop where
  device : DeviceInvariant program pinned i state
  exact : UnitsExact ctx state
  marked : state.stats.highWater.toNat ≤ limit
  silent : state.stats.highWaterBytes = 0

theorem slot_cost (slots : ctx.cost = fun _ => 1) (ids : Finset Nat) :
    costOf ctx ids = ids.card := by
  rw [costOf, Finset.card_eq_sum_ones, slots]
  rfl

theorem slot_counted (fits : ScaleFits ctx bytes remainder limit) {state : PlanState}
    (exact : UnitsExact ctx state) (small : state.resident.size ≤ limit) :
    state.residentUnits.toNat = state.resident.size := by
  have few := fits.representable
  have total : costOf ctx state.resident.toFinset = state.resident.size := by
    rw [slot_cost fits.slots, OrderedSet.card_to_finset]
  rw [← total]
  apply units_to_nat ctx state exact
  omega

theorem slot_total {i : Nat} {inst : FhnInstruction} {state : PlanState}
    (valid : SsaValid program) (get : program.instructions[i]? = some inst)
    (device : DeviceInvariant program pinned i state) :
    (state.resident.toFinset ∪ (workingSet inst).toFinset).card ≤
      program.definedIds.toFinset.card := by
  apply Finset.card_le_card
  apply Finset.union_subset _ (working_defined valid get)
  intro id held
  rw [OrderedSet.mem_to_finset] at held
  exact List.mem_toFinset.mpr (defined_before_subset program i (device.defined id held))

theorem make_room_scaled (valid : SsaValid program)
    (fits : ScaleFits ctx bytes remainder program.definedIds.toFinset.card) {i : Nat}
    {inst : FhnInstruction} (get : program.instructions[i]? = some inst) {state : PlanState}
    (holds : SlotState program pinned ctx program.definedIds.toFinset.card i state) :
    makeRoom (scaleContext bytes remainder ctx) (i : Int) inst (scaleState bytes state) =
      (makeRoom ctx (i : Int) inst state).map fun outcome =>
        (outcome.1, scaleState bytes outcome.2) := by
  have total := slot_total valid get holds.device
  have few := fits.representable
  have heldFew : state.resident.size ≤ program.definedIds.toFinset.card := by
    rw [← OrderedSet.card_to_finset]
    exact (Finset.card_le_card Finset.subset_union_left).trans total
  have workingSum : sumUnits (scaleContext bytes remainder ctx).cost (workingSet inst).elems 0 =
      bytes * sumUnits ctx.cost (workingSet inst).elems 0 := by
    rw [fits.slots, ← scaled_sum, UInt64.mul_zero]
    rfl
  have workingFew : (sumUnits ctx.cost (workingSet inst).elems 0).toNat ≤
      program.definedIds.toFinset.card := by
    have cost := slot_cost fits.slots (workingSet inst).toFinset
    have covered := Finset.card_le_card
      (Finset.subset_union_right : (workingSet inst).toFinset ⊆ state.resident.toFinset ∪ _)
    rw [working_units inst (by omega), cost]
    omega
  have incomingSum : sumUnits (scaleContext bytes remainder ctx).cost
      (toPrefetch (scaleState bytes state) inst)
      ((scaleContext bytes remainder ctx).cost inst.resultId) =
      bytes * incomingUnits ctx state inst := by
    rw [incomingUnits, fits.slots, ← scaled_sum, UInt64.mul_one]
    rfl
  have together : state.resident.size + (incomingUnits ctx state inst).toNat ≤
      program.definedIds.toFinset.card := by
    have apart := Finset.card_union_of_disjoint (incoming_apart valid get holds.device)
    rw [resident_and_incoming] at apart
    rw [incoming_units_eq valid get, slot_cost fits.slots, UInt64.toNat_ofNat',
      Nat.mod_eq_of_lt (by omega), ← OrderedSet.card_to_finset]
    omega
  have checks := fits_exceeds fits workingFew
  have positive : (scaleContext bytes remainder ctx).deviceBudget > 0 := by
    have proper := UInt64.lt_iff_toNat_lt.mp fits.proper
    have limited := UInt64.lt_iff_toNat_lt.mp fits.limited
    have product := Nat.mul_pos (show 0 < bytes.toNat by omega) limited
    have total := scaled_budget fits.budget
    rw [gt_iff_lt, UInt64.lt_iff_toNat_lt, scaleContext, total, UInt64.toNat_zero]
    omega
  rw [makeRoom, if_pos positive, makeRoom, if_pos fits.limited, workingSum, incomingSum]
  by_cases large : sumUnits ctx.cost (workingSet inst).elems 0 > ctx.deviceBudget
  · rw [if_pos (checks.mpr large), if_pos large]
    rfl
  · rw [if_neg (fun above => large (checks.mp above)), if_neg large]
    exact evict_loop_scaled fits (i : Int) (workingSet inst) _ state.resident.size state
      (slot_counted fits holds.exact heldFew) together

theorem loaded_state {i : Nat} {inst : FhnInstruction} {state roomy : PlanState}
    {victims : List Nat} (made : makeRoom ctx (i : Int) inst state = some (victims, roomy)) :
    (toPrefetch state inst).foldl (fun st id => st.prefetch ctx (i : Int) id)
        (roomy.allocate ctx (i : Int) inst.resultId) =
      (victims.map Move.evict ++ [Move.alloc inst.resultId] ++
        (toPrefetch state inst).map Move.prefetch).foldl (applyMove ctx (i : Int)) state := by
  have evicted : roomy = victims.foldl (fun st id => st.evict ctx id) state := by
    have room := make_room_spec ctx i inst state roomy victims made
    cases room with
    | inl unlimited => rw [unlimited.2.1, unlimited.2.2, List.foldl_nil]
    | inr checked => exact evict_run_state checked.2.2
  rw [evicted]
  simp only [List.foldl_append, List.foldl_map, List.foldl_cons, List.foldl_nil, applyMove]

theorem fold_moves_mark (pos : Int) (ms : List Move) (state : PlanState) :
    (ms.foldl (applyMove ctx pos) state).stats.highWater = state.stats.highWater := by
  induction ms generalizing state with
  | nil => rfl
  | cons move rest induction =>
      rw [List.foldl_cons, induction]
      cases move <;> rfl

theorem loaded_fits (valid : SsaValid program)
    (fits : ScaleFits ctx bytes remainder program.definedIds.toFinset.card) {i : Nat}
    {inst : FhnInstruction} (get : program.instructions[i]? = some inst)
    {state next : PlanState} {act : FhnMovementActions}
    (holds : SlotState program pinned ctx program.definedIds.toFinset.card i state)
    (stepped : planStep ctx i inst state = some (act, next)) :
    ((loadMoves act).foldl (applyMove ctx (i : Int)) state).resident.size ≤
        program.definedIds.toFinset.card ∧
      ((loadMoves act).foldl (applyMove ctx (i : Int)) state).residentUnits.toNat =
        ((loadMoves act).foldl (applyMove ctx (i : Int)) state).resident.size := by
  have facts := plan_step_facts ctx i inst state next act stepped
  have legal := step_legal valid get facts holds.device
  rw [moves, legal_append] at legal
  have exact := units_exact_fold ctx i (loadMoves act) state legal.1 holds.exact
  have few : ((loadMoves act).foldl (applyMove ctx (i : Int)) state).resident.size ≤
      program.definedIds.toFinset.card := by
    rw [← OrderedSet.card_to_finset, fold_resident]
    exact (Finset.card_le_card (dispatch_subset (step_choices facts))).trans
      (slot_total valid get holds.device)
  exact ⟨few, slot_counted fits exact few⟩

theorem plan_step_scaled (valid : SsaValid program)
    (fits : ScaleFits ctx bytes remainder program.definedIds.toFinset.card) {i : Nat}
    {inst : FhnInstruction} (get : program.instructions[i]? = some inst) {state : PlanState}
    (holds : SlotState program pinned ctx program.definedIds.toFinset.card i state) :
    planStep (scaleContext bytes remainder ctx) i inst (scaleState bytes state) =
      (planStep ctx i inst state).map fun outcome => (outcome.1, scaleState bytes outcome.2) := by
  have room := make_room_scaled valid fits get holds
  cases made : makeRoom ctx (i : Int) inst state with
  | none =>
      rw [made] at room
      simp only [planStep, room, made, Option.map_none]
  | some outcome =>
      cases outcome with
      | mk victims roomy =>
          rw [made] at room
          have stepped : ∃ act next, planStep ctx i inst state = some (act, next) ∧
              loadMoves act = victims.map Move.evict ++ [Move.alloc inst.resultId] ++
                (toPrefetch state inst).map Move.prefetch := by
            simp only [planStep, made]
            exact ⟨_, _, rfl, rfl⟩
          obtain ⟨act, next, slotStep, loads⟩ := stepped
          have loaded := loaded_fits valid fits get holds slotStep
          have mark : ((loadMoves act).foldl (applyMove ctx (i : Int)) state).stats.highWater =
              state.stats.highWater := fold_moves_mark (i : Int) (loadMoves act) state
          rw [loads, ← loaded_state made] at loaded mark
          have marked := holds.marked
          rw [← mark] at marked
          have measured := high_water_scaled remainder _ _ marked loaded.1 loaded.2
            fits.representable fits.total fits.slotMode
          have incoming : toPrefetch (scaleState bytes state) inst = toPrefetch state inst := rfl
          have dead : diesAt (scaleContext bytes remainder ctx) (i : Int) inst =
              diesAt ctx (i : Int) inst := rfl
          simp only [planStep, room, made, Option.map_some, incoming, dead,
            allocate_scaled fits.slots, prefetch_all_scaled fits.slots]
          rw [measured, touch_all_scaled, free_all_scaled fits.slots]

theorem slot_state_step (valid : SsaValid program) (uses : ctx.uses = usePositions program)
    (pins : ctx.pinned = pinned)
    (fits : ScaleFits ctx bytes remainder program.definedIds.toFinset.card) {i : Nat}
    {inst : FhnInstruction} (get : program.instructions[i]? = some inst)
    {state next : PlanState} {act : FhnMovementActions}
    (holds : SlotState program pinned ctx program.definedIds.toFinset.card i state)
    (stepped : planStep ctx i inst state = some (act, next)) :
    SlotState program pinned ctx program.definedIds.toFinset.card (i + 1) next := by
  have facts := plan_step_facts ctx i inst state next act stepped
  have loaded := loaded_fits valid fits get holds stepped
  have few := fits.representable
  constructor
  · exact device_invariant_step valid uses pins get facts holds.device
  · exact units_exact_step facts (step_legal valid get facts holds.device) holds.exact
  · have high := (step_stats facts).2.2.2.1
    rw [← OrderedSet.card_to_finset, fold_resident] at loaded
    rw [high, UInt32.toNat_max, UInt32.toNat_ofNat', Nat.mod_eq_of_lt (by omega)]
    exact max_le holds.marked loaded.1
  · have bytesMark := (step_stats facts).2.2.2.2
    rw [bytesMark, fits.slotMode]
    exact holds.silent

theorem slot_state_start : SlotState program pinned ctx limit 0 {} := by
  constructor
  · constructor <;> simp
  · rfl
  · exact Nat.zero_le limit
  · rfl

theorem slot_state_run {plan : FhnMovementPlan} {acts : List FhnMovementActions}
    {states : Nat → PlanState} (run : Analysis program pinned ctx plan acts states)
    (fits : ScaleFits ctx bytes remainder program.definedIds.toFinset.card) (i : Nat)
    (bound : i ≤ program.instructions.length) :
    SlotState program pinned ctx program.definedIds.toFinset.card i (states i) := by
  induction i with
  | zero =>
      rw [run.start]
      exact slot_state_start
  | succ i induction =>
      have get := List.getElem?_eq_getElem (show i < program.instructions.length by omega)
      obtain ⟨act, -, stepped⟩ := run.steps i _ get
      exact slot_state_step run.valid run.uses run.pins fits get (induction (by omega)) stepped

theorem plan_loop_scaled (valid : SsaValid program) (uses : ctx.uses = usePositions program)
    (pins : ctx.pinned = pinned)
    (fits : ScaleFits ctx bytes remainder program.definedIds.toFinset.card)
    (rest : List FhnInstruction) (i : Nat) (remaining : program.instructions.drop i = rest)
    (state : PlanState)
    (holds : SlotState program pinned ctx program.definedIds.toFinset.card i state) :
    planLoop (scaleContext bytes remainder ctx) rest i (scaleState bytes state) =
      (planLoop ctx rest i state).map fun outcome => (outcome.1, scaleState bytes outcome.2) := by
  induction rest generalizing i state with
  | nil => rfl
  | cons inst rest induction =>
      have get : program.instructions[i]? = some inst := by
        have head := congrArg List.head? remaining
        simpa [List.head?_drop] using head
      have tail : program.instructions.drop (i + 1) = rest := by
        rw [← List.tail_drop, remaining, List.tail_cons]
      have step := plan_step_scaled valid fits get holds
      cases stepped : planStep ctx i inst state with
      | none =>
          rw [stepped] at step
          simp only [planLoop, step, stepped, Option.map_none]
      | some outcome =>
          cases outcome with
          | mk act next =>
              rw [stepped] at step
              have later := induction (i + 1) tail next
                (slot_state_step valid uses pins fits get holds stepped)
              simp only [planLoop, step, stepped, Option.map_some, later]
              cases planLoop ctx rest (i + 1) next with
              | none => rfl
              | some final => rfl

end Loop

structure ScaledPlans (program : FhnProgram) (pinned : List Nat) (policy : FhnEvictionPolicy)
    (declared : FhnLevelModel) (slots bytes remainder : UInt64) : Prop where
  /-- Same outcome, same actions and same statistics but for the byte mark. -/
  same : analyze program pinned (bytes * slots + remainder) policy (some declared) =
    (analyze program pinned slots policy none).map (scalePlan bytes)
  slotMark : ∀ plan, analyze program pinned slots policy none = some plan →
    plan.stats.highWaterBytes = 0 ∧
      (scalePlan bytes plan).stats.highWaterBytes.toNat =
        bytes.toNat * plan.stats.highWater.toNat

/-- Byte mode under a flat model is slot mode scaled. -/
theorem flat_model_scales (program : FhnProgram) (pinned : List Nat) (policy : FhnEvictionPolicy)
    (declared : FhnLevelModel) (slots bytes remainder : UInt64)
    (representable : Representable program) (flat : FlatModel program declared bytes)
    (limited : 1 ≤ slots) (proper : remainder < bytes)
    (total : bytes.toNat * program.definedIds.toFinset.card < 2 ^ 64)
    (budget : bytes.toNat * slots.toNat + remainder.toNat < 2 ^ 64) :
    ScaledPlans program pinned policy declared slots bytes remainder := by
  have positive : bytes ≠ 0 := by
    intro zero
    rw [zero, UInt64.lt_iff_toNat_lt] at proper
    exact Nat.not_lt_zero _ proper
  obtain ⟨levelOf, leveled, costs⟩ := flat_costs flat positive
  by_cases valid : SsaValid program
  · have fits : ScaleFits
        (planContext (usePositions program) (fun _ => none) pinned slots policy none) bytes
        remainder program.definedIds.toFinset.card := by
      constructor
      · rfl
      · rfl
      · rw [UInt64.lt_iff_toNat_lt]
        exact UInt64.le_iff_toNat_le.mp limited
      · exact proper
      · exact total
      · exact budget
      · exact representable_card valid representable
    have byteContext : planContext (usePositions program) levelOf pinned
        (bytes * slots + remainder) policy (some declared) =
        scaleContext bytes remainder
          (planContext (usePositions program) (fun _ => none) pinned slots policy none) := by
      simp only [planContext, scaleContext, costs, Option.isSome_some]
    have bytePrepared := (prepare_iff program (some declared) (usePositions program) levelOf).mpr
      ⟨valid, rfl, leveled⟩
    have slotPrepared := (prepare_iff program none (usePositions program) (fun _ => none)).mpr
      ⟨valid, rfl, rfl⟩
    have first : SlotState program pinned
        (planContext (usePositions program) (fun _ => none) pinned slots policy none)
        program.definedIds.toFinset.card 0 {} := slot_state_start
    have looped := plan_loop_scaled valid rfl rfl fits program.instructions 0 rfl {} first
    constructor
    · have start : scaleState bytes {} = {} := by
        have marks : bytes * (0 : UInt32).toUInt64 = 0 := UInt64.mul_zero
        simp only [scaleState, scaleStats, UInt64.mul_zero, marks]
      rw [start] at looped
      simp only [analyze, bytePrepared, slotPrepared, byteContext, looped, Option.bind_eq_bind,
        Option.bind_some]
      cases planLoop (planContext (usePositions program) (fun _ => none) pinned slots policy none)
          program.instructions 0 {} with
      | none => rfl
      | some final => rfl
    · intro plan analyzed
      obtain ⟨other, acts, states, otherLeveled, run⟩ := analyze_run analyzed
      cases otherLeveled
      have last := slot_state_run run fits program.instructions.length (le_refl _)
      rw [run.stats]
      apply And.intro last.silent
      have mark : (scalePlan bytes plan).stats.highWaterBytes =
          bytes * (states program.instructions.length).stats.highWater.toUInt64 := by
        rw [← run.stats]
        rfl
      have small : bytes.toNat * (states program.instructions.length).stats.highWater.toNat <
          2 ^ 64 :=
        lt_of_le_of_lt (Nat.mul_le_mul_left _ last.marked) total
      rw [mark, scaled_exact (by rw [UInt32.toNat_toUInt64]; exact small), UInt32.toNat_toUInt64]
  · have unprepared (model : Option FhnLevelModel) : prepare program model = none := by
      cases prepared : prepare program model with
      | none => rfl
      | some tables =>
          exact absurd ((prepare_iff program model tables.1 tables.2).mp prepared).1 valid
    constructor
    · simp only [analyze, unprepared, Option.bind_eq_bind, Option.bind_none, Option.map_none]
    · intro plan analyzed
      exact absurd (analyze_valid analyzed) valid

def eightBytes : FhnLevelModel where
  freshLevel := 1
  bytesByLevel := [8, 8]
  effects := fun _ => some .preserve

theorem flat_eight_bytes : FlatModel sumOfProducts eightBytes 8 where
  fresh := by decide
  covered := by decide
  sizes := by simp [eightBytes]
  preserves := fun _ _ => rfl

/-- Three slots, or twenty-nine bytes. -/
theorem flat_model_scales_sum_of_products :
    ScaledPlans sumOfProducts [12] .belady eightBytes 3 8 5 :=
  flat_model_scales sumOfProducts [12] .belady eightBytes 3 8 5 (by decide) flat_eight_bytes
    (by decide) (by decide) (by decide +kernel) (by decide +kernel)

end Fhenomenon.FlatModelScaling

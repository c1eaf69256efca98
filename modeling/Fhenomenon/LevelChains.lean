import Fhenomenon.PlannerThreshold

/-!
# Levels and def-use chains

Accepted programs have sound levels and every table lookup of the planner hits.
With only preserving and consuming opcodes the level of an id is the fresh level
minus the rescales on the longest def-use chain ending at it, and an unlimited
analysis refuses a program exactly when some chain has too many of them.
-/

namespace Fhenomenon.LevelChains

open Fhenomenon.Lib Fhenomenon.Lib.LongestChain Fhenomenon.InstructionStream
open Fhenomenon.MovementPlanner Fhenomenon.PlannerTables Fhenomenon.PlannerSteps
open Fhenomenon.PlanLifetimes Fhenomenon.PlanReplay Fhenomenon.PlanAcceptance
open Fhenomenon.LevelInference Fhenomenon.PlannerThreshold

def Feeds (program : FhnProgram) (earlier id : Nat) : Prop :=
  ∃ inst ∈ program.instructions, inst.resultId = id ∧ earlier ∈ inst.usedOperands

/-- One for the result of a consuming instruction, zero for every other id. -/
def consumption (program : FhnProgram) (model : FhnLevelModel) (id : Nat) : Nat :=
  (program.instructions.any fun inst =>
    decide (inst.resultId = id ∧ model.effects inst.opcode = some .consume)).toNat

/-- How many consuming instructions lie on each def-use chain ending at `id`. -/
def chainConsumptions (program : FhnProgram) (model : FhnLevelModel) (id : Nat) : Set Nat :=
  chainWeights (Feeds program) (consumption program model) id

def PlainEffects (program : FhnProgram) (model : FhnLevelModel) : Prop :=
  ∀ inst ∈ program.instructions,
    model.effects inst.opcode = some .preserve ∨ model.effects inst.opcode = some .consume

section Chains

variable {program : FhnProgram} {model : FhnLevelModel}

theorem defining_unique (valid : SsaValid program) {first second : FhnInstruction}
    (firstMember : first ∈ program.instructions) (secondMember : second ∈ program.instructions)
    (same : first.resultId = second.resultId) : first = second := by
  have nodup := (List.nodup_append.mp valid.nodup).2.1
  exact List.inj_on_of_nodup_map nodup firstMember secondMember same

theorem feeds_result (valid : SsaValid program) {inst : FhnInstruction}
    (member : inst ∈ program.instructions) (earlier : Nat) :
    Feeds program earlier inst.resultId ↔ earlier ∈ inst.usedOperands := by
  constructor
  · intro feeds
    obtain ⟨other, otherMember, same, operand⟩ := feeds
    rw [defining_unique valid otherMember member same] at operand
    exact operand
  · intro operand
    exact ⟨inst, member, rfl, operand⟩

theorem consumption_result (valid : SsaValid program) {inst : FhnInstruction}
    (member : inst ∈ program.instructions) :
    consumption program model inst.resultId =
      if model.effects inst.opcode = some .consume then 1 else 0 := by
  have found : (program.instructions.any fun other =>
      decide (other.resultId = inst.resultId ∧ model.effects other.opcode = some .consume)) =
        decide (model.effects inst.opcode = some .consume) := by
    rw [Bool.eq_iff_iff, List.any_eq_true, decide_eq_true_iff]
    constructor
    · intro some
      obtain ⟨other, otherMember, facts⟩ := some
      rw [decide_eq_true_iff] at facts
      rw [← defining_unique valid otherMember member facts.1]
      exact facts.2
    · intro consumes
      apply Exists.intro inst
      apply And.intro member
      rw [decide_eq_true_iff]
      exact ⟨rfl, consumes⟩
  rw [consumption, found]
  by_cases consumes : model.effects inst.opcode = some .consume
  · rw [if_pos consumes, decide_eq_true consumes, Bool.toNat_true]
  · rw [if_neg consumes, decide_eq_false consumes, Bool.toNat_false]

theorem not_result_chain (id : Nat) (absent : id ∉ program.resultIds) :
    chainConsumptions program model id = {0} := by
  have weight : consumption program model id = 0 := by
    rw [consumption, List.any_eq_false.mpr]
    · rfl
    · intro inst member found
      rw [decide_eq_true_iff] at found
      apply absent
      rw [← found.1]
      exact List.mem_map_of_mem member
  have unfed : ∀ earlier, ¬Feeds program earlier id := by
    intro earlier feeds
    obtain ⟨inst, member, same, -⟩ := feeds
    apply absent
    rw [← same]
    exact List.mem_map_of_mem member
  apply Set.eq_singleton_iff_unique_mem.mpr
  constructor
  · have own := single_weight (Feeds program) (consumption program model) id
    rw [weight] at own
    exact own
  · intro total member
    rcases chain_weight_cases member with own | ⟨earlier, before, step, -, -⟩
    · rw [own, weight]
    · exact absurd step (unfed earlier)

/-- How far below fresh a table entry lies. -/
def depthOf (model : FhnLevelModel) (levelOf : Nat → Option Int) (id : Nat) : Nat :=
  (model.freshLevel - (levelOf id).getD model.freshLevel).toNat

/-- The entry counts the consuming instructions on the longest chain. -/
def CountsChain (program : FhnProgram) (model : FhnLevelModel) (id : Nat) (entry : Option Int) :
    Prop :=
  ∃ n : Nat, entry = some (model.freshLevel - n) ∧
    IsGreatest (chainConsumptions program model id) n

theorem counts_chain_depth {levelOf : Nat → Option Int} {id : Nat}
    (counts : CountsChain program model id (levelOf id)) :
    levelOf id = some (model.freshLevel - depthOf model levelOf id) ∧
      IsGreatest (chainConsumptions program model id) (depthOf model levelOf id) := by
  obtain ⟨n, entry, greatest⟩ := counts
  have depth : depthOf model levelOf id = n := by
    rw [depthOf, entry, Option.getD_some]
    omega
  rw [depth]
  exact ⟨entry, greatest⟩

theorem min_level_depth {levelOf : Nat → Option Int} {inst : FhnInstruction}
    (known : ∀ id ∈ inst.usedOperands,
      levelOf id = some (model.freshLevel - depthOf model levelOf id)) :
    minOperandLevel model levelOf inst =
      model.freshLevel - deepest (depthOf model levelOf) inst.usedOperands := by
  have least := min_operand_level_least model known
  apply least.unique
  constructor
  · rcases deepest_attained (depthOf model levelOf) inst.usedOperands with zero | attained
    · rw [zero]
      simp [operandLevels]
    · obtain ⟨id, operand, same⟩ := attained
      rw [← same]
      exact Set.mem_insert_of_mem _ ⟨id, operand, rfl⟩
  · intro level member
    rcases member with fresh | ⟨id, operand, rfl⟩
    · omega
    · have below := le_deepest (depthOf model levelOf) inst.usedOperands id operand
      dsimp only
      omega

theorem result_level_depth (valid : SsaValid program) (plain : PlainEffects program model)
    {inst : FhnInstruction} (member : inst ∈ program.instructions)
    {levelOf : Nat → Option Int}
    (counts : ∀ id ∈ inst.usedOperands, CountsChain program model id (levelOf id)) :
    ∃ n : Nat, IsGreatest (chainConsumptions program model inst.resultId) n ∧
      resultLevel model levelOf inst =
        if model.freshLevel < n then none else some (model.freshLevel - n) := by
  have greatest := @greatest_step _ _ (consumption program model) (depthOf model levelOf) _ _
    (feeds_result valid member) fun id operand => (counts_chain_depth (counts id operand)).2
  apply Exists.intro _
  apply And.intro greatest
  have floor := min_level_depth fun id operand => (counts_chain_depth (counts id operand)).1
  have lowered (raised : Int) (n : Nat) (same : raised = model.freshLevel - n) :
      (if raised < 0 ∨ raised > model.freshLevel then none else some raised) =
        if model.freshLevel < n then none else some (model.freshLevel - n) := by
    rw [same]
    by_cases deep : model.freshLevel < n
    · rw [if_pos deep, if_pos (by omega)]
    · rw [if_neg deep, if_neg (by omega)]
  unfold resultLevel
  rcases plain inst member with preserves | consumes
  · have weight : consumption program model inst.resultId = 0 := by
      rw [consumption_result valid member, preserves, if_neg (by simp)]
    simp only [preserves, floor]
    apply lowered
    rw [weight]
    push_cast
    ring
  · have weight : consumption program model inst.resultId = 1 := by
      rw [consumption_result valid member, consumes, if_pos rfl]
    simp only [consumes, floor]
    apply lowered
    rw [weight]
    push_cast
    ring

theorem table_counts_chains (valid : SsaValid program) (plain : PlainEffects program model)
    (i : Nat) (bound : i ≤ program.instructions.length) {levelOf : Nat → Option Int}
    (found : levelsBefore model program i = some levelOf) :
    ∀ id ∈ program.definedBefore i, CountsChain program model id (levelOf id) := by
  apply levels_before_induction (CountsChain program model) _ _ i bound found
  · intro id input
    have absent : id ∉ program.resultIds := fun result =>
      (List.nodup_append.mp valid.nodup).2.2 id input id result rfl
    apply Exists.intro 0
    rw [not_result_chain id absent]
    exact ⟨by simp, isGreatest_singleton⟩
  · intro j inst before level get earlier old computed
    have operands : ∀ id ∈ inst.usedOperands, CountsChain program model id (before id) :=
      fun id operand => old id (valid.operandsDefined j id ⟨inst, get, operand⟩)
    obtain ⟨n, greatest, result⟩ :=
      result_level_depth valid plain (List.mem_of_getElem? get) operands
    rw [computed] at result
    by_cases deep : model.freshLevel < n
    · rw [if_pos deep] at result
      cases result
    · rw [if_neg deep] at result
      exact ⟨n, result, greatest⟩

/-- Inference stops at the first instruction whose chain is too long, and only
there. -/
theorem table_missing_iff (valid : SsaValid program) (wellFormed : WellFormed model)
    (plain : PlainEffects program model) :
    inferLevels model program = none ↔
      ∃ id, ∃ n ∈ chainConsumptions program model id, model.freshLevel < (n : Int) := by
  rw [infer_levels_eq wellFormed]
  constructor
  · intro missing
    by_contra shallow
    push Not at shallow
    have present : ∀ i, i ≤ program.instructions.length →
        ∃ levelOf, levelsBefore model program i = some levelOf := by
      intro i bound
      induction i with
      | zero => exact ⟨_, rfl⟩
      | succ i induction =>
          obtain ⟨levelOf, found⟩ := induction (by omega)
          have get := List.getElem?_eq_getElem (show i < program.instructions.length by omega)
          have counts := table_counts_chains valid plain i (by omega) found
          obtain ⟨n, greatest, result⟩ := result_level_depth valid plain
            (List.mem_of_getElem? get) fun id operand =>
              counts id (valid.operandsDefined i id ⟨_, get, operand⟩)
          have small := shallow _ n greatest.1
          rw [if_neg (by omega)] at result
          rw [levels_before_succ model get, found, Option.bind_some, result, Option.map_some]
          exact ⟨_, rfl⟩
    obtain ⟨levelOf, found⟩ := present _ (le_refl _)
    rw [found] at missing
    cases missing
  · intro deep
    obtain ⟨id, n, chain, exceeds⟩ := deep
    cases found : levelsBefore model program program.instructions.length with
    | none => rfl
    | some levelOf =>
        exfalso
        have fresh := wellFormed.fresh
        by_cases result : id ∈ program.resultIds
        · have defined : id ∈ program.definedBefore program.instructions.length := by
            rw [defined_before_length]
            exact List.mem_append_right _ result
          obtain ⟨longest, entry, greatest⟩ :=
            table_counts_chains valid plain _ (le_refl _) found id defined
          have most := greatest.2 chain
          obtain ⟨inst, member, same⟩ := List.mem_map.mp result
          have step := (trace_of_table valid found).results inst member
          have low := step.nonneg
          rw [same, entry, Option.getD_some] at low
          omega
        · rw [not_result_chain id result, Set.mem_singleton_iff] at chain
          omega

end Chains

section Lookups

variable (ctx : PlanContext) (other : Nat → UInt64)

theorem scan_victim_cost (key : Nat → WithTop Int) (working : OrderedSet Nat) (ids : List Nat)
    (best : Option (Nat × WithTop Int)) :
    scanVictim { ctx with cost := other } key working ids best =
      scanVictim ctx key working ids best := by
  induction ids generalizing best with
  | nil => rfl
  | cons id rest induction =>
      simp only [scanVictim, induction]

theorem select_victim_cost (state : PlanState) (pos : Int) (working : OrderedSet Nat) :
    selectVictim { ctx with cost := other } state pos working =
      selectVictim ctx state pos working := by
  unfold selectVictim
  rw [scan_victim_cost ctx other]
  rfl

theorem evict_loop_cost (pos : Int) (working : OrderedSet Nat) (incomingUnits : UInt64)
    (fuel : Nat) (state : PlanState) (agree : ∀ id ∈ state.resident.elems, other id = ctx.cost id) :
    evictLoop { ctx with cost := other } pos working incomingUnits fuel state =
      evictLoop ctx pos working incomingUnits fuel state := by
  induction fuel generalizing state with
  | zero => rfl
  | succ fuel induction =>
      simp only [evictLoop, select_victim_cost]
      cases selected : selectVictim ctx state pos working with
      | none => rfl
      | some victim =>
          have member := (select_victim_spec ctx state pos working victim selected).1
          have same : state.evict { ctx with cost := other } victim = state.evict ctx victim := by
            simp only [PlanState.evict, agree victim member]
          have smaller : ∀ id ∈ (state.evict ctx victim).resident.elems,
              other id = ctx.cost id := by
            intro id kept
            simp only [PlanState.evict, OrderedSet.mem_erase] at kept
            exact agree id kept.2
          simp only [same, induction _ smaller]

theorem sum_units_cost (ids : List Nat) (start : UInt64)
    (agree : ∀ id ∈ ids, other id = ctx.cost id) :
    sumUnits other ids start = sumUnits ctx.cost ids start := by
  unfold sumUnits
  apply List.foldl_ext
  intro units id member
  rw [agree id member]

theorem plan_step_cost (i : Nat) (inst : FhnInstruction) (state : PlanState)
    (agree : ∀ id, id ∈ state.resident.elems ∨ id ∈ (workingSet inst).elems →
      other id = ctx.cost id) :
    planStep { ctx with cost := other } i inst state = planStep ctx i inst state := by
  have result : other inst.resultId = ctx.cost inst.resultId :=
    agree _ (Or.inr ((mem_working_set inst _).mpr (Or.inl rfl)))
  have incoming : ∀ id ∈ toPrefetch state inst, other id = ctx.cost id := by
    intro id member
    have operand := ((mem_to_prefetch state inst id).mp member).1
    exact agree id (Or.inr ((mem_working_set inst id).mpr (Or.inr operand)))
  have room : makeRoom { ctx with cost := other } (i : Int) inst state =
      makeRoom ctx (i : Int) inst state := by
    have residents : ∀ id ∈ state.resident.elems, other id = ctx.cost id :=
      fun id member => agree id (Or.inl member)
    simp only [makeRoom, result, evict_loop_cost ctx other _ _ _ _ state residents,
      sum_units_cost ctx other _ _ incoming,
      sum_units_cost ctx other (workingSet inst).elems 0
        (fun id member => agree id (Or.inr member))]
  simp only [planStep, room]
  cases makeRoom ctx (i : Int) inst state with
  | none => rfl
  | some made =>
      obtain ⟨victims, roomy⟩ := made
      have allocated : roomy.allocate { ctx with cost := other } (i : Int) inst.resultId =
          roomy.allocate ctx (i : Int) inst.resultId := by
        simp only [PlanState.allocate, result]
      have loaded (start : PlanState) : (toPrefetch state inst).foldl
            (fun st id => st.prefetch { ctx with cost := other } (i : Int) id) start =
          (toPrefetch state inst).foldl (fun st id => st.prefetch ctx (i : Int) id) start := by
        apply List.foldl_ext
        intro st id member
        simp only [PlanState.prefetch, incoming id member]
      have freed (dead : List Nat) (within : ∀ id ∈ dead, id ∈ (workingSet inst).elems)
          (start : PlanState) :
          dead.foldl (fun st id => st.free { ctx with cost := other } id) start =
            dead.foldl (fun st id => st.free ctx id) start := by
        apply List.foldl_ext
        intro st id member
        simp only [PlanState.free, agree id (Or.inr (within id member))]
      have measured (start : PlanState) :
          start.recordHighWater { ctx with cost := other } = start.recordHighWater ctx := rfl
      have dies : diesAt { ctx with cost := other } (i : Int) inst = diesAt ctx (i : Int) inst :=
        rfl
      simp only [allocated, loaded, measured, dies]
      rw [freed _ (fun id member => (List.mem_filter.mp member).1)]

end Lookups

/-- Every level lookup made before instruction `i` and every cost lookup made at
it find an entry. -/
structure LookupsDefined (program : FhnProgram) (model : FhnLevelModel) (ctx : PlanContext)
    (levelOf : Nat → Option Int) : Prop where
  operandLevels : ∀ i inst, program.instructions[i]? = some inst →
    ∃ earlier, levelsBefore model program i = some earlier ∧
      ∀ id ∈ inst.usedOperands, ∃ level, earlier id = some level
  costs : ∀ i inst acts state, program.instructions[i]? = some inst →
    planLoop ctx (program.instructions.take i) 0 {} = some (acts, state) →
    ∀ id, id ∈ state.resident.elems ∨ id ∈ (workingSet inst).elems →
      ∃ level bytes, levelOf id = some level ∧ 0 ≤ level ∧
        model.bytesByLevel[level.toNat]? = some bytes ∧ ctx.cost id = bytes
  nothingElse : ∀ i inst state other,
    (∀ id, id ∈ state.resident.elems ∨ id ∈ (workingSet inst).elems → other id = ctx.cost id) →
    planStep { ctx with cost := other } i inst state = planStep ctx i inst state

structure LevelsSound (program : FhnProgram) (model : FhnLevelModel)
    (levelOf : Nat → Option Int) : Prop where
  ranged : ∀ id ∈ program.definedIds,
    ∃ level, levelOf id = some level ∧ 0 ≤ level ∧ level ≤ model.freshLevel
  neverRises : ∀ inst ∈ program.instructions, ∀ id ∈ inst.usedOperands, ∀ level operandLevel,
    levelOf inst.resultId = some level → levelOf id = some operandLevel → level ≤ operandLevel
  setExactly : ∀ inst ∈ program.instructions, model.effects inst.opcode = some .setParam0 →
    levelOf inst.resultId = some (inst.params 0)

section Sound

variable {program : FhnProgram} {model : FhnLevelModel} {levelOf : Nat → Option Int}

theorem effect_lowers {effect : Option FhnLevelEffect} {floor param level : Int}
    (rule : EffectRule effect floor param level) : level ≤ floor := by
  unfold EffectRule at rule
  cases effect with
  | none => exact rule.elim
  | some declared =>
      cases declared with
      | preserve => exact rule.le
      | consume =>
          dsimp only at rule
          omega
      | setParam0 =>
          dsimp only at rule
          omega
      | other raw => exact rule.elim

theorem levels_sound (valid : SsaValid program)
    (inferred : inferLevels model program = some levelOf) :
    LevelsSound program model levelOf := by
  obtain ⟨wellFormed, levels, trace⟩ := (infer_levels_iff model valid).mp ⟨levelOf, inferred⟩
  have agree := inferred_agrees valid inferred trace
  have resultDefined : ∀ inst ∈ program.instructions, inst.resultId ∈ program.definedIds :=
    fun inst member => List.mem_append_right _ (List.mem_map_of_mem member)
  constructor
  · intro id defined
    apply Exists.intro (levels id)
    apply And.intro (agree id defined)
    rcases List.mem_append.mp defined with input | result
    · rw [trace.inputs id input]
      exact ⟨wellFormed.fresh, le_refl _⟩
    · obtain ⟨inst, member, same⟩ := List.mem_map.mp result
      have step := trace.results inst member
      rw [← same]
      exact ⟨step.nonneg, step.atMostFresh⟩
  · intro inst member id operand level operandLevel own below
    have defined := working_ids_defined valid member id
      (Finset.mem_insert_of_mem (List.mem_toFinset.mpr operand))
    rw [agree _ (resultDefined inst member), Option.some.injEq] at own
    rw [agree id defined, Option.some.injEq] at below
    obtain ⟨floor, least, rule⟩ := (trace.results inst member).rule
    rw [← own, ← below]
    exact (effect_lowers rule).trans (least.2 (Set.mem_insert_of_mem _ ⟨id, operand, rfl⟩))
  · intro inst member sets
    obtain ⟨floor, least, rule⟩ := (trace.results inst member).rule
    rw [sets] at rule
    rw [agree _ (resultDefined inst member), rule.1]

theorem lookups_defined (valid : SsaValid program)
    (inferred : inferLevels model program = some levelOf) (pinned : List Nat)
    (deviceBudget : UInt64) (policy : FhnEvictionPolicy) :
    LookupsDefined program model
      (planContext (usePositions program) levelOf pinned deviceBudget policy (some model))
      levelOf := by
  have wellFormed := ((infer_levels_iff model valid).mp ⟨levelOf, inferred⟩).1
  have sound := levels_sound valid inferred
  rw [infer_levels_eq wellFormed] at inferred
  constructor
  · intro i inst get
    have bound := (List.getElem?_eq_some_iff.mp get).1
    obtain ⟨earlier, found, -⟩ := levels_before_earlier valid bound.le (le_refl _) inferred
    apply Exists.intro earlier
    apply And.intro found
    intro id operand
    exact levels_before_defined bound.le found id (valid.operandsDefined i id ⟨inst, get, operand⟩)
  · intro i inst acts state get reached id member
    have bound := (List.getElem?_eq_some_iff.mp get).1
    have defined : id ∈ program.definedIds := by
      rcases member with resident | working
      · have holds := (reached_invariants valid rfl rfl i bound.le reached).1
        exact defined_before_subset program i (holds.defined id resident)
      · apply List.mem_toFinset.mp
        exact working_defined valid get ((OrderedSet.mem_to_finset _ _).mpr working)
    obtain ⟨level, entry, low, high⟩ := sound.ranged id defined
    have covered := wellFormed.covers level low high
    apply Exists.intro level
    apply Exists.intro model.bytesByLevel[level.toNat]
    apply And.intro entry
    apply And.intro low
    apply And.intro (List.getElem?_eq_getElem covered)
    simp only [planContext, unitCost, entry, Option.getD_some]
    exact List.getD_eq_getElem _ _ covered
  · intro i inst state other agree
    exact plan_step_cost _ other i inst state agree

/-- An unlimited analysis of a single-assignment program fails only in level
inference. -/
theorem unlimited_refused_iff (valid : SsaValid program) (pinned : List Nat)
    (policy : FhnEvictionPolicy) :
    analyze program pinned 0 policy (some model) = none ↔ inferLevels model program = none := by
  constructor
  · intro refused
    cases inferred : inferLevels model program with
    | none => rfl
    | some levelOf =>
        have prepared := (prepare_iff program (some model) (usePositions program) levelOf).mpr
          ⟨valid, rfl, inferred⟩
        have unlimited : (planContext (usePositions program) levelOf pinned 0 policy
            (some model)).deviceBudget = 0 := rfl
        obtain ⟨looped, finished⟩ := plan_loop_unlimited unlimited program.instructions 0 {}
        simp [analyze, prepared, finished] at refused
  · intro missing
    cases analyzed : analyze program pinned 0 policy (some model) with
    | none => rfl
    | some plan =>
        obtain ⟨levelOf, -, -, leveled, -⟩ := analyze_run analyzed
        rw [levelTable, missing] at leveled
        cases leveled

end Sound

/-- Levels of accepted programs are sound and every lookup hits; without level
setting they are exactly the longest consuming chains, and so is refusal. -/
theorem level_inference_exact (program : FhnProgram) (pinned : List Nat) (model : FhnLevelModel)
    (valid : SsaValid program) (wellFormed : WellFormed model) :
    (∀ deviceBudget policy plan,
      analyze program pinned deviceBudget policy (some model) = some plan →
      ∃ levelOf, inferLevels model program = some levelOf ∧ LevelsSound program model levelOf ∧
        LookupsDefined program model
          (planContext (usePositions program) levelOf pinned deviceBudget policy (some model))
          levelOf) ∧
    (PlainEffects program model →
      (∀ levelOf, inferLevels model program = some levelOf → ∀ id ∈ program.definedIds,
        ∃ n : Nat, levelOf id = some (model.freshLevel - n) ∧
          IsGreatest (chainConsumptions program model id) n) ∧
      ∀ policy, analyze program pinned 0 policy (some model) = none ↔
        ∃ id, ∃ n ∈ chainConsumptions program model id, model.freshLevel < (n : Int)) := by
  constructor
  · intro deviceBudget policy plan analyzed
    obtain ⟨levelOf, -, -, leveled, -⟩ := analyze_run analyzed
    exact ⟨levelOf, leveled, levels_sound valid leveled,
      lookups_defined valid leveled pinned deviceBudget policy⟩
  · intro plain
    constructor
    · intro levelOf inferred id defined
      rw [infer_levels_eq wellFormed] at inferred
      apply table_counts_chains valid plain _ (le_refl _) inferred
      rw [defined_before_length]
      exact defined
    · intro policy
      rw [unlimited_refused_iff valid pinned policy]
      exact table_missing_iff valid wellFormed plain

theorem sum_of_products_plain : PlainEffects sumOfProducts twoLevels := by
  intro inst member
  by_cases multiplies : inst.opcode = .multCC
  · right
    exact if_pos multiplies
  · left
    exact if_neg multiplies

theorem level_inference_exact_sum_of_products :
    (∀ deviceBudget policy plan,
      analyze sumOfProducts [12] deviceBudget policy (some twoLevels) = some plan →
      ∃ levelOf, inferLevels twoLevels sumOfProducts = some levelOf ∧
        LevelsSound sumOfProducts twoLevels levelOf ∧
        LookupsDefined sumOfProducts twoLevels
          (planContext (usePositions sumOfProducts) levelOf [12] deviceBudget policy
            (some twoLevels)) levelOf) ∧
    (∀ levelOf, inferLevels twoLevels sumOfProducts = some levelOf →
      ∀ id ∈ sumOfProducts.definedIds, ∃ n : Nat, levelOf id = some (1 - (n : Int)) ∧
        IsGreatest (chainConsumptions sumOfProducts twoLevels id) n) ∧
    ∀ policy, analyze sumOfProducts [12] 0 policy (some twoLevels) = none ↔
      ∃ id, ∃ n ∈ chainConsumptions sumOfProducts twoLevels id, (1 : Int) < (n : Int) := by
  have exact := level_inference_exact sumOfProducts [12] twoLevels
    (analyze_valid analyze_sum_of_products) ((valid_model_iff twoLevels).mp (by decide))
  exact ⟨exact.1, exact.2 sum_of_products_plain⟩

end Fhenomenon.LevelChains

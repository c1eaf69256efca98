import Fhenomenon.PlannerSteps

/-!
# An accepted analysis, and where ids are freed

`Analysis` records everything a successful `analyze` went through, with one
loop state before each instruction. Frees come from the per-instruction pass
and from the epilogue; both are stated here as one condition on positions.
-/

namespace Fhenomenon.PlanLifetimes

open Fhenomenon.Lib Fhenomenon.InstructionStream Fhenomenon.MovementPlanner
open Fhenomenon.PlannerTables Fhenomenon.PlannerSteps

def leftovers (program : FhnProgram) (pinned : List Nat) : List Nat :=
  program.inputIds.filter
    (fun id => !pinned.contains id && (usePositions program id).isEmpty)

structure Analysis (program : FhnProgram) (pinned : List Nat) (ctx : PlanContext)
    (plan : FhnMovementPlan) (acts : List FhnMovementActions) (states : Nat → PlanState) :
    Prop where
  valid : SsaValid program
  uses : ctx.uses = usePositions program
  pins : ctx.pinned = pinned
  start : states 0 = {}
  length : acts.length = program.instructions.length
  steps : ∀ i inst, program.instructions[i]? = some inst → ∃ act, acts[i]? = some act ∧
    planStep ctx i inst (states i) = some (act, states (i + 1))
  actions : plan.actions = freeUnusedInputs ctx program.inputIds acts
  stats : plan.stats = (states program.instructions.length).stats

theorem analyze_run {program : FhnProgram} {pinned : List Nat} {deviceBudget : UInt64}
    {policy : FhnEvictionPolicy} {model : Option FhnLevelModel} {plan : FhnMovementPlan}
    (analyzed : analyze program pinned deviceBudget policy model = some plan) :
    ∃ levelOf acts states, levelTable model program = some levelOf ∧
      Analysis program pinned
        (planContext (usePositions program) levelOf pinned deviceBudget policy model)
        plan acts states := by
  simp only [analyze, Option.bind_eq_bind, Option.bind_eq_some_iff, Prod.exists] at analyzed
  obtain ⟨uses, levelOf, prepared, acts, final, looped, finished⟩ := analyzed
  obtain ⟨valid, rfl, leveled⟩ := (prepare_iff program model uses levelOf).mp prepared
  obtain ⟨length, states, start, last, steps⟩ := plan_loop_trace _ _ _ _ _ _ looped
  cases finished
  refine ⟨levelOf, acts, states, leveled, valid, rfl, rfl, start, length, ?_, rfl, ?_⟩
  · intro i inst get
    simpa only [Nat.zero_add] using steps i inst get
  · simp only [last]

theorem analyze_valid {program : FhnProgram} {pinned : List Nat} {deviceBudget : UInt64}
    {policy : FhnEvictionPolicy} {model : Option FhnLevelModel} {plan : FhnMovementPlan}
    (analyzed : analyze program pinned deviceBudget policy model = some plan) :
    SsaValid program := by
  obtain ⟨levelOf, acts, states, -, run⟩ := analyze_run analyzed
  exact run.valid

section Analysis

variable {program : FhnProgram} {pinned : List Nat} {ctx : PlanContext} {plan : FhnMovementPlan}
  {acts : List FhnMovementActions} {states : Nat → PlanState}

theorem analysis_step (run : Analysis program pinned ctx plan acts states) (i : Nat)
    (inst : FhnInstruction) (get : program.instructions[i]? = some inst) :
    ∃ act, acts[i]? = some act ∧ StepFacts ctx i inst (states i) act (states (i + 1)) := by
  obtain ⟨act, found, stepped⟩ := run.steps i inst get
  exact ⟨act, found, plan_step_facts ctx i inst _ _ act stepped⟩

theorem analysis_plan_length (run : Analysis program pinned ctx plan acts states) :
    plan.actions.length = program.instructions.length := by
  rw [run.actions, freeUnusedInputs, List.length_modify, run.length]

/-- The published action list of one instruction: the loop's own, with the
epilogue's frees appended to the last. -/
theorem analysis_action (run : Analysis program pinned ctx plan acts states) (i : Nat)
    (act : FhnMovementActions) (found : acts[i]? = some act) :
    plan.actions[i]? = some { act with
      free := act.free ++
        if i + 1 = program.instructions.length then leftovers program pinned else [] } := by
  have bound : i < acts.length := (List.getElem?_eq_some_iff.mp found).1
  have length := run.length
  rw [run.actions]
  simp only [freeUnusedInputs, List.getElem?_modify, found, run.uses, run.pins, length]
  by_cases last : i + 1 = program.instructions.length
  · have same : program.instructions.length - 1 = i := by omega
    simp [last, same, leftovers]
  · have different : program.instructions.length - 1 ≠ i := by omega
    simp [last, different]

theorem analysis_at (run : Analysis program pinned ctx plan acts states) (i : Nat)
    (inst : FhnInstruction) (get : program.instructions[i]? = some inst) :
    ∃ act, StepFacts ctx i inst (states i) act (states (i + 1)) ∧
      plan.actions[i]? = some { act with
        free := act.free ++
          if i + 1 = program.instructions.length then leftovers program pinned else [] } := by
  obtain ⟨act, found, facts⟩ := analysis_step run i inst get
  exact ⟨act, facts, analysis_action run i act found⟩

theorem analysis_published (run : Analysis program pinned ctx plan acts states) {i : Nat}
    {published : FhnMovementActions} (found : plan.actions[i]? = some published) :
    ∃ inst act, program.instructions[i]? = some inst ∧
      StepFacts ctx i inst (states i) act (states (i + 1)) ∧
      published = { act with
        free := act.free ++
          if i + 1 = program.instructions.length then leftovers program pinned else [] } := by
  have bound : i < program.instructions.length := by
    rw [← analysis_plan_length run]
    exact (List.getElem?_eq_some_iff.mp found).1
  have get := List.getElem?_eq_getElem bound
  obtain ⟨act, facts, planned⟩ := analysis_at run i _ get
  rw [found, Option.some.injEq] at planned
  exact ⟨_, act, get, facts, planned⟩

end Analysis

/-- The instruction after which the program has no use for `id`: its last
reader; its own definition for a result nobody reads; the last instruction for
an input nobody reads. -/
def DiesAt (program : FhnProgram) (id i : Nat) : Prop :=
  (program.ReadsAt i id ∧ ∀ j, program.ReadsAt j id → j ≤ i) ∨
    (∀ j, ¬program.ReadsAt j id) ∧
      ((∃ inst, program.instructions[i]? = some inst ∧ inst.resultId = id) ∨
        (id ∈ program.inputIds ∧ i + 1 = program.instructions.length))

theorem reads_at_lt {program : FhnProgram} {i id : Nat} (reads : program.ReadsAt i id) :
    i < program.instructions.length := by
  obtain ⟨inst, get, -⟩ := reads
  exact (List.getElem?_eq_some_iff.mp get).1

theorem dies_at_lt {program : FhnProgram} {i id : Nat} (dies : DiesAt program id i) :
    i < program.instructions.length := by
  rcases dies with ⟨reads, -⟩ | ⟨-, ⟨inst, get, -⟩ | ⟨-, last⟩⟩
  · exact reads_at_lt reads
  · exact (List.getElem?_eq_some_iff.mp get).1
  · omega

theorem dies_at_defined {program : FhnProgram} (valid : SsaValid program) {i id : Nat}
    (dies : DiesAt program id i) : id ∈ program.definedIds := by
  rcases dies with ⟨reads, -⟩ | ⟨-, ⟨inst, get, rfl⟩ | ⟨input, -⟩⟩
  · exact defined_before_subset program i (valid.operandsDefined i id reads)
  · exact result_mem_defined program i inst get
  · exact List.mem_append_left _ input

theorem result_position_unique {program : FhnProgram} (valid : SsaValid program) {i j : Nat}
    {left right : FhnInstruction} (leftGet : program.instructions[i]? = some left)
    (rightGet : program.instructions[j]? = some right) (same : left.resultId = right.resultId) :
    i = j := by
  have nodup : (program.instructions.map (·.resultId)).Nodup :=
    (List.nodup_append.mp valid.nodup).2.1
  have leftMapped : (program.instructions.map (·.resultId))[i]? = some left.resultId := by
    simp [leftGet]
  have rightMapped : (program.instructions.map (·.resultId))[j]? = some left.resultId := by
    simp [rightGet, same]
  have bound := (List.getElem?_eq_some_iff.mp leftMapped).1
  exact (List.getElem?_inj bound nodup).mp (leftMapped.trans rightMapped.symm)

theorem result_not_input {program : FhnProgram} (valid : SsaValid program) {i : Nat}
    {inst : FhnInstruction} (get : program.instructions[i]? = some inst) :
    inst.resultId ∉ program.inputIds := by
  intro input
  have apart := (List.nodup_append.mp valid.nodup).2.2
  exact apart _ input _ (List.mem_map.mpr ⟨inst, List.mem_of_getElem? get, rfl⟩) rfl

theorem dies_at_unique {program : FhnProgram} (valid : SsaValid program) {i j id : Nat}
    (first : DiesAt program id i) (second : DiesAt program id j) : i = j := by
  rcases first with ⟨firstReads, firstLast⟩ | ⟨firstUnread, firstSource⟩
  · rcases second with ⟨secondReads, secondLast⟩ | ⟨secondUnread, -⟩
    · exact le_antisymm (secondLast i firstReads) (firstLast j secondReads)
    · exact absurd firstReads (secondUnread i)
  · rcases second with ⟨secondReads, -⟩ | ⟨-, secondSource⟩
    · exact absurd secondReads (firstUnread j)
    · rcases firstSource with ⟨left, leftGet, rfl⟩ | ⟨leftInput, leftLast⟩
      · rcases secondSource with ⟨right, rightGet, same⟩ | ⟨rightInput, -⟩
        · exact result_position_unique valid leftGet rightGet same.symm
        · exact absurd rightInput (result_not_input valid leftGet)
      · rcases secondSource with ⟨right, rightGet, rfl⟩ | ⟨-, rightLast⟩
        · exact absurd leftInput (result_not_input valid rightGet)
        · omega

theorem dies_at_exists {program : FhnProgram} (nonempty : program.instructions ≠ []) {id : Nat}
    (defined : id ∈ program.definedIds) : ∃ i, DiesAt program id i := by
  classical
  have positive : 0 < program.instructions.length := List.length_pos_iff.mpr nonempty
  by_cases read : ∃ j, program.ReadsAt j id
  · obtain ⟨j, reads⟩ := read
    let reader := fun k => program.ReadsAt k id
    have lastReads : reader (Nat.findGreatest reader program.instructions.length) :=
      Nat.findGreatest_spec (P := reader) (reads_at_lt reads).le reads
    refine ⟨Nat.findGreatest reader program.instructions.length, Or.inl ⟨lastReads, ?_⟩⟩
    intro k laterReads
    exact Nat.le_findGreatest (P := reader) (reads_at_lt laterReads).le laterReads
  · have unread : ∀ j, ¬program.ReadsAt j id := fun j reads => read ⟨j, reads⟩
    rcases List.mem_append.mp defined with input | result
    · refine ⟨program.instructions.length - 1, Or.inr ⟨unread, Or.inr ⟨input, ?_⟩⟩⟩
      omega
    · obtain ⟨inst, member, rfl⟩ := List.mem_map.mp result
      obtain ⟨i, get⟩ := List.mem_iff_getElem?.mp member
      exact ⟨i, Or.inr ⟨unread, Or.inl ⟨inst, get, rfl⟩⟩⟩

theorem mem_leftovers (program : FhnProgram) (pinned : List Nat) (id : Nat) :
    id ∈ leftovers program pinned ↔
      id ∈ program.inputIds ∧ id ∉ pinned ∧ ∀ j, ¬program.ReadsAt j id := by
  rw [leftovers, List.mem_filter, ← use_positions_empty]
  simp

theorem mem_dead_iff {program : FhnProgram} (valid : SsaValid program) {pinned : List Nat}
    {ctx : PlanContext} (uses : ctx.uses = usePositions program) (pins : ctx.pinned = pinned)
    {i : Nat} {inst : FhnInstruction} (get : program.instructions[i]? = some inst) (id : Nat) :
    id ∈ (workingSet inst).elems.filter (diesAt ctx (i : Int) inst) ↔
      id ∉ pinned ∧
        ((program.ReadsAt i id ∧ ∀ j, program.ReadsAt j id → j ≤ i) ∨
          (id = inst.resultId ∧ ∀ j, ¬program.ReadsAt j id)) := by
  have readsHere : program.ReadsAt i id ↔ id ∈ inst.usedOperands := by
    constructor
    · rintro ⟨other, otherGet, member⟩
      rw [get] at otherGet
      cases otherGet
      exact member
    · intro member
      exact ⟨inst, get, member⟩
  rw [List.mem_filter, mem_working_set, readsHere]
  by_cases kept : id ∈ pinned
  · simp [diesAt, pins, kept]
  · by_cases result : id = inst.resultId
    · have notOperand : id ∉ inst.usedOperands := result ▸ result_not_operand valid i inst get
      simp [diesAt, pins, result, uses, List.isEmpty_iff, use_positions_empty,
        result ▸ notOperand]
    · have finished := next_use_after_eq_top program id (i : Int)
      simp only [Nat.cast_le] at finished
      simp [diesAt, pins, kept, result, uses, finished]

section Analysis

variable {program : FhnProgram} {pinned : List Nat} {ctx : PlanContext} {plan : FhnMovementPlan}
  {acts : List FhnMovementActions} {states : Nat → PlanState}

theorem mem_free_iff (run : Analysis program pinned ctx plan acts states) (i : Nat)
    (act : FhnMovementActions) (found : plan.actions[i]? = some act) (id : Nat) :
    id ∈ act.free ↔ id ∉ pinned ∧ DiesAt program id i := by
  obtain ⟨inst, raw, get, facts, rfl⟩ := analysis_published run found
  rw [List.mem_append, facts.free, mem_dead_iff run.valid run.uses run.pins get]
  have atEnd : (id ∈ if i + 1 = program.instructions.length then leftovers program pinned
        else []) ↔
      i + 1 = program.instructions.length ∧ id ∈ leftovers program pinned := by
    split <;> simp [*]
  rw [atEnd, mem_leftovers]
  constructor
  · rintro (⟨kept, last | ⟨rfl, unread⟩⟩ | ⟨last, input, kept, unread⟩)
    · exact ⟨kept, Or.inl last⟩
    · exact ⟨kept, Or.inr ⟨unread, Or.inl ⟨_, get, rfl⟩⟩⟩
    · exact ⟨kept, Or.inr ⟨unread, Or.inr ⟨input, last⟩⟩⟩
  · rintro ⟨kept, last | ⟨unread, ⟨other, otherGet, rfl⟩ | ⟨input, last⟩⟩⟩
    · exact Or.inl ⟨kept, Or.inl last⟩
    · rw [get] at otherGet
      cases otherGet
      exact Or.inl ⟨kept, Or.inr ⟨rfl, unread⟩⟩
    · exact Or.inr ⟨last, input, kept, unread⟩

theorem free_nodup (run : Analysis program pinned ctx plan acts states) (i : Nat)
    (act : FhnMovementActions) (found : plan.actions[i]? = some act) : act.free.Nodup := by
  obtain ⟨inst, raw, get, facts, rfl⟩ := analysis_published run found
  have inputs : program.inputIds.Nodup := (List.nodup_append.mp run.valid.nodup).1
  refine List.nodup_append.mpr ⟨?_, ?_, ?_⟩
  · rw [facts.free]
    exact (workingSet _).nodup.filter _
  · split
    · exact inputs.filter _
    · exact List.nodup_nil
  · intro id dead other late same
    subst same
    rw [facts.free, mem_dead_iff run.valid run.uses run.pins get] at dead
    split at late
    · obtain ⟨input, -, unread⟩ := (mem_leftovers program pinned id).mp late
      rcases dead.2 with ⟨reads, -⟩ | ⟨rfl, -⟩
      · exact unread i reads
      · exact result_not_input run.valid get input
    · cases late

theorem all_frees_nodup (run : Analysis program pinned ctx plan acts states) :
    (plan.actions.flatMap (·.free)).Nodup := by
  rw [List.nodup_flatMap]
  constructor
  · intro act member
    obtain ⟨i, found⟩ := List.mem_iff_getElem?.mp member
    exact free_nodup run i act found
  · rw [List.pairwise_iff_getElem]
    intro i j iBound jBound order id early late
    have first := (mem_free_iff run i _ (List.getElem?_eq_getElem iBound) id).mp early
    have second := (mem_free_iff run j _ (List.getElem?_eq_getElem jBound) id).mp late
    have same := dies_at_unique run.valid first.2 second.2
    omega

theorem mem_all_frees_iff (run : Analysis program pinned ctx plan acts states)
    (nonempty : program.instructions ≠ []) (id : Nat) :
    id ∈ plan.actions.flatMap (·.free) ↔ id ∈ program.definedIds ∧ id ∉ pinned := by
  rw [List.mem_flatMap]
  constructor
  · rintro ⟨act, member, freed⟩
    obtain ⟨i, found⟩ := List.mem_iff_getElem?.mp member
    obtain ⟨kept, dies⟩ := (mem_free_iff run i act found id).mp freed
    exact ⟨dies_at_defined run.valid dies, kept⟩
  · rintro ⟨defined, kept⟩
    obtain ⟨i, dies⟩ := dies_at_exists nonempty defined
    have bound : i < plan.actions.length := by
      rw [analysis_plan_length run]
      exact dies_at_lt dies
    have found := List.getElem?_eq_getElem bound
    exact ⟨_, List.mem_of_getElem? found, (mem_free_iff run i _ found id).mpr ⟨kept, dies⟩⟩

end Analysis

/-- Every defined unpinned id is freed exactly once in the whole plan, at the
instruction where it dies; nothing else is freed. -/
theorem free_lists_exact (program : FhnProgram) (pinned : List Nat) (deviceBudget : UInt64)
    (policy : FhnEvictionPolicy) (model : Option FhnLevelModel) (plan : FhnMovementPlan)
    (nonempty : program.instructions ≠ [])
    (analyzed : analyze program pinned deviceBudget policy model = some plan) :
    (∀ id, (plan.actions.flatMap (·.free)).count id =
        if id ∈ program.definedIds ∧ id ∉ pinned then 1 else 0) ∧
      plan.actions.length = program.instructions.length ∧
      ∀ i act, plan.actions[i]? = some act → ∀ id,
        id ∈ act.free ↔ id ∉ pinned ∧ DiesAt program id i := by
  obtain ⟨levelOf, acts, states, -, run⟩ := analyze_run analyzed
  refine ⟨?_, analysis_plan_length run, mem_free_iff run⟩
  intro id
  have member := mem_all_frees_iff run nonempty id
  split
  · exact List.count_eq_one_of_mem (all_frees_nodup run) (member.mpr ‹_›)
  · exact List.count_eq_zero.mpr fun listed => absurd (member.mp listed) ‹_›

theorem free_lists_exact_sum_of_products :
    (sumOfProductsPlan.actions.flatMap (·.free)).count 10 = 1 ∧
      ∀ id, id ∈ [2, 3] ↔ id ∉ [12] ∧ DiesAt sumOfProducts id 1 := by
  obtain ⟨counts, -, located⟩ := free_lists_exact sumOfProducts [12] 20 .belady (some twoLevels)
    sumOfProductsPlan (by decide) analyze_sum_of_products
  exact ⟨counts 10, located 1 _ rfl⟩

end Fhenomenon.PlanLifetimes

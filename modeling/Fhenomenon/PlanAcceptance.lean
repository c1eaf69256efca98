import Fhenomenon.PlanBudget

/-!
# Which programs the planner accepts

With the tables built, the loop refuses a program only when some working set
does not fit the budget: once every resident outside the working set is gone,
what is left and what comes in is the working set itself.
-/

namespace Fhenomenon.PlanAcceptance

open Fhenomenon.Lib Fhenomenon.InstructionStream Fhenomenon.MovementPlanner
open Fhenomenon.PlannerTables Fhenomenon.PlannerSteps Fhenomenon.PlanLifetimes
open Fhenomenon.DeviceReplay Fhenomenon.PlanReplay Fhenomenon.PlanBudget

variable {program : FhnProgram} {pinned : List Nat} {ctx : PlanContext}

theorem sum_units_eq (cost : Nat → UInt64) (ids : List Nat) (start : UInt64) :
    sumUnits cost ids start = start + UInt64.ofNat (ids.map fun id => (cost id).toNat).sum := by
  induction ids generalizing start with
  | nil => simp [sumUnits]
  | cons id rest induction =>
      have unfolded : sumUnits cost (id :: rest) start = sumUnits cost rest (start + cost id) :=
        rfl
      rw [unfolded, induction, List.map_cons, List.sum_cons, UInt64.ofNat_add,
        UInt64.ofNat_toNat, UInt64.add_assoc]

theorem sum_units_nodup (ctx : PlanContext) (ids : List Nat) (nodup : ids.Nodup)
    (start : UInt64) :
    sumUnits ctx.cost ids start = start + UInt64.ofNat (costOf ctx ids.toFinset) := by
  rw [sum_units_eq, costOf, List.sum_toFinset _ nodup]

theorem to_finset_elems (set : OrderedSet Nat) : set.elems.toFinset = set.toFinset := rfl

def WorkingSetsFit (program : FhnProgram) (ctx : PlanContext) : Prop :=
  ctx.deviceBudget = 0 ∨ ∀ inst ∈ program.instructions,
    costOf ctx (workingSet inst).toFinset ≤ ctx.deviceBudget.toNat

/-- No working-set sum wraps. -/
def WorkingSumsFit (program : FhnProgram) (ctx : PlanContext) : Prop :=
  ∀ inst ∈ program.instructions, costOf ctx (workingSet inst).toFinset < 2 ^ 64

theorem working_defined (valid : SsaValid program) {i : Nat} {inst : FhnInstruction}
    (get : program.instructions[i]? = some inst) :
    (workingSet inst).toFinset ⊆ program.definedIds.toFinset := by
  intro id member
  rw [OrderedSet.mem_to_finset, mem_working_set] at member
  rw [List.mem_toFinset]
  rcases member with rfl | operand
  · exact result_mem_defined program i inst get
  · exact defined_before_subset program i
      (valid.operandsDefined i id ((reads_working get id).mpr operand))

theorem working_sums_of_total (valid : SsaValid program)
    (total : costOf ctx program.definedIds.toFinset < 2 ^ 64) : WorkingSumsFit program ctx := by
  intro inst member
  obtain ⟨i, get⟩ := List.mem_iff_getElem?.mp member
  exact lt_of_le_of_lt (cost_of_mono ctx (working_defined valid get)) total

theorem working_units (inst : FhnInstruction)
    (bounded : costOf ctx (workingSet inst).toFinset < 2 ^ 64) :
    (sumUnits ctx.cost (workingSet inst).elems 0).toNat =
      costOf ctx (workingSet inst).toFinset := by
  rw [sum_units_nodup ctx _ (workingSet inst).nodup, UInt64.zero_add, to_finset_elems,
    UInt64.toNat_ofNat', Nat.mod_eq_of_lt bounded]

/-- Once an instruction's working set fits, the eviction loop never runs out of
victims, even where the counter itself has wrapped. -/
theorem evict_loop_accepts (valid : SsaValid program) {i : Nat} {inst : FhnInstruction}
    (get : program.instructions[i]? = some inst) {state : PlanState}
    (holds : DeviceInvariant program pinned i state) (exact : UnitsExact ctx state)
    (bounded : costOf ctx (workingSet inst).toFinset < 2 ^ 64)
    (small : costOf ctx (workingSet inst).toFinset ≤ ctx.deviceBudget.toNat) :
    evictLoop ctx (i : Int) (workingSet inst)
      (sumUnits ctx.cost (toPrefetch state inst) (ctx.cost inst.resultId))
      state.resident.size state ≠ none := by
  intro looped
  obtain ⟨stuck, victims, evicted, onlyWorking, chosen, nodup, exceeds⟩ :=
    evict_loop_none _ _ _ _ _ _ (le_refl _) looped
  have asMoves : stuck = (victims.map Move.evict).foldl (applyMove ctx (i : Int)) state := by
    rw [evicted, List.foldl_map]
    rfl
  have legal : Legal state.resident.toFinset (victims.map Move.evict) := by
    refine legal_evicts _ _ nodup fun id victim => ?_
    rw [OrderedSet.mem_to_finset]
    exact (chosen id victim).1
  have stuckExact := units_exact_fold ctx i _ state legal exact
  rw [← asMoves] at stuckExact
  have stuckResident : stuck.resident.toFinset ⊆ state.resident.toFinset := by
    rw [asMoves, fold_resident, replay_evicts]
    exact Finset.sdiff_subset
  have freshResult : inst.resultId ∉ stuck.resident.toFinset := by
    intro held
    have old := stuckResident held
    rw [OrderedSet.mem_to_finset] at old
    exact result_not_defined_before valid i inst get (holds.defined _ old)
  -- What is left, the result and the missing operands never overlap.
  have apart : Disjoint (insert inst.resultId stuck.resident.toFinset)
      (toPrefetch state inst).toFinset := by
    rw [Finset.disjoint_left]
    intro id held incoming
    obtain ⟨operand, absent⟩ := (mem_to_prefetch state inst id).mp (by simpa using incoming)
    rcases Finset.mem_insert.mp held with rfl | kept
    · exact result_not_operand valid i inst get operand
    · exact absent ((OrderedSet.mem_to_finset _ _).mp (stuckResident kept))
  have within : insert inst.resultId stuck.resident.toFinset ∪
      (toPrefetch state inst).toFinset ⊆ (workingSet inst).toFinset := by
    intro id member
    rw [OrderedSet.mem_to_finset]
    rcases Finset.mem_union.mp member with held | incoming
    · rcases Finset.mem_insert.mp held with rfl | kept
      · exact (mem_working_set inst _).mpr (Or.inl rfl)
      · exact onlyWorking id ((OrderedSet.mem_to_finset _ _).mp kept)
    · have operand := ((mem_to_prefetch state inst id).mp (by simpa using incoming)).1
      exact (mem_working_set inst id).mpr (Or.inr operand)
  have sum : stuck.residentUnits +
      sumUnits ctx.cost (toPrefetch state inst) (ctx.cost inst.resultId) =
        UInt64.ofNat (costOf ctx (insert inst.resultId stuck.resident.toFinset ∪
          (toPrefetch state inst).toFinset)) := by
    have joined : costOf ctx (insert inst.resultId stuck.resident.toFinset ∪
        (toPrefetch state inst).toFinset) = costOf ctx stuck.resident.toFinset +
          (ctx.cost inst.resultId).toNat + costOf ctx (toPrefetch state inst).toFinset := by
      rw [costOf, Finset.sum_union apart, ← costOf, ← costOf,
        cost_of_insert ctx _ _ freshResult]
    rw [stuckExact, sum_units_nodup ctx _ (to_prefetch_nodup state inst), joined,
      UInt64.ofNat_add, UInt64.ofNat_add, UInt64.ofNat_toNat, UInt64.add_assoc]
  have fewer := cost_of_mono ctx within
  rw [sum, UInt64.lt_iff_toNat_lt, UInt64.toNat_ofNat',
    Nat.mod_eq_of_lt (lt_of_le_of_lt fewer bounded)] at exceeds
  omega

theorem make_room_accepts (valid : SsaValid program) {i : Nat} {inst : FhnInstruction}
    (get : program.instructions[i]? = some inst) {state : PlanState}
    (holds : DeviceInvariant program pinned i state) (exact : UnitsExact ctx state)
    (sums : WorkingSumsFit program ctx) (fits : WorkingSetsFit program ctx) :
    ∃ made, makeRoom ctx (i : Int) inst state = some made := by
  rcases fits with unlimited | fits
  · exact ⟨_, by rw [makeRoom, if_neg (by simp [unlimited])]⟩
  · have small := fits inst (List.mem_of_getElem? get)
    have bounded := sums inst (List.mem_of_getElem? get)
    by_cases limited : ctx.deviceBudget > 0
    · have workingUnits : ¬sumUnits ctx.cost (workingSet inst).elems 0 > ctx.deviceBudget := by
        rw [gt_iff_lt, UInt64.not_lt, UInt64.le_iff_toNat_le, working_units inst bounded]
        exact small
      rw [makeRoom, if_pos limited, if_neg workingUnits]
      exact Option.ne_none_iff_exists'.mp (evict_loop_accepts valid get holds exact bounded small)
    · exact ⟨_, by rw [makeRoom, if_neg limited]⟩

theorem plan_step_accepts (valid : SsaValid program) {i : Nat} {inst : FhnInstruction}
    (get : program.instructions[i]? = some inst) {state : PlanState}
    (holds : DeviceInvariant program pinned i state) (exact : UnitsExact ctx state)
    (sums : WorkingSumsFit program ctx) (fits : WorkingSetsFit program ctx) :
    ∃ act next, planStep ctx i inst state = some (act, next) := by
  obtain ⟨⟨victims, roomy⟩, made⟩ := make_room_accepts valid get holds exact sums fits
  simp only [planStep, made]
  exact ⟨_, _, rfl⟩

theorem plan_loop_accepts (valid : SsaValid program) (uses : ctx.uses = usePositions program)
    (pins : ctx.pinned = pinned) (sums : WorkingSumsFit program ctx)
    (fits : WorkingSetsFit program ctx) (rest : List FhnInstruction) (i : Nat)
    (remaining : program.instructions.drop i = rest) (state : PlanState)
    (holds : DeviceInvariant program pinned i state) (exact : UnitsExact ctx state) :
    ∃ result, planLoop ctx rest i state = some result := by
  induction rest generalizing i state with
  | nil => exact ⟨_, rfl⟩
  | cons inst rest induction =>
      have get : program.instructions[i]? = some inst := by
        have head := congrArg List.head? remaining
        simpa [List.head?_drop] using head
      have tail : program.instructions.drop (i + 1) = rest := by
        rw [← List.tail_drop, remaining, List.tail_cons]
      obtain ⟨act, next, stepped⟩ := plan_step_accepts valid get holds exact sums fits
      have facts := plan_step_facts ctx i inst state next act stepped
      have legal := step_legal valid get facts holds
      obtain ⟨⟨acts, final⟩, looped⟩ := induction (i + 1) tail next
        (device_invariant_step valid uses pins get facts holds)
        (units_exact_step facts legal exact)
      simp only [planLoop, stepped, looped]
      exact ⟨_, rfl⟩

/-- A single-assignment program whose levels resolve and whose working sets fit
is analysed successfully. -/
theorem analyze_accepts (program : FhnProgram) (pinned : List Nat) (deviceBudget : UInt64)
    (policy : FhnEvictionPolicy) (model : Option FhnLevelModel) (levelOf : Nat → Option Int)
    (valid : SsaValid program)
    (leveled : levelTable model program = some levelOf)
    (sums : WorkingSumsFit program
      (planContext (usePositions program) levelOf pinned deviceBudget policy model))
    (fits : WorkingSetsFit program
      (planContext (usePositions program) levelOf pinned deviceBudget policy model)) :
    ∃ plan, analyze program pinned deviceBudget policy model = some plan := by
  have prepared := (prepare_iff program model (usePositions program) levelOf).mpr
    ⟨valid, rfl, leveled⟩
  have start : DeviceInvariant program pinned 0 {} := by
    constructor <;> simp
  obtain ⟨⟨acts, final⟩, looped⟩ := plan_loop_accepts valid rfl rfl sums fits
    program.instructions 0 rfl {} start rfl
  simp only [analyze, prepared, looped, Option.bind_eq_bind, Option.bind_some]
  exact ⟨_, rfl⟩

theorem plan_loop_unlimited (unlimited : ctx.deviceBudget = 0) (rest : List FhnInstruction)
    (i : Nat) (state : PlanState) : ∃ result, planLoop ctx rest i state = some result := by
  induction rest generalizing i state with
  | nil => exact ⟨_, rfl⟩
  | cons inst rest induction =>
      have roomy : makeRoom ctx (i : Int) inst state = some ([], state) := by
        rw [makeRoom, if_neg (by simp [unlimited])]
      obtain ⟨⟨act, next⟩, stepped⟩ : ∃ outcome, planStep ctx i inst state = some outcome := by
        simp only [planStep, roomy]
        exact ⟨_, rfl⟩
      obtain ⟨⟨acts, final⟩, looped⟩ := induction (i + 1) next
      simp only [planLoop, stepped, looped]
      exact ⟨_, rfl⟩

theorem analyze_unlimited_accepts (program : FhnProgram) (pinned : List Nat)
    (policy : FhnEvictionPolicy) (valid : SsaValid program) :
    ∃ plan, analyze program pinned 0 policy none = some plan := by
  have prepared := (prepare_iff program none (usePositions program) (fun _ => none)).mpr
    ⟨valid, rfl, rfl⟩
  have unlimited : (planContext (usePositions program) (fun _ => none) pinned 0 policy
      none).deviceBudget = 0 := rfl
  obtain ⟨⟨acts, final⟩, looped⟩ := plan_loop_unlimited unlimited program.instructions 0 {}
  simp only [analyze, prepared, looped, Option.bind_eq_bind, Option.bind_some]
  exact ⟨_, rfl⟩

end Fhenomenon.PlanAcceptance

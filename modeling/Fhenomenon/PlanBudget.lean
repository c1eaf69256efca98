import Fhenomenon.PlanReplay

/-!
# Counters, budget and statistics of a plan

`resident_units` is the cost of the replayed resident set modulo 2^64 in every
run; when no byte sum reaches 2^64 it is the cost itself, so the budget test the
loop makes on the counter bounds the real total at every moment.
-/

namespace Fhenomenon.PlanBudget

open Fhenomenon.Lib Fhenomenon.InstructionStream Fhenomenon.MovementPlanner
open Fhenomenon.PlannerTables Fhenomenon.PlannerSteps Fhenomenon.PlanLifetimes
open Fhenomenon.DeviceReplay Fhenomenon.PlanReplay

/-- One id's cost: `bytes_by_level[level(id)]`, or one without a model. -/
def idCost (program : FhnProgram) (model : Option FhnLevelModel) (id : Nat) : Nat :=
  match levelTable model program with
  | some levelOf => (unitCost model levelOf id).toNat
  | none => 0

def costOf (ctx : PlanContext) (ids : Finset Nat) : Nat := ∑ id ∈ ids, (ctx.cost id).toNat

/-- The counter holds the cost of the resident set modulo 2^64. -/
def UnitsExact (ctx : PlanContext) (state : PlanState) : Prop :=
  state.residentUnits = UInt64.ofNat (costOf ctx state.resident.toFinset)

theorem cost_of_insert (ctx : PlanContext) (ids : Finset Nat) (id : Nat) (absent : id ∉ ids) :
    costOf ctx (insert id ids) = costOf ctx ids + (ctx.cost id).toNat := by
  rw [costOf, Finset.sum_insert absent, costOf, Nat.add_comm]

theorem cost_of_erase (ctx : PlanContext) (ids : Finset Nat) (id : Nat) (member : id ∈ ids) :
    costOf ctx ids = costOf ctx (ids.erase id) + (ctx.cost id).toNat := by
  rw [costOf, costOf, Finset.sum_erase_add ids _ member]

theorem cost_of_mono (ctx : PlanContext) {small large : Finset Nat} (subset : small ⊆ large) :
    costOf ctx small ≤ costOf ctx large :=
  Finset.sum_le_sum_of_subset subset

theorem units_exact_move (ctx : PlanContext) (pos : Int) (state : PlanState) (move : Move)
    (legal : legalMove state.resident.toFinset move) (exact : UnitsExact ctx state) :
    UnitsExact ctx (applyMove ctx pos state move) := by
  unfold UnitsExact at exact ⊢
  rw [apply_move_resident]
  have leaves (id : Nat) (member : id ∈ state.resident.toFinset) :
      state.residentUnits - ctx.cost id =
        UInt64.ofNat (costOf ctx (state.resident.toFinset.erase id)) := by
    rw [exact, cost_of_erase ctx _ id member, UInt64.ofNat_add, UInt64.ofNat_toNat,
      UInt64.add_sub_cancel]
  have enters (id : Nat) (absent : id ∉ state.resident.toFinset) :
      state.residentUnits + ctx.cost id =
        UInt64.ofNat (costOf ctx (insert id state.resident.toFinset)) := by
    rw [exact, cost_of_insert ctx _ id absent, UInt64.ofNat_add, UInt64.ofNat_toNat]
  cases move with
  | evict id => exact leaves id legal
  | alloc id => exact enters id legal
  | prefetch id => exact enters id legal
  | free id => exact leaves id legal

theorem units_exact_fold (ctx : PlanContext) (pos : Int) (ms : List Move) (state : PlanState)
    (legal : Legal state.resident.toFinset ms) (exact : UnitsExact ctx state) :
    UnitsExact ctx (ms.foldl (applyMove ctx pos) state) := by
  induction ms generalizing state with
  | nil => exact exact
  | cons move rest induction =>
      refine induction (applyMove ctx pos state move) ?_
        (units_exact_move ctx pos state move legal.1 exact)
      rw [apply_move_resident]
      exact legal.2

theorem units_to_nat (ctx : PlanContext) (state : PlanState) (exact : UnitsExact ctx state)
    (fits : costOf ctx state.resident.toFinset < 2 ^ 64) :
    state.residentUnits.toNat = costOf ctx state.resident.toFinset := by
  rw [exact, UInt64.toNat_ofNat']
  exact Nat.mod_eq_of_lt fits

theorem sum_units_add (cost : Nat → UInt64) (ids : List Nat) (base start : UInt64) :
    sumUnits cost ids (base + start) = base + sumUnits cost ids start := by
  induction ids generalizing start with
  | nil => rfl
  | cons id rest induction =>
      simp only [sumUnits, List.foldl_cons] at induction ⊢
      rw [UInt64.add_assoc]
      exact induction (start + cost id)

theorem fold_prefetch_units (ctx : PlanContext) (pos : Int) (ids : List Nat) (state : PlanState) :
    (ids.foldl (fun st id => st.prefetch ctx pos id) state).residentUnits =
      sumUnits ctx.cost ids state.residentUnits := by
  induction ids generalizing state with
  | nil => rfl
  | cons id rest induction => exact induction (state.prefetch ctx pos id)

theorem dispatch_units {ctx : PlanContext} {i : Nat} {inst : FhnInstruction}
    {before after : PlanState} {act : FhnMovementActions}
    (facts : StepFacts ctx i inst before act after) (limited : 0 < ctx.deviceBudget) :
    ((loadMoves act).foldl (applyMove ctx (i : Int)) before).residentUnits ≤
      ctx.deviceBudget := by
  obtain ⟨roomy, made⟩ := facts.room
  rcases make_room_spec ctx i inst before roomy act.evict made with ⟨zero, -, -⟩ | ⟨-, -, run⟩
  · exact absurd limited (by simp [zero])
  · have within := evict_run_within run
    rw [← facts.prefetch, ← sum_units_add] at within
    have loaded : ((loadMoves act).foldl (applyMove ctx (i : Int)) before).residentUnits =
        sumUnits ctx.cost act.prefetch (roomy.residentUnits + ctx.cost inst.resultId) := by
      rw [loadMoves, facts.alloc, List.foldl_append, List.foldl_append, List.foldl_map,
        List.foldl_map, List.foldl_map, List.foldl_cons, List.foldl_nil, evict_run_state run]
      exact fold_prefetch_units ctx i act.prefetch _
    rw [loaded]
    exact within

section Analysis

variable {program : FhnProgram} {pinned : List Nat} {ctx : PlanContext} {plan : FhnMovementPlan}
  {acts : List FhnMovementActions} {states : Nat → PlanState}

theorem units_exact_step {i : Nat} {inst : FhnInstruction} {before after : PlanState}
    {act : FhnMovementActions} (facts : StepFacts ctx i inst before act after)
    (legal : Legal before.resident.toFinset (moves act)) (exact : UnitsExact ctx before) :
    UnitsExact ctx after := by
  have moved := units_exact_fold ctx i (moves act) before legal exact
  unfold UnitsExact at moved ⊢
  rw [facts.units, facts.resident]
  exact moved

theorem units_exact (run : Analysis program pinned ctx plan acts states) (i : Nat)
    (bound : i ≤ program.instructions.length) : UnitsExact ctx (states i) := by
  induction i with
  | zero =>
      rw [run.start]
      rfl
  | succ i induction =>
      have get := List.getElem?_eq_getElem (show i < program.instructions.length by omega)
      obtain ⟨act, -, facts⟩ := analysis_step run i _ get
      have legal := step_legal run.valid get facts (device_invariant run i (by omega))
      exact units_exact_step facts legal (induction (by omega))

/-- No sum of costs the loop forms at instruction `i` reaches 2^64. -/
def SumsFit (program : FhnProgram) (ctx : PlanContext) (states : Nat → PlanState) : Prop :=
  ∀ i inst, program.instructions[i]? = some inst →
    costOf ctx ((states i).resident.toFinset ∪ (workingSet inst).toFinset) < 2 ^ 64

theorem counter_exact (run : Analysis program pinned ctx plan acts states)
    (fits : SumsFit program ctx states) {i : Nat} {inst : FhnInstruction}
    (get : program.instructions[i]? = some inst) {act : FhnMovementActions}
    (facts : StepFacts ctx i inst (states i) act (states (i + 1))) (part : List Move)
    (early : part <+: moves act) :
    (part.foldl (applyMove ctx (i : Int)) (states i)).residentUnits.toNat =
      costOf ctx (replay (states i).resident.toFinset part) := by
  have bound := (List.getElem?_eq_some_iff.mp get).1
  obtain ⟨rest, whole⟩ := early
  have legal : Legal (states i).resident.toFinset part := by
    have all := step_legal run.valid get facts (device_invariant run i (by omega))
    rw [← whole, legal_append] at all
    exact all.1
  have exact := units_exact_fold ctx i part (states i) legal (units_exact run i (by omega))
  rw [← fold_resident ctx i]
  apply units_to_nat ctx _ exact
  rw [fold_resident]
  refine lt_of_le_of_lt (cost_of_mono ctx ?_) (fits i inst get)
  rcases replay_part_subset _ act part ⟨rest, whole⟩ with small | small
  · exact small.trans Finset.subset_union_left
  · exact small.trans (dispatch_subset (step_choices facts))

theorem counter_covers (run : Analysis program pinned ctx plan acts states)
    (fits : SumsFit program ctx states) {i : Nat} {inst : FhnInstruction}
    (get : program.instructions[i]? = some inst) {act : FhnMovementActions}
    (facts : StepFacts ctx i inst (states i) act (states (i + 1))) (part : List Move)
    (move : Move) (early : part ++ [move] <+: moves act) (id : Nat)
    (leaving : move = Move.evict id ∨ move = Move.free id) :
    ctx.cost id ≤ (part.foldl (applyMove ctx (i : Int)) (states i)).residentUnits := by
  have bound := (List.getElem?_eq_some_iff.mp get).1
  obtain ⟨rest, whole⟩ := early
  have all := step_legal run.valid get facts (device_invariant run i (by omega))
  rw [← whole, legal_append, legal_append] at all
  have held : id ∈ replay (states i).resident.toFinset part := by
    rcases leaving with rfl | rfl
    · exact all.1.2.1
    · exact all.1.2.1
  have before : part <+: moves act := ⟨[move] ++ rest, by rw [← List.append_assoc, whole]⟩
  rw [UInt64.le_iff_toNat_le, counter_exact run fits get facts part before]
  exact Finset.single_le_sum (f := fun id => (ctx.cost id).toNat) (by simp) held

theorem dispatch_within (run : Analysis program pinned ctx plan acts states)
    (fits : SumsFit program ctx states) (limited : 0 < ctx.deviceBudget) {i : Nat}
    {inst : FhnInstruction} (get : program.instructions[i]? = some inst)
    {act : FhnMovementActions} (facts : StepFacts ctx i inst (states i) act (states (i + 1))) :
    costOf ctx (replay (states i).resident.toFinset (loadMoves act)) ≤
      ctx.deviceBudget.toNat := by
  have counted := counter_exact run fits get facts (loadMoves act) ⟨_, rfl⟩
  rw [← counted, ← UInt64.le_iff_toNat_le]
  exact dispatch_units facts limited

theorem resident_within (run : Analysis program pinned ctx plan acts states)
    (fits : SumsFit program ctx states) (limited : 0 < ctx.deviceBudget) (i : Nat)
    (bound : i ≤ program.instructions.length) :
    costOf ctx (states i).resident.toFinset ≤ ctx.deviceBudget.toNat := by
  cases i with
  | zero =>
      rw [run.start]
      exact Nat.zero_le _
  | succ i =>
      have get := List.getElem?_eq_getElem (show i < program.instructions.length by omega)
      obtain ⟨act, -, facts⟩ := analysis_step run i _ get
      refine le_trans (cost_of_mono ctx ?_) (dispatch_within run fits limited get facts)
      rw [after_resident facts, replay_moves]
      exact Finset.sdiff_subset

theorem moment_bound (run : Analysis program pinned ctx plan acts states) (weight : Nat → Nat)
    (bound : Nat)
    (before : ∀ i, i < program.instructions.length →
      ∑ id ∈ (states i).resident.toFinset, weight id ≤ bound)
    (dispatch : ∀ i inst act, program.instructions[i]? = some inst →
      StepFacts ctx i inst (states i) act (states (i + 1)) →
      ∑ id ∈ replay (states i).resident.toFinset (loadMoves act), weight id ≤ bound)
    (ms : List Move) (moment : ms <+: allMoves plan) :
    ∑ id ∈ replay ∅ ms, weight id ≤ bound := by
  rcases moment_cases plan ms moment with rfl | ⟨i, published, part, found, early, rfl⟩
  · simp [replay]
  · obtain ⟨inst, act, get, facts, rfl⟩ := analysis_published run found
    have inRange : i < program.instructions.length := (List.getElem?_eq_some_iff.mp get).1
    have here : replay ∅ (movesBefore plan i) = (states i).resident.toFinset :=
      resident_before_eq run i (by omega)
    rw [replay_append, here]
    rcases replay_part_subset _ _ part early with small | small
    · exact (Finset.sum_le_sum_of_subset small).trans (before i inRange)
    · exact (Finset.sum_le_sum_of_subset small).trans (dispatch i _ act get facts)

theorem dispatch_moment (run : Analysis program pinned ctx plan acts states) {i : Nat}
    {inst : FhnInstruction} (get : program.instructions[i]? = some inst)
    {act : FhnMovementActions} (facts : StepFacts ctx i inst (states i) act (states (i + 1))) :
    ∃ ms, ms <+: allMoves plan ∧
      replay ∅ ms = replay (states i).resident.toFinset (loadMoves act) := by
  obtain ⟨stepAct, found, stepFacts⟩ := analysis_step run i inst get
  have planned := analysis_action run i stepAct found
  have same : loadMoves stepAct = loadMoves act := by
    obtain ⟨_, firstRoom⟩ := stepFacts.room
    obtain ⟨_, secondRoom⟩ := facts.room
    rw [firstRoom, Option.some.injEq, Prod.mk.injEq] at secondRoom
    rw [loadMoves, loadMoves, secondRoom.1, stepFacts.alloc, facts.alloc, stepFacts.prefetch,
      facts.prefetch]
  have bound := (List.getElem?_eq_some_iff.mp get).1
  refine ⟨_, moment_of_part plan i _ planned (loadMoves act) ?_, ?_⟩
  · rw [← same]
    exact ⟨_, rfl⟩
  · have here : replay ∅ (movesBefore plan i) = (states i).resident.toFinset :=
      resident_before_eq run i (by omega)
    rw [replay_append, here]

/-- A running maximum over dispatches is the peak of the replay. -/
theorem mark_eq_peak (run : Analysis program pinned ctx plan acts states) (weight : Nat → Nat)
    (mark : Nat → Nat) (first : mark 0 = 0)
    (next : ∀ i inst act, program.instructions[i]? = some inst →
      StepFacts ctx i inst (states i) act (states (i + 1)) → mark (i + 1) =
        max (mark i) (∑ id ∈ replay (states i).resident.toFinset (loadMoves act), weight id)) :
    mark program.instructions.length = peak plan weight := by
  have grows : ∀ i j, i ≤ j → j ≤ program.instructions.length → mark i ≤ mark j := by
    intro i j order bound
    induction j, order using Nat.le_induction with
    | base => exact le_refl _
    | succ j order induction =>
        have get := List.getElem?_eq_getElem (show j < program.instructions.length by omega)
        obtain ⟨act, -, facts⟩ := analysis_step run j _ get
        rw [next j _ act get facts]
        exact (induction (by omega)).trans (le_max_left _ _)
  have dispatched (i : Nat) (inst : FhnInstruction) (act : FhnMovementActions)
      (get : program.instructions[i]? = some inst)
      (facts : StepFacts ctx i inst (states i) act (states (i + 1))) :
      ∑ id ∈ replay (states i).resident.toFinset (loadMoves act), weight id ≤
        mark program.instructions.length := by
    have bound := (List.getElem?_eq_some_iff.mp get).1
    refine le_trans ?_ (grows (i + 1) _ (by omega) (le_refl _))
    rw [next i inst act get facts]
    exact le_max_right _ _
  apply le_antisymm
  · have below : ∀ i, i ≤ program.instructions.length → mark i ≤ peak plan weight := by
      intro i bound
      induction i with
      | zero => simp [first]
      | succ i induction =>
          have get := List.getElem?_eq_getElem (show i < program.instructions.length by omega)
          obtain ⟨act, -, facts⟩ := analysis_step run i _ get
          rw [next i _ act get facts]
          refine max_le (induction (by omega)) ?_
          obtain ⟨ms, moment, same⟩ := dispatch_moment run get facts
          rw [← same]
          exact le_peak plan weight ms moment
    exact below _ (le_refl _)
  · apply peak_le
    intro ms moment
    refine moment_bound run weight _ ?_ dispatched ms moment
    intro i bound
    cases i with
    | zero =>
        rw [run.start]
        simp
    | succ i =>
        have get := List.getElem?_eq_getElem (show i < program.instructions.length by omega)
        obtain ⟨act, -, facts⟩ := analysis_step run i _ get
        refine le_trans (Finset.sum_le_sum_of_subset ?_) (dispatched i _ act get facts)
        rw [after_resident facts, replay_moves]
        exact Finset.sdiff_subset

end Analysis

end Fhenomenon.PlanBudget

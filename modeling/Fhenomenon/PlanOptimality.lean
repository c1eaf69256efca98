import Fhenomenon.Lib.FarthestUse
import Fhenomenon.PlanAcceptance
import Fhenomenon.PlanSoundness

/-!
# Belady plans are optimal in slot mode

A schedule is any choice of evictions and prefetches before each instruction.
The planner's run under Belady is a farthest-next-use run, and every legal
schedule is a run of the same requests, so the optimality of that rule bounds
both of the planner's counters.
-/

namespace Fhenomenon.PlanOptimality

open Fhenomenon.Lib Fhenomenon.InstructionStream Fhenomenon.MovementPlanner
open Fhenomenon.PlannerTables Fhenomenon.PlannerSteps Fhenomenon.PlanLifetimes
open Fhenomenon.DeviceReplay Fhenomenon.PlanReplay Fhenomenon.PlanBudget
open Fhenomenon.PlanAcceptance Fhenomenon.PlanSoundness
open Fhenomenon.Lib.FarthestUse (Requests Run Farthest)

def readLater (program : FhnProgram) (i id : Nat) : Bool :=
  (program.instructions.drop (i + 1)).any fun inst => decide (id ∈ inst.usedOperands)

def freedAfter (program : FhnProgram) (pinned : List Nat) (i : Nat) (inst : FhnInstruction) :
    Finset Nat :=
  (workingSet inst).toFinset.filter fun id => id ∉ pinned ∧ readLater program i id = false

/-- The transfers made before each instruction, in order. -/
abbrev Schedule := Nat → List Move

def scheduleResident (program : FhnProgram) (pinned : List Nat) (schedule : Schedule) :
    Nat → Finset Nat
  | 0 => ∅
  | i + 1 =>
      match program.instructions[i]? with
      | some inst =>
          insert inst.resultId (replay (scheduleResident program pinned schedule i) (schedule i)) \
            freedAfter program pinned i inst
      | none => scheduleResident program pinned schedule i

/-- Inputs start off the device and results are created resident. Only ids whose
contents exist are prefetched, only resident ids are evicted, the budget holds
after every transfer, and each instruction finds its working set. -/
structure LegalSchedule (program : FhnProgram) (pinned : List Nat) (budget : Nat)
    (schedule : Schedule) : Prop where
  transfers : ∀ i, ∀ move ∈ schedule i,
    (∃ id, move = Move.evict id) ∨ (∃ id, move = Move.prefetch id)
  available : ∀ i id, Move.prefetch id ∈ schedule i → id ∈ program.definedBefore i ∧
    ∀ j inst, j < i → program.instructions[j]? = some inst → id ∉ freedAfter program pinned j inst
  legal : ∀ i, i < program.instructions.length →
    Legal (scheduleResident program pinned schedule i) (schedule i)
  within : ∀ i, i < program.instructions.length → ∀ part, part <+: schedule i →
    (replay (scheduleResident program pinned schedule i) part).card ≤ budget
  served : ∀ i inst, program.instructions[i]? = some inst →
    (workingSet inst).toFinset ⊆
      insert inst.resultId (replay (scheduleResident program pinned schedule i) (schedule i))
  room : ∀ i inst, program.instructions[i]? = some inst →
    (insert inst.resultId
      (replay (scheduleResident program pinned schedule i) (schedule i))).card ≤ budget

def isPrefetch : Move → Bool
  | .prefetch _ => true
  | _ => false

def isEvict : Move → Bool
  | .evict _ => true
  | _ => false

def schedulePrefetches (program : FhnProgram) (schedule : Schedule) : Nat :=
  ∑ i ∈ Finset.range program.instructions.length, (schedule i).countP isPrefetch

def scheduleEvictions (program : FhnProgram) (schedule : Schedule) : Nat :=
  ∑ i ∈ Finset.range program.instructions.length, (schedule i).countP isEvict

theorem read_later_iff (program : FhnProgram) (i id : Nat) :
    readLater program i id = true ↔ ∃ j, i < j ∧ program.ReadsAt j id := by
  rw [readLater, List.any_eq_true]
  constructor
  · rintro ⟨inst, later, member⟩
    obtain ⟨k, get⟩ := List.mem_iff_getElem?.mp later
    rw [List.getElem?_drop] at get
    exact ⟨i + 1 + k, by omega, inst, get, of_decide_eq_true member⟩
  · rintro ⟨j, later, inst, get, member⟩
    refine ⟨inst, List.mem_iff_getElem?.mpr ⟨j - (i + 1), ?_⟩, decide_eq_true member⟩
    rw [List.getElem?_drop, show i + 1 + (j - (i + 1)) = j by omega]
    exact get

theorem read_later_false (program : FhnProgram) (i id : Nat) :
    readLater program i id = false ↔ ∀ j, program.ReadsAt j id → j ≤ i := by
  rw [← Bool.not_eq_true, read_later_iff]
  push Not
  constructor
  · intro unread j reads
    by_contra late
    exact unread j (by omega) reads
  · intro early j late reads
    have bound := early j reads
    omega

/-- The planner's death test frees exactly `freedAfter`. -/
theorem mem_freed_after {program : FhnProgram} (valid : SsaValid program) {pinned : List Nat}
    {ctx : PlanContext} (uses : ctx.uses = usePositions program) (pins : ctx.pinned = pinned)
    {i : Nat} {inst : FhnInstruction} (get : program.instructions[i]? = some inst) (id : Nat) :
    id ∈ (workingSet inst).elems.filter (diesAt ctx (i : Int) inst) ↔
      id ∈ freedAfter program pinned i inst := by
  rw [mem_dead_iff valid uses pins get, freedAfter, Finset.mem_filter, OrderedSet.mem_to_finset,
    mem_working_set, read_later_false]
  constructor
  · rintro ⟨kept, ⟨reads, last⟩ | ⟨rfl, unread⟩⟩
    · exact ⟨Or.inr ((reads_working get id).mp reads), kept, last⟩
    · exact ⟨Or.inl rfl, kept, fun j reads => absurd reads (unread j)⟩
  · rintro ⟨rfl | operand, kept, last⟩
    · refine ⟨kept, Or.inr ⟨rfl, fun j reads => ?_⟩⟩
      have early := last j reads
      have late := result_read_later valid get reads
      omega
    · exact ⟨kept, Or.inl ⟨(reads_working get id).mpr operand, last⟩⟩

section Requests

variable (program : FhnProgram) (pinned : List Nat)

def operandsAt (i : Nat) : Finset Nat :=
  match program.instructions[i]? with
  | some inst => (operandSet inst).toFinset
  | none => ∅

def resultsAt (i : Nat) : Finset Nat :=
  match program.instructions[i]? with
  | some inst => {inst.resultId}
  | none => ∅

def freedAt (i : Nat) : Finset Nat :=
  match program.instructions[i]? with
  | some inst => freedAfter program pinned i inst
  | none => ∅

theorem mem_operands_at (i id : Nat) : id ∈ operandsAt program i ↔ program.ReadsAt i id := by
  unfold operandsAt
  cases get : program.instructions[i]? with
  | none => simp [FhnProgram.ReadsAt, get]
  | some inst =>
      rw [OrderedSet.mem_to_finset, mem_operand_set, reads_working get]

theorem working_at {i : Nat} {inst : FhnInstruction}
    (get : program.instructions[i]? = some inst) :
    operandsAt program i ∪ resultsAt program i = (workingSet inst).toFinset := by
  ext id
  rw [OrderedSet.mem_to_finset, mem_working_set, Finset.mem_union, mem_operands_at,
    reads_working get, resultsAt, get, Finset.mem_singleton, or_comm]

/-- The instructions as requests, ordered by the planner's own next-use test. -/
def programRequests (valid : SsaValid program) : Requests Nat (WithTop Int) where
  operands := operandsAt program
  fresh := resultsAt program
  dead := freedAt program pinned
  now := fun i => ((i : Int) : WithTop Int)
  nextUse := fun i id => nextUseAfter (usePositions program) id ((i : Int) - 1)
  apart := by
    intro i
    rw [Finset.disjoint_left]
    intro id reads result
    unfold resultsAt at result
    cases get : program.instructions[i]? with
    | none => simp [get] at result
    | some inst =>
        rw [get, Finset.mem_singleton] at result
        subst result
        exact result_not_operand valid i inst get
          ((reads_working get _).mp ((mem_operands_at program i _).mp reads))
  deadWorking := by
    intro i id dead
    unfold freedAt at dead
    cases get : program.instructions[i]? with
    | none => simp [get] at dead
    | some inst =>
        rw [get] at dead
        rw [working_at program get]
        exact (Finset.mem_filter.mp dead).1
  dueNow := by
    intro i id
    rw [mem_operands_at]
    constructor
    · intro soon
      cases found : nextUseAfter (usePositions program) id ((i : Int) - 1) with
      | top =>
          rw [found] at soon
          exact absurd soon (by simp)
      | coe use =>
          obtain ⟨late, ⟨j, reads, rfl⟩, -⟩ := next_use_after_eq_coe program id _ use found
          rw [found, WithTop.coe_le_coe] at soon
          have same : j = i := by omega
          exact same ▸ reads
    · intro reads
      exact next_use_after_le program id _ i reads (by omega)
  unchanged := by
    intro i id outside
    have unread : ¬program.ReadsAt i id := fun reads =>
      outside (Finset.mem_union_left _ ((mem_operands_at program i id).mpr reads))
    have next := next_use_after_succ program id i unread
    have shift : ((i + 1 : Nat) : Int) - 1 = (i : Int) := by
      push_cast
      ring
    rw [shift]
    exact next

end Requests

section Schedule

def scheduleRun (program : FhnProgram) (pinned : List Nat) (schedule : Schedule) : Run Nat where
  resident := scheduleResident program pinned schedule
  evict := fun i => scheduleResident program pinned schedule i \
    replay (scheduleResident program pinned schedule i) (schedule i)
  prefetch := fun i => replay (scheduleResident program pinned schedule i) (schedule i) \
    scheduleResident program pinned schedule i

theorem net_prefetches_le (resident : Finset Nat) (ms : List Move)
    (transfers : ∀ move ∈ ms, (∃ id, move = Move.evict id) ∨ (∃ id, move = Move.prefetch id)) :
    (replay resident ms \ resident).card ≤ ms.countP isPrefetch := by
  induction ms generalizing resident with
  | nil => simp [replay]
  | cons move rest induction =>
      obtain ⟨head, tail⟩ := List.forall_mem_cons.mp transfers
      have later := induction (replayMove resident move) tail
      have split : replay resident (move :: rest) \ resident ⊆
          (replay (replayMove resident move) rest \ replayMove resident move) ∪
            (replayMove resident move \ resident) := by
        intro id member
        have step : replay resident (move :: rest) = replay (replayMove resident move) rest := rfl
        rw [step] at member
        simp only [Finset.mem_union, Finset.mem_sdiff] at member ⊢
        tauto
      have size := (Finset.card_le_card split).trans (Finset.card_union_le _ _)
      rcases head with ⟨id, rfl⟩ | ⟨id, rfl⟩
      · have none : replayMove resident (Move.evict id) \ resident = ∅ :=
          Finset.sdiff_eq_empty_iff_subset.mpr (Finset.erase_subset id resident)
        rw [none, Finset.card_empty] at size
        rw [List.countP_cons_of_neg (by simp [isPrefetch])]
        omega
      · have one : (replayMove resident (Move.prefetch id) \ resident).card ≤ 1 := by
          refine (Finset.card_le_card ?_).trans (Finset.card_singleton id).le
          intro other member
          simp only [replayMove, Finset.mem_sdiff, Finset.mem_insert] at member
          rw [Finset.mem_singleton]
          tauto
        rw [List.countP_cons_of_pos (by rfl)]
        omega

theorem net_evictions_le (resident : Finset Nat) (ms : List Move)
    (transfers : ∀ move ∈ ms, (∃ id, move = Move.evict id) ∨ (∃ id, move = Move.prefetch id)) :
    (resident \ replay resident ms).card ≤ ms.countP isEvict := by
  induction ms generalizing resident with
  | nil => simp [replay]
  | cons move rest induction =>
      obtain ⟨head, tail⟩ := List.forall_mem_cons.mp transfers
      have later := induction (replayMove resident move) tail
      have split : resident \ replay resident (move :: rest) ⊆
          (resident \ replayMove resident move) ∪
            (replayMove resident move \ replay (replayMove resident move) rest) := by
        intro id member
        have step : replay resident (move :: rest) = replay (replayMove resident move) rest := rfl
        rw [step] at member
        simp only [Finset.mem_union, Finset.mem_sdiff] at member ⊢
        tauto
      have size := (Finset.card_le_card split).trans (Finset.card_union_le _ _)
      rcases head with ⟨id, rfl⟩ | ⟨id, rfl⟩
      · have one : (resident \ replayMove resident (Move.evict id)).card ≤ 1 := by
          refine (Finset.card_le_card ?_).trans (Finset.card_singleton id).le
          intro other member
          simp only [replayMove, Finset.mem_sdiff, Finset.mem_erase] at member
          rw [Finset.mem_singleton]
          tauto
        rw [List.countP_cons_of_pos (by rfl)]
        omega
      · have none : resident \ replayMove resident (Move.prefetch id) = ∅ :=
          Finset.sdiff_eq_empty_iff_subset.mpr (Finset.subset_insert id resident)
        rw [none, Finset.card_empty] at size
        rw [List.countP_cons_of_neg (by simp [isEvict])]
        omega

variable {program : FhnProgram} {pinned : List Nat} {budget : Nat} {schedule : Schedule}

theorem replay_defined (legal : LegalSchedule program pinned budget schedule) (i : Nat)
    (ids : Finset Nat) (defined : ∀ id ∈ ids, id ∈ program.definedBefore i)
    (ms : List Move) (listed : ∀ move ∈ ms, move ∈ schedule i) :
    ∀ id ∈ replay ids ms, id ∈ program.definedBefore i := by
  induction ms generalizing ids with
  | nil => exact defined
  | cons move rest induction =>
      obtain ⟨head, tail⟩ := List.forall_mem_cons.mp listed
      refine induction (replayMove ids move) ?_ tail
      rcases legal.transfers i move head with ⟨id, rfl⟩ | ⟨id, rfl⟩
      · intro other member
        exact defined other (Finset.mem_of_mem_erase member)
      · intro other member
        rcases Finset.mem_insert.mp member with rfl | held
        · exact (legal.available i other head).1
        · exact defined other held

theorem schedule_defined (legal : LegalSchedule program pinned budget schedule) (i : Nat)
    (bound : i ≤ program.instructions.length) :
    ∀ id ∈ scheduleResident program pinned schedule i, id ∈ program.definedBefore i := by
  induction i with
  | zero => simp [scheduleResident]
  | succ i induction =>
      have get := List.getElem?_eq_getElem (show i < program.instructions.length by omega)
      intro id member
      simp only [scheduleResident, get, Finset.mem_sdiff, Finset.mem_insert] at member
      rcases member.1 with rfl | held
      · rw [defined_before_succ program i _ get]
        simp
      · exact defined_before_mono program (Nat.le_succ i)
          (replay_defined legal i _ (induction (by omega)) _ (fun _ listed => listed) id held)

theorem schedule_dispatch (valid : SsaValid program) (i : Nat) (inst : FhnInstruction)
    (get : program.instructions[i]? = some inst) :
    FarthestUse.dispatch (programRequests program pinned valid)
        (scheduleRun program pinned schedule) i =
      insert inst.resultId
        (replay (scheduleResident program pinned schedule i) (schedule i)) := by
  have fresh : (programRequests program pinned valid).fresh i = {inst.resultId} := by
    simp only [programRequests, resultsAt, get]
  ext id
  simp only [FarthestUse.dispatch, fresh, scheduleRun, Finset.mem_union, Finset.mem_sdiff,
    Finset.mem_singleton, Finset.mem_insert]
  tauto

theorem schedule_legal (valid : SsaValid program)
    (legal : LegalSchedule program pinned budget schedule) :
    FarthestUse.Legal (programRequests program pinned valid) budget program.instructions.length
      (scheduleRun program pinned schedule) := by
  have fresh (i : Nat) (inst : FhnInstruction) (get : program.instructions[i]? = some inst) :
      (programRequests program pinned valid).fresh i = {inst.resultId} := by
    simp only [programRequests, resultsAt, get]
  constructor
  · rfl
  · intro i bound
    exact Finset.sdiff_subset
  · intro i bound
    have get := List.getElem?_eq_getElem bound
    rw [fresh i _ get, Finset.disjoint_singleton_left]
    intro held
    exact result_not_defined_before valid i _ get
      (schedule_defined legal i (by omega) _ held)
  · intro i bound
    have get := List.getElem?_eq_getElem bound
    rw [fresh i _ get, Finset.disjoint_left]
    intro id loaded held
    obtain ⟨present, absent⟩ := Finset.mem_sdiff.mp loaded
    rcases Finset.mem_union.mp held with kept | result
    · exact absent (Finset.mem_sdiff.mp kept).1
    · rw [Finset.mem_singleton] at result
      subst result
      exact result_not_defined_before valid i _ get
        (replay_defined legal i _ (schedule_defined legal i (by omega)) _
          (fun _ listed => listed) _ present)
  · intro i bound
    have get := List.getElem?_eq_getElem bound
    rw [schedule_dispatch valid i _ get, FarthestUse.Requests.working]
    change operandsAt program i ∪ resultsAt program i ⊆ _
    rw [working_at program get]
    exact legal.served i _ get
  · intro i bound
    have get := List.getElem?_eq_getElem bound
    rw [schedule_dispatch valid i _ get]
    exact legal.room i _ get
  · intro i bound
    have get := List.getElem?_eq_getElem bound
    rw [schedule_dispatch valid i _ get]
    simp only [scheduleRun, scheduleResident, get, programRequests, freedAt]

theorem schedule_prefetches_le (legal : LegalSchedule program pinned budget schedule) :
    FarthestUse.prefetches (scheduleRun program pinned schedule) program.instructions.length ≤
      schedulePrefetches program schedule :=
  Finset.sum_le_sum fun i _ => net_prefetches_le _ _ (legal.transfers i)

theorem schedule_evictions_le (legal : LegalSchedule program pinned budget schedule) :
    FarthestUse.evictions (scheduleRun program pinned schedule) program.instructions.length ≤
      scheduleEvictions program schedule :=
  Finset.sum_le_sum fun i _ => net_evictions_le _ _ (legal.transfers i)

end Schedule

section Planner

def plannerRun (acts : List FhnMovementActions) (states : Nat → PlanState) : Run Nat where
  resident := fun i => (states i).resident.toFinset
  evict := fun i => (acts[i]?.getD {}).evict.toFinset
  prefetch := fun i => (acts[i]?.getD {}).prefetch.toFinset

variable {program : FhnProgram} {pinned : List Nat} {ctx : PlanContext} {plan : FhnMovementPlan}
  {acts : List FhnMovementActions} {states : Nat → PlanState}

theorem planner_dispatch (run : Analysis program pinned ctx plan acts states) {i : Nat}
    {inst : FhnInstruction} (get : program.instructions[i]? = some inst)
    {act : FhnMovementActions} (found : acts[i]? = some act)
    (choices : StepChoices inst (states i).resident.toFinset act) :
    FarthestUse.dispatch (programRequests program pinned run.valid) (plannerRun acts states) i =
      replay (states i).resident.toFinset (loadMoves act) := by
  have fresh : (programRequests program pinned run.valid).fresh i = {inst.resultId} := by
    simp only [programRequests, resultsAt, get]
  ext id
  rw [mem_replay_loads, choices.alloc]
  simp only [FarthestUse.dispatch, fresh, plannerRun, found, Option.getD_some, Finset.mem_union,
    Finset.mem_sdiff, List.mem_toFinset, Finset.mem_singleton, List.mem_singleton]

theorem planner_legal (run : Analysis program pinned ctx plan acts states) (budget : Nat)
    (within : ∀ i inst act, program.instructions[i]? = some inst →
      StepFacts ctx i inst (states i) act (states (i + 1)) →
      (replay (states i).resident.toFinset (loadMoves act)).card ≤ budget) :
    FarthestUse.Legal (programRequests program pinned run.valid) budget
      program.instructions.length (plannerRun acts states) := by
  have fresh (i : Nat) (inst : FhnInstruction) (get : program.instructions[i]? = some inst) :
      (programRequests program pinned run.valid).fresh i = {inst.resultId} := by
    simp only [programRequests, resultsAt, get]
  have freshResult (i : Nat) (inst : FhnInstruction)
      (get : program.instructions[i]? = some inst) :
      inst.resultId ∉ (states i).resident.toFinset := by
    have bound := (List.getElem?_eq_some_iff.mp get).1
    rw [OrderedSet.mem_to_finset]
    intro held
    exact result_not_defined_before run.valid i inst get
      ((device_invariant run i (by omega)).defined _ held)
  constructor
  · change (states 0).resident.toFinset = ∅
    rw [run.start]
    rfl
  · intro i bound id victim
    obtain ⟨act, found, facts⟩ := analysis_step run i _ (List.getElem?_eq_getElem bound)
    simp only [plannerRun, found, Option.getD_some, List.mem_toFinset] at victim
    exact ((step_choices facts).evicted id victim).1
  · intro i bound
    have get := List.getElem?_eq_getElem bound
    rw [fresh i _ get, Finset.disjoint_singleton_left]
    exact freshResult i _ get
  · intro i bound
    have get := List.getElem?_eq_getElem bound
    obtain ⟨act, found, facts⟩ := analysis_step run i _ get
    rw [fresh i _ get, Finset.disjoint_left]
    intro id incoming held
    simp only [plannerRun, found, Option.getD_some, List.mem_toFinset] at incoming
    obtain ⟨operand, absent⟩ := ((step_choices facts).prefetched id).mp incoming
    rcases Finset.mem_union.mp held with kept | result
    · exact absent (Finset.mem_sdiff.mp kept).1
    · rw [Finset.mem_singleton] at result
      subst result
      exact result_not_operand run.valid i _ get operand
  · intro i bound
    have get := List.getElem?_eq_getElem bound
    obtain ⟨act, found, facts⟩ := analysis_step run i _ get
    rw [planner_dispatch run get found (step_choices facts)]
    change operandsAt program i ∪ resultsAt program i ⊆ _
    rw [working_at program get]
    intro id working
    rw [OrderedSet.mem_to_finset] at working
    exact (mem_dispatch_iff (step_choices facts) id).mpr (Or.inr working)
  · intro i bound
    have get := List.getElem?_eq_getElem bound
    obtain ⟨act, found, facts⟩ := analysis_step run i _ get
    rw [planner_dispatch run get found (step_choices facts)]
    exact within i _ act get facts
  · intro i bound
    have get := List.getElem?_eq_getElem bound
    obtain ⟨act, found, facts⟩ := analysis_step run i _ get
    rw [planner_dispatch run get found (step_choices facts)]
    have leaves : (programRequests program pinned run.valid).dead i = act.free.toFinset := by
      simp only [programRequests, freedAt, get]
      ext id
      rw [List.mem_toFinset, facts.free, mem_freed_after run.valid run.uses run.pins get]
    change (states (i + 1)).resident.toFinset = _
    rw [leaves, after_resident facts, replay_moves]

/-- Slot mode: an eviction only happens when dispatch fills the budget. -/
theorem planner_full (slots : ∀ id, ctx.cost id = 1) {i : Nat} {inst : FhnInstruction}
    (valid : SsaValid program) (get : program.instructions[i]? = some inst)
    {before after : PlanState} {act : FhnMovementActions}
    (facts : StepFacts ctx i inst before act after)
    (holds : DeviceInvariant program pinned i before) (exact : UnitsExact ctx before)
    (evicts : act.evict ≠ []) :
    ctx.deviceBudget.toNat ≤ (replay before.resident.toFinset (loadMoves act)).card := by
  have choices := step_choices facts
  obtain ⟨roomy, made⟩ := facts.room
  rcases make_room_spec ctx i inst before roomy act.evict made with ⟨-, none, -⟩ | ⟨-, -, run⟩
  · exact absurd none evicts
  · obtain ⟨first, last, split, exceeds⟩ := evict_run_tight run evicts
    have nodup := choices.evictNodup
    rw [split] at nodup
    have cost (ids : Finset Nat) : costOf ctx ids = ids.card := by
      simp [costOf, slots]
    have members : ∀ id ∈ first, id ∈ before.resident.toFinset := by
      intro id member
      refine (choices.evicted id ?_).1
      rw [split]
      exact List.mem_append_left _ member
    have unitsFirst := units_exact_fold ctx i (first.map Move.evict) before
      (legal_evicts _ _ (List.nodup_append.mp nodup).1 members) exact
    have asFold : (first.map Move.evict).foldl (applyMove ctx (i : Int)) before =
        first.foldl (fun st id => st.evict ctx id) before := by
      rw [List.foldl_map]
      rfl
    unfold UnitsExact at unitsFirst
    rw [fold_resident, replay_evicts, asFold, cost] at unitsFirst
    rw [unitsFirst, sum_units_nodup ctx _ (to_prefetch_nodup before inst), slots, cost,
      ← facts.prefetch, UInt64.lt_iff_toNat_lt, UInt64.toNat_add, UInt64.toNat_add,
      UInt64.toNat_ofNat', UInt64.toNat_ofNat'] at exceeds
    have freshResult : inst.resultId ∉ before.resident.toFinset := by
      rw [OrderedSet.mem_to_finset]
      intro held
      exact result_not_defined_before valid i inst get (holds.defined _ held)
    have survivors : (before.resident.toFinset \ first.toFinset).card =
        (before.resident.toFinset \ act.evict.toFinset).card + 1 := by
      have lastHeld : last ∈ before.resident.toFinset \ first.toFinset := by
        rw [Finset.mem_sdiff, List.mem_toFinset]
        refine ⟨(choices.evicted last (by simp [split])).1, fun again => ?_⟩
        exact (List.nodup_append.mp nodup).2.2 last again last (by simp) rfl
      have erased : before.resident.toFinset \ act.evict.toFinset =
          (before.resident.toFinset \ first.toFinset).erase last := by
        ext id
        simp only [split, Finset.mem_sdiff, List.mem_toFinset, List.mem_append,
          List.mem_singleton, Finset.mem_erase]
        tauto
      rw [erased, Finset.card_erase_add_one lastHeld]
    have loaded : replay before.resident.toFinset (loadMoves act) =
        insert inst.resultId (before.resident.toFinset \ act.evict.toFinset) ∪
          act.prefetch.toFinset := by
      ext id
      rw [mem_replay_loads, choices.alloc]
      simp only [Finset.mem_union, Finset.mem_insert, Finset.mem_sdiff, List.mem_toFinset,
        List.mem_singleton]
      tauto
    have apart : Disjoint (insert inst.resultId (before.resident.toFinset \ act.evict.toFinset))
        act.prefetch.toFinset := by
      rw [Finset.disjoint_left]
      intro id held incoming
      obtain ⟨operand, absent⟩ := (choices.prefetched id).mp (by simpa using incoming)
      rcases Finset.mem_insert.mp held with rfl | kept
      · exact result_not_operand valid i inst get operand
      · exact absent (Finset.mem_sdiff.mp kept).1
    have absent : inst.resultId ∉ before.resident.toFinset \ act.evict.toFinset := fun held =>
      freshResult (Finset.mem_sdiff.mp held).1
    rw [loaded, Finset.card_union_of_disjoint apart, Finset.card_insert_of_notMem absent]
    have first64 := Nat.mod_le (before.resident.toFinset \ first.toFinset).card (2 ^ 64)
    have second64 := Nat.mod_le act.prefetch.toFinset.card (2 ^ 64)
    have outer := Nat.mod_le
      ((before.resident.toFinset \ first.toFinset).card % 2 ^ 64 +
        ((1 : UInt64).toNat + act.prefetch.toFinset.card % 2 ^ 64) % 2 ^ 64) (2 ^ 64)
    have inner := Nat.mod_le ((1 : UInt64).toNat + act.prefetch.toFinset.card % 2 ^ 64) (2 ^ 64)
    have one : (1 : UInt64).toNat = 1 := rfl
    omega

theorem planner_farthest (run : Analysis program pinned ctx plan acts states)
    (belady : ctx.policy = .belady) (slots : ∀ id, ctx.cost id = 1) :
    Farthest (programRequests program pinned run.valid) ctx.deviceBudget.toNat
      program.instructions.length (plannerRun acts states) := by
  constructor
  · intro i bound
    have get := List.getElem?_eq_getElem bound
    obtain ⟨act, found, facts⟩ := analysis_step run i _ get
    ext id
    change id ∈ (acts[i]?.getD {}).prefetch.toFinset ↔
      id ∈ operandsAt program i \ (states i).resident.toFinset
    rw [found, Option.getD_some, List.mem_toFinset, (step_choices facts).prefetched,
      Finset.mem_sdiff, mem_operands_at, reads_working get]
  · intro i bound
    have get := List.getElem?_eq_getElem bound
    obtain ⟨act, found, facts⟩ := analysis_step run i _ get
    rw [Finset.disjoint_left]
    intro id victim working
    change id ∈ (acts[i]?.getD {}).evict.toFinset at victim
    change id ∈ operandsAt program i ∪ resultsAt program i at working
    rw [found, Option.getD_some, List.mem_toFinset] at victim
    rw [working_at program get, OrderedSet.mem_to_finset] at working
    exact ((step_choices facts).evicted id victim).2 working
  · intro i bound evicts
    have get := List.getElem?_eq_getElem bound
    obtain ⟨act, found, facts⟩ := analysis_step run i _ get
    rw [planner_dispatch run get found (step_choices facts)]
    refine planner_full slots run.valid get facts (device_invariant run i (by omega))
      (units_exact run i (by omega)) ?_
    rintro none
    change (acts[i]?.getD {}).evict.toFinset.Nonempty at evicts
    rw [found, Option.getD_some, none] at evicts
    simp at evicts
  · intro i bound victim evicted id held survives outside
    have get := List.getElem?_eq_getElem bound
    obtain ⟨act, found, facts⟩ := analysis_step run i _ get
    change victim ∈ (acts[i]?.getD {}).evict.toFinset at evicted
    change id ∉ (acts[i]?.getD {}).evict.toFinset at survives
    change id ∈ (states i).resident.toFinset at held
    change id ∉ operandsAt program i ∪ resultsAt program i at outside
    rw [found, Option.getD_some, List.mem_toFinset] at evicted survives
    rw [working_at program get, OrderedSet.mem_to_finset] at outside
    rw [OrderedSet.mem_to_finset] at held
    obtain ⟨roomy, made⟩ := facts.room
    rcases make_room_spec ctx i _ (states i) roomy act.evict made with
      ⟨-, none, -⟩ | ⟨-, -, loop⟩
    · rw [none] at evicted
      cases evicted
    · have settled := (evict_run_resident loop id).mpr ⟨held, survives⟩
      have ordered := evict_run_farthest belady loop victim evicted id settled outside
      rw [run.uses] at ordered
      exact ordered

theorem planner_counts (run : Analysis program pinned ctx plan acts states) (i : Nat)
    (bound : i ≤ program.instructions.length) :
    (states i).stats.prefetchCount.toNat ≤ FarthestUse.prefetches (plannerRun acts states) i ∧
      (states i).stats.evictCount.toNat ≤
        FarthestUse.evictions (plannerRun acts states) i := by
  induction i with
  | zero =>
      rw [run.start]
      exact ⟨Nat.zero_le _, Nat.zero_le _⟩
  | succ i induction =>
      obtain ⟨prefetches, evictions⟩ := induction (by omega)
      have get := List.getElem?_eq_getElem (show i < program.instructions.length by omega)
      obtain ⟨act, found, facts⟩ := analysis_step run i _ get
      have choices := step_choices facts
      obtain ⟨evict, -, prefetch, -, -⟩ := step_stats facts
      have loads : (plannerRun acts states).prefetch i = act.prefetch.toFinset := by
        simp only [plannerRun, found, Option.getD_some]
      have leaves : (plannerRun acts states).evict i = act.evict.toFinset := by
        simp only [plannerRun, found, Option.getD_some]
      rw [FarthestUse.prefetches_succ, FarthestUse.evictions_succ, prefetch, evict, loads, leaves,
        List.toFinset_card_of_nodup choices.prefetchNodup,
        List.toFinset_card_of_nodup choices.evictNodup, UInt32.toNat_add, UInt32.toNat_add,
        UInt32.toNat_ofNat', UInt32.toNat_ofNat']
      omega

end Planner

/-- Belady's analysis in slot mode exists, and its dispatches keep to the budget. -/
theorem belady_run (program : FhnProgram) (pinned : List Nat) (deviceBudget : UInt64)
    (valid : SsaValid program) (representable : Representable program)
    (roomy : ∀ inst ∈ program.instructions, (workingSet inst).size ≤ deviceBudget.toNat) :
    ∃ plan levelOf acts states, analyze program pinned deviceBudget .belady none = some plan ∧
      Analysis program pinned
        (planContext (usePositions program) levelOf pinned deviceBudget .belady none) plan acts
        states ∧
      ∀ i inst act, program.instructions[i]? = some inst →
        StepFacts
          (planContext (usePositions program) levelOf pinned deviceBudget .belady none)
          i inst (states i) act (states (i + 1)) →
        (replay (states i).resident.toFinset (loadMoves act)).card ≤ deviceBudget.toNat := by
  have ones (levelOf : Nat → Option Int) (ids : Finset Nat) :
      costOf (planContext (usePositions program) levelOf pinned deviceBudget .belady none) ids =
        ids.card := by
    simp [costOf, planContext, unitCost]
  have total := representable_card valid representable
  obtain ⟨plan, analyzed⟩ := analyze_accepts program pinned deviceBudget .belady none _ valid rfl
    (working_sums_of_total valid (by rw [ones]; omega))
    (Or.inr fun inst member => by
      rw [ones, OrderedSet.card_to_finset]
      exact roomy inst member)
  obtain ⟨levelOf, acts, states, leveled, run⟩ := analyze_run analyzed
  have fits := sums_fit leveled run representable (by simp)
  refine ⟨plan, levelOf, acts, states, analyzed, run, ?_⟩
  intro i inst act get facts
  have room := roomy inst (List.mem_of_getElem? get)
  have positive : 0 < (workingSet inst).size :=
    List.length_pos_of_mem ((mem_working_set inst inst.resultId).mpr (Or.inl rfl))
  have limited : 0 < deviceBudget := by
    rw [UInt64.lt_iff_toNat_lt]
    exact lt_of_lt_of_le positive room
  have bounded := dispatch_within run fits limited get facts
  rw [ones] at bounded
  exact bounded

/-- The plan's own transfers before each instruction. -/
def planSchedule (plan : FhnMovementPlan) : Schedule := fun i =>
  (plan.actions[i]?.getD {}).evict.map Move.evict ++
    (plan.actions[i]?.getD {}).prefetch.map Move.prefetch

section PlanSchedule

variable {program : FhnProgram} {pinned : List Nat} {ctx : PlanContext} {plan : FhnMovementPlan}
  {acts : List FhnMovementActions} {states : Nat → PlanState}

theorem plan_schedule_at (run : Analysis program pinned ctx plan acts states) {i : Nat}
    {inst : FhnInstruction} (get : program.instructions[i]? = some inst) :
    ∃ act, StepFacts ctx i inst (states i) act (states (i + 1)) ∧
      planSchedule plan i = act.evict.map Move.evict ++ act.prefetch.map Move.prefetch := by
  obtain ⟨act, facts, planned⟩ := analysis_at run i inst get
  refine ⟨act, facts, ?_⟩
  unfold planSchedule
  rw [planned]
  rfl

theorem transfers_dispatch {inst : FhnInstruction} {resident : Finset Nat}
    {act : FhnMovementActions} (choices : StepChoices inst resident act) :
    insert inst.resultId
        (replay resident (act.evict.map Move.evict ++ act.prefetch.map Move.prefetch)) =
      replay resident (loadMoves act) := by
  ext id
  rw [mem_replay_loads, choices.alloc, replay_append, replay_evicts, replay_prefetches]
  simp only [Finset.mem_insert, Finset.mem_union, Finset.mem_sdiff, List.mem_toFinset,
    List.mem_singleton]
  tauto

theorem plan_schedule_resident (run : Analysis program pinned ctx plan acts states) (i : Nat)
    (bound : i ≤ program.instructions.length) :
    scheduleResident program pinned (planSchedule plan) i = (states i).resident.toFinset := by
  induction i with
  | zero =>
      rw [run.start]
      rfl
  | succ i induction =>
      have get := List.getElem?_eq_getElem (show i < program.instructions.length by omega)
      obtain ⟨act, facts, scheduled⟩ := plan_schedule_at run get
      have leaves : freedAfter program pinned i program.instructions[i] = act.free.toFinset := by
        ext id
        rw [List.mem_toFinset, facts.free, mem_freed_after run.valid run.uses run.pins get]
      simp only [scheduleResident, get]
      rw [induction (by omega), scheduled, transfers_dispatch (step_choices facts), leaves,
        after_resident facts, replay_moves]

theorem read_not_freed {i j id : Nat} {inst : FhnInstruction} (reads : program.ReadsAt i id)
    (earlier : j < i) : id ∉ freedAfter program pinned j inst := by
  intro freed
  have unread := (Finset.mem_filter.mp freed).2.2
  rw [read_later_false] at unread
  have late := unread i reads
  omega

theorem plan_schedule_legal (run : Analysis program pinned ctx plan acts states) (budget : Nat)
    (within : ∀ i inst act, program.instructions[i]? = some inst →
      StepFacts ctx i inst (states i) act (states (i + 1)) →
      (replay (states i).resident.toFinset (loadMoves act)).card ≤ budget) :
    LegalSchedule program pinned budget (planSchedule plan) := by
  have held (i : Nat) (bound : i < program.instructions.length) :
      (states i).resident.toFinset.card ≤ budget := by
    cases i with
    | zero =>
        rw [run.start]
        exact Nat.zero_le _
    | succ i =>
        have get := List.getElem?_eq_getElem (show i < program.instructions.length by omega)
        obtain ⟨act, facts, -⟩ := plan_schedule_at run get
        refine le_trans (Finset.card_le_card ?_) (within i _ act get facts)
        rw [after_resident facts, replay_moves]
        exact Finset.sdiff_subset
  constructor
  · intro i move listed
    rcases List.mem_append.mp listed with evicted | fetched
    · obtain ⟨id, -, rfl⟩ := List.mem_map.mp evicted
      exact Or.inl ⟨id, rfl⟩
    · obtain ⟨id, -, rfl⟩ := List.mem_map.mp fetched
      exact Or.inr ⟨id, rfl⟩
  · intro i id listed
    cases get : program.instructions[i]? with
    | none =>
        have absent : plan.actions[i]? = none := by
          rw [List.getElem?_eq_none_iff] at get ⊢
          rwa [analysis_plan_length run]
        simp [planSchedule, absent] at listed
    | some inst =>
        obtain ⟨act, facts, scheduled⟩ := plan_schedule_at run get
        rw [scheduled] at listed
        have fetched : id ∈ act.prefetch := by simpa using listed
        have operand := ((step_choices facts).prefetched id).mp fetched
        have reads : program.ReadsAt i id := (reads_working get id).mpr operand.1
        exact ⟨run.valid.operandsDefined i id reads, fun j other earlier _ =>
          read_not_freed reads earlier⟩
  · intro i bound
    obtain ⟨act, facts, scheduled⟩ := plan_schedule_at run (List.getElem?_eq_getElem bound)
    have choices := step_choices facts
    rw [plan_schedule_resident run i bound.le, scheduled, legal_append, replay_evicts]
    refine ⟨legal_evicts _ _ choices.evictNodup fun id victim => (choices.evicted id victim).1,
      legal_prefetches _ _ choices.prefetchNodup fun id fetched present => ?_⟩
    exact ((choices.prefetched id).mp fetched).2 (Finset.mem_sdiff.mp present).1
  · intro i bound part early
    have get := List.getElem?_eq_getElem bound
    obtain ⟨act, facts, scheduled⟩ := plan_schedule_at run get
    rw [scheduled] at early
    rw [plan_schedule_resident run i bound.le]
    rcases part_append _ _ _ early with evicting | ⟨fetched, rfl, rest, whole⟩
    · refine (Finset.card_le_card (replay_drops_subset _ _ fun move member => ?_)).trans
        (held i bound)
      obtain ⟨id, -, rfl⟩ := List.mem_map.mp (evicting.subset member)
      rfl
    · refine (Finset.card_le_card ?_).trans (within i _ act get facts)
      rw [← transfers_dispatch (step_choices facts), ← whole, ← List.append_assoc,
        replay_append _ (_ ++ fetched)]
      refine Finset.Subset.trans (subset_replay_loads _ rest fun move member => ?_)
        (Finset.subset_insert _ _)
      obtain ⟨id, -, rfl⟩ := List.mem_map.mp (whole ▸ List.mem_append_right fetched member)
      rfl
  · intro i inst get
    have bound := (List.getElem?_eq_some_iff.mp get).1
    obtain ⟨act, facts, scheduled⟩ := plan_schedule_at run get
    rw [plan_schedule_resident run i bound.le, scheduled, transfers_dispatch (step_choices facts)]
    intro id working
    rw [OrderedSet.mem_to_finset] at working
    exact (mem_dispatch_iff (step_choices facts) id).mpr (Or.inr working)
  · intro i inst get
    have bound := (List.getElem?_eq_some_iff.mp get).1
    obtain ⟨act, facts, scheduled⟩ := plan_schedule_at run get
    rw [plan_schedule_resident run i bound.le, scheduled, transfers_dispatch (step_choices facts)]
    exact within i inst act get facts

end PlanSchedule

theorem sum_lookups {α : Type*} (items : List α) (size : α → Nat) (default : α) :
    ∑ i ∈ Finset.range items.length, size (items[i]?.getD default) = (items.map size).sum := by
  induction items with
  | nil => rfl
  | cons head rest induction =>
      rw [List.length_cons, Finset.sum_range_succ', List.map_cons, List.sum_cons, ← induction,
        add_comm]
      simp

/-- Belady's plan is itself such a schedule, with the counts that it reports. -/
theorem belady_schedule (program : FhnProgram) (pinned : List Nat) (deviceBudget : UInt64)
    (valid : SsaValid program) (representable : Representable program)
    (roomy : ∀ inst ∈ program.instructions, (workingSet inst).size ≤ deviceBudget.toNat) :
    ∃ plan, analyze program pinned deviceBudget .belady none = some plan ∧
      LegalSchedule program pinned deviceBudget.toNat (planSchedule plan) ∧
      plan.stats.prefetchCount =
        UInt32.ofNat (schedulePrefetches program (planSchedule plan)) ∧
      plan.stats.evictCount = UInt32.ofNat (scheduleEvictions program (planSchedule plan)) := by
  obtain ⟨plan, levelOf, acts, states, analyzed, run, within⟩ :=
    belady_run program pinned deviceBudget valid representable roomy
  have sound := analyze_sound program pinned deviceBudget .belady none plan representable
    (by simp) analyzed
  have length := analysis_plan_length run
  refine ⟨plan, analyzed, plan_schedule_legal run _ within, ?_, ?_⟩
  · rw [sound.prefetchCount, ← sum_lookups _ _ {}, length]
    congr 1
    refine Finset.sum_congr rfl fun i _ => ?_
    rw [planSchedule, List.countP_append, List.countP_map, List.countP_map]
    simp [Function.comp_def, isPrefetch]
  · rw [sound.evictCount, ← sum_lookups _ _ {}, length]
    congr 1
    refine Finset.sum_congr rfl fun i _ => ?_
    rw [planSchedule, List.countP_append, List.countP_map, List.countP_map]
    simp [Function.comp_def, isEvict]

/-- No legal schedule makes fewer prefetches, or fewer transfers, than Belady's
plan reports; and the plan exists. -/
theorem belady_optimal (program : FhnProgram) (pinned : List Nat) (deviceBudget : UInt64)
    (valid : SsaValid program) (representable : Representable program)
    (roomy : ∀ inst ∈ program.instructions, (workingSet inst).size ≤ deviceBudget.toNat) :
    ∃ plan, analyze program pinned deviceBudget .belady none = some plan ∧
      ∀ schedule, LegalSchedule program pinned deviceBudget.toNat schedule →
        plan.stats.prefetchCount.toNat ≤ schedulePrefetches program schedule ∧
        plan.stats.prefetchCount.toNat + plan.stats.evictCount.toNat ≤
          schedulePrefetches program schedule + scheduleEvictions program schedule := by
  obtain ⟨plan, levelOf, acts, states, analyzed, run, within⟩ :=
    belady_run program pinned deviceBudget valid representable roomy
  refine ⟨plan, analyzed, fun schedule legal => ?_⟩
  have plannerLegal := planner_legal run deviceBudget.toNat within
  have rule := planner_farthest run rfl (fun _ => rfl)
  have other := schedule_legal run.valid legal
  have counted := planner_counts run _ (le_refl program.instructions.length)
  have fewest := FarthestUse.prefetches_le plannerLegal rule other
  have fewestTransfers := FarthestUse.transfers_le plannerLegal rule other
  have prefetches := schedule_prefetches_le legal
  have evictions := schedule_evictions_le legal
  rw [run.stats]
  omega

/-- With three slots the first product has to leave and come back. -/
def threeSlotSchedule : Schedule
  | 0 => [.prefetch 1, .prefetch 2]
  | 1 => [.evict 10, .prefetch 3]
  | 2 => [.prefetch 10]
  | _ => []

theorem three_slot_schedule_legal : LegalSchedule sumOfProducts [12] 3 threeSlotSchedule := by
  constructor
  · intro i move listed
    rcases i with _ | _ | _ | i
    · simp only [threeSlotSchedule, List.mem_cons, List.not_mem_nil, or_false] at listed
      rcases listed with rfl | rfl <;> simp
    · simp only [threeSlotSchedule, List.mem_cons, List.not_mem_nil, or_false] at listed
      rcases listed with rfl | rfl <;> simp
    · simp only [threeSlotSchedule, List.mem_cons, List.not_mem_nil, or_false] at listed
      subst listed
      simp
    · cases listed
  · intro i id listed
    rcases i with _ | _ | _ | i
    · simp only [threeSlotSchedule, List.mem_cons, Move.prefetch.injEq, List.not_mem_nil,
        or_false] at listed
      refine ⟨by rcases listed with rfl | rfl <;> decide, ?_⟩
      intro j inst order
      omega
    · simp only [threeSlotSchedule, List.mem_cons, Move.prefetch.injEq, List.not_mem_nil,
        or_false, reduceCtorEq, false_or] at listed
      subst listed
      refine ⟨by decide, ?_⟩
      intro j inst order get
      have first : j = 0 := by omega
      subst first
      cases get
      decide
    · simp only [threeSlotSchedule, List.mem_cons, Move.prefetch.injEq, List.not_mem_nil,
        or_false] at listed
      subst listed
      refine ⟨by decide, ?_⟩
      intro j inst order get
      rcases j with _ | _ | j
      · cases get
        decide
      · cases get
        decide
      · omega
    · cases listed
  · intro i bound
    have moves : ∀ i < 3, Legal (scheduleResident sumOfProducts [12] threeSlotSchedule i)
        (threeSlotSchedule i) := by
      decide
    exact moves i bound
  · intro i bound part early
    have fits : ∀ i < 3, ∀ part ∈ (threeSlotSchedule i).inits,
        (replay (scheduleResident sumOfProducts [12] threeSlotSchedule i) part).card ≤ 3 := by
      decide
    exact fits i bound part ((List.mem_inits part _).mpr early)
  · intro i inst get
    have bound : i < 3 := (List.getElem?_eq_some_iff.mp get).1
    rcases i with _ | _ | _ | i
    · cases get
      decide
    · cases get
      decide
    · cases get
      decide
    · omega
  · intro i inst get
    have bound : i < 3 := (List.getElem?_eq_some_iff.mp get).1
    rcases i with _ | _ | _ | i
    · cases get
      decide
    · cases get
      decide
    · cases get
      decide
    · omega

theorem belady_optimal_sum_of_products :
    ∃ plan, analyze sumOfProducts [12] 3 .belady none = some plan ∧
      plan.stats.prefetchCount.toNat ≤ 4 ∧
        plan.stats.prefetchCount.toNat + plan.stats.evictCount.toNat ≤ 5 := by
  obtain ⟨plan, analyzed, optimal⟩ := belady_optimal sumOfProducts [12] 3
    (analyze_valid analyze_sum_of_products) (by decide) (by decide)
  have compared := optimal threeSlotSchedule three_slot_schedule_legal
  have fetches : schedulePrefetches sumOfProducts threeSlotSchedule = 4 := by decide
  have leaves : scheduleEvictions sumOfProducts threeSlotSchedule = 1 := by decide
  rw [fetches, leaves] at compared
  exact ⟨plan, analyzed, compared⟩

end Fhenomenon.PlanOptimality

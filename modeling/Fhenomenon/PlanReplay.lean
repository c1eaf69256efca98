import Fhenomenon.DeviceReplay
import Fhenomenon.PlanLifetimes

/-!
# Every plan replays safely

The loop's resident set is the replay of the lists it emits, and its unit
counter is the cost of that set. Both facts are invariants of one step; the
budget and the statistics are read off at dispatch, where the set is largest.
-/

namespace Fhenomenon.PlanReplay

open Fhenomenon.Lib Fhenomenon.InstructionStream Fhenomenon.MovementPlanner
open Fhenomenon.PlannerTables Fhenomenon.PlannerSteps Fhenomenon.PlanLifetimes
open Fhenomenon.DeviceReplay

theorem apply_move_resident (ctx : PlanContext) (pos : Int) (state : PlanState) (move : Move) :
    (applyMove ctx pos state move).resident.toFinset =
      replayMove state.resident.toFinset move := by
  cases move <;> simp [applyMove, replayMove, PlanState.evict, PlanState.allocate,
    PlanState.prefetch, PlanState.free]

theorem fold_resident (ctx : PlanContext) (pos : Int) (ms : List Move) (state : PlanState) :
    (ms.foldl (applyMove ctx pos) state).resident.toFinset =
      replay state.resident.toFinset ms := by
  induction ms generalizing state with
  | nil => rfl
  | cons move rest induction =>
      rw [List.foldl_cons, induction, apply_move_resident]
      rfl

/-- What the eviction loop and the prefetch filter choose for one instruction. -/
structure StepChoices (inst : FhnInstruction) (resident : Finset Nat)
    (act : FhnMovementActions) : Prop where
  evictNodup : act.evict.Nodup
  evicted : ∀ id ∈ act.evict, id ∈ resident ∧ id ∉ (workingSet inst).elems
  alloc : act.alloc = [inst.resultId]
  prefetchNodup : act.prefetch.Nodup
  prefetched : ∀ id, id ∈ act.prefetch ↔ id ∈ inst.usedOperands ∧ id ∉ resident

theorem step_choices {ctx : PlanContext} {i : Nat} {inst : FhnInstruction}
    {before after : PlanState} {act : FhnMovementActions}
    (facts : StepFacts ctx i inst before act after) :
    StepChoices inst before.resident.toFinset act := by
  obtain ⟨roomy, made⟩ := facts.room
  have evicts : act.evict.Nodup ∧
      ∀ id ∈ act.evict, id ∈ before.resident.elems ∧ id ∉ (workingSet inst).elems := by
    rcases make_room_spec ctx i inst before roomy act.evict made with
      ⟨-, none, -⟩ | ⟨-, -, run⟩
    · rw [none]
      exact ⟨List.nodup_nil, by simp⟩
    · exact evict_run_victims run
  constructor
  · exact evicts.1
  · intro id member
    rw [OrderedSet.mem_to_finset]
    exact evicts.2 id member
  · exact facts.alloc
  · rw [facts.prefetch]
    exact to_prefetch_nodup before inst
  · intro id
    rw [facts.prefetch, OrderedSet.mem_to_finset]
    exact mem_to_prefetch before inst id

theorem step_choices_more {inst : FhnInstruction} {resident : Finset Nat}
    {act : FhnMovementActions} (choices : StepChoices inst resident act) (free : List Nat) :
    StepChoices inst resident { act with free := free } where
  evictNodup := choices.evictNodup
  evicted := choices.evicted
  alloc := choices.alloc
  prefetchNodup := choices.prefetchNodup
  prefetched := choices.prefetched

theorem mem_dispatch_iff {inst : FhnInstruction} {resident : Finset Nat}
    {act : FhnMovementActions} (choices : StepChoices inst resident act) (id : Nat) :
    id ∈ replay resident (loadMoves act) ↔
      (id ∈ resident ∧ id ∉ act.evict) ∨ id ∈ (workingSet inst).elems := by
  rw [mem_replay_loads, choices.alloc, List.mem_singleton, choices.prefetched, mem_working_set]
  constructor
  · rintro (kept | result | ⟨operand, -⟩)
    · exact Or.inl kept
    · exact Or.inr (Or.inl result)
    · exact Or.inr (Or.inr operand)
  · rintro (kept | result | operand)
    · exact Or.inl kept
    · exact Or.inr (Or.inl result)
    · by_cases held : id ∈ resident
      · refine Or.inl ⟨held, fun victim => ?_⟩
        exact (choices.evicted id victim).2 ((mem_working_set inst id).mpr (Or.inr operand))
      · exact Or.inr (Or.inr ⟨operand, held⟩)

theorem dispatch_subset {inst : FhnInstruction} {resident : Finset Nat}
    {act : FhnMovementActions} (choices : StepChoices inst resident act) :
    replay resident (loadMoves act) ⊆ resident ∪ (workingSet inst).toFinset := by
  intro id member
  rw [Finset.mem_union, OrderedSet.mem_to_finset]
  rcases (mem_dispatch_iff choices id).mp member with ⟨kept, -⟩ | working
  · exact Or.inl kept
  · exact Or.inr working

theorem legal_loads {inst : FhnInstruction} {resident : Finset Nat} {act : FhnMovementActions}
    (choices : StepChoices inst resident act) (freshResult : inst.resultId ∉ resident)
    (notOperand : inst.resultId ∉ inst.usedOperands) : Legal resident (loadMoves act) := by
  rw [loadMoves, legal_append, legal_append, replay_append, replay_evicts, replay_allocs,
    choices.alloc]
  refine ⟨⟨legal_evicts _ _ choices.evictNodup fun id victim => (choices.evicted id victim).1,
    ?_, trivial⟩, legal_prefetches _ _ choices.prefetchNodup ?_⟩
  · intro held
    exact freshResult (Finset.mem_sdiff.mp held).1
  · intro id incoming held
    obtain ⟨operand, absent⟩ := (choices.prefetched id).mp incoming
    rcases Finset.mem_union.mp held with kept | result
    · exact absent (Finset.mem_sdiff.mp kept).1
    · have same : id = inst.resultId := by simpa using result
      exact notOperand (same ▸ operand)

theorem legal_moves {inst : FhnInstruction} {resident : Finset Nat} {act : FhnMovementActions}
    (choices : StepChoices inst resident act) (freshResult : inst.resultId ∉ resident)
    (notOperand : inst.resultId ∉ inst.usedOperands) (freeNodup : act.free.Nodup)
    (freed : ∀ id ∈ act.free, id ∈ (workingSet inst).elems) : Legal resident (moves act) := by
  rw [moves, legal_append]
  refine ⟨legal_loads choices freshResult notOperand, legal_frees _ _ freeNodup ?_⟩
  intro id member
  exact (mem_dispatch_iff choices id).mpr (Or.inr (freed id member))

/-- What the loop state promises before instruction `i`. -/
structure DeviceInvariant (program : FhnProgram) (pinned : List Nat) (i : Nat)
    (state : PlanState) : Prop where
  defined : ∀ id ∈ state.resident.elems, id ∈ program.definedBefore i
  read : ∀ id ∈ state.resident.elems, id ∈ program.inputIds → ∃ j < i, program.ReadsAt j id
  live : ∀ id ∈ state.resident.elems, id ∈ pinned ∨ ∃ j, i ≤ j ∧ program.ReadsAt j id

section Analysis

variable {program : FhnProgram} {pinned : List Nat} {ctx : PlanContext} {plan : FhnMovementPlan}
  {acts : List FhnMovementActions} {states : Nat → PlanState}

theorem after_resident {i : Nat} {inst : FhnInstruction} {before after : PlanState}
    {act : FhnMovementActions} (facts : StepFacts ctx i inst before act after) :
    after.resident.toFinset = replay before.resident.toFinset (moves act) := by
  rw [facts.resident, fold_resident]

theorem reads_working {i : Nat} {inst : FhnInstruction}
    (get : program.instructions[i]? = some inst) (id : Nat) :
    program.ReadsAt i id ↔ id ∈ inst.usedOperands := by
  constructor
  · rintro ⟨other, otherGet, member⟩
    rw [get] at otherGet
    cases otherGet
    exact member
  · intro member
    exact ⟨inst, get, member⟩

theorem result_read_later (valid : SsaValid program) {i j : Nat} {inst : FhnInstruction}
    (get : program.instructions[i]? = some inst) (reads : program.ReadsAt j inst.resultId) :
    i < j := by
  by_contra early
  have order : j ≤ i := by omega
  exact result_not_defined_before valid i inst get
    (defined_before_mono program order (valid.operandsDefined j _ reads))

theorem device_invariant_step (valid : SsaValid program)
    (uses : ctx.uses = usePositions program) (pins : ctx.pinned = pinned) {i : Nat}
    {inst : FhnInstruction} (get : program.instructions[i]? = some inst)
    {before after : PlanState} {act : FhnMovementActions}
    (facts : StepFacts ctx i inst before act after)
    (holds : DeviceInvariant program pinned i before) :
    DeviceInvariant program pinned (i + 1) after := by
  have choices := step_choices facts
  have cases_of (id : Nat) (held : id ∈ after.resident.elems) :
      id ∉ act.free ∧ (id ∈ before.resident.elems ∨ id = inst.resultId ∨
        id ∈ inst.usedOperands) := by
    rw [← OrderedSet.mem_to_finset, after_resident facts, replay_moves, Finset.mem_sdiff,
      mem_dispatch_iff choices, mem_working_set, OrderedSet.mem_to_finset] at held
    refine ⟨by simpa using held.2, ?_⟩
    rcases held.1 with ⟨kept, -⟩ | working
    · exact Or.inl kept
    · exact Or.inr working
  constructor
  · intro id held
    rcases (cases_of id held).2 with old | rfl | operand
    · exact defined_before_mono program (Nat.le_succ i) (holds.defined id old)
    · rw [defined_before_succ program i inst get]
      simp
    · exact defined_before_mono program (Nat.le_succ i)
        (valid.operandsDefined i id ((reads_working get id).mpr operand))
  · intro id held input
    rcases (cases_of id held).2 with old | rfl | operand
    · obtain ⟨j, before, reads⟩ := holds.read id old input
      exact ⟨j, by omega, reads⟩
    · exact absurd input (result_not_input valid get)
    · exact ⟨i, by omega, (reads_working get id).mpr operand⟩
  · intro id held
    obtain ⟨notFreed, origin⟩ := cases_of id held
    by_cases kept : id ∈ pinned
    · exact Or.inl kept
    · right
      rw [facts.free, mem_dead_iff valid uses pins get] at notFreed
      have readNow (reads : program.ReadsAt i id) : ∃ j, i + 1 ≤ j ∧ program.ReadsAt j id := by
        by_contra finished
        push Not at finished
        refine notFreed ⟨kept, Or.inl ⟨reads, fun j later => ?_⟩⟩
        by_contra beyond
        exact finished j (by omega) later
      rcases origin with old | rfl | operand
      · rcases holds.live id old with impossible | ⟨j, order, reads⟩
        · exact absurd impossible kept
        · by_cases same : j = i
          · exact readNow (same ▸ reads)
          · exact ⟨j, by omega, reads⟩
      · by_contra unread
        push Not at unread
        refine notFreed ⟨kept, Or.inr ⟨rfl, fun j reads => ?_⟩⟩
        exact unread j (result_read_later valid get reads) reads
      · exact readNow ((reads_working get id).mpr operand)

theorem device_invariant (run : Analysis program pinned ctx plan acts states) (i : Nat)
    (bound : i ≤ program.instructions.length) :
    DeviceInvariant program pinned i (states i) := by
  induction i with
  | zero =>
      rw [run.start]
      constructor <;> simp
  | succ i induction =>
      have get := List.getElem?_eq_getElem (show i < program.instructions.length by omega)
      obtain ⟨act, -, facts⟩ := analysis_step run i _ get
      exact device_invariant_step run.valid run.uses run.pins get facts (induction (by omega))

theorem leftover_not_dispatched (run : Analysis program pinned ctx plan acts states) {i : Nat}
    {inst : FhnInstruction} (get : program.instructions[i]? = some inst)
    {act : FhnMovementActions} (choices : StepChoices inst (states i).resident.toFinset act)
    {id : Nat} (left : id ∈ leftovers program pinned) :
    id ∉ replay (states i).resident.toFinset (loadMoves act) := by
  obtain ⟨input, -, unread⟩ := (mem_leftovers program pinned id).mp left
  have bound := (List.getElem?_eq_some_iff.mp get).1
  intro held
  rw [mem_dispatch_iff choices, mem_working_set, OrderedSet.mem_to_finset] at held
  rcases held with ⟨old, -⟩ | rfl | operand
  · obtain ⟨j, -, reads⟩ := (device_invariant run i (by omega)).read id old input
    exact unread j reads
  · exact result_not_input run.valid get input
  · exact unread i ((reads_working get id).mpr operand)

/-- The simulated device is the replay of the published plan. -/
theorem resident_before_eq (run : Analysis program pinned ctx plan acts states) (i : Nat)
    (bound : i ≤ program.instructions.length) :
    residentBefore plan i = (states i).resident.toFinset := by
  induction i with
  | zero =>
      rw [run.start]
      rfl
  | succ i induction =>
      have get := List.getElem?_eq_getElem (show i < program.instructions.length by omega)
      obtain ⟨act, facts, planned⟩ := analysis_at run i _ get
      have choices := step_choices facts
      have loads (free : List Nat) : loadMoves { act with free := free } = loadMoves act := rfl
      rw [resident_before_succ plan i _ planned, induction (by omega), after_resident facts,
        replay_moves, replay_moves, loads]
      ext id
      simp only [Finset.mem_sdiff, List.mem_toFinset, List.mem_append, not_or]
      constructor
      · rintro ⟨held, freed, -⟩
        exact ⟨held, freed⟩
      · rintro ⟨held, freed⟩
        refine ⟨held, freed, ?_⟩
        split
        · intro left
          exact leftover_not_dispatched run get choices left held
        · simp

theorem step_legal (valid : SsaValid program) {i : Nat} {inst : FhnInstruction}
    (get : program.instructions[i]? = some inst) {before after : PlanState}
    {act : FhnMovementActions} (facts : StepFacts ctx i inst before act after)
    (holds : DeviceInvariant program pinned i before) :
    Legal before.resident.toFinset (moves act) := by
  refine legal_moves (step_choices facts) ?_ (result_not_operand valid i inst get) ?_ ?_
  · rw [OrderedSet.mem_to_finset]
    intro held
    exact result_not_defined_before valid i inst get (holds.defined _ held)
  · rw [facts.free]
    exact (workingSet inst).nodup.filter _
  · intro id member
    rw [facts.free] at member
    exact (List.mem_filter.mp member).1

end Analysis

end Fhenomenon.PlanReplay

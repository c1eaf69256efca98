import Fhenomenon.Lib.StackInclusion
import Fhenomenon.FlatModelScaling

/-!
# A larger budget never does worse

In slot mode both policies rank residents by something that depends on the
program alone, and ties go to the lower id. Runs under two budgets therefore
serve the same requests by the same ranking, and stack inclusion applies.
-/

namespace Fhenomenon.BudgetInclusion

open Fhenomenon.Lib Fhenomenon.InstructionStream Fhenomenon.MovementPlanner
open Fhenomenon.PlannerTables Fhenomenon.PlannerSteps Fhenomenon.PlanLifetimes
open Fhenomenon.DeviceReplay Fhenomenon.PlanReplay Fhenomenon.PlanBudget
open Fhenomenon.PlanAcceptance Fhenomenon.PlanSoundness Fhenomenon.PlannerThreshold
open Fhenomenon.PlanOptimality Fhenomenon.PlannerRuns Fhenomenon.ByteAccounting
open Fhenomenon.HighWaterThreshold Fhenomenon.FlatModelScaling
open Fhenomenon.Lib.StackInclusion (Service Nested Serves Run)

/-- `first` is evicted before `second`: its key wins, or ties and it is lower. -/
def Worse (policy : FhnEvictionPolicy) (key : Nat → WithTop Int) (first second : Nat) : Prop :=
  beatsVictim policy (key first) (key second) = true ∨
    (beatsVictim policy (key second) (key first) = false ∧ first < second)

theorem worse_asymmetric (policy : FhnEvictionPolicy) (key : Nat → WithTop Int)
    (first second : Nat) (worse : Worse policy key first second) :
    ¬Worse policy key second first := by
  intro reverse
  cases worse with
  | inl wins =>
      have loses := beats_victim_asymm policy _ _ wins
      cases reverse with
      | inl other => rw [loses] at other; cases other
      | inr tied => rw [wins] at tied; cases tied.1
  | inr tied =>
      cases reverse with
      | inl other => rw [tied.1] at other; cases other
      | inr lower => omega

theorem beats_victim_strict (policy : FhnEvictionPolicy) (first second third : WithTop Int)
    (wins : beatsVictim policy first second = true)
    (kept : beatsVictim policy third second = false) :
    beatsVictim policy first third = true := by
  cases policy <;> simp only [beatsVictim, decide_eq_true_eq, decide_eq_false_iff_not, not_lt]
    at wins kept ⊢
  · exact lt_of_le_of_lt kept wins
  · exact lt_of_lt_of_le wins kept

theorem beats_victim_weak (policy : FhnEvictionPolicy) (first second third : WithTop Int)
    (wins : beatsVictim policy first second = true)
    (kept : beatsVictim policy first third = false) :
    beatsVictim policy third second = true := by
  cases policy <;> simp only [beatsVictim, decide_eq_true_eq, decide_eq_false_iff_not, not_lt]
    at wins kept ⊢
  · exact lt_of_lt_of_le wins kept
  · exact lt_of_le_of_lt kept wins

theorem worse_then_beats {policy : FhnEvictionPolicy} {key : Nat → WithTop Int}
    {first second third : Nat} (worse : Worse policy key first second)
    (wins : beatsVictim policy (key second) (key third) = true) :
    Worse policy key first third := by
  apply Or.inl
  cases worse with
  | inl ahead => exact beats_victim_strict policy _ _ _ ahead (beats_victim_asymm policy _ _ wins)
  | inr tied => exact beats_victim_weak policy _ _ _ wins tied.1

theorem worse_then_ties {policy : FhnEvictionPolicy} {key : Nat → WithTop Int}
    {first second third : Nat} (worse : Worse policy key first second)
    (kept : beatsVictim policy (key third) (key second) = false) (lower : second < third) :
    Worse policy key first third := by
  cases worse with
  | inl ahead => exact Or.inl (beats_victim_strict policy _ _ _ ahead kept)
  | inr tied =>
      exact Or.inr ⟨beats_victim_trans policy _ _ _ kept tied.1, by omega⟩

/-- Scanning upwards finds the candidate that is worse than every other. -/
theorem scan_victim_worst (ctx : PlanContext) (key : Nat → WithTop Int)
    (working : OrderedSet Nat) (ids : List Nat) (sorted : ids.Pairwise (· < ·))
    (best : Option (Nat × WithTop Int))
    (begun : ∀ start, best = some start → start.2 = key start.1 ∧ ∀ id ∈ ids, start.1 < id)
    (victim : Nat) (bestKey : WithTop Int)
    (found : scanVictim ctx key working ids best = some (victim, bestKey)) :
    (∀ start, best = some start → start.1 ≠ victim → Worse ctx.policy key victim start.1) ∧
      ∀ id ∈ ids, id ∉ working.elems → id ≠ victim → Worse ctx.policy key victim id := by
  induction ids generalizing best with
  | nil =>
      rw [scanVictim] at found
      constructor
      · intro start same different
        rw [found] at same
        cases same
        exact absurd rfl different
      · intro id none
        cases none
  | cons id rest induction =>
      have ascending := List.pairwise_cons.mp sorted
      have later (start : Nat × WithTop Int) (same : best = some start) :
          start.2 = key start.1 ∧ ∀ other ∈ rest, start.1 < other :=
        ⟨(begun start same).1, fun other member => (begun start same).2 other
          (List.mem_cons_of_mem id member)⟩
      have fresh : ∀ start, some (id, key id) = some start →
          start.2 = key start.1 ∧ ∀ other ∈ rest, start.1 < other := by
        intro start same
        cases same
        exact ⟨rfl, ascending.1⟩
      by_cases inWorking : id ∈ working.elems
      · simp only [scanVictim, OrderedSet.contains_iff, if_pos inWorking] at found
        have tail := induction ascending.2 best later found
        apply And.intro tail.1
        intro other member outside different
        cases List.mem_cons.mp member with
        | inl same => exact absurd (same ▸ inWorking) outside
        | inr deeper => exact tail.2 other deeper outside different
      · simp only [scanVictim, OrderedSet.contains_iff, if_neg inWorking] at found
        cases best with
        | none =>
            have tail := induction ascending.2 (some (id, key id)) fresh found
            constructor
            · intro start impossible
              cases impossible
            · intro other member outside different
              cases List.mem_cons.mp member with
              | inl same =>
                  rw [same] at different ⊢
                  exact tail.1 (id, key id) rfl different
              | inr deeper => exact tail.2 other deeper outside different
        | some current =>
            have facts := begun current rfl
            have below := facts.2 id List.mem_cons_self
            by_cases wins : beatsVictim ctx.policy (key id) current.2 = true
            · simp only [if_pos wins] at found
              have tail := induction ascending.2 (some (id, key id)) fresh found
              rw [facts.1] at wins
              constructor
              · intro start same different
                cases same
                by_cases head : id = victim
                · rw [← head]
                  exact Or.inl wins
                · exact worse_then_beats (tail.1 (id, key id) rfl head) wins
              · intro other member outside different
                cases List.mem_cons.mp member with
                | inl same =>
                    rw [same] at different ⊢
                    exact tail.1 (id, key id) rfl different
                | inr deeper => exact tail.2 other deeper outside different
            · simp only [if_neg wins] at found
              have tail := induction ascending.2 (some current) later found
              rw [facts.1, Bool.not_eq_true] at wins
              constructor
              · exact tail.1
              · intro other member outside different
                cases List.mem_cons.mp member with
                | inr deeper => exact tail.2 other deeper outside different
                | inl same =>
                    rw [same]
                    by_cases head : current.1 = victim
                    · rw [← head]
                      exact Or.inr ⟨wins, below⟩
                    · exact worse_then_ties (tail.1 current rfl head) wins below

theorem select_victim_worst (ctx : PlanContext) (state : PlanState) (pos : Int)
    (working : OrderedSet Nat) (victim : Nat)
    (selected : selectVictim ctx state pos working = some victim) :
    ∀ id ∈ state.resident.elems, id ∉ working.elems → id ≠ victim →
      Worse ctx.policy (victimKey ctx state pos) victim id := by
  rw [selectVictim, Option.map_eq_some_iff] at selected
  obtain ⟨best, scanned, same⟩ := selected
  cases best with
  | mk found bestKey =>
      cases same
      have worst := scan_victim_worst ctx _ working _ state.resident.sorted none
        (fun start impossible => by cases impossible) found bestKey scanned
      exact worst.2

/-- Victims are worse than every survivor that could have gone instead. -/
theorem evict_run_worst {ctx : PlanContext} {pos : Int} {working : OrderedSet Nat}
    {incoming : UInt64} {state settled : PlanState} {victims : List Nat}
    (run : EvictRun ctx pos working incoming state victims settled) :
    ∀ victim ∈ victims, ∀ id ∈ settled.resident.elems, id ∉ working.elems →
      Worse ctx.policy (victimKey ctx state pos) victim id := by
  induction run with
  | fits =>
      intro victim none
      cases none
  | evicts exceeds selected rest induction =>
      intro victim member id survives outside
      have before := ((evict_run_resident rest id).mp survives).1
      simp only [PlanState.evict, OrderedSet.mem_erase] at before
      cases List.mem_cons.mp member with
      | inl same =>
          rw [same]
          exact select_victim_worst ctx _ pos working _ selected id before.2 outside before.1
      | inr later => exact induction victim later id survives outside

/-- The last position before `i` whose working set holds the id. -/
def touchTable (program : FhnProgram) : Nat → Nat → Option Int
  | 0, _ => none
  | i + 1, id =>
      match program.instructions[i]? with
      | some inst =>
          if id ∈ (workingSet inst).elems then some (i : Int) else touchTable program i id
      | none => touchTable program i id

theorem fold_evict_touch (ctx : PlanContext) (ids : List Nat) (state : PlanState) :
    (ids.foldl (fun st id => st.evict ctx id) state).lastTouch = state.lastTouch := by
  induction ids generalizing state with
  | nil => rfl
  | cons id rest induction => exact induction (state.evict ctx id)

theorem fold_free_touch (ctx : PlanContext) (ids : List Nat) (state : PlanState) :
    (ids.foldl (fun st id => st.free ctx id) state).lastTouch = state.lastTouch := by
  induction ids generalizing state with
  | nil => rfl
  | cons id rest induction => exact induction (state.free ctx id)

theorem fold_update_touch (update : PlanState → Nat → PlanState) (pos : Int)
    (touches : ∀ state id, (update state id).lastTouch =
      Function.update state.lastTouch id (some pos))
    (ids : List Nat) (state : PlanState) (id : Nat) :
    (ids.foldl update state).lastTouch id =
      if id ∈ ids then some pos else state.lastTouch id := by
  induction ids generalizing state with
  | nil => rfl
  | cons first rest induction =>
      rw [List.foldl_cons, induction, touches]
      by_cases later : id ∈ rest
      · rw [if_pos later, if_pos (List.mem_cons_of_mem first later)]
      · rw [if_neg later]
        by_cases same : id = first
        · rw [same, Function.update_self, if_pos List.mem_cons_self]
        · rw [Function.update_of_ne same, if_neg (by simp [same, later])]

/-- An instruction touches its working set and nothing else. -/
theorem plan_step_touch {ctx : PlanContext} {i : Nat} {inst : FhnInstruction}
    {state next : PlanState} {act : FhnMovementActions}
    (stepped : planStep ctx i inst state = some (act, next)) (id : Nat) :
    next.lastTouch id =
      if id ∈ (workingSet inst).elems then some (i : Int) else state.lastTouch id := by
  simp only [planStep] at stepped
  cases made : makeRoom ctx (i : Int) inst state with
  | none =>
      rw [made] at stepped
      cases stepped
  | some outcome =>
      cases outcome with
      | mk victims roomy =>
          rw [made] at stepped
          simp only [Option.some.injEq, Prod.mk.injEq] at stepped
          have old : roomy.lastTouch = state.lastTouch := by
            have room := make_room_spec ctx i inst state roomy victims made
            cases room with
            | inl unlimited => rw [unlimited.2.2]
            | inr checked => rw [evict_run_state checked.2.2, fold_evict_touch]
          rw [← stepped.2, fold_free_touch,
            fold_update_touch (fun st id => st.touch (i : Int) id) (i : Int) (fun _ _ => rfl)]
          have loaded := fold_update_touch (fun st id => st.prefetch ctx (i : Int) id) (i : Int)
            (fun _ _ => rfl) (toPrefetch state inst)
            (roomy.allocate ctx (i : Int) inst.resultId) id
          have allocated : (roomy.allocate ctx (i : Int) inst.resultId).lastTouch =
              Function.update state.lastTouch inst.resultId (some (i : Int)) := by
            rw [← old]
            rfl
          simp only [PlanState.recordHighWater, mem_working_set, mem_operand_set]
          rw [loaded, allocated]
          by_cases operand : id ∈ inst.usedOperands
          · rw [if_pos operand, if_pos (Or.inr operand)]
          · have staying : id ∉ toPrefetch state inst := by
              rw [mem_to_prefetch]
              exact fun both => operand both.1
            rw [if_neg operand, if_neg staying]
            by_cases result : id = inst.resultId
            · rw [result, Function.update_self, if_pos (Or.inl rfl)]
            · rw [Function.update_of_ne result, if_neg (by simp [result, operand])]

/-- What the policies compare before instruction `i`: nothing a budget changes. -/
def rankKey (program : FhnProgram) (policy : FhnEvictionPolicy) (i id : Nat) : WithTop Int :=
  match policy with
  | .belady => nextUseAfter (usePositions program) id ((i : Int) - 1)
  | .lru => (((touchTable program i id).getD (-1) : Int) : WithTop Int)

section Runs

variable {program : FhnProgram} {pinned : List Nat} {ctx : PlanContext} {plan : FhnMovementPlan}
  {acts : List FhnMovementActions} {states : Nat → PlanState}

theorem touch_table_run (run : Analysis program pinned ctx plan acts states) (i : Nat)
    (bound : i ≤ program.instructions.length) :
    (states i).lastTouch = touchTable program i := by
  induction i with
  | zero =>
      rw [run.start]
      rfl
  | succ i induction =>
      have get := List.getElem?_eq_getElem (show i < program.instructions.length by omega)
      obtain ⟨act, -, stepped⟩ := run.steps i _ get
      funext id
      rw [plan_step_touch stepped id, induction (by omega), touchTable, get]

theorem victim_key_rank (run : Analysis program pinned ctx plan acts states) (i : Nat)
    (bound : i ≤ program.instructions.length) :
    victimKey ctx (states i) (i : Int) = rankKey program ctx.policy i := by
  funext id
  unfold victimKey rankKey
  cases ctx.policy with
  | belady => simp only [run.uses]
  | lru => simp only [touch_table_run run i bound]

theorem request_slots (valid : SsaValid program) (representable : Representable program)
    (slots : ctx.cost = fun _ => 1) {i : Nat} {inst : FhnInstruction}
    (get : program.instructions[i]? = some inst) {state : PlanState}
    (holds : DeviceInvariant program pinned i state) (exact : UnitsExact ctx state)
    {victims : List Nat} (nodup : victims.Nodup)
    (chosen : ∀ id ∈ victims, id ∈ state.resident.elems) :
    ((victims.foldl (fun st id => st.evict ctx id) state).residentUnits +
        incomingUnits ctx state inst).toNat + victims.length =
      (state.resident.toFinset ∪ (workingSet inst).toFinset).card := by
  have held : victims.toFinset ⊆ state.resident.toFinset := by
    intro id member
    rw [OrderedSet.mem_to_finset]
    exact chosen id (List.mem_toFinset.mp member)
  have apart := incoming_apart valid get holds
  have leaves : (state.resident.toFinset \ victims.toFinset) ∪ incomingIds state inst =
      (state.resident.toFinset ∪ (workingSet inst).toFinset) \ victims.toFinset := by
    rw [← resident_and_incoming, Finset.union_sdiff_distrib,
      Finset.sdiff_eq_self_of_disjoint ((apart.mono_left held).symm)]
  have inside : victims.toFinset ⊆ state.resident.toFinset ∪ (workingSet inst).toFinset :=
    held.trans Finset.subset_union_left
  have total := slot_total valid get holds
  have few := representable_card valid representable
  have difference := Finset.card_sdiff_add_card_eq_card inside
  rw [List.toFinset_card_of_nodup nodup] at difference
  rw [request_units valid get holds exact nodup chosen, leaves, slot_cost slots,
    UInt64.toNat_ofNat', Nat.mod_eq_of_lt (by omega)]
  exact difference

/-- The loop evicts no more than the budget forces it to. -/
theorem evicted_count (valid : SsaValid program) (representable : Representable program)
    (slots : ctx.cost = fun _ => 1) {i : Nat} {inst : FhnInstruction}
    (get : program.instructions[i]? = some inst) {state roomy : PlanState} {victims : List Nat}
    (holds : DeviceInvariant program pinned i state) (exact : UnitsExact ctx state)
    (run : EvictRun ctx (i : Int) (workingSet inst) (incomingUnits ctx state inst) state victims
      roomy) :
    victims.length = (state.resident.toFinset ∪ (workingSet inst).toFinset).card -
      ctx.deviceBudget.toNat := by
  obtain ⟨nodup, chosen⟩ := evict_run_victims run
  have held : ∀ id ∈ victims, id ∈ state.resident.elems := fun id victim => (chosen id victim).1
  have settled := request_slots valid representable slots get holds exact nodup held
  have within := UInt64.le_iff_toNat_le.mp (evict_run_within run)
  rw [evict_run_state run] at within
  by_cases none : victims = []
  · rw [none, List.length_nil, Nat.add_zero] at settled
    rw [none] at within ⊢
    rw [settled] at within
    rw [List.length_nil]
    omega
  · obtain ⟨first, last, split, late⟩ := evict_run_tight run none
    rw [split] at nodup held
    have before := request_slots valid representable slots get holds exact
      (List.nodup_append.mp nodup).1 (fun id early => held id (List.mem_append_left _ early))
    have exceeded := UInt64.lt_iff_toNat_lt.mp late
    rw [split, List.length_append, List.length_singleton] at settled ⊢
    rw [split] at within
    omega

theorem step_service (valid : SsaValid program) (representable : Representable program)
    (uses : ctx.uses = usePositions program) (pins : ctx.pinned = pinned)
    (slots : ctx.cost = fun _ => 1) (limited : 0 < ctx.deviceBudget) {i : Nat}
    {inst : FhnInstruction} (get : program.instructions[i]? = some inst)
    {state next : PlanState} {act : FhnMovementActions}
    (holds : DeviceInvariant program pinned i state) (exact : UnitsExact ctx state)
    (facts : StepFacts ctx i inst state act next) :
    Service (Worse ctx.policy (victimKey ctx state (i : Int))) ctx.deviceBudget.toNat
      state.resident.toFinset (workingSet inst).toFinset (freedAfter program pinned i inst)
      act.evict.toFinset next.resident.toFinset := by
  have choices := step_choices facts
  obtain ⟨roomy, made⟩ := facts.room
  have room := make_room_spec ctx i inst state roomy act.evict made
  have run : EvictRun ctx (i : Int) (workingSet inst) (incomingUnits ctx state inst) state
      act.evict roomy := by
    cases room with
    | inl unlimited => exact absurd limited (by simp [unlimited.1])
    | inr checked => exact checked.2.2
  constructor
  · intro id victim
    have chosen := choices.evicted id (List.mem_toFinset.mp victim)
    rw [Finset.mem_sdiff, OrderedSet.mem_to_finset]
    rw [OrderedSet.mem_to_finset]
    exact ⟨(OrderedSet.mem_to_finset _ _).mp chosen.1, chosen.2⟩
  · intro victim gone id survives
    rw [Finset.mem_sdiff, Finset.mem_sdiff, OrderedSet.mem_to_finset, OrderedSet.mem_to_finset,
      List.mem_toFinset] at survives
    apply evict_run_worst run victim (List.mem_toFinset.mp gone) id _ survives.1.2
    exact (evict_run_resident run id).mpr ⟨survives.1.1, survives.2⟩
  · rw [List.toFinset_card_of_nodup choices.evictNodup]
    exact evicted_count valid representable slots get holds exact run
  · exact Finset.filter_subset _ _
  · rw [after_resident facts, replay_moves]
    ext id
    rw [Finset.mem_sdiff, Finset.mem_sdiff, mem_dispatch_iff choices, Finset.mem_union,
      Finset.mem_sdiff, OrderedSet.mem_to_finset, OrderedSet.mem_to_finset, List.mem_toFinset,
      List.mem_toFinset, facts.free, mem_freed_after valid uses pins get]

/-- A slot-mode analysis as a cache that serves the program. -/
def cacheRun (acts : List FhnMovementActions) (states : Nat → PlanState) : Run Nat where
  held := fun i => (states i).resident.toFinset
  evicted := fun i =>
    match acts[i]? with
    | some act => act.evict.toFinset
    | none => ∅

def workingAt (program : FhnProgram) (i : Nat) : Finset Nat :=
  match program.instructions[i]? with
  | some inst => (workingSet inst).toFinset
  | none => ∅

theorem analysis_serves (run : Analysis program pinned ctx plan acts states)
    (representable : Representable program) (slots : ctx.cost = fun _ => 1)
    (limited : 0 < ctx.deviceBudget) :
    Serves (fun i => Worse ctx.policy (rankKey program ctx.policy i)) (workingAt program)
      (freedAt program pinned) ctx.deviceBudget.toNat program.instructions.length
      (cacheRun acts states) := by
  intro i bound
  have get := List.getElem?_eq_getElem bound
  obtain ⟨act, found, facts⟩ := analysis_step run i _ get
  have service := step_service run.valid representable run.uses run.pins slots limited get
    (device_invariant run i bound.le) (units_exact run i bound.le) facts
  rw [victim_key_rank run i bound.le] at service
  simp only [workingAt, freedAt, cacheRun, get, found]
  exact service

end Runs

structure NoAnomaly (program : FhnProgram) (plan larger : FhnMovementPlan) : Prop where
  resident : ∀ i, i ≤ program.instructions.length →
    residentBefore plan i ⊆ residentBefore larger i
  prefetched : ∀ (i : Nat) (act other : FhnMovementActions), plan.actions[i]? = some act →
    larger.actions[i]? = some other → ∀ id ∈ other.prefetch, id ∈ act.prefetch
  prefetches : (larger.actions.map (·.prefetch.length)).sum ≤
    (plan.actions.map (·.prefetch.length)).sum
  evictions : (larger.actions.map (·.evict.length)).sum ≤
    (plan.actions.map (·.evict.length)).sum
  /-- The published counters are those numbers in 32 bits. -/
  counters : ∀ published, published = plan ∨ published = larger →
    published.stats.prefetchCount =
        UInt32.ofNat (published.actions.map (·.prefetch.length)).sum ∧
      published.stats.evictCount = UInt32.ofNat (published.actions.map (·.evict.length)).sum
  prefetchCount : (plan.actions.map (·.prefetch.length)).sum < 2 ^ 32 →
    larger.stats.prefetchCount ≤ plan.stats.prefetchCount
  evictCount : (plan.actions.map (·.evict.length)).sum < 2 ^ 32 →
    larger.stats.evictCount ≤ plan.stats.evictCount

theorem sum_le_by_position {first second : List Nat} (length : first.length = second.length)
    (below : ∀ (i left right : Nat), first[i]? = some left → second[i]? = some right →
      left ≤ right) :
    first.sum ≤ second.sum := by
  induction first generalizing second with
  | nil => exact Nat.zero_le _
  | cons left rest induction =>
      cases second with
      | nil => cases length
      | cons right others =>
          rw [List.sum_cons, List.sum_cons]
          apply Nat.add_le_add
          · exact below 0 left right rfl rfl
          · apply induction (by simpa using length)
            intro i small large
            exact below (i + 1) small large

section Pair

variable {program : FhnProgram} {pinned : List Nat} {policy : FhnEvictionPolicy}
  {small large : UInt64}

theorem larger_accepts (limited : 0 < small) (ordered : small ≤ large) {plan : FhnMovementPlan}
    (accepted : analyze program pinned small policy none = some plan) :
    ∃ larger, analyze program pinned large policy none = some larger := by
  obtain ⟨levelOf, acts, states, leveled, run⟩ := analyze_run accepted
  cases leveled
  have sums (deviceBudget : UInt64) : WorkingSumsFit program
      (planContext (usePositions program) (fun _ => none) pinned deviceBudget policy none) := by
    intro inst member
    have few := working_ids_card inst
    rw [slot_cost rfl, working_ids_eq]
    omega
  have fits := accepted_sets_fit run (sums small)
  apply analyze_accepts program pinned large policy none (fun _ => none) run.valid rfl (sums large)
  apply Or.inr
  intro inst member
  cases fits with
  | inl unlimited =>
      have zero : small = 0 := unlimited
      rw [zero] at limited
      exact absurd limited (by decide)
  | inr sets =>
      have here := sets inst member
      rw [slot_cost rfl] at here ⊢
      exact here.trans (UInt64.le_iff_toNat_le.mp ordered)

theorem published_sums {plan larger : FhnMovementPlan} (size : FhnMovementActions → Nat)
    (length : larger.actions.length = plan.actions.length)
    (below : ∀ (i : Nat) (act other : FhnMovementActions), plan.actions[i]? = some act →
      larger.actions[i]? = some other → size other ≤ size act) :
    (larger.actions.map size).sum ≤ (plan.actions.map size).sum := by
  apply sum_le_by_position (by rw [List.length_map, List.length_map, length])
  intro i left right first second
  rw [List.getElem?_map, Option.map_eq_some_iff] at first second
  obtain ⟨other, found, sized⟩ := first
  obtain ⟨act, planned, measured⟩ := second
  rw [← sized, ← measured]
  exact below i act other planned found

theorem analysis_counters {ctx : PlanContext} {plan : FhnMovementPlan}
    {acts : List FhnMovementActions} {states : Nat → PlanState}
    (run : Analysis program pinned ctx plan acts states) :
    plan.stats.prefetchCount = UInt32.ofNat (plan.actions.map (·.prefetch.length)).sum ∧
      plan.stats.evictCount = UInt32.ofNat (plan.actions.map (·.evict.length)).sum := by
  constructor
  · exact counter_total run (·.prefetchCount) rfl (·.prefetch.length) (fun _ _ => rfl)
      fun i inst act facts => (step_stats facts).2.2.1
  · exact counter_total run (·.evictCount) rfl (·.evict.length) (fun _ _ => rfl)
      fun i inst act facts => (step_stats facts).1

theorem counters_ordered {fewer more : Nat} (ordered : fewer ≤ more) (small : more < 2 ^ 32) :
    UInt32.ofNat fewer ≤ UInt32.ofNat more := by
  rw [UInt32.le_iff_toNat_le, UInt32.toNat_ofNat', UInt32.toNat_ofNat',
    Nat.mod_eq_of_lt (by omega), Nat.mod_eq_of_lt small]
  exact ordered

/-- One instruction, beside an analysis that holds more when it comes to it and evicts no more. -/
theorem instruction_loads {ctx otherCtx : PlanContext} {plan larger : FhnMovementPlan}
    {acts otherActs : List FhnMovementActions} {states otherStates : Nat → PlanState}
    (run : Analysis program pinned ctx plan acts states)
    (other : Analysis program pinned otherCtx larger otherActs otherStates) {i : Nat}
    (nested : (cacheRun acts states).held i ⊆ (cacheRun otherActs otherStates).held i)
    (fewer : ((cacheRun otherActs otherStates).evicted i).card ≤
      ((cacheRun acts states).evicted i).card)
    {act later : FhnMovementActions} (planned : plan.actions[i]? = some act)
    (found : larger.actions[i]? = some later) :
    (∀ id ∈ later.prefetch, id ∈ act.prefetch) ∧ later.prefetch.Nodup ∧
      later.evict.length ≤ act.evict.length := by
  have bound : i < program.instructions.length := by
    rw [← analysis_plan_length run]
    exact (List.getElem?_eq_some_iff.mp planned).1
  have get := List.getElem?_eq_getElem bound
  obtain ⟨raw, listed, facts⟩ := analysis_step run i _ get
  obtain ⟨otherRaw, otherListed, otherFacts⟩ := analysis_step other i _ get
  rw [analysis_action run i raw listed] at planned
  rw [analysis_action other i otherRaw otherListed] at found
  cases planned
  cases found
  have choices := step_choices facts
  have otherChoices := step_choices otherFacts
  refine ⟨?_, otherChoices.prefetchNodup, ?_⟩
  · intro id incoming
    have needed := (otherChoices.prefetched id).mp incoming
    apply (choices.prefetched id).mpr
    exact ⟨needed.1, fun held => needed.2 (nested held)⟩
  · simp only [cacheRun, listed, otherListed] at fewer
    rw [List.toFinset_card_of_nodup choices.evictNodup,
      List.toFinset_card_of_nodup otherChoices.evictNodup] at fewer
    exact fewer

end Pair

/-- In slot mode a feasible budget can only gain from more slots. -/
theorem budget_inclusion (program : FhnProgram) (pinned : List Nat) (policy : FhnEvictionPolicy)
    (small large : UInt64) (plan : FhnMovementPlan) (representable : Representable program)
    (limited : 0 < small) (ordered : small ≤ large)
    (accepted : analyze program pinned small policy none = some plan) :
    ∃ larger, analyze program pinned large policy none = some larger ∧
      NoAnomaly program plan larger := by
  obtain ⟨larger, analyzed⟩ := larger_accepts limited ordered accepted
  obtain ⟨_, acts, states, leveled, run⟩ := analyze_run accepted
  obtain ⟨_, otherActs, otherStates, otherLeveled, other⟩ := analyze_run analyzed
  cases leveled
  cases otherLeveled
  have positive : 0 < large := UInt64.lt_of_lt_of_le limited ordered
  have asymmetric : ∀ (i : Nat) first second, Worse policy (rankKey program policy i) first second →
      ¬Worse policy (rankKey program policy i) second first :=
    fun i first second => worse_asymmetric policy _ first second
  have start : Nested small.toNat large.toNat ((cacheRun acts states).held 0)
      ((cacheRun otherActs otherStates).held 0) := by
    constructor
    · simp only [cacheRun, run.start, other.start]
      exact Finset.Subset.refl _
    · simp only [cacheRun, run.start, other.start]
      have bound := UInt64.le_iff_toNat_le.mp ordered
      omega
  have inner := analysis_serves run representable rfl limited
  have outer := analysis_serves other representable rfl positive
  have nested (i : Nat) (bound : i ≤ program.instructions.length) :=
    (StackInclusion.runs_nested asymmetric start inner outer i bound).subset
  have fewer (i : Nat) (bound : i < program.instructions.length) :=
    StackInclusion.runs_evict_fewer asymmetric start inner outer i bound
  have lengths : larger.actions.length = plan.actions.length := by
    rw [analysis_plan_length run, analysis_plan_length other]
  have loaded (i : Nat) (act later : FhnMovementActions) (planned : plan.actions[i]? = some act)
      (found : larger.actions[i]? = some later) :
      (∀ id ∈ later.prefetch, id ∈ act.prefetch) ∧ later.prefetch.Nodup ∧
        later.evict.length ≤ act.evict.length := by
    have bound : i < program.instructions.length := by
      rw [← analysis_plan_length run]
      exact (List.getElem?_eq_some_iff.mp planned).1
    exact instruction_loads run other (nested i bound.le) (fewer i bound) planned found
  have prefetches : (larger.actions.map (·.prefetch.length)).sum ≤
      (plan.actions.map (·.prefetch.length)).sum := by
    apply published_sums _ lengths
    intro i act later planned found
    have facts := loaded i act later planned found
    exact (facts.2.1.subperm facts.1).length_le
  have evictions : (larger.actions.map (·.evict.length)).sum ≤
      (plan.actions.map (·.evict.length)).sum := by
    apply published_sums _ lengths
    intro i act later planned found
    exact (loaded i act later planned found).2.2
  have counted := analysis_counters run
  have otherCounted := analysis_counters other
  refine ⟨larger, analyzed, ?_⟩
  constructor
  · intro i bound
    rw [resident_before_eq run i bound, resident_before_eq other i bound]
    exact nested i bound
  · intro i act later planned found
    exact (loaded i act later planned found).1
  · exact prefetches
  · exact evictions
  · intro published same
    cases same with
    | inl first =>
        rw [first]
        exact counted
    | inr second =>
        rw [second]
        exact otherCounted
  · intro small
    rw [counted.1, otherCounted.1]
    exact counters_ordered prefetches small
  · intro small
    rw [counted.2, otherCounted.2]
    exact counters_ordered evictions small

theorem budget_inclusion_sum_of_products :
    ∃ larger, analyze sumOfProducts [12] 4 .lru none = some larger ∧
      NoAnomaly sumOfProducts
        { actions :=
            [{ evict := [], alloc := [10], prefetch := [1, 2], free := [1] },
              { evict := [10], alloc := [11], prefetch := [3], free := [2, 3] },
              { evict := [], alloc := [12], prefetch := [10], free := [10, 11] }]
          stats :=
            { highWater := 3, allocCount := 3, prefetchCount := 4, evictCount := 1,
              highWaterBytes := 0 } } larger := by
  apply budget_inclusion sumOfProducts [12] .lru 3 4 _ (by decide) (by decide) (by decide)
  decide

/-- Adds registers 1 and 2, then 3 and 4, and so on; nothing reads a sum. -/
def alternatingAt (i : Nat) : FhnInstruction where
  opcode := .addCC
  resultId := 5 + i
  operands := if i % 2 = 0 then ![1, 2, 0, 0] else ![3, 4, 0, 0]

def alternating (n : Nat) : FhnProgram where
  instructions := (List.range n).map alternatingAt
  inputIds := [1, 2, 3, 4]

section Alternating

variable {n : Nat}

theorem alternating_get (i : Nat) (bound : i < n) :
    (alternating n).instructions[i]? = some (alternatingAt i) := by
  simp [alternating, bound]

theorem alternating_found {i : Nat} {inst : FhnInstruction}
    (get : (alternating n).instructions[i]? = some inst) : i < n ∧ inst = alternatingAt i := by
  have bound : i < n := by
    simpa [alternating] using (List.getElem?_eq_some_iff.mp get).1
  rw [alternating_get i bound, Option.some.injEq] at get
  exact ⟨bound, get.symm⟩

theorem alternating_operands (i : Nat) :
    (alternatingAt i).usedOperands = if i % 2 = 0 then [1, 2] else [3, 4] := by
  by_cases even : i % 2 = 0
  · have operands : (alternatingAt i).operands = ![1, 2, 0, 0] := if_pos even
    rw [FhnInstruction.usedOperands, operands, if_pos even]
    rfl
  · have operands : (alternatingAt i).operands = ![3, 4, 0, 0] := if_neg even
    rw [FhnInstruction.usedOperands, operands, if_neg even]
    rfl

theorem alternating_small {i id : Nat} (operand : id ∈ (alternatingAt i).usedOperands) :
    id ∈ [1, 2, 3, 4] := by
  rw [alternating_operands] at operand
  split at operand
  · simp at operand ⊢
    tauto
  · simp at operand ⊢
    tauto

theorem alternating_apart {i id : Nat} (operand : id ∈ (alternatingAt (i + 1)).usedOperands) :
    id ∉ (alternatingAt i).usedOperands := by
  rw [alternating_operands] at operand ⊢
  by_cases even : i % 2 = 0
  · have odd : ¬(i + 1) % 2 = 0 := by omega
    rw [if_neg odd] at operand
    rw [if_pos even]
    simp at operand ⊢
    omega
  · have odd : (i + 1) % 2 = 0 := by omega
    rw [if_pos odd] at operand
    rw [if_neg even]
    simp at operand ⊢
    omega

theorem alternating_valid (n : Nat) : SsaValid (alternating n) := by
  have defined : (alternating n).definedIds =
      [1, 2, 3, 4] ++ (List.range n).map (fun i => 5 + i) := by
    simp [FhnProgram.definedIds, FhnProgram.resultIds, alternating, alternatingAt,
      Function.comp_def]
  constructor
  · intro id member
    rw [defined, List.mem_append, List.mem_map] at member
    cases member with
    | inl input =>
        intro zero
        rw [zero] at input
        simp at input
    | inr result =>
        obtain ⟨i, -, same⟩ := result
        omega
  · rw [defined, List.nodup_append]
    refine ⟨by decide, ?_, ?_⟩
    · apply List.Nodup.map _ List.nodup_range
      intro first second same
      exact Nat.add_left_cancel same
    · intro input early result late same
      rw [List.mem_map] at late
      obtain ⟨i, -, sum⟩ := late
      simp only [List.mem_cons, List.not_mem_nil, or_false] at early
      omega
  · intro position id reads
    obtain ⟨inst, get, operand⟩ := reads
    rw [(alternating_found get).2] at operand
    exact List.mem_append_left _ (alternating_small operand)

theorem alternating_representable (fits : n + 5 ≤ 2 ^ 32) : Representable (alternating n) := by
  intro id member
  simp only [FhnProgram.definedIds, FhnProgram.resultIds, alternating, alternatingAt,
    List.map_map, List.mem_append, List.mem_map, List.mem_range, Function.comp_apply,
    List.mem_cons, List.not_mem_nil, or_false] at member
  cases member with
  | inl input => omega
  | inr result =>
      obtain ⟨i, bound, same⟩ := result
      omega

theorem alternating_working (i : Nat) : (workingIds (alternatingAt i)).card = 3 := by
  have fresh : (alternatingAt i).resultId ∉ (alternatingAt i).usedOperands.toFinset := by
    intro member
    have small := alternating_small (List.mem_toFinset.mp member)
    simp only [List.mem_cons, List.not_mem_nil, or_false, alternatingAt] at small
    omega
  rw [workingIds, Finset.card_insert_of_notMem fresh, alternating_operands]
  split
  · rfl
  · rfl

theorem alternating_accepts (deviceBudget : UInt64) (enough : 3 ≤ deviceBudget.toNat) :
    ∃ plan, analyze (alternating n) [] deviceBudget .belady none = some plan := by
  apply analyze_accepts (alternating n) [] deviceBudget .belady none (fun _ => none)
    (alternating_valid n) rfl
  · intro inst member
    have few := working_ids_card inst
    rw [slot_cost rfl, working_ids_eq]
    omega
  · apply Or.inr
    intro inst member
    obtain ⟨i, get⟩ := List.mem_iff_getElem?.mp member
    rw [slot_cost rfl, working_ids_eq, (alternating_found get).2, alternating_working]
    exact enough

theorem prefetch_count {ctx : PlanContext} {i : Nat} {inst : FhnInstruction}
    {before after : PlanState} {act : FhnMovementActions}
    (facts : StepFacts ctx i inst before act after) :
    act.prefetch.length = (inst.usedOperands.toFinset \ before.resident.toFinset).card := by
  have choices := step_choices facts
  rw [← List.toFinset_card_of_nodup choices.prefetchNodup]
  congr 1
  ext id
  rw [List.mem_toFinset, choices.prefetched, Finset.mem_sdiff, List.mem_toFinset]

theorem alternating_operand_count (i : Nat) :
    (alternatingAt i).usedOperands.toFinset.card = 2 := by
  rw [alternating_operands]
  split
  · rfl
  · rfl

theorem alternating_prefetch_le {ctx : PlanContext} {i : Nat} {before after : PlanState}
    {act : FhnMovementActions} (facts : StepFacts ctx i (alternatingAt i) before act after) :
    act.prefetch.length ≤ 2 := by
  rw [prefetch_count facts, ← alternating_operand_count i]
  exact Finset.card_le_card Finset.sdiff_subset

variable {plan : FhnMovementPlan} {acts : List FhnMovementActions} {states : Nat → PlanState}
  {deviceBudget : UInt64}

theorem alternating_published {ctx : PlanContext}
    (run : Analysis (alternating n) [] ctx plan acts states) {count : Nat}
    (member : count ∈ plan.actions.map (·.prefetch.length)) :
    ∃ i act, i < n ∧ StepFacts ctx i (alternatingAt i) (states i) act (states (i + 1)) ∧
      act.prefetch.length = count := by
  rw [List.mem_map] at member
  obtain ⟨published, listed, same⟩ := member
  obtain ⟨i, found⟩ := List.mem_iff_getElem?.mp listed
  obtain ⟨inst, act, get, facts, rfl⟩ := analysis_published run found
  obtain ⟨bound, rfl⟩ := alternating_found get
  exact ⟨i, act, bound, facts, same⟩

theorem alternating_served
    (run : Analysis (alternating n) []
      (planContext (usePositions (alternating n)) (fun _ => none) [] deviceBudget .belady none)
      plan acts states)
    (fits : n + 5 ≤ 2 ^ 32) (limited : 0 < deviceBudget) (i : Nat) (bound : i < n) :
    ∃ evicted, Service (Worse .belady (rankKey (alternating n) .belady i)) deviceBudget.toNat
      (states i).resident.toFinset (workingIds (alternatingAt i))
      (freedAfter (alternating n) [] i (alternatingAt i)) evicted
      (states (i + 1)).resident.toFinset := by
  have length : (alternating n).instructions.length = n := by simp [alternating]
  have served := analysis_serves run (alternating_representable fits) rfl limited i (by omega)
  simp only [workingAt, freedAt, alternating_get i bound, working_ids_eq] at served
  exact ⟨_, served⟩

/-- With three slots only the last working set survives. -/
theorem three_slots_resident
    (run : Analysis (alternating n) []
      (planContext (usePositions (alternating n)) (fun _ => none) [] 3 .belady none)
      plan acts states)
    (fits : n + 5 ≤ 2 ^ 32) (i : Nat) (bound : i < n) :
    (states (i + 1)).resident.toFinset ⊆ workingIds (alternatingAt i) := by
  obtain ⟨evicted, service⟩ := alternating_served run fits (by decide) i bound
  have card := StackInclusion.served_card service
  have count := service.count
  have three : (3 : UInt64).toNat = 3 := rfl
  have working := alternating_working i
  have covered := Finset.card_le_card (Finset.subset_union_right :
    workingIds (alternatingAt i) ⊆ (states i).resident.toFinset ∪ _)
  have whole : workingIds (alternatingAt i) =
      ((states i).resident.toFinset \ evicted) ∪ workingIds (alternatingAt i) :=
    Finset.eq_of_subset_of_card_le Finset.subset_union_right (by omega)
  rw [service.after, ← whole]
  exact Finset.sdiff_subset

theorem three_slots_prefetch
    (run : Analysis (alternating n) []
      (planContext (usePositions (alternating n)) (fun _ => none) [] 3 .belady none)
      plan acts states)
    (fits : n + 5 ≤ 2 ^ 32) :
    (plan.actions.map (·.prefetch.length)).sum = n * 2 := by
  have length : (alternating n).instructions.length = n := by simp [alternating]
  have each : ∀ count ∈ plan.actions.map (·.prefetch.length), count = 2 := by
    intro count member
    obtain ⟨i, act, bound, facts, same⟩ := alternating_published run member
    rw [← same]
    have away : Disjoint (alternatingAt i).usedOperands.toFinset (states i).resident.toFinset := by
      rw [Finset.disjoint_left]
      intro id operand held
      rw [List.mem_toFinset] at operand
      cases i with
      | zero =>
          rw [run.start] at held
          exact absurd held (Finset.notMem_empty id)
      | succ i =>
          have last := three_slots_resident run fits i (by omega) held
          rw [workingIds, Finset.mem_insert, List.mem_toFinset] at last
          cases last with
          | inl result =>
              have small := alternating_small operand
              simp only [List.mem_cons, List.not_mem_nil, or_false, alternatingAt] at small result
              omega
          | inr earlier => exact alternating_apart operand earlier
    have counted := prefetch_count facts
    rw [Finset.sdiff_eq_self_of_disjoint away, alternating_operand_count] at counted
    exact counted
  rw [List.sum_eq_card_nsmul _ 2 each, List.length_map, analysis_plan_length run, length,
    smul_eq_mul]

/-- With six slots nothing is evicted early on, so the third instruction finds
its operands. -/
theorem six_slots_third
    (run : Analysis (alternating n) []
      (planContext (usePositions (alternating n)) (fun _ => none) [] 6 .belady none)
      plan acts states)
    (fits : n + 5 ≤ 2 ^ 32) (long : 2 < n) :
    (alternatingAt 2).usedOperands.toFinset ⊆ (states 2).resident.toFinset := by
  obtain ⟨evicted, first⟩ := alternating_served run fits (by decide) 0 (by omega)
  obtain ⟨gone, second⟩ := alternating_served run fits (by decide) 1 (by omega)
  have six : (6 : UInt64).toNat = 6 := rfl
  have held : (states 1).resident.toFinset.card ≤ 3 := by
    have card : (states 1).resident.toFinset.card + _ + _ = _ := StackInclusion.after_card first
    have start : (states 0).resident.toFinset = ∅ := by
      rw [run.start]
      rfl
    rw [start, Finset.empty_union, alternating_working] at card
    omega
  have none : gone = ∅ := by
    have count := second.count
    have together :=
      Finset.card_union_le (states 1).resident.toFinset (workingIds (alternatingAt 1))
    have working := alternating_working 1
    rw [← Finset.card_eq_zero]
    omega
  intro id operand
  have readAgain : (alternating n).ReadsAt 2 id :=
    ⟨_, alternating_get 2 long, List.mem_toFinset.mp operand⟩
  have keeps (i : Nat) (early : i < 2) :
      id ∉ freedAfter (alternating n) [] i (alternatingAt i) := by
    intro freed
    have unread := (Finset.mem_filter.mp freed).2.2
    have last := (read_later_false _ _ _).mp unread 2 readAgain
    omega
  rw [second.after, first.after, none]
  have loaded : id ∈ workingIds (alternatingAt 0) := by
    have same : (alternatingAt 2).usedOperands = (alternatingAt 0).usedOperands := rfl
    rw [same] at operand
    exact Finset.mem_insert_of_mem operand
  simp only [Finset.mem_sdiff, Finset.mem_union, Finset.notMem_empty, not_false_eq_true, and_true]
  exact ⟨Or.inl ⟨Or.inr loaded, keeps 0 (by omega)⟩, keeps 1 (by omega)⟩

theorem sum_below_double {counts : List Nat} (bounded : ∀ count ∈ counts, count ≤ 2)
    (hole : 0 ∈ counts) : counts.sum + 2 ≤ counts.length * 2 := by
  induction counts with
  | nil => cases hole
  | cons count rest induction =>
      have others : ∀ other ∈ rest, other ≤ 2 :=
        fun other later => bounded other (List.mem_cons_of_mem count later)
      rw [List.sum_cons, List.length_cons]
      cases List.mem_cons.mp hole with
      | inl here =>
          have tail := List.sum_le_card_nsmul rest 2 others
          rw [smul_eq_mul] at tail
          omega
      | inr later =>
          have tail := induction others later
          have head := bounded count List.mem_cons_self
          omega

/-- Six slots spare at least one reload, and something has to be loaded. -/
theorem six_slots_prefetch
    (run : Analysis (alternating n) []
      (planContext (usePositions (alternating n)) (fun _ => none) [] 6 .belady none)
      plan acts states)
    (fits : n + 5 ≤ 2 ^ 32) (long : 2 < n) :
    2 ≤ (plan.actions.map (·.prefetch.length)).sum ∧
      (plan.actions.map (·.prefetch.length)).sum + 2 ≤ n * 2 := by
  have length : (alternating n).instructions.length = n := by simp [alternating]
  constructor
  · obtain ⟨act, facts, planned⟩ := analysis_at run 0 _ (alternating_get 0 (by omega))
    have counted := prefetch_count facts
    have start : (states 0).resident.toFinset = ∅ := by
      rw [run.start]
      rfl
    rw [start, Finset.sdiff_empty, alternating_operand_count] at counted
    rw [← counted]
    apply List.single_le_sum (by simp)
    rw [List.mem_map]
    exact ⟨_, List.mem_of_getElem? planned, rfl⟩
  · have counts : (plan.actions.map (·.prefetch.length)).length = n := by
      rw [List.length_map, analysis_plan_length run, length]
    have bounded : ∀ count ∈ plan.actions.map (·.prefetch.length), count ≤ 2 := by
      intro count member
      obtain ⟨i, act, bound, facts, same⟩ := alternating_published run member
      rw [← same]
      exact alternating_prefetch_le facts
    have hole : 0 ∈ plan.actions.map (·.prefetch.length) := by
      obtain ⟨act, facts, planned⟩ := analysis_at run 2 _ (alternating_get 2 long)
      have counted := prefetch_count facts
      rw [Finset.sdiff_eq_empty_iff_subset.mpr (six_slots_third run fits long),
        Finset.card_empty] at counted
      rw [List.mem_map]
      exact ⟨_, List.mem_of_getElem? planned, counted⟩
    have below := sum_below_double bounded hole
    rw [counts] at below
    exact below

end Alternating

/-- After 2^31 instructions the three-slot run has made 2^32 transfers, which its
counter holds as none; the six-slot run, with fewer, shows more. -/
theorem wrapped_prefetch_count :
    Representable (alternating 2147483648) ∧
      ∃ plan larger, analyze (alternating 2147483648) [] 3 .belady none = some plan ∧
        analyze (alternating 2147483648) [] 6 .belady none = some larger ∧
        plan.stats.prefetchCount < larger.stats.prefetchCount := by
  have fits : 2147483648 + 5 ≤ 2 ^ 32 := by omega
  apply And.intro (alternating_representable fits)
  obtain ⟨plan, accepted⟩ :
      ∃ plan, analyze (alternating 2147483648) [] 3 .belady none = some plan :=
    alternating_accepts 3 (by decide)
  obtain ⟨larger, analyzed⟩ : ∃ plan,
      analyze (alternating 2147483648) [] 6 .belady none = some plan :=
    alternating_accepts 6 (by decide)
  refine ⟨plan, larger, accepted, analyzed, ?_⟩
  obtain ⟨_, acts, states, leveled, run⟩ := analyze_run accepted
  obtain ⟨_, otherActs, otherStates, otherLeveled, other⟩ := analyze_run analyzed
  cases leveled
  cases otherLeveled
  have few := three_slots_prefetch run fits
  have more := six_slots_prefetch other fits (by omega)
  rw [(analysis_counters run).1, (analysis_counters other).1, few, UInt32.lt_iff_toNat_lt,
    UInt32.toNat_ofNat', UInt32.toNat_ofNat']
  omega

/-- The same run shows that a plan's counter is not the number of its prefetches. -/
theorem prefetch_counter_overflows :
    Representable (alternating 2147483648) ∧
      ∃ plan, analyze (alternating 2147483648) [] 3 .belady none = some plan ∧
        plan.stats.prefetchCount.toNat ≠ (plan.actions.map (·.prefetch.length)).sum := by
  have fits : 2147483648 + 5 ≤ 2 ^ 32 := by omega
  apply And.intro (alternating_representable fits)
  obtain ⟨plan, accepted⟩ :
      ∃ plan, analyze (alternating 2147483648) [] 3 .belady none = some plan :=
    alternating_accepts 3 (by decide)
  refine ⟨plan, accepted, ?_⟩
  obtain ⟨_, acts, states, leveled, run⟩ := analyze_run accepted
  cases leveled
  have planned := three_slots_prefetch run fits
  rw [(analysis_counters run).1, planned, UInt32.toNat_ofNat']
  omega

end Fhenomenon.BudgetInclusion

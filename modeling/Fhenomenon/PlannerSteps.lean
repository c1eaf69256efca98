import Fhenomenon.PlannerTables

/-!
# One step of the planner

The eviction loop, the victim scan and `planStep` are stated once, as an
inductive run and as an equation on the resident set. Later modules never
unfold the loop again.
-/

namespace Fhenomenon.PlannerSteps

open Fhenomenon.Lib Fhenomenon.InstructionStream Fhenomenon.MovementPlanner
open Fhenomenon.PlannerTables

theorem beats_victim_trans (policy : FhnEvictionPolicy) (first second third : WithTop Int)
    (kept : beatsVictim policy first second = false)
    (settled : beatsVictim policy second third = false) :
    beatsVictim policy first third = false := by
  cases policy <;> simp only [beatsVictim, decide_eq_false_iff_not, not_lt] at kept settled ⊢
  · exact kept.trans settled
  · exact settled.trans kept

theorem beats_victim_asymm (policy : FhnEvictionPolicy) (first second : WithTop Int)
    (wins : beatsVictim policy first second = true) :
    beatsVictim policy second first = false := by
  cases policy <;> simp only [beatsVictim, decide_eq_true_eq, decide_eq_false_iff_not, not_lt]
    at wins ⊢
  · exact wins.le
  · exact wins.le

theorem beats_victim_irrefl (policy : FhnEvictionPolicy) (key : WithTop Int) :
    beatsVictim policy key key = false := by
  cases policy <;> simp [beatsVictim]

/-- The scan returns a candidate no other candidate beats. -/
theorem scan_victim_spec (ctx : PlanContext) (key : Nat → WithTop Int) (working : OrderedSet Nat)
    (ids : List Nat) (best : Option (Nat × WithTop Int)) (victim : Nat) (bestKey : WithTop Int)
    (found : scanVictim ctx key working ids best = some (victim, bestKey)) :
    (best = some (victim, bestKey) ∨
        (victim ∈ ids ∧ victim ∉ working.elems ∧ bestKey = key victim)) ∧
      (∀ start, best = some start → beatsVictim ctx.policy start.2 bestKey = false) ∧
        ∀ id ∈ ids, id ∉ working.elems → beatsVictim ctx.policy (key id) bestKey = false := by
  induction ids generalizing best with
  | nil =>
      simp only [scanVictim] at found
      refine ⟨Or.inl found, ?_, by simp⟩
      intro start same
      rw [found] at same
      cases same
      exact beats_victim_irrefl ctx.policy bestKey
  | cons id rest induction =>
      by_cases inWorking : id ∈ working.elems
      · simp only [scanVictim, OrderedSet.contains_iff, if_pos inWorking] at found
        obtain ⟨source, start, others⟩ := induction best found
        refine ⟨?_, start, ?_⟩
        · rcases source with same | ⟨member, outside, keyed⟩
          · exact Or.inl same
          · exact Or.inr ⟨List.mem_cons_of_mem _ member, outside, keyed⟩
        · intro other member outside
          rcases List.mem_cons.mp member with rfl | later
          · exact absurd inWorking outside
          · exact others other later outside
      · simp only [scanVictim, OrderedSet.contains_iff, if_neg inWorking] at found
        -- Whatever the scan held before `id`, it now holds something `id` does not beat.
        have resume (next : Nat × WithTop Int)
            (run : scanVictim ctx key working rest (some next) = some (victim, bestKey))
            (origin : some next = best ∨ next = (id, key id))
            (keepsBest : ∀ start, best = some start →
              beatsVictim ctx.policy start.2 next.2 = false)
            (keepsHead : beatsVictim ctx.policy (key id) next.2 = false) :
            (best = some (victim, bestKey) ∨
                (victim ∈ id :: rest ∧ victim ∉ working.elems ∧ bestKey = key victim)) ∧
              (∀ start, best = some start → beatsVictim ctx.policy start.2 bestKey = false) ∧
                ∀ other ∈ id :: rest, other ∉ working.elems →
                  beatsVictim ctx.policy (key other) bestKey = false := by
          obtain ⟨source, start, others⟩ := induction (some next) run
          have final := start next rfl
          refine ⟨?_, ?_, ?_⟩
          · rcases source with same | ⟨member, outside, keyed⟩
            · cases same
              rcases origin with old | fresh
              · exact Or.inl old.symm
              · cases fresh
                exact Or.inr ⟨by simp, inWorking, rfl⟩
            · exact Or.inr ⟨List.mem_cons_of_mem _ member, outside, keyed⟩
          · intro old same
            exact beats_victim_trans _ _ _ _ (keepsBest old same) final
          · intro other member outside
            rcases List.mem_cons.mp member with rfl | later
            · exact beats_victim_trans _ _ _ _ keepsHead final
            · exact others other later outside
        cases best with
        | none =>
            exact resume (id, key id) found (Or.inr rfl) (by simp) (beats_victim_irrefl _ _)
        | some current =>
            obtain ⟨currentId, currentKey⟩ := current
            by_cases wins : beatsVictim ctx.policy (key id) currentKey = true
            · simp only [if_pos wins] at found
              refine resume (id, key id) found (Or.inr rfl) ?_ (beats_victim_irrefl _ _)
              rintro start same
              cases same
              exact beats_victim_asymm _ _ _ wins
            · simp only [if_neg wins] at found
              refine resume (currentId, currentKey) found (Or.inl rfl) ?_ (by simpa using wins)
              rintro start same
              cases same
              exact beats_victim_irrefl _ _

theorem scan_victim_none (ctx : PlanContext) (key : Nat → WithTop Int) (working : OrderedSet Nat)
    (ids : List Nat) (best : Option (Nat × WithTop Int))
    (absent : scanVictim ctx key working ids best = none) :
    best = none ∧ ∀ id ∈ ids, id ∈ working.elems := by
  induction ids generalizing best with
  | nil => exact ⟨absent, by simp⟩
  | cons id rest induction =>
      by_cases inWorking : id ∈ working.elems
      · simp only [scanVictim, OrderedSet.contains_iff, if_pos inWorking] at absent
        obtain ⟨start, all⟩ := induction best absent
        exact ⟨start, List.forall_mem_cons.mpr ⟨inWorking, all⟩⟩
      · simp only [scanVictim, OrderedSet.contains_iff, if_neg inWorking] at absent
        cases best with
        | none =>
            have impossible := (induction _ absent).1
            cases impossible
        | some current =>
            dsimp only at absent
            split at absent
            · have impossible := (induction _ absent).1
              cases impossible
            · have impossible := (induction _ absent).1
              cases impossible

theorem select_victim_spec (ctx : PlanContext) (state : PlanState) (pos : Int)
    (working : OrderedSet Nat) (victim : Nat)
    (selected : selectVictim ctx state pos working = some victim) :
    victim ∈ state.resident.elems ∧ victim ∉ working.elems ∧
      ∀ id ∈ state.resident.elems, id ∉ working.elems →
        beatsVictim ctx.policy (victimKey ctx state pos id) (victimKey ctx state pos victim) =
          false := by
  simp only [selectVictim, Option.map_eq_some_iff, Prod.exists, exists_and_right,
    exists_eq_right] at selected
  obtain ⟨bestKey, scanned⟩ := selected
  obtain ⟨source, -, others⟩ := scan_victim_spec ctx _ working _ none victim bestKey scanned
  rcases source with impossible | ⟨member, outside, rfl⟩
  · cases impossible
  · exact ⟨member, outside, others⟩

theorem select_victim_none (ctx : PlanContext) (state : PlanState) (pos : Int)
    (working : OrderedSet Nat) (absent : selectVictim ctx state pos working = none) :
    ∀ id ∈ state.resident.elems, id ∈ working.elems := by
  simp only [selectVictim, Option.map_eq_none_iff] at absent
  exact (scan_victim_none ctx _ working _ none absent).2

/-- A completed `while` loop: which victims left, in order, and the state that fits. -/
inductive EvictRun (ctx : PlanContext) (pos : Int) (working : OrderedSet Nat)
    (incomingUnits : UInt64) : PlanState → List Nat → PlanState → Prop
  | fits {state : PlanState} (within : state.residentUnits + incomingUnits ≤ ctx.deviceBudget) :
      EvictRun ctx pos working incomingUnits state [] state
  | evicts {state settled : PlanState} {victim : Nat} {victims : List Nat}
      (exceeds : ctx.deviceBudget < state.residentUnits + incomingUnits)
      (selected : selectVictim ctx state pos working = some victim)
      (rest : EvictRun ctx pos working incomingUnits (state.evict ctx victim) victims settled) :
      EvictRun ctx pos working incomingUnits state (victim :: victims) settled

theorem evict_loop_run (ctx : PlanContext) (pos : Int) (working : OrderedSet Nat)
    (incomingUnits : UInt64) (fuel : Nat) (state settled : PlanState) (victims : List Nat)
    (finished : evictLoop ctx pos working incomingUnits fuel state = some (victims, settled)) :
    EvictRun ctx pos working incomingUnits state victims settled := by
  induction fuel generalizing state victims with
  | zero =>
      simp only [evictLoop] at finished
      split at finished
      · cases finished
      · cases finished
        exact .fits (UInt64.not_lt.mp ‹_›)
  | succ fuel induction =>
      simp only [evictLoop] at finished
      split at finished
      · cases selected : selectVictim ctx state pos working with
        | none => simp [selected] at finished
        | some victim =>
            cases looped : evictLoop ctx pos working incomingUnits fuel
                (state.evict ctx victim) with
            | none => simp [selected, looped] at finished
            | some pair =>
                obtain ⟨rest, final⟩ := pair
                simp only [selected, looped, Option.some.injEq, Prod.mk.injEq] at finished
                obtain ⟨rfl, rfl⟩ := finished
                exact .evicts ‹_› selected (induction _ _ looped)
      · cases finished
        exact .fits (UInt64.not_lt.mp ‹_›)

/-- With enough passes the loop only stops early when every resident id belongs
to the working set while the incoming ids still do not fit. -/
theorem evict_loop_none (ctx : PlanContext) (pos : Int) (working : OrderedSet Nat)
    (incomingUnits : UInt64) (fuel : Nat) (state : PlanState)
    (enough : state.resident.size ≤ fuel)
    (failed : evictLoop ctx pos working incomingUnits fuel state = none) :
    ∃ stuck : PlanState, ∃ victims : List Nat,
      stuck = victims.foldl (fun st id => st.evict ctx id) state ∧
      (∀ id ∈ stuck.resident.elems, id ∈ working.elems) ∧
      (∀ id ∈ victims, id ∈ state.resident.elems ∧ id ∉ working.elems) ∧ victims.Nodup ∧
      ctx.deviceBudget < stuck.residentUnits + incomingUnits := by
  induction fuel generalizing state with
  | zero =>
      simp only [evictLoop] at failed
      split at failed
      · have noneLeft : state.resident.elems = [] := List.length_eq_zero_iff.mp (by
          simpa [OrderedSet.size] using enough)
        exact ⟨state, [], rfl, by simp [noneLeft], by simp, List.nodup_nil, ‹_›⟩
      · cases failed
  | succ fuel induction =>
      simp only [evictLoop] at failed
      split at failed
      · cases selected : selectVictim ctx state pos working with
        | none =>
            exact ⟨state, [], rfl, select_victim_none ctx state pos working selected, by simp,
              List.nodup_nil, ‹_›⟩
        | some victim =>
            obtain ⟨member, outside, -⟩ := select_victim_spec ctx state pos working victim selected
            cases looped : evictLoop ctx pos working incomingUnits fuel
                (state.evict ctx victim) with
            | some pair => simp [selected, looped] at failed
            | none =>
                have smaller : (state.evict ctx victim).resident.size ≤ fuel := by
                  have less := OrderedSet.size_erase_lt state.resident victim member
                  simp only [PlanState.evict]
                  omega
                obtain ⟨stuck, victims, rfl, all, chosen, nodup, exceeds⟩ :=
                  induction _ smaller looped
                refine ⟨_, victim :: victims, rfl, all, ?_, ?_, exceeds⟩
                · intro id listed
                  rcases List.mem_cons.mp listed with rfl | later
                  · exact ⟨member, outside⟩
                  · have kept := chosen id later
                    simp only [PlanState.evict, OrderedSet.mem_erase] at kept
                    exact ⟨kept.1.2, kept.2⟩
                · refine List.nodup_cons.mpr ⟨?_, nodup⟩
                  intro again
                  have kept := chosen victim again
                  simp [PlanState.evict] at kept
      · cases failed

section EvictRun

variable {ctx : PlanContext} {pos : Int} {working : OrderedSet Nat} {incomingUnits : UInt64}
  {state settled : PlanState} {victims : List Nat}

theorem evict_run_state (run : EvictRun ctx pos working incomingUnits state victims settled) :
    settled = victims.foldl (fun st id => st.evict ctx id) state := by
  induction run with
  | fits => rfl
  | evicts exceeds selected rest induction => exact induction

theorem evict_run_within (run : EvictRun ctx pos working incomingUnits state victims settled) :
    settled.residentUnits + incomingUnits ≤ ctx.deviceBudget := by
  induction run with
  | fits within => exact within
  | evicts exceeds selected rest induction => exact induction

theorem evict_run_victims (run : EvictRun ctx pos working incomingUnits state victims settled) :
    victims.Nodup ∧ ∀ id ∈ victims, id ∈ state.resident.elems ∧ id ∉ working.elems := by
  induction run with
  | fits => exact ⟨List.nodup_nil, by simp⟩
  | evicts exceeds selected rest induction =>
      obtain ⟨member, outside, -⟩ := select_victim_spec _ _ _ _ _ selected
      refine ⟨List.nodup_cons.mpr ⟨?_, induction.1⟩, List.forall_mem_cons.mpr
        ⟨⟨member, outside⟩, ?_⟩⟩
      · intro again
        have kept := (induction.2 _ again).1
        simp [PlanState.evict] at kept
      · intro id later
        have kept := induction.2 id later
        simp only [PlanState.evict, OrderedSet.mem_erase] at kept
        exact ⟨kept.1.2, kept.2⟩

/-- The loop stops at the first state that fits, so the state before the last
victim left was still over budget. -/
theorem evict_run_tight (run : EvictRun ctx pos working incomingUnits state victims settled)
    (nonempty : victims ≠ []) :
    ∃ first last, victims = first ++ [last] ∧
      ctx.deviceBudget <
        (first.foldl (fun st id => st.evict ctx id) state).residentUnits + incomingUnits := by
  induction run with
  | fits => exact absurd rfl nonempty
  | @evicts state settled victim victims exceeds selected rest induction =>
      by_cases last : victims = []
      · subst last
        exact ⟨[], victim, rfl, exceeds⟩
      · obtain ⟨first, final, rfl, late⟩ := induction last
        exact ⟨victim :: first, final, rfl, late⟩

theorem evict_run_resident (run : EvictRun ctx pos working incomingUnits state victims settled)
    (id : Nat) : id ∈ settled.resident.elems ↔ id ∈ state.resident.elems ∧ id ∉ victims := by
  induction run with
  | fits => simp
  | evicts exceeds selected rest induction =>
      rw [induction]
      simp only [PlanState.evict, OrderedSet.mem_erase, List.mem_cons, not_or]
      tauto

/-- Under Belady every survivor outside the working set is used no later than
every victim. -/
theorem evict_run_farthest (belady : ctx.policy = .belady)
    (run : EvictRun ctx pos working incomingUnits state victims settled) :
    ∀ victim ∈ victims, ∀ id ∈ settled.resident.elems, id ∉ working.elems →
      nextUseAfter ctx.uses id (pos - 1) ≤ nextUseAfter ctx.uses victim (pos - 1) := by
  induction run with
  | fits => simp
  | evicts exceeds selected rest induction =>
      obtain ⟨-, -, farthest⟩ := select_victim_spec _ _ _ _ _ selected
      refine List.forall_mem_cons.mpr ⟨?_, induction⟩
      intro id survives outside
      have before := ((evict_run_resident rest id).mp survives).1
      simp only [PlanState.evict, OrderedSet.mem_erase] at before
      have compared := farthest id before.2 outside
      simpa [beatsVictim, victimKey, belady] using compared

end EvictRun

theorem make_room_spec (ctx : PlanContext) (pos : Int) (inst : FhnInstruction)
    (state roomy : PlanState) (victims : List Nat)
    (made : makeRoom ctx pos inst state = some (victims, roomy)) :
    (ctx.deviceBudget = 0 ∧ victims = [] ∧ roomy = state) ∨
      (0 < ctx.deviceBudget ∧
        sumUnits ctx.cost (workingSet inst).elems 0 ≤ ctx.deviceBudget ∧
        EvictRun ctx pos (workingSet inst)
          (sumUnits ctx.cost (toPrefetch state inst) (ctx.cost inst.resultId))
          state victims roomy) := by
  simp only [makeRoom] at made
  split at made
  · split at made
    · cases made
    · exact Or.inr ⟨‹_›, UInt64.not_lt.mp ‹_›, evict_loop_run _ _ _ _ _ _ _ _ made⟩
  · cases made
    refine Or.inl ⟨?_, rfl, rfl⟩
    have small := UInt64.not_lt.mp ‹¬ctx.deviceBudget > 0›
    exact UInt64.le_antisymm small (UInt64.zero_le)

theorem mem_operand_set (inst : FhnInstruction) (id : Nat) :
    id ∈ (operandSet inst).elems ↔ id ∈ inst.usedOperands := by
  simp [operandSet]

theorem mem_working_set (inst : FhnInstruction) (id : Nat) :
    id ∈ (workingSet inst).elems ↔ id = inst.resultId ∨ id ∈ inst.usedOperands := by
  simp [workingSet, OrderedSet.mem_foldl_insert, or_comm]

theorem mem_to_prefetch (state : PlanState) (inst : FhnInstruction) (id : Nat) :
    id ∈ toPrefetch state inst ↔ id ∈ inst.usedOperands ∧ id ∉ state.resident.elems := by
  rw [toPrefetch, List.mem_filter, mem_operand_set, Bool.not_eq_true', ← Bool.not_eq_true,
    OrderedSet.contains_iff]

theorem to_prefetch_nodup (state : PlanState) (inst : FhnInstruction) :
    (toPrefetch state inst).Nodup := (operandSet inst).nodup.filter _

/-- The elementary updates of the simulated device, in the order the loop makes
them. High-water marks and LRU touches change neither residents nor units. -/
inductive Move
  | evict (id : Nat) | alloc (id : Nat) | prefetch (id : Nat) | free (id : Nat)
deriving DecidableEq, Repr

/-- The moves that precede the dispatch of an instruction. -/
def loadMoves (act : FhnMovementActions) : List Move :=
  act.evict.map Move.evict ++ act.alloc.map Move.alloc ++ act.prefetch.map Move.prefetch

def moves (act : FhnMovementActions) : List Move :=
  loadMoves act ++ act.free.map Move.free

def applyMove (ctx : PlanContext) (pos : Int) (state : PlanState) : Move → PlanState
  | .evict id => state.evict ctx id
  | .alloc id => state.allocate ctx pos id
  | .prefetch id => state.prefetch ctx pos id
  | .free id => state.free ctx id

theorem fold_touch_device (pos : Int) (ids : List Nat) (state : PlanState) :
    (ids.foldl (fun st id => st.touch pos id) state).resident = state.resident ∧
      (ids.foldl (fun st id => st.touch pos id) state).residentUnits = state.residentUnits ∧
        (ids.foldl (fun st id => st.touch pos id) state).stats = state.stats := by
  induction ids generalizing state with
  | nil => exact ⟨rfl, rfl, rfl⟩
  | cons id rest induction => exact induction (state.touch pos id)

theorem fold_free_device (ctx : PlanContext) (ids : List Nat) (left right : PlanState)
    (residents : left.resident = right.resident)
    (units : left.residentUnits = right.residentUnits) :
    (ids.foldl (fun st id => st.free ctx id) left).resident =
        (ids.foldl (fun st id => st.free ctx id) right).resident ∧
      (ids.foldl (fun st id => st.free ctx id) left).residentUnits =
        (ids.foldl (fun st id => st.free ctx id) right).residentUnits ∧
      (ids.foldl (fun st id => st.free ctx id) left).stats = left.stats := by
  induction ids generalizing left right with
  | nil => exact ⟨residents, units, rfl⟩
  | cons id rest induction =>
      exact induction (left.free ctx id) (right.free ctx id)
        (by simp [PlanState.free, residents]) (by simp [PlanState.free, units])

/-- Everything `planStep` can do. -/
structure StepFacts (ctx : PlanContext) (i : Nat) (inst : FhnInstruction) (before : PlanState)
    (act : FhnMovementActions) (after : PlanState) : Prop where
  room : ∃ roomy, makeRoom ctx (i : Int) inst before = some (act.evict, roomy)
  alloc : act.alloc = [inst.resultId]
  prefetch : act.prefetch = toPrefetch before inst
  free : act.free = (workingSet inst).elems.filter (diesAt ctx (i : Int) inst)
  resident : after.resident = ((moves act).foldl (applyMove ctx (i : Int)) before).resident
  units : after.residentUnits =
    ((moves act).foldl (applyMove ctx (i : Int)) before).residentUnits
  stats : after.stats =
    (((loadMoves act).foldl (applyMove ctx (i : Int)) before).recordHighWater ctx).stats

theorem plan_step_facts (ctx : PlanContext) (i : Nat) (inst : FhnInstruction)
    (before after : PlanState) (act : FhnMovementActions)
    (stepped : planStep ctx i inst before = some (act, after)) :
    StepFacts ctx i inst before act after := by
  simp only [planStep] at stepped
  cases made : makeRoom ctx (i : Int) inst before with
  | none => simp [made] at stepped
  | some pair =>
      obtain ⟨victims, roomy⟩ := pair
      simp only [made, Option.some.injEq, Prod.mk.injEq] at stepped
      obtain ⟨rfl, rfl⟩ := stepped
      have roomyState : roomy = victims.foldl (fun st id => st.evict ctx id) before := by
        rcases make_room_spec ctx i inst before roomy victims made with
          ⟨-, rfl, rfl⟩ | ⟨-, -, run⟩
        · rfl
        · exact evict_run_state run
      have loadedFold : ((victims.map Move.evict ++ [inst.resultId].map Move.alloc ++
            (toPrefetch before inst).map Move.prefetch).foldl (applyMove ctx (i : Int)) before) =
          (toPrefetch before inst).foldl (fun st id => st.prefetch ctx (i : Int) id)
            (roomy.allocate ctx (i : Int) inst.resultId) := by
        rw [roomyState]
        simp only [List.foldl_append, List.foldl_map, List.foldl_cons, List.foldl_nil,
          List.map_cons, List.map_nil, applyMove]
      obtain ⟨touchResident, touchUnits, touchStats⟩ := fold_touch_device (i : Int)
        (operandSet inst).elems
        (((toPrefetch before inst).foldl (fun st id => st.prefetch ctx (i : Int) id)
          (roomy.allocate ctx (i : Int) inst.resultId)).recordHighWater ctx)
      have freed := fold_free_device ctx
        ((workingSet inst).elems.filter (diesAt ctx (i : Int) inst)) _ _ touchResident touchUnits
      have freedAgain := fold_free_device ctx
        ((workingSet inst).elems.filter (diesAt ctx (i : Int) inst))
        (((toPrefetch before inst).foldl (fun st id => st.prefetch ctx (i : Int) id)
          (roomy.allocate ctx (i : Int) inst.resultId)).recordHighWater ctx)
        ((toPrefetch before inst).foldl (fun st id => st.prefetch ctx (i : Int) id)
          (roomy.allocate ctx (i : Int) inst.resultId)) rfl rfl
      constructor
      · exact ⟨roomy, made⟩
      · rfl
      · rfl
      · rfl
      · rw [moves, loadMoves, List.foldl_append, loadedFold, List.foldl_map]
        exact freed.1.trans freedAgain.1
      · rw [moves, loadMoves, List.foldl_append, loadedFold, List.foldl_map]
        exact freed.2.1.trans freedAgain.2.1
      · rw [loadMoves, loadedFold]
        exact freed.2.2.trans touchStats

theorem plan_loop_trace (ctx : PlanContext) (insts : List FhnInstruction) (start : Nat)
    (state final : PlanState) (acts : List FhnMovementActions)
    (finished : planLoop ctx insts start state = some (acts, final)) :
    acts.length = insts.length ∧
      ∃ states : Nat → PlanState, states 0 = state ∧ states insts.length = final ∧
        ∀ j inst, insts[j]? = some inst → ∃ act, acts[j]? = some act ∧
          planStep ctx (start + j) inst (states j) = some (act, states (j + 1)) := by
  induction insts generalizing start state acts with
  | nil =>
      simp only [planLoop, Option.some.injEq, Prod.mk.injEq] at finished
      obtain ⟨rfl, rfl⟩ := finished
      exact ⟨rfl, fun _ => state, rfl, rfl, by simp⟩
  | cons inst rest induction =>
      simp only [planLoop] at finished
      cases stepped : planStep ctx start inst state with
      | none => simp [stepped] at finished
      | some pair =>
          obtain ⟨act, next⟩ := pair
          cases looped : planLoop ctx rest (start + 1) next with
          | none => simp [stepped, looped] at finished
          | some tail =>
              obtain ⟨tailActs, tailFinal⟩ := tail
              simp only [stepped, looped, Option.some.injEq, Prod.mk.injEq] at finished
              obtain ⟨rfl, rfl⟩ := finished
              obtain ⟨length, states, first, last, steps⟩ := induction _ _ _ looped
              refine ⟨by simp [length], fun j => if j = 0 then state else states (j - 1),
                rfl, by simpa using last, ?_⟩
              intro j other get
              cases j with
              | zero =>
                  simp only [List.getElem?_cons_zero, Option.some.injEq] at get
                  subst get
                  exact ⟨act, rfl, by simpa [first] using stepped⟩
              | succ j =>
                  obtain ⟨later, laterGet, laterStep⟩ := steps j other (by simpa using get)
                  refine ⟨later, by simpa using laterGet, ?_⟩
                  have shift : start + (j + 1) = start + 1 + j := by omega
                  simpa [shift] using laterStep

end Fhenomenon.PlannerSteps

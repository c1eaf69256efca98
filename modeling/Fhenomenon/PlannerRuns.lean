import Fhenomenon.PlanAcceptance

/-!
# Runs of the planner's loop

The loop as a chain of steps in both directions, and the number each eviction
test compares: the cost of what is left together with what comes in.
-/

namespace Fhenomenon.PlannerRuns

open Fhenomenon.Lib Fhenomenon.InstructionStream Fhenomenon.MovementPlanner
open Fhenomenon.PlannerTables Fhenomenon.PlannerSteps Fhenomenon.PlanLifetimes
open Fhenomenon.DeviceReplay Fhenomenon.PlanReplay Fhenomenon.PlanBudget
open Fhenomenon.PlanAcceptance

theorem plan_loop_of_steps (ctx : PlanContext) (insts : List FhnInstruction) (start : Nat)
    (acts : List FhnMovementActions) (states : Nat → PlanState)
    (length : acts.length = insts.length)
    (steps : ∀ j inst, insts[j]? = some inst → ∃ act, acts[j]? = some act ∧
      planStep ctx (start + j) inst (states j) = some (act, states (j + 1))) :
    planLoop ctx insts start (states 0) = some (acts, states insts.length) := by
  induction insts generalizing start acts states with
  | nil =>
      rw [List.length_nil, List.length_eq_zero_iff] at length
      rw [length]
      rfl
  | cons inst rest induction =>
      cases acts with
      | nil => cases length
      | cons act later =>
          have first := steps 0 inst rfl
          rw [Nat.add_zero, List.getElem?_cons_zero] at first
          obtain ⟨head, same, stepped⟩ := first
          cases same
          have tail := induction (start + 1) later (fun j => states (j + 1)) (by simpa using length)
            (by
              intro j other get
              have step := steps (j + 1) other (by simpa using get)
              rw [List.getElem?_cons_succ, Nat.add_comm j 1, ← Nat.add_assoc] at step
              rw [Nat.add_comm 1 j] at step
              exact step)
          simp only [planLoop, stepped, tail, List.length_cons]

section Analysis

variable {program : FhnProgram} {pinned : List Nat} {ctx : PlanContext} {plan : FhnMovementPlan}
  {acts : List FhnMovementActions} {states : Nat → PlanState}

/-- The state before instruction `i` is the one the loop reaches there. -/
theorem analysis_reaches (run : Analysis program pinned ctx plan acts states) (i : Nat)
    (bound : i ≤ program.instructions.length) :
    planLoop ctx (program.instructions.take i) 0 {} = some (acts.take i, states i) := by
  have looped := plan_loop_of_steps ctx (program.instructions.take i) 0 (acts.take i) states
    (by rw [List.length_take, List.length_take, run.length])
    (by
      intro j inst get
      have early : j < i := by
        have inside := (List.getElem?_eq_some_iff.mp get).1
        rw [List.length_take] at inside
        omega
      rw [List.getElem?_take_of_lt early] at get ⊢
      rw [Nat.zero_add]
      exact run.steps j inst get)
  rw [run.start, List.length_take, min_eq_left bound] at looped
  exact looped

theorem reached_chain (j : Nat) (bound : j ≤ program.instructions.length) {state : PlanState}
    (reached : planLoop ctx (program.instructions.take j) 0 {} = some (acts, state)) :
    ∃ states : Nat → PlanState, states 0 = {} ∧ states j = state ∧
      (∀ i, i ≤ j → planLoop ctx (program.instructions.take i) 0 {} =
        some (acts.take i, states i)) ∧
      ∀ i inst, i < j → program.instructions[i]? = some inst →
        ∃ act, planStep ctx i inst (states i) = some (act, states (i + 1)) := by
  obtain ⟨length, states, first, last, steps⟩ := plan_loop_trace ctx _ _ _ _ _ reached
  rw [List.length_take, min_eq_left bound] at last
  refine ⟨states, first, last, ?_, ?_⟩
  · intro i early
    have looped := plan_loop_of_steps ctx (program.instructions.take i) 0 (acts.take i) states
      (by
        rw [List.length_take, List.length_take, length, List.length_take]
        omega)
      (by
        intro k inst get
        have inside := (List.getElem?_eq_some_iff.mp get).1
        rw [List.length_take] at inside
        rw [List.getElem?_take_of_lt (by omega)] at get ⊢
        apply steps k inst
        rw [List.getElem?_take_of_lt (by omega)]
        exact get)
    rw [first, List.length_take, min_eq_left (by omega)] at looped
    exact looped
  · intro i inst early get
    have step := steps i inst (by
      rw [List.getElem?_take_of_lt early]
      exact get)
    obtain ⟨act, -, stepped⟩ := step
    rw [Nat.zero_add] at stepped
    exact ⟨act, stepped⟩

end Analysis

def incomingIds (state : PlanState) (inst : FhnInstruction) : Finset Nat :=
  insert inst.resultId (toPrefetch state inst).toFinset

/-- `incoming_units` -/
def incomingUnits (ctx : PlanContext) (state : PlanState) (inst : FhnInstruction) : UInt64 :=
  sumUnits ctx.cost (toPrefetch state inst) (ctx.cost inst.resultId)

section Request

variable {program : FhnProgram} {pinned : List Nat} {ctx : PlanContext} {i : Nat}
  {inst : FhnInstruction} {state : PlanState}

theorem result_not_incoming (valid : SsaValid program)
    (get : program.instructions[i]? = some inst) :
    inst.resultId ∉ (toPrefetch state inst).toFinset := by
  intro member
  rw [List.mem_toFinset, mem_to_prefetch] at member
  exact result_not_operand valid i inst get member.1

theorem incoming_units_eq (valid : SsaValid program)
    (get : program.instructions[i]? = some inst) :
    incomingUnits ctx state inst = UInt64.ofNat (costOf ctx (incomingIds state inst)) := by
  rw [incomingUnits, sum_units_nodup ctx _ (to_prefetch_nodup state inst), incomingIds,
    cost_of_insert ctx _ _ (result_not_incoming valid get), UInt64.ofNat_add, UInt64.ofNat_toNat,
    UInt64.add_comm]

theorem incoming_apart (valid : SsaValid program) (get : program.instructions[i]? = some inst)
    (holds : DeviceInvariant program pinned i state) :
    Disjoint state.resident.toFinset (incomingIds state inst) := by
  rw [Finset.disjoint_left]
  intro id held incoming
  rw [OrderedSet.mem_to_finset] at held
  rw [incomingIds, Finset.mem_insert, List.mem_toFinset, mem_to_prefetch] at incoming
  cases incoming with
  | inl result =>
      rw [result] at held
      exact result_not_defined_before valid i inst get (holds.defined _ held)
  | inr operand => exact operand.2 held

theorem incoming_working : incomingIds state inst ⊆ (workingSet inst).toFinset := by
  intro id incoming
  rw [OrderedSet.mem_to_finset, mem_working_set]
  rw [incomingIds, Finset.mem_insert, List.mem_toFinset, mem_to_prefetch] at incoming
  exact incoming.imp_right And.left

theorem resident_and_incoming :
    state.resident.toFinset ∪ incomingIds state inst =
      state.resident.toFinset ∪ (workingSet inst).toFinset := by
  apply Finset.Subset.antisymm
  · exact Finset.union_subset_union_right incoming_working
  · intro id member
    rw [Finset.mem_union, OrderedSet.mem_to_finset, OrderedSet.mem_to_finset,
      mem_working_set] at member
    rw [Finset.mem_union, OrderedSet.mem_to_finset, incomingIds, Finset.mem_insert,
      List.mem_toFinset, mem_to_prefetch]
    by_cases held : id ∈ state.resident.elems
    · exact Or.inl held
    · cases member with
      | inl old => exact absurd old held
      | inr working =>
          apply Or.inr
          exact working.imp_right fun operand => ⟨operand, held⟩

theorem evicted_units (exact : UnitsExact ctx state) {victims : List Nat}
    (nodup : victims.Nodup) (chosen : ∀ id ∈ victims, id ∈ state.resident.elems) :
    (victims.foldl (fun st id => st.evict ctx id) state).resident.toFinset =
        state.resident.toFinset \ victims.toFinset ∧
      UnitsExact ctx (victims.foldl (fun st id => st.evict ctx id) state) := by
  have asMoves : victims.foldl (fun st id => st.evict ctx id) state =
      (victims.map Move.evict).foldl (applyMove ctx 0) state := by
    rw [List.foldl_map]
    rfl
  rw [asMoves, fold_resident, replay_evicts]
  apply And.intro rfl
  apply units_exact_fold ctx 0 _ state _ exact
  apply legal_evicts _ _ nodup
  intro id victim
  rw [OrderedSet.mem_to_finset]
  exact chosen id victim

/-- The number the eviction test compares, whoever has left by then. -/
theorem request_units (valid : SsaValid program) (get : program.instructions[i]? = some inst)
    (holds : DeviceInvariant program pinned i state) (exact : UnitsExact ctx state)
    {victims : List Nat} (nodup : victims.Nodup)
    (chosen : ∀ id ∈ victims, id ∈ state.resident.elems) :
    (victims.foldl (fun st id => st.evict ctx id) state).residentUnits +
        incomingUnits ctx state inst =
      UInt64.ofNat (costOf ctx
        ((state.resident.toFinset \ victims.toFinset) ∪ incomingIds state inst)) := by
  have evicted := evicted_units exact nodup chosen
  have apart := (incoming_apart valid get holds).mono_left
    (Finset.sdiff_subset : state.resident.toFinset \ victims.toFinset ⊆ _)
  have left : (victims.foldl (fun st id => st.evict ctx id) state).residentUnits =
      UInt64.ofNat (costOf ctx (state.resident.toFinset \ victims.toFinset)) := by
    have counted := evicted.2
    rw [UnitsExact, evicted.1] at counted
    exact counted
  rw [left, incoming_units_eq valid get, ← UInt64.ofNat_add, costOf, costOf, costOf,
    Finset.sum_union apart]

theorem first_request_units (valid : SsaValid program)
    (get : program.instructions[i]? = some inst)
    (holds : DeviceInvariant program pinned i state) (exact : UnitsExact ctx state) :
    state.residentUnits + incomingUnits ctx state inst =
      UInt64.ofNat (costOf ctx (state.resident.toFinset ∪ (workingSet inst).toFinset)) := by
  have first := request_units valid get holds exact List.nodup_nil (fun id none => by cases none)
  rw [List.foldl_nil, List.toFinset_nil, Finset.sdiff_empty, resident_and_incoming] at first
  exact first

end Request

end Fhenomenon.PlannerRuns

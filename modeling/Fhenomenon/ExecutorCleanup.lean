import Fhenomenon.Lib.Ownership
import Fhenomenon.PlanLegality
import Fhenomenon.RecordedExecution
import Fhenomenon.MovementWorld

/-!
# Ownership through every failure

Hooks and kernels may fail at any call. The log of allocations and frees still
forms an ownership ledger whose holders are the live ids, at every point where
execution can stop, and the failure path releases what the plan allocated.
-/

namespace Fhenomenon.ExecutorCleanup

open Fhenomenon.Lib.Ownership Fhenomenon.Lib.Removals
open Fhenomenon.InstructionStream Fhenomenon.MovementPlanner
open Fhenomenon.DeviceReplay Fhenomenon.PlanLegality Fhenomenon.DefaultExecutor
open Fhenomenon.DispatchRecipes Fhenomenon.RecordedExecution

variable {Ptr σ : Type*}

/-- Allocations that returned a buffer, and frees of one. -/
def ownershipAct : Event Ptr σ → Option (Act Ptr)
  | .allocated buffer => buffer.map .acquire
  | .freed buffer => buffer.map .release
  | .called _ _ _ _ => none

def ownershipLog (events : List (Event Ptr σ)) : List (Act Ptr) := events.filterMap ownershipAct

theorem ownership_log_append (events : List (Event Ptr σ)) (event : Event Ptr σ) :
    ownershipLog (events ++ [event]) = ownershipLog events ++ (ownershipAct event).toList := by
  rw [ownershipLog, List.filterMap_append, ownershipLog]
  cases acted : ownershipAct event <;> simp [acted]

/-- `held` says which buffers are allocated. Allocation may fail, and may reuse
a freed address; frees release one buffer; nothing else changes `held`. -/
structure AllocatorLaws (held : σ → Ptr → Prop) (hooks : FhnMovementHooks Ptr σ)
    (dispatch : Dispatch Ptr σ) : Prop where
  allocated : ∀ alloc, hooks.bufferAlloc = some alloc → ∀ world buffer,
    (alloc world).1 = some buffer → ¬held world buffer ∧
      ∀ other, held (alloc world).2 other ↔ other = buffer ∨ held world other
  refused : ∀ alloc, hooks.bufferAlloc = some alloc → ∀ world, (alloc world).1 = none →
    ∀ other, held (alloc world).2 other ↔ held world other
  freed : ∀ free, hooks.bufferFree = some free → ∀ world buffer, held world buffer →
    ∀ other, held (free (some buffer) world) other ↔ other ≠ buffer ∧ held world other
  evicted : ∀ evict, hooks.evict = some evict → ∀ buffer world other,
    held (evict buffer world).2 other ↔ held world other
  prefetched : ∀ prefetch, hooks.prefetch = some prefetch → ∀ buffer world other,
    held (prefetch buffer world).2 other ↔ held world other
  called : ∀ opcode fn, dispatch opcode = some fn → ∀ result operands params fparams world other,
    held (fn result operands params fparams world).2 other ↔ held world other

/-- The id an allocation is for: instruction `k` allocates its result. -/
def resultOwner (program : FhnProgram) (k : Nat) : Option Nat :=
  (program.instructions[k]?).map (·.resultId)

def Unfreed (plan : FhnMovementPlan) (id : Nat) : Prop := ∀ act ∈ plan.actions, id ∉ act.free

/-- The ids in `live` own what the table holds, `started` allocations in. -/
structure Holds [DecidableEq Ptr] (program : FhnProgram) (held : σ → Ptr → Prop)
    (table : Buffers Ptr) (shared : Nat → Prop) (live : Finset Nat) (started : Nat)
    (buffers : Buffers Ptr) (recorded : Recorded Ptr σ) : Prop where
  entries : ∀ id ∈ live, ∃ buffer, buffers id = some buffer ∧ held recorded.world buffer
  empty : ∀ id ∉ live, buffers id = none
  apart : ∀ first ∈ live, ∀ second ∈ live, buffers first = buffers second →
    first = second ∨ (shared first ∧ shared second)
  inputs : ∀ id ∈ live, id ∈ program.inputIds → buffers id = table id
  ledger : Ledger (resultOwner program) buffers (· ∈ live) (ownershipLog recorded.events)
  count : acquisitions (ownershipLog recorded.events) = started
  noNull : .freed none ∉ recorded.events

/-- The `owned` list is the plan-allocated part of `live`. -/
structure OwnedExactly (program : FhnProgram) (live : Finset Nat) (owned : List Nat) : Prop where
  members : ∀ id, id ∈ owned ↔ id ∈ live ∧ id ∉ program.inputIds
  nodup : owned.Nodup

section Steps

variable [DecidableEq Ptr] {program : FhnProgram} {held : σ → Ptr → Prop} {table : Buffers Ptr}
  {shared : Nat → Prop} {live : Finset Nat} {started : Nat}

theorem holds_frame {buffers : Buffers Ptr} {before after : Recorded Ptr σ}
    (holds : Holds program held table shared live started buffers before)
    (same : ∀ buffer, held after.world buffer ↔ held before.world buffer)
    (log : ownershipLog after.events = ownershipLog before.events)
    (noNull : .freed none ∉ after.events) :
    Holds program held table shared live started buffers after where
  entries := by
    intro id member
    obtain ⟨buffer, stored, alive⟩ := holds.entries id member
    exact ⟨buffer, stored, (same buffer).mpr alive⟩
  empty := holds.empty
  apart := holds.apart
  inputs := holds.inputs
  ledger := by
    rw [log]
    exact holds.ledger
  count := by rw [log, holds.count]
  noNull := noNull

theorem holds_acquire {buffers : Buffers Ptr} {before after : Recorded Ptr σ}
    {inst : FhnInstruction} {buffer : Ptr}
    (holds : Holds program held table shared live started buffers before)
    (get : program.instructions[started]? = some inst) (fresh : inst.resultId ∉ live)
    (notInput : inst.resultId ∉ program.inputIds)
    (first : ∀ k < started, resultOwner program k ≠ some inst.resultId)
    (unheld : ¬held before.world buffer)
    (added : ∀ other, held after.world other ↔ other = buffer ∨ held before.world other)
    (events : after.events = before.events ++ [.allocated (some buffer)]) :
    Holds program held table shared (insert inst.resultId live) (started + 1)
      (Function.update buffers inst.resultId (some buffer)) after where
  entries := by
    intro id member
    by_cases same : id = inst.resultId
    · subst same
      exact ⟨buffer, Function.update_self _ _ _, (added buffer).mpr (Or.inl rfl)⟩
    · obtain ⟨old, stored, alive⟩ := holds.entries id (Finset.mem_of_mem_insert_of_ne member same)
      exact ⟨old, by rw [Function.update_of_ne same, stored], (added old).mpr (Or.inr alive)⟩
  empty := by
    intro id absent
    rw [Finset.mem_insert, not_or] at absent
    rw [Function.update_of_ne absent.1]
    exact holds.empty id absent.2
  apart := by
    have separate (id : Nat) (member : id ∈ live) : buffers id ≠ some buffer := by
      intro stored
      obtain ⟨old, found, alive⟩ := holds.entries id member
      rw [stored, Option.some.injEq] at found
      exact unheld (found ▸ alive)
    intro one oneMember two twoMember equal
    by_cases oneNew : one = inst.resultId
    · by_cases twoNew : two = inst.resultId
      · exact Or.inl (oneNew.trans twoNew.symm)
      · rw [oneNew, Function.update_self, Function.update_of_ne twoNew] at equal
        exact absurd equal.symm (separate two (Finset.mem_of_mem_insert_of_ne twoMember twoNew))
    · rw [Function.update_of_ne oneNew] at equal
      by_cases twoNew : two = inst.resultId
      · rw [twoNew, Function.update_self] at equal
        exact absurd equal (separate one (Finset.mem_of_mem_insert_of_ne oneMember oneNew))
      · rw [Function.update_of_ne twoNew] at equal
        exact holds.apart one (Finset.mem_of_mem_insert_of_ne oneMember oneNew) two
          (Finset.mem_of_mem_insert_of_ne twoMember twoNew) equal
  inputs := by
    intro id member input
    have different : id ≠ inst.resultId := fun same => notInput (same ▸ input)
    rw [Function.update_of_ne different]
    exact holds.inputs id (Finset.mem_of_mem_insert_of_ne member different) input
  ledger := by
    have extended := @ledger_acquire _ _ _ _ _ _ _ _ holds.ledger inst.resultId buffer
      (by rw [holds.count, resultOwner, get]; rfl) fresh (by rw [holds.count]; exact first) (by
        intro other member stored
        obtain ⟨old, found, alive⟩ := holds.entries other member
        rw [stored, Option.some.injEq] at found
        exact unheld (found ▸ alive))
    rw [events, ownership_log_append]
    exact ledger_congr extended (fun id => Finset.mem_insert) (fun _ _ => rfl)
  count := by
    rw [events, ownership_log_append]
    exact (acquisitions_acquire _ buffer).trans (congrArg (· + 1) holds.count)
  noNull := by
    rw [events, List.mem_append, not_or]
    exact ⟨holds.noNull, by simp⟩

theorem holds_release {buffers : Buffers Ptr} {before after : Recorded Ptr σ} {id : Nat}
    {buffer : Ptr} (holds : Holds program held table shared live started buffers before)
    (member : id ∈ live) (unshared : ¬shared id) (stored : buffers id = some buffer)
    (removed : ∀ other, held after.world other ↔ other ≠ buffer ∧ held before.world other)
    (events : after.events = before.events ++ [.freed (some buffer)]) :
    Holds program held table shared (live.erase id) started (Function.update buffers id none)
      after where
  entries := by
    intro one remains
    obtain ⟨different, old⟩ := Finset.mem_erase.mp remains
    obtain ⟨other, found, alive⟩ := holds.entries one old
    refine ⟨other, by rw [Function.update_of_ne different, found], (removed other).mpr ⟨?_, alive⟩⟩
    rintro rfl
    rcases holds.apart one old id member (by rw [found, stored]) with same | ⟨-, isShared⟩
    · exact different same
    · exact unshared isShared
  empty := by
    intro one absent
    by_cases same : one = id
    · rw [same, Function.update_self]
    · rw [Function.update_of_ne same]
      exact holds.empty one (fun old => absent (Finset.mem_erase.mpr ⟨same, old⟩))
  apart := by
    intro one oneMember two twoMember equal
    obtain ⟨oneOther, oneOld⟩ := Finset.mem_erase.mp oneMember
    obtain ⟨twoOther, twoOld⟩ := Finset.mem_erase.mp twoMember
    rw [Function.update_of_ne oneOther, Function.update_of_ne twoOther] at equal
    exact holds.apart one oneOld two twoOld equal
  inputs := by
    intro one remains input
    obtain ⟨different, old⟩ := Finset.mem_erase.mp remains
    rw [Function.update_of_ne different]
    exact holds.inputs one old input
  ledger := by
    have shortened := @ledger_release _ _ _ _ _ _ _ _ holds.ledger id buffer member stored (by
      intro other otherMember otherStored
      rcases holds.apart other otherMember id member (by rw [otherStored, stored]) with
        same | ⟨-, isShared⟩
      · exact same
      · exact absurd isShared unshared)
    rw [events, ownership_log_append]
    exact ledger_congr shortened (fun one => Finset.mem_erase) (fun _ _ => rfl)
  count := by
    rw [events, ownership_log_append]
    exact (acquisitions_release _ buffer).trans holds.count
  noNull := by
    rw [events, List.mem_append, not_or]
    exact ⟨holds.noNull, by simp⟩

end Steps

/-- Where a list of hook or kernel calls can end. -/
def Ends (failed finished : ExecState Ptr (Recorded Ptr σ) → Prop) :
    Outcome Ptr (Recorded Ptr σ) → Prop
  | .ok state => finished state
  | .error (rc, state) => rc ≠ 0 ∧ failed state

theorem ends_bind {failed middle finished : ExecState Ptr (Recorded Ptr σ) → Prop}
    {outcome : Outcome Ptr (Recorded Ptr σ)}
    {next : ExecState Ptr (Recorded Ptr σ) → Outcome Ptr (Recorded Ptr σ)}
    (first : Ends failed middle outcome)
    (later : ∀ state, middle state → Ends failed finished (next state)) :
    Ends failed finished (outcome.bind next) := by
  cases outcome with
  | error failure => exact first
  | ok state => exact later state first

theorem ends_mono {failed finished failedAlso finishedAlso : ExecState Ptr (Recorded Ptr σ) → Prop}
    {outcome : Outcome Ptr (Recorded Ptr σ)} (ends : Ends failed finished outcome)
    (stopped : ∀ state, failed state → failedAlso state)
    (done : ∀ state, finished state → finishedAlso state) :
    Ends failedAlso finishedAlso outcome := by
  cases outcome with
  | error failure => exact ⟨ends.1, stopped _ ends.2⟩
  | ok state => exact done _ ends

section Hooks

variable [DecidableEq Ptr] {program : FhnProgram} {held : σ → Ptr → Prop} {table : Buffers Ptr}
  {shared : Nat → Prop} {live : Finset Nat} {started : Nat} {hooks : FhnMovementHooks Ptr σ}
  {dispatch : Dispatch Ptr σ}

/-- A state whose table and `owned` list are those of `live`. -/
structure Owns (program : FhnProgram) (held : σ → Ptr → Prop) (table : Buffers Ptr)
    (shared : Nat → Prop) (live : Finset Nat) (started : Nat)
    (state : ExecState Ptr (Recorded Ptr σ)) : Prop where
  holds : Holds program held table shared live started state.buffers state.world
  owned : OwnedExactly program live state.owned

theorem move_owns {move : Option Ptr → σ → Int × σ}
    (still : ∀ buffer world other, held (move buffer world).2 other ↔ held world other)
    {state : ExecState Ptr (Recorded Ptr σ)}
    (owns : Owns program held table shared live started state) (buffer : Option Ptr) :
    Owns program held table shared live started
      { state with world := (recordMove move buffer state.world).2 } where
  holds := holds_frame owns.holds (still buffer state.world.world) rfl owns.holds.noNull
  owned := owns.owned

omit [DecidableEq Ptr] in
theorem evict_all_ends {property : ExecState Ptr (Recorded Ptr σ) → Prop}
    (moves : ∀ evict, hooks.evict = some evict → ∀ state buffer, property state →
      property { state with world := (recordMove evict buffer state.world).2 })
    (ids : List Nat) (state : ExecState Ptr (Recorded Ptr σ)) (holds : property state) :
    Ends property property (evictAll (recordHooks hooks) ids state) := by
  induction ids generalizing state with
  | nil => exact holds
  | cons id rest induction =>
      cases registered : hooks.evict with
      | none =>
          simp only [evictAll, record_evict, registered, Option.map_none]
          exact induction state holds
      | some evict =>
          have moved := moves evict registered state (state.buffers id) holds
          simp only [evictAll, record_evict, registered, Option.map_some]
          split
          · exact ⟨by decide, moved⟩
          · exact induction _ moved

omit [DecidableEq Ptr] in
theorem prefetch_all_ends {property : ExecState Ptr (Recorded Ptr σ) → Prop}
    (moves : ∀ prefetch, hooks.prefetch = some prefetch → ∀ state buffer, property state →
      property { state with world := (recordMove prefetch buffer state.world).2 })
    (ids : List Nat) (state : ExecState Ptr (Recorded Ptr σ)) (holds : property state) :
    Ends property property (prefetchAll (recordHooks hooks) ids state) := by
  rw [prefetch_all_eq]
  change Ends property property
    (evictAll (recordHooks { hooks with evict := hooks.prefetch }) ids state)
  exact evict_all_ends moves ids state holds

theorem evict_all_owns (laws : AllocatorLaws held hooks dispatch) (ids : List Nat)
    (state : ExecState Ptr (Recorded Ptr σ))
    (owns : Owns program held table shared live started state) :
    Ends (Owns program held table shared live started)
      (Owns program held table shared live started) (evictAll (recordHooks hooks) ids state) := by
  apply evict_all_ends _ ids state owns
  intro evict registered state buffer owns
  exact move_owns (laws.evicted evict registered) owns buffer

theorem prefetch_all_owns (laws : AllocatorLaws held hooks dispatch) (ids : List Nat)
    (state : ExecState Ptr (Recorded Ptr σ))
    (owns : Owns program held table shared live started state) :
    Ends (Owns program held table shared live started)
      (Owns program held table shared live started)
      (prefetchAll (recordHooks hooks) ids state) := by
  apply prefetch_all_ends _ ids state owns
  intro prefetch registered state buffer owns
  exact move_owns (laws.prefetched prefetch registered) owns buffer

omit [DecidableEq Ptr] in
theorem run_calls_keep {property : Recorded Ptr σ → Prop}
    (calls : ∀ opcode fn, dispatch opcode = some fn → ∀ result operands params fparams recorded,
      property recorded →
        property (recordKernel opcode fn result operands params fparams recorded).2)
    (inst : FhnInstruction) (buffers : Buffers Ptr) (kernels : List KernelCall)
    (recorded : Recorded Ptr σ) (holds : property recorded) :
    property (runCalls (recordKernels dispatch) inst buffers kernels recorded).2 := by
  induction kernels generalizing recorded with
  | nil => exact holds
  | cons kernel rest induction =>
      have called : property (runCall (recordKernels dispatch) inst buffers kernel recorded).2 := by
        unfold runCall call recordKernels
        cases registered : dispatch kernel.opcode with
        | none => exact holds
        | some fn => exact calls _ fn registered _ _ _ _ recorded holds
      rw [run_calls_cons]
      split
      · exact called
      · exact induction _ called

theorem run_calls_owns (laws : AllocatorLaws held hooks dispatch) (inst : FhnInstruction)
    (buffers : Buffers Ptr) (calls : List KernelCall) (recorded : Recorded Ptr σ)
    (holds : Holds program held table shared live started buffers recorded) :
    Holds program held table shared live started buffers
      (runCalls (recordKernels dispatch) inst buffers calls recorded).2 := by
  apply run_calls_keep _ inst buffers calls recorded holds
  intro opcode fn registered result operands params fparams recorded holds
  apply holds_frame holds (laws.called opcode fn registered _ _ _ _ recorded.world)
  · exact (ownership_log_append _ _).trans (List.append_nil _)
  · simp only [recordKernel, List.mem_append, not_or]
    exact ⟨holds.noNull, by simp⟩

theorem dispatch_step_owns (laws : AllocatorLaws held hooks dispatch) (inst : FhnInstruction)
    (state : ExecState Ptr (Recorded Ptr σ))
    (owns : Owns program held table shared live started state) :
    Ends (Owns program held table shared live started)
      (Owns program held table shared live started)
      (dispatchStep (recordKernels dispatch) inst state) := by
  have ran := run_calls_owns laws inst state.buffers (kernelCalls (recordKernels dispatch) inst)
    state.world owns.holds
  simp only [dispatchStep, dispatch_instruction_eq]
  split
  · rename_i failed
    exact ⟨failed, ran, owns.owned⟩
  · exact ⟨ran, owns.owned⟩

variable {alloc : σ → Option Ptr × σ} {free : Option Ptr → σ → σ}

theorem alloc_owns (laws : AllocatorLaws held hooks dispatch)
    (allocHook : hooks.bufferAlloc = some alloc) {inst : FhnInstruction}
    (get : program.instructions[started]? = some inst) (fresh : inst.resultId ∉ live)
    (notInput : inst.resultId ∉ program.inputIds)
    (first : ∀ k < started, resultOwner program k ≠ some inst.resultId)
    (state : ExecState Ptr (Recorded Ptr σ))
    (owns : Owns program held table shared live started state) :
    Ends (Owns program held table shared live started)
      (Owns program held table shared (insert inst.resultId live) (started + 1))
      (allocAll (recordAlloc alloc) [inst.resultId] state) := by
  simp only [allocAll, recordAlloc]
  cases returned : (alloc state.world.world).1 with
  | none =>
      refine ⟨by decide, ?_, owns.owned⟩
      have unchanged : Function.update state.buffers inst.resultId none = state.buffers := by
        rw [Function.update_eq_self_iff, owns.holds.empty _ fresh]
      simp only [unchanged]
      apply holds_frame owns.holds (laws.refused alloc allocHook _ returned)
      · exact (ownership_log_append _ _).trans (List.append_nil _)
      · rw [List.mem_append, not_or]
        exact ⟨owns.holds.noNull, by simp⟩
  | some buffer =>
      obtain ⟨unheld, added⟩ := laws.allocated alloc allocHook _ buffer returned
      constructor
      · exact holds_acquire owns.holds get fresh notInput first unheld added rfl
      · constructor
        · intro id
          rw [List.mem_append, List.mem_singleton, owns.owned.members, Finset.mem_insert]
          constructor
          · rintro (⟨old, other⟩ | rfl)
            · exact ⟨Or.inr old, other⟩
            · exact ⟨Or.inl rfl, notInput⟩
          · rintro ⟨rfl | old, other⟩
            · exact Or.inr rfl
            · exact Or.inl ⟨old, other⟩
        · rw [List.nodup_append]
          refine ⟨owns.owned.nodup, List.nodup_singleton _, ?_⟩
          intro one member two last
          rw [List.mem_singleton] at last
          rintro rfl
          exact fresh (last ▸ ((owns.owned.members one).mp member).1)

theorem free_owns (laws : AllocatorLaws held hooks dispatch)
    (freeHook : hooks.bufferFree = some free) {id : Nat} (member : id ∈ live)
    (unshared : ¬shared id) (state : ExecState Ptr (Recorded Ptr σ))
    (owns : Owns program held table shared live started state) :
    Owns program held table shared (live.erase id) started
      (freeId (recordFree free) state id) := by
  obtain ⟨buffer, stored, alive⟩ := owns.holds.entries id member
  have after : (freeId (recordFree free) state id).world =
      recordFree free (some buffer) state.world := by
    rw [freeId, stored]
  constructor
  · apply holds_release owns.holds member unshared stored
    · rw [after]
      exact laws.freed free freeHook state.world.world buffer alive
    · rw [after]
      rfl
  · constructor
    · intro one
      simp only [freeId, List.mem_filter, owns.owned.members, Finset.mem_erase, ne_eq,
        decide_eq_true_eq]
      tauto
    · exact owns.owned.nodup.filter _

theorem free_all_owns (laws : AllocatorLaws held hooks dispatch)
    (freeHook : hooks.bufferFree = some free) (ids : List Nat) (nodup : ids.Nodup)
    (members : ∀ id ∈ ids, id ∈ live) (unshared : ∀ id ∈ ids, ¬shared id)
    (state : ExecState Ptr (Recorded Ptr σ))
    (owns : Owns program held table shared live started state) :
    Owns program held table shared (live \ ids.toFinset) started
      (ids.foldl (freeId (recordFree free)) state) :=
  foldl_removes (fun _ _ state member alone owns => free_owns laws freeHook member alone state owns)
    ids nodup members unshared state owns

theorem fail_holds (laws : AllocatorLaws held hooks dispatch)
    (freeHook : hooks.bufferFree = some free) {id : Nat} (member : id ∈ live)
    (unshared : ¬shared id) (state : ExecState Ptr (Recorded Ptr σ))
    (holds : Holds program held table shared live started state.buffers state.world) :
    Holds program held table shared (live.erase id) started
      (failId (recordFree free) state id).buffers (failId (recordFree free) state id).world := by
  obtain ⟨buffer, stored, alive⟩ := holds.entries id member
  simp only [failId, stored]
  apply holds_release holds member unshared stored
  · exact laws.freed free freeHook state.world.world buffer alive
  · rfl

theorem fail_all_holds (laws : AllocatorLaws held hooks dispatch)
    (freeHook : hooks.bufferFree = some free) (ids : List Nat) (nodup : ids.Nodup)
    (members : ∀ id ∈ ids, id ∈ live) (unshared : ∀ id ∈ ids, ¬shared id)
    (state : ExecState Ptr (Recorded Ptr σ))
    (holds : Holds program held table shared live started state.buffers state.world) :
    Holds program held table shared (live \ ids.toFinset) started
      (ids.foldl (failId (recordFree free)) state).buffers
      (ids.foldl (failId (recordFree free)) state).world := by
  have removes (live : Finset Nat) (id : Nat) (state : ExecState Ptr (Recorded Ptr σ))
      (member : id ∈ live) (alone : ¬shared id)
      (holds : Holds program held table shared live started state.buffers state.world) :=
    fail_holds laws freeHook member alone state holds
  exact foldl_removes removes ids nodup members unshared state holds

def Stopped (program : FhnProgram) (pinned : List Nat) (held : σ → Ptr → Prop)
    (table : Buffers Ptr) (shared : Nat → Prop) (state : ExecState Ptr (Recorded Ptr σ)) : Prop :=
  ∃ live started, Owns program held table shared live started state ∧
    ∀ id ∈ program.inputIds, id ∈ pinned → id ∈ live

theorem result_first (valid : SsaValid program) {i : Nat} {inst : FhnInstruction}
    (get : program.instructions[i]? = some inst) (k : Nat) (before : k < i) :
    resultOwner program k ≠ some inst.resultId := by
  intro owned
  rw [resultOwner, Option.map_eq_some_iff] at owned
  obtain ⟨other, found, same⟩ := owned
  apply result_not_defined_before valid i inst get
  rw [← same]
  apply defined_before_mono program (Nat.succ_le_of_lt before)
  rw [defined_before_succ program k other found]
  simp

theorem instruction_owns (laws : AllocatorLaws held hooks dispatch)
    (allocHook : hooks.bufferAlloc = some alloc) (freeHook : hooks.bufferFree = some free)
    (valid : SsaValid program) {pinned : List Nat} {i : Nat} {inst : FhnInstruction}
    {act : FhnMovementActions} (get : program.instructions[i]? = some inst)
    {resident : Finset Nat} (legal : StepLegal inst act live resident)
    (unshared : ∀ id ∈ act.free, ¬shared id)
    (pinnedLive : ∀ id ∈ program.inputIds, id ∈ pinned → id ∈ live)
    (state : ExecState Ptr (Recorded Ptr σ))
    (owns : Owns program held table shared live i state) :
    Ends (Stopped program pinned held table shared)
      (Owns program held table shared ((live ∪ act.alloc.toFinset) \ act.free.toFinset) (i + 1))
      (executeInstruction (recordHooks hooks) (recordAlloc alloc) (recordFree free)
        (recordKernels dispatch) inst act state) := by
  have notInput : inst.resultId ∉ program.inputIds := fun input =>
    result_not_defined_before valid i inst get (List.mem_append_left _ input)
  have early (state : ExecState Ptr (Recorded Ptr σ))
      (owns : Owns program held table shared live i state) :
      Stopped program pinned held table shared state :=
    ⟨live, i, owns, pinnedLive⟩
  have late (state : ExecState Ptr (Recorded Ptr σ))
      (owns : Owns program held table shared (insert inst.resultId live) (i + 1) state) :
      Stopped program pinned held table shared state :=
    ⟨_, _, owns, fun id input isPinned => Finset.mem_insert_of_mem (pinnedLive id input isPinned)⟩
  unfold executeInstruction
  rw [legal.alloc]
  apply ends_bind (ends_mono (evict_all_owns laws act.evict state owns) early fun _ kept => kept)
  intro evicted evictedOwns
  apply ends_bind (ends_mono (alloc_owns laws allocHook get legal.freshResult notInput
    (result_first valid get) evicted evictedOwns) early fun _ kept => kept)
  intro allocated allocatedOwns
  apply ends_bind (ends_mono (prefetch_all_owns laws act.prefetch allocated allocatedOwns) late
    fun _ kept => kept)
  intro loaded loadedOwns
  have ran := dispatch_step_owns laws inst loaded loadedOwns
  have owning : (live ∪ [inst.resultId].toFinset) \ act.free.toFinset =
      insert inst.resultId live \ act.free.toFinset := by
    ext id
    simp
  rw [owning]
  cases outcome : dispatchStep (recordKernels dispatch) inst loaded with
  | error failure =>
      rw [outcome] at ran
      exact ⟨ran.1, late _ ran.2⟩
  | ok dispatched =>
      rw [outcome] at ran
      exact free_all_owns laws freeHook act.free legal.freeNodup
        (fun id freed => Finset.mem_insert.mpr (legal.freed id freed)) unshared dispatched ran

omit [DecidableEq Ptr] in
theorem execute_all_ends {actHooks : FhnMovementHooks Ptr (Recorded Ptr σ)}
    {actAlloc : Recorded Ptr σ → Option Ptr × Recorded Ptr σ}
    {actFree : Option Ptr → Recorded Ptr σ → Recorded Ptr σ}
    {actDispatch : Dispatch Ptr (Recorded Ptr σ)} {plan : FhnMovementPlan}
    {failed : ExecState Ptr (Recorded Ptr σ) → Prop}
    {running : Nat → ExecState Ptr (Recorded Ptr σ) → Prop}
    (length : plan.actions.length = program.instructions.length)
    (steps : ∀ i inst act state, program.instructions[i]? = some inst →
      plan.actions[i]? = some act → running i state →
        Ends failed (running (i + 1))
          (executeInstruction actHooks actAlloc actFree actDispatch inst act state))
    (count i : Nat) (total : i + count = program.instructions.length)
    (state : ExecState Ptr (Recorded Ptr σ)) (start : running i state) :
    Ends failed (running program.instructions.length)
      (executeAll actHooks actAlloc actFree actDispatch
        ((program.instructions.drop i).zip (plan.actions.drop i)) state) := by
  induction count generalizing i state with
  | zero =>
      rw [List.drop_of_length_le (show program.instructions.length ≤ i by omega), ← total]
      exact start
  | succ count induction =>
      have bound : i < program.instructions.length := by omega
      have actBound : i < plan.actions.length := by omega
      have ran := steps i _ _ state (List.getElem?_eq_getElem bound)
        (List.getElem?_eq_getElem actBound) start
      rw [List.drop_eq_getElem_cons bound, List.drop_eq_getElem_cons actBound, List.zip_cons_cons]
      simp only [executeAll]
      cases outcome : executeInstruction actHooks actAlloc actFree actDispatch
          program.instructions[i] plan.actions[i] state with
      | error failure =>
          rw [outcome] at ran
          exact ran
      | ok next =>
          rw [outcome] at ran
          exact induction (i + 1) (by omega) next ran

theorem live_before_succ {program : FhnProgram} {plan : FhnMovementPlan} {i : Nat}
    {act : FhnMovementActions} (found : plan.actions[i]? = some act) :
    liveBefore program plan (i + 1) =
      (liveBefore program plan i ∪ act.alloc.toFinset) \ act.free.toFinset := by
  simp only [liveBefore, found]

theorem step_owns (laws : AllocatorLaws held hooks dispatch)
    (allocHook : hooks.bufferAlloc = some alloc) (freeHook : hooks.bufferFree = some free)
    {pinned : List Nat} {plan : FhnMovementPlan} (legal : PlanLegal program pinned plan)
    (sharedKept : ∀ id, shared id → Unfreed plan id) {i : Nat} {inst : FhnInstruction}
    {act : FhnMovementActions} (get : program.instructions[i]? = some inst)
    (found : plan.actions[i]? = some act) (state : ExecState Ptr (Recorded Ptr σ))
    (owns : Owns program held table shared (liveBefore program plan i) i state) :
    Ends (Stopped program pinned held table shared)
      (Owns program held table shared (liveBefore program plan (i + 1)) (i + 1))
      (executeInstruction (recordHooks hooks) (recordAlloc alloc) (recordFree free)
        (recordKernels dispatch) inst act state) := by
  have bound : i < program.instructions.length := (List.getElem?_eq_some_iff.mp get).1
  have pinnedLive (id : Nat) (input : id ∈ program.inputIds) (isPinned : id ∈ pinned) :
      id ∈ liveBefore program plan i :=
    pinned_live legal i (by omega) id isPinned (List.mem_append_left _ input)
  rw [live_before_succ found]
  exact instruction_owns laws allocHook freeHook legal.valid get (legal.steps i _ _ get found)
    (fun id freed isShared => sharedKept id isShared _ (List.mem_of_getElem? found) freed)
    pinnedLive state owns

theorem run_owns (laws : AllocatorLaws held hooks dispatch)
    (allocHook : hooks.bufferAlloc = some alloc) (freeHook : hooks.bufferFree = some free)
    {pinned : List Nat} {plan : FhnMovementPlan} (legal : PlanLegal program pinned plan)
    (sharedKept : ∀ id, shared id → Unfreed plan id) (count i : Nat)
    (total : i + count = program.instructions.length) (state : ExecState Ptr (Recorded Ptr σ))
    (owns : Owns program held table shared (liveBefore program plan i) i state) :
    Ends (Stopped program pinned held table shared)
      (Owns program held table shared (liveBefore program plan program.instructions.length)
        program.instructions.length)
      (executeAll (recordHooks hooks) (recordAlloc alloc) (recordFree free)
        (recordKernels dispatch) ((program.instructions.drop i).zip (plan.actions.drop i))
        state) := by
  have steps (i : Nat) (inst : FhnInstruction) (act : FhnMovementActions)
      (state : ExecState Ptr (Recorded Ptr σ)) (get : program.instructions[i]? = some inst)
      (found : plan.actions[i]? = some act)
      (owns : Owns program held table shared (liveBefore program plan i) i state) :=
    step_owns laws allocHook freeHook legal sharedKept get found state owns
  exact execute_all_ends legal.length steps count i total state owns

end Hooks

/-- No buffer is freed twice without being allocated in between, and null never. -/
structure NoDoubleFree [DecidableEq Ptr] (events : List (Event Ptr σ)) : Prop where
  once : ∀ before buffer after, ownershipLog events = before ++ .release buffer :: after →
    releasedBeforeReuse buffer after = 0
  noNull : .freed none ∉ events

/-- Every allocation freed once, every result entry null, pinned inputs untouched. -/
structure CleanFailure [DecidableEq Ptr] (program : FhnProgram) (pinned : List Nat)
    (table buffers : Buffers Ptr) (events : List (Event Ptr σ)) : Prop where
  freedOnce : ∀ before buffer after, ownershipLog events = before ++ .acquire buffer :: after →
    releasedBeforeReuse buffer after = 1
  nulled : ∀ id ∈ program.resultIds, buffers id = none
  pinnedInputs : ∀ id ∈ program.inputIds, id ∈ pinned → buffers id = table id ∧
    ∀ buffer, table id = some buffer → .release buffer ∉ ownershipLog events

/-- The `k`-th allocation is for instruction `k`'s result: freed once if that is
not pinned, and still under it if it is. -/
structure CleanSuccess [DecidableEq Ptr] (program : FhnProgram) (pinned : List Nat)
    (held : σ → Ptr → Prop) (buffers : Buffers Ptr) (recorded : Recorded Ptr σ) : Prop where
  allocations : ∀ before buffer after,
    ownershipLog recorded.events = before ++ .acquire buffer :: after →
      ∃ inst, program.instructions[acquisitions before]? = some inst ∧
        (inst.resultId ∉ pinned → releasedBeforeReuse buffer after = 1) ∧
        (inst.resultId ∈ pinned →
          buffers inst.resultId = some buffer ∧ .release buffer ∉ after)
  unpinned : ∀ id ∈ program.resultIds, id ∉ pinned → buffers id = none
  pinnedResults : ∀ id ∈ program.resultIds, id ∈ pinned →
    ∃ buffer, buffers id = some buffer ∧ held recorded.world buffer

structure CleansUp [DecidableEq Ptr] (program : FhnProgram) (pinned : List Nat)
    (held : σ → Ptr → Prop) (table : Buffers Ptr)
    (outcome : Int × ExecState Ptr (Recorded Ptr σ)) : Prop where
  noDoubleFree : NoDoubleFree outcome.2.world.events
  failure : outcome.1 ≠ 0 →
    CleanFailure program pinned table outcome.2.buffers outcome.2.world.events
  success : outcome.1 = 0 → CleanSuccess program pinned held outcome.2.buffers outcome.2.world

/-- Inputs filled with allocated buffers and all other entries null. Two inputs
share a buffer only if the plan frees neither. -/
structure InputTable (held : σ → Ptr → Prop) (program : FhnProgram) (plan : FhnMovementPlan)
    (table : Buffers Ptr) (world : σ) : Prop where
  filled : ∀ id ∈ program.inputIds, ∃ buffer, table id = some buffer ∧ held world buffer
  empty : ∀ id ∉ program.inputIds, table id = none
  apart : ∀ first ∈ program.inputIds, ∀ second ∈ program.inputIds,
    table first = table second → first = second ∨ (Unfreed plan first ∧ Unfreed plan second)

section Contract

variable [DecidableEq Ptr] {program : FhnProgram} {pinned : List Nat} {held : σ → Ptr → Prop}
  {table : Buffers Ptr} {shared : Nat → Prop} {live : Finset Nat} {started : Nat}
  {buffers : Buffers Ptr} {recorded : Recorded Ptr σ}

theorem holds_start {plan : FhnMovementPlan} {world : σ}
    (inputs : InputTable held program plan table world) :
    Holds program held table (fun id => id ∈ program.inputIds ∧ Unfreed plan id)
      program.inputIds.toFinset 0 table { world := world } where
  entries := fun id member => inputs.filled id (List.mem_toFinset.mp member)
  empty := fun id absent => inputs.empty id (fun input => absent (List.mem_toFinset.mpr input))
  apart := by
    intro first member second other equal
    have one := List.mem_toFinset.mp member
    have two := List.mem_toFinset.mp other
    rcases inputs.apart first one second two equal with same | ⟨oneKept, twoKept⟩
    · exact Or.inl same
    · exact Or.inr ⟨⟨one, oneKept⟩, ⟨two, twoKept⟩⟩
  inputs := fun _ _ _ => rfl
  ledger := ledger_start _ _ _
  count := rfl
  noNull := List.not_mem_nil

theorem owned_start (program : FhnProgram) : OwnedExactly program program.inputIds.toFinset [] where
  members := by simp
  nodup := List.nodup_nil

theorem holds_no_double_free
    (holds : Holds program held table shared live started buffers recorded) :
    NoDoubleFree recorded.events where
  once := fun before buffer after split => (holds.ledger.released before buffer after split).1
  noNull := holds.noNull

/-- Once only inputs own buffers, every allocation has been released. -/
theorem holds_clean_failure (valid : SsaValid program)
    (holds : Holds program held table shared live started buffers recorded)
    (onlyInputs : ∀ id ∈ live, id ∈ program.inputIds)
    (pinnedLive : ∀ id ∈ program.inputIds, id ∈ pinned → id ∈ live) :
    CleanFailure program pinned table buffers recorded.events := by
  have resultNotInput (k : Nat) (id : Nat) (owned : resultOwner program k = some id) :
      id ∉ program.inputIds := by
    rw [resultOwner, Option.map_eq_some_iff] at owned
    obtain ⟨inst, get, rfl⟩ := owned
    exact fun input => result_not_defined_before valid k inst get (List.mem_append_left _ input)
  constructor
  · intro before buffer after split
    obtain ⟨id, owned, outcome⟩ := holds.ledger.acquired before buffer after split
    rcases outcome with ⟨member, -⟩ | ⟨-, once, -⟩
    · exact absurd (onlyInputs id member) (resultNotInput _ id owned)
    · exact once
  · intro id result
    obtain ⟨inst, member, rfl⟩ := List.mem_map.mp result
    obtain ⟨k, get⟩ := List.mem_iff_getElem?.mp member
    apply holds.empty
    intro live
    exact resultNotInput k _ (by rw [resultOwner, get]; rfl) (onlyInputs _ live)
  · intro id input isPinned
    have member := pinnedLive id input isPinned
    have unchanged := holds.inputs id member input
    refine ⟨unchanged, ?_⟩
    intro buffer stored
    exact (holds.ledger.untouched id buffer member
      (fun k owned => resultNotInput k id owned input) (unchanged.trans stored)).2

theorem holds_clean_success {plan : FhnMovementPlan} (legal : PlanLegal program pinned plan)
    (holds : Holds program held table shared
      (liveBefore program plan program.instructions.length) started buffers recorded) :
    CleanSuccess program pinned held buffers recorded := by
  have result (k : Nat) (inst : FhnInstruction) (get : program.instructions[k]? = some inst) :
      inst.resultId ∈ program.resultIds :=
    List.mem_map_of_mem (List.mem_of_getElem? get)
  have pinnedHeld (id : Nat) (isResult : id ∈ program.resultIds) (isPinned : id ∈ pinned) :
      id ∈ liveBefore program plan program.instructions.length := by
    apply pinned_live legal _ (le_refl _) id isPinned
    rw [defined_before_length]
    exact List.mem_append_right _ isResult
  constructor
  · intro before buffer after split
    obtain ⟨id, owned, outcome⟩ := holds.ledger.acquired before buffer after split
    rw [resultOwner, Option.map_eq_some_iff] at owned
    obtain ⟨inst, get, rfl⟩ := owned
    refine ⟨inst, get, ?_, ?_⟩
    · intro unpinned
      rcases outcome with ⟨member, -⟩ | ⟨-, once, -⟩
      · exact absurd member (legal.freesResults _ (result _ inst get) unpinned)
      · exact once
    · intro isPinned
      rcases outcome with ⟨-, stored, -, kept⟩ | ⟨gone, -⟩
      · exact ⟨stored, kept⟩
      · exact absurd (pinnedHeld _ (result _ inst get) isPinned) gone
  · intro id isResult unpinned
    exact holds.empty id (legal.freesResults id isResult unpinned)
  · intro id isResult isPinned
    exact holds.entries id (pinnedHeld id isResult isPinned)

end Contract

theorem refused_cleans_up [DecidableEq Ptr] {program : FhnProgram} (valid : SsaValid program)
    (pinned : List Nat) {held : σ → Ptr → Prop} {plan : FhnMovementPlan} {table : Buffers Ptr}
    {world : σ} (inputs : InputTable held program plan table world) :
    CleansUp program pinned held table
      (-1, { world := { world := world }, buffers := table }) where
  noDoubleFree := holds_no_double_free (holds_start inputs)
  failure := fun _ => holds_clean_failure valid (holds_start inputs)
    (fun id member => List.mem_toFinset.mp member) (fun id input _ => List.mem_toFinset.mpr input)
  success := fun success => by cases success

theorem stopped_cleans_up [DecidableEq Ptr] {program : FhnProgram} (valid : SsaValid program)
    {pinned : List Nat} {held : σ → Ptr → Prop} {hooks : FhnMovementHooks Ptr σ}
    {dispatch : Dispatch Ptr σ} (laws : AllocatorLaws held hooks dispatch)
    {free : Option Ptr → σ → σ} (freeHook : hooks.bufferFree = some free) {table : Buffers Ptr}
    {shared : Nat → Prop} (sharedInput : ∀ id, shared id → id ∈ program.inputIds) (rc : Int)
    (failed : rc ≠ 0) (state : ExecState Ptr (Recorded Ptr σ))
    (stopped : Stopped program pinned held table shared state) :
    CleansUp program pinned held table (rc, failCleanup (recordFree free) state) := by
  obtain ⟨live, started, owns, pinnedLive⟩ := stopped
  have cleaned := fail_all_holds laws freeHook state.owned owns.owned.nodup
    (fun id member => ((owns.owned.members id).mp member).1)
    (fun id member isShared => ((owns.owned.members id).mp member).2 (sharedInput id isShared))
    state owns.holds
  have onlyInputs (id : Nat) (member : id ∈ live \ state.owned.toFinset) :
      id ∈ program.inputIds := by
    obtain ⟨held, unowned⟩ := Finset.mem_sdiff.mp member
    by_contra notInput
    exact unowned (List.mem_toFinset.mpr ((owns.owned.members id).mpr ⟨held, notInput⟩))
  have pinnedRemains (id : Nat) (input : id ∈ program.inputIds) (isPinned : id ∈ pinned) :
      id ∈ live \ state.owned.toFinset := by
    refine Finset.mem_sdiff.mpr ⟨pinnedLive id input isPinned, ?_⟩
    intro owned
    exact ((owns.owned.members id).mp (List.mem_toFinset.mp owned)).2 input
  constructor
  · exact holds_no_double_free cleaned
  · exact fun _ => holds_clean_failure valid cleaned onlyInputs pinnedRemains
  · exact fun success => absurd success failed

/-- Plan-aware execution cleans up after itself, whichever call fails. -/
theorem execution_cleans_up [DecidableEq Ptr] (program : FhnProgram) (pinned : List Nat)
    (deviceBudget : UInt64) (policy : FhnEvictionPolicy) (levels : Option FhnLevelModel)
    (plan : FhnMovementPlan)
    (analyzed : analyze program pinned deviceBudget policy levels = some plan)
    (held : σ → Ptr → Prop) (hooks : FhnMovementHooks Ptr σ) (dispatch : Dispatch Ptr σ)
    (laws : AllocatorLaws held hooks dispatch) (table : Buffers Ptr) (world : σ)
    (inputs : InputTable held program plan table world) :
    execute hooks dispatch program plan table world =
        ((recordExecute hooks dispatch program plan table world).1,
          forget (recordExecute hooks dispatch program plan table world).2) ∧
      CleansUp program pinned held table
        (recordExecute hooks dispatch program plan table world) := by
  have legal := analyze_legal analyzed
  have refused := refused_cleans_up legal.valid pinned inputs
  refine ⟨record_execute hooks dispatch program plan table world, ?_⟩
  unfold recordExecute execute
  cases allocHook : hooks.bufferAlloc with
  | none =>
      simp only [recordHooks, allocHook, Option.map_none]
      exact refused
  | some alloc =>
      cases freeHook : hooks.bufferFree with
      | none =>
          simp only [recordHooks, allocHook, freeHook, Option.map_some, Option.map_none]
          exact refused
      | some free =>
          have lifted : (recordHooks hooks).bufferAlloc = some (recordAlloc alloc) := by
            rw [recordHooks, allocHook, Option.map_some]
          have liftedFree : (recordHooks hooks).bufferFree = some (recordFree free) := by
            rw [recordHooks, freeHook, Option.map_some]
          simp only [lifted, liftedFree]
          split
          · exact refused
          · split
            · exact refused
            · have ran := run_owns laws allocHook freeHook legal (fun id isShared => isShared.2)
                program.instructions.length 0 (by omega)
                { world := { world := world }, buffers := table }
                ⟨holds_start inputs, owned_start program⟩
              rw [List.drop_zero, List.drop_zero] at ran
              cases outcome : executeAll (recordHooks hooks) (recordAlloc alloc) (recordFree free)
                  (recordKernels dispatch) (program.instructions.zip plan.actions)
                  { world := { world := world }, buffers := table } with
              | error failure =>
                  rw [outcome] at ran
                  exact stopped_cleans_up legal.valid laws freeHook (fun _ isShared => isShared.1)
                    failure.1 ran.1 failure.2 ran.2
              | ok state =>
                  rw [outcome] at ran
                  exact {
                    noDoubleFree := holds_no_double_free ran.holds
                    failure := fun failed => absurd rfl failed
                    success := fun _ => holds_clean_success legal ran.holds }

section MovementWorld

open Fhenomenon.MovementWorld

theorem movement_allocator_laws :
    AllocatorLaws (fun world buffer => (cellAt world buffer).isSome = true) movementHooks
      movementTable where
  allocated := by
    intro alloc registered world buffer returned
    obtain rfl : movementAlloc = alloc := Option.some.inj registered
    obtain rfl : world.length = buffer := Option.some.inj returned
    refine ⟨by simp [cellAt], ?_⟩
    intro other
    simp only [movementAlloc, cell_append]
    by_cases same : other = world.length <;> simp [same]
  refused := by
    intro alloc registered world returned
    obtain rfl : movementAlloc = alloc := Option.some.inj registered
    cases returned
  freed := by
    intro free registered world buffer alive other
    obtain rfl : movementFree = free := Option.some.inj registered
    obtain ⟨cell, found⟩ := Option.isSome_iff_exists.mp alive
    simp only [movementFree, cell_set world buffer other none (cell_lt found)]
    by_cases same : other = buffer <;> simp [same]
  evicted := by
    intro evict registered buffer world other
    obtain rfl : movementEvict = evict := Option.some.inj registered
    cases buffer with
    | none => rfl
    | some buffer =>
        simp only [movementEvict]
        split
        · rename_i found
          exact cell_overwrite found _ other
        · rfl
  prefetched := by
    intro prefetch registered buffer world other
    obtain rfl : movementPrefetch = prefetch := Option.some.inj registered
    cases buffer with
    | none => rfl
    | some buffer =>
        simp only [movementPrefetch]
        split
        · rename_i found
          exact cell_overwrite found _ other
        · rfl
  called := by
    intro opcode fn registered result operands params fparams world other
    obtain rfl := movement_table_add registered
    simp only [movementAddKernel]
    split
    · rename_i found
      simp only [deviceVal, Option.bind_some] at found
      split at found
      · rename_i live
        exact cell_overwrite live _ other
      · cases found
    · rfl

theorem sum_then_sub_cleans_up :
    (recordExecute movementHooks movementTable sumThenSub sumThenSubPlan separatePair
        [some ⟨true, 5⟩, some ⟨false, 7⟩]).1 = -1 ∧
      CleansUp sumThenSub [4] (fun world buffer => (cellAt world buffer).isSome = true)
        separatePair
        (recordExecute movementHooks movementTable sumThenSub sumThenSubPlan separatePair
          [some ⟨true, 5⟩, some ⟨false, 7⟩]) := by
  refine ⟨by decide, (execution_cleans_up sumThenSub [4] 0 .belady none sumThenSubPlan
    analyze_sum_then_sub (fun world buffer => (cellAt world buffer).isSome = true) movementHooks
    movementTable movement_allocator_laws separatePair [some ⟨true, 5⟩, some ⟨false, 7⟩] ?_).2⟩
  constructor
  · intro id input
    simp only [sumThenSub, List.mem_cons, List.not_mem_nil, or_false] at input
    rcases input with rfl | rfl
    · exact ⟨0, rfl, rfl⟩
    · exact ⟨1, rfl, rfl⟩
  · intro id other
    simp only [sumThenSub, List.mem_cons, List.not_mem_nil, or_false, not_or] at other
    simp only [separatePair]
    split <;> simp_all
  · have distinct : ∀ first ∈ sumThenSub.inputIds, ∀ second ∈ sumThenSub.inputIds,
        separatePair first = separatePair second → first = second := by decide
    exact fun first one second two equal => Or.inl (distinct first one second two equal)

/-- Two unpinned inputs in one buffer are both freed, so the buffer is freed twice. -/
theorem aliased_inputs_freed_twice :
    analyze sumThenSub [4] 0 .belady none = some sumThenSubPlan ∧
      AllocatorLaws (fun world buffer => (cellAt world buffer).isSome = true) movementHooks
        movementTable ∧
      (∀ id ∈ sumThenSub.inputIds, ∃ buffer, aliasedPair id = some buffer ∧
        (cellAt [some ⟨true, 5⟩] buffer).isSome = true) ∧
      (∀ id ∉ sumThenSub.inputIds, aliasedPair id = none) ∧
      (recordExecute movementHooks movementTable sumThenSub sumThenSubPlan aliasedPair
        [some ⟨true, 5⟩]).1 = -1 ∧
      ¬NoDoubleFree (recordExecute movementHooks movementTable sumThenSub sumThenSubPlan
        aliasedPair [some ⟨true, 5⟩]).2.world.events := by
  refine ⟨analyze_sum_then_sub, movement_allocator_laws, ?_, ?_, by decide, ?_⟩
  · intro id input
    simp only [sumThenSub, List.mem_cons, List.not_mem_nil, or_false] at input
    rcases input with rfl | rfl
    · exact ⟨0, rfl, rfl⟩
    · exact ⟨0, rfl, rfl⟩
  · intro id other
    simp only [sumThenSub, List.mem_cons, List.not_mem_nil, or_false, not_or] at other
    simp only [aliasedPair]
    split <;> simp_all
  · intro clean
    have twice := clean.once [.acquire 1] 0
      [.release 0, .acquire 2, .release 1, .release 2] (by decide)
    exact absurd twice (by decide)

end MovementWorld

end Fhenomenon.ExecutorCleanup

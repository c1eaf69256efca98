import Fhenomenon.PlanLegality
import Fhenomenon.DeviceAbi

/-!
# Execution computes the values

`Tracks` ties a buffer table to values without buffers: every live id has a
buffer that holds its value and is on the device when the plan says so. Each
hook and kernel keeps the relation, so plan-aware execution and plain execution
both compute `valueProgram`.
-/

namespace Fhenomenon.ExecutorRefinement

open Fhenomenon.InstructionStream Fhenomenon.MovementPlanner Fhenomenon.PlannerSteps
open Fhenomenon.DeviceReplay Fhenomenon.PlanLegality Fhenomenon.DefaultExecutor
open Fhenomenon.DispatchRecipes Fhenomenon.DeviceAbi

variable {Ptr σ V κ : Type*}

/-- Only ids in `shared` may have one buffer under two names. -/
structure Tracks (model : DeviceModel Ptr σ V κ) (shared : Nat → Prop) (live : Finset Nat)
    (onDevice : Nat → Prop) (buffers : Buffers Ptr) (world : σ) (values : ValueState V κ) :
    Prop where
  context : model.context world = values.context
  held : ∀ id ∈ live, ∃ buffer cell, buffers id = some buffer ∧
    model.cell world buffer = some cell ∧ (onDevice id → cell.resident = true) ∧
    ∀ value, values.values id = some value → cell.contents = value
  apart : ∀ first ∈ live, ∀ second ∈ live, buffers first = buffers second →
    first = second ∨ (shared first ∧ shared second)

def placed (hooks : FhnMovementHooks Ptr σ) (resident : Finset Nat) (id : Nat) : Prop :=
  hooks.prefetch = none ∨ id ∈ resident

variable {model : DeviceModel Ptr σ V κ} {shared onDevice : Nat → Prop} {live : Finset Nat}
  {buffers : Buffers Ptr} {world : σ} {values : ValueState V κ}

theorem tracks_resident (tracks : Tracks model shared live onDevice buffers world values)
    (id : Nat) (member : id ∈ live) (here : onDevice id) :
    ∃ buffer, buffers id = some buffer ∧ model.Resident world buffer ∧
      ∀ value, values.values id = some value → model.contents world buffer = some value := by
  obtain ⟨buffer, ⟨resident, contents⟩, stored, cell, device, holds⟩ := tracks.held id member
  have moved : resident = true := device here
  subst moved
  refine ⟨buffer, stored, ⟨contents, cell⟩, ?_⟩
  intro value known
  rw [DeviceModel.contents, cell, Option.map_some, ← holds value known]

structure CallTracked (inst : FhnInstruction) (live : Finset Nat) (onDevice : Nat → Prop)
    (values : ValueState V κ) (kernel : KernelCall) : Prop where
  named : ∀ slot id, (kernel.operands slot).id? inst = some id →
    id ∈ live ∧ onDevice id ∧ (values.values id).isSome
  absent : ∀ slot, (kernel.operands slot).id? inst = none → kernel.operands slot = .absent

theorem call_ready {inst : FhnInstruction} {kernel : KernelCall}
    (tracks : Tracks model shared live onDevice buffers world values)
    (result : inst.resultId ∈ live) (resultHere : onDevice inst.resultId)
    (tracked : CallTracked inst live onDevice values kernel) :
    CallReady model inst buffers world kernel where
  result := by
    obtain ⟨buffer, stored, resident, -⟩ := tracks_resident tracks _ result resultHere
    exact ⟨buffer, stored, resident⟩
  named := by
    intro slot id named
    obtain ⟨member, here, -⟩ := tracked.named slot id named
    obtain ⟨buffer, stored, resident, -⟩ := tracks_resident tracks id member here
    exact ⟨buffer, stored, resident⟩
  absent := tracked.absent

theorem call_reads {inst : FhnInstruction} {kernel : KernelCall}
    (tracks : Tracks model shared live onDevice buffers world values)
    (tracked : CallTracked inst live onDevice values kernel) (slot : Fin 4) :
    (slotBuffer inst buffers (kernel.operands slot)).bind (model.contents world) =
      ((kernel.operands slot).id? inst).bind values.values := by
  cases named : (kernel.operands slot).id? inst with
  | none =>
      rw [tracked.absent slot named]
      rfl
  | some id =>
      obtain ⟨member, here, known⟩ := tracked.named slot id named
      obtain ⟨buffer, stored, -, holds⟩ := tracks_resident tracks id member here
      obtain ⟨value, valued⟩ := Option.isSome_iff_exists.mp known
      rw [slot_buffer_of_id named, stored, Option.bind_some, Option.bind_some, holds value valued,
        valued]

theorem operands_resident {inst : FhnInstruction} {kernel : KernelCall}
    (ready : CallReady model inst buffers world kernel) (slot : Fin 4) (buffer : Ptr)
    (handed : slotBuffer inst buffers (kernel.operands slot) = some buffer) :
    model.Resident world buffer := by
  cases named : (kernel.operands slot).id? inst with
  | none =>
      rw [ready.absent slot named] at handed
      cases handed
  | some id =>
      obtain ⟨other, stored, resident⟩ := ready.named slot id named
      rw [slot_buffer_of_id named, stored, Option.some.injEq] at handed
      exact handed ▸ resident

theorem run_call_tracks [DecidableEq Ptr] {dispatch : Dispatch Ptr σ}
    (law : KernelLaw model dispatch) {inst : FhnInstruction} {kernel : KernelCall}
    (supported : supports dispatch kernel.opcode = true)
    (tracks : Tracks model shared live onDevice buffers world values)
    (result : inst.resultId ∈ live) (resultHere : onDevice inst.resultId)
    (unshared : ¬shared inst.resultId)
    (tracked : CallTracked inst live onDevice values kernel) :
    (runCall dispatch inst buffers kernel world).1 = (valueCall model inst kernel values).1 ∧
      ((valueCall model inst kernel values).1 = 0 →
        Tracks model shared live onDevice buffers (runCall dispatch inst buffers kernel world).2
          (valueCall model inst kernel values).2) := by
  have ready := call_ready tracks result resultHere tracked
  obtain ⟨target, targetStored, targetResident⟩ := ready.result
  obtain ⟨fn, registered⟩ := Option.isSome_iff_exists.mp supported
  have reads : (fun slot => (slotBuffer inst buffers (kernel.operands slot)).bind
      (model.contents world)) =
        fun slot => ((kernel.operands slot).id? inst).bind values.values := by
    funext slot
    exact call_reads tracks tracked slot
  have computed := law kernel.opcode fn registered world target
    (fun slot => slotBuffer inst buffers (kernel.operands slot)) inst.params inst.fparams
    targetResident (operands_resident ready)
  simp only [reads, tracks.context] at computed
  have called : runCall dispatch inst buffers kernel world =
      fn (some target) (fun slot => slotBuffer inst buffers (kernel.operands slot)) inst.params
        inst.fparams world := by
    rw [runCall, call, registered, targetStored]
  rw [called]
  refine ⟨computed.1, ?_⟩
  intro success
  obtain ⟨cells, context⟩ := computed.2 success
  constructor
  · exact context
  · intro id member
    obtain ⟨buffer, cell, stored, found, device, holds⟩ := tracks.held id member
    by_cases same : buffer = target
    · have named : id = inst.resultId := by
        rcases tracks.apart id member inst.resultId result (by rw [stored, targetStored, same])
          with equal | ⟨-, isShared⟩
        · exact equal
        · exact absurd isShared unshared
      refine ⟨buffer, _, stored, by rw [cells, if_pos same], fun _ => rfl, ?_⟩
      intro value known
      rw [named] at known
      simpa [valueCall] using known
    · have other : id ≠ inst.resultId := by
        rintro rfl
        rw [targetStored, Option.some.injEq] at stored
        exact same stored.symm
      refine ⟨buffer, cell, stored, by rw [cells, if_neg same, found], device, ?_⟩
      intro value known
      apply holds
      simpa [valueCall, Function.update_of_ne other] using known
  · exact tracks.apart

def OperandsTracked (inst : FhnInstruction) (live : Finset Nat) (onDevice : Nat → Prop)
    (values : ValueState V κ) : Prop :=
  ∀ slot, inst.operands slot ≠ 0 → inst.operands slot ∈ live ∧ onDevice (inst.operands slot) ∧
    (values.values (inst.operands slot)).isSome

theorem call_tracked {inst : FhnInstruction} {kernel : KernelCall}
    (operands : OperandsTracked inst live onDevice values)
    (result : inst.resultId ∈ live) (resultHere : onDevice inst.resultId)
    (shaped : ∀ slot position, kernel.operands slot = .operand position →
      inst.operands position ≠ 0)
    (written : (values.values inst.resultId).isSome ∨ ∀ slot, kernel.operands slot ≠ .result) :
    CallTracked inst live onDevice values kernel where
  named := by
    intro slot id named
    cases read : kernel.operands slot with
    | result =>
        rw [read, Slot.id?, Option.some.injEq] at named
        subst named
        rcases written with known | unread
        · exact ⟨result, resultHere, known⟩
        · exact absurd read (unread slot)
    | operand position =>
        have used := shaped slot position read
        rw [read, Slot.id?, if_pos used, Option.some.injEq] at named
        exact named ▸ operands position used
    | absent =>
        rw [read] at named
        cases named
  absent := by
    intro slot unnamed
    cases read : kernel.operands slot with
    | result =>
        rw [read] at unnamed
        cases unnamed
    | operand position =>
        rw [read, Slot.id?, if_pos (shaped slot position read)] at unnamed
        cases unnamed
    | absent => rfl

theorem value_call_keeps {inst : FhnInstruction} {kernel : KernelCall} (id : Nat)
    (known : (values.values id).isSome) :
    ((valueCall model inst kernel values).2.values id).isSome := by
  by_cases same : id = inst.resultId
  · simp [valueCall, same]
  · simpa [valueCall, Function.update_of_ne same] using known

theorem run_calls_tracks [DecidableEq Ptr] {dispatch : Dispatch Ptr σ}
    (law : KernelLaw model dispatch) {inst : FhnInstruction} (good : σ → Prop)
    (calls : List KernelCall)
    (supported : ∀ kernel ∈ calls, supports dispatch kernel.opcode = true)
    (keeps : ∀ kernel ∈ calls, ∀ world, good world → CallReady model inst buffers world kernel →
      good (runCall dispatch inst buffers kernel world).2)
    (shaped : ∀ kernel ∈ calls, ∀ slot position, kernel.operands slot = .operand position →
      inst.operands position ≠ 0)
    (result : inst.resultId ∈ live) (resultHere : onDevice inst.resultId)
    (unshared : ¬shared inst.resultId) (world : σ) (values : ValueState V κ)
    (written : (values.values inst.resultId).isSome ∨
      ∀ kernel, calls.head? = some kernel → ∀ slot, kernel.operands slot ≠ .result)
    (operands : OperandsTracked inst live onDevice values)
    (tracks : Tracks model shared live onDevice buffers world values) (safe : good world) :
    (runCalls dispatch inst buffers calls world).1 = (valueCalls model inst calls values).1 ∧
      good (runCalls dispatch inst buffers calls world).2 ∧
      ((valueCalls model inst calls values).1 = 0 →
        Tracks model shared live onDevice buffers (runCalls dispatch inst buffers calls world).2
          (valueCalls model inst calls values).2) := by
  induction calls generalizing world values with
  | nil => exact ⟨rfl, safe, fun _ => tracks⟩
  | cons kernel rest induction =>
      have first := List.mem_cons_self (a := kernel) (l := rest)
      have tracked : CallTracked inst live onDevice values kernel := by
        apply call_tracked operands result resultHere (shaped kernel first)
        rcases written with known | unread
        · exact Or.inl known
        · exact Or.inr (unread kernel rfl)
      have ready := call_ready tracks result resultHere tracked
      have kept := keeps kernel first world safe ready
      obtain ⟨code, next⟩ := run_call_tracks law (supported kernel first) tracks result resultHere
        unshared tracked
      simp only [run_calls_cons, valueCalls, code]
      by_cases failed : (valueCall model inst kernel values).1 = 0
      · have continued : ¬(valueCall model inst kernel values).1 ≠ 0 := by simpa using failed
        rw [if_neg continued, if_neg continued]
        apply induction
        · exact fun other member => supported other (List.mem_cons_of_mem _ member)
        · exact fun other member => keeps other (List.mem_cons_of_mem _ member)
        · exact fun other member => shaped other (List.mem_cons_of_mem _ member)
        · left
          simp [valueCall]
        · intro slot used
          obtain ⟨member, here, known⟩ := operands slot used
          exact ⟨member, here, value_call_keeps _ known⟩
        · exact next failed
        · exact kept
      · rw [if_pos failed, if_pos failed]
        exact ⟨code, kept, fun success => absurd success failed⟩

/-- Dispatching an instruction computes its value, whichever way it is dispatched. -/
theorem dispatch_tracks [DecidableEq Ptr] {dispatch : Dispatch Ptr σ}
    (law : KernelLaw model dispatch) {inst : FhnInstruction} (good : σ → Prop)
    (keeps : ∀ kernel ∈ kernelCalls dispatch inst, ∀ world, good world →
      CallReady model inst buffers world kernel →
        good (runCall dispatch inst buffers kernel world).2)
    (present : ∀ slot ∈ readSlots inst.opcode, inst.operands slot ≠ 0)
    (result : inst.resultId ∈ live) (resultHere : onDevice inst.resultId)
    (unshared : ¬shared inst.resultId) (world : σ) (values : ValueState V κ)
    (operands : OperandsTracked inst live onDevice values)
    (tracks : Tracks model shared live onDevice buffers world values) (safe : good world) :
    (dispatchInstruction dispatch inst buffers world).1 =
        (valueInstruction model dispatch inst values).1 ∧
      good (dispatchInstruction dispatch inst buffers world).2 ∧
      ((valueInstruction model dispatch inst values).1 = 0 →
        Tracks model shared live onDevice buffers
          (dispatchInstruction dispatch inst buffers world).2
          (valueInstruction model dispatch inst values).2) := by
  have shape := shaped_calls dispatch present
  obtain ⟨code, kept, next⟩ := run_calls_tracks law good (kernelCalls dispatch inst)
    (kernel_calls_supported dispatch inst) keeps shape.operands result resultHere unshared world
    values (Or.inr shape.firstReads) operands tracks safe
  rw [dispatch_instruction_eq]
  simp only [valueInstruction, code]
  refine ⟨trivial, kept, ?_⟩
  intro success
  exact next (dispatch_code_zero dispatch inst _ success).1

/-- A property of worlds that hooks keep, and that kernels keep when every
buffer they are handed is live and on the device. -/
structure Monitor (model : DeviceModel Ptr σ V κ) (hooks : FhnMovementHooks Ptr σ)
    (alloc : σ → Option Ptr × σ) (free : Option Ptr → σ → σ) (dispatch : Dispatch Ptr σ)
    (program : FhnProgram) (good : σ → Prop) : Prop where
  allocated : ∀ world, good world → good (alloc world).2
  freed : ∀ buffer world, good world → good (free buffer world)
  evicted : ∀ evict, hooks.evict = some evict → ∀ buffer world, good world →
    good (evict buffer world).2
  prefetched : ∀ prefetch, hooks.prefetch = some prefetch → ∀ buffer world, good world →
    good (prefetch buffer world).2
  called : ∀ inst ∈ program.instructions, ∀ kernel ∈ kernelCalls dispatch inst,
    ∀ buffers world, good world → CallReady model inst buffers world kernel →
      good (runCall dispatch inst buffers kernel world).2

theorem tracks_mono {small : Finset Nat} {there : Nat → Prop}
    (tracks : Tracks model shared live onDevice buffers world values) (subset : small ⊆ live)
    (weaker : ∀ id ∈ small, there id → onDevice id) :
    Tracks model shared small there buffers world values where
  context := tracks.context
  held := by
    intro id member
    obtain ⟨buffer, cell, stored, found, device, holds⟩ := tracks.held id (subset member)
    exact ⟨buffer, cell, stored, found, fun here => device (weaker id member here), holds⟩
  apart := fun first member second other =>
    tracks.apart first (subset member) second (subset other)

section Hooks

variable [DecidableEq Ptr] {hooks : FhnMovementHooks Ptr σ} {alloc : σ → Option Ptr × σ}
  {free : Option Ptr → σ → σ} {dispatch : Dispatch Ptr σ} {program : FhnProgram}
  {good : σ → Prop} {resident : Finset Nat}

theorem evict_tracks (laws : HookLaws model hooks alloc free)
    (evict : Option Ptr → σ → Int × σ) (registered : hooks.evict = some evict) (id : Nat)
    (tracks : Tracks model shared live (placed hooks resident) buffers world values)
    (residentLive : resident ⊆ live) (here : id ∈ resident) (unshared : ¬shared id) :
    (evict (buffers id) world).1 = 0 ∧
      Tracks model shared live (placed hooks (resident.erase id)) buffers
        (evict (buffers id) world).2 values := by
  obtain ⟨target, stored, ⟨contents, cell⟩, -⟩ :=
    tracks_resident tracks id (residentLive here) (Or.inr here)
  obtain ⟨code, cells, context⟩ := laws.evicted evict registered world target contents cell
  rw [stored]
  refine ⟨code, ?_, ?_, tracks.apart⟩
  · rw [context, tracks.context]
  · intro other member
    obtain ⟨buffer, held, otherStored, found, device, holds⟩ := tracks.held other member
    by_cases same : buffer = target
    · have named : other = id := by
        rcases tracks.apart other member id (residentLive here) (by rw [otherStored, stored, same])
          with equal | ⟨-, isShared⟩
        · exact equal
        · exact absurd isShared unshared
      refine ⟨buffer, _, otherStored, by rw [cells, if_pos same], ?_, ?_⟩
      · intro stays
        rcases stays with absent | still
        · have paired := laws.paired
          rw [registered, absent] at paired
          exact absurd (paired rfl) (by simp)
        · exact absurd still (by simp [named])
      · intro value known
        rw [same, cell, Option.some.injEq] at found
        rw [← holds value known, ← found]
    · refine ⟨buffer, held, otherStored, by rw [cells, if_neg same, found], ?_, holds⟩
      intro stays
      apply device
      rcases stays with absent | still
      · exact Or.inl absent
      · exact Or.inr (Finset.mem_of_mem_erase still)

theorem evict_all_tracks (laws : HookLaws model hooks alloc free)
    (monitor : Monitor model hooks alloc free dispatch program good) (ids : List Nat)
    (state : ExecState Ptr σ) (nodup : ids.Nodup) (here : ∀ id ∈ ids, id ∈ resident)
    (unshared : ∀ id ∈ ids, ¬shared id) (residentLive : resident ⊆ live)
    (tracks : Tracks model shared live (placed hooks resident) state.buffers state.world values)
    (safe : good state.world) :
    ∃ world, evictAll hooks ids state = .ok { state with world := world } ∧ good world ∧
      Tracks model shared live (placed hooks (resident \ ids.toFinset)) state.buffers world
        values := by
  induction ids generalizing state resident with
  | nil =>
      refine ⟨state.world, rfl, safe, ?_⟩
      simpa using tracks
  | cons id rest induction =>
      obtain ⟨absent, nodup⟩ := List.nodup_cons.mp nodup
      cases registered : hooks.evict with
      | none =>
          obtain ⟨after, run, kept, next⟩ := induction state nodup
            (fun other member => here other (List.mem_cons_of_mem _ member))
            (fun other member => unshared other (List.mem_cons_of_mem _ member)) residentLive
            tracks safe
          refine ⟨after, ?_, kept, ?_⟩
          · rw [evictAll, registered]
            exact run
          · apply tracks_mono next (Finset.Subset.refl _)
            intro other _ stays
            rcases stays with still | remains
            · exact Or.inl still
            · simp only [List.toFinset_cons, Finset.mem_sdiff, Finset.mem_insert, not_or] at remains
              exact Or.inr (Finset.mem_sdiff.mpr ⟨remains.1, remains.2.2⟩)
      | some evict =>
          have first := List.mem_cons_self (a := id) (l := rest)
          obtain ⟨code, evicted⟩ := evict_tracks laws evict registered id tracks residentLive
            (here id first) (unshared id first)
          have later (other : Nat) (member : other ∈ rest) : other ∈ resident.erase id := by
            refine Finset.mem_erase.mpr ⟨?_, here other (List.mem_cons_of_mem _ member)⟩
            rintro rfl
            exact absent member
          obtain ⟨after, run, kept, next⟩ := induction
            { state with world := (evict (state.buffers id) state.world).2 } nodup later
            (fun other member => unshared other (List.mem_cons_of_mem _ member))
            ((Finset.erase_subset _ _).trans residentLive) evicted
            (monitor.evicted evict registered _ _ safe)
          refine ⟨after, ?_, kept, ?_⟩
          · rw [evictAll, registered]
            simp only [code, ne_eq, not_true_eq_false, if_false]
            exact run
          · rw [Lib.Removals.sdiff_cons]
            exact next

theorem alloc_tracks (laws : HookLaws model hooks alloc free) (id : Nat) (state : ExecState Ptr σ)
    (fresh : id ∉ live) (unvalued : values.values id = none)
    (tracks : Tracks model shared live (placed hooks resident) state.buffers state.world values) :
    ∃ buffer, allocAll alloc [id] state =
        .ok { world := (alloc state.world).2
              buffers := Function.update state.buffers id (some buffer)
              owned := state.owned ++ [id] } ∧
      Tracks model shared (insert id live) (placed hooks (insert id resident))
        (Function.update state.buffers id (some buffer)) (alloc state.world).2 values := by
  obtain ⟨buffer, value, returned, unused, cells, context⟩ := laws.allocated state.world
  refine ⟨buffer, by simp [allocAll, returned], ?_, ?_, ?_⟩
  · rw [context, tracks.context]
  · intro other member
    by_cases same : other = id
    · subst same
      refine ⟨buffer, _, Function.update_self _ _ _, by rw [cells, if_pos rfl], fun _ => rfl, ?_⟩
      intro known valued
      rw [unvalued] at valued
      cases valued
    · have old : other ∈ live := by simpa [same] using member
      obtain ⟨held, cell, stored, found, device, holds⟩ := tracks.held other old
      refine ⟨held, cell, by rw [Function.update_of_ne same, stored], ?_, ?_, holds⟩
      · rw [cells, if_neg, found]
        rintro rfl
        rw [unused] at found
        cases found
      · intro here
        apply device
        rcases here with absent | there
        · exact Or.inl absent
        · exact Or.inr (Finset.mem_of_mem_insert_of_ne there same)
  · have separate (other : Nat) (member : other ∈ live) : state.buffers other ≠ some buffer := by
      intro stored
      obtain ⟨held, cell, otherStored, found, -⟩ := tracks.held other member
      rw [stored, Option.some.injEq] at otherStored
      rw [← otherStored, unused] at found
      cases found
    intro first firstMember second secondMember equal
    by_cases firstNew : first = id
    · by_cases secondNew : second = id
      · exact Or.inl (firstNew.trans secondNew.symm)
      · rw [firstNew, Function.update_self, Function.update_of_ne secondNew] at equal
        exact absurd equal.symm (separate second (by simpa [secondNew] using secondMember))
    · rw [Function.update_of_ne firstNew] at equal
      by_cases secondNew : second = id
      · rw [secondNew, Function.update_self] at equal
        exact absurd equal (separate first (by simpa [firstNew] using firstMember))
      · rw [Function.update_of_ne secondNew] at equal
        exact tracks.apart first (by simpa [firstNew] using firstMember) second
          (by simpa [secondNew] using secondMember) equal

theorem prefetch_tracks (laws : HookLaws model hooks alloc free)
    (prefetch : Option Ptr → σ → Int × σ) (registered : hooks.prefetch = some prefetch) (id : Nat)
    (member : id ∈ live)
    (tracks : Tracks model shared live (placed hooks resident) buffers world values) :
    (prefetch (buffers id) world).1 = 0 ∧
      Tracks model shared live (placed hooks (insert id resident)) buffers
        (prefetch (buffers id) world).2 values := by
  obtain ⟨target, cell, stored, found, -, -⟩ := tracks.held id member
  obtain ⟨code, cells, context⟩ := laws.prefetched prefetch registered world target cell found
  rw [stored]
  refine ⟨code, ?_, ?_, tracks.apart⟩
  · rw [context, tracks.context]
  · intro other otherMember
    obtain ⟨buffer, held, otherStored, otherFound, device, holds⟩ := tracks.held other otherMember
    by_cases same : buffer = target
    · refine ⟨buffer, _, otherStored, by rw [cells, if_pos same], fun _ => rfl, ?_⟩
      intro value known
      rw [same, found, Option.some.injEq] at otherFound
      rw [otherFound]
      exact holds value known
    · refine ⟨buffer, held, otherStored, by rw [cells, if_neg same, otherFound], ?_, holds⟩
      intro here
      apply device
      rcases here with absent | there
      · exact Or.inl absent
      · right
        apply Finset.mem_of_mem_insert_of_ne there
        rintro rfl
        rw [stored, Option.some.injEq] at otherStored
        exact same otherStored.symm

theorem prefetch_all_tracks (laws : HookLaws model hooks alloc free)
    (monitor : Monitor model hooks alloc free dispatch program good) (ids : List Nat)
    (state : ExecState Ptr σ) (members : ∀ id ∈ ids, id ∈ live)
    (tracks : Tracks model shared live (placed hooks resident) state.buffers state.world values)
    (safe : good state.world) :
    ∃ world, prefetchAll hooks ids state = .ok { state with world := world } ∧ good world ∧
      Tracks model shared live (placed hooks (resident ∪ ids.toFinset)) state.buffers world
        values := by
  induction ids generalizing state resident with
  | nil =>
      refine ⟨state.world, rfl, safe, ?_⟩
      simpa using tracks
  | cons id rest induction =>
      have later (other : Nat) (member : other ∈ rest) : other ∈ live :=
        members other (List.mem_cons_of_mem _ member)
      cases registered : hooks.prefetch with
      | none =>
          obtain ⟨after, run, kept, next⟩ := induction state later tracks safe
          refine ⟨after, ?_, kept, ?_⟩
          · rw [prefetchAll, registered]
            exact run
          · exact tracks_mono next (Finset.Subset.refl _) (fun _ _ _ => Or.inl registered)
      | some prefetch =>
          obtain ⟨code, loaded⟩ := prefetch_tracks laws prefetch registered id
            (members id List.mem_cons_self) tracks
          obtain ⟨after, run, kept, next⟩ := induction
            { state with world := (prefetch (state.buffers id) state.world).2 } later loaded
            (monitor.prefetched prefetch registered _ _ safe)
          refine ⟨after, ?_, kept, ?_⟩
          · rw [prefetchAll, registered]
            simp only [code, ne_eq, not_true_eq_false, if_false]
            exact run
          · have more : resident ∪ (id :: rest).toFinset = insert id resident ∪ rest.toFinset := by
              ext other
              simp
            rw [more]
            exact next

theorem free_tracks (laws : HookLaws model hooks alloc free) (id : Nat) (state : ExecState Ptr σ)
    (member : id ∈ live) (unshared : ¬shared id)
    (tracks : Tracks model shared live onDevice state.buffers state.world values) :
    Tracks model shared (live.erase id) onDevice (freeId free state id).buffers
      (freeId free state id).world values := by
  obtain ⟨target, cell, stored, found, -, -⟩ := tracks.held id member
  obtain ⟨cells, context⟩ := laws.freed state.world target cell found
  simp only [freeId, stored]
  constructor
  · rw [context, tracks.context]
  · intro other remains
    obtain ⟨different, old⟩ := Finset.mem_erase.mp remains
    obtain ⟨buffer, held, otherStored, otherFound, device, holds⟩ := tracks.held other old
    refine ⟨buffer, held, by rw [Function.update_of_ne different, otherStored], ?_, device, holds⟩
    rw [cells, if_neg, otherFound]
    intro same
    rcases tracks.apart other old id member (by rw [otherStored, stored, same]) with
      equal | ⟨-, isShared⟩
    · exact different equal
    · exact unshared isShared
  · intro first firstMember second secondMember equal
    obtain ⟨firstOther, firstOld⟩ := Finset.mem_erase.mp firstMember
    obtain ⟨secondOther, secondOld⟩ := Finset.mem_erase.mp secondMember
    rw [Function.update_of_ne firstOther, Function.update_of_ne secondOther] at equal
    exact tracks.apart first firstOld second secondOld equal

theorem free_all_tracks (laws : HookLaws model hooks alloc free)
    (monitor : Monitor model hooks alloc free dispatch program good) (ids : List Nat)
    (state : ExecState Ptr σ) (nodup : ids.Nodup) (members : ∀ id ∈ ids, id ∈ live)
    (unshared : ∀ id ∈ ids, ¬shared id)
    (tracks : Tracks model shared live onDevice state.buffers state.world values)
    (safe : good state.world) :
    good (ids.foldl (freeId free) state).world ∧
      Tracks model shared (live \ ids.toFinset) onDevice (ids.foldl (freeId free) state).buffers
        (ids.foldl (freeId free) state).world values := by
  have removes (live : Finset Nat) (id : Nat) (state : ExecState Ptr σ) (member : id ∈ live)
      (alone : ¬shared id) (kept : good state.world ∧
        Tracks model shared live onDevice state.buffers state.world values) :
      good (freeId free state id).world ∧
        Tracks model shared (live.erase id) onDevice (freeId free state id).buffers
          (freeId free state id).world values :=
    ⟨monitor.freed _ _ kept.1, free_tracks laws id state member alone kept.2⟩
  exact Lib.Removals.foldl_removes removes ids nodup members unshared state ⟨safe, tracks⟩

end Hooks

end Fhenomenon.ExecutorRefinement
